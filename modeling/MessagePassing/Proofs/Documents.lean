/-
  Message passing — states and documents.

  A document and a state are two forms of the same data: a state keeps the rows of an entity
  in one buffer, a document as a list.

  * `Buffer.ofRowsOfWidth_eq_ok`: a buffer is read from the list of its rows;
  * `GraphDocument.toState_eq_ok`: which state a document becomes;
  * `GraphDocument.exists_toState`: which documents become one;
  * `GraphDocument.toState_ofState`: from a state to its document and back, and the other way
    round.
-/
import Mathlib.Data.List.GetD
import Mathlib.Data.List.Induction
import MessagePassing.Graph.Document
import MessagePassing.Proofs.Acceptance
import MessagePassing.Proofs.Sessions

namespace MessagePassing

open MessagePassing.Count (limit)

/-! ## Rows in a list -/

namespace Buffer

variable {b : Buffer} {rows : List (Array Scalar)} {cols : Nat}

theorem length_rowList (b : Buffer) : b.rowList.length = b.rows := by simp [rowList]

theorem size_of_mem_rowList {row : Array Scalar} (mem : row ∈ b.rowList) : row.size = b.cols := by
  obtain ⟨i, hi, rfl⟩ := List.mem_map.1 mem
  exact b.size_rowAt (List.mem_range.1 hi)

theorem rowList_eq_iff : b.rowList = rows ↔
    b.rows = rows.length ∧ ∀ i < rows.length, b.rowAt i = rows.getD i #[] := by
  constructor
  · rintro rfl
    refine ⟨(length_rowList b).symm, fun i hi => ?_⟩
    rw [length_rowList] at hi
    simp [rowList, hi]
  · rintro ⟨count, same⟩
    refine List.ext_getElem ((length_rowList b).trans count) fun i _ hi => ?_
    simp only [rowList, List.getElem_map, List.getElem_range]
    rw [same i hi, List.getD_eq_getElem _ _ hi]

/-- A buffer is determined by its width and the list of its rows. -/
theorem ext_rowList {a b : Buffer} (cols : a.cols = b.cols) (same : a.rowList = b.rowList) :
    a = b := by
  have count : a.rows = b.rows := by rw [← length_rowList, same, length_rowList]
  refine ext_rows count cols fun i hi => ?_
  rw [(rowList_eq_iff.1 same).2 i (by rwa [length_rowList, ← count]),
    (rowList_eq_iff.1 (rfl : b.rowList = b.rowList)).2 i (by rwa [length_rowList, ← count])]

/-- The values of rows one after the other. -/
theorem joinRows_getD (rows : List (Array Scalar)) :
    joinRows (fun i => rows.getD i #[]) rows.length =
      (rows.map Array.toList).flatten.toArray := by
  induction rows using List.reverseRecOn with
  | nil => rfl
  | append_singleton rows row ih =>
    have earlier : joinRows (fun i => (rows ++ [row]).getD i #[]) rows.length =
        joinRows (fun i => rows.getD i #[]) rows.length :=
      joinRows_congr _ fun i hi => List.getD_append _ _ _ _ hi
    have last : (rows ++ [row]).getD rows.length #[] = row := by simp
    rw [List.length_append, List.length_singleton, joinRows_succ, earlier, ih, last]
    simp

theorem misfit?_eq_none : misfit? rows cols = none ↔ ∀ row ∈ rows, row.size = cols := by
  refine ⟨size_of_misfit?_eq_none, fun sizes => List.find?_eq_none.2 fun p hp => ?_⟩
  simpa using sizes p.1 (List.fst_mem_of_mem_zipIdx hp)

theorem rowList_of_data (count : b.rows = rows.length) (sizes : ∀ row ∈ rows, row.size = b.cols)
    (data : b.data = (rows.map Array.toList).flatten.toArray) : b.rowList = rows := by
  have widths (i : Nat) (hi : i < rows.length) : (rows.getD i #[]).size = b.cols := by
    rw [List.getD_eq_getElem _ _ hi]
    exact sizes _ (List.getElem_mem hi)
  refine rowList_eq_iff.2 ⟨count, fun i hi => ?_⟩
  rw [rowAt, data, ← joinRows_getD]
  exact extract_joinRows _ widths hi

theorem exists_ofRowsOfWidth (sizes : ∀ row ∈ rows, row.size = cols) :
    ∃ b, ofRowsOfWidth rows cols = .ok b ∧ b.cols = cols ∧ b.rowList = rows := by
  rw [ofRowsOfWidth]
  split
  · rename_i bad
    rw [misfit?_eq_none.2 sizes] at bad
    cases bad
  · exact ⟨_, rfl, rfl, rowList_of_data rfl sizes rfl⟩

theorem sizes_of_ofRowsOfWidth (made : ofRowsOfWidth rows cols = .ok b) :
    ∀ row ∈ rows, row.size = cols := by
  rw [ofRowsOfWidth] at made
  split at made
  · cases made
  · exact size_of_misfit?_eq_none ‹_›

/-- A buffer is made of the list of its rows. -/
theorem ofRowsOfWidth_eq_ok : ofRowsOfWidth rows cols = .ok b ↔
    b.cols = cols ∧ b.rowList = rows := by
  constructor
  · intro made
    obtain ⟨c, made', same⟩ := exists_ofRowsOfWidth (sizes_of_ofRowsOfWidth made)
    rw [made] at made'
    cases made'
    exact same
  · rintro ⟨rfl, rfl⟩
    obtain ⟨c, made, width, same⟩ := exists_ofRowsOfWidth fun row mem => size_of_mem_rowList mem
    rw [made, ext_rowList width same]

/-- The width of the first row is that of all rows; without a row it is zero. -/
theorem ofRows_eq (sizes : ∀ row ∈ rows, row.size = cols) (known : rows ≠ [] ∨ cols = 0) :
    ofRows rows = ofRowsOfWidth rows cols := by
  cases rows with
  | nil => rw [known.resolve_left fun h => h rfl]; rfl
  | cons row rest => rw [← sizes row List.mem_cons_self]; rfl

theorem ofFlat_eq_ok {data : Array Scalar} (fits : cols < limit) :
    ofFlat data 1 cols = .ok b ↔ b.rows = 1 ∧ b.cols = cols ∧ b.data = data := by
  rw [ofFlat, if_pos (by rwa [Nat.one_mul])]
  constructor
  · intro made
    split at made
    · cases made
      exact ⟨rfl, rfl, rfl⟩
    · cases made
  · rintro ⟨single, rfl, rfl⟩
    rw [dif_pos (by rw [b.size_data, single])]
    exact congrArg Except.ok (Buffer.ext single.symm rfl rfl)

end Buffer

/-! ## Documents of given widths -/

namespace GraphDocument

variable {d : GraphDocument} {s : State} {w : Widths}

/-- A document with rows of these widths, and with edges between its nodes. -/
structure Fits (d : GraphDocument) (w : Widths) : Prop where
  nodes : ∀ row ∈ d.nodes, row.size = w.nodes
  edges : ∀ row ∈ d.edges, row.size = w.edges
  globals : d.globals.size = w.globals
  size_senders : d.senders.size = d.edges.length
  size_receivers : d.receivers.size = d.edges.length
  sender_lt : ∀ n ∈ d.senders, n < d.nodes.length
  receiver_lt : ∀ n ∈ d.receivers, n < d.nodes.length

theorem fits_ofState (s : State) : (ofState s).Fits s.widths where
  nodes _ := Buffer.size_of_mem_rowList
  edges _ := Buffer.size_of_mem_rowList
  globals := by
    show s.globals.data.size = s.globals.cols
    rw [s.globals.size_data, s.rows_globals, Nat.one_mul]
  size_senders := s.size_senders.trans (Buffer.length_rowList _).symm
  size_receivers := s.size_receivers.trans (Buffer.length_rowList _).symm
  sender_lt n hn := Nat.lt_of_lt_of_eq (s.sender_lt n hn) (Buffer.length_rowList _).symm
  receiver_lt n hn := Nat.lt_of_lt_of_eq (s.receiver_lt n hn) (Buffer.length_rowList _).symm

/-- A document becomes the state that it is the document of. -/
theorem toState_eq_ok (narrow : w.globals < limit) :
    d.toState w = .ok s ↔ ofState s = d ∧ s.widths = w := by
  constructor
  · intro made
    obtain ⟨nodes, hn, made⟩ := Outcome.bind_eq_ok.1 made
    obtain ⟨edges, he, made⟩ := Outcome.bind_eq_ok.1 made
    obtain ⟨globals, hg, made⟩ := Outcome.bind_eq_ok.1 made
    obtain ⟨rfl, rfl, rfl, senders, receivers⟩ := State.ofParts_eq_ok.1 made
    obtain ⟨nodeCols, nodeRows⟩ := Buffer.ofRowsOfWidth_eq_ok.1 hn
    obtain ⟨edgeCols, edgeRows⟩ := Buffer.ofRowsOfWidth_eq_ok.1 he
    obtain ⟨-, globalCols, globalData⟩ := (Buffer.ofFlat_eq_ok narrow).1 hg
    obtain ⟨⟩ := d
    exact ⟨GraphDocument.mk.injEq .. |>.mpr ⟨nodeRows, edgeRows, globalData, senders, receivers⟩,
      Widths.ext nodeCols edgeCols globalCols⟩
  · rintro ⟨rfl, rfl⟩
    have hn := Buffer.ofRowsOfWidth_eq_ok.2 ⟨rfl, (rfl : s.nodes.rowList = s.nodes.rowList)⟩
    have he := Buffer.ofRowsOfWidth_eq_ok.2 ⟨rfl, (rfl : s.edges.rowList = s.edges.rowList)⟩
    have hg := (Buffer.ofFlat_eq_ok narrow).2 ⟨s.rows_globals, rfl, rfl⟩
    simp only [toState, ofState, State.widths] at hn he hg ⊢
    rw [hn, he, hg]
    exact s.ofParts_self

/-- The documents that become a state. -/
theorem exists_toState (narrow : w.globals < limit) :
    (∃ s, d.toState w = .ok s) ↔ d.Fits w := by
  constructor
  · rintro ⟨s, made⟩
    obtain ⟨rfl, rfl⟩ := (toState_eq_ok narrow).1 made
    exact fits_ofState s
  · intro fits
    obtain ⟨nodes, hn, -, nodeRows⟩ := Buffer.exists_ofRowsOfWidth fits.nodes
    obtain ⟨edges, he, -, edgeRows⟩ := Buffer.exists_ofRowsOfWidth fits.edges
    have nodeCount : d.nodes.length = nodes.rows := by rw [← nodeRows, Buffer.length_rowList]
    have edgeCount : d.edges.length = edges.rows := by rw [← edgeRows, Buffer.length_rowList]
    let globals : Buffer := ⟨1, w.globals, d.globals, by rw [fits.globals, Nat.one_mul]⟩
    have hg : Buffer.ofFlat d.globals 1 w.globals = .ok globals :=
      (Buffer.ofFlat_eq_ok narrow).2 ⟨rfl, rfl, rfl⟩
    have coherent : Coherent nodes edges globals d.senders d.receivers :=
      ⟨fits.size_senders.trans edgeCount, fits.size_receivers.trans edgeCount, rfl,
        nodeCount ▸ fits.sender_lt, nodeCount ▸ fits.receiver_lt⟩
    obtain ⟨s, made⟩ := State.ofParts_answers.2 coherent
    refine ⟨s, ?_⟩
    rw [toState, hn, he, hg]
    exact made

/-- Widths taken from the first rows are the given ones, unless there is no row to tell. -/
theorem toStateInferred_eq (fits : d.Fits w) (nodes : d.nodes ≠ [] ∨ w.nodes = 0)
    (edges : d.edges ≠ [] ∨ w.edges = 0) : d.toStateInferred = d.toState w := by
  rw [toStateInferred, toState, Buffer.ofRows_eq fits.nodes nodes,
    Buffer.ofRows_eq fits.edges edges, fits.globals]

/-- **States and documents are two forms of the same data**: the document of a state becomes
    that state, and a document that fits the widths becomes the state that it is the document
    of, with the widths given or taken from its rows. -/
theorem toState_ofState :
    (∀ s : State, s.widths.globals < limit → (ofState s).toState s.widths = .ok s) ∧
    ∀ (d : GraphDocument) (w : Widths), w.globals < limit →
      ((∃ s, d.toState w = .ok s) ↔ d.Fits w) ∧
      ∀ s, d.toState w = .ok s → ofState s = d ∧ s.widths = w ∧
        ((d.nodes ≠ [] ∨ w.nodes = 0) → (d.edges ≠ [] ∨ w.edges = 0) →
          d.toStateInferred = .ok s) := by
  refine ⟨fun s narrow => (toState_eq_ok narrow).2 ⟨rfl, rfl⟩, fun d w narrow =>
    ⟨exists_toState narrow, fun s made => ?_⟩⟩
  obtain ⟨document, widths⟩ := (toState_eq_ok narrow).1 made
  refine ⟨document, widths, fun nodes edges => ?_⟩
  rw [toStateInferred_eq ((exists_toState narrow).1 ⟨s, made⟩) nodes edges, made]

/-- One node without features and with an edge to itself. -/
def bareLoop : GraphDocument := ⟨[#[]], [#[1]], #[], #[0], #[0]⟩

/-- It becomes a state, with widths given or taken from its rows, and so does the self-loop. -/
theorem toState_bareLoop :
    (ofState .selfLoop).toState ⟨1, 1, 1⟩ = .ok .selfLoop ∧
    ∃ s, bareLoop.toState ⟨0, 1, 0⟩ = .ok s ∧ ofState s = bareLoop ∧ s.widths = ⟨0, 1, 0⟩ ∧
      bareLoop.toStateInferred = .ok s := by
  refine ⟨toState_ofState.1 .selfLoop (by decide), ?_⟩
  obtain ⟨accepted, same⟩ := toState_ofState.2 bareLoop ⟨0, 1, 0⟩ (by decide)
  obtain ⟨s, made⟩ := accepted.2 ⟨by decide, by decide, rfl, rfl, rfl, by decide, by decide⟩
  obtain ⟨document, widths, inferred⟩ := same s made
  exact ⟨s, made, document, widths, inferred (.inr rfl) (.inl (by decide))⟩

end GraphDocument

end MessagePassing
