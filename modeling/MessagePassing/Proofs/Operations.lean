/-
  Message passing — how operations end.

  An operation that answers with a result or an error checks its arguments first, and it may
  then compute a shape: the columns of buffers side by side, the rows of a reduction by the
  columns of its source, the inputs of a layer by its outputs.  `Yields good x passes spills`
  tells how it ends: it leaves the range of counts iff `spills`, and what it gives is `good`.
  Whether a process can hold a shape that is a count is not asked.

  * `Buffer.tryZeros_yields`, `Buffer.ofFlat_yields`: constructors that refuse too large shapes;
  * `Buffer.joinColumns_yields`, `Reducer.aggregate_yields`, `Dense.ofTensors_settled`,
    `State.concatenate_yields`: operations that do not look at the shape they compute;
  * `Operation.yields`, `Operation.walk_eq`: how every operation ends, and that no walk leaves
    its storage;
  * `Operation.perform_answers_iff`: an operation answers exactly if the shape that it computes
    is a count;
  * `perform_overflow`: shapes that are no counts, without a single value.
-/
import MessagePassing.Proofs.Documents
import MessagePassing.Proofs.Overflow
import MessagePassing.Proofs.Positions

namespace MessagePassing

open Buffer (Table tableOf rowsOf colsOf Aligned)
open MessagePassing.Count (within limit total)

variable {α : Type}

/-! ## Operations with good results -/

/-- A settled operation, all results of which are good. -/
structure Yields (good : α → Prop) (x : Outcome α) (passes spills : Prop) : Prop extends
    Settled x passes spills where
  good : ∀ a, x = .ok a → good a

section
variable {good : α → Prop} {x : Outcome α} {passes spills : Prop}

theorem Settled.of_ok (pass : passes → ∃ a, x = .ok a)
    (fail : ¬ passes → ∃ e, x = .error (.refused e)) : Settled x passes False := by
  by_cases h : passes
  · obtain ⟨a, rfl⟩ := pass h
    exact (Settled.ok a).congr (by simp [h]) Iff.rfl
  · obtain ⟨e, rfl⟩ := fail h
    constructor <;> simp [h]

/-- An operation that refuses what does not pass, and computes no shape. -/
theorem Yields.of_ok (pass : passes → ∃ a, x = .ok a ∧ good a)
    (fail : ¬ passes → ∃ e, x = .error (.refused e)) : Yields good x passes False := by
  have ends : Settled x passes False := .of_ok (fun h => (pass h).imp fun _ => And.left) fail
  refine ⟨ends, fun b run => ?_⟩
  obtain ⟨a, same, ha⟩ := pass (ends.ok_iff.1 ⟨b, run⟩).1
  cases same.symm.trans run
  exact ha

/-- An operation that refuses what does not pass, and computes a shape for the rest. -/
theorem Yields.of_within {fits : Prop} [Decidable fits]
    (pass : passes → ∃ a, x = within fits a ∧ (fits → good a))
    (fail : ¬ passes → ∃ e, x = .error (.refused e)) :
    Yields good x passes (passes ∧ ¬ fits) := by
  by_cases h : passes
  · obtain ⟨a, rfl, ha⟩ := pass h
    refine ⟨(Settled.within a).congr (by simp [h]) (by simp [h]), fun b run => ?_⟩
    obtain ⟨inside, rfl⟩ := Count.within_eq_ok.1 run
    exact ha inside
  · obtain ⟨e, rfl⟩ := fail h
    refine ⟨(Settled.of_ok (absurd · h) fun _ => ⟨e, rfl⟩).congr Iff.rfl (by simp [h]), ?_⟩
    rintro a ⟨⟩

/-- A function on the result. -/
theorem Yields.map {β : Type} {f : α → β} {fine : β → Prop} (h : Yields good x passes spills)
    (hf : ∀ a, good a → fine (f a)) : Yields fine (f <$> x) passes spills := by
  refine ⟨h.toSettled.bind_ok fun a _ => ⟨f a, rfl⟩, fun b run => ?_⟩
  obtain ⟨a, made, same⟩ := Outcome.bind_eq_ok.1 run
  cases same
  exact hf a (h.good a made)

end

/-! ## Buffers -/

namespace Buffer

variable {b : Buffer} {rows cols : Nat}

theorem tryZeros_yields (hr : rows < limit) (hc : cols < limit) :
    Yields InRange (tryZeros rows cols) (rows * cols < limit) False :=
  .of_ok (fun fits => ⟨_, if_pos fits, .of_shape hr hc fits⟩) fun large => ⟨_, if_neg large⟩

theorem tryZeros_tooLarge (large : limit ≤ rows * cols) :
    tryZeros rows cols = refuseShape (.tooLarge rows cols) := if_neg (Nat.not_lt.2 large)

theorem ofFlat_yields (data : Array Scalar) (hr : rows < limit) (hc : cols < limit) :
    Yields InRange (ofFlat data rows cols) (rows * cols < limit ∧ data.size = rows * cols)
      False := by
  refine .of_ok (fun ⟨fits, size⟩ => ?_) fun other => ?_
  · rw [ofFlat, if_pos fits, dif_pos size]
    exact ⟨_, rfl, .of_shape hr hc fits⟩
  · rw [ofFlat]
    split
    · rename_i fits
      rw [dif_neg fun size => other ⟨fits, size⟩]
      exact ⟨_, rfl⟩
    · exact ⟨_, rfl⟩

theorem ofFlat_tooLarge (data : Array Scalar) (large : limit ≤ rows * cols) :
    ofFlat data rows cols = refuseShape (.tooLarge rows cols) := if_neg (Nat.not_lt.2 large)

/-- The values of rows of one width. -/
theorem total_sizes {rows : List (Array Scalar)} (widths : ∀ row ∈ rows, row.size = cols) :
    total (rows.map Array.size) = rows.length * cols := by
  induction rows with
  | nil => simp
  | cons row rest ih =>
    obtain ⟨first, others⟩ := List.forall_mem_cons.1 widths
    rw [List.map_cons, Count.total_cons, first, ih others, List.length_cons, Nat.succ_mul,
      Nat.add_comm]

/-- A list of rows is held already, so that its shape is never too large. -/
theorem ofRowsOfWidth_yields {rows : List (Array Scalar)} (hr : rows.length < limit)
    (hc : cols < limit) (held : total (rows.map Array.size) < limit) :
    Yields InRange (ofRowsOfWidth rows cols) (∀ row ∈ rows, row.size = cols) False := by
  refine .of_ok (fun widths => ?_) fun other => ?_
  · obtain ⟨b, made, rfl, same⟩ := exists_ofRowsOfWidth widths
    have count : b.rows = rows.length := by rw [← same, length_rowList]
    rw [total_sizes widths, ← count] at held
    exact ⟨b, made, .of_shape (count ▸ hr) hc held⟩
  · rw [ofRowsOfWidth]
    split
    · exact ⟨_, rfl⟩
    · rename_i none
      exact absurd (misfit?_eq_none.1 none) other

theorem setRow_yields (h : b.InRange) (i : Nat) (values : Array Scalar) :
    Yields InRange (b.setRow i values) (i < b.rows ∧ values.size = b.cols) False := by
  refine .of_ok (fun ⟨hi, size⟩ => ?_) fun other => ?_
  · obtain ⟨c, put⟩ := exists_setRow hi size
    exact ⟨c, put, h.setRow put⟩
  · rw [setRow]
    split
    · rename_i hi
      rw [dif_neg fun size => other ⟨hi, size⟩]
      exact ⟨_, rfl⟩
    · exact ⟨_, rfl⟩

/-- Buffers side by side: their columns, and then their values, have to be counted. -/
theorem joinColumns_yields {parts : List Buffer} (h : ∀ p ∈ parts, p.InRange) :
    Yields InRange (joinColumns parts) (Aligned parts)
      (Aligned parts ∧ ¬ (colsOf parts < limit ∧ rowsOf parts * colsOf parts < limit)) := by
  refine .of_within (fun aligned => ?_) fun other => ?_
  · obtain ⟨tables, same⟩ := aligned.exists_tables
    have rows : rowsOf parts < limit := by
      cases parts with
      | nil => decide
      | cons p rest => exact (h p List.mem_cons_self).rows
    have cols := colsOf_tables tables
    rw [same] at cols
    rw [joinColumns_tables same, sideBySide_eq, Count.map_within]
    refine ⟨_, Count.within_congr (by rw [cols]) rfl, fun ⟨width, fits⟩ => ?_⟩
    rw [cols] at width fits
    exact .of_shape rows width fits
  · obtain ⟨cause, refused, -⟩ := joinColumns_of_not_aligned other
    exact ⟨_, refused⟩

theorem columnRange_yields {rows : Nat} (b : Table rows) (h : b.val.InRange) (start stop : Nat) :
    Yields (fun t : Table rows => t.val.InRange) (columnRange b start stop)
      (start ≤ stop ∧ stop ≤ b.val.cols) False := by
  refine .of_ok (fun inside => ?_) fun outside => ⟨_, dif_neg outside⟩
  obtain ⟨t, cut⟩ : ∃ t, columnRange b start stop = .ok t := ⟨_, dif_pos inside⟩
  obtain ⟨-, cols, -⟩ := columnRange_eq_ok.1 cut
  have narrow : t.val.cols ≤ b.val.cols := by omega
  have sameRows : t.val.rows = b.val.rows := t.property.trans b.property.symm
  have fits : t.val.rows * t.val.cols ≤ b.val.data.size := by
    rw [b.val.size_data, sameRows]
    exact Nat.mul_le_mul_left _ narrow
  have width := h.cols
  have size := h.size
  exact ⟨t, cut, .of_shape (sameRows ▸ h.rows) (by omega) (by omega)⟩

end Buffer

/-! ## Reductions and layers -/

/-- A reduction: its rows by the columns of the source have to be counted. -/
theorem Reducer.aggregate_yields (r : Reducer) {source : Buffer} (h : source.InRange)
    (index : Array Nat) {segments : Nat} (hs : segments < limit) :
    Yields (fun t : Table segments => t.val.InRange) (r.aggregate source index segments)
      (index.size = source.rows ∧ ∀ j ∈ index, j < segments)
      ((index.size = source.rows ∧ ∀ j ∈ index, j < segments) ∧
        ¬ segments * source.cols < limit) := by
  refine .of_within (fun ⟨size, inside⟩ => ?_) fun other => ?_
  · rw [aggregate_of_inside r source size inside, reduce_eq]
    exact ⟨_, rfl, fun fits => .of_shape hs h.cols fits⟩
  · by_cases size : index.size = source.rows
    · cases found : index.find? (segments ≤ ·) with
      | some bad => exact ⟨_, aggregate_of_outside r source size (find?_outside.1 found)⟩
      | none => exact absurd ⟨size, find?_outside_eq_none.1 found⟩ other
    · exact ⟨_, aggregate_of_size_ne r source size⟩

/-- A layer: its weights are counted before anything is looked at. -/
theorem Dense.ofTensors_settled (weight bias : Array Scalar) (input output : Nat) :
    Settled (ofTensors weight bias input output)
      (weight.size = input * output ∧ bias.size = output) (¬ input * output < limit) := by
  rw [ofTensors, Count.check_bind]
  by_cases fits : input * output < limit
  · rw [if_pos fits]
    refine Settled.congr (.of_ok (fun both => ?pass) fun other => ?fail) Iff.rfl (by simp [fits])
    case pass =>
      rw [dif_pos both.1, dif_pos both.2]
      exact ⟨_, rfl⟩
    case fail =>
      by_cases hw : weight.size = input * output
      · rw [dif_pos hw, dif_neg fun hb => other ⟨hw, hb⟩]
        exact ⟨_, rfl⟩
      · rw [dif_neg hw]
        exact ⟨_, rfl⟩
  · rw [if_neg fits]
    exact .fault fits

/-! ## States -/

namespace State

variable {s : State}

theorem ofParts_refused {nodes edges globals : Buffer} {senders receivers : Array Nat}
    (other : ¬ Coherent nodes edges globals senders receivers) :
    ∃ e, ofParts nodes edges globals senders receivers = .error (.refused e) := by
  rw [ofParts]
  split
  · exact ⟨_, rfl⟩
  · rename_i ends
    split
    · exact ⟨_, rfl⟩
    · rename_i rows
      split
      · exact ⟨_, rfl⟩
      · rename_i single
        split
        · rename_i failure refused
          obtain ⟨_, c, _, _, _, _, rfl⟩ := (checkAdjacency_decided _ _ _).error_iff.1 refused
          exact ⟨c.error, rfl⟩
        · rename_i adjacency
          obtain ⟨leave, reach⟩ := lt_of_checkAdjacency adjacency
          exact absurd ⟨by omega, by omega, by omega, leave, reach⟩ other

theorem ofParts_yields {nodes edges globals : Buffer} (hn : nodes.InRange) (he : edges.InRange)
    (hg : globals.InRange) (senders receivers : Array Nat) :
    Yields InRange (ofParts nodes edges globals senders receivers)
      (Coherent nodes edges globals senders receivers) False := by
  refine .of_ok (fun coherent => ?_) ofParts_refused
  obtain ⟨s, made⟩ := ofParts_answers.2 coherent
  obtain ⟨rfl, rfl, rfl, -, -⟩ := ofParts_eq_ok.1 made
  exact ⟨s, made, hn, he, hg⟩

/-- States of one graph side by side: every table has to be counted. -/
theorem concatenate_yields (hs : s.InRange) (t : State) :
    Yields InRange (s.concatenate t) (s.SameGraph t)
      (s.SameGraph t ∧ ¬ s.TablesFit (s.widths.beside t.widths)) := by
  refine .of_within (fun same => ⟨_, concatenate_eq same, fun fits => ?_⟩) fun other => ?_
  · simp only [TablesFit, Widths.beside, widths, List.forall_mem_cons] at fits
    obtain ⟨⟨nodeCols, nodes⟩, ⟨edgeCols, edges⟩, ⟨globalCols, globals⟩, -⟩ := fits
    have single : 1 < limit := by decide
    exact ⟨.of_shape hs.nodes.rows nodeCols nodes, .of_shape hs.edges.rows edgeCols edges,
      .of_shape single globalCols globals⟩
  · by_cases nodes : t.nodes.rows = s.nodes.rows
    · by_cases edges : t.edges.rows = s.edges.rows
      · exact ⟨_, concatenate_refused_ends nodes edges other⟩
      · obtain ⟨cause, refused⟩ := concatenate_refused_counts (.inr edges)
        exact ⟨_, refused⟩
    · obtain ⟨cause, refused⟩ := concatenate_refused_counts (.inl nodes)
      exact ⟨_, refused⟩

/-- Ranges of columns that lie within the features. -/
def RangesFit (s : State) (nodes edges globals : Nat × Nat) : Prop :=
  (nodes.1 ≤ nodes.2 ∧ nodes.2 ≤ s.nodes.cols) ∧ (edges.1 ≤ edges.2 ∧ edges.2 ≤ s.edges.cols) ∧
    globals.1 ≤ globals.2 ∧ globals.2 ≤ s.globals.cols

theorem sliceFeatures_yields (hs : s.InRange) (nodes edges globals : Nat × Nat) :
    Yields InRange (s.sliceFeatures nodes edges globals) (s.RangesFit nodes edges globals)
      False := by
  have ends := Settled.of_decided (s.sliceFeatures_decided nodes edges globals)
  have passes : (∀ c ∈ s.sliceChecks nodes edges globals, c.holds) ↔
      s.RangesFit nodes edges globals := by
    simp [sliceChecks, Buffer.rangeCheck, RangesFit, Buffer.table, globalTable]
  refine ⟨ends.congr passes Iff.rfl, fun u cut => ?_⟩
  obtain ⟨same, nodeCols, edgeCols, globalCols⟩ := sliceFeatures_eq_ok.1 cut
  exact ⟨(Buffer.columnRange_yields _ hs.nodes _ _).good _ nodeCols,
    (Buffer.columnRange_yields _ hs.edges _ _).good _ edgeCols,
    (Buffer.columnRange_yields _ hs.globals _ _).good _ globalCols⟩

theorem split_yields (hs : s.InRange) (cut : Widths) :
    Yields (fun p => p.1.InRange ∧ p.2.InRange) (s.split cut) (cut.Within s.widths) False := by
  have ends := Settled.of_decided (s.split_decided cut)
  refine ⟨ends.congr forall_splitChecks Iff.rfl, fun ⟨head, tail⟩ run => ?_⟩
  obtain ⟨before, after⟩ := split_eq_ok.1 run
  exact ⟨(sliceFeatures_yields hs _ _ _).good head before,
    (sliceFeatures_yields hs _ _ _).good tail after⟩

end State

/-! ## All operations -/

/-- As a process can hold it. -/
def Answer.InRange : Answer → Prop
  | buffer b => b.InRange
  | layer _ => True
  | state s => s.InRange
  | states s t => s.InRange ∧ t.InRange

namespace Operation

/-- Its arguments are counts, and buffers, states and lists of rows that a process can hold. -/
def InRange : Operation → Prop
  | tryZeros rows cols => rows < limit ∧ cols < limit
  | ofFlat _ rows cols => rows < limit ∧ cols < limit
  | ofRowsOfWidth rows cols =>
    rows.length < limit ∧ cols < limit ∧ total (rows.map Array.size) < limit
  | setRow b _ _ => b.InRange
  | joinColumns parts => ∀ p ∈ parts, p.InRange
  | columnRange b _ _ => b.InRange
  | aggregate _ source _ segments => source.InRange ∧ segments < limit
  | ofTensors _ _ _ _ => True
  | ofParts nodes edges globals _ _ => nodes.InRange ∧ edges.InRange ∧ globals.InRange
  | concatenate s t => s.InRange ∧ t.InRange
  | sliceFeatures s _ _ _ => s.InRange
  | split s _ => s.InRange

/-- What it looks at before it gives a result. -/
def Passes : Operation → Prop
  | tryZeros rows cols => rows * cols < limit
  | ofFlat data rows cols => rows * cols < limit ∧ data.size = rows * cols
  | ofRowsOfWidth rows cols => ∀ row ∈ rows, row.size = cols
  | setRow b i values => i < b.rows ∧ values.size = b.cols
  | joinColumns parts => Aligned parts
  | columnRange b start stop => start ≤ stop ∧ stop ≤ b.cols
  | aggregate _ source index segments => index.size = source.rows ∧ ∀ j ∈ index, j < segments
  | ofTensors weight bias input output => weight.size = input * output ∧ bias.size = output
  | ofParts nodes edges globals senders receivers => Coherent nodes edges globals senders receivers
  | concatenate s t => s.SameGraph t
  | sliceFeatures s nodes edges globals => s.RangesFit nodes edges globals
  | split s cut => cut.Within s.widths

/-- It computes a shape that is no count, which it does not look at.  The weights of a layer are
    counted first of all, and other shapes only of arguments that pass. -/
def Spills : Operation → Prop
  | joinColumns parts =>
    Aligned parts ∧ ¬ (colsOf parts < limit ∧ rowsOf parts * colsOf parts < limit)
  | aggregate _ source index segments =>
    (index.size = source.rows ∧ ∀ j ∈ index, j < segments) ∧ ¬ segments * source.cols < limit
  | ofTensors _ _ input output => ¬ input * output < limit
  | concatenate s t => s.SameGraph t ∧ ¬ s.TablesFit (s.widths.beside t.widths)
  | _ => False

/-- How an operation ends. -/
theorem yields {o : Operation} (h : o.InRange) :
    Yields Answer.InRange o.perform o.Passes o.Spills := by
  cases o with
  | tryZeros rows cols => exact (Buffer.tryZeros_yields h.1 h.2).map fun _ hb => hb
  | ofFlat data rows cols => exact (Buffer.ofFlat_yields data h.1 h.2).map fun _ hb => hb
  | ofRowsOfWidth rows cols =>
    exact (Buffer.ofRowsOfWidth_yields h.1 h.2.1 h.2.2).map fun _ hb => hb
  | setRow b i values => exact (Buffer.setRow_yields h i values).map fun _ hb => hb
  | joinColumns parts => exact (Buffer.joinColumns_yields h).map fun _ hb => hb
  | columnRange b start stop =>
    exact (Buffer.columnRange_yields b.table h start stop).map fun _ hb => hb
  | aggregate r source index segments =>
    exact (r.aggregate_yields h.1 index h.2).map fun _ hb => hb
  | ofTensors weight bias input output =>
    have ends := Dense.ofTensors_settled weight bias input output
    exact Yields.map ⟨ends, fun _ _ => trivial⟩ fun _ hd => hd
  | ofParts nodes edges globals senders receivers =>
    exact (State.ofParts_yields h.1 h.2.1 h.2.2 senders receivers).map fun _ hs => hs
  | concatenate s t => exact (State.concatenate_yields h.1 t).map fun _ hs => hs
  | sliceFeatures s nodes edges globals =>
    exact (State.sliceFeatures_yields h nodes edges globals).map fun _ hs => hs
  | split s cut => exact (State.split_yields h cut).map fun _ hs => hs

/-- No walk leaves its storage: each ends as the operation on rows does. -/
theorem walk_eq {o : Operation} (h : o.InRange) : o.walk = Answer.storages <$> o.perform := by
  cases o with
  | setRow b i values =>
    rw [walk, Buffer.runSetRow_eq h, perform, Functor.map_map]
    rfl
  | joinColumns parts =>
    rw [walk, Buffer.runJoinColumns_eq h, perform, Functor.map_map, Functor.map_map]
    rfl
  | columnRange b start stop =>
    have run := Buffer.runColumnRange_eq b.table h start stop
    dsimp only [Buffer.table] at run
    rw [walk, run, perform, Functor.map_map, Functor.map_map]
    rfl
  | aggregate r source index segments =>
    rw [walk, r.runAggregate_eq h.1 h.2, perform, Functor.map_map, Functor.map_map]
    rfl
  | concatenate s t =>
    rw [walk, State.runConcatenate_eq h.1 h.2, perform, Functor.map_map]
    rfl
  | sliceFeatures s nodes edges globals =>
    rw [walk, State.runSliceFeatures_eq h, perform, Functor.map_map]
    rfl
  | split s cut =>
    rw [walk, State.runSplit_eq h, perform, Functor.map_map]
    rfl
  | _ => rfl

/-- A shape from outside that is no count is refused. -/
theorem perform_tooLarge {o : Operation} {rows cols : Nat} (large : limit ≤ rows * cols)
    (shape : o = .tryZeros rows cols ∨ ∃ data, o = .ofFlat data rows cols) :
    o.perform = refuseShape (.tooLarge rows cols) := by
  rcases shape with rfl | ⟨data, rfl⟩
  · rw [perform, Buffer.tryZeros_tooLarge large]
    rfl
  · rw [perform, Buffer.ofFlat_tooLarge data large]
    rfl

/-- **An operation answers exactly if the shape that it computes is a count**: for all arguments
    that a process can hold,

    * its walk along the storage ends as the operation on rows does, so that no row is read or
      written outside of the storage;
    * it ends with a result or with an error iff it does not spill, and a shape that is no count
      is its only fault;
    * it gives a result iff its arguments pass, too, and the counts of this result are in range
      again;
    * a shape from outside that is no count is an error. -/
theorem perform_answers_iff (o : Operation) (h : o.InRange) :
    o.walk = Answer.storages <$> o.perform ∧
      ((∃ a, o.perform = .ok a) ∨ (∃ e, o.perform = .error (.refused e)) ↔ ¬ o.Spills) ∧
      (∀ f, o.perform = .error (.fault f) ↔ f = .countOverflow ∧ o.Spills) ∧
      ((∃ a, o.perform = .ok a) ↔ o.Passes ∧ ¬ o.Spills) ∧
      (∀ a, o.perform = .ok a → a.InRange) ∧
      ∀ rows cols, limit ≤ rows * cols →
        (o = .tryZeros rows cols ∨ ∃ data, o = .ofFlat data rows cols) →
          o.perform = refuseShape (.tooLarge rows cols) :=
  ⟨walk_eq h, (yields h).answers_iff, (yields h).fault_iff, (yields h).ok_iff, (yields h).good,
    fun _ _ => perform_tooLarge⟩

/-- The self-loop can be joined to the one with two features of the node. -/
theorem perform_answers_loops :
    (concatenate .selfLoop .wideLoop).InRange ∧
      ∃ a, (concatenate .selfLoop .wideLoop).perform = .ok a ∧ a.InRange ∧
        (concatenate .selfLoop .wideLoop).walk = .ok a.storages := by
  have loops : (concatenate .selfLoop .wideLoop).InRange :=
    ⟨⟨⟨by decide, by decide, by decide⟩, ⟨by decide, by decide, by decide⟩,
      ⟨by decide, by decide, by decide⟩⟩, ⟨by decide, by decide, by decide⟩,
      ⟨by decide, by decide, by decide⟩, ⟨by decide, by decide, by decide⟩⟩
  obtain ⟨walks, -, -, passes, held, -⟩ := perform_answers_iff _ loops
  obtain ⟨a, run⟩ := passes.2 ⟨⟨rfl, rfl, rfl, rfl⟩, fun spills => spills.2 (by decide)⟩
  exact ⟨loops, a, run, held a run, by rw [walks, run]; rfl⟩

end Operation

/-- No row of half as many columns as there are counts. -/
def noRows : Buffer := ⟨0, limit / 2, #[], by decide⟩

/-- **Shapes that are no counts**, from a list of rows without a row: two of its buffers side by
    side, its reduction to two rows, a layer of its width with two outputs, and two states
    without nodes. -/
theorem perform_overflow :
    Operation.perform (.ofRowsOfWidth [] (limit / 2)) = .ok (.buffer noRows) ∧
    Operation.perform (.joinColumns [noRows, noRows]) = .error (.fault .countOverflow) ∧
    Operation.perform (.aggregate .sum noRows #[] 2) = .error (.fault .countOverflow) ∧
    Operation.perform (.ofTensors #[] #[] (limit / 2) 2) = .error (.fault .countOverflow) ∧
    ∃ s, Operation.perform (.ofParts noRows (.blank 0 1) (.blank 1 1) #[] #[]) = .ok (.state s) ∧
      Operation.perform (.concatenate s s) = .error (.fault .countOverflow) :=
  ⟨rfl, rfl, rfl, rfl, _, rfl, rfl⟩

end MessagePassing
