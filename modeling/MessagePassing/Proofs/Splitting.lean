/-
  Message passing — features apart.

  Splitting cuts every row of an entity at one column, and joining puts the two halves
  together again.

  * `Buffer.columnRange_eq_ok`: what a range of columns holds;
  * `State.split_eq_ok`: what the two halves of a state are;
  * `State.split_beside`, `State.beside_of_split`: joining, then splitting, and the other way
    round;
  * `State.concatenate_split`: the two operations undo each other, and what they refuse.
-/
import MessagePassing.Proofs.Acceptance
import MessagePassing.Proofs.Joining

namespace MessagePassing

open Buffer (Table)
open MessagePassing.Count (limit)

/-! ## Tables -/

namespace Buffer

variable {rows : Nat}

theorem columnRange_eq_ok {b c : Table rows} {start stop : Nat} :
    columnRange b start stop = .ok c ↔ (start ≤ stop ∧ stop ≤ b.val.cols) ∧
      c.val.cols = stop - start ∧
      ∀ i < rows, c.val.rowAt i = (b.val.rowAt i).extract start stop := by
  have sizes (h : start ≤ stop ∧ stop ≤ b.val.cols) (i : Nat) (hi : i < rows) :
      ((b.val.rowAt i).extract start stop).size = stop - start := by
    rw [Array.size_extract, size_rowAt_table b hi, Nat.min_eq_left h.2]
  constructor
  · intro cut
    rw [columnRange] at cut
    split at cut
    · rename_i h
      cases cut
      exact ⟨h, rfl, fun i hi => rowAt_tabulate (sizes h) hi⟩
    · cases cut
  · rintro ⟨h, cols, same⟩
    rw [columnRange, dif_pos h]
    refine congrArg Except.ok (table_ext cols.symm fun i hi => ?_)
    exact (rowAt_tabulate (sizes h) hi).trans (same i hi).symm

/-- The range has to lie within the columns. -/
def rangeCheck {rows : Nat} (b : Table rows) (start stop : Nat) : Check where
  holds := start ≤ stop ∧ stop ≤ b.val.cols
  error := .shape (.columnRange start stop b.val.cols)

theorem columnRange_decided (b : Table rows) (start stop : Nat) :
    DecidedBy (columnRange b start stop) [rangeCheck b start stop] := by
  by_cases inside : start ≤ stop ∧ stop ≤ b.val.cols
  · exact .single (fun _ => dif_pos inside) (fun outside => absurd inside outside)
  · exact .single (a := b) (fun h => absurd h inside) (fun _ => dif_neg inside)

theorem rowAt_beside (a b : Table rows) {i : Nat} (hi : i < rows) :
    (beside a b).val.rowAt i = a.val.rowAt i ++ b.val.rowAt i :=
  rowAt_tableOf _ hi

/-- The first of two tables, cut out again. -/
theorem columnRange_beside_left (a b : Table rows) :
    columnRange (beside a b) 0 a.val.cols = .ok a := by
  refine columnRange_eq_ok.2 ⟨⟨Nat.zero_le _, Nat.le_add_right _ _⟩, rfl, fun i hi => ?_⟩
  rw [rowAt_beside a b hi, ← size_rowAt_table a hi, Array.extract_append_left,
    Array.extract_size]

/-- The second of two tables, cut out again. -/
theorem columnRange_beside_right (a b : Table rows) :
    columnRange (beside a b) a.val.cols (a.val.cols + b.val.cols) = .ok b := by
  refine columnRange_eq_ok.2 ⟨⟨Nat.le_add_right _ _, Nat.le_refl _⟩,
    (Nat.add_sub_cancel_left _ _).symm, fun i hi => ?_⟩
  rw [rowAt_beside a b hi, ← size_rowAt_table a hi, ← size_rowAt_table b hi,
    Array.extract_append_right, Array.extract_size]

/-- The columns before and from a cut, side by side. -/
theorem beside_of_columnRange {b head tail : Table rows} {cut : Nat}
    (before : columnRange b 0 cut = .ok head)
    (after : columnRange b cut b.val.cols = .ok tail) : beside head tail = b := by
  obtain ⟨⟨-, inside⟩, headCols, headRows⟩ := columnRange_eq_ok.1 before
  obtain ⟨-, tailCols, tailRows⟩ := columnRange_eq_ok.1 after
  refine table_ext ?_ fun i hi => ?_
  · show head.val.cols + tail.val.cols = b.val.cols
    omega
  · rw [rowAt_beside head tail hi, headRows i hi, tailRows i hi,
      Array.extract_append_extract, Nat.min_eq_left (Nat.zero_le _), Nat.max_eq_right inside,
      ← size_rowAt_table b hi, Array.extract_size]

/-- Under which name the rows are counted does not matter. -/
theorem val_beside {n m : Nat} {a b : Buffer} (ha : a.rows = n) (hb : b.rows = n)
    (ha' : a.rows = m) (hb' : b.rows = m) :
    (beside (⟨a, ha⟩ : Table n) ⟨b, hb⟩).val = (beside (⟨a, ha'⟩ : Table m) ⟨b, hb'⟩).val := by
  subst ha
  subst ha'
  rfl

end Buffer

/-! ## States -/

/-- A cut that lies within the widths. -/
def Widths.Within (cut w : Widths) : Prop :=
  cut.nodes ≤ w.nodes ∧ cut.edges ≤ w.edges ∧ cut.globals ≤ w.globals

instance (cut w : Widths) : Decidable (cut.Within w) := inferInstanceAs (Decidable (_ ∧ _ ∧ _))

theorem Widths.add_lt {u v w : Widths} (added : v.add w = .ok u) :
    v.nodes + w.nodes < limit ∧ v.edges + w.edges < limit ∧ v.globals + w.globals < limit := by
  obtain ⟨nodes, hnodes, added⟩ := Outcome.bind_eq_ok.1 added
  obtain ⟨edges, hedges, added⟩ := Outcome.bind_eq_ok.1 added
  obtain ⟨globals, hglobals, added⟩ := Outcome.bind_eq_ok.1 added
  exact ⟨(Count.add_eq_ok.1 hnodes).1, (Count.add_eq_ok.1 hedges).1,
    (Count.add_eq_ok.1 hglobals).1⟩

namespace State

open Buffer (columnRange columnRange_eq_ok rangeCheck columnRange_decided)

variable {s t u head tail : State} {cut : Widths}

theorem sliceFeatures_eq_ok {nodes edges globals : Nat × Nat} :
    s.sliceFeatures nodes edges globals = .ok u ↔ ∃ same : s.SameGraph u,
      columnRange s.nodes.table nodes.1 nodes.2 = .ok ⟨u.nodes, same.nodeCount⟩ ∧
      columnRange s.edges.table edges.1 edges.2 = .ok ⟨u.edges, same.edgeCount⟩ ∧
      columnRange s.globalTable globals.1 globals.2 = .ok u.globalTable := by
  constructor
  · intro cut
    obtain ⟨n, hn, cut⟩ := Outcome.bind_eq_ok.1 cut
    obtain ⟨e, he, cut⟩ := Outcome.bind_eq_ok.1 cut
    obtain ⟨g, hg, cut⟩ := Outcome.bind_eq_ok.1 cut
    cases cut
    exact ⟨⟨n.property, e.property, rfl, rfl⟩, hn, he, hg⟩
  · rintro ⟨same, hn, he, hg⟩
    rw [sliceFeatures, hn, he, hg]
    exact congrArg Except.ok (State.ext rfl rfl rfl same.senders.symm same.receivers.symm)

theorem split_eq_ok : s.split cut = .ok (head, tail) ↔
    s.sliceFeatures (0, cut.nodes) (0, cut.edges) (0, cut.globals) = .ok head ∧
    s.sliceFeatures (cut.nodes, s.widths.nodes) (cut.edges, s.widths.edges)
      (cut.globals, s.widths.globals) = .ok tail := by
  constructor
  · intro run
    obtain ⟨h, hh, run⟩ := Outcome.bind_eq_ok.1 run
    obtain ⟨t, ht, run⟩ := Outcome.bind_eq_ok.1 run
    cases run
    exact ⟨hh, ht⟩
  · rintro ⟨hh, ht⟩
    rw [split, hh, ht]
    rfl

/-- Features that were joined come apart again. -/
theorem split_beside (same : s.SameGraph t) : (s.beside t same).split s.widths = .ok (s, t) :=
  split_eq_ok.2 ⟨sliceFeatures_eq_ok.2 ⟨(sameGraph_beside same).symm,
      Buffer.columnRange_beside_left _ _, Buffer.columnRange_beside_left _ _,
      Buffer.columnRange_beside_left _ _⟩,
    sliceFeatures_eq_ok.2 ⟨(sameGraph_beside same).symm.trans same,
      Buffer.columnRange_beside_right _ _, Buffer.columnRange_beside_right _ _,
      Buffer.columnRange_beside_right _ _⟩⟩

/-- The halves of a state have its graph, and side by side they are the state. -/
theorem beside_of_split (run : s.split cut = .ok (head, tail)) :
    ∃ same : head.SameGraph tail, head.beside tail same = s := by
  obtain ⟨before, after⟩ := split_eq_ok.1 run
  obtain ⟨toHead, headNodes, headEdges, headGlobals⟩ := sliceFeatures_eq_ok.1 before
  obtain ⟨toTail, tailNodes, tailEdges, tailGlobals⟩ := sliceFeatures_eq_ok.1 after
  refine ⟨toHead.symm.trans toTail, State.ext ?_ ?_ ?_ toHead.senders toHead.receivers⟩
  · exact (Buffer.val_beside _ _ _ _).trans
      (congrArg Subtype.val (Buffer.beside_of_columnRange headNodes tailNodes))
  · exact (Buffer.val_beside _ _ _ _).trans
      (congrArg Subtype.val (Buffer.beside_of_columnRange headEdges tailEdges))
  · exact congrArg Subtype.val (Buffer.beside_of_columnRange headGlobals tailGlobals)

/-- The checks on a slice, nodes before edges before globals. -/
def sliceChecks (s : State) (nodes edges globals : Nat × Nat) : List Check :=
  [rangeCheck s.nodes.table nodes.1 nodes.2, rangeCheck s.edges.table edges.1 edges.2,
    rangeCheck s.globalTable globals.1 globals.2]

theorem sliceFeatures_decided (s : State) (nodes edges globals : Nat × Nat) :
    DecidedBy (s.sliceFeatures nodes edges globals) (s.sliceChecks nodes edges globals) :=
  (columnRange_decided _ _ _).bind fun _ _ => (columnRange_decided _ _ _).bind fun _ _ =>
    (columnRange_decided _ _ _).bind_ok fun _ _ => ⟨_, rfl⟩

/-- The checks on the two halves. -/
def splitChecks (s : State) (cut : Widths) : List Check :=
  s.sliceChecks (0, cut.nodes) (0, cut.edges) (0, cut.globals) ++
    s.sliceChecks (cut.nodes, s.widths.nodes) (cut.edges, s.widths.edges)
      (cut.globals, s.widths.globals)

theorem split_decided (s : State) (cut : Widths) :
    DecidedBy (s.split cut) (s.splitChecks cut) :=
  (sliceFeatures_decided _ _ _ _).bind fun _ _ =>
    (sliceFeatures_decided _ _ _ _).bind_ok fun _ _ => ⟨_, rfl⟩

theorem forall_splitChecks :
    (∀ c ∈ s.splitChecks cut, c.holds) ↔ cut.Within s.widths := by
  simp only [splitChecks, sliceChecks, rangeCheck, Widths.Within, widths, Buffer.table,
    globalTable, List.cons_append, List.nil_append, List.forall_mem_cons]
  simp
  omega

/-- A state can be split exactly within its widths. -/
theorem exists_split : (∃ parts, s.split cut = .ok parts) ↔ cut.Within s.widths :=
  (split_decided s cut).ok_iff.trans forall_splitChecks

/-- Any other cut is an error of shape. -/
theorem split_refused (outside : ¬ cut.Within s.widths) :
    ∃ cause, s.split cut = refuseShape cause := by
  cases run : s.split cut with
  | ok parts => exact absurd (exists_split.1 ⟨parts, run⟩) outside
  | error failure =>
    obtain ⟨before, c, after, split, -, -, rfl⟩ := (split_decided s cut).error_iff.1 run
    have member : c ∈ s.splitChecks cut := by rw [split]; simp
    simp only [splitChecks, sliceChecks, List.cons_append, List.nil_append, List.mem_cons,
      List.not_mem_nil, or_false] at member
    rcases member with rfl | rfl | rfl | rfl | rfl | rfl <;> exact ⟨_, rfl⟩

/-! ## Joining and splitting -/

theorem concatenate_refused_counts
    (other : t.nodes.rows ≠ s.nodes.rows ∨ t.edges.rows ≠ s.edges.rows) :
    ∃ cause, s.concatenate t = refuseShape cause := by
  rw [concatenate]
  split
  · rename_i nodes
    rw [dif_neg (other.resolve_left fun h => h nodes)]
    exact ⟨_, rfl⟩
  · exact ⟨_, rfl⟩

theorem concatenate_refused_ends (nodes : t.nodes.rows = s.nodes.rows)
    (edges : t.edges.rows = s.edges.rows) (other : ¬ s.SameGraph t) :
    s.concatenate t = refuseAdjacency .different := by
  rw [concatenate, dif_pos nodes, dif_pos edges,
    if_neg fun ends => other ⟨nodes, edges, ends.1.symm, ends.2.symm⟩]

/-- As a process can hold it: widths are counts, and no feature takes up more than half of
    the address space, at four bytes for a scalar. -/
def Held (s : State) : Prop :=
  ∀ b ∈ [s.nodes, s.edges, s.globals], b.cols < limit ∧ 4 * b.data.size < limit / 2

instance (s : State) : Decidable s.Held :=
  inferInstanceAs (Decidable (∀ b ∈ [_, _, _], _))

theorem tablesFit_widths (held : s.Held) : s.TablesFit s.widths := by
  simp only [Held, List.forall_mem_cons, Buffer.size_data, s.rows_globals] at held
  simp only [TablesFit, widths, List.forall_mem_cons]
  refine ⟨⟨held.1.1, ?_⟩, ⟨held.2.1.1, ?_⟩, ⟨held.2.2.1.1, ?_⟩, by simp⟩ <;> omega

theorem tablesFit_beside (same : s.SameGraph t) (hs : s.Held) (ht : t.Held) {w : Widths}
    (added : s.widths.add t.widths = .ok w) : s.TablesFit (s.widths.beside t.widths) := by
  obtain ⟨nodes, edges, globals⟩ := Widths.add_lt added
  have nodeCount : t.nodes.rows = s.nodes.rows := same.nodeCount
  have edgeCount : t.edges.rows = s.edges.rows := same.edgeCount
  simp only [Held, List.forall_mem_cons, Buffer.size_data, s.rows_globals, t.rows_globals,
    nodeCount, edgeCount, limit] at hs ht
  simp only [TablesFit, Widths.beside, List.forall_mem_cons, Nat.mul_add]
  refine ⟨⟨nodes, ?_⟩, ⟨edges, ?_⟩, ⟨globals, ?_⟩, by simp⟩ <;>
    simp only [widths, limit] <;> omega

/-- **Joining and splitting undo each other**: two states can be joined iff they have one
    graph, and come apart again as they were; a state can be split iff the cut lies within
    its widths, and is put together again as it was. -/
theorem concatenate_split :
    (∀ s t : State, s.Held → t.Held → ∀ w, s.widths.add t.widths = .ok w →
      ((∃ u, s.concatenate t = .ok u) ↔ s.SameGraph t) ∧
      ((t.nodeCount ≠ s.nodeCount ∨ t.edgeCount ≠ s.edgeCount) →
        ∃ cause, s.concatenate t = refuseShape cause) ∧
      (t.nodeCount = s.nodeCount → t.edgeCount = s.edgeCount → ¬ s.SameGraph t →
        s.concatenate t = refuseAdjacency .different) ∧
      ∀ u, s.concatenate t = .ok u → u.widths = w ∧ u.split s.widths = .ok (s, t)) ∧
    ∀ s : State, s.Held → ∀ cut : Widths,
      ((∃ parts, s.split cut = .ok parts) ↔ cut.Within s.widths) ∧
      (¬ cut.Within s.widths → ∃ cause, s.split cut = refuseShape cause) ∧
      ∀ head tail, s.split cut = .ok (head, tail) → head.concatenate tail = .ok s := by
  refine ⟨fun s t hs ht w added => ⟨⟨?_, ?_⟩, concatenate_refused_counts,
    concatenate_refused_ends, ?_⟩, fun s hs cut => ⟨exists_split, split_refused, ?_⟩⟩
  · rintro ⟨u, joined⟩
    exact sameGraph_of_concatenate joined
  · intro same
    exact ⟨_, concatenate_eq_ok.2 ⟨same, tablesFit_beside same hs ht added, rfl⟩⟩
  · intro u joined
    obtain ⟨same, -, rfl⟩ := concatenate_eq_ok.1 joined
    exact ⟨(widths_beside same).trans (Widths.beside_of_add added).symm, split_beside same⟩
  · intro head tail run
    obtain ⟨same, rfl⟩ := beside_of_split run
    exact concatenate_eq_ok.2 ⟨same, (tablesFit_congr (sameGraph_beside same)).1
      (tablesFit_widths hs), rfl⟩

/-- The self-loop with two features of the node and none of the edge. -/
def wideLoop : State :=
  ⟨.blank 1 2, .blank 1 0, .blank 1 1, #[0], #[0], by decide, by decide, by decide, by decide,
    by decide⟩

/-- It can be joined to the self-loop, and taken off again; both states can be cut at no
    width at all. -/
theorem concatenate_split_loops : selfLoop.Held ∧ wideLoop.Held ∧
    (∃ u, selfLoop.concatenate wideLoop = .ok u ∧ u.widths = ⟨3, 1, 2⟩ ∧
      u.split selfLoop.widths = .ok (selfLoop, wideLoop)) ∧
    ∃ head tail, wideLoop.split .zero = .ok (head, tail) ∧
      head.concatenate tail = .ok wideLoop := by
  have small : selfLoop.Held := by decide
  have wide : wideLoop.Held := by decide
  refine ⟨small, wide, ?_, ?_⟩
  · obtain ⟨joins, -, -, apart⟩ :=
      concatenate_split.1 selfLoop wideLoop small wide ⟨3, 1, 2⟩ rfl
    obtain ⟨u, joined⟩ := joins.2 ⟨rfl, rfl, rfl, rfl⟩
    exact ⟨u, joined, apart u joined⟩
  · obtain ⟨splits, -, together⟩ := concatenate_split.2 wideLoop wide .zero
    obtain ⟨⟨head, tail⟩, run⟩ := splits.2 (by decide)
    exact ⟨head, tail, run, together head tail run⟩

end State

end MessagePassing
