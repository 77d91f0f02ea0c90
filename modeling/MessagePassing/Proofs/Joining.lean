/-
  Message passing — features side by side.

  Two states of one graph are joined row by row: every entity keeps its features of the first
  state and then gets those of the second.

  * `State.concatenate_eq`: states of one graph can always be joined, unless a table is too
    large;
  * `State.sameGraph_of_concatenate`: states of different graphs never are.
-/
import MessagePassing.Proofs.Round

namespace MessagePassing

open Buffer (Table tableOf)
open MessagePassing.Count (within limit)

namespace Buffer

/-- Two tables side by side. -/
def beside {rows : Nat} (a b : Table rows) : Table rows :=
  tableOf rows (a.val.cols + b.val.cols) (fun i => a.val.rowAt i ++ b.val.rowAt i)
    fun i hi => by rw [Array.size_append, size_rowAt_table a hi, size_rowAt_table b hi]

theorem sideBySide_pair {rows : Nat} (a b : Table rows) :
    sideBySide [a, b] = within (a.val.cols + b.val.cols < limit ∧
      rows * (a.val.cols + b.val.cols) < limit) (beside a b) := by
  rw [sideBySide_eq]
  refine Count.within_congr (by simp) (table_ext (by simp [tableOf, beside, tabulate]) ?_)
  intro i hi
  rw [rowAt_tableOf _ hi, beside, rowAt_tableOf _ hi]
  simp [joinedRow]

end Buffer

/-- Widths side by side. -/
def Widths.beside (v w : Widths) : Widths :=
  ⟨v.nodes + w.nodes, v.edges + w.edges, v.globals + w.globals⟩

theorem Widths.beside_of_add {u v w : Widths} (added : v.add w = .ok u) : u = v.beside w := by
  obtain ⟨nodes, hnodes, added⟩ := Outcome.bind_eq_ok.1 added
  obtain ⟨edges, hedges, added⟩ := Outcome.bind_eq_ok.1 added
  obtain ⟨globals, hglobals, added⟩ := Outcome.bind_eq_ok.1 added
  cases added
  exact Widths.ext (Count.add_eq_ok.1 hnodes).2 (Count.add_eq_ok.1 hedges).2
    (Count.add_eq_ok.1 hglobals).2

namespace State

variable {s t u : State}

/-- Tables of these widths have counts in range on the graph of the state. -/
def TablesFit (s : State) (w : Widths) : Prop :=
  ∀ shape ∈ [(s.nodes.rows, w.nodes), (s.edges.rows, w.edges), (1, w.globals)],
    shape.2 < limit ∧ shape.1 * shape.2 < limit

instance (s : State) (w : Widths) : Decidable (s.TablesFit w) :=
  inferInstanceAs (Decidable (∀ shape ∈ [_, _, _], _))

theorem tablesFit_congr {w : Widths} (same : s.SameGraph t) : t.TablesFit w ↔ s.TablesFit w := by
  have nodes : t.nodes.rows = s.nodes.rows := same.nodeCount
  have edges : t.edges.rows = s.edges.rows := same.edgeCount
  rw [TablesFit, TablesFit, nodes, edges]

/-- The features of two states of one graph side by side. -/
def beside (s t : State) (same : s.SameGraph t) : State :=
  s.withFeatures (Buffer.beside s.nodes.table ⟨t.nodes, same.nodeCount⟩)
    (Buffer.beside s.edges.table ⟨t.edges, same.edgeCount⟩)
    (Buffer.beside s.globalTable t.globalTable)

theorem sameGraph_beside (same : s.SameGraph t) : s.SameGraph (s.beside t same) :=
  ⟨rfl, rfl, rfl, rfl⟩

theorem widths_beside (same : s.SameGraph t) :
    (s.beside t same).widths = s.widths.beside t.widths := rfl

/-- **States of one graph can be joined**, unless a table is too large. -/
theorem concatenate_eq (same : s.SameGraph t) :
    s.concatenate t = within (s.TablesFit (s.widths.beside t.widths)) (s.beside t same) := by
  have nodes : t.nodes.rows = s.nodes.rows := same.nodeCount
  have edges : t.edges.rows = s.edges.rows := same.edgeCount
  rw [concatenate, dif_pos nodes, dif_pos edges, if_pos ⟨same.senders.symm, same.receivers.symm⟩,
    Buffer.sideBySide_pair, Buffer.sideBySide_pair, Buffer.sideBySide_pair]
  refine Count.within_bind_congr (Count.within_bind_within Count.within_bind_pure) ?_ rfl
  simp [TablesFit, Widths.beside, widths, Buffer.table, globalTable]

theorem sameGraph_of_concatenate (joined : s.concatenate t = .ok u) : s.SameGraph t := by
  rw [concatenate] at joined
  split at joined
  · rename_i nodes
    split at joined
    · rename_i edges
      split at joined
      · rename_i ends
        exact ⟨nodes, edges, ends.1.symm, ends.2.symm⟩
      · cases joined
    · cases joined
  · cases joined

/-- Only states of one graph are joined, and they stay on it. -/
theorem concatenate_eq_ok : s.concatenate t = .ok u ↔
    ∃ same : s.SameGraph t,
      s.TablesFit (s.widths.beside t.widths) ∧ s.beside t same = u := by
  constructor
  · intro joined
    have same := sameGraph_of_concatenate joined
    rw [concatenate_eq same] at joined
    exact ⟨same, Count.within_eq_ok.1 joined⟩
  · rintro ⟨same, fits, rfl⟩
    rw [concatenate_eq same, Count.within_of_fits fits]

end State

end MessagePassing
