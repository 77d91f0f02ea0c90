/-
  Message passing — feature widths.

  A graph has three kinds of entity: nodes, edges and one global row.  `Widths`
  counts the features of each kind; models and graph states are matched by it.
-/

namespace MessagePassing

/-- The number of features of a node, of an edge and of the global row. -/
@[ext]
structure Widths where
  nodes : Nat
  edges : Nat
  globals : Nat
  deriving DecidableEq, Repr

namespace Widths

/-- No features at all. -/
def zero : Widths := ⟨0, 0, 0⟩

/-- Every kind of entity has at least one feature. -/
def Positive (w : Widths) : Prop := 0 < w.nodes ∧ 0 < w.edges ∧ 0 < w.globals

instance (w : Widths) : Decidable w.Positive :=
  inferInstanceAs (Decidable (_ ∧ _ ∧ _))

/-- The text of widths in messages. -/
def describe (w : Widths) : String :=
  s!"(nodes: {w.nodes}, edges: {w.edges}, globals: {w.globals})"

end Widths

end MessagePassing
