/-
  Message passing — 64-bit counts.

  Rows, columns, widths and indices are natural numbers below `Count.limit`.
  A sum or product that leaves this range is a fault, found before anything of
  that size is built.  `add_eq_ok`, `mul_eq_ok` and `sum_eq_ok` say that a
  checked operation succeeds exactly within the range, with the plain result.

  The range is the only limit on sizes.  No allocation fails, so what an operation
  builds may take more bytes than a process can get; a statement about what a
  process does hold says so in a hypothesis, as with `State.Held`.
-/
import MessagePassing.Failure

namespace MessagePassing

namespace Count

/-- One more than the greatest count: the 64th power of two. -/
def limit : Nat := 0x10000000000000000

/-- Succeeds on counts in range. -/
def check (n : Nat) : Outcome Unit :=
  if n < limit then .ok () else .error (.fault .countOverflow)

/-- A number that has to be a count. -/
def checked (n : Nat) : Outcome Nat := do
  check n
  pure n

/-- The sum of two counts. -/
def add (a b : Nat) : Outcome Nat := checked (a + b)

/-- The product of two counts. -/
def mul (a b : Nat) : Outcome Nat := checked (a * b)

/-- The sum of a list of numbers. -/
def total (counts : List Nat) : Nat := counts.foldr (· + ·) 0

/-- The sum of a list of counts: partial sums only grow, so the total decides. -/
def sum (counts : List Nat) : Outcome Nat := checked (total counts)

theorem checked_eq_ok {n m : Nat} : checked n = .ok m ↔ n < limit ∧ m = n := by
  unfold checked check
  by_cases h : n < limit
  · simp [h, bind, Except.bind, pure, Except.pure, eq_comm]
  · simp [h, bind, Except.bind]

theorem add_eq_ok {a b n : Nat} : add a b = .ok n ↔ a + b < limit ∧ n = a + b :=
  checked_eq_ok

theorem mul_eq_ok {a b n : Nat} : mul a b = .ok n ↔ a * b < limit ∧ n = a * b :=
  checked_eq_ok

theorem sum_eq_ok {l : List Nat} {n : Nat} : sum l = .ok n ↔ total l < limit ∧ n = total l :=
  checked_eq_ok

end Count

/-- The sum of widths. -/
def Widths.add (a b : Widths) : Outcome Widths := do
  pure ⟨← Count.add a.nodes b.nodes, ← Count.add a.edges b.edges,
    ← Count.add a.globals b.globals⟩

end MessagePassing
