/-
  Message passing — the shortest decimal of a number.

  A finite single is `m` times a power of two, and an interval of reals rounds
  to it.  `shortest` looks for the coarsest decimal grid with a point in this
  interval and takes the point nearest to the number.  The search ends at the
  grid on which the number itself lies, so it always finds one.
-/

namespace MessagePassing

/-- The positive number `significand * 2 ^ exponent`, with the interval of reals
    that round to it: `below` and `above` are its ends in quarters of
    `2 ^ exponent`, and `closed` tells whether they belong to it. -/
structure Rounding where
  significand : Nat
  exponent : Int
  below : Nat
  above : Nat
  closed : Bool
  deriving Repr

/-- The number `digits * 10 ^ exponent`. -/
structure Decimal where
  digits : Nat
  exponent : Int
  deriving DecidableEq, Repr

/-- Which of two equally near decimals is taken. -/
inductive Tie where
  /-- The one with an even last digit. -/
  | even
  /-- The greater one. -/
  | up
  deriving DecidableEq, Repr

namespace Rounding

/-- Quarters of `2 ^ exponent` and steps of `10 ^ q` in one common unit: a
    quarter is `fst` units and a step is `snd` units. -/
def units (r : Rounding) (q : Int) : Nat × Nat :=
  let e := r.exponent - 2
  (Nat.pow 2 e.toNat * Nat.pow 10 (-q).toNat, Nat.pow 2 (-e).toNat * Nat.pow 10 q.toNat)

/-- `k * 10 ^ q` rounds to the number. -/
def Holds (r : Rounding) (q : Int) (k : Nat) : Prop :=
  let (quarter, step) := r.units q
  if r.closed then r.below * quarter ≤ k * step ∧ k * step ≤ r.above * quarter
  else r.below * quarter < k * step ∧ k * step < r.above * quarter

instance (r : Rounding) (q : Int) (k : Nat) : Decidable (r.Holds q k) := by
  unfold Holds
  simp only
  split <;> infer_instance

/-- The point of the grid of `10 ^ q` that rounds to the number, if there is one:
    only the neighbours of the number can, and the nearer one is taken. -/
def onGrid (r : Rounding) (tie : Tie) (q : Int) : Option Nat :=
  let (quarter, step) := r.units q
  let value := 4 * r.significand * quarter
  let k := value / step
  let toLower := value - k * step
  let toUpper := (k + 1) * step - value
  if r.Holds q k then
    if r.Holds q (k + 1) then
      if toLower < toUpper then some k
      else if toUpper < toLower then some (k + 1)
      else match tie with
        | .even => some (if k % 2 = 0 then k else k + 1)
        | .up => some (k + 1)
    else some k
  else if r.Holds q (k + 1) then some (k + 1)
  else none

/-- The first hit on the grids of `10 ^ (q + n)`, ..., `10 ^ q`, coarsest first;
    the number itself on the grid of `10 ^ q` where that grid holds it. -/
def search (r : Rounding) (tie : Tie) (q : Int) : Nat → Decimal
  | 0 =>
    let (quarter, step) := r.units q
    ⟨(r.onGrid tie q).getD (4 * r.significand * quarter / step), q⟩
  | n + 1 =>
    match r.onGrid tie (q + (n + 1 : Nat)) with
    | some k => ⟨k, q + (n + 1 : Nat)⟩
    | none => search r tie q n

/-- The fewest digits that read back as the number, nearest to it. -/
def shortest (r : Rounding) (tie : Tie) : Decimal :=
  let finest := min r.exponent 0
  r.search tie finest (39 - finest).toNat

end Rounding

end MessagePassing
