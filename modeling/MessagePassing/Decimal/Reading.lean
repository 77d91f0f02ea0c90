/-
  Message passing — reading a decimal literal as a scalar.

  A literal without point and exponent that is a 64-bit integer is rounded to
  the nearest scalar at once.  Any other literal is read as a double first: its
  digits are taken while they form a 64-bit significand, further whole digits
  only count for the exponent and further fraction digits are dropped; then the
  significand is multiplied or divided by a power of ten, with one rounding per
  step and at most `10 ^ 308` in one step.  A product past the greatest double
  is not a number; the double is then rounded to a scalar.
-/
import MessagePassing.Count
import MessagePassing.Decimal.Layout

namespace MessagePassing.Literal

/-- Append digits to a significand while it stays a 64-bit count.  Gives the
    digits left over as well. -/
def extend (significand : Nat) : Digits → Nat × Digits
  | [] => (significand, [])
  | d :: ds =>
    if 10 * significand + d.val < Count.limit then extend (10 * significand + d.val) ds
    else (significand, d :: ds)

/-- The significand and the power of ten of a literal, as far as 64 bits hold them. -/
def scaled (l : Literal) : Nat × Int :=
  let (s, wholeLeft) := extend 0 l.whole
  let (s, fractionLeft) := extend s l.fraction
  let written := match l.exponent with
    | none => 0
    | some e => e.value
  (s, wholeLeft.length - (l.fraction.length - fractionLeft.length : Nat) + written)

/-- The greatest power of ten used in one step. -/
def greatestStep : Nat := 308

/-- The double nearest to a power of ten. -/
def powerOfTen (n : Nat) : Float := Float.ofScientific 1 false n

/-- Multiply by `10 ^ n`, unless the product is too large. -/
def multiply (x : Float) (n : Nat) : Option Float :=
  if n ≤ greatestStep then
    let product := x * powerOfTen n
    if product.isInf then none else some product
  else if x == 0 then some x
  else none

/-- Divide by `10 ^ n`, by at most `10 ^ greatestStep` in one step. -/
def divide (x : Float) (n : Nat) : Float :=
  if n ≤ greatestStep then x / powerOfTen n
  else if x == 0 then x
  else divide (x / powerOfTen greatestStep) (n - greatestStep)
termination_by n
decreasing_by unfold greatestStep at *; omega

/-- The double that a literal without its sign is read as. -/
def magnitude? (l : Literal) : Option Float :=
  let (s, e) := l.scaled
  let x := Float.ofNat s
  if 0 ≤ e then multiply x e.toNat else some (divide x (-e).toNat)

/-- The scalar that a literal is read as; one that overflows a double has none. -/
def toScalar? (l : Literal) : Option Scalar :=
  let n := l.whole.toNat
  if l.IsInteger ∧ l.negative = false ∧ n < Count.limit then some (.ofNat n)
  else if l.IsInteger ∧ l.negative = true ∧ 0 < n ∧ n ≤ Count.limit / 2 then
    some (-(Scalar.ofNat n))
  else l.magnitude?.map fun x => Scalar.ofDouble (if l.negative then -x else x)

end MessagePassing.Literal
