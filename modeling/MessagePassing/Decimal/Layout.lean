/-
  Message passing — how scalars are written.

  A `Layout` decides what the digits leave open: which magnitudes are written
  without an exponent, whether a whole number keeps a fraction digit, and which
  of two equally near decimals is meant.  `Scalar.literal?` writes a finite
  scalar with the fewest digits that read back.
-/
import MessagePassing.Decimal.Literal
import MessagePassing.Scalar

namespace MessagePassing

/-- The conventions of one kind of text for numbers. -/
structure Layout where
  /-- The least power of ten of a first digit that is written without exponent. -/
  lowest : Int
  /-- The greatest power of ten of a first digit that is written without exponent. -/
  highest : Int
  /-- A whole number is written with one fraction digit. -/
  fractionZero : Bool
  /-- Which of two equally near decimals is written. -/
  tie : Tie

namespace Layout

/-- The literal of a decimal. -/
def literal (layout : Layout) (negative : Bool) (d : Decimal) : Literal :=
  let ds := Digits.ofNat d.digits
  let lead := d.exponent + ds.length - 1
  if layout.lowest ≤ lead ∧ lead ≤ layout.highest then
    if lead < 0 then
      ⟨negative, [Digits.zero], List.replicate (-lead - 1).toNat Digits.zero ++ ds, none⟩
    else
      let whole := lead.toNat + 1
      let fraction := ds.drop whole
      ⟨negative, ds.take whole ++ List.replicate (whole - ds.length) Digits.zero,
        if fraction = [] ∧ layout.fractionZero then [Digits.zero] else fraction, none⟩
  else
    let sign := if lead < 0 then .minus else .plus
    ⟨negative, ds.take 1, ds.drop 1, some ⟨sign, Digits.ofNat lead.natAbs⟩⟩

end Layout

namespace Scalar

/-- The literal of a scalar; infinities and NaNs have none. -/
def literal? (layout : Layout) (x : Scalar) : Option Literal :=
  if x.isFinite then
    if x.isZero then
      some ⟨x.isSigned, [Digits.zero], if layout.fractionZero then [Digits.zero] else [], none⟩
    else some (layout.literal x.isSigned (x.rounding.shortest layout.tie))
  else none

end Scalar

end MessagePassing
