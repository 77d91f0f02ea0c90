/-
  Message passing — the numbers that features and weights are made of.

  A scalar is an IEEE single, kept as its bits.  Arithmetic rounds once per
  operation.  Bits also tell NaNs apart: an operation on a NaN gives this NaN, and
  an operation without a result gives the one with the sign bit set.
-/
import MessagePassing.Decimal.Shortest

namespace MessagePassing

/-- A feature, a weight or a bias. -/
@[ext]
structure Scalar where
  bits : UInt32
  deriving DecidableEq, Repr, Inhabited

namespace Scalar

/-! ## Fields -/

/-- The sign bit is set; that of negative zero is. -/
def isSigned (x : Scalar) : Bool := x.bits >>> 31 == 1

/-- The exponent field. -/
def exponentField (x : Scalar) : Nat := (x.bits >>> 23).toNat % 256

/-- The bit in front of the fraction field: it is one in the significand of every
    scalar that is not subnormal. -/
def leadingBit : Nat := 0x800000

/-- The fraction field. -/
def fractionField (x : Scalar) : Nat := x.bits.toNat % leadingBit

/-- Neither an infinity nor a NaN. -/
def isFinite (x : Scalar) : Bool := x.exponentField != 255

/-- Not a number. -/
def isNaN (x : Scalar) : Bool := x.exponentField == 255 && x.fractionField != 0

/-- A zero of either sign. -/
def isZero (x : Scalar) : Bool := x.exponentField == 0 && x.fractionField == 0

/-! ## Values -/

/-- The number that the bits encode. -/
def value (x : Scalar) : Float32 := .ofBits x.bits

/-- The NaN of an operation without a result. -/
def undefined : Scalar := ⟨0xFFC00000⟩

/-- The scalar of a number that an operation gives. -/
def ofSingle (x : Float32) : Scalar := if x.isNaN then undefined else ⟨x.toBits⟩

/-- The scalar nearest to a natural number. -/
def ofNat (n : Nat) : Scalar := ofSingle (.ofNat n)

/-- The scalar nearest to a double; of two equally near ones the even one, and an
    infinity past the greatest. -/
def ofDouble (x : Float) : Scalar :=
  match x.toModel.unpack with
  | .finite sign significand exponent _ =>
    ofSingle (.ofModel (.pack (.round .binary32 sign significand exponent)))
  | other => ofSingle (.ofModel (.pack other))

instance : OfNat Scalar 0 := ⟨⟨0⟩⟩

instance : OfNat Scalar 1 := ⟨⟨0x3F800000⟩⟩

/-! ## Arithmetic -/

/-- The first NaN of two operands, or else the result of an operation on numbers. -/
def operate (f : Float32 → Float32 → Float32) (x y : Scalar) : Scalar :=
  if x.isNaN then x else if y.isNaN then y else ofSingle (f x.value y.value)

instance : Add Scalar := ⟨operate (· + ·)⟩

instance : Mul Scalar := ⟨operate (· * ·)⟩

instance : Div Scalar := ⟨operate (· / ·)⟩

/-- The sign bit flips, that of a NaN too. -/
instance : Neg Scalar := ⟨fun x => ⟨x.bits ^^^ 0x80000000⟩⟩

/-- The exponential function. -/
def exp (x : Scalar) : Scalar := if x.isNaN then x else ofSingle x.value.exp

/-! ## Comparison -/

/-- Equal as numbers: the zeros are equal, and a NaN equals nothing. -/
def agrees (x y : Scalar) : Bool := x.value == y.value

/-- Equally many scalars, equal as numbers. -/
def allAgree (xs ys : Array Scalar) : Bool :=
  xs.size == ys.size && (xs.zip ys).all fun (x, y) => x.agrees y

/-! ## Rounding -/

/-- The magnitude of a finite scalar other than zero.  Below a power of two the
    neighbour is only half as far away, so the interval is shorter on this side. -/
def rounding (x : Scalar) : Rounding :=
  let e := x.exponentField
  let f := x.fractionField
  let m := if e = 0 then f else f + leadingBit
  { significand := m
    exponent := (max e 1 : Nat) - 150
    below := 4 * m - (if f = 0 ∧ 1 < e then 1 else 2)
    above := 4 * m + 2
    closed := m % 2 = 0 }

end Scalar

end MessagePassing
