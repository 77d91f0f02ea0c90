/-
  Message passing — sums and products that change nothing.

  For finite scalars without a sign bit, zero is neutral in sums and one in products, bit for
  bit, and a product with zero is the zero without a sign.

  * `Scalar.unpack_value`: the sign, the significand and the exponent of a finite scalar;
  * `Scalar.Unsigned.add_zero`, `zero_add`, `mul_one`, `mul_zero`.
-/
import MessagePassing.Proofs.Singles

namespace MessagePassing

open Float.Model (Format UnpackedFloat totalExponent)
open Float.Model.UnpackedFloat

/-! ## Products with one -/

theorem log2_mul_two_pow {n : ℕ} (nonzero : n ≠ 0) (k : ℕ) :
    (n * 2 ^ k).log2 = n.log2 + k := by
  obtain ⟨least, less⟩ := (Nat.log2_eq_iff nonzero).1 rfl
  refine (Nat.log2_eq_iff (Nat.mul_ne_zero nonzero (Nat.two_pow_pos k).ne')).2 ⟨?_, ?_⟩
  · rw [pow_add]
    exact Nat.mul_le_mul_right _ least
  · rw [add_right_comm, pow_add]
    exact Nat.mul_lt_mul_of_pos_right less (Nat.two_pow_pos k)

namespace Rounding

variable {r : Rounding}

/-- The significand of a product with one is 23 bits longer, and these bits do not change the
    exponent of the format. -/
theorem Canonical.targetExponent (canonical : r.Canonical) :
    Format.binary32.targetExponent (totalExponent (r.significand * 2 ^ 23) (r.exponent + -23)) =
      r.exponent := by
  have least := canonical.least
  have short : r.significand.log2 < 24 := (Nat.log2_lt canonical.pos.ne').2 canonical.few
  show max (((r.significand * 2 ^ 23).log2 : ℤ) + 1 + (r.exponent + -23) - 24) (-149) = _
  rw [log2_mul_two_pow canonical.pos.ne']
  rcases canonical.normal with normal | subnormal
  · have long : 23 ≤ r.significand.log2 := (Nat.le_log2 canonical.pos.ne').2 normal
    omega
  · omega

/-- A product with one is rounded to itself: the format cuts off just the zeros. -/
theorem Canonical.round_mul_one (canonical : r.Canonical) (sign : Sign) :
    roundWithAccuracy .binary32 sign (r.significand * 2 ^ 23) (r.exponent + -23) .exact =
      .finite sign r.significand r.exponent canonical.pos := by
  have described : Describes (.ofMantissaAndAccuracy (r.significand * 2 ^ 23) .exact)
      (r.significand * 2 ^ 23) := by
    show (r.significand * 2 ^ 23 : ℚ) - (r.significand * 2 ^ 23 : ℕ) = 0
    push_cast
    exact sub_self _
  obtain ⟨n, nearest, -, rounded⟩ :=
    roundWithAccuracy_eq sign described canonical.targetExponent (by omega)
  have shift : (r.exponent - (r.exponent + -23)).toNat = 23 := by omega
  rw [shift, mul_div_cancel_right₀ _ (by positivity)] at nearest
  rw [rounded, nearest.eq (.self _), MessagePassing.ofRounded, dif_neg canonical.pos.ne',
    if_pos (by exact canonical.few)]

end Rounding

namespace Scalar

variable {x y : Scalar}

/-! ## The parts of a scalar -/

/-- A field of a scalar is zero as bits exactly if it is zero. -/
theorem ofNat_eq_zero_iff {bits n : ℕ} (few : n < 2 ^ bits) :
    BitVec.ofNat bits n = .ofNat bits 0 ↔ n = 0 := by
  rw [← BitVec.toNat_inj, BitVec.toNat_ofNat, BitVec.toNat_ofNat, Nat.mod_eq_of_lt few,
    Nat.zero_mod]

/-- The parts of a finite scalar other than zero, as its bits tell them. -/
theorem unpack_bits (finite : x.isFinite = true) (pos : 0 < x.rounding.significand) :
    unpack .binary32 x.bits.toBitVec =
      .finite x.sign x.rounding.significand x.rounding.exponent pos := by
  rw [isFinite_iff] at finite
  have field := x.exponentField_lt
  have fraction := x.fractionField_lt
  have notOnes : BitVec.ofNat 8 x.exponentField ≠ -1#8 := fun same => by
    have := congrArg BitVec.toNat same
    rw [BitVec.toNat_ofNat, Nat.mod_eq_of_lt field] at this
    exact finite this
  have fieldBits : (BitVec.ofNat 8 x.exponentField).toNat = x.exponentField := by
    rw [BitVec.toNat_ofNat, Nat.mod_eq_of_lt field]
  have fractionBits : (BitVec.ofNat 23 x.fractionField).toNat = x.fractionField := by
    rw [BitVec.toNat_ofNat, Nat.mod_eq_of_lt fraction]
  have bias : (Format.binary32.exponentBias : ℤ) + 23 = 150 := rfl
  rw [toBitVec_bits]
  simp only [unpack, unpackMantissa_packComponents, unpackExponent_packComponents,
    unpackSign_packComponents, Sign.ofBitVec_toBitVec, notOnes, if_false, fieldBits]
  rcases x.rounding_cases with ⟨e, significand, exponent⟩ | ⟨e, significand, exponent⟩
  · have some : BitVec.ofNat 23 x.fractionField ≠ 0#23 := by
      rw [ne_eq, ofNat_eq_zero_iff fraction]
      omega
    rw [if_pos ((ofNat_eq_zero_iff field).2 e), dif_neg some]
    simp only [significand, exponent, fractionBits, e]
    rfl
  · rw [if_neg (mt (ofNat_eq_zero_iff field).1 e.ne')]
    simp only [significand, exponent, toNat_one_append, fractionBits]
    congr 1
    omega

theorem unpack_value (finite : x.isFinite = true) (pos : 0 < x.rounding.significand) :
    x.value.toModel.unpack = .finite x.sign x.rounding.significand x.rounding.exponent pos := by
  show unpack .binary32 (pack .binary32 (unpack .binary32 x.bits.toBitVec)) = _
  rw [unpack_bits finite pos, pack_rounding finite pos, unpack_bits finite pos]

theorem unpack_zero : (0 : Scalar).value.toModel.unpack = .zero .positive := rfl

theorem unpack_one : (1 : Scalar).value.toModel.unpack =
    .finite .positive (2 ^ 23) (-23) (by decide) := rfl

theorem not_isNaN (finite : x.isFinite = true) : x.isNaN = false := by
  rw [isFinite_iff] at finite
  simp [isNaN, finite]

/-- The sum of numbers is that of their parts. -/
theorem add_eq (hx : x.isFinite = true) (hy : y.isFinite = true) :
    x + y = ofSingle (.ofModel (.pack
      (UnpackedFloat.add .binary32 x.value.toModel.unpack y.value.toModel.unpack))) := by
  show operate (· + ·) x y = _
  rw [operate, not_isNaN hx, not_isNaN hy]
  rfl

theorem mul_eq (hx : x.isFinite = true) (hy : y.isFinite = true) :
    x * y = ofSingle (.ofModel (.pack
      (UnpackedFloat.mul .binary32 x.value.toModel.unpack y.value.toModel.unpack))) := by
  show operate (· * ·) x y = _
  rw [operate, not_isNaN hx, not_isNaN hy]
  rfl

/-! ## Scalars without a sign -/

/-- Finite, and without a sign bit. -/
structure Unsigned (x : Scalar) : Prop where
  finite : x.isFinite = true
  unsigned : x.isSigned = false

instance (x : Scalar) : Decidable x.Unsigned :=
  decidable_of_iff (x.isFinite = true ∧ x.isSigned = false)
    ⟨fun h => ⟨h.1, h.2⟩, fun h => ⟨h.finite, h.unsigned⟩⟩

theorem unsigned_zero : (0 : Scalar).Unsigned := by decide

theorem unsigned_one : (1 : Scalar).Unsigned := by decide

namespace Unsigned

theorem sign (h : x.Unsigned) : x.sign = .positive := by
  rw [Scalar.sign, h.unsigned]
  rfl

/-- Such a scalar is zero, or its parts are those of its magnitude. -/
theorem zero_or (h : x.Unsigned) : x = 0 ∨ ∃ canonical : x.rounding.Canonical,
    x.value.toModel.unpack =
      .finite .positive x.rounding.significand x.rounding.exponent canonical.pos := by
  by_cases zero : x.isZero = true
  · obtain ⟨e, f⟩ := isZero_iff.1 zero
    refine .inl (Scalar.ext (UInt32.toNat_inj.1 ?_))
    rw [toNat_bits, h.unsigned, e, f]
    rfl
  · have canonical := rounding_canonical h.finite zero
    refine .inr ⟨canonical, ?_⟩
    rw [unpack_value h.finite canonical.pos, h.sign]

/-- The parts of such a scalar make it again. -/
theorem ofSingle_parts (h : x.Unsigned) (canonical : x.rounding.Canonical) :
    ofSingle (.ofModel (.pack (.finite .positive x.rounding.significand x.rounding.exponent
      canonical.pos))) = x := by
  rw [← h.sign]
  exact ofSingle_pack h.finite (pack_rounding h.finite canonical.pos)

theorem add_zero (h : x.Unsigned) : x + 0 = x := by
  rcases h.zero_or with rfl | ⟨canonical, parts⟩
  · decide
  · rw [add_eq h.finite unsigned_zero.finite, parts, unpack_zero]
    exact h.ofSingle_parts canonical

theorem zero_add (h : x.Unsigned) : 0 + x = x := by
  rcases h.zero_or with rfl | ⟨canonical, parts⟩
  · decide
  · rw [add_eq unsigned_zero.finite h.finite, parts, unpack_zero]
    exact h.ofSingle_parts canonical

theorem mul_zero (h : x.Unsigned) : x * 0 = 0 := by
  rcases h.zero_or with rfl | ⟨canonical, parts⟩
  · decide
  · rw [mul_eq h.finite unsigned_zero.finite, parts, unpack_zero]
    show ofSingle (.ofModel (.pack (.zero .positive))) = 0
    decide

theorem mul_one (h : x.Unsigned) : x * 1 = x := by
  rcases h.zero_or with rfl | ⟨canonical, parts⟩
  · decide
  · rw [mul_eq h.finite unsigned_one.finite, parts, unpack_one]
    show ofSingle (.ofModel (.pack (roundWithAccuracy .binary32 .positive _ _ .exact))) = x
    rw [canonical.round_mul_one]
    exact h.ofSingle_parts canonical

end Unsigned

end Scalar

end MessagePassing
