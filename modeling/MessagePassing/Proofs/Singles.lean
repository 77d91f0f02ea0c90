/-
  Message passing — which doubles round to a scalar.

  * `Rounding.Canonical`: the magnitudes of scalars;
  * `Rounding.Contains`: the interval of numbers that round to one;
  * `Scalar.ofDouble_eq`: a double in the interval becomes the scalar.
-/
import MessagePassing.Proofs.Doubles

namespace MessagePassing

open Float.Model (Format UnpackedFloat totalExponent)
open Float.Model.UnpackedFloat

/-! ## Magnitudes -/

namespace Rounding

/-- The magnitude of a finite scalar other than zero. -/
structure Canonical (r : Rounding) : Prop where
  pos : 0 < r.significand
  few : r.significand < 2 ^ 24
  least : -149 ≤ r.exponent
  greatest : r.exponent ≤ 104
  normal : 2 ^ 23 ≤ r.significand ∨ r.exponent = -149
  below : r.below + (if r.significand = 2 ^ 23 ∧ -149 < r.exponent then 1 else 2) =
    4 * r.significand
  above : r.above = 4 * r.significand + 2
  closed : r.closed = decide (r.significand % 2 = 0)

/-- A quarter of the last place. -/
def quarter (r : Rounding) : ℚ := 2 ^ (r.exponent - 2)

/-- The number lies in the interval of those that round to the magnitude. -/
def Contains (r : Rounding) (v : ℚ) : Prop :=
  if r.closed then r.below * r.quarter ≤ v ∧ v ≤ r.above * r.quarter
  else r.below * r.quarter < v ∧ v < r.above * r.quarter

theorem quarter_pos (r : Rounding) : 0 < r.quarter := by
  rw [quarter]
  positivity

theorem Contains.le {r : Rounding} {v : ℚ} (h : r.Contains v) :
    r.below * r.quarter ≤ v ∧ v ≤ r.above * r.quarter := by
  rw [Contains] at h
  split at h
  · exact h
  · exact ⟨h.1.le, h.2.le⟩

end Rounding

namespace Scalar

variable {x : Scalar}

theorem toNat_bits (x : Scalar) : x.bits.toNat =
    (if x.isSigned then 2 ^ 31 else 0) + x.exponentField * 2 ^ 23 + x.fractionField := by
  have size := x.bits.toNat_lt
  have top : x.isSigned = true ↔ x.bits.toNat / 2 ^ 31 = 1 := by
    rw [isSigned, beq_iff_eq, ← UInt32.toNat_inj, UInt32.toNat_shiftRight]
    simp [Nat.shiftRight_eq_div_pow]
  have field : x.exponentField = x.bits.toNat / 2 ^ 23 % 256 := by
    rw [exponentField, UInt32.toNat_shiftRight]
    simp [Nat.shiftRight_eq_div_pow]
  rw [field, fractionField, leadingBit]
  split
  · have := top.1 ‹_›
    omega
  · have : x.bits.toNat / 2 ^ 31 ≠ 1 := fun h => ‹¬ _› (top.2 h)
    omega

theorem exponentField_lt (x : Scalar) : x.exponentField < 256 := Nat.mod_lt _ (by decide)

theorem fractionField_lt (x : Scalar) : x.fractionField < 2 ^ 23 := Nat.mod_lt _ (by decide)

theorem isFinite_iff : x.isFinite = true ↔ x.exponentField ≠ 255 := by simp [isFinite]

theorem isZero_iff : x.isZero = true ↔ x.exponentField = 0 ∧ x.fractionField = 0 := by
  simp [isZero]

theorem rounding_subnormal (e : x.exponentField = 0) : x.rounding.significand = x.fractionField ∧
    x.rounding.exponent = -149 := by
  simp [rounding, e]

theorem rounding_normal (e : x.exponentField ≠ 0) :
    x.rounding.significand = x.fractionField + 2 ^ 23 ∧
      x.rounding.exponent = x.exponentField - 150 := by
  simp [rounding, e, leadingBit]
  omega

/-- The two kinds of finite scalars. -/
theorem rounding_cases (x : Scalar) : (x.exponentField = 0 ∧
    x.rounding.significand = x.fractionField ∧ x.rounding.exponent = -149) ∨
    (0 < x.exponentField ∧ x.rounding.significand = x.fractionField + 2 ^ 23 ∧
      x.rounding.exponent = x.exponentField - 150) := by
  by_cases e : x.exponentField = 0
  · exact .inl ⟨e, rounding_subnormal e⟩
  · exact .inr ⟨Nat.pos_of_ne_zero e, rounding_normal e⟩

theorem rounding_canonical (finite : x.isFinite = true) (nonzero : ¬ x.isZero = true) :
    x.rounding.Canonical := by
  rw [isFinite_iff] at finite
  rw [isZero_iff] at nonzero
  have field := x.exponentField_lt
  have fraction := x.fractionField_lt
  have below : x.rounding.below = 4 * x.rounding.significand -
      (if x.fractionField = 0 ∧ 1 < x.exponentField then 1 else 2) := rfl
  have parts := x.rounding_cases
  have power : x.rounding.significand = 2 ^ 23 ∧ -149 < x.rounding.exponent ↔
      x.fractionField = 0 ∧ 1 < x.exponentField := by omega
  refine ⟨by omega, by omega, by omega, by omega, by omega, ?_, rfl, rfl⟩
  simp only [below, power]
  split <;> omega

/-- The sign as the format writes it. -/
def sign (x : Scalar) : Sign := if x.isSigned then .negative else .positive

theorem toNat_packComponents (sign : Sign) (e : BitVec 8) (f : BitVec 23) :
    (packComponents .binary32 sign e f).toNat =
      sign.toBitVec.toNat * 2 ^ 31 + e.toNat * 2 ^ 23 + f.toNat := by
  show (sign.toBitVec ++ e ++ f).toNat = _
  rw [BitVec.toNat_append, BitVec.toNat_append, ← Nat.shiftLeft_add_eq_or_of_lt f.isLt,
    ← Nat.shiftLeft_add_eq_or_of_lt e.isLt, Nat.shiftLeft_eq, Nat.shiftLeft_eq]
  ring

/-- The bits of a scalar, as the format puts them together. -/
theorem toBitVec_bits (x : Scalar) : x.bits.toBitVec =
    packComponents .binary32 x.sign (.ofNat 8 x.exponentField) (.ofNat 23 x.fractionField) := by
  refine BitVec.eq_of_toNat_eq ?_
  have field := x.exponentField_lt
  have fraction := x.fractionField_lt
  rw [toNat_packComponents, BitVec.toNat_ofNat, BitVec.toNat_ofNat]
  show x.bits.toNat = _
  rw [toNat_bits, Nat.mod_eq_of_lt field, Nat.mod_eq_of_lt fraction, sign]
  split <;> rfl

/-- A finite number is packed into the bits of the scalar. -/
theorem pack_rounding (finite : x.isFinite = true) (pos : 0 < x.rounding.significand) :
    pack .binary32 (.finite x.sign x.rounding.significand x.rounding.exponent pos) =
      x.bits.toBitVec := by
  rw [isFinite_iff] at finite
  have field := x.exponentField_lt
  have fraction := x.fractionField_lt
  have bias : (Format.binary32.exponentBias : ℤ) + Format.binary32.mantissaBitsWithoutImplicit =
      150 := rfl
  have width : Format.binary32.mantissaBits = 24 := rfl
  rw [toBitVec_bits]
  by_cases e : x.exponentField = 0
  · obtain ⟨significand, exponent⟩ := rounding_subnormal e
    simp only [significand] at pos
    have log : x.fractionField.log2 < 23 := (Nat.log2_lt pos.ne').2 fraction
    have encoded : ((-149 : ℤ) + Format.binary32.exponentBias +
        Format.binary32.mantissaBitsWithoutImplicit).toNat = 1 := by omega
    simp only [significand, exponent, pack, encoded, e]
    rw [width, if_neg (by decide), if_neg (by omega)]
  · obtain ⟨significand, exponent⟩ := rounding_normal e
    have log : (x.fractionField + 2 ^ 23).log2 = 23 := (Nat.log2_eq_iff (by omega)).2 (by omega)
    have encoded : ((x.exponentField : ℤ) - 150 + Format.binary32.exponentBias +
        Format.binary32.mantissaBitsWithoutImplicit).toNat = x.exponentField := by omega
    have cleared : BitVec.ofNat 23 (x.fractionField + 2 ^ 23) = .ofNat 23 x.fractionField := by
      refine BitVec.eq_of_toNat_eq ?_
      rw [BitVec.toNat_ofNat, BitVec.toNat_ofNat]
      omega
    simp only [significand, exponent, pack, encoded, log]
    rw [width, if_neg (show ¬ 2 ^ 8 ≤ x.exponentField + 1 by omega), if_pos rfl, cleared]

/-- Bits with an exponent field that is not full are no NaN. -/
theorem ofSingle_of_bits (finite : x.isFinite = true) {y : Float32.Model}
    (bits : y.toBits = x.bits) : ofSingle (.ofModel y) = x := by
  have number : (Float32.ofModel y).isNaN = false := by
    show (unpack .binary32 y.toBits.toBitVec).isNaN = false
    have field : (BitVec.ofNat 8 x.exponentField) ≠ -1#8 := fun same => by
      have := congrArg BitVec.toNat same
      rw [BitVec.toNat_ofNat, Nat.mod_eq_of_lt x.exponentField_lt] at this
      exact isFinite_iff.1 finite this
    rw [bits, toBitVec_bits, unpack]
    simp only [unpackExponent_packComponents, unpackMantissa_packComponents, field, if_false]
    split
    · split <;> rfl
    · rfl
  rw [ofSingle, number]
  exact Scalar.ext bits

/-- The nearest scalar of a number is that scalar. -/
theorem ofSingle_pack (finite : x.isFinite = true) {u : UnpackedFloat}
    (packed : pack .binary32 u = x.bits.toBitVec) : ofSingle (.ofModel (.pack u)) = x :=
  ofSingle_of_bits finite (by
    show UInt32.ofBitVec (pack .binary32 u) = x.bits
    rw [packed])

end Scalar

/-! ## Doubles -/

namespace Rounding

variable {r : Rounding} {v : ℚ}

theorem exponents_lt {a b : ℕ} {i j : ℤ} (h : (2 : ℚ) ^ a * 2 ^ i < 2 ^ b * 2 ^ j) :
    a + i < b + j := by
  rw [← zpow_natCast, ← zpow_natCast, ← zpow_add₀ two_ne_zero, ← zpow_add₀ two_ne_zero] at h
  exact (zpow_lt_zpow_iff_right₀ one_lt_two).1 h

theorem two_zpow_exponent (r : Rounding) : (2 : ℚ) ^ r.exponent = 4 * r.quarter := by
  rw [quarter, zpow_sub₀ two_ne_zero]
  norm_num
  ring

/-- In the interval, the significand is the nearest multiple of the last place. -/
theorem Contains.isNearest (canonical : r.Canonical) (contains : r.Contains v) :
    IsNearest (v / 2 ^ r.exponent) r.significand := by
  have unit := r.quarter_pos
  obtain ⟨lower, upper⟩ := contains.le
  have below : (4 * r.significand - 2 : ℚ) ≤ r.below := by
    have : 4 * r.significand ≤ r.below + 2 := by
      have := canonical.below
      split at this <;> omega
    have : (4 * r.significand : ℚ) ≤ r.below + 2 := by exact_mod_cast this
    linarith
  have above : (r.above : ℚ) = 4 * r.significand + 2 := by exact_mod_cast canonical.above
  have floor := mul_le_mul_of_nonneg_right below unit.le
  rw [above] at upper
  rw [two_zpow_exponent]
  refine ⟨?_, ?_, fun tie => ?_⟩
  · rw [le_div_iff₀ (by positivity)]
    linarith
  · rw [div_le_iff₀ (by positivity)]
    linarith
  · by_contra odd
    rw [Contains, canonical.closed, decide_eq_false odd, above] at contains
    simp only [Bool.false_eq_true, if_false] at contains
    rw [div_eq_iff (by positivity), div_eq_iff (by positivity)] at tie
    rcases tie with tie | tie <;> linarith [contains.1, contains.2]

/-- Of the intervals, only those of powers of two reach below a power of two. -/
theorem Contains.power (canonical : r.Canonical) (contains : r.Contains v)
    (normal : -149 < r.exponent) (under : v < 2 ^ 25 * r.quarter) :
    r.significand = 2 ^ 23 ∧ (2 ^ 25 - 1) * r.quarter ≤ v := by
  have lower := contains.le.1
  have few : r.below < 2 ^ 25 := by
    have : (r.below : ℚ) < 2 ^ 25 := lt_of_mul_lt_mul_right (lower.trans_lt under) r.quarter_pos.le
    exact_mod_cast this
  have ends : r.significand = 2 ^ 23 ∧ r.below = 2 ^ 25 - 1 := by
    have below := canonical.below
    have := canonical.normal
    split at below <;> omega
  rw [ends.2] at lower
  exact ⟨ends.1, by exact_mod_cast lower⟩

/-- In the interval, the exponent of the format is that of the magnitude.  Just below a power of
    two it is one less, and the mantissa is rounded up to a power of two. -/
theorem Contains.ofRounded (canonical : r.Canonical) (contains : r.Contains v) {sign : Sign}
    {m : ℕ} {e : ℤ} (lower : 2 ^ 52 ≤ m) (upper : m < 2 ^ 53) (value : v = m * 2 ^ e)
    {n : ℕ} {t : ℤ} (target : t = max (e + 29) (-149)) (nearest : IsNearest (v / 2 ^ t) n) :
    ofRounded .binary32 sign n t = .finite sign r.significand r.exponent canonical.pos := by
  have unit := r.quarter_pos
  have least : (2 : ℚ) ^ 52 * 2 ^ e ≤ v := by
    rw [value]
    exact mul_le_mul_of_nonneg_right (by exact_mod_cast lower) (by positivity)
  have greatest : v < 2 ^ 53 * 2 ^ e := by
    rw [value]
    exact mul_lt_mul_of_pos_right (by exact_mod_cast upper) (by positivity)
  have above : v < 2 ^ 26 * r.quarter := by
    have : r.above < 2 ^ 26 := by have := canonical.above; have := canonical.few; omega
    have : (r.above : ℚ) < 2 ^ 26 := by exact_mod_cast this
    exact contains.le.2.trans_lt (mul_lt_mul_of_pos_right this unit)
  have high : 52 + e < 26 + (r.exponent - 2) := exponents_lt (least.trans_lt above)
  have exponent := canonical.least
  by_cases same : t = r.exponent
  · subst same
    rw [nearest.eq (contains.isNearest canonical), MessagePassing.ofRounded,
      dif_neg canonical.pos.ne', if_pos (by exact canonical.few)]
  · -- The number lies below the power of two that is the magnitude.
    have under : v < 2 ^ 25 * r.quarter := by
      by_contra beyond
      have := exponents_lt ((not_lt.1 beyond).trans_lt greatest)
      omega
    obtain ⟨power, bound⟩ := contains.power canonical (by omega) under
    have low : 24 + (r.exponent - 2) < 53 + e :=
      exponents_lt ((show 2 ^ 24 * r.quarter ≤ v by linarith).trans_lt greatest)
    have high' : 52 + e < 25 + (r.exponent - 2) := exponents_lt (least.trans_lt under)
    obtain rfl : t = r.exponent - 1 := by omega
    have half : (2 : ℚ) ^ (r.exponent - 1) = 2 * r.quarter := by
      rw [zpow_sub₀ two_ne_zero, two_zpow_exponent]
      ring
    have full : IsNearest (v / 2 ^ (r.exponent - 1)) (2 ^ 24) := by
      rw [half]
      refine ⟨?_, ?_, fun _ => by decide⟩
      · rw [le_div_iff₀ (by positivity)]
        push_cast
        linarith
      · rw [div_le_iff₀ (by positivity)]
        push_cast
        linarith
    rw [nearest.eq full, MessagePassing.ofRounded, dif_neg (by decide), if_neg (by decide)]
    congr 1
    · exact power.symm
    · omega

end Rounding

/-- **A double in the interval of a scalar becomes that scalar.** -/
theorem Scalar.ofDouble_eq {x : Scalar} (finite : x.isFinite = true) (nonzero : ¬ x.isZero = true)
    {y : Float} {q : ℚ} (denotes : Denotes y q) (contains : x.rounding.Contains q) :
    ofDouble (if x.isSigned then -y else y) = x := by
  obtain ⟨m, e, pos, unpacked, lower, upper, least, greatest, value⟩ := denotes
  have canonical := rounding_canonical finite nonzero
  have log : m.log2 = 52 := (Nat.log2_eq_iff pos.ne').2 ⟨lower, upper⟩
  have signed : (if x.isSigned then -y else y).toModel.unpack = .finite x.sign m e pos := by
    rw [sign]
    split
    · show (Float.Model.pack y.toModel.unpack.neg).unpack = _
      rw [unpacked]
      exact unpack_pack_normal .negative pos lower upper least greatest
    · exact unpacked
  have target : Format.binary32.targetExponent (totalExponent m e) = max (e + 29) (-149) := by
    show max ((m.log2 : ℤ) + 1 + e - 24) (-149) = _
    rw [log]
    congr 1
    omega
  have described : Describes (.ofMantissaAndAccuracy m .exact) (q / 2 ^ e) := by
    show q / 2 ^ e - (m : ℚ) = 0
    rw [value, mul_div_cancel_right₀ _ (by positivity), sub_self]
  obtain ⟨n, nearest, -, rounded⟩ :=
    roundWithAccuracy_eq x.sign described target (by omega)
  have scale : q / 2 ^ e / 2 ^ (max (e + 29) (-149) - e).toNat = q / 2 ^ max (e + 29) (-149) := by
    rw [div_div, ← zpow_natCast, ← zpow_add₀ two_ne_zero]
    congr 2
    omega
  rw [scale] at nearest
  have stays : (e - max (e + 29) (-149)).toNat = 0 := by omega
  have result : UnpackedFloat.round .binary32 x.sign m e =
      .finite x.sign x.rounding.significand x.rounding.exponent canonical.pos := by
    simp only [UnpackedFloat.round, target, decreaseExponent, stays, Nat.shiftLeft_zero]
    rw [Int.natCast_zero, sub_zero, rounded]
    exact contains.ofRounded canonical lower upper value rfl nearest
  have packed := ofSingle_pack finite (pack_rounding finite canonical.pos)
  simp only [ofDouble, signed]
  rw [result, packed]

end MessagePassing
