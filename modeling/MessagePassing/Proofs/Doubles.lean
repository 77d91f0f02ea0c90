/-
  Message passing — doubles that are positive normal numbers.

  * `Denotes x q`: the double `x` is the positive normal number `q`;
  * `RoundsTo v q`: `q` is a double that a single rounding may give for `v`;
  * `Denotes.mul`, `Denotes.div`, `denotes_ofNat`, `denotes_powerOfTen`: what the operations of
    reading give.
-/
import MessagePassing.Decimal.Reading
import MessagePassing.Proofs.Rounding

namespace MessagePassing

open Float.Model (Format UnpackedFloat totalExponent)
open Float.Model.UnpackedFloat

/-! ## Bits -/

theorem toNat_one_append {n : ℕ} (b : BitVec n) : (1#1 ++ b).toNat = 2 ^ n + b.toNat := by
  rw [BitVec.toNat_append, ← Nat.shiftLeft_add_eq_or_of_lt b.isLt]
  simp [Nat.shiftLeft_eq]

/-- A normal number of the format of doubles is kept as it is. -/
theorem unpack_pack_normal (sign : Sign) {m : ℕ} {e : ℤ} (pos : 0 < m) (lower : 2 ^ 52 ≤ m)
    (upper : m < 2 ^ 53) (least : -1074 ≤ e) (greatest : e ≤ 971) :
    (Float.Model.pack (.finite sign m e pos)).unpack = .finite sign m e pos := by
  have log : m.log2 = 52 := (Nat.log2_eq_iff pos.ne').2 ⟨lower, upper⟩
  obtain ⟨field, hfield⟩ : ∃ field : ℕ, e + 1075 = field := ⟨(e + 1075).toNat, by omega⟩
  have bias : (Format.binary64.exponentBias : ℤ) + Format.binary64.mantissaBitsWithoutImplicit =
      1075 := rfl
  have small : field < 2 ^ 11 - 1 := by omega
  have fieldBits : (BitVec.ofNat 11 field).toNat = field := by
    rw [BitVec.toNat_ofNat, Nat.mod_eq_of_lt (by omega)]
  have notOnes : BitVec.ofNat 11 field ≠ -1#11 := fun same => by
    have := congrArg BitVec.toNat same
    rw [fieldBits] at this
    simp at this
    omega
  have notZero : BitVec.ofNat 11 field ≠ 0#11 := fun same => by
    have := congrArg BitVec.toNat same
    rw [fieldBits] at this
    simp at this
    omega
  have mantissa : (1#1 ++ BitVec.ofNat 52 m).toNat = m := by
    rw [toNat_one_append, BitVec.toNat_ofNat]
    omega
  have packed : pack .binary64 (.finite sign m e pos) =
      packComponents .binary64 sign (.ofNat 11 field) (.ofNat 52 m) := by
    have encoded : (e + Format.binary64.exponentBias +
        Format.binary64.mantissaBitsWithoutImplicit).toNat = field := by omega
    simp only [pack, encoded, log]
    rw [if_neg (show ¬ 2 ^ 11 ≤ field + 1 by omega)]
    exact if_pos rfl
  show unpack .binary64 (pack .binary64 (.finite sign m e pos)) = _
  rw [packed]
  simp only [unpack, unpackMantissa_packComponents, unpackExponent_packComponents,
    unpackSign_packComponents, Sign.ofBitVec_toBitVec, notOnes, notZero, if_false, fieldBits,
    mantissa]
  show UnpackedFloat.finite sign m (field - 1075) pos = .finite sign m e pos
  congr 1
  omega

/-! ## Positive normal numbers -/

/-- The double is the positive normal number `q`. -/
def Denotes (x : Float) (q : ℚ) : Prop :=
  ∃ (m : ℕ) (e : ℤ) (pos : 0 < m), x.toModel.unpack = .finite .positive m e pos ∧
    2 ^ 52 ≤ m ∧ m < 2 ^ 53 ∧ -1074 ≤ e ∧ e ≤ 971 ∧ q = m * 2 ^ e

/-- `q` is what a single rounding gives for `v`: it is as near as doubles are dense, and it is
    `v` itself where that has no more than 53 bits. -/
structure RoundsTo (v q : ℚ) : Prop where
  near : |q - v| ≤ v / 2 ^ 53
  exact : ∀ (M : ℕ) (G : ℤ), M < 2 ^ 53 → v = M * 2 ^ G → q = v

theorem roundsTo_of_nearest {v : ℚ} {t : ℤ} {r : ℕ} (nearest : IsNearest (v / 2 ^ t) r)
    (bits : 2 ^ 52 ≤ v / 2 ^ t) : RoundsTo v (r * 2 ^ t) := by
  have unit : (0 : ℚ) < 2 ^ t := by positivity
  obtain ⟨w, rfl⟩ : ∃ w : ℚ, v = w * 2 ^ t := ⟨v / 2 ^ t, by field_simp⟩
  rw [mul_div_cancel_right₀ _ unit.ne'] at nearest bits
  constructor
  · have close : |(r : ℚ) - w| ≤ w / 2 ^ 53 := by
      rw [abs_le]
      constructor <;> linarith [nearest.lower, nearest.upper]
    calc |r * 2 ^ t - w * 2 ^ t| = |(r : ℚ) - w| * 2 ^ t := by
          rw [← sub_mul, abs_mul, abs_of_pos unit]
      _ ≤ w / 2 ^ 53 * 2 ^ t := mul_le_mul_of_nonneg_right close unit.le
      _ = w * 2 ^ t / 2 ^ 53 := by ring
  · intro M G few same
    -- A number of at most 53 bits is a multiple of the last place of the rounded mantissa.
    have scaled : w = M * 2 ^ (G - t) := by
      rw [zpow_sub₀ two_ne_zero]
      field_simp
      linarith
    have above : t ≤ G := by
      by_contra less
      have half : (2 : ℚ) ^ (G - t) ≤ 2 ^ (-1 : ℤ) := zpow_le_zpow_right₀ one_le_two (by omega)
      have fewer : (M : ℚ) ≤ 2 ^ 53 - 1 := by
        have : (M : ℚ) + 1 ≤ 2 ^ 53 := by exact_mod_cast few
        linarith
      have : w ≤ (2 ^ 53 - 1) * 2 ^ (-1 : ℤ) := by
        rw [scaled]
        exact mul_le_mul fewer half (by positivity) (by norm_num)
      norm_num at this bits
      linarith
    obtain ⟨k, hk⟩ : ∃ k : ℕ, G - t = k := ⟨(G - t).toNat, by omega⟩
    have whole : w = (M * 2 ^ k : ℕ) := by
      rw [scaled, hk]
      push_cast
      rw [zpow_natCast]
    rw [whole] at nearest
    rw [whole, nearest.eq (.self _)]

/-- A number far from the least and the greatest normal double. -/
def Moderate (v : ℚ) : Prop := 2 ^ (-1000 : ℤ) ≤ v ∧ v ≤ 2 ^ (1000 : ℤ)

theorem Moderate.log2 {m : ℕ} {e : ℤ} {v : ℚ} (moderate : Moderate v) (pos : 0 < m)
    (lower : m ≤ v / 2 ^ e) (upper : v / 2 ^ e < m + 1) :
    -1001 ≤ m.log2 + e ∧ m.log2 + e ≤ 1000 := by
  have unit : (0 : ℚ) < 2 ^ e := by positivity
  have leading : (2 : ℚ) ^ (m.log2 : ℤ) ≤ m := by
    exact_mod_cast Nat.log2_self_le pos.ne'
  have following : (m : ℚ) + 1 ≤ 2 ^ ((m.log2 : ℤ) + 1) := by
    exact_mod_cast Nat.lt_log2_self
  rw [le_div_iff₀ unit] at lower
  rw [div_lt_iff₀ unit] at upper
  have below : (2 : ℚ) ^ ((m.log2 : ℤ) + e) ≤ 2 ^ (1000 : ℤ) := by
    rw [zpow_add₀ two_ne_zero]
    exact ((mul_le_mul_of_nonneg_right leading unit.le).trans lower).trans moderate.2
  have above : (2 : ℚ) ^ (-1000 : ℤ) < 2 ^ ((m.log2 : ℤ) + 1 + e) := by
    rw [zpow_add₀ two_ne_zero]
    exact (moderate.1.trans_lt upper).trans_le (mul_le_mul_of_nonneg_right following unit.le)
  have h := (zpow_le_zpow_iff_right₀ one_lt_two).1 below
  have h' := (zpow_lt_zpow_iff_right₀ one_lt_two).1 above
  omega

/-- Rounding a number of at least 53 bits gives a normal double. -/
theorem denotes_round {m : ℕ} {e : ℤ} {accuracy : Accuracy} {v : ℚ}
    (described : Describes (.ofMantissaAndAccuracy m accuracy) (v / 2 ^ e))
    (bits : 52 ≤ m.log2) (moderate : Moderate v) :
    ∃ q, RoundsTo v q ∧
      Denotes (.ofModel (.pack (roundWithAccuracy .binary64 .positive m e accuracy))) q := by
  have pos : 0 < m := Nat.pos_of_ne_zero (by rintro rfl; simp at bits)
  have below := described.le
  have above := described.lt
  rw [mantissa_ofMantissaAndAccuracy] at below above
  obtain ⟨least, greatest⟩ := moderate.log2 pos below above
  obtain ⟨t, ht⟩ : ∃ t : ℤ, t = m.log2 + e - 52 := ⟨_, rfl⟩
  have target : Format.binary64.targetExponent (totalExponent m e) = t := by
    show max ((m.log2 : ℤ) + 1 + e - 53) (-1074) = t
    omega
  obtain ⟨r, nearest, bounded, rounded⟩ :=
    roundWithAccuracy_eq .positive described target (by omega)
  obtain ⟨k, hk⟩ : ∃ k : ℕ, t - e = k := ⟨(t - e).toNat, by omega⟩
  have scale : v / 2 ^ e / 2 ^ (t - e).toNat = v / 2 ^ t := by
    rw [hk, Int.toNat_natCast, div_div, ← zpow_natCast, ← zpow_add₀ two_ne_zero, ← hk,
      add_sub_cancel]
  have large : (2 : ℚ) ^ 52 ≤ v / 2 ^ t := by
    have width : m.log2 = 52 + k := by omega
    have leading : (2 : ℚ) ^ (52 + k) ≤ m := by
      rw [← width]
      exact_mod_cast Nat.log2_self_le pos.ne'
    rw [← scale, hk, Int.toNat_natCast, le_div_iff₀ (by positivity), ← pow_add]
    exact leading.trans below
  rw [scale] at nearest
  refine ⟨r * 2 ^ t, roundsTo_of_nearest nearest large, ?_⟩
  have lower : 2 ^ 52 ≤ r := by
    have : ((2 ^ 52 : ℕ) : ℚ) < r + 1 := by
      push_cast
      linarith [nearest.upper]
    exact Nat.lt_succ_iff.1 (by exact_mod_cast this)
  rw [rounded, ofRounded, dif_neg (by omega)]
  rcases bounded.lt_or_eq with small | full
  · rw [if_pos small]
    exact ⟨r, t, by omega, unpack_pack_normal .positive _ lower small (by omega) (by omega), lower,
      small, by omega, by omega, rfl⟩
  · rw [if_neg (by omega)]
    refine ⟨2 ^ 52, t + 1, Nat.two_pow_pos _, unpack_pack_normal .positive _ le_rfl (by decide)
      (by omega) (by omega), le_rfl, by decide, by omega, by omega, ?_⟩
    rw [full, zpow_add₀ two_ne_zero]
    show ((2 ^ 53 : ℕ) : ℚ) * 2 ^ t = _
    push_cast
    ring

/-! ## Operations -/

theorem log2_of_bits {m : ℕ} (lower : 2 ^ 52 ≤ m) : 52 ≤ m.log2 :=
  (Nat.le_log2 (by omega)).2 lower

namespace Denotes

variable {x y : Float} {a b : ℚ}

/-- A product is rounded once. -/
theorem mul (hx : Denotes x a) (hy : Denotes y b) (moderate : Moderate (a * b)) :
    ∃ q, RoundsTo (a * b) q ∧ Denotes (x * y) q := by
  obtain ⟨m, e, mpos, hm, mlower, -, -, -, rfl⟩ := hx
  obtain ⟨n, f, npos, hn, nlower, -, -, -, rfl⟩ := hy
  have described : Describes (.ofMantissaAndAccuracy (m * n) .exact)
      (m * 2 ^ e * (n * 2 ^ f) / 2 ^ (e + f)) := by
    show m * 2 ^ e * (n * 2 ^ f) / 2 ^ (e + f) - ((m * n : ℕ) : ℚ) = 0
    rw [zpow_add₀ two_ne_zero]
    push_cast
    field_simp
    ring
  have bits : 52 ≤ (m * n).log2 := log2_of_bits (mlower.trans (Nat.le_mul_of_pos_right m npos))
  have product : x * y = .ofModel (.pack (roundWithAccuracy .binary64 .positive (m * n) (e + f)
      .exact)) := by
    show Float.ofModel (.pack (UnpackedFloat.mul .binary64 x.toModel.unpack y.toModel.unpack)) = _
    rw [hm, hn]
    rfl
  rw [product]
  exact denotes_round described bits moderate

end Denotes

theorem describes_fraction (num : ℕ) {den : ℕ} (pos : 0 < den) :
    Describes (.ofMantissaAndAccuracy (num / den) (accuracyOfFraction (num % den) den))
      ((num : ℚ) / den) := by
  have unit : (0 : ℚ) < den := by exact_mod_cast pos
  have parts : (num : ℚ) / den - (num / den : ℕ) = (num % den : ℕ) / den := by
    have := congrArg (Nat.cast (R := ℚ)) (Nat.div_add_mod num den)
    push_cast at this
    field_simp
    linarith
  have less : ((num % den : ℕ) : ℚ) < den := by exact_mod_cast Nat.mod_lt num pos
  rw [Describes, mantissa_ofMantissaAndAccuracy, parts, accuracyOfFraction]
  generalize num % den = rest at less
  split
  · rename_i nothing
    subst nothing
    show ((0 : ℕ) : ℚ) / den = 0
    simp
  · rename_i something
    have some : (0 : ℚ) < rest := by exact_mod_cast Nat.pos_of_ne_zero something
    rcases lt_trichotomy (2 * rest) den with h | h | h
    · rw [Nat.compare_eq_lt.2 h]
      have h' : (2 * rest : ℚ) < den := by exact_mod_cast h
      exact ⟨by positivity, by rw [div_lt_div_iff₀ unit two_pos]; linarith⟩
    · rw [Nat.compare_eq_eq.2 h]
      have h' : (2 * rest : ℚ) = den := by exact_mod_cast h
      show (rest : ℚ) / den = 1 / 2
      rw [div_eq_div_iff unit.ne' two_ne_zero]
      linarith
    · rw [Nat.compare_eq_gt.2 h]
      have h' : (den : ℚ) < 2 * rest := by exact_mod_cast h
      exact ⟨by rw [div_lt_div_iff₀ two_pos unit]; linarith, (div_lt_one unit).2 less⟩

/-- A quotient is rounded once. -/
theorem Denotes.div {x y : Float} {a b : ℚ} (hx : Denotes x a) (hy : Denotes y b)
    (moderate : Moderate (a / b)) : ∃ q, RoundsTo (a / b) q ∧ Denotes (x / y) q := by
  obtain ⟨m, e, mpos, hm, mlower, mupper, -, -, rfl⟩ := hx
  obtain ⟨n, f, npos, hn, nlower, nupper, -, -, rfl⟩ := hy
  -- The dividend is shifted so far that the quotient has at least 53 bits.
  have mlog : m.log2 = 52 := (Nat.log2_eq_iff mpos.ne').2 ⟨mlower, mupper⟩
  have nlog : n.log2 = 52 := (Nat.log2_eq_iff npos.ne').2 ⟨nlower, nupper⟩
  have bits : 2 ^ 52 ≤ m * 2 ^ 53 / n := by
    rw [Nat.le_div_iff_mul_le npos]
    omega
  have described := describes_fraction (m * 2 ^ 53) npos
  have scaled : ((m * 2 ^ 53 : ℕ) : ℚ) / n =
      m * 2 ^ e / (n * 2 ^ f) / 2 ^ (e - f - 53) := by
    rw [zpow_sub₀ two_ne_zero, zpow_sub₀ two_ne_zero]
    push_cast
    field_simp
  rw [scaled] at described
  have least : -1074 ≤ e - f - 53 := by
    have below := described.le
    have above := described.lt
    rw [mantissa_ofMantissaAndAccuracy] at below above
    have := (moderate.log2 (by omega) below above).1
    have : (m * 2 ^ 53 / n).log2 < 54 := by
      rw [Nat.log2_lt (by omega), Nat.div_lt_iff_lt_mul npos]
      omega
    omega
  have core : divCore .binary64 m e n f =
      (m * 2 ^ 53 / n, e - f - 53, accuracyOfFraction (m * 2 ^ 53 % n) n) := by
    have target : min (e - f) (Format.binary64.targetExponent (totalExponent m e -
        totalExponent n f)) = e - f - 53 := by
      show min (e - f) (max ((m.log2 : ℤ) + 1 + e - ((n.log2 : ℤ) + 1 + f) - 53) (-1074)) = _
      omega
    have shift : (e - f - (e - f - 53)).toNat = 53 := by omega
    simp only [divCore, target, shift, Nat.shiftLeft_eq]
  have quotient : x / y = .ofModel (.pack (roundWithAccuracy .binary64 .positive
      (m * 2 ^ 53 / n) (e - f - 53) (accuracyOfFraction (m * 2 ^ 53 % n) n))) := by
    show Float.ofModel (.pack (UnpackedFloat.div .binary64 x.toModel.unpack y.toModel.unpack)) = _
    rw [hm, hn]
    simp only [UnpackedFloat.div, core]
    rfl
  rw [quotient]
  exact denotes_round described (log2_of_bits bits) moderate

/-! ## Powers of ten and natural numbers -/

theorem denotes_one : Denotes (.ofBits 0x3FF0000000000000) 1 :=
  ⟨2 ^ 52, -52, by decide, by rfl, by decide, by decide, by decide, by decide, by norm_num⟩

theorem moderate_of_one_le {v : ℚ} (lower : 1 ≤ v) (upper : v ≤ 2 ^ 1000) : Moderate v :=
  ⟨(zpow_le_one_of_nonpos₀ one_le_two (by decide)).trans lower, by exact_mod_cast upper⟩

/-- A natural number of at most 53 bits is a double. -/
theorem denotes_toFloat {n : ℕ} (pos : 0 < n) (few : n < 2 ^ 53) :
    Denotes n.toUInt64.toFloat n := by
  have log : n.log2 ≤ 52 := Nat.lt_succ_iff.1 ((Nat.log2_lt pos.ne').2 few)
  obtain ⟨k, hk⟩ : ∃ k : ℕ, n.log2 + k = 52 := ⟨52 - n.log2, by omega⟩
  have bits : 52 ≤ (n * 2 ^ k).log2 := log2_of_bits (by
    rw [← hk, pow_add]
    exact Nat.mul_le_mul_right _ (Nat.log2_self_le pos.ne'))
  have described : Describes (.ofMantissaAndAccuracy (n * 2 ^ k) .exact)
      ((n : ℚ) / 2 ^ (-k : ℤ)) := by
    show (n : ℚ) / 2 ^ (-k : ℤ) - ((n * 2 ^ k : ℕ) : ℚ) = 0
    rw [zpow_neg, zpow_natCast]
    push_cast
    field_simp
    ring
  have moderate : Moderate n := moderate_of_one_le (by exact_mod_cast pos) (by
    have : (n : ℚ) ≤ 2 ^ 53 := by exact_mod_cast few.le
    exact this.trans (pow_le_pow_right₀ one_le_two (by decide)))
  obtain ⟨q, rounds, denotes⟩ := denotes_round described bits moderate
  rw [rounds.exact n 0 few (by simp)] at denotes
  have target : Format.binary64.targetExponent (totalExponent n 0) = -k := by
    show max ((n.log2 : ℤ) + 1 + 0 - 53) (-1074) = _
    omega
  have shift : (0 - (-k : ℤ)).toNat = k := by omega
  have whole : n.toUInt64.toNat = n := by
    simp
    omega
  have same : n.toUInt64.toFloat = .ofModel (.pack (roundWithAccuracy .binary64 .positive
      (n * 2 ^ k) (-k) .exact)) := by
    have greater : compare (n : ℤ) 0 = .gt := Int.compare_eq_gt.2 (by omega)
    show Float.ofModel
      (.pack (UnpackedFloat.normalize .binary64 (n.toUInt64.toNat : ℤ) 0 .positive)) = _
    rw [whole, UnpackedFloat.normalize, greater]
    simp only [Int.toNat_natCast, UnpackedFloat.round, target, decreaseExponent, shift,
      Nat.shiftLeft_eq]
    simp
  rwa [same]

theorem denotes_ofNat {n : ℕ} (pos : 0 < n) (few : n < 2 ^ 53) : Denotes (.ofNat n) n := by
  have same : Float.ofNat n = n.toUInt64.toFloat * .ofBits 0x3FF0000000000000 := by
    rw [Float.ofNat]
    show Float.ofScientific n false 0 = _
    rw [Float.ofScientific, dif_pos ⟨few, by decide⟩]
    rfl
  have moderate : Moderate ((n : ℚ) * 1) := by
    rw [mul_one]
    refine moderate_of_one_le (by exact_mod_cast pos) ?_
    calc (n : ℚ) ≤ 2 ^ 53 := by exact_mod_cast few.le
      _ ≤ 2 ^ 1000 := pow_le_pow_right₀ one_le_two (by decide)
  obtain ⟨q, rounds, denotes⟩ := (denotes_toFloat pos few).mul denotes_one moderate
  rw [same]
  rwa [rounds.exact n 0 few (by simp), mul_one] at denotes

theorem powerOfTen_eq (n : ℕ) :
    Literal.powerOfTen n = .ofModel (Float.Model.ofScientific 1 n) := by
  rcases Nat.lt_or_ge 22 n with large | small
  · rw [Literal.powerOfTen, Float.ofScientific, dif_neg (by omega)]
    rfl
  · have table : ∀ n ≤ 22, (Float.ofScientific 1 false n).toModel =
        Float.Model.ofScientific 1 n := by decide +kernel
    exact congrArg Float.ofModel (table n small)

theorem denotes_powerOfTen {n : ℕ} (few : n ≤ 60) :
    ∃ q, RoundsTo (10 ^ n) q ∧ Denotes (Literal.powerOfTen n) q := by
  have bits : 52 ≤ (1 <<< 53 * 10 ^ n).log2 := log2_of_bits (by
    have : 0 < 10 ^ n := by positivity
    omega)
  have described : Describes (.ofMantissaAndAccuracy (1 <<< 53 * 10 ^ n) .exact)
      ((10 : ℚ) ^ n / 2 ^ (-53 + 0 : ℤ)) := by
    show (10 : ℚ) ^ n / 2 ^ (-53 + 0 : ℤ) - ((1 <<< 53 * 10 ^ n : ℕ) : ℚ) = 0
    rw [Nat.shiftLeft_eq]
    push_cast
    norm_num
    ring
  have moderate : Moderate ((10 : ℚ) ^ n) := by
    refine moderate_of_one_le (one_le_pow₀ (by norm_num)) ?_
    calc (10 : ℚ) ^ n ≤ (2 ^ 4) ^ n := pow_le_pow_left₀ (by norm_num) (by norm_num) n
      _ = 2 ^ (4 * n) := (pow_mul 2 4 n).symm
      _ ≤ 2 ^ 1000 := pow_le_pow_right₀ one_le_two (by omega)
  have same : Float.Model.ofScientific 1 n = .pack (roundWithAccuracy .binary64 .positive
      (1 <<< 53 * 10 ^ n) (-53 + 0) .exact) := by
    rw [Float.Model.ofScientific, UnpackedFloat.ofScientific, dif_neg one_ne_zero,
      if_neg (by norm_num; omega), if_neg (by norm_num; omega), if_pos (by omega)]
    rfl
  rw [powerOfTen_eq, same]
  exact denotes_round described bits moderate

end MessagePassing
