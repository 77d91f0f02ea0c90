/-
  Message passing — rounding to the nearest number of a format.

  A number is rounded from a truncated mantissa and two residual bits, which tell where the
  number lies between this mantissa and the next one.  Shifting keeps what the bits tell
  (`Describes.shiftRight`), so that in the end the mantissa is the natural number nearest to
  the scaled number (`Describes.isNearest`).

  * `IsNearest`: the nearest natural number, the even one of two;
  * `roundWithAccuracy_eq`: what rounding to a format gives.
-/
import Mathlib

namespace MessagePassing

open Float.Model (Format UnpackedFloat totalExponent)
open Float.Model.UnpackedFloat

/-! ## Nearest natural numbers -/

/-- `n` is the natural number nearest to `v`; of two equally near ones it is even. -/
structure IsNearest (v : ℚ) (n : ℕ) : Prop where
  lower : (n : ℚ) - 1 / 2 ≤ v
  upper : v ≤ n + 1 / 2
  even : v = n - 1 / 2 ∨ v = n + 1 / 2 → n % 2 = 0

namespace IsNearest

variable {v : ℚ} {m n : ℕ}

theorem self (n : ℕ) : IsNearest n n :=
  ⟨by linarith, by linarith, fun h => by rcases h with h | h <;> linarith⟩

theorem eq (hm : IsNearest v m) (hn : IsNearest v n) : m = n := by
  -- Nearest numbers are less than two apart, and if they are one apart, both are even.
  wlog order : m ≤ n generalizing m n
  · exact (this hn hm (Nat.le_of_not_le order)).symm
  have near : (n : ℚ) ≤ m + 1 := by linarith [hn.lower, hm.upper]
  have close : n ≤ m + 1 := by exact_mod_cast near
  rcases Nat.lt_or_ge m n with less | ge
  · exfalso
    obtain rfl : n = m + 1 := by omega
    have next : ((m + 1 : ℕ) : ℚ) = m + 1 := by push_cast; rfl
    have tie : v = m + 1 / 2 := by linarith [hm.upper, hn.lower]
    have evenM := hm.even (.inr tie)
    have evenN := hn.even (.inl (by rw [tie, next]; ring))
    omega
  · omega

end IsNearest

/-! ## Residual bits -/

/-- The part of a number after the mantissa, as far as the residual bits tell it. -/
def Residue (d : ℚ) : Bool → Bool → Prop
  | false, false => d = 0
  | false, true => 0 < d ∧ d < 1 / 2
  | true, false => d = 1 / 2
  | true, true => 1 / 2 < d ∧ d < 1

/-- The mantissa of `v`, with residual bits. -/
def Describes (em : ExtendedMantissa) (v : ℚ) : Prop :=
  Residue (v - em.mantissa) em.roundBit em.stickyBit

namespace Describes

variable {em : ExtendedMantissa} {v : ℚ}

theorem le (h : Describes em v) : em.mantissa ≤ v := by
  obtain ⟨m, round, sticky⟩ := em
  cases round <;> cases sticky <;> simp only [Describes, Residue] at h ⊢ <;> linarith

theorem lt (h : Describes em v) : v < em.mantissa + 1 := by
  obtain ⟨m, round, sticky⟩ := em
  cases round <;> cases sticky <;> simp only [Describes, Residue] at h ⊢ <;> linarith

/-- A bit that is shifted out becomes the round bit. -/
theorem shiftRightOne (h : Describes em v) : Describes em.shiftRightOne (v / 2) := by
  obtain ⟨m, round, sticky⟩ := em
  have halves : (m : ℚ) = 2 * (m / 2 : ℕ) + (m % 2 : ℕ) := by
    exact_mod_cast (Nat.div_add_mod m 2).symm
  rcases Nat.mod_two_eq_zero_or_one m with parity | parity <;>
    rw [parity] at halves <;>
    cases round <;> cases sticky <;>
    simp [Describes, ExtendedMantissa.shiftRightOne, parity, Residue] at h halves ⊢
  all_goals first | (constructor <;> linarith) | linarith

theorem shiftRight (h : Describes em v) (k : ℕ) : Describes (em >>> k) (v / 2 ^ k) := by
  induction k with
  | zero => simpa [HShiftRight.hShiftRight, Nat.repeat] using h
  | succ k ih =>
    have step := ih.shiftRightOne
    rw [div_div, ← pow_succ] at step
    exact step

/-- The residual bits round to the nearest. -/
theorem isNearest (h : Describes em v) : IsNearest v em.roundedMantissa := by
  obtain ⟨m, round, sticky⟩ := em
  cases round <;> cases sticky <;>
    simp only [Describes, Residue, ExtendedMantissa.roundedMantissa, ExtendedMantissa.accuracy,
      Accuracy.roundToNearestEven] at h ⊢
  · rw [sub_eq_zero.1 h]
    exact .self m
  · exact ⟨by linarith, by linarith, fun tie => by rcases tie with tie | tie <;> linarith⟩
  · -- Halfway, where the odd mantissa goes up.
    rcases Nat.mod_two_eq_zero_or_one m with parity | parity <;> rw [parity]
    · exact ⟨by push_cast; linarith, by push_cast; linarith, fun _ => parity⟩
    · exact ⟨by push_cast; linarith, by push_cast; linarith, fun _ => by omega⟩
  · refine ⟨?_, ?_, fun tie => ?_⟩ <;> push_cast at *
    · linarith
    · linarith
    · rcases tie with tie | tie <;> linarith

end Describes

theorem mantissa_ofMantissaAndAccuracy (m : ℕ) (accuracy : Accuracy) :
    (ExtendedMantissa.ofMantissaAndAccuracy m accuracy).mantissa = m := by
  rcases accuracy with _ | ordering
  · rfl
  · cases ordering <;> rfl

/-! ## Rounding to a format -/

variable {spec : Format} {sign : Sign} {m r : ℕ} {e t : ℤ} {accuracy : Accuracy} {v : ℚ}

/-- The number of a rounded mantissa.  If the mantissa has a bit too many, it is a power of
    two, and is halved. -/
def ofRounded (spec : Format) (sign : Sign) (r : ℕ) (t : ℤ) : UnpackedFloat :=
  if nothing : r = 0 then .zero sign
  else if r < 2 ^ spec.mantissaBits then .finite sign r t (Nat.pos_of_ne_zero nothing)
  else .finite sign (2 ^ spec.mantissaBitsWithoutImplicit) (t + 1) (Nat.two_pow_pos _)

theorem shiftToTargetExponent_of_lt (small : r < 2 ^ spec.mantissaBits)
    (least : spec.minExponent ≤ t) :
    shiftToTargetExponent spec r t .exact = (⟨r, false, false⟩, t) := by
  have bits : r.log2 < spec.mantissaBits := by
    rcases Nat.eq_zero_or_pos r with rfl | pos
    · simp [Format.mantissaBits]
    · exact (Nat.log2_lt pos.ne').2 small
  have stays : (spec.targetExponent (totalExponent r t) - t).toNat = 0 := by
    simp only [Format.targetExponent, totalExponent]
    omega
  simp [shiftToTargetExponent, shiftToExponent, stays, HShiftRight.hShiftRight, Nat.repeat,
    ExtendedMantissa.ofMantissaAndAccuracy]

theorem shiftToTargetExponent_carry (least : spec.minExponent ≤ t) :
    shiftToTargetExponent spec (2 ^ spec.mantissaBits) t .exact =
      (⟨2 ^ spec.mantissaBitsWithoutImplicit, false, false⟩, t + 1) := by
  have target : spec.targetExponent (totalExponent (2 ^ spec.mantissaBits) t) = t + 1 := by
    simp only [Format.targetExponent, totalExponent, Nat.log2_two_pow]
    omega
  have half : 2 ^ spec.mantissaBits / 2 = 2 ^ spec.mantissaBitsWithoutImplicit := by
    rw [Format.mantissaBits, Nat.pow_add, Nat.pow_one, Nat.mul_div_cancel_left _ Nat.two_pos]
  have even : 2 ^ spec.mantissaBits % 2 = 0 := by
    rw [Format.mantissaBits, Nat.pow_add, Nat.pow_one, Nat.mul_mod_right]
  simp only [shiftToTargetExponent, target, shiftToExponent, add_sub_cancel_left]
  simp [HShiftRight.hShiftRight, Nat.repeat, ExtendedMantissa.ofMantissaAndAccuracy,
    ExtendedMantissa.shiftRightOne, half, even]

theorem roundWithAccuracy_of_shifts {em em' : ExtendedMantissa} {e' : ℤ}
    (first : shiftToTargetExponent spec m e accuracy = (em, t))
    (second : shiftToTargetExponent spec em.roundedMantissa t .exact = (em', e')) :
    roundWithAccuracy spec sign m e accuracy =
      if nothing : em'.mantissa = 0 then .zero sign
      else .finite sign em'.mantissa e' (Nat.pos_of_ne_zero nothing) := by
  simp only [roundWithAccuracy, first, second]

/-- **Rounding gives the nearest mantissa** at the exponent of the format, if the exponent at
    hand is not above that. -/
theorem roundWithAccuracy_eq (sign : Sign)
    (described : Describes (.ofMantissaAndAccuracy m accuracy) v)
    (target : spec.targetExponent (totalExponent m e) = t) (low : e ≤ t) :
    ∃ r, IsNearest (v / 2 ^ (t - e).toNat) r ∧ r ≤ 2 ^ spec.mantissaBits ∧
      roundWithAccuracy spec sign m e accuracy = ofRounded spec sign r t := by
  have nearest := (described.shiftRight (t - e).toNat).isNearest
  have first : shiftToTargetExponent spec m e accuracy =
      (ExtendedMantissa.ofMantissaAndAccuracy m accuracy >>> (t - e).toNat, t) := by
    simp only [shiftToTargetExponent, target, shiftToExponent]
    congr 1
    omega
  have least : spec.minExponent ≤ t := by
    rw [← target, Format.targetExponent]
    exact le_max_right _ _
  generalize hr : (ExtendedMantissa.ofMantissaAndAccuracy m accuracy >>>
    (t - e).toNat).roundedMantissa = r at nearest
  have bounded : r ≤ 2 ^ spec.mantissaBits := by
    have bits : m.log2 + 1 ≤ spec.mantissaBits + (t - e).toNat := by
      rw [Format.targetExponent, totalExponent] at target
      omega
    have size : m + 1 ≤ 2 ^ (spec.mantissaBits + (t - e).toNat) :=
      Nat.lt_log2_self.trans_le (Nat.pow_le_pow_right (by decide) bits)
    have above : v < 2 ^ spec.mantissaBits * 2 ^ (t - e).toNat := by
      have below := described.lt
      rw [mantissa_ofMantissaAndAccuracy] at below
      rw [← pow_add]
      exact below.trans_le (by exact_mod_cast size)
    have shifted : v / 2 ^ (t - e).toNat < 2 ^ spec.mantissaBits :=
      (div_lt_iff₀ (by positivity)).2 above
    have less : (r : ℚ) < (2 ^ spec.mantissaBits + 1 : ℕ) := by
      push_cast
      linarith [nearest.lower]
    exact Nat.lt_succ_iff.1 (by exact_mod_cast less)
  refine ⟨r, nearest, bounded, ?_⟩
  rcases bounded.lt_or_eq with small | rfl
  · have second := shiftToTargetExponent_of_lt small least
    rw [← hr] at second
    rw [roundWithAccuracy_of_shifts first second, ofRounded, ← hr]
    simp only [hr, small, if_true]
  · have second : shiftToTargetExponent spec (2 ^ spec.mantissaBits) t .exact = _ :=
      shiftToTargetExponent_carry least
    rw [← hr] at second
    rw [roundWithAccuracy_of_shifts first second, ofRounded, dif_neg (Nat.two_pow_pos _).ne',
      dif_neg (Nat.two_pow_pos _).ne', if_neg (lt_irrefl _)]

end MessagePassing
