/-
  Message passing — how near decimals come to binary numbers.

  A point `k * 10 ^ g` of a decimal grid and a point `m * 2 ^ e` of a binary grid are near each
  other iff `m / k` is near the ratio of the two spacings.  Two neighbouring fractions on both
  sides of this ratio bound all others: any `m / k` of a smaller denominator than their sum is
  one of the two or lies beyond them (`Tight.separate`).  The neighbours for each scale of a
  scalar are computed, and what they have to satisfy is checked.

  * `Grid.separated`: a decimal of few digits that is not at the middle between two scalars is not
    very near to it, but for one decimal.
-/
import Mathlib.Data.Rat.Cast.Order
import Mathlib.Tactic.LinearCombination
import Mathlib.Tactic.Linarith
import Mathlib.Tactic.Zify
import Mathlib.Tactic.Positivity
import Mathlib.Tactic.Ring

namespace MessagePassing

/-! ## Neighbouring fractions -/

/-- A fraction `below.1 / below.2` and one `above.1 / above.2` on both sides of a ratio. -/
structure Bracket where
  below : ℕ × ℕ
  above : ℕ × ℕ

namespace Bracket

/-- Move both fractions towards `a / b` as far as denominators up to `bound` allow. -/
def narrow (a b bound : ℕ) : ℕ → Bracket → Bracket
  | 0, n => n
  | fuel + 1, n =>
    if bound < n.below.2 + n.above.2 then n
    else
      let toBelow := a * n.below.2 - n.below.1 * b
      let toAbove := n.above.1 * b - a * n.above.2
      if toAbove ≤ toBelow then
        let room := if n.above.2 = 0 then toBelow else (bound - n.below.2) / n.above.2
        let times := min (toBelow / toAbove) room
        narrow a b bound fuel
          ⟨(n.below.1 + times * n.above.1, n.below.2 + times * n.above.2), n.above⟩
      else
        let room := (bound - n.above.2) / n.below.2
        let times := if toBelow = 0 then room else min ((toAbove - 1) / toBelow) room
        narrow a b bound fuel
          ⟨n.below, (n.above.1 + times * n.below.1, n.above.2 + times * n.below.2)⟩

/-- The fractions are neighbours around `a / b`, so dense that multiples of `a` up to
    `2 ^ 25 * b` lie between multiples of them, and far enough from `a / b`, but for the
    second one. -/
structure Tight (n : Bracket) (a b : ℕ) : Prop where
  lower : n.below.1 * b ≤ a * n.below.2
  upper : a * n.above.2 < n.above.1 * b
  adjacent : n.above.1 * n.below.2 = n.below.1 * n.above.2 + 1
  dense : 2 ^ 25 * b < a * (n.below.2 + n.above.2)
  farBelow : a * n.below.2 = n.below.1 * b ∨
    5 * (a * n.below.2) < 2 ^ 54 * (a * n.below.2 - n.below.1 * b)
  farBoth : 5 * (2 ^ 25 * b) <
    2 ^ 54 * ((a * n.below.2 - n.below.1 * b) + (n.above.1 * b - a * n.above.2))

/-- The second fraction is not near to the ratio, either. -/
def FarAbove (n : Bracket) (a b : ℕ) : Prop :=
  5 * (a * n.above.2) < 2 ^ 54 * (n.above.1 * b - a * n.above.2)

instance (n : Bracket) (a b : ℕ) : Decidable (n.Tight a b) :=
  decidable_of_iff (_ ∧ _ ∧ _ ∧ _ ∧ _ ∧ _)
    ⟨fun ⟨h₁, h₂, h₃, h₄, h₅, h₆⟩ => ⟨h₁, h₂, h₃, h₄, h₅, h₆⟩,
      fun ⟨h₁, h₂, h₃, h₄, h₅, h₆⟩ => ⟨h₁, h₂, h₃, h₄, h₅, h₆⟩⟩

instance (n : Bracket) (a b : ℕ) : Decidable (n.FarAbove a b) := inferInstanceAs (Decidable (_ < _))

/-- Any two numbers are integer combinations of neighbouring fractions.  With both coefficients
    positive the first number is too large.  With one of them positive the combination is at
    least as far away as that fraction if the other one is zero, and else as both together. -/
theorem Tight.separate {n : Bracket} {a b k m : ℕ} (tight : n.Tight a b) (pos : 0 < k)
    (bound : k * a ≤ 2 ^ 25 * b) : k * a = m * b ∨
      (5 * (k * a) : ℤ) < 2 ^ 54 * |(k * a : ℤ) - m * b| ∨
      ¬ n.FarAbove a b ∧ k * a < m * b ∧ ∃ j, 0 < j ∧ m = j * n.above.1 := by
  obtain ⟨⟨p, q⟩, ⟨p', q'⟩⟩ := n
  obtain ⟨lower, upper, adjacent, dense, farBelow, farBoth⟩ := tight
  simp only at *
  obtain ⟨d, hd⟩ := Nat.exists_eq_add_of_le lower
  obtain ⟨d', hd'⟩ := Nat.exists_eq_add_of_le upper.le
  rw [hd, hd', Nat.add_sub_cancel_left, Nat.add_sub_cancel_left] at farBoth
  rw [hd, Nat.add_sub_cancel_left] at farBelow
  have farAbove (h : FarAbove ⟨(p, q), (p', q')⟩ a b) : (5 * (a * q') : ℤ) < 2 ^ 54 * d' := by
    rw [FarAbove, hd', Nat.add_sub_cancel_left] at h
    exact_mod_cast h
  zify at *
  obtain ⟨α, hα⟩ : ∃ α : ℤ, α = k * p' - m * q' := ⟨_, rfl⟩
  obtain ⟨β, hβ⟩ : ∃ β : ℤ, β = m * q - k * p := ⟨_, rfl⟩
  have hk : (k : ℤ) = α * q + β * q' := by
    linear_combination -q * hα - q' * hβ - k * adjacent
  have hm : (m : ℤ) = α * p + β * p' := by
    linear_combination -p * hα - p' * hβ - m * adjacent
  have distance : (k * a : ℤ) - m * b = α * d - β * d' := by
    linear_combination a * hk - b * hm + α * hd - β * hd'
  have nonneg : (0 : ℤ) ≤ d ∧ (0 : ℤ) ≤ d' ∧ (0 : ℤ) ≤ q ∧ (0 : ℤ) ≤ q' ∧ (0 : ℤ) ≤ a :=
    ⟨by positivity, by positivity, by positivity, by positivity, by positivity⟩
  obtain ⟨hd0, hd'0, hq0, hq'0, ha0⟩ := nonneg
  have far (h : (d : ℤ) + d' ≤ |(k * a : ℤ) - m * b|) :
      5 * (k * a : ℤ) < 2 ^ 54 * |(k * a : ℤ) - m * b| := by linarith
  rcases lt_or_ge 0 α with some | none
  · have first : (d : ℤ) ≤ α * d := le_mul_of_one_le_left hd0 some
    rcases lt_trichotomy β 0 with less | rfl | more
    · have second : (d' : ℤ) ≤ -β * d' := le_mul_of_one_le_left hd'0 (by omega)
      exact .inr (.inl (far (le_abs.2 (.inl (by linarith)))))
    · rcases farBelow with same | large
      · exact .inl (by linear_combination distance + α * same)
      · refine .inr (.inl ?_)
        have scaled := mul_lt_mul_of_pos_left large some
        have multiple : (k * a : ℤ) = α * (p * b + d) := by linear_combination a * hk + α * hd
        have abs := le_abs_self ((k * a : ℤ) - m * b)
        linarith
    · exfalso
      have large : (q : ℤ) + q' ≤ k := by
        rw [hk]
        exact add_le_add (le_mul_of_one_le_left hq0 some) (le_mul_of_one_le_left hq'0 more)
      linarith [mul_le_mul_of_nonneg_left large ha0]
  · rcases lt_or_ge 0 β with more | less
    · have second : (d' : ℤ) ≤ β * d' := le_mul_of_one_le_left hd'0 more
      rcases none.lt_or_eq with neg | rfl
      · have first : (d : ℤ) ≤ -α * d := le_mul_of_one_le_left hd0 (by omega)
        exact .inr (.inl (far (le_abs.2 (.inr (by linarith)))))
      · refine .inr (or_iff_not_imp_left.2 fun near =>
          ⟨fun large => near ?_, ?_, β.toNat, by omega, ?_⟩)
        · have large : (5 * (a * q') : ℤ) < 2 ^ 54 * d' := farAbove large
          have scaled := mul_lt_mul_of_pos_left large more
          have multiple : (k * a : ℤ) = β * (a * q') := by linear_combination a * hk
          have abs := neg_le_abs ((k * a : ℤ) - m * b)
          linarith
        · have : (k * a : ℤ) < m * b := by linarith [mul_lt_mul_of_pos_left upper more]
          exact_mod_cast this
        · have : (m : ℤ) = β.toNat * p' := by
            rw [hm, Int.toNat_of_nonneg more.le]
            ring
          exact_mod_cast this
    · exfalso
      linarith [mul_nonpos_of_nonpos_of_nonneg none hq0, mul_nonpos_of_nonpos_of_nonneg less hq'0]

end Bracket

/-! ## Grids of scalars -/

theorem zpow_mul_pow_toNat {b : ℚ} (nonzero : b ≠ 0) (e : ℤ) :
    b ^ e * b ^ (-e).toNat = b ^ e.toNat := by
  rw [← zpow_natCast, ← zpow_natCast, ← zpow_add₀ nonzero]
  congr 1
  omega

namespace Grid

/-- The spacing `10 ^ power` in terms of `2 ^ scale`. -/
def ratio (power scale : ℤ) : ℕ × ℕ :=
  (10 ^ power.toNat * 2 ^ (-scale).toNat, 10 ^ (-power).toNat * 2 ^ scale.toNat)

/-- The least power of ten of a grid coarser than five quarters of `2 ^ scale`. -/
def leastPower (scale : ℤ) : ℤ := (scale * 30103 + 9691) / 100000 + 1

/-- Neighbouring fractions around the ratio of the two grids. -/
def bracket (scale : ℤ) : Bracket :=
  let (a, b) := ratio (leastPower scale) scale
  .narrow a b (2 ^ 25 * b / a) 40 ⟨(0, 1), (1, 0)⟩

/-- What a scale has to satisfy.  At two scales, a decimal is too near to a binary number. -/
def Suits (scale : ℤ) : Prop :=
  let grids := ratio (leastPower scale) scale
  2 * grids.1 ≤ 25 * grids.2 ∧ (bracket scale).Tight grids.1 grids.2 ∧
    ((bracket scale).FarAbove grids.1 grids.2 ∨
      (bracket scale).above.1 = 22841339 ∧ (scale = -108 ∨ scale = -107))

instance (scale : ℤ) : Decidable (Suits scale) := inferInstanceAs (Decidable (_ ∧ _ ∧ _))

/-- All scales of scalars do. -/
theorem suits {scale : ℤ} (least : -150 ≤ scale) (greatest : scale ≤ 103) : Suits scale := by
  have table : ∀ i : ℕ, i < 254 → Suits ((i : ℤ) - 150) := by decide +kernel
  have entry := table (scale + 150).toNat (by omega)
  rwa [Int.toNat_of_nonneg (by omega), add_sub_cancel_right] at entry

theorem exists_ratio (power scale : ℤ) : ∃ c : ℚ, 0 < c ∧
    ((ratio power scale).1 : ℚ) = 10 ^ power * c ∧ ((ratio power scale).2 : ℚ) = 2 ^ scale * c := by
  refine ⟨10 ^ (-power).toNat * 2 ^ (-scale).toNat, by positivity, ?_, ?_⟩
  · rw [← mul_assoc, zpow_mul_pow_toNat (by norm_num)]
    simp [ratio]
  · rw [mul_comm (10 ^ _ : ℚ), ← mul_assoc, zpow_mul_pow_toNat two_ne_zero]
    simp [ratio, mul_comm]

/-- **Decimals of few digits keep away from binary numbers of few bits**: on a grid coarser than
    `2 ^ scale`, a decimal is a multiple of `2 ^ scale` or not near to one, but for a decimal just
    below one multiple at two scales. -/
theorem separated {scale power : ℤ} {k m : ℕ} (least : -150 ≤ scale) (greatest : scale ≤ 103)
    (pos : 0 < k) (few : m < 2 ^ 25) (coarse : (5 * 2 ^ scale : ℚ) < 4 * 10 ^ power)
    (bound : (k * 10 ^ power : ℚ) ≤ 2 ^ 25 * 2 ^ scale) :
    (k * 10 ^ power : ℚ) = m * 2 ^ scale ∨
      5 * (k * 10 ^ power : ℚ) < 2 ^ 54 * |(k * 10 ^ power - m * 2 ^ scale : ℚ)| ∨
      (k * 10 ^ power : ℚ) < m * 2 ^ scale ∧ m = 22841339 ∧ (scale = -108 ∨ scale = -107) := by
  obtain ⟨fine, tight, far⟩ := suits least greatest
  obtain ⟨c, unit, ten, two⟩ := exists_ratio (leastPower scale) scale
  generalize (ratio (leastPower scale) scale).1 = a at *
  generalize (ratio (leastPower scale) scale).2 = b at *
  -- The grid is a part of the one whose bracket is known.
  obtain ⟨n, rfl⟩ : ∃ n : ℕ, power = leastPower scale + n := by
    have bound : (2 * a : ℚ) ≤ 25 * b := by exact_mod_cast fine
    rw [ten, two] at bound
    have small : (10 : ℚ) ^ leastPower scale < 10 ^ (power + 1) := by
      rw [zpow_add_one₀ (by norm_num)]
      have : (2 * 10 ^ leastPower scale : ℚ) ≤ 25 * 2 ^ scale :=
        le_of_mul_le_mul_right (by linarith) unit
      linarith
    have := (zpow_lt_zpow_iff_right₀ (by norm_num : (1 : ℚ) < 10)).1 small
    exact ⟨(power - leastPower scale).toNat, by omega⟩
  have decimal : (k * 10 ^ (leastPower scale + n) : ℚ) * c = (k * 10 ^ n : ℕ) * a := by
    rw [zpow_add₀ (by norm_num), zpow_natCast, ten]
    push_cast
    ring
  have binary : (m * 2 ^ scale : ℚ) * c = m * b := by
    rw [two]
    ring
  have bound' : k * 10 ^ n * a ≤ 2 ^ 25 * b := by
    have := mul_le_mul_of_nonneg_right bound unit.le
    rw [decimal, mul_assoc, ← two] at this
    exact_mod_cast this
  rcases tight.separate (m := m) (by positivity) bound' with
    equal | large | ⟨near, below, j, some, hm⟩
  · refine .inl (mul_right_cancel₀ unit.ne' ?_)
    rw [decimal, binary]
    exact_mod_cast equal
  · have distance : |(k * 10 ^ (leastPower scale + n) - m * 2 ^ scale : ℚ)| * c =
        |((k * 10 ^ n : ℕ) * a - m * b : ℚ)| := by
      rw [← decimal, ← binary, ← sub_mul, abs_mul, abs_of_pos unit]
    refine .inr (.inl (lt_of_mul_lt_mul_right ?_ unit.le))
    rw [mul_assoc 5, decimal, mul_assoc (2 ^ 54), distance]
    exact_mod_cast large
  · obtain ⟨multiple, scales⟩ := far.resolve_left near
    rw [multiple] at hm
    refine .inr (.inr ⟨lt_of_mul_lt_mul_right ?_ unit.le, by omega, scales⟩)
    rw [decimal, binary]
    exact_mod_cast below

end Grid

end MessagePassing
