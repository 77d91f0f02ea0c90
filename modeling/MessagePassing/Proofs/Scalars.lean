/-
  Message passing — scalars and their literals.

  A scalar is written as the shortest decimal in its interval, and this decimal is read as a
  double close to it.  The double stays in the interval: either the end of the interval is far
  from the decimal, compared to the error of the double, or the grid of the decimal is coarse
  and the decimal is the end itself.  One decimal comes too near to an end; its scalars are
  computed.

  * `Rounding.Close.contains_faithful`: the double stays in the interval;
  * `Scalar.exists_literal`: a scalar is written as a literal that is read as this scalar.
-/
import MessagePassing.Json.Text
import MessagePassing.Proofs.Reading
import MessagePassing.Proofs.Shortest

namespace MessagePassing

namespace Rounding

variable {r : Rounding} {q : ℤ} {k : ℕ} {y : ℚ}

/-! ## Staying in the interval -/

/-- What is close to a decimal lies on the same side of a binary number `M * 2 ^ G`, if the two
    are not near to each other on fine grids. -/
theorem sameSide {M : ℕ} {G : ℤ} (faithful : Faithful (k * 10 ^ q) y) (pos : 0 < k)
    (least : -150 ≤ G) (greatest : G ≤ 103) (some : 0 < M) (few : M < 2 ^ 25)
    (bound : (k * 10 ^ q : ℚ) ≤ 2 ^ 26 * 2 ^ G)
    (fine : (4 * 10 ^ q : ℚ) ≤ 5 * 2 ^ G → (2 ^ G : ℚ) ≤ 4 * |(k * 10 ^ q - M * 2 ^ G : ℚ)|) :
    ((k * 10 ^ q : ℚ) = M * 2 ^ G ∧ y = k * 10 ^ q) ∨
      |y - k * 10 ^ q| < |(k * 10 ^ q - M * 2 ^ G : ℚ)| ∨
      (k * 10 ^ q : ℚ) < M * 2 ^ G ∧ M = 22841339 ∧ (G = -108 ∨ G = -107) := by
  have unit : (0 : ℚ) < 2 ^ G := by positivity
  have close := faithful.near
  have apart (far : (2 ^ G : ℚ) ≤ 4 * |(k * 10 ^ q - M * 2 ^ G : ℚ)|) :
      |y - k * 10 ^ q| < |(k * 10 ^ q - M * 2 ^ G : ℚ)| := by linarith
  rcases le_or_gt (4 * 10 ^ q : ℚ) (5 * 2 ^ G) with small | coarse
  · exact .inr (.inl (apart (fine small)))
  rcases le_or_gt (k * 10 ^ q : ℚ) (2 ^ 25 * 2 ^ G) with inside | outside
  · rcases Grid.separated least greatest pos few coarse inside with equal | far | exceptional
    · exact .inl ⟨equal, faithful.exact M G some (few.trans (by decide)) equal⟩
    · exact .inr (.inl (by linarith))
    · exact .inr (.inr exceptional)
  · refine .inr (.inl (apart ?_))
    have : (M : ℚ) + 1 ≤ 2 ^ 25 := by exact_mod_cast few
    have := mul_le_mul_of_nonneg_right this unit.le
    have := le_abs_self (k * 10 ^ q - M * 2 ^ G : ℚ)
    linarith

theorem half_place : (2 : ℚ) ^ (r.exponent - 1) = 2 * r.quarter := by
  rw [zpow_sub₀ two_ne_zero, two_zpow_exponent]
  ring

theorem le_of_near {v P : ℚ} (le : v ≤ P) (h : |y - v| < |v - P|) : y < P := by
  rw [abs_sub_comm v, abs_of_nonneg (sub_nonneg.2 le)] at h
  linarith [le_abs_self (y - v)]

theorem ge_of_near {v P : ℚ} (ge : P ≤ v) (h : |y - v| < |v - P|) : P < y := by
  rw [abs_of_nonneg (sub_nonneg.2 ge)] at h
  linarith [neg_abs_le (y - v)]

section
variable (canonical : r.Canonical) (close : r.Close q k) (faithful : Faithful (k * 10 ^ q) y)
  (pos : 0 < k)
include canonical close faithful pos

theorem Close.upper : (k * 10 ^ q = r.above * r.quarter ∧ y = k * 10 ^ q) ∨
    y < r.above * r.quarter ∨
    r.significand = 11420669 ∧ (r.exponent = -107 ∨ r.exponent = -106) := by
  have unit := r.quarter_pos
  have few := canonical.few
  have top : (r.above : ℚ) * r.quarter = (2 * r.significand + 1 : ℕ) * 2 ^ (r.exponent - 1) := by
    rw [half_place, canonical.above]
    push_cast
    ring
  have le := close.contains.le.2
  have sum := above_eq canonical
  have bound : (k * 10 ^ q : ℚ) ≤ 2 ^ 26 * 2 ^ (r.exponent - 1) := by
    have : ((2 * r.significand + 1 : ℕ) : ℚ) ≤ 2 ^ 26 := by exact_mod_cast (by omega)
    rw [top] at le
    exact le.trans (mul_le_mul_of_nonneg_right this (by positivity))
  have fine (small : (4 * 10 ^ q : ℚ) ≤ 5 * 2 ^ (r.exponent - 1)) : (2 ^ (r.exponent - 1) : ℚ) ≤
      4 * |(k * 10 ^ q - (2 * r.significand + 1 : ℕ) * 2 ^ (r.exponent - 1) : ℚ)| := by
    rw [← top, sum, half_place, abs_sub_comm]
    rw [half_place] at small
    refine le_trans ?_ (mul_le_mul_of_nonneg_left (le_abs_self _) (by norm_num))
    have reach := quarter_le_reach canonical
    rcases le_or_gt (k * 10 ^ q : ℚ) r.value with less | more
    · linarith
    · rcases close.above more with nearer | nearer <;> linarith
  have := canonical.least
  have := canonical.greatest
  rcases sameSide faithful pos (by omega) (by omega) (by omega) (by omega) bound fine with
    ⟨equal, same⟩ | near | ⟨-, multiple, scales⟩
  · exact .inl ⟨top ▸ equal, same⟩
  · exact .inr (.inl (le_of_near le (top ▸ near)))
  · exact .inr (.inr (by omega))

theorem Close.lower : (k * 10 ^ q = r.below * r.quarter ∧ y = k * 10 ^ q) ∨
    r.below * r.quarter < y := by
  have unit := r.quarter_pos
  have few := canonical.few
  have least := canonical.least
  have greatest := canonical.greatest
  have some := canonical.pos
  -- Below a power of two, the interval ends at an odd quarter.
  obtain ⟨M, G, bottom, reach, short, hM, hM', low, high⟩ : ∃ (M : ℕ) (G : ℤ),
      (r.below : ℚ) * r.quarter = M * 2 ^ G ∧ r.reach = 2 ^ G ∧ (2 ^ G : ℚ) ≤ 2 * r.quarter ∧
        0 < M ∧ M < 2 ^ 25 ∧ -150 ≤ G ∧ G ≤ 103 := by
    have below := canonical.below
    split at below
    · refine ⟨r.below, r.exponent - 2, rfl, ?_, ?_, by omega, by omega, by omega, by omega⟩
      · have : (r.below : ℚ) + 1 = 4 * r.significand := by exact_mod_cast below
        rw [reach, value, ← this, quarter]
        ring
      · rw [← quarter]
        linarith
    · have even : r.below = 2 * (2 * r.significand - 1) := by omega
      refine ⟨2 * r.significand - 1, r.exponent - 1, ?_, ?_, half_place.le, by omega, by omega,
        by omega, by omega⟩
      · rw [half_place, even]
        push_cast
        ring
      · have : (r.below : ℚ) + 2 = 4 * r.significand := by exact_mod_cast below
        rw [reach, value, ← this, half_place]
        ring
  have ge := close.contains.le.1
  have bound : (k * 10 ^ q : ℚ) ≤ 2 ^ 26 * 2 ^ G := by
    have above : (r.above : ℚ) ≤ 2 ^ 26 := by
      have := canonical.above
      exact_mod_cast (by omega : r.above ≤ 2 ^ 26)
    have := quarter_le_reach canonical
    rw [reach] at this
    exact close.contains.le.2.trans (mul_le_mul above this unit.le (by norm_num))
  have fine (small : (4 * 10 ^ q : ℚ) ≤ 5 * 2 ^ G) :
      (2 ^ G : ℚ) ≤ 4 * |(k * 10 ^ q - M * 2 ^ G : ℚ)| := by
    refine le_trans ?_ (mul_le_mul_of_nonneg_left (le_abs_self _) (by norm_num))
    rw [← bottom]
    rw [Rounding.reach] at reach
    rcases le_or_gt (k * 10 ^ q : ℚ) r.value with less | more
    · rcases close.below less with nearer | nearer <;> linarith
    · linarith
  rcases sameSide faithful pos low high hM hM' bound fine with
    ⟨equal, same⟩ | near | ⟨below, -⟩
  · exact .inl ⟨bottom ▸ equal, same⟩
  · exact .inr (ge_of_near ge (bottom ▸ near))
  · exact absurd below (not_lt.2 (bottom ▸ ge))

/-- **A double close to the shortest decimal stays in the interval**, but for two numbers. -/
theorem Close.contains_faithful : r.Contains y ∨
    r.significand = 11420669 ∧ (r.exponent = -107 ∨ r.exponent = -106) := by
  have here := close.contains
  rcases close.lower canonical faithful pos with ⟨-, rfl⟩ | lower
  · exact .inl here
  rcases close.upper canonical faithful pos with ⟨-, rfl⟩ | upper | exceptional
  · exact .inl here
  · refine .inl ?_
    rw [Contains]
    split
    · exact ⟨lower.le, upper.le⟩
    · exact ⟨lower, upper⟩
  · exact .inr exceptional

end

end Rounding

/-! ## Reading a scalar -/

namespace Scalar

open Json (scalarLayout)

variable {x : Scalar}

theorem eq_of_fields {y : Scalar} (sign : x.isSigned = y.isSigned)
    (exponent : x.exponentField = y.exponentField) (fraction : x.fractionField = y.fractionField) :
    x = y := by
  refine Scalar.ext (UInt32.toNat_inj.1 ?_)
  rw [x.toNat_bits, y.toNat_bits, sign, exponent, fraction]

/-- The zeros, and the scalars whose decimal is very near to the end of the interval. -/
def singular : List Scalar :=
  [⟨0⟩, ⟨0x80000000⟩, ⟨0x15AE43FD⟩, ⟨0x95AE43FD⟩, ⟨0x162E43FD⟩, ⟨0x962E43FD⟩]

theorem mem_singular_of_isZero (zero : x.isZero = true) : x ∈ singular := by
  obtain ⟨exponent, fraction⟩ := isZero_iff.1 zero
  simp only [singular, List.mem_cons]
  cases sign : x.isSigned
  · exact .inl (eq_of_fields sign exponent fraction)
  · exact .inr (.inl (eq_of_fields sign exponent fraction))

theorem mem_singular_of_rounding (significand : x.rounding.significand = 11420669)
    (exponent : x.rounding.exponent = -107 ∨ x.rounding.exponent = -106) : x ∈ singular := by
  have normal : x.exponentField ≠ 0 := fun e => by
    have := (rounding_subnormal e).2
    omega
  obtain ⟨hs, he⟩ := rounding_normal normal
  have fraction : x.fractionField = 3032061 := by omega
  have field : x.exponentField = 43 ∨ x.exponentField = 44 := by omega
  simp only [singular, List.mem_cons]
  rcases field with field | field <;> cases sign : x.isSigned
  · exact .inr (.inr (.inl (eq_of_fields sign field fraction)))
  · exact .inr (.inr (.inr (.inl (eq_of_fields sign field fraction))))
  · exact .inr (.inr (.inr (.inr (.inl (eq_of_fields sign field fraction)))))
  · exact .inr (.inr (.inr (.inr (.inr (.inl (eq_of_fields sign field fraction))))))

theorem toScalar?_singular :
    ∀ x ∈ singular, (x.literal? scalarLayout).bind Literal.toScalar? = some x := by
  decide +kernel

theorem exists_decimal (layout : Layout) (finite : x.isFinite = true)
    (nonzero : ¬ x.isZero = true) :
    ∃ k q, x.literal? layout = some (layout.literal x.isSigned ⟨k, q⟩) ∧
      x.rounding.Close q k ∧ 0 < k ∧ k < 2 ^ 30 ∧ -46 ≤ q ∧ q ≤ 38 := by
  obtain ⟨k, q, run, found⟩ :=
    x.rounding.shortest_spec (rounding_canonical finite nonzero) layout.tie
  exact ⟨k, q, by rw [literal?, if_pos finite, if_neg nonzero, run], found⟩

/-- A literal is read as the scalar that it was written for. -/
theorem toScalar?_literal (finite : x.isFinite = true) :
    (x.literal? scalarLayout).bind Literal.toScalar? = some x := by
  by_cases zero : x.isZero = true
  · exact toScalar?_singular x (mem_singular_of_isZero zero)
  obtain ⟨k, q, written, close, pos, few, lower, upper⟩ := exists_decimal scalarLayout finite zero
  have means := Layout.means_literal (d := ⟨k, q⟩) x.isSigned scalarLayout (by decide) pos few
    lower upper
  obtain ⟨y, v, read, denotes, faithful⟩ := means.exists_magnitude
  rcases close.contains_faithful (rounding_canonical finite zero) faithful pos with
    inside | ⟨significand, exponent⟩
  · have fractional : ¬ (scalarLayout.literal x.isSigned ⟨k, q⟩).IsInteger :=
      Layout.not_isInteger_literal _ rfl
    rw [written, Option.bind_some, Literal.toScalar?, if_neg fun h => fractional h.1,
      if_neg fun h => fractional h.1, read, Option.map_some, Layout.negative_literal,
      ofDouble_eq finite zero denotes inside]
  · exact toScalar?_singular x (mem_singular_of_rounding significand exponent)

theorem proper_literal? (layout : Layout) (finite : x.isFinite = true) :
    ∃ l, x.literal? layout = some l ∧ l.Proper := by
  by_cases zero : x.isZero = true
  · refine ⟨_, by rw [literal?, if_pos finite, if_pos zero], ?_⟩
    exact ⟨List.cons_ne_nil _ _, fun _ => rfl, by simp⟩
  · obtain ⟨k, q, written, -, pos, -⟩ := exists_decimal layout finite zero
    exact ⟨_, written, Layout.proper_literal _ pos⟩

/-- **A finite scalar has a literal that the reader accepts and reads as that scalar.** -/
theorem exists_literal (finite : x.isFinite = true) :
    ∃ l, x.literal? scalarLayout = some l ∧ l.Proper ∧ l.toScalar? = some x := by
  obtain ⟨l, written, proper⟩ := proper_literal? scalarLayout finite
  have read := toScalar?_literal finite
  rw [written] at read
  exact ⟨l, written, proper, read⟩

-- The reader takes two roundings to a double.  With the double nearest to the decimal, the scalar
-- next to this one would be read instead.
example : (⟨0x15AE43FD⟩ : Scalar).rounding.shortest .even = ⟨7038531, -32⟩ ∧
    ofDouble (Float.ofScientific 7038531 true 32) = ⟨0x15AE43FE⟩ := by
  decide +kernel

end Scalar

end MessagePassing
