/-
  Message passing — how a literal is read.

  A literal is read as a significand times a power of ten, which takes two roundings to a
  double: one for the power and one for the product or quotient.  Up to `10 ^ 22` powers are
  doubles, so that a single rounding is left; beyond, no number of few bits is written with
  few digits.  Hence the double is `Faithful` to the decimal: close to it, and equal to it
  where it has at most 53 bits.

  * `Literal.Means.exists_magnitude`: literals with few digits are read faithfully.
-/
import MessagePassing.Proofs.Doubles
import MessagePassing.Proofs.Literals

namespace MessagePassing

open Float.Model.UnpackedFloat

/-! ## Numbers of few bits and few digits -/

/-- A power of five is not hidden by powers of two. -/
theorem pow_five_dvd {a b n : ℕ} {g : ℤ} (same : (a : ℚ) = b * 5 ^ n * 2 ^ g) : 5 ^ n ∣ a := by
  obtain ⟨k, rfl | rfl⟩ := g.eq_nat_or_neg
  · rw [zpow_natCast] at same
    have whole : a = b * 5 ^ n * 2 ^ k := by exact_mod_cast same
    exact ⟨b * 2 ^ k, by rw [whole]; ring⟩
  · rw [zpow_neg, zpow_natCast, ← div_eq_mul_inv, eq_div_iff (by positivity)] at same
    have whole : a * 2 ^ k = b * 5 ^ n := by exact_mod_cast same
    have coprime : (5 ^ n).Coprime (2 ^ k) := Nat.Coprime.pow n k (by decide)
    exact coprime.dvd_of_dvd_mul_right ⟨b, by rw [whole]; ring⟩

theorem not_pow_five_dvd {a n : ℕ} (pos : 0 < a) (few : a < 2 ^ 53) (large : 22 < n) :
    ¬ 5 ^ n ∣ a := by
  intro divides
  have power : 5 ^ 23 ≤ 5 ^ n := Nat.pow_le_pow_right (by decide) large
  have := Nat.le_of_dvd pos divides
  omega

/-! ## Two roundings -/

/-- `q` is close to `v`, and equal to it where `v` has at most 53 bits. -/
structure Faithful (v q : ℚ) : Prop where
  near : |q - v| ≤ 5 * v / 2 ^ 54
  exact : ∀ (M : ℕ) (G : ℤ), 0 < M → M < 2 ^ 53 → v = M * 2 ^ G → q = v

/-- Rounding what is close already. -/
theorem near_of_near {v u q : ℚ} (first : |u - v| ≤ 9 * v / 2 ^ 56)
    (second : |q - u| ≤ u / 2 ^ 53) : |q - v| ≤ 5 * v / 2 ^ 54 := by
  rw [abs_le] at *
  constructor <;> linarith [first.1, first.2, second.1, second.2]

/-- A product with a rounded factor. -/
theorem near_mul {s t p : ℚ} (hs : 0 < s) (ht : 0 < t) (power : |p - t| ≤ t / 2 ^ 53) :
    |s * p - s * t| ≤ 9 * (s * t) / 2 ^ 56 := by
  calc |s * p - s * t| = s * |p - t| := by rw [← mul_sub, abs_mul, abs_of_pos hs]
    _ ≤ s * (t / 2 ^ 53) := mul_le_mul_of_nonneg_left power hs.le
    _ ≤ 9 * (s * t) / 2 ^ 56 := by linarith [mul_pos hs ht]

/-- A quotient by a rounded divisor. -/
theorem near_div {s t p : ℚ} (hs : 0 < s) (ht : 0 < t) (power : |p - t| ≤ t / 2 ^ 53) :
    |s / p - s / t| ≤ 9 * (s / t) / 2 ^ 56 := by
  have lower : t * (1 - 1 / 2 ^ 53) ≤ p := by linarith [(abs_le.1 power).1]
  have hp : 0 < p := by linarith
  have difference : s / p - s / t = s / t * ((t - p) / p) := by
    field_simp
  have relative : |(t - p) / p| ≤ 9 / 2 ^ 56 := by
    rw [abs_div, abs_of_pos hp, abs_sub_comm, div_le_iff₀ hp]
    linarith
  calc |s / p - s / t| = s / t * |(t - p) / p| := by
        rw [difference, abs_mul, abs_of_pos (div_pos hs ht)]
    _ ≤ s / t * (9 / 2 ^ 56) := mul_le_mul_of_nonneg_left relative (div_pos hs ht).le
    _ = 9 * (s / t) / 2 ^ 56 := by ring

/-! ## Significands and powers of ten -/

theorem Denotes.isInf {x : Float} {q : ℚ} (h : Denotes x q) : x.isInf = false := by
  obtain ⟨m, e, pos, unpacked, -⟩ := h
  show x.toModel.unpack.isInf = false
  rw [unpacked]
  rfl

theorem ten_pow (n : ℕ) : (10 : ℚ) ^ n = 5 ^ n * 2 ^ (n : ℤ) := by
  rw [zpow_natCast, ← mul_pow]
  norm_num

/-- A power of ten that is a double is not rounded. -/
theorem powerOfTen_exact {n : ℕ} {p : ℚ} (rounds : RoundsTo (10 ^ n) p) (small : n ≤ 22) :
    p = 10 ^ n := by
  have few : 5 ^ n < 2 ^ 53 := lt_of_le_of_lt (Nat.pow_le_pow_right (by decide) small) (by decide)
  exact rounds.exact (5 ^ n) n few (by rw [ten_pow]; push_cast; rfl)

theorem moderate_of_bounds {v : ℚ} (lower : 1 / 2 ^ 255 ≤ v) (upper : v ≤ 2 ^ 255) :
    Moderate v := by
  constructor
  · calc (2 : ℚ) ^ (-1000 : ℤ) ≤ 2 ^ (-255 : ℤ) := zpow_le_zpow_right₀ one_le_two (by decide)
      _ = 1 / 2 ^ 255 := by rw [zpow_neg, one_div]; rfl
      _ ≤ v := lower
  · exact upper.trans (by exact_mod_cast pow_le_pow_right₀ (one_le_two (α := ℚ)) (by decide))

/-- A rounded power of ten. -/
theorem powerOfTen_bounds {n : ℕ} {p : ℚ} (rounds : RoundsTo (10 ^ n) p) (small : n ≤ 60) :
    1 / 2 ≤ p ∧ p ≤ 2 ^ 201 := by
  have near := abs_le.1 rounds.near
  have least : (1 : ℚ) ≤ 10 ^ n := one_le_pow₀ (by norm_num)
  have greatest : (10 : ℚ) ^ n ≤ 2 ^ 200 :=
    (pow_le_pow_right₀ (by norm_num) small).trans (by norm_num)
  constructor <;> linarith [near.1, near.2]

theorem moderate_mul {a p : ℚ} (one_le : 1 ≤ a) (few : a ≤ 2 ^ 53) (lower : 1 / 2 ≤ p)
    (upper : p ≤ 2 ^ 201) : Moderate (a * p) := by
  refine moderate_of_bounds ?_ ?_
  · calc (1 : ℚ) / 2 ^ 255 ≤ 1 * (1 / 2) := by norm_num
      _ ≤ a * p := mul_le_mul one_le lower (by norm_num) (by linarith)
  · calc a * p ≤ 2 ^ 53 * 2 ^ 201 := mul_le_mul few upper (by linarith) (by positivity)
      _ ≤ 2 ^ 255 := by norm_num

theorem moderate_div {a p : ℚ} (one_le : 1 ≤ a) (few : a ≤ 2 ^ 53) (lower : 1 / 2 ≤ p)
    (upper : p ≤ 2 ^ 201) : Moderate (a / p) := by
  have hp : 0 < p := by linarith
  refine moderate_of_bounds ?_ ?_
  · rw [div_le_div_iff₀ (by positivity) hp]
    calc 1 * p ≤ 1 * 2 ^ 255 := by linarith
      _ ≤ a * 2 ^ 255 := mul_le_mul_of_nonneg_right one_le (by positivity)
  · rw [div_le_iff₀ hp]
    calc a ≤ 2 ^ 255 * (1 / 2) := by linarith
      _ ≤ 2 ^ 255 * p := mul_le_mul_of_nonneg_left lower (by positivity)

section
variable {s n : ℕ} (pos : 0 < s) (few : s < 2 ^ 53) (small : n ≤ 60)
include pos few small

/-- A product with a power of ten is faithful. -/
theorem exists_multiply : ∃ x q, Literal.multiply (.ofNat s) n = some x ∧ Denotes x q ∧
    Faithful (s * 10 ^ n) q := by
  obtain ⟨p, power, hp⟩ := denotes_powerOfTen small
  obtain ⟨lower, upper⟩ := powerOfTen_bounds power small
  have moderate : Moderate (s * p) :=
    moderate_mul (by exact_mod_cast pos) (by exact_mod_cast few.le) lower upper
  obtain ⟨q, product, hq⟩ := (denotes_ofNat pos few).mul hp moderate
  have run : Literal.multiply (.ofNat s) n = some (.ofNat s * Literal.powerOfTen n) := by
    rw [Literal.multiply, if_pos (by rw [Literal.greatestStep]; omega)]
    exact if_neg (by simp [hq.isInf])
  refine ⟨_, q, run, hq, near_of_near (near_mul (by positivity) (by positivity) power.near)
    product.near, fun M G mpos mfew same => ?_⟩
  by_cases exact : n ≤ 22
  · rw [powerOfTen_exact power exact] at product
    exact product.exact M G mfew same
  · have divides : 5 ^ n ∣ M := pow_five_dvd (b := s) (g := n - G) (by
      rw [zpow_sub₀ two_ne_zero, mul_div_assoc', eq_div_iff (by positivity), ← same, ten_pow]
      ring)
    exact absurd divides (not_pow_five_dvd mpos mfew (by omega))

/-- A quotient by a power of ten is faithful. -/
theorem exists_divide : ∃ q, Denotes (Literal.divide (.ofNat s) n) q ∧
    Faithful (s / 10 ^ n) q := by
  obtain ⟨p, power, hp⟩ := denotes_powerOfTen small
  obtain ⟨lower, upper⟩ := powerOfTen_bounds power small
  have moderate : Moderate (s / p) :=
    moderate_div (by exact_mod_cast pos) (by exact_mod_cast few.le) lower upper
  obtain ⟨q, quotient, hq⟩ := (denotes_ofNat pos few).div hp moderate
  have run : Literal.divide (.ofNat s) n = .ofNat s / Literal.powerOfTen n := by
    rw [Literal.divide, if_pos (by rw [Literal.greatestStep]; omega)]
  refine ⟨q, run ▸ hq, near_of_near (near_div (by positivity) (by positivity) power.near)
    quotient.near, fun M G mpos mfew same => ?_⟩
  by_cases exact : n ≤ 22
  · rw [powerOfTen_exact power exact] at quotient
    exact quotient.exact M G mfew same
  · have divides : 5 ^ n ∣ s := pow_five_dvd (b := M) (g := n + G) (by
      rw [div_eq_iff (by positivity), ten_pow] at same
      rw [same, zpow_add₀ two_ne_zero]
      ring)
    exact absurd divides (not_pow_five_dvd pos few (by omega))

end

/-- **A literal of few digits is read faithfully**: it is read as a double, which is close to the
    decimal and equal to it where that has at most 53 bits. -/
theorem Literal.Means.exists_magnitude {l : Literal} {v : ℚ} (means : l.Means v) :
    ∃ x q, l.magnitude? = some x ∧ Denotes x q ∧ Faithful v q := by
  obtain ⟨s, e, scaled, pos, few, lower, upper, rfl⟩ := means
  have run : l.magnitude? = if 0 ≤ e then multiply (.ofNat s) e.toNat
      else some (divide (.ofNat s) (-e).toNat) := by
    rw [magnitude?, scaled]
  by_cases nonneg : 0 ≤ e
  · obtain ⟨n, rfl⟩ := Int.eq_ofNat_of_zero_le nonneg
    rw [run, if_pos nonneg, zpow_natCast]
    exact exists_multiply pos few (by omega)
  · obtain ⟨n, rfl⟩ : ∃ n : ℕ, e = -n := ⟨(-e).toNat, by omega⟩
    obtain ⟨q, denotes, faithful⟩ := exists_divide pos few (n := n) (by omega)
    rw [run, if_neg nonneg, zpow_neg, zpow_natCast, ← div_eq_mul_inv, neg_neg, Int.toNat_natCast]
    exact ⟨_, q, rfl, denotes, faithful⟩

end MessagePassing
