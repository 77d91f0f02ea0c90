/-
  Message passing — what the shortest decimal is.

  The search goes from coarse grids of decimals to fine ones, and takes the point nearest to the
  number on the first grid with a point in the interval.  So this point is no farther from the
  number than the spacing of the grid allows (`Close`), and the spacing is not much less than
  the interval is wide.

  * `Rounding.holds_iff`, `Rounding.onGrid_spec`: one grid;
  * `Rounding.shortest_spec`: the decimal that is found.
-/
import MessagePassing.Proofs.Separation
import MessagePassing.Proofs.Singles

namespace MessagePassing.Rounding

variable {r : Rounding} {tie : Tie} {q : ℤ} {k : ℕ}

/-! ## One grid -/

/-- The number itself. -/
def value (r : Rounding) : ℚ := 4 * r.significand * r.quarter

/-- Quarters and steps in the common unit. -/
theorem exists_units (r : Rounding) (q : ℤ) : ∃ c : ℚ, 0 < c ∧
    ((r.units q).1 : ℚ) = r.quarter * c ∧ ((r.units q).2 : ℚ) = 10 ^ q * c := by
  refine ⟨2 ^ (-(r.exponent - 2)).toNat * 10 ^ (-q).toNat, by positivity, ?_, ?_⟩
  · rw [quarter, ← mul_assoc, zpow_mul_pow_toNat two_ne_zero]
    simp [units]
  · rw [mul_comm (2 ^ _ : ℚ), ← mul_assoc, zpow_mul_pow_toNat (by norm_num)]
    simp [units, mul_comm]

/-- A point of a grid holds iff it lies in the interval. -/
theorem holds_iff : r.Holds q k ↔ r.Contains (k * 10 ^ q) := by
  obtain ⟨c, pos, quarters, steps⟩ := r.exists_units q
  have compare (n : ℕ) :
      (n * (r.units q).1 ≤ k * (r.units q).2 ↔ n * r.quarter ≤ (k : ℚ) * 10 ^ q) ∧
      (k * (r.units q).2 ≤ n * (r.units q).1 ↔ (k : ℚ) * 10 ^ q ≤ n * r.quarter) := by
    rw [← Nat.cast_le (α := ℚ), ← Nat.cast_le (α := ℚ)]
    push_cast
    rw [quarters, steps, ← mul_assoc, ← mul_assoc, mul_le_mul_iff_left₀ pos,
      mul_le_mul_iff_left₀ pos]
    exact ⟨.rfl, .rfl⟩
  rw [Holds, Contains]
  simp only
  split
  · rw [(compare _).1, (compare _).2]
  · rw [← not_le, ← not_le, ← not_le, ← not_le, (compare _).1, (compare _).2]

/-- The two neighbours of the number on a grid, and how far they are away. -/
theorem exists_floor (r : Rounding) (q : ℤ) : ∃ (k lo up : ℕ) (c : ℚ), 0 < c ∧
    4 * r.significand * (r.units q).1 / (r.units q).2 = k ∧
    4 * r.significand * (r.units q).1 - k * (r.units q).2 = lo ∧
    (k + 1) * (r.units q).2 - 4 * r.significand * (r.units q).1 = up ∧ 0 < up ∧
    (lo : ℚ) = (r.value - k * 10 ^ q) * c ∧ (up : ℚ) = ((k + 1) * 10 ^ q - r.value) * c := by
  obtain ⟨c, pos, quarters, steps⟩ := r.exists_units q
  obtain ⟨k, hk⟩ : ∃ k, 4 * r.significand * (r.units q).1 / (r.units q).2 = k := ⟨_, rfl⟩
  have step : 0 < (r.units q).2 := by
    have : (0 : ℚ) < (r.units q).2 := by rw [steps]; positivity
    exact_mod_cast this
  have value : ((4 * r.significand * (r.units q).1 : ℕ) : ℚ) = r.value * c := by
    push_cast
    rw [quarters, Rounding.value]
    ring
  have floor : k * (r.units q).2 ≤ 4 * r.significand * (r.units q).1 :=
    hk ▸ Nat.div_mul_le_self _ _
  have next : 4 * r.significand * (r.units q).1 < (k + 1) * (r.units q).2 := by
    rw [mul_comm (k + 1), ← hk]
    exact Nat.lt_mul_div_succ _ step
  refine ⟨k, _, _, c, pos, hk, rfl, rfl, Nat.sub_pos_of_lt next, ?_, ?_⟩
  · rw [Nat.cast_sub floor, value]
    push_cast
    rw [steps]
    ring
  · rw [Nat.cast_sub next.le, value]
    push_cast
    rw [steps]
    ring

/-- One of two neighbours in the interval which is not the farther one, if both are. -/
inductive Nearer (r : Rounding) (q : ℤ) (k lo up : ℕ) : ℕ → Prop
  | floor (holds : r.Holds q k) (h : lo ≤ up ∨ ¬ r.Holds q (k + 1)) : Nearer r q k lo up k
  | next (holds : r.Holds q (k + 1)) (h : up ≤ lo ∨ ¬ r.Holds q k) : Nearer r q k lo up (k + 1)

theorem onGrid_cases (tie : Tie) {k lo up : ℕ}
    (floor : 4 * r.significand * (r.units q).1 / (r.units q).2 = k)
    (toLower : 4 * r.significand * (r.units q).1 - k * (r.units q).2 = lo)
    (toUpper : (k + 1) * (r.units q).2 - 4 * r.significand * (r.units q).1 = up) :
    (¬ r.Holds q k ∧ r.onGrid tie q = none) ∨
      ∃ n, r.onGrid tie q = some n ∧ r.Nearer q k lo up n := by
  simp only [onGrid, floor, toLower, toUpper]
  by_cases first : r.Holds q k
  · by_cases second : r.Holds q (k + 1)
    · simp only [if_pos first, if_pos second]
      right
      rcases lt_trichotomy lo up with less | same | more
      · exact ⟨k, if_pos less, .floor first (.inl less.le)⟩
      · simp only [if_neg same.not_lt, if_neg same.not_gt]
        cases tie with
        | even =>
          by_cases parity : k % 2 = 0
          · exact ⟨k, by rw [if_pos parity], .floor first (.inl same.le)⟩
          · exact ⟨k + 1, by rw [if_neg parity], .next second (.inl same.ge)⟩
        | up => exact ⟨k + 1, rfl, .next second (.inl same.ge)⟩
      · exact ⟨k + 1, by rw [if_neg more.not_gt, if_pos more], .next second (.inl more.le)⟩
    · exact .inr ⟨k, by rw [if_pos first, if_neg second], .floor first (.inr second)⟩
  · rw [if_neg first]
    by_cases second : r.Holds q (k + 1)
    · exact .inr ⟨k + 1, if_pos second, .next second (.inr first)⟩
    · exact .inl ⟨first, if_neg second⟩

/-- The distance of the lower end of the interval. -/
def reach (r : Rounding) : ℚ := r.value - r.below * r.quarter

/-- A point of the grid in the interval, which is no farther from the number than the point on
    the other side of it, if that one lies in the interval, too. -/
structure Close (r : Rounding) (q : ℤ) (k : ℕ) : Prop where
  contains : r.Contains (k * 10 ^ q)
  below : k * 10 ^ q ≤ r.value → r.value - k * 10 ^ q ≤ 10 ^ q / 2 ∨
    r.value - k * 10 ^ q ≤ 10 ^ q - 2 * r.quarter
  above : r.value < k * 10 ^ q → k * 10 ^ q - r.value ≤ 10 ^ q / 2 ∨
    k * 10 ^ q - r.value ≤ 10 ^ q - r.reach

section
variable (canonical : r.Canonical)
include canonical

theorem above_eq : (r.above : ℚ) * r.quarter = r.value + 2 * r.quarter := by
  rw [canonical.above, value]
  push_cast
  ring

theorem quarter_le_reach : r.quarter ≤ r.reach := by
  have bound : (r.below : ℚ) + 1 ≤ 4 * r.significand := by
    have : r.below + 1 ≤ 4 * r.significand := by
      have := canonical.below
      split at this <;> omega
    exact_mod_cast this
  rw [reach, value]
  linarith [mul_le_mul_of_nonneg_right bound r.quarter_pos.le]

/-- The number and what lies less far below it than the end of the interval. -/
theorem contains_of_near {v : ℚ} (le : v ≤ r.value) (near : r.value - v < r.reach) :
    r.Contains v := by
  have unit := r.quarter_pos
  have upper := above_eq canonical
  rw [reach] at near
  rw [Contains]
  split
  · exact ⟨by linarith, by linarith⟩
  · exact ⟨by linarith, by linarith⟩

theorem le_of_not_contains {v : ℚ} (le : v ≤ r.value) (outside : ¬ r.Contains v) :
    r.reach ≤ r.value - v := by
  by_contra near
  exact outside (contains_of_near canonical le (not_le.1 near))

theorem ge_of_not_contains {v : ℚ} (ge : r.value ≤ v) (outside : ¬ r.Contains v) :
    2 * r.quarter ≤ v - r.value := by
  have unit := r.quarter_pos
  have upper := above_eq canonical
  have lower := quarter_le_reach canonical
  by_contra near
  refine outside ?_
  rw [reach] at lower
  rw [Contains]
  split
  · exact ⟨by linarith, by linarith⟩
  · exact ⟨by linarith, by linarith⟩

section
variable (lower : k * 10 ^ q ≤ r.value) (upper : r.value < (k + 1) * 10 ^ q)
include lower upper

theorem close_floor (contains : r.Contains (k * 10 ^ q))
    (h : r.value - k * 10 ^ q ≤ (k + 1) * 10 ^ q - r.value ∨ ¬ r.Contains ((k + 1) * 10 ^ q)) :
    r.Close q k := by
  refine ⟨contains, fun _ => ?_, fun less => absurd lower (not_le.2 less)⟩
  rcases h with nearer | outside
  · exact .inl (by linarith)
  · exact .inr (by linarith [ge_of_not_contains canonical upper.le outside])

theorem close_next (contains : r.Contains ((k + 1) * 10 ^ q))
    (h : (k + 1) * 10 ^ q - r.value ≤ r.value - k * 10 ^ q ∨ ¬ r.Contains (k * 10 ^ q)) :
    r.Close q (k + 1) := by
  have next : ((k + 1 : ℕ) : ℚ) = k + 1 := by push_cast; rfl
  refine ⟨next ▸ contains, fun le => absurd upper (not_lt.2 (next ▸ le)), fun _ => ?_⟩
  rw [next]
  rcases h with nearer | outside
  · exact .inl (by linarith)
  · exact .inr (by linarith [le_of_not_contains canonical lower outside])

end

/-- What a grid gives is close to the number.  It gives something if the point in front of the
    number lies in the interval. -/
theorem onGrid_spec (tie : Tie) (q : ℤ) : ∃ k : ℕ,
    k * 10 ^ q ≤ r.value ∧ r.value < (k + 1) * 10 ^ q ∧
      (r.Contains (k * 10 ^ q) → r.onGrid tie q ≠ none) ∧
      ∀ n, r.onGrid tie q = some n → r.Close q n := by
  obtain ⟨k, lo, up, c, pos, floor, hlo, hup, some, toLower, toUpper⟩ := r.exists_floor q
  have lower : k * 10 ^ q ≤ r.value := by
    have : 0 ≤ (r.value - k * 10 ^ q) * c := toLower ▸ Nat.cast_nonneg _
    linarith [nonneg_of_mul_nonneg_left this pos]
  have upper : r.value < (k + 1) * 10 ^ q := by
    have : 0 < ((k + 1) * 10 ^ q - r.value) * c := toUpper ▸ Nat.cast_pos.2 some
    linarith [(mul_pos_iff_of_pos_right pos).1 this]
  have toNearer {a b : ℚ} {m n : ℕ} (ha : (m : ℚ) = a * c) (hb : (n : ℚ) = b * c) (h : m ≤ n) :
      a ≤ b := by
    have : (m : ℚ) ≤ n := by exact_mod_cast h
    rw [ha, hb] at this
    exact le_of_mul_le_mul_right this pos
  have here : r.Holds q k ↔ r.Contains (k * 10 ^ q) := holds_iff
  have there : r.Holds q (k + 1) ↔ r.Contains ((k + 1) * 10 ^ q) := by
    rw [holds_iff]
    push_cast
    rfl
  refine ⟨k, lower, upper, ?_⟩
  rcases onGrid_cases tie floor hlo hup with ⟨outside, none⟩ | ⟨n, found, nearer⟩
  · exact ⟨fun inside => absurd (here.2 inside) outside, by simp [none]⟩
  · refine ⟨by simp [found], fun n' found' => ?_⟩
    obtain rfl : n = n' := Option.some.inj (found.symm.trans found')
    cases nearer with
    | floor holds h =>
      exact close_floor canonical lower upper (here.1 holds)
        (h.imp (toNearer toLower toUpper) (mt there.2))
    | next holds h =>
      exact close_next canonical lower upper (there.1 holds)
        (h.imp (toNearer toUpper toLower) (mt here.2))

/-- A grid that is finer than the interval reaches down has a point in it. -/
theorem reach_lt_of_onGrid (tie : Tie) (none : r.onGrid tie q = none) : r.reach < 10 ^ q := by
  obtain ⟨k, lower, upper, found, -⟩ := onGrid_spec canonical tie q
  by_contra fine
  exact found (contains_of_near canonical lower (by linarith)) none

/-- A grid that holds the number has a point in the interval. -/
theorem onGrid_of_value (tie : Tie) {j : ℕ} (whole : r.value = j * 10 ^ q) :
    r.onGrid tie q ≠ none := by
  obtain ⟨k, lower, upper, found, -⟩ := onGrid_spec canonical tie q
  rw [whole] at lower upper
  have step : (0 : ℚ) < 10 ^ q := by positivity
  have le : (k : ℚ) ≤ j := le_of_mul_le_mul_right lower step
  have lt : (j : ℚ) < k + 1 := lt_of_mul_lt_mul_right upper step.le
  have le' : k ≤ j := by exact_mod_cast le
  have lt' : j < k + 1 := by exact_mod_cast lt
  obtain rfl : k = j := by omega
  refine found (contains_of_near canonical whole.ge ?_)
  rw [whole, sub_self]
  exact r.quarter_pos.trans_le (quarter_le_reach canonical)

end

/-! ## The search -/

theorem search_spec (q : ℤ) (n : ℕ) (last : r.onGrid tie q ≠ none) :
    ∃ k q', r.search tie q n = ⟨k, q'⟩ ∧ q ≤ q' ∧ q' ≤ q + n ∧ r.onGrid tie q' = some k ∧
      (q' = q + n ∨ r.onGrid tie (q' + 1) = none) := by
  induction n with
  | zero =>
    obtain ⟨k, found⟩ := Option.ne_none_iff_exists'.1 last
    refine ⟨k, q, ?_, le_rfl, by simp, found, .inl (by simp)⟩
    show Decimal.mk ((r.onGrid tie q).getD _) q = _
    rw [found]
    rfl
  | succ n ih =>
    cases found : r.onGrid tie (q + (n + 1 : ℕ)) with
    | some k =>
      exact ⟨k, q + (n + 1 : ℕ), by rw [search, found], by omega, le_rfl, found, .inl rfl⟩
    | none =>
      obtain ⟨k, q', run, least, greatest, hit, before⟩ := ih
      refine ⟨k, q', by rw [search, found]; exact run, least, by omega, hit, ?_⟩
      rcases before with rfl | before
      · exact .inr (by rw [add_assoc]; exact_mod_cast found)
      · exact .inr before

/-- The number lies on the finest grid. -/
theorem exists_finest (r : Rounding) : ∃ j : ℕ, r.value = j * 10 ^ min r.exponent 0 := by
  have whole : r.value = r.significand * 2 ^ r.exponent := by
    rw [two_zpow_exponent, value]
    ring
  rw [whole]
  obtain ⟨n, hn | hn⟩ := r.exponent.eq_nat_or_neg
  · refine ⟨r.significand * 2 ^ n, ?_⟩
    rw [hn, min_eq_right (by omega), zpow_natCast]
    push_cast
    simp
  · refine ⟨r.significand * 5 ^ n, ?_⟩
    rw [hn, min_eq_left (by omega), zpow_neg, zpow_neg, zpow_natCast, zpow_natCast]
    push_cast
    rw [show (10 : ℚ) = 5 * 2 by norm_num, mul_pow]
    field_simp

/-- **The shortest decimal** is close to the number, and has few digits. -/
theorem shortest_spec (canonical : r.Canonical) (tie : Tie) : ∃ k q, r.shortest tie = ⟨k, q⟩ ∧
    r.Close q k ∧ 0 < k ∧ k < 2 ^ 30 ∧ -46 ≤ q ∧ q ≤ 38 := by
  obtain ⟨j, whole⟩ := r.exists_finest
  obtain ⟨k, q, run, least, greatest, found, before⟩ :=
    search_spec (min r.exponent 0) (39 - min r.exponent 0).toNat
      (onGrid_of_value canonical tie whole)
  obtain ⟨-, -, -, -, close⟩ := onGrid_spec canonical tie q
  have close := close k found
  have unit := r.quarter_pos
  have step : (0 : ℚ) < 10 ^ q := by positivity
  obtain ⟨lower, upper⟩ := close.contains.le
  have above : k * 10 ^ q < 2 ^ 26 * r.quarter := by
    have : r.above < 2 ^ 26 := by have := canonical.above; have := canonical.few; omega
    have : (r.above : ℚ) < 2 ^ 26 := by exact_mod_cast this
    exact upper.trans_lt (mul_lt_mul_of_pos_right this unit)
  have pos : 0 < k := by
    have : 0 < r.below := by
      have := canonical.below
      have := canonical.pos
      split at * <;> omega
    have : (0 : ℚ) < k * 10 ^ q := lt_of_lt_of_le (by positivity) lower
    exact_mod_cast (mul_pos_iff_of_pos_right step).1 this
  have coarse : q ≤ 38 := by
    by_contra large
    have huge : (10 : ℚ) ^ (39 : ℤ) ≤ 10 ^ q := zpow_le_zpow_right₀ (by norm_num) (by omega)
    have small : r.quarter ≤ 2 ^ (102 : ℤ) :=
      zpow_le_zpow_right₀ one_le_two (by have := canonical.greatest; omega)
    have one : (1 : ℚ) ≤ k := by exact_mod_cast pos
    norm_num at huge small
    linarith [mul_le_mul_of_nonneg_right one step.le]
  have fine : r.quarter < 10 ^ (q + 1) := by
    refine (quarter_le_reach canonical).trans_lt (reach_lt_of_onGrid canonical tie ?_)
    exact before.resolve_left (by omega)
  have next : (10 : ℚ) ^ (q + 1) = 10 ^ q * 10 := zpow_add_one₀ (by norm_num) q
  refine ⟨k, q, run, close, pos, ?_, ?_, coarse⟩
  · have : (k : ℚ) < 2 ^ 30 := by
      refine lt_of_mul_lt_mul_right ?_ step.le
      linarith
    exact_mod_cast this
  · by_contra small
    have tiny : (10 : ℚ) ^ (q + 1) ≤ 10 ^ (-46 : ℤ) :=
      zpow_le_zpow_right₀ (by norm_num) (by omega)
    have large : (2 : ℚ) ^ (-151 : ℤ) ≤ r.quarter :=
      zpow_le_zpow_right₀ one_le_two (by have := canonical.least; omega)
    norm_num at tiny large
    linarith

end MessagePassing.Rounding
