/-
  Message passing — scalars and what is written for them.

  The intervals of two scalars have no number in common, and the shortest decimal of a scalar is
  in its interval.  So a literal is written for one scalar only, whatever the layout is: zeros
  before or behind the digits do not change what it stands for.

  * `Rounding.Contains.unique`: a number lies in one interval;
  * `Layout.magnitude_literal`: the literal of a decimal stands for it;
  * `Scalar.literal?_inj`: a literal is written for one scalar.
-/
import MessagePassing.Proofs.Scalars

namespace MessagePassing

/-! ## Intervals -/

namespace Rounding

variable {r s : Rounding} {v : ℚ}

/-- The last place of a greater exponent is at least twice as large. -/
theorem quarter_le (less : r.exponent < s.exponent) : 2 * r.quarter ≤ s.quarter := by
  have next : 2 * r.quarter = 2 ^ (r.exponent - 2 + 1) := by
    rw [quarter, zpow_add_one₀ two_ne_zero, mul_comm]
  rw [next, quarter]
  exact zpow_le_zpow_right₀ one_le_two (by omega)

/-- The intervals of different exponents meet at a power of two at most, which belongs to the
    upper one. -/
theorem Contains.exponent_le (hr : r.Canonical) (hs : s.Canonical) (inside : r.Contains v)
    (inside' : s.Contains v) : s.exponent ≤ r.exponent := by
  by_contra less
  have scale := quarter_le (not_le.1 less)
  have unit := r.quarter_pos
  have few := hr.few
  have top := hr.above
  have bound : (r.above : ℚ) ≤ 2 ^ 26 - 2 := by
    have : (r.above + 2 : ℚ) ≤ 2 ^ 26 := by exact_mod_cast (by omega : r.above + 2 ≤ 2 ^ 26)
    linarith
  have ends := mul_le_mul_of_nonneg_right bound unit.le
  obtain ⟨-, reach⟩ := inside'.power hs (by have := hr.least; omega)
    (by linarith [inside.le.2])
  -- the end of the lower interval is what is left, and there the significand is odd
  have odd : r.significand = 2 ^ 24 - 1 := by
    by_contra other
    have : (r.above + 6 : ℚ) ≤ 2 ^ 26 := by exact_mod_cast (by omega : r.above + 6 ≤ 2 ^ 26)
    have := mul_le_mul_of_nonneg_right this unit.le
    linarith [inside.le.2]
  rw [Contains, hr.closed, odd] at inside
  have := inside.2
  linarith

/-- **A number lies in the interval of one magnitude.** -/
theorem Contains.unique (hr : r.Canonical) (hs : s.Canonical) (inside : r.Contains v)
    (inside' : s.Contains v) : r.significand = s.significand ∧ r.exponent = s.exponent := by
  have same := le_antisymm (inside'.exponent_le hs hr inside) (inside.exponent_le hr hs inside')
  have near := inside'.isNearest hs
  rw [← same] at near
  exact ⟨(inside.isNearest hr).eq near, same⟩

end Rounding

/-! ## Literals -/

/-- The number that the digits of a literal stand for. -/
def Literal.magnitude (l : Literal) : ℚ :=
  (l.whole ++ l.fraction).toNat * 10 ^ (l.exponent.elim 0 Exponent.value - l.fraction.length)

/-- **The literal of a decimal stands for it**, in every layout. -/
theorem Layout.magnitude_literal (layout : Layout) (negative : Bool) (d : Decimal) :
    (layout.literal negative d).magnitude = d.digits * 10 ^ d.exponent := by
  obtain ⟨n, digits, exponent, -⟩ := exists_zeros negative layout d
  have split : d.exponent = n + (d.exponent - n) := by omega
  rw [Literal.magnitude, digits, exponent]
  conv_rhs => rw [split, zpow_add₀ (by norm_num), zpow_natCast]
  push_cast
  ring

namespace Scalar

variable {layout : Layout} {x y : Scalar} {l : Literal}

/-- A finite scalar is its sign and its magnitude. -/
theorem eq_of_rounding (sign : x.isSigned = y.isSigned)
    (significand : x.rounding.significand = y.rounding.significand)
    (exponent : x.rounding.exponent = y.rounding.exponent) : x = y := by
  have hx := x.fractionField_lt
  have hy := y.fractionField_lt
  refine eq_of_fields sign ?_ ?_ <;> rcases x.rounding_cases with fx | fx <;>
    rcases y.rounding_cases with fy | fy <;> omega

/-- The literal of a zero stands for zero, any other one for a number in the interval. -/
theorem literal?_cases (finite : x.isFinite = true) (written : x.literal? layout = some l) :
    l.negative = x.isSigned ∧ ((x.isZero = true ∧ l.magnitude = 0) ∨
      (¬ x.isZero = true ∧ 0 < l.magnitude ∧ x.rounding.Contains l.magnitude)) := by
  by_cases zero : x.isZero = true
  · rw [literal?, if_pos finite, if_pos zero] at written
    cases written
    refine ⟨rfl, .inl ⟨zero, ?_⟩⟩
    cases layout.fractionZero <;> simp [Literal.magnitude, Digits.toNat, Digits.zero]
  · obtain ⟨k, q, found, close, pos, -⟩ := exists_decimal layout finite zero
    obtain rfl := Option.some.inj (found.symm.trans written)
    refine ⟨Layout.negative_literal _ _, .inr ⟨zero, ?_⟩⟩
    rw [Layout.magnitude_literal]
    exact ⟨by positivity, close.contains⟩

/-- **A literal is written for one scalar.** -/
theorem literal?_inj (hx : x.isFinite = true) (hy : y.isFinite = true)
    (same : x.literal? layout = y.literal? layout) : x = y := by
  obtain ⟨l, written, -⟩ := proper_literal? layout hx
  obtain ⟨signX, formX⟩ := literal?_cases hx written
  obtain ⟨signY, formY⟩ := literal?_cases hy (same ▸ written)
  have sign := signX.symm.trans signY
  rcases formX with ⟨zero, none⟩ | ⟨nonzero, pos, inside⟩ <;>
    rcases formY with ⟨zero', none'⟩ | ⟨nonzero', pos', inside'⟩
  · obtain ⟨e, f⟩ := isZero_iff.1 zero
    obtain ⟨e', f'⟩ := isZero_iff.1 zero'
    exact eq_of_fields sign (e.trans e'.symm) (f.trans f'.symm)
  · exact absurd none pos'.ne'
  · exact absurd none' pos.ne'
  · obtain ⟨significand, exponent⟩ := inside.unique (rounding_canonical hx nonzero)
      (rounding_canonical hy nonzero') inside'
    exact eq_of_rounding sign significand exponent

end Scalar

end MessagePassing
