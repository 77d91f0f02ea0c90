/-
  Message passing — decimal literals and their texts.

  A literal is the text of a number cut into parts.  The reader gets back the parts of every
  `Proper` literal, and the literals of counts and of scalars are proper.  What a literal of few
  digits means is all that the reader keeps of it.

  * `literal?_chars`: the reader gets back a proper literal;
  * `Literal.scaled_eq`: the significand and the power of ten of a literal of few digits;
  * `Layout.exists_zeros`, `Layout.proper_literal`, `Layout.means_literal`: the literal of a
    decimal.
-/
import Mathlib.Data.Rat.Cast.Order
import Mathlib.Tactic.Linarith
import Mathlib.Tactic.Positivity
import Mathlib.Tactic.Ring
import MessagePassing.Decimal.Reading
import MessagePassing.Json.Token

namespace MessagePassing

open MessagePassing.Count (limit)

/-! ## Digits -/

namespace Digits

theorem toNat_append (a b : Digits) : toNat (a ++ b) = toNat a * 10 ^ b.length + toNat b := by
  induction b using List.reverseRecOn with
  | nil => simp [toNat]
  | append_singleton b d ih =>
    rw [← List.append_assoc, toNat_append_singleton, toNat_append_singleton, ih,
      List.length_append, List.length_singleton]
    ring

theorem toNat_lt (ds : Digits) : toNat ds < 10 ^ ds.length := by
  induction ds using List.reverseRecOn with
  | nil => simp [toNat]
  | append_singleton ds d ih =>
    rw [toNat_append_singleton, List.length_append, List.length_singleton, Nat.pow_succ]
    omega

theorem toNat_zeros (n : ℕ) : toNat (List.replicate n zero) = 0 := by
  induction n with
  | zero => rfl
  | succ n ih => rw [List.replicate_succ', toNat_append_singleton, ih]; rfl

theorem head?_ofNat {n : ℕ} (pos : 0 < n) : (ofNat n).head? ≠ some zero := by
  induction n using Nat.strongRecOn with
  | _ n ih =>
    unfold ofNat
    split
    · simp only [List.head?_cons, ne_eq, Option.some.injEq, zero, Fin.mk.injEq]
      omega
    · rw [List.head?_append_of_ne_nil _ (ofNat_ne_nil _)]
      exact ih (n / 10) (by omega) (by omega)

theorem length_ofNat {n : ℕ} (zero : (ofNat n).head? = some zero) : (ofNat n).length = 1 := by
  rcases n.eq_zero_or_pos with rfl | pos
  · simp [ofNat]
  · exact absurd zero (head?_ofNat pos)

theorem char_ne (d : Fin 10) : char d ≠ '-' ∧ char d ≠ '+' := by
  revert d
  decide

end Digits

namespace Json

open Digits (char chars)

/-! ## Reading the text of a literal -/

theorem leadingDigits_chars (ds : Digits) {rest : List Char}
    (stops : ∀ c ∈ rest.head?, Digits.ofChar? c = none) :
    leadingDigits (ds.chars ++ rest) = (ds, rest) := by
  induction ds with
  | nil =>
    cases rest with
    | nil => rfl
    | cons c rest =>
      have : Digits.ofChar? c = none := stops c rfl
      simp only [Digits.chars, List.map_nil, List.nil_append, leadingDigits, this]
  | cons d ds ih =>
    simp only [Digits.chars, List.map_cons, List.cons_append, leadingDigits,
      Digits.ofChar?_char]
    rw [← Digits.chars, ih]

end Json

/-- A literal that the reader accepts: every part that has to have digits has some, and there is
    no leading zero. -/
structure Literal.Proper (l : Literal) : Prop where
  whole : l.whole ≠ []
  leading : l.whole.head? = some Digits.zero → l.whole.length = 1
  exponent : ∀ e ∈ l.exponent, e.digits ≠ []

namespace Json

/-- The characters of the fraction of a literal. -/
def fractionChars (fraction : Digits) : List Char :=
  if fraction = [] then [] else '.' :: fraction.chars

/-- The characters of the exponent of a literal. -/
def exponentChars (exponent : Option Exponent) : List Char :=
  exponent.elim [] Exponent.chars

theorem exponentChars_stops (exponent : Option Exponent) :
    ∀ c ∈ (exponentChars exponent).head?, Digits.ofChar? c = none ∧ c ≠ '.' := by
  intro c hc
  cases exponent with
  | none => cases hc
  | some e =>
    cases hc
    decide

theorem fractionPart?_chars (fraction : Digits) (exponent : Option Exponent) :
    fractionPart? (fractionChars fraction ++ exponentChars exponent) =
      some (fraction, exponentChars exponent) := by
  cases fraction with
  | nil => cases exponent <;> rfl
  | cons d ds =>
    have found := leadingDigits_chars (d :: ds) fun c hc => (exponentChars_stops exponent c hc).1
    rw [fractionChars, if_neg (List.cons_ne_nil _ _), List.cons_append, fractionPart?, found]

theorem exponentPart?_chars {exponent : Option Exponent} (some : ∀ e ∈ exponent, e.digits ≠ []) :
    exponentPart? (exponentChars exponent) = .some exponent := by
  cases exponent with
  | none => rfl
  | some e =>
    obtain ⟨sign, digits⟩ := e
    have nonempty : digits ≠ [] := some _ rfl
    obtain ⟨d, ds, rfl⟩ := List.exists_cons_of_ne_nil nonempty
    have read : leadingDigits (Digits.chars (d :: ds) ++ []) = (d :: ds, []) :=
      leadingDigits_chars (d :: ds) (by simp)
    rw [List.append_nil] at read
    cases sign with
    | none =>
      show exponentPart? ('e' :: Digits.chars (d :: ds)) = _
      rw [exponentPart?, if_pos (.inl rfl)]
      · simp only [read]
      · exact fun cs same => (Digits.char_ne d).2 (List.cons.inj same).1
      · exact fun cs same => (Digits.char_ne d).1 (List.cons.inj same).1
    | plus =>
      show exponentPart? ('e' :: '+' :: Digits.chars (d :: ds)) = _
      rw [exponentPart?, if_pos (.inl rfl)]
      simp only [read]
    | minus =>
      show exponentPart? ('e' :: '-' :: Digits.chars (d :: ds)) = _
      rw [exponentPart?, if_pos (.inl rfl)]
      simp only [read]

theorem chars_eq (l : Literal) : l.chars = (if l.negative then ['-'] else []) ++
    (l.whole.chars ++ (fractionChars l.fraction ++ exponentChars l.exponent)) := by
  rw [Literal.chars, fractionChars, exponentChars]
  cases l.exponent <;> simp

theorem fraction_stops (fraction : Digits) (exponent : Option Exponent) :
    ∀ c ∈ (fractionChars fraction ++ exponentChars exponent).head?, Digits.ofChar? c = none := by
  intro c hc
  rw [fractionChars] at hc
  split at hc
  · exact (exponentChars_stops exponent c hc).1
  · cases hc
    decide

/-- **The reader gets back a literal** from its characters. -/
theorem literal?_chars {l : Literal} (proper : l.Proper) : literal? l.chars = some l := by
  obtain ⟨negative, whole, fraction, exponent⟩ := l
  obtain ⟨nonempty, leading, some⟩ := proper
  have digits := leadingDigits_chars whole (fraction_stops fraction exponent)
  have ok : ¬ (whole = [] ∨ whole.head? = .some Digits.zero ∧ 1 < whole.length) := by
    rintro (none | ⟨zero, long⟩)
    · exact nonempty none
    · exact absurd (leading zero) long.ne'
  rw [chars_eq]
  cases negative
  · show literal? (whole.chars ++ _) = _
    rw [literal?]
    · simp only [digits, if_neg ok, fractionPart?_chars, Option.bind_eq_bind, Option.bind_some,
        exponentPart?_chars some, Option.pure_def]
    · obtain ⟨d, ds, rfl⟩ := List.exists_cons_of_ne_nil nonempty
      exact fun cs same => (Digits.char_ne d).1 (List.cons.inj same).1
  · show literal? ('-' :: (whole.chars ++ _)) = _
    rw [literal?]
    simp only [digits, if_neg ok, fractionPart?_chars, Option.bind_eq_bind, Option.bind_some,
      exponentPart?_chars some, Option.pure_def]

end Json

/-! ## What a literal means -/

namespace Literal

theorem extend_eq (s : ℕ) (ds : Digits) (fits : s * 10 ^ ds.length + ds.toNat < limit) :
    extend s ds = (s * 10 ^ ds.length + ds.toNat, []) := by
  induction ds generalizing s with
  | nil => simp [extend, Digits.toNat]
  | cons d ds ih =>
    have split : Digits.toNat (d :: ds) = d * 10 ^ ds.length + Digits.toNat ds := by
      have := Digits.toNat_append [d] ds
      simpa [Digits.toNat] using this
    have sum : s * 10 ^ (d :: ds).length + Digits.toNat (d :: ds) =
        (10 * s + d) * 10 ^ ds.length + Digits.toNat ds := by
      rw [split, List.length_cons]
      ring
    rw [sum] at fits ⊢
    have first : 10 * s + d.val < limit :=
      (Nat.le_mul_of_pos_right _ (by positivity)).trans (Nat.le_add_right _ _) |>.trans_lt fits
    rw [extend, if_pos first, ih _ fits]

/-- The significand and the power of ten of a literal of few digits: nothing is dropped. -/
theorem scaled_eq (l : Literal) (fits : (l.whole ++ l.fraction).toNat < limit) :
    l.scaled = ((l.whole ++ l.fraction).toNat,
      (l.exponent.elim 0 Exponent.value) - l.fraction.length) := by
  rw [Digits.toNat_append] at fits ⊢
  have front : l.whole.toNat < limit :=
    (Nat.le_mul_of_pos_right _ (by positivity)).trans (Nat.le_add_right _ _) |>.trans_lt fits
  have whole := extend_eq 0 l.whole (by simpa using front)
  have fraction := extend_eq l.whole.toNat l.fraction fits
  rw [Nat.zero_mul, Nat.zero_add] at whole
  simp only [scaled, whole, fraction]
  cases l.exponent
  · simp
  · simp
    omega

/-- What the reader keeps of the literal is `v`, with a significand of at most 53 bits. -/
def Means (l : Literal) (v : ℚ) : Prop :=
  ∃ s e, l.scaled = (s, e) ∧ 0 < s ∧ s < 2 ^ 53 ∧ -60 ≤ e ∧ e ≤ 60 ∧ v = s * 10 ^ e

/-- A literal of the digits of a decimal with further zeros means the decimal. -/
theorem Means.of_digits {l : Literal} {d : Decimal} (n : ℕ) (pos : 0 < d.digits)
    (digits : (l.whole ++ l.fraction).toNat = d.digits * 10 ^ n)
    (exponent : l.exponent.elim 0 Exponent.value - l.fraction.length = d.exponent - n)
    (few : d.digits * 10 ^ n < 2 ^ 53) (lower : -60 ≤ d.exponent - n)
    (upper : d.exponent - n ≤ 60) : l.Means (d.digits * 10 ^ d.exponent) := by
  have scaled := l.scaled_eq (by rw [digits, limit]; omega)
  rw [digits, exponent] at scaled
  refine ⟨_, _, scaled, by positivity, few, lower, upper, ?_⟩
  have split : d.exponent = n + (d.exponent - n) := by omega
  conv_lhs => rw [split, zpow_add₀ (by norm_num), zpow_natCast]
  push_cast
  ring

end Literal

/-! ## The literal of a decimal -/

namespace Layout

variable {layout : Layout} {d : Decimal} (negative : Bool)

/-- The three forms of a literal: with leading zeros, with a point among or behind the digits, and
    with an exponent. -/
theorem literal_cases (layout : Layout) (d : Decimal) :
    ∃ ds lead, ds = Digits.ofNat d.digits ∧ lead = d.exponent + ds.length - 1 ∧
      ((lead < 0 ∧ layout.literal negative d =
          ⟨negative, [Digits.zero], List.replicate (-lead - 1).toNat Digits.zero ++ ds, none⟩) ∨
        (∃ w : ℕ, lead = w ∧ w ≤ layout.highest ∧ layout.literal negative d =
          ⟨negative, ds.take (w + 1) ++ List.replicate (w + 1 - ds.length) Digits.zero,
            if ds.drop (w + 1) = [] ∧ layout.fractionZero then [Digits.zero] else ds.drop (w + 1),
            none⟩) ∨
        ∃ e : Exponent, e.value = lead ∧ e.digits ≠ [] ∧
          layout.literal negative d = ⟨negative, ds.take 1, ds.drop 1, some e⟩) := by
  refine ⟨_, _, rfl, rfl, ?_⟩
  simp only [literal]
  split
  · rename_i positional
    split
    · exact .inl ⟨‹_›, rfl⟩
    · exact .inr (.inl ⟨_, by omega, by omega, rfl⟩)
  · refine .inr (.inr ⟨_, ?_, Digits.ofNat_ne_nil _, rfl⟩)
    split <;> simp only [Exponent.value, Digits.toNat_ofNat] <;> omega

/-- The digits of a literal are those of the decimal, with zeros at the end if it is long; how many
    there are is bounded by the layout. -/
theorem exists_zeros (layout : Layout) (d : Decimal) :
    ∃ n : ℕ, ((layout.literal negative d).whole ++ (layout.literal negative d).fraction).toNat =
        d.digits * 10 ^ n ∧
      (layout.literal negative d).exponent.elim 0 Exponent.value -
        (layout.literal negative d).fraction.length = d.exponent - n ∧
      (n = 0 ∨ ((Digits.ofNat d.digits).length + n : ℤ) ≤ layout.highest + 2) := by
  obtain ⟨ds, lead, hds, hlead, form⟩ := literal_cases negative layout d
  have value : ds.toNat = d.digits := hds ▸ Digits.toNat_ofNat _
  have some : 0 < ds.length := List.length_pos_iff.2 (hds ▸ Digits.ofNat_ne_nil _)
  rcases form with ⟨small, form⟩ | ⟨w, point, bound, form⟩ | ⟨e, written, -, form⟩
  · rw [form]
    refine ⟨0, ?_, ?_, .inl rfl⟩
    · show Digits.toNat ([Digits.zero] ++ (List.replicate _ Digits.zero ++ ds)) = _
      rw [Digits.toNat_append, Digits.toNat_append, Digits.toNat_zeros, value]
      simp [Digits.toNat, Digits.zero]
    · simp
      omega
  · rcases le_or_gt ds.length (w + 1) with short | long
    · rw [List.take_of_length_le short, List.drop_eq_nil_of_le short] at form
      obtain ⟨f, zeros, few⟩ : ∃ f, (if [] = [] ∧ layout.fractionZero then [Digits.zero] else []) =
          List.replicate f Digits.zero ∧ f ≤ 1 := by
        cases layout.fractionZero
        · exact ⟨0, rfl, by decide⟩
        · exact ⟨1, rfl, by decide⟩
      obtain ⟨n, count⟩ : ∃ n : ℕ, w + 1 - ds.length = n := ⟨_, rfl⟩
      rw [form, zeros, count, ← hds]
      refine ⟨n + f, ?_, ?_, .inr (by omega)⟩
      · show Digits.toNat (ds ++ List.replicate n Digits.zero ++ List.replicate f Digits.zero) = _
        rw [Digits.toNat_append, Digits.toNat_append, Digits.toNat_zeros, Digits.toNat_zeros, value,
          List.length_replicate, List.length_replicate]
        ring
      · simp
        omega
    · have cut : ds.drop (w + 1) ≠ [] := by simpa using long
      rw [form, if_neg fun none => cut none.1, Nat.sub_eq_zero_of_le long.le]
      refine ⟨0, ?_, ?_, .inl rfl⟩
      · show Digits.toNat (ds.take (w + 1) ++ [] ++ ds.drop (w + 1)) = _
        rw [List.append_nil, List.take_append_drop, value, pow_zero, mul_one]
      · simp
        omega
  · rw [form]
    refine ⟨0, ?_, ?_, .inl rfl⟩
    · rw [List.take_append_drop, value, pow_zero, mul_one]
    · simp only [Option.elim_some, written, List.length_drop]
      omega

/-- The literal of a decimal means the decimal. -/
theorem means_literal (layout : Layout) (highest : layout.highest ≤ 12) (pos : 0 < d.digits)
    (few : d.digits < 2 ^ 30) (lower : -46 ≤ d.exponent) (upper : d.exponent ≤ 38) :
    (layout.literal negative d).Means (d.digits * 10 ^ d.exponent) := by
  obtain ⟨n, digits, exponent, zeros⟩ := exists_zeros negative layout d
  rcases Nat.eq_zero_or_pos n with rfl | more
  · exact .of_digits 0 pos digits exponent (by omega) (by omega) (by omega)
  · have length := zeros.resolve_left more.ne'
    have some := List.length_pos_iff.2 (Digits.ofNat_ne_nil d.digits)
    refine .of_digits n pos digits exponent ?_ (by omega) (by omega)
    calc d.digits * 10 ^ n < 10 ^ (Digits.ofNat d.digits).length * 10 ^ n :=
          Nat.mul_lt_mul_of_pos_right
            (by simpa [Digits.toNat_ofNat] using (Digits.ofNat d.digits).toNat_lt) (by positivity)
      _ = 10 ^ ((Digits.ofNat d.digits).length + n) := (pow_add _ _ _).symm
      _ ≤ 10 ^ 14 := Nat.pow_le_pow_right (by decide) (by omega)
      _ < 2 ^ 53 := by decide

theorem proper_literal (pos : 0 < d.digits) : (layout.literal negative d).Proper := by
  obtain ⟨ds, lead, hds, -, form⟩ := literal_cases negative layout d
  have some : ds ≠ [] := hds ▸ Digits.ofNat_ne_nil _
  have first : ds.head? ≠ .some Digits.zero := hds ▸ Digits.head?_ofNat pos
  have front (n : ℕ) : ds.take (n + 1) ≠ [] ∧ (ds.take (n + 1)).head? = ds.head? := by
    obtain ⟨c, cs, rfl⟩ := List.exists_cons_of_ne_nil some
    exact ⟨List.cons_ne_nil _ _, rfl⟩
  rcases form with ⟨-, form⟩ | ⟨w, -, -, form⟩ | ⟨e, -, digits, form⟩
  · rw [form]
    exact ⟨List.cons_ne_nil _ _, fun _ => rfl, by simp⟩
  · rw [form]
    refine ⟨?_, fun zero => absurd zero ?_, by simp⟩
    · exact List.append_ne_nil_of_left_ne_nil (front w).1 _
    · rw [List.head?_append_of_ne_nil _ (front w).1, (front w).2]
      exact first
  · rw [form]
    exact ⟨(front 0).1, fun zero => absurd ((front 0).2 ▸ zero) first, by simpa using digits⟩

theorem negative_literal (d : Decimal) : (layout.literal negative d).negative = negative := by
  obtain ⟨ds, lead, -, -, ⟨-, form⟩ | ⟨w, -, -, form⟩ | ⟨e, -, -, form⟩⟩ :=
    literal_cases negative layout d
  all_goals rw [form]

theorem not_isInteger_literal (point : layout.fractionZero = true) :
    ¬ (layout.literal negative d).IsInteger := by
  obtain ⟨ds, lead, hds, -, form⟩ := literal_cases negative layout d
  have some : ds ≠ [] := hds ▸ Digits.ofNat_ne_nil _
  rintro ⟨fraction, exponent⟩
  rcases form with ⟨-, form⟩ | ⟨w, -, -, form⟩ | ⟨e, -, -, form⟩
  · rw [form] at fraction
    exact some (List.append_eq_nil_iff.1 fraction).2
  · rw [form] at fraction
    simp only [point, and_true] at fraction
    split at fraction
    · cases fraction
    · contradiction
  · rw [form] at exponent
    cases exponent

end Layout

end MessagePassing
