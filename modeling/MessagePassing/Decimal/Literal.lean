/-
  Message passing — decimal literals.

  A literal is a written number: sign, whole digits, fraction digits and an
  exponent, each as it stands on the page.  `Literal.text` writes one;
  `Digits.ofNat` and `Digits.toNat` pass between digits and the number that
  they write.
-/

namespace MessagePassing

/-- Decimal digits, the most significant first. -/
abbrev Digits := List (Fin 10)

namespace Digits

/-- The digit zero. -/
def zero : Fin 10 := ⟨0, Nat.succ_pos 9⟩

/-- The number that the digits write. -/
def toNat (ds : Digits) : Nat := ds.foldl (fun n d => 10 * n + d.val) 0

/-- The digits of a number, without leading zeros; zero has one digit. -/
def ofNat (n : Nat) : Digits :=
  if h : n < 10 then [⟨n, h⟩]
  else ofNat (n / 10) ++ [⟨n % 10, Nat.mod_lt n (by decide)⟩]

/-- The character of a digit. -/
def char (d : Fin 10) : Char := Char.ofNat ('0'.toNat + d)

/-- The digit that a character stands for. -/
def ofChar? (c : Char) : Option (Fin 10) :=
  if h : '0'.toNat ≤ c.toNat ∧ c.toNat - '0'.toNat < 10 then
    some ⟨c.toNat - '0'.toNat, h.2⟩
  else none

/-- The characters of digits. -/
def chars (ds : Digits) : List Char := ds.map char

theorem ofNat_ne_nil (n : Nat) : ofNat n ≠ [] := by
  unfold ofNat
  split <;> simp

theorem toNat_append_singleton (ds : Digits) (d : Fin 10) :
    toNat (ds ++ [d]) = 10 * toNat ds + d := by
  simp [toNat]

theorem toNat_ofNat (n : Nat) : toNat (ofNat n) = n := by
  induction n using Nat.strongRecOn with
  | _ n ih =>
    unfold ofNat
    split
    · simp [toNat]
    · rw [toNat_append_singleton, ih (n / 10) (by omega)]
      simp only
      omega

theorem ofChar?_char (d : Fin 10) : ofChar? (char d) = some d := by
  revert d
  decide

end Digits

/-- The sign written before the digits of an exponent. -/
inductive ExponentSign where
  | none
  | plus
  | minus
  deriving DecidableEq, Repr

/-- An exponent as written after the mark. -/
structure Exponent where
  sign : ExponentSign
  digits : Digits
  deriving DecidableEq, Repr

namespace Exponent

/-- The power of ten that the exponent writes. -/
def value (e : Exponent) : Int :=
  match e.sign with
  | .minus => -(e.digits.toNat : Int)
  | _ => e.digits.toNat

/-- The characters of an exponent, its mark included. -/
def chars (e : Exponent) : List Char :=
  let sign := match e.sign with
    | .none => []
    | .plus => ['+']
    | .minus => ['-']
  'e' :: sign ++ e.digits.chars

end Exponent

/-- A written number.  No fraction digits means no point. -/
structure Literal where
  negative : Bool
  whole : Digits
  fraction : Digits
  exponent : Option Exponent
  deriving DecidableEq, Repr

namespace Literal

/-- The literal of a count. -/
def ofNat (n : Nat) : Literal := ⟨false, Digits.ofNat n, [], none⟩

/-- A literal without point and exponent. -/
def IsInteger (l : Literal) : Prop := l.fraction = [] ∧ l.exponent = none

instance (l : Literal) : Decidable l.IsInteger := inferInstanceAs (Decidable (_ ∧ _))

/-- The count that a literal writes: no sign, no point and no exponent. -/
def toNat? (l : Literal) : Option Nat :=
  if l.negative = false ∧ l.IsInteger then some l.whole.toNat else none

/-- The characters of a literal. -/
def chars (l : Literal) : List Char :=
  let sign := if l.negative then ['-'] else []
  let fraction := if l.fraction = [] then [] else '.' :: l.fraction.chars
  let exponent := match l.exponent with
    | none => []
    | some e => e.chars
  sign ++ l.whole.chars ++ fraction ++ exponent

/-- The text of a literal. -/
def text (l : Literal) : String := String.ofList l.chars

theorem toNat?_ofNat (n : Nat) : (ofNat n).toNat? = some n := by
  simp [toNat?, ofNat, IsInteger, Digits.toNat_ofNat]

end Literal

end MessagePassing
