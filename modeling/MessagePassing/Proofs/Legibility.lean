/-
  Message passing — what can be read off words.

  A text is put together from words with no spaces that count.  Two words reveal a fact if texts
  that begin with them are equal only if the fact holds, and then go on alike; so words that
  follow one another reveal what each of them does.  A word need not tell its end by itself: a
  mark after it does, or that no word of its kind begins another one.

  * `Reveals.append`, `Reveals.marked`, `Reveals.of_code`: words side by side, words up to a mark,
    and words of a finite kind;
  * `Reveals.list`: lists with commas;
  * `Code.letters_text`: the letters of code, without its layout.
-/
import MessagePassing.Program.Code

namespace MessagePassing

/-! ## White space -/

/-- White space, as Unicode has it. -/
def isSpace (c : Char) : Bool :=
  ('\t' ≤ c && c ≤ '\r') || ('\u2000' ≤ c && c ≤ '\u200a') ||
    [' ', '\u0085', '\u00a0', '\u1680', '\u2028', '\u2029', '\u202f', '\u205f', '\u3000'].contains c

/-- The characters of a text that are no white space. -/
def letters (s : String) : List Char := s.toList.filter (!isSpace ·)

@[simp]
theorem letters_append (s t : String) : letters (s ++ t) = letters s ++ letters t := by
  rw [letters, String.toList_append, List.filter_append]
  rfl

theorem letters_eq {s : String} {cs : List Char} (form : s.toList = cs)
    (solid : ∀ c ∈ cs, isSpace c = false) : letters s = cs := by
  rw [letters, form]
  exact List.filter_eq_self.2 fun c hc => by rw [solid c hc]; rfl

/-! ## Words -/

/-- Texts that begin with `a` and with `b` are equal only if `Q` holds, and what follows is equal,
    too. -/
def Reveals (a b : List Char) (Q : Prop) : Prop :=
  ∀ r s : List Char, a ++ r = b ++ s → Q ∧ r = s

/-- The word begins with a character of this kind. -/
def Begins (first : Char → Prop) (a : List Char) : Prop := ∃ c t, a = c :: t ∧ first c

namespace Reveals

variable {a a' b b' : List Char} {P Q : Prop}

theorem same (a : List Char) : Reveals a a True :=
  fun _ _ h => ⟨trivial, List.append_cancel_left h⟩

theorem imp (h : Reveals a b P) (f : P → Q) : Reveals a b Q :=
  fun r s same => (h r s same).imp_left f

/-- What the second words reveal may depend on what the first ones do. -/
theorem append (h : Reveals a b P) (h' : P → Reveals a' b' Q) :
    Reveals (a ++ a') (b ++ b') (P ∧ Q) := by
  intro r s same
  rw [List.append_assoc, List.append_assoc] at same
  obtain ⟨first, same⟩ := h _ _ same
  obtain ⟨second, same⟩ := h' first _ _ same
  exact ⟨⟨first, second⟩, same⟩

theorem before (h : Reveals a b Q) (t : List Char) : Reveals (a ++ t) (b ++ t) Q :=
  (h.append fun _ => same t).imp And.left

theorem after (h : Reveals a b Q) (t : List Char) : Reveals (t ++ a) (t ++ b) Q :=
  ((same t).append fun _ => h).imp And.right

theorem clash {c d : Char} (other : c ≠ d) : Reveals (c :: a) (d :: b) Q :=
  fun _ _ same => absurd (List.cons.inj same).1 other

/-- A word without a mark is known where the mark follows. -/
theorem marked {m : Char} (ha : m ∉ a) (hb : m ∉ b) (t : List Char) :
    Reveals (a ++ m :: t) (b ++ m :: t) (a = b) := by
  intro r s same
  rw [List.append_assoc, List.append_assoc] at same
  -- if one word were longer, the mark would be in it
  have equal : a = b := by
    rcases List.append_eq_append_iff.1 same with ⟨c, rfl, rest⟩ | ⟨c, rfl, rest⟩ <;>
    · cases c with
      | nil => simp
      | cons d c =>
        have mark : m = d := (List.cons.inj rest).1
        simp [mark] at ha hb
  subst equal
  exact ⟨rfl, by simpa using same⟩

/-- Words of which none begins another one. -/
theorem of_code {ι : Type} {w : ι → List Char} (code : ∀ i j, w i <+: w j → i = j) (i j : ι) :
    Reveals (w i) (w j) (i = j) := by
  intro r s same
  have equal : i = j := by
    rcases List.prefix_or_prefix_of_prefix (List.prefix_append _ _)
      (same ▸ List.prefix_append _ _) with second | first
    · exact (code j i second).symm
    · exact code i j first
  exact ⟨equal, List.append_cancel_left (equal ▸ same)⟩

end Reveals

/-! ## Lists -/

/-- Words each of which has a comma before it, and a bracket at the end. -/
def closing : List (List Char) → List Char
  | [] => [']']
  | a :: rest => ',' :: (a ++ closing rest)

/-- Words with commas between them, and a bracket at the end. -/
def listed : List (List Char) → List Char
  | [] => [']']
  | a :: rest => a ++ closing rest

theorem letters_intercalate (items : List String) :
    letters (", ".intercalate items) ++ [']'] = listed (items.map letters) := by
  have comma : letters ", " = [','] := by decide
  have more (first : String) (items : List String) :
      letters (", ".intercalate (first :: items)) ++ [']'] =
        letters first ++ closing (items.map letters) := by
    induction items generalizing first with
    | nil => rw [String.intercalate_singleton]; rfl
    | cons second items ih =>
      rw [String.intercalate_cons_cons, letters_append, letters_append, comma, List.append_assoc,
        ih, List.append_assoc]
      rfl
  cases items with
  | nil => rfl
  | cons first items => exact more first items

namespace Reveals

section
variable {α : Type} {f : α → List Char} {K : α → Prop} {xs ys : List α}
  (each : ∀ x y, K x → K y → Reveals (f x) (f y) (x = y))
  (hx : ∀ x ∈ xs, K x) (hy : ∀ y ∈ ys, K y)
include each hx hy

theorem items : Reveals (closing (xs.map f)) (closing (ys.map f)) (xs = ys) := by
  induction xs generalizing ys with
  | nil =>
    cases ys with
    | nil => exact (same _).imp fun _ => rfl
    | cons y ys => exact clash (by decide)
  | cons x xs ih =>
    cases ys with
    | nil => exact clash (by decide)
    | cons y ys =>
      obtain ⟨kx, hx⟩ := List.forall_mem_cons.1 hx
      obtain ⟨ky, hy⟩ := List.forall_mem_cons.1 hy
      exact (((each x y kx ky).append fun _ => ih hx hy).after [',']).imp fun h => by rw [h.1, h.2]

/-- A list is known from its words if none of them begins like the end of the list. -/
theorem list (begins : ∀ x, K x → Begins (· ≠ ']') (f x)) :
    Reveals (listed (xs.map f)) (listed (ys.map f)) (xs = ys) := by
  cases xs with
  | nil =>
    cases ys with
    | nil => exact (same _).imp fun _ => rfl
    | cons y ys =>
      obtain ⟨c, t, form, other⟩ := begins y (hy y List.mem_cons_self)
      rw [List.map_cons, listed, form]
      exact clash other.symm
  | cons x xs =>
    cases ys with
    | nil =>
      obtain ⟨c, t, form, other⟩ := begins x (hx x List.mem_cons_self)
      rw [List.map_cons, listed, form]
      exact clash other
    | cons y ys =>
      obtain ⟨kx, hx⟩ := List.forall_mem_cons.1 hx
      obtain ⟨ky, hy⟩ := List.forall_mem_cons.1 hy
      exact ((each x y kx ky).append fun _ => items each hx hy).imp fun h => by rw [h.1, h.2]

end

end Reveals

/-- A word up to a mark begins with the mark or with a character of the word. -/
theorem begins_marked {c m : Char} {a : List Char} (free : c ∉ a) (other : m ≠ c)
    (t : List Char) : Begins (· ≠ c) (a ++ m :: t) := by
  cases a with
  | nil => exact ⟨m, t, rfl, other⟩
  | cons d a => exact ⟨d, _, rfl, fun same => free (same ▸ List.mem_cons_self)⟩

/-! ## Code -/

namespace Code

mutual

/-- The letters of a piece of code. -/
def word : Code → List Char
  | line text => letters text
  | block head body => letters head ++ '\x7b' :: (words body ++ ['\x7d'])

/-- The letters of code after code. -/
def words : List Code → List Char
  | [] => []
  | c :: rest => word c ++ words rest

end

theorem words_cons (c : Code) (rest : List Code) : words (c :: rest) = c.word ++ words rest := by
  rw [words]

theorem words_singleton (c : Code) : words [c] = c.word := by
  rw [words, words, List.append_nil]

theorem letters_indent (level : Nat) : letters (indent level) = [] := by
  rw [letters, indent, String.toList_ofList, List.filter_eq_nil_iff]
  intro c hc
  rw [(List.mem_replicate.1 hc).2]
  decide

mutual

theorem letters_textAt (level : Nat) : ∀ c : Code, letters (textAt level c) = c.word
  | line text => by
    have lineBreak : letters "\n" = [] := by decide
    rw [textAt, letters_append, letters_append, letters_indent, lineBreak, List.append_nil]
    rfl
  | block head body => by
    have opening : letters " \x7b\n" = ['\x7b'] := by decide
    have closing : letters "\x7d\n" = ['\x7d'] := by decide
    rw [textAt, word]
    simp only [letters_append, letters_indent, opening, closing,
      letters_listTextAt (level + 1) body, List.nil_append, List.append_nil, List.append_assoc,
      List.cons_append]

theorem letters_listTextAt (level : Nat) : ∀ code : List Code,
    letters (listTextAt level code) = words code
  | [] => by
    rw [listTextAt, words]
    decide
  | c :: rest => by
    rw [listTextAt, words, letters_append, letters_textAt level c, letters_listTextAt level rest]

end

/-- **Only the letters of the parts are left of a text** without its white space. -/
theorem letters_text (code : List Code) : letters (text code) = words code :=
  letters_listTextAt 0 code

@[simp]
theorem words_append (code code' : List Code) :
    words (code ++ code') = words code ++ words code' := by
  induction code with
  | nil => rfl
  | cons c rest ih => rw [List.cons_append, words_cons, words_cons, ih, List.append_assoc]

end Code

end MessagePassing
