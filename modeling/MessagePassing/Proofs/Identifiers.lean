/-
  Message passing — valid identifiers.

  A `Word` has letters, digits and underscores only, does not start with a digit and is not
  all underscores; an identifier is valid if it is a word that is not reserved.

  * `Identifier.valid_ofName`: every name has a valid identifier;
  * `Identifier.ofName_eq_self_iff`: the valid identifiers are the names that stay as they are;
  * `Identifier.Valid.append`: a valid identifier stays valid with an underscore and more
    letters and digits at its end.
-/
import MessagePassing.Description.Identifier

namespace MessagePassing.Identifier

/-- A character that can stand in an identifier. -/
def IsPlain (c : Char) : Prop := c.isAlphanum ∨ c = '_'

instance (c : Char) : Decidable (IsPlain c) := inferInstanceAs (Decidable (_ ∨ _))

theorem isPlain_of_isDigit {c : Char} (digit : c.isDigit) : IsPlain c :=
  .inl (by rw [Char.isAlphanum, digit, Bool.or_true])

/-- Plain characters, no digit first, and not underscores only. -/
structure Word (letters : List Char) : Prop where
  plain : ∀ c ∈ letters, IsPlain c
  head : ¬ letters.head?.any Char.isDigit
  letter : ∃ c ∈ letters, c ≠ '_'

/-- A word that is not reserved. -/
structure Valid (name : String) : Prop where
  word : Word name.toList
  free : name ∉ reserved

theorem mem_reserved {word : String} (h : word ∈ reserved) : '_' ∉ word.toList := by
  have none : ∀ w ∈ reserved, '_' ∉ w.toList := by decide
  exact none word h

/-! ## The identifier for a name -/

theorem isPlain_plain (c : Char) : IsPlain (plain c) := by
  unfold plain
  split
  · exact .inl ‹_›
  · exact .inr rfl

theorem plain_or_fallback {letters : List Char} (h : ∀ c ∈ letters, IsPlain c) :
    let chosen := if letters.all (· == '_') then fallback else letters
    (∀ c ∈ chosen, IsPlain c) ∧ ∃ c ∈ chosen, c ≠ '_' := by
  intro chosen
  by_cases blank : letters.all (· == '_')
  · have same : chosen = fallback := if_pos blank
    rw [same]
    have letters : ∀ c ∈ fallback, c.isAlphanum := List.all_eq_true.1 rfl
    exact ⟨fun c hc => .inl (letters c hc), 'm', List.mem_cons_self, by simp⟩
  · have same : chosen = letters := if_neg blank
    rw [same]
    simp only [List.all_eq_true, beq_iff_eq, Classical.not_forall] at blank
    obtain ⟨c, mem, mark⟩ := blank
    exact ⟨h, c, mem, mark⟩

theorem word_of_plain {letters : List Char} (plain : ∀ c ∈ letters, IsPlain c)
    (letter : ∃ c ∈ letters, c ≠ '_') :
    Word (if letters.head?.any Char.isDigit then '_' :: letters else letters) := by
  split
  · obtain ⟨c, mem, mark⟩ := letter
    refine ⟨?_, by simp, c, List.mem_cons_of_mem _ mem, mark⟩
    intro d hd
    rcases List.mem_cons.1 hd with rfl | hd
    · exact .inr rfl
    · exact plain d hd
  · exact ⟨plain, ‹_›, letter⟩

/-- Plain characters at the end of a word make it another word. -/
theorem Word.append {letters more : List Char} (h : Word letters) (plain : ∀ c ∈ more, IsPlain c) :
    Word (letters ++ more) := by
  obtain ⟨c, mem, mark⟩ := h.letter
  refine ⟨List.forall_mem_append.2 ⟨h.plain, plain⟩, ?_, c, List.mem_append_left _ mem, mark⟩
  obtain ⟨d, rest, rfl⟩ := List.exists_cons_of_ne_nil (List.ne_nil_of_mem mem)
  exact h.head

/-- No reserved word has an underscore. -/
theorem Word.valid_append {name more : String} (h : Word name.toList)
    (plain : ∀ c ∈ more.toList, IsPlain c) (mark : '_' ∈ more.toList) : Valid (name ++ more) := by
  constructor
  · rw [String.toList_append]
    exact h.append plain
  · intro taken
    apply mem_reserved taken
    rw [String.toList_append]
    exact List.mem_append_right _ mark

theorem Word.valid {word : String} (h : Word word.toList) :
    Valid (if reserved.contains word then word.push '_' else word) := by
  split
  · rw [← String.append_singleton]
    exact h.valid_append (by simp [IsPlain]) (by simp)
  · rename_i free
    exact ⟨h, by simpa using free⟩

/-- **The identifier for any name is valid.** -/
theorem valid_ofName (name : String) : Valid (ofName name) := by
  have plains : ∀ c ∈ (stem name.toList).map plain, IsPlain c :=
    List.forall_mem_map.2 fun c _ => isPlain_plain c
  obtain ⟨chosen, letter⟩ := plain_or_fallback plains
  have word := word_of_plain chosen letter
  exact Word.valid (by rwa [String.toList_ofList])

/-- There is no extension to cut off. -/
theorem stem_eq_self {letters : List Char} (none : '.' ∉ letters) : stem letters = letters := by
  have all : ∀ c ∈ letters.reverse, (c != '.') = true := fun c hc =>
    bne_iff_ne.2 fun same => none (same ▸ List.mem_reverse.1 hc)
  rw [stem, ← List.append_nil letters.reverse, List.dropWhile_append_of_pos all]
  rfl

theorem plain_eq_self {c : Char} (h : IsPlain c) : plain c = c := by
  rcases h with alphanumeric | rfl
  · exact if_pos alphanumeric
  · rfl

/-- No step that makes an identifier changes a valid one. -/
theorem Valid.ofName_eq {name : String} (h : Valid name) : ofName name = name := by
  have noDot : '.' ∉ name.toList := fun mem => absurd (h.word.plain _ mem) (by decide)
  have letters : (stem name.toList).map plain = name.toList := by
    rw [stem_eq_self noDot]
    exact (List.map_congr_left fun c hc => plain_eq_self (h.word.plain c hc)).trans
      (List.map_id _)
  have notBlank : ¬ name.toList.all (· == '_') := by
    obtain ⟨c, mem, mark⟩ := h.word.letter
    rw [List.all_eq_true]
    exact fun all => mark (beq_iff_eq.1 (all c mem))
  have free : ¬ reserved.contains name := by simpa using h.free
  rw [ofName, letters]
  simp only [if_neg notBlank, if_neg h.word.head, String.ofList_toList, if_neg free]

/-- **The valid identifiers are the names that stay as they are.** -/
theorem ofName_eq_self_iff {name : String} : ofName name = name ↔ Valid name :=
  ⟨fun same => same ▸ valid_ofName name, Valid.ofName_eq⟩

/-- **A valid identifier stays valid** with an underscore and plain characters at its end. -/
theorem Valid.append {name more : String} (h : Valid name)
    (plain : ∀ c ∈ more.toList, IsPlain c) (mark : '_' ∈ more.toList) : Valid (name ++ more) :=
  h.word.valid_append plain mark

end MessagePassing.Identifier
