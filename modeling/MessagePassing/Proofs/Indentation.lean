/-
  Message passing — JSON texts on several lines.

  Blanks before a token are skipped, and a blank ends a number or a word as a mark does.  So the
  text of a value on several lines has the tokens of its text on one line.

  * `Writes.blanks`, `Writes.append_blank`: blanks between tokens;
  * `Value.Proper.writes_indentedAt`: the indented text of a value writes its tokens;
  * `Value.ofText?_indented`: a value is read back from its indented text.
-/
import MessagePassing.Proofs.Texts

namespace MessagePassing.Json

open Scanner (run run_cons fresh)

/-! ## Blanks -/

theorem fresh_blank {c : Char} (blank : isBlank c = true) (tokens : List Token) :
    fresh tokens c = some ⟨tokens, .nothing⟩ :=
  if_pos blank

/-- No number and no word goes on with a blank. -/
theorem stops_blank {c : Char} (blank : isBlank c = true) :
    isNumeric c = false ∧ c.isAlpha = false := by
  simp only [isBlank, Bool.or_eq_true, decide_eq_true_eq] at blank
  rcases blank with ((rfl | rfl) | rfl) | rfl <;> decide

namespace Writes

variable {c : Char} {cs cs' : List Char} {ts ts' : List Token}

theorem blank (blank : isBlank c = true) (h : Writes cs ts) : Writes (c :: cs) ts := by
  intro tokens rest stops
  have step : Scanner.next ⟨tokens, .nothing⟩ c = some ⟨tokens, .nothing⟩ :=
    fresh_blank blank tokens
  rw [List.cons_append, run_cons step, h _ _ stops]

theorem blanks {bs : List Char} (all : ∀ b ∈ bs, isBlank b = true) (h : Writes cs ts) :
    Writes (bs ++ cs) ts := by
  induction bs with
  | nil => exact h
  | cons b bs ih =>
    exact .blank (all b List.mem_cons_self) (ih fun d hd => all d (List.mem_cons_of_mem _ hd))

/-- A blank ends what is before it. -/
theorem append_blank (h : Writes cs ts) (blank : isBlank c = true) (h' : Writes cs' ts') :
    Writes (cs ++ c :: cs') (ts ++ ts') := by
  intro tokens rest stops
  have ended : Stops (c :: cs' ++ rest) := by
    rintro _ ⟨⟩
    exact stops_blank blank
  rw [List.append_assoc, h _ _ ended, Writes.blank blank h' _ _ stops, List.reverse_append,
    List.append_assoc]

theorem append_lineBreak (h : Writes cs ts) (level : Nat) (h' : Writes cs' ts') :
    Writes (cs ++ (lineBreak level).toList ++ cs') (ts ++ ts') := by
  rw [lineBreak, String.toList_ofList, List.append_assoc, List.cons_append]
  refine h.append_blank rfl (h'.blanks fun b hb => ?_)
  rw [(List.mem_replicate.1 hb).2]
  rfl

theorem lineBreak (level : Nat) (h : Writes cs ts) :
    Writes ((lineBreak level).toList ++ cs) ts :=
  nil.append_lineBreak level h

end Writes

/-! ## Values -/

theorem writes_indentedItems {items : List Value} (level : Nat)
    (each : ∀ v ∈ items, Writes (v.indentedAt level).toList v.tokens) :
    Writes (indentedItems level items).toList (itemTokens items) := by
  induction items with
  | nil => exact .nil
  | cons v rest ih =>
    have first := each v List.mem_cons_self
    cases rest with
    | nil =>
      rw [indentedItems, itemTokens, String.toList_append]
      exact first.lineBreak level
    | cons w rest =>
      have others := ih fun u hu => each u (List.mem_cons_of_mem _ hu)
      rw [indentedItems, itemTokens]
      simp only [String.toList_append, List.append_assoc]
      exact (first.append_mark mark_comma others).lineBreak level

theorem writes_indentedMembers {members : List (Option String × Value)} (level : Nat)
    (named : ∀ m ∈ members, m.1.isSome)
    (each : ∀ m ∈ members, Writes (m.2.indentedAt level).toList m.2.tokens) :
    Writes (indentedMembers level members).toList (memberTokens members) := by
  induction members with
  | nil => exact .nil
  | cons m rest ih =>
    obtain ⟨name, v⟩ := m
    obtain ⟨n, rfl⟩ := Option.isSome_iff_exists.1 (named _ List.mem_cons_self)
    have value : Writes (' ' :: (v.indentedAt level).toList) v.tokens :=
      .blank rfl (each (some n, v) List.mem_cons_self)
    have first := (writes_quote n).append_mark mark_colon value
    cases rest with
    | nil =>
      rw [indentedMembers, memberTokens]
      simp only [String.toList_append, List.append_assoc]
      exact first.lineBreak level
    | cons m rest =>
      have others := ih (fun u hu => named u (List.mem_cons_of_mem _ hu))
        fun u hu => each u (List.mem_cons_of_mem _ hu)
      have both := first.append_mark mark_comma others
      rw [indentedMembers, memberTokens]
      simp only [String.toList_append, List.append_assoc] at both ⊢
      exact both.lineBreak level

/-- The indented text of a value writes the tokens of this value. -/
theorem Value.Proper.writes_indentedAt {v : Value} (proper : v.Proper) (level : Nat) :
    Writes (v.indentedAt level).toList v.tokens := by
  induction proper generalizing level with
  | null => exact writes_null
  | bool b => exact writes_bool b
  | number proper =>
    rw [Value.indentedAt, Literal.text, String.toList_ofList]
    exact writes_chars proper
  | text s => exact writes_quote s
  | @array items each ih =>
    cases items with
    | nil =>
      rw [Value.indentedAt, Value.tokens]
      exact .mark mark_openArray (.mark mark_closeArray .nil)
    | cons v items =>
      have inside := writes_indentedItems (level + 1) fun u hu => ih u hu (level + 1)
      have closed := inside.append_lineBreak level (.mark mark_closeArray .nil)
      rw [Value.indentedAt, Value.tokens]
      · simp only [String.toList_append, List.append_assoc] at closed ⊢
        exact .mark mark_openArray closed
      · simp
  | @object members named each ih =>
    cases members with
    | nil =>
      rw [Value.indentedAt, Value.tokens]
      exact .mark mark_openObject (.mark mark_closeObject .nil)
    | cons m members =>
      have inside := writes_indentedMembers (level + 1) named fun u hu => ih u hu (level + 1)
      have closed := inside.append_lineBreak level (.mark mark_closeObject .nil)
      rw [Value.indentedAt, Value.tokens]
      · simp only [String.toList_append, List.append_assoc] at closed ⊢
        exact .mark mark_openObject closed
      · simp

/-- **A value is read back from its indented text**, with a line break behind it or not. -/
theorem Value.ofText?_indented {v : Value} (proper : v.Proper) :
    ofText? v.indented = some v ∧ ofText? (v.indented ++ "\n") = some v := by
  have writes := proper.writes_indentedAt 0
  refine ⟨proper.ofText?_of_writes writes, proper.ofText?_of_writes ?_⟩
  have ended := writes.append_blank (c := '\n') rfl .nil
  rw [List.append_nil] at ended
  rwa [String.toList_append]

end MessagePassing.Json
