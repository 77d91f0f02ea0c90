/-
  Message passing — JSON texts and their values.

  The scanner cuts the text of a value into the tokens of this value, and the builder puts the
  tokens together again.  A number ends only where a character comes that cannot continue it,
  so a text `Writes` its tokens in front of such a character; the characters between values are
  of this kind.

  * `writes_quote`, `writes_chars`: strings and numbers;
  * `Value.Proper.writes`: the text of a value writes its tokens;
  * `Value.Proper.builds`: the tokens of a value build it;
  * `Value.ofText?_compact`: a value is read back from its text.
-/
import Mathlib.Tactic.FinCases
import MessagePassing.Json.Parse
import MessagePassing.Json.Text
import MessagePassing.Proofs.Literals

namespace MessagePassing.Json

/-! ## Texts and tokens -/

namespace Scanner

/-- Read the rest of a text. -/
def run (s : Scanner) (cs : List Char) : Option (List Token) := do
  (← cs.foldlM next s).finish

theorem run_cons {s t : Scanner} {c : Char} (step : s.next c = some t) (cs : List Char) :
    s.run (c :: cs) = t.run cs := by
  rw [run, List.foldlM_cons, step]
  rfl

end Scanner

open Scanner (run run_cons fresh)

/-- Nothing follows, or something that continues no number and no word. -/
def Stops (cs : List Char) : Prop := ∀ c ∈ cs.head?, isNumeric c = false ∧ c.isAlpha = false

/-- Between tokens, the characters are read as the tokens if they are followed by something that
    ends the last one. -/
def Writes (cs : List Char) (ts : List Token) : Prop :=
  ∀ tokens rest, Stops rest →
    run ⟨tokens, .nothing⟩ (cs ++ rest) = run ⟨ts.reverse ++ tokens, .nothing⟩ rest

/-- A character that is a token. -/
structure Mark (c : Char) (t : Token) : Prop where
  fresh : ∀ tokens, fresh tokens c = some ⟨t :: tokens, .nothing⟩
  stops : isNumeric c = false ∧ c.isAlpha = false

theorem mark_openArray : Mark '[' .openArray := ⟨fun _ => rfl, by decide⟩

theorem mark_closeArray : Mark ']' .closeArray := ⟨fun _ => rfl, by decide⟩

theorem mark_openObject : Mark '\x7b' .openObject := ⟨fun _ => rfl, by decide⟩

theorem mark_closeObject : Mark '\x7d' .closeObject := ⟨fun _ => rfl, by decide⟩

theorem mark_comma : Mark ',' .comma := ⟨fun _ => rfl, by decide⟩

theorem mark_colon : Mark ':' .colon := ⟨fun _ => rfl, by decide⟩

namespace Writes

variable {c : Char} {t : Token} {cs cs' : List Char} {ts ts' : List Token}

theorem nil : Writes [] [] := fun _ _ _ => rfl

theorem mark (m : Mark c t) (h : Writes cs ts) : Writes (c :: cs) (t :: ts) := by
  intro tokens rest stops
  have step : Scanner.next ⟨tokens, .nothing⟩ c = some ⟨t :: tokens, .nothing⟩ := m.fresh tokens
  rw [List.cons_append, run_cons step, h _ _ stops, List.reverse_cons, List.append_assoc]
  rfl

theorem append_mark (h : Writes cs ts) (m : Mark c t) (h' : Writes cs' ts') :
    Writes (cs ++ c :: cs') (ts ++ t :: ts') := by
  intro tokens rest stops
  have marked : Stops (c :: cs' ++ rest) := by
    rintro _ ⟨⟩
    exact m.stops
  rw [List.append_assoc, h _ _ marked, mark m h' _ _ stops, List.reverse_append, List.append_assoc]

end Writes

/-! ## Strings -/

/-- Control characters without a letter of their own are escaped as units. -/
def IsEscapedUnit (c : Char) : Prop :=
  c ≠ '\n' ∧ c ≠ '\t' ∧ c ≠ '\r' ∧ c ≠ '\x08' ∧ c ≠ '\x0c' ∧ c < ' '

instance (c : Char) : Decidable (IsEscapedUnit c) := inferInstanceAs (Decidable (_ ∧ _))

/-- What the scanner keeps of a character in a string. -/
def piece (c : Char) : Piece := if IsEscapedUnit c then .unit c.toNat else .char c

theorem hexDigit?_hexChar {n : Nat} (h : n < 16) : hexDigit? (hexChar n) = some n := by
  have table : ∀ n < 16, hexDigit? (hexChar n) = some n := by decide
  exact table n h

theorem run_unit (tokens : List Token) (pieces : List Piece) {n : Nat} (h : n < 256)
    (cs : List Char) :
    run ⟨tokens, .string pieces⟩
        ('\\' :: 'u' :: '0' :: '0' :: hexChar (n / 16) :: hexChar (n % 16) :: cs) =
      run ⟨tokens, .string (.unit n :: pieces)⟩ cs := by
  have first : Scanner.next ⟨tokens, .unit pieces 2 0⟩ (hexChar (n / 16)) =
      some ⟨tokens, .unit pieces 3 (n / 16)⟩ := by
    rw [Scanner.next, hexDigit?_hexChar (by omega)]
    simp
  have second : Scanner.next ⟨tokens, .unit pieces 3 (n / 16)⟩ (hexChar (n % 16)) =
      some ⟨tokens, .string (.unit n :: pieces)⟩ := by
    rw [Scanner.next, hexDigit?_hexChar (Nat.mod_lt _ (by decide))]
    simp [Nat.div_add_mod]
  rw [← run_cons second, ← run_cons first]
  rfl

theorem run_escape (tokens : List Token) (pieces : List Piece) (c : Char) (cs : List Char) :
    run ⟨tokens, .string pieces⟩ (escape c ++ cs) =
      run ⟨tokens, .string (piece c :: pieces)⟩ cs := by
  by_cases quote : c = '"'
  · subst c; rfl
  by_cases backslash : c = '\\'
  · subst c; rfl
  by_cases newline : c = '\n'
  · subst c; rfl
  by_cases tab : c = '\t'
  · subst c; rfl
  by_cases return' : c = '\r'
  · subst c; rfl
  by_cases backspace : c = '\x08'
  · subst c; rfl
  by_cases feed : c = '\x0c'
  · subst c; rfl
  by_cases control : c < ' '
  · have unit : piece c = .unit c.toNat := if_pos ⟨newline, tab, return', backspace, feed, control⟩
    have few : c.toNat < 256 := Nat.lt_trans (show c.toNat < 32 from control) (by decide)
    simp only [escape, quote, backslash, newline, tab, return', backspace, feed, control, if_true,
      if_false]
    rw [unit]
    exact run_unit tokens pieces few cs
  · have plain : piece c = .char c := if_neg fun h => control h.2.2.2.2.2
    have step : Scanner.next ⟨tokens, .string pieces⟩ c =
        some ⟨tokens, .string (.char c :: pieces)⟩ := by
      simp only [Scanner.next, quote, backslash, control, if_false]
    simp only [escape, quote, backslash, newline, tab, return', backspace, feed, control, if_false]
    rw [plain, ← run_cons step]
    rfl

/-- Escaped units are no halves of surrogate pairs. -/
theorem joinPieces_piece (cs done : List Char) :
    joinPieces (cs.map piece) done = some (cs.reverse ++ done) := by
  induction cs generalizing done with
  | nil => rfl
  | cons c cs ih =>
    have rest := ih (c :: done)
    rw [List.map_cons, List.reverse_cons, List.append_assoc, List.singleton_append, ← rest]
    by_cases unit : IsEscapedUnit c
    · have small : c.toNat < 32 := unit.2.2.2.2.2
      have high : ¬ IsHighSurrogate c.toNat := fun h => by
        rw [IsHighSurrogate] at h
        omega
      have low : ¬ IsLowSurrogate c.toNat := fun h => by
        rw [IsLowSurrogate] at h
        omega
      rw [piece, if_pos unit]
      cases cs.map piece with
      | nil => simp [joinPieces, high, low, Char.ofNat_toNat]
      | cons p ps => cases p <;> simp [joinPieces, high, low, Char.ofNat_toNat]
    · rw [piece, if_neg unit, joinPieces]

theorem run_flatMap_escape (tokens : List Token) (pieces : List Piece) (cs more : List Char) :
    run ⟨tokens, .string pieces⟩ (cs.flatMap escape ++ more) =
      run ⟨tokens, .string ((cs.map piece).reverse ++ pieces)⟩ more := by
  induction cs generalizing pieces with
  | nil => rfl
  | cons c cs ih =>
    rw [List.flatMap_cons, List.append_assoc, run_escape, ih, List.map_cons, List.reverse_cons,
      List.append_assoc]
    rfl

/-- A string is read back from its quoted form. -/
theorem writes_quote (s : String) : Writes (quote s).toList [.string (some s)] := by
  intro tokens rest _
  have joined : (joinPieces (s.toList.map piece).reverse []).map String.ofList = some s := by
    rw [← List.map_reverse, joinPieces_piece, List.reverse_reverse, List.append_nil,
      Option.map_some, String.ofList_toList]
  have opened : Scanner.next ⟨tokens, .nothing⟩ '"' = some ⟨tokens, .string []⟩ := rfl
  have closed : Scanner.next ⟨tokens, .string (s.toList.map piece).reverse⟩ '"' =
      some ⟨.string (some s) :: tokens, .nothing⟩ := by
    rw [← joined]
    rfl
  rw [quote, String.toList_ofList, List.cons_append, List.cons_append, run_cons opened,
    List.append_assoc, run_flatMap_escape, List.append_nil]
  exact run_cons closed rest

/-! ## Numbers and words -/

/-- What ends a number or a word is read as if the token were there already. -/
theorem run_of_stops {tokens : List Token} {inside : Inside} {t : Token} {rest : List Char}
    (stops : Stops rest) (last : Scanner.finish ⟨tokens, inside⟩ = some (t :: tokens).reverse)
    (step : ∀ c, isNumeric c = false ∧ c.isAlpha = false →
      Scanner.next ⟨tokens, inside⟩ c = fresh (t :: tokens) c) :
    run ⟨tokens, inside⟩ rest = run ⟨t :: tokens, .nothing⟩ rest := by
  cases rest with
  | nil => exact last
  | cons c rest =>
    rw [run, run, List.foldlM_cons, List.foldlM_cons, step c (stops c rfl)]
    rfl

theorem isNumeric_char (d : Fin 10) : isNumeric (Digits.char d) = true := by
  revert d
  decide

theorem isNumeric_of_mem_chars {l : Literal} {c : Char} (h : c ∈ l.chars) : isNumeric c = true := by
  have digits {ds : Digits} (h : c ∈ ds.chars) : isNumeric c = true := by
    obtain ⟨d, -, rfl⟩ := List.mem_map.1 h
    exact isNumeric_char d
  rw [chars_eq, List.mem_append, List.mem_append, List.mem_append] at h
  rcases h with sign | whole | fraction | exponent
  · split at sign
    · rw [List.mem_singleton.1 sign]
      decide
    · cases sign
  · exact digits whole
  · rw [fractionChars] at fraction
    split at fraction
    · cases fraction
    · rcases List.mem_cons.1 fraction with rfl | fraction
      · decide
      · exact digits fraction
  · cases part : l.exponent with
    | none => simp [exponentChars, part] at exponent
    | some e =>
      rw [part, exponentChars, Option.elim_some, Exponent.chars, List.mem_append,
        List.mem_cons] at exponent
      rcases exponent with (rfl | sign) | written
      · decide
      · split at sign
        · cases sign
        · rw [List.mem_singleton.1 sign]
          decide
        · rw [List.mem_singleton.1 sign]
          decide
      · exact digits written

/-- A literal starts with a sign or a digit. -/
theorem exists_chars_eq {l : Literal} (whole : l.whole ≠ []) : ∃ c cs, l.chars = c :: cs ∧
    ∀ tokens, fresh tokens c = some ⟨tokens, .number [c]⟩ := by
  rw [chars_eq]
  cases l.negative
  · obtain ⟨d, ds, hd⟩ := List.exists_cons_of_ne_nil whole
    rw [hd]
    refine ⟨_, _, rfl, fun tokens => ?_⟩
    fin_cases d <;> rfl
  · exact ⟨_, _, rfl, fun _ => rfl⟩

/-- A number is read back in front of a character that does not continue it. -/
theorem writes_chars {l : Literal} (proper : l.Proper) : Writes l.chars [.number l] := by
  intro tokens rest stops
  have continued (written cs : List Char) (numeric : ∀ c ∈ cs, isNumeric c = true) :
      run ⟨tokens, .number written⟩ (cs ++ rest) =
        run ⟨tokens, .number (cs.reverse ++ written)⟩ rest := by
    induction cs generalizing written with
    | nil => rfl
    | cons c cs ih =>
      have step : Scanner.next ⟨tokens, .number written⟩ c =
          some ⟨tokens, .number (c :: written)⟩ := if_pos (numeric c List.mem_cons_self)
      rw [List.cons_append, run_cons step, ih _ fun c hc => numeric c (List.mem_cons_of_mem _ hc),
        List.reverse_cons, List.append_assoc]
      rfl
  obtain ⟨c, cs, first, begins⟩ := exists_chars_eq proper.whole
  have step : Scanner.next ⟨tokens, .nothing⟩ c = some ⟨tokens, .number [c]⟩ := begins tokens
  have numeric (d : Char) (hd : d ∈ cs) : isNumeric d = true :=
    isNumeric_of_mem_chars (first ▸ List.mem_cons_of_mem _ hd)
  have read : literal? (cs.reverse ++ [c]).reverse = some l := by
    rw [List.reverse_append, List.reverse_reverse, ← literal?_chars proper, first]
    rfl
  rw [first, List.cons_append, run_cons step, continued _ _ numeric]
  refine run_of_stops stops ?_ fun d hd => ?_
  · simp only [Scanner.finish, read, Option.map_some]
  · simp only [Scanner.next, hd.1, read]
    rfl

theorem run_word (tokens : List Token) (letters : List Char) {t : Token} {rest : List Char}
    (stops : Stops rest) (read : keyword? letters.reverse = some t) :
    run ⟨tokens, .word letters⟩ rest = run ⟨t :: tokens, .nothing⟩ rest := by
  refine run_of_stops stops ?_ fun c hc => ?_
  · simp only [Scanner.finish, read, Option.map_some]
  · simp only [Scanner.next, hc.2, read]
    rfl

theorem writes_null : Writes "null".toList [.null] := fun tokens _ stops =>
  run_word tokens ['l', 'l', 'u', 'n'] stops rfl

theorem writes_bool (b : Bool) : Writes (if b then "true" else "false").toList [.bool b] := by
  intro tokens rest stops
  cases b
  · exact run_word tokens ['e', 's', 'l', 'a', 'f'] stops rfl
  · exact run_word tokens ['e', 'u', 'r', 't'] stops rfl

/-! ## Values -/

mutual

/-- The tokens of a value. -/
def Value.tokens : Value → List Token
  | .null => [.null]
  | .bool b => [.bool b]
  | .number l => [.number l]
  | .string s => [.string s]
  | .array items => .openArray :: (itemTokens items ++ [.closeArray])
  | .object members => .openObject :: (memberTokens members ++ [.closeObject])

/-- The tokens of values with commas between them. -/
def itemTokens : List Value → List Token
  | [] => []
  | [v] => v.tokens
  | v :: w :: rest => v.tokens ++ .comma :: itemTokens (w :: rest)

/-- The tokens of members with commas between them. -/
def memberTokens : List (Option String × Value) → List Token
  | [] => []
  | [(name, v)] => .string name :: .colon :: v.tokens
  | (name, v) :: m :: rest =>
    .string name :: .colon :: (v.tokens ++ .comma :: memberTokens (m :: rest))

end

/-- A value that can be written: its numbers are proper, and its strings and names have a text. -/
inductive Value.Proper : Value → Prop
  | null : Proper .null
  | bool (b : Bool) : Proper (.bool b)
  | number {l : Literal} (proper : l.Proper) : Proper (.number l)
  | text (s : String) : Proper (.text s)
  | array {items : List Value} (each : ∀ v ∈ items, Proper v) : Proper (.array items)
  | object {members : List (Option String × Value)} (named : ∀ m ∈ members, m.1.isSome)
    (each : ∀ m ∈ members, Proper m.2) : Proper (.object members)

theorem writes_items {items : List Value}
    (each : ∀ v ∈ items, Writes v.compact.toList v.tokens) :
    Writes (compactItems items).toList (itemTokens items) := by
  induction items with
  | nil => exact .nil
  | cons v rest ih =>
    have first := each v List.mem_cons_self
    cases rest with
    | nil => exact first
    | cons w rest =>
      have others := ih fun u hu => each u (List.mem_cons_of_mem _ hu)
      rw [compactItems, itemTokens, String.toList_append, String.toList_append, List.append_assoc]
      exact first.append_mark mark_comma others

theorem writes_members {members : List (Option String × Value)}
    (named : ∀ m ∈ members, m.1.isSome)
    (each : ∀ m ∈ members, Writes m.2.compact.toList m.2.tokens) :
    Writes (compactMembers members).toList (memberTokens members) := by
  induction members with
  | nil => exact .nil
  | cons m rest ih =>
    obtain ⟨name, v⟩ := m
    obtain ⟨n, rfl⟩ := Option.isSome_iff_exists.1 (named _ List.mem_cons_self)
    have first := (writes_quote n).append_mark mark_colon (each (some n, v) List.mem_cons_self)
    have text : (quoteOption (some n) ++ ":" ++ v.compact).toList =
        (quote n).toList ++ ':' :: v.compact.toList := by
      rw [String.toList_append, String.toList_append, List.append_assoc]
      rfl
    cases rest with
    | nil =>
      rw [compactMembers, memberTokens, text]
      exact first
    | cons m rest =>
      have others := ih (fun u hu => named u (List.mem_cons_of_mem _ hu))
        fun u hu => each u (List.mem_cons_of_mem _ hu)
      rw [compactMembers, memberTokens, String.toList_append, String.toList_append, text,
        List.append_assoc]
      exact first.append_mark mark_comma others

/-- The text of a value writes the tokens of this value. -/
theorem Value.Proper.writes {v : Value} (proper : v.Proper) :
    Writes v.compact.toList v.tokens := by
  induction proper with
  | null => exact writes_null
  | bool b => exact writes_bool b
  | number proper =>
    rw [Value.compact, Literal.text, String.toList_ofList]
    exact writes_chars proper
  | text s => exact writes_quote s
  | array each ih =>
    rw [Value.compact, Value.tokens, String.toList_append, String.toList_append, List.append_assoc]
    exact .mark mark_openArray ((writes_items ih).append_mark mark_closeArray .nil)
  | object named each ih =>
    rw [Value.compact, Value.tokens, String.toList_append, String.toList_append, List.append_assoc]
    exact .mark mark_openObject ((writes_members named ih).append_mark mark_closeObject .nil)

/-! ## Building -/

namespace Builder

/-- Take the rest of the tokens. -/
def build (b : Option Builder) (ts : List Token) : Option Builder := b.bind (ts.foldlM next ·)

theorem build_cons {b : Builder} {b' : Option Builder} {t : Token} (step : b.next t = b')
    (ts : List Token) : build (some b) (t :: ts) = build b' ts := by
  rw [build, build, Option.bind_some, List.foldlM_cons, step]
  rfl

/-- The tokens of a value put this value into what is open. -/
def Builds (v : Value) : Prop :=
  ∀ frames orClose rest,
    build (some ⟨frames, .value orClose⟩) (v.tokens ++ rest) = build (place v frames) rest

/-- Items come last first. -/
theorem build_itemTokens {v : Value} {items : List Value} (each : ∀ u ∈ v :: items, Builds u)
    (done : List Value) (frames : List Frame) (orClose : Bool) (rest : List Token) :
    build (some ⟨.array done :: frames, .value orClose⟩) (itemTokens (v :: items) ++ rest) =
      build (some ⟨.array ((v :: items).reverse ++ done) :: frames, .separator⟩) rest := by
  induction items generalizing v done orClose with
  | nil => exact each v List.mem_cons_self _ _ _
  | cons w items ih =>
    have others := ih (fun u hu => each u (List.mem_cons_of_mem _ hu)) (v :: done) false
    rw [List.reverse_cons, List.append_assoc] at others
    rw [itemTokens, List.append_assoc, each v List.mem_cons_self, List.reverse_cons,
      List.append_assoc, List.reverse_cons, List.append_assoc]
    exact (build_cons rfl _).trans others

theorem build_items {items : List Value} (each : ∀ v ∈ items, Builds v) (frames : List Frame)
    (rest : List Token) :
    build (some ⟨.array [] :: frames, .value true⟩) (itemTokens items ++ .closeArray :: rest) =
      build (place (.array items) frames) rest := by
  cases items with
  | nil => exact build_cons rfl _
  | cons v items =>
    have closed : next ⟨.array (v :: items).reverse :: frames, .separator⟩ .closeArray =
        place (.array (v :: items)) frames := by
      show place (.array (v :: items).reverse.reverse) frames = _
      rw [List.reverse_reverse]
    rw [build_itemTokens each, List.append_nil]
    exact build_cons closed _

theorem build_name (done : List (Option String × Value)) (frames : List Frame) (orClose : Bool)
    (name : Option String) (rest : List Token) :
    build (some ⟨.object done :: frames, .name orClose⟩) (.string name :: .colon :: rest) =
      build (some ⟨.member done name :: frames, .value false⟩) rest :=
  (build_cons rfl _).trans (build_cons rfl _)

theorem build_memberTokens {m : Option String × Value} {members : List (Option String × Value)}
    (each : ∀ u ∈ m :: members, Builds u.2) (done : List (Option String × Value))
    (frames : List Frame) (orClose : Bool) (rest : List Token) :
    build (some ⟨.object done :: frames, .name orClose⟩) (memberTokens (m :: members) ++ rest) =
      build (some ⟨.object ((m :: members).reverse ++ done) :: frames, .separator⟩) rest := by
  induction members generalizing m done orClose with
  | nil => exact (build_name _ _ _ _ _).trans (each m List.mem_cons_self _ _ _)
  | cons m' members ih =>
    have others := ih (fun u hu => each u (List.mem_cons_of_mem _ hu)) (m :: done) false
    rw [List.reverse_cons, List.append_assoc] at others
    rw [memberTokens, List.cons_append, List.cons_append, build_name, List.append_assoc,
      each m List.mem_cons_self, List.reverse_cons, List.append_assoc, List.reverse_cons,
      List.append_assoc]
    exact (build_cons rfl _).trans others

theorem build_members {members : List (Option String × Value)}
    (each : ∀ m ∈ members, Builds m.2) (frames : List Frame) (rest : List Token) :
    build (some ⟨.object [] :: frames, .name true⟩)
        (memberTokens members ++ .closeObject :: rest) =
      build (place (.object members) frames) rest := by
  cases members with
  | nil => exact build_cons rfl _
  | cons m members =>
    have closed : next ⟨.object (m :: members).reverse :: frames, .separator⟩ .closeObject =
        place (.object (m :: members)) frames := by
      show place (.object (m :: members).reverse.reverse) frames = _
      rw [List.reverse_reverse]
    rw [build_memberTokens each, List.append_nil]
    exact build_cons closed _

end Builder

/-- The tokens of a value build it. -/
theorem Value.Proper.builds {v : Value} (proper : v.Proper) : Builder.Builds v := by
  induction proper with
  | null => exact fun _ _ _ => Builder.build_cons rfl _
  | bool b => exact fun _ _ _ => Builder.build_cons rfl _
  | number => exact fun _ _ _ => Builder.build_cons rfl _
  | text => exact fun _ _ _ => Builder.build_cons rfl _
  | array each ih =>
    intro frames orClose rest
    rw [Value.tokens, List.cons_append, List.append_assoc]
    exact (Builder.build_cons rfl _).trans (Builder.build_items ih frames rest)
  | object named each ih =>
    intro frames orClose rest
    rw [Value.tokens, List.cons_append, List.append_assoc]
    exact (Builder.build_cons rfl _).trans (Builder.build_members ih frames rest)

/-- A value is read from every text that writes its tokens. -/
theorem Value.Proper.ofText?_of_writes {v : Value} (proper : v.Proper) {text : String}
    (writes : Writes text.toList v.tokens) : ofText? text = some v := by
  have scanned : Token.ofText? text = some v.tokens := by
    have := writes [] [] (by simp [Stops])
    rw [List.append_nil] at this
    refine this.trans ?_
    rw [List.append_nil]
    exact congrArg some v.tokens.reverse_reverse
  have built := proper.builds [] false []
  rw [List.append_nil] at built
  have complete : v.tokens.foldlM Builder.next Builder.start = some ⟨[], .nothing v⟩ := built
  rw [ofText?, scanned, Option.bind_eq_bind, Option.bind_some, ofTokens?, complete]
  rfl

/-- **A value is read back from its text.** -/
theorem Value.ofText?_compact {v : Value} (proper : v.Proper) : ofText? v.compact = some v :=
  proper.ofText?_of_writes proper.writes

end MessagePassing.Json
