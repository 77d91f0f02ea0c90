/-
  Message passing — the words of a JSON text.

  `Token.ofText?` cuts a text into tokens with a machine that reads one character
  at a time: `Scanner.next` is its step.  A number, and a word such as `true`,
  ends where a character comes that cannot continue it.
-/
import MessagePassing.Json.Value

namespace MessagePassing.Json

/-- A word of a JSON text. -/
inductive Token where
  | openArray
  | closeArray
  | openObject
  | closeObject
  | comma
  | colon
  | null
  | bool (value : Bool)
  | number (literal : Literal)
  /-- A string; `none` when its escapes form no text. -/
  | string (text : Option String)

/-! ## Numbers -/

/-- The digits at the front and what follows them. -/
def leadingDigits : List Char → Digits × List Char
  | [] => ([], [])
  | c :: cs =>
    match Digits.ofChar? c with
    | some d => let (ds, rest) := leadingDigits cs; (d :: ds, rest)
    | none => ([], c :: cs)

/-- A point with at least one digit, or nothing. -/
def fractionPart? : List Char → Option (Digits × List Char)
  | '.' :: cs =>
    match leadingDigits cs with
    | ([], _) => none
    | found => some found
  | cs => some ([], cs)

/-- An exponent with at least one digit, or nothing; no character may follow. -/
def exponentPart? : List Char → Option (Option Exponent)
  | [] => some none
  | mark :: cs =>
    if mark = 'e' ∨ mark = 'E' then
      let (sign, cs) := match cs with
        | '+' :: cs => (ExponentSign.plus, cs)
        | '-' :: cs => (ExponentSign.minus, cs)
        | cs => (ExponentSign.none, cs)
      match leadingDigits cs with
      | (d :: ds, []) => some (some ⟨sign, d :: ds⟩)
      | _ => none
    else none

/-- The literal that all the characters write: a sign, digits without a leading
    zero, then fraction and exponent. -/
def literal? (cs : List Char) : Option Literal := do
  let (negative, cs) := match cs with
    | '-' :: cs => (true, cs)
    | cs => (false, cs)
  let (whole, cs) := leadingDigits cs
  if whole = [] ∨ (whole.head? = some Digits.zero ∧ 1 < whole.length) then none
  else do
    let (fraction, cs) ← fractionPart? cs
    let exponent ← exponentPart? cs
    pure ⟨negative, whole, fraction, exponent⟩

/-! ## Strings -/

/-- A piece of a string: a character, or an escaped UTF-16 code unit. -/
inductive Piece where
  | char (c : Char)
  | unit (u : Nat)

/-- The first half of a surrogate pair. -/
def IsHighSurrogate (u : Nat) : Prop := 0xD800 ≤ u ∧ u < 0xDC00

/-- The second half of a surrogate pair. -/
def IsLowSurrogate (u : Nat) : Prop := 0xDC00 ≤ u ∧ u < 0xE000

instance (u : Nat) : Decidable (IsHighSurrogate u) := inferInstanceAs (Decidable (_ ∧ _))

instance (u : Nat) : Decidable (IsLowSurrogate u) := inferInstanceAs (Decidable (_ ∧ _))

/-- The characters of pieces, which come last first, in front of `done`.  Halves
    of surrogate pairs have to come in pairs. -/
def joinPieces : List Piece → List Char → Option (List Char)
  | [], done => some done
  | .char c :: rest, done => joinPieces rest (c :: done)
  | .unit low :: .unit high :: rest, done =>
    if IsLowSurrogate low then
      if IsHighSurrogate high then
        joinPieces rest
          (Char.ofNat (0x10000 + (high - 0xD800) * 0x400 + (low - 0xDC00)) :: done)
      else none
    else if IsHighSurrogate low then none
    else joinPieces (.unit high :: rest) (Char.ofNat low :: done)
  | .unit u :: rest, done =>
    if IsLowSurrogate u ∨ IsHighSurrogate u then none
    else joinPieces rest (Char.ofNat u :: done)

/-- The character that a letter after a backslash stands for. -/
def escaped? : Char → Option Char
  | '"' => some '"'
  | '\\' => some '\\'
  | '/' => some '/'
  | 'b' => some '\x08'
  | 'f' => some '\x0c'
  | 'n' => some '\n'
  | 'r' => some '\r'
  | 't' => some '\t'
  | _ => none

/-- The value of a hexadecimal digit in either case. -/
def hexDigit? (c : Char) : Option Nat :=
  if '0' ≤ c ∧ c ≤ '9' then some (c.toNat - '0'.toNat)
  else if 'a' ≤ c ∧ c ≤ 'f' then some (c.toNat - 'a'.toNat + 10)
  else if 'A' ≤ c ∧ c ≤ 'F' then some (c.toNat - 'A'.toNat + 10)
  else none

/-! ## The machine -/

/-- What the machine is in the middle of; pieces and characters come last first. -/
inductive Inside where
  | nothing
  | word (letters : List Char)
  | number (written : List Char)
  | string (pieces : List Piece)
  /-- After a backslash in a string. -/
  | escape (pieces : List Piece)
  /-- After `read` hexadecimal digits of an escape. -/
  | unit (pieces : List Piece) (read value : Nat)

/-- The machine: the tokens found, last first, and what it is in the middle of. -/
structure Scanner where
  tokens : List Token
  inside : Inside

/-- Characters that may stand between tokens. -/
def isBlank (c : Char) : Bool := c = ' ' || c = '\n' || c = '\t' || c = '\r'

/-- Characters that a number is made of. -/
def isNumeric (c : Char) : Bool :=
  c.isDigit || c = '-' || c = '+' || c = '.' || c = 'e' || c = 'E'

/-- The token of a word. -/
def keyword? (letters : List Char) : Option Token :=
  if letters = ['n', 'u', 'l', 'l'] then some .null
  else if letters = ['t', 'r', 'u', 'e'] then some (.bool true)
  else if letters = ['f', 'a', 'l', 's', 'e'] then some (.bool false)
  else none

namespace Scanner

/-- The machine before the text. -/
def start : Scanner := ⟨[], .nothing⟩

/-- A character that does not continue a token. -/
def fresh (tokens : List Token) (c : Char) : Option Scanner :=
  if isBlank c then some ⟨tokens, .nothing⟩
  else if c = '[' then some ⟨.openArray :: tokens, .nothing⟩
  else if c = ']' then some ⟨.closeArray :: tokens, .nothing⟩
  else if c = '\x7b' then some ⟨.openObject :: tokens, .nothing⟩
  else if c = '\x7d' then some ⟨.closeObject :: tokens, .nothing⟩
  else if c = ',' then some ⟨.comma :: tokens, .nothing⟩
  else if c = ':' then some ⟨.colon :: tokens, .nothing⟩
  else if c = '"' then some ⟨tokens, .string []⟩
  else if c = '-' || c.isDigit then some ⟨tokens, .number [c]⟩
  else if c.isAlpha then some ⟨tokens, .word [c]⟩
  else none

/-- One character. -/
def next (s : Scanner) (c : Char) : Option Scanner :=
  match s.inside with
  | .nothing => fresh s.tokens c
  | .word letters =>
    if c.isAlpha then some ⟨s.tokens, .word (c :: letters)⟩
    else do fresh ((← keyword? letters.reverse) :: s.tokens) c
  | .number written =>
    if isNumeric c then some ⟨s.tokens, .number (c :: written)⟩
    else do fresh (.number (← literal? written.reverse) :: s.tokens) c
  | .string pieces =>
    if c = '"' then
      some ⟨.string ((joinPieces pieces []).map String.ofList) :: s.tokens, .nothing⟩
    else if c = '\\' then some ⟨s.tokens, .escape pieces⟩
    else if c < ' ' then none
    else some ⟨s.tokens, .string (.char c :: pieces)⟩
  | .escape pieces =>
    if c = 'u' then some ⟨s.tokens, .unit pieces 0 0⟩
    else (escaped? c).map fun e => ⟨s.tokens, .string (.char e :: pieces)⟩
  | .unit pieces read value =>
    (hexDigit? c).map fun d =>
      let value := 16 * value + d
      if read = 3 then ⟨s.tokens, .string (.unit value :: pieces)⟩
      else ⟨s.tokens, .unit pieces (read + 1) value⟩

/-- The tokens once the text has ended. -/
def finish (s : Scanner) : Option (List Token) :=
  match s.inside with
  | .nothing => some s.tokens.reverse
  | .word letters => (keyword? letters.reverse).map fun t => (t :: s.tokens).reverse
  | .number written => (literal? written.reverse).map fun l => (.number l :: s.tokens).reverse
  | _ => none

end Scanner

/-- The tokens of a text. -/
def Token.ofText? (text : String) : Option (List Token) := do
  (← text.toList.foldlM Scanner.next Scanner.start).finish

end MessagePassing.Json
