/-
  Message passing — writing JSON.

  `Value.compact` writes a value without blanks, `Value.indented` with one item
  per line and two spaces per level.  Strings escape quotes, backslashes and
  control characters only.
-/
import MessagePassing.Json.Value
import MessagePassing.Decimal.Layout

namespace MessagePassing.Json

/-! ## Strings -/

/-- A hexadecimal digit, in lower case. -/
def hexChar (n : Nat) : Char :=
  if n < 10 then Char.ofNat ('0'.toNat + n) else Char.ofNat ('a'.toNat + (n - 10))

/-- A character as it stands in a string. -/
def escape (c : Char) : List Char :=
  if c = '"' then ['\\', '"']
  else if c = '\\' then ['\\', '\\']
  else if c = '\n' then ['\\', 'n']
  else if c = '\t' then ['\\', 't']
  else if c = '\r' then ['\\', 'r']
  else if c = '\x08' then ['\\', 'b']
  else if c = '\x0c' then ['\\', 'f']
  else if c < ' ' then ['\\', 'u', '0', '0', hexChar (c.toNat / 16), hexChar (c.toNat % 16)]
  else [c]

/-- A text as a JSON string. -/
def quote (s : String) : String :=
  String.ofList ('"' :: s.toList.flatMap escape ++ ['"'])

/-- A string value as written; one without text cannot be, and is left empty. -/
def quoteOption (s : Option String) : String := quote (s.getD "")

/-! ## Values -/

mutual

/-- A value without blanks. -/
def Value.compact : Value → String
  | .null => "null"
  | .bool b => if b then "true" else "false"
  | .number l => l.text
  | .string s => quoteOption s
  | .array items => "[" ++ compactItems items ++ "]"
  | .object members => "\x7b" ++ compactMembers members ++ "\x7d"

/-- Values with commas between them. -/
def compactItems : List Value → String
  | [] => ""
  | [v] => v.compact
  | v :: w :: rest => v.compact ++ "," ++ compactItems (w :: rest)

/-- Members with commas between them. -/
def compactMembers : List (Option String × Value) → String
  | [] => ""
  | [(name, v)] => quoteOption name ++ ":" ++ v.compact
  | (name, v) :: m :: rest =>
    quoteOption name ++ ":" ++ v.compact ++ "," ++ compactMembers (m :: rest)

end

/-- A line break and the indentation of a level. -/
def lineBreak (level : Nat) : String := String.ofList ('\n' :: List.replicate (2 * level) ' ')

mutual

/-- A value on several lines; its first line is not indented. -/
def Value.indentedAt (level : Nat) : Value → String
  | .array [] => "[]"
  | .array items => "[" ++ indentedItems (level + 1) items ++ lineBreak level ++ "]"
  | .object [] => "\x7b\x7d"
  | .object members =>
    "\x7b" ++ indentedMembers (level + 1) members ++ lineBreak level ++ "\x7d"
  | .null => "null"
  | .bool b => if b then "true" else "false"
  | .number l => l.text
  | .string s => quoteOption s

/-- Values on lines of their own. -/
def indentedItems (level : Nat) : List Value → String
  | [] => ""
  | [v] => lineBreak level ++ v.indentedAt level
  | v :: w :: rest =>
    lineBreak level ++ v.indentedAt level ++ "," ++ indentedItems level (w :: rest)

/-- Members on lines of their own. -/
def indentedMembers (level : Nat) : List (Option String × Value) → String
  | [] => ""
  | [(name, v)] => lineBreak level ++ quoteOption name ++ ": " ++ v.indentedAt level
  | (name, v) :: m :: rest =>
    lineBreak level ++ quoteOption name ++ ": " ++ v.indentedAt level ++ "," ++
      indentedMembers level (m :: rest)

end

/-- A value on several lines. -/
def Value.indented (v : Value) : String := v.indentedAt 0

/-! ## Scalars -/

/-- Scalars in JSON have at least one fraction digit; an exponent is written below
    `10 ^ -6` and from `10 ^ 13` on. -/
def scalarLayout : Layout where
  lowest := -6
  highest := 12
  fractionZero := true
  tie := .even

/-- A scalar; infinities and NaNs have no number and become `null`. -/
def Value.scalar (x : Scalar) : Value :=
  match x.literal? scalarLayout with
  | some l => .number l
  | none => .null

/-- An array of scalars. -/
def Value.scalars (xs : Array Scalar) : Value := .array (xs.toList.map Value.scalar)

end MessagePassing.Json
