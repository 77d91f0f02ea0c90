/-
  Message passing — texts in quotes.

  A text in a description of a pipeline stands between quotes.  Quotes, backslashes
  and characters that cannot be seen on their own are escaped, so that the text can
  be told from what surrounds it.
-/
import MessagePassing.Text.Unseen

namespace MessagePassing.Text

/-- A character by its code point, in hexadecimal. -/
def byCodePoint (c : Char) : List Char :=
  ['\\', 'u', '\x7b'] ++ Nat.toDigits 16 c.toNat ++ ['\x7d']

/-- A character as it stands between quotes. -/
def escape (c : Char) : List Char :=
  if c = '"' then ['\\', '"']
  else if c = '\\' then ['\\', '\\']
  else if c = '\n' then ['\\', 'n']
  else if c = '\r' then ['\\', 'r']
  else if c = '\t' then ['\\', 't']
  else if c.toNat = 0 then ['\\', '0']
  else if isUnseen c then byCodePoint c
  else [c]

/-- A text in quotes. -/
def quote (s : String) : String := String.ofList ('"' :: s.toList.flatMap escape ++ ['"'])

end MessagePassing.Text
