/-
  Message passing — enumerations with written names.

  Each value of such an enumeration has a tag, by which descriptions and JSON
  texts refer to it.
-/
import MessagePassing.Json.Decode

namespace MessagePassing

/-- An enumeration whose values have distinct tags. -/
class Tagged (α : Type) where
  /-- Every value. -/
  values : List α
  /-- The written name of a value. -/
  tag : α → String

namespace Tagged

variable {α : Type} [Tagged α]

/-- The value with a tag. -/
def ofTag? (s : String) : Option α := (values : List α).find? fun x => tag x == s

/-- A value as JSON: its tag. -/
def json (x : α) : Json.Value := .text (tag x)

/-- Reads a tag, or an object with this tag as its only member, which is null. -/
def ofJson? : Json.Decoder α
  | .string (some s) => ofTag? s
  | .object [(some s, .null)] => ofTag? s
  | _ => none

end Tagged

end MessagePassing
