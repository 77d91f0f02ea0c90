/-
  Message passing — JSON values.

  Numbers keep the literal as written and objects keep every member in order,
  repeated names included, so that a reader can decide what to accept.  A string
  with an escape for half of a surrogate pair is well formed but has no text.
-/
import MessagePassing.Decimal.Literal

namespace MessagePassing.Json

/-- A JSON value. -/
inductive Value where
  | null
  | bool (value : Bool)
  | number (literal : Literal)
  /-- A string; `none` when its escapes form no text. -/
  | string (text : Option String)
  | array (items : List Value)
  /-- The members of an object in order, repeated names included. -/
  | object (members : List (Option String × Value))

namespace Value

/-- A string with text. -/
def text (s : String) : Value := .string (some s)

/-- A count. -/
def count (n : Nat) : Value := .number (.ofNat n)

/-- An array of counts. -/
def counts (ns : List Nat) : Value := .array (ns.map count)

/-- An object from named members. -/
def record (members : List (String × Value)) : Value :=
  .object (members.map fun (name, value) => (some name, value))

end Value

end MessagePassing.Json
