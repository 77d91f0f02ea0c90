/-
  Message passing — reading a JSON text.

  A machine builds the value of a list of tokens: it keeps the arrays and objects
  that are still open, the innermost first, and what has to come next.  One step
  takes one token, so nesting of any depth needs no recursion.
-/
import MessagePassing.Json.Token

namespace MessagePassing.Json

/-- An array or object that is still open.  Items and members come last first. -/
inductive Frame where
  | array (items : List Value)
  | object (members : List (Option String × Value))
  /-- An object, and the name whose value comes next. -/
  | member (members : List (Option String × Value)) (name : Option String)

/-- What has to come next. -/
inductive Expect where
  /-- A value; `orClose` says that the innermost array may end instead. -/
  | value (orClose : Bool)
  /-- A name; `orClose` says that the innermost object may end instead. -/
  | name (orClose : Bool)
  | colon
  /-- A comma or the end of the innermost array or object. -/
  | separator
  /-- Nothing: the value is complete. -/
  | nothing (value : Value)

/-- The machine. -/
structure Builder where
  frames : List Frame
  expect : Expect

namespace Builder

/-- The machine before the first token. -/
def start : Builder := ⟨[], .value false⟩

/-- Put a complete value into the innermost open array or object. -/
def place (value : Value) : List Frame → Option Builder
  | [] => some ⟨[], .nothing value⟩
  | .array items :: frames => some ⟨.array (value :: items) :: frames, .separator⟩
  | .member members name :: frames =>
    some ⟨.object ((name, value) :: members) :: frames, .separator⟩
  | .object _ :: _ => none

/-- End the innermost open array. -/
def closeArray : List Frame → Option Builder
  | .array items :: frames => place (.array items.reverse) frames
  | _ => none

/-- End the innermost open object. -/
def closeObject : List Frame → Option Builder
  | .object members :: frames => place (.object members.reverse) frames
  | _ => none

/-- One token. -/
def next (b : Builder) (t : Token) : Option Builder :=
  match b.expect, t with
  | .value _, .null => place .null b.frames
  | .value _, .bool v => place (.bool v) b.frames
  | .value _, .number l => place (.number l) b.frames
  | .value _, .string s => place (.string s) b.frames
  | .value _, .openArray => some ⟨.array [] :: b.frames, .value true⟩
  | .value _, .openObject => some ⟨.object [] :: b.frames, .name true⟩
  | .value true, .closeArray => closeArray b.frames
  | .name _, .string s =>
    match b.frames with
    | .object members :: frames => some ⟨.member members s :: frames, .colon⟩
    | _ => none
  | .name true, .closeObject => closeObject b.frames
  | .colon, .colon => some ⟨b.frames, .value false⟩
  | .separator, .comma =>
    match b.frames with
    | .array _ :: _ => some ⟨b.frames, .value false⟩
    | .object _ :: _ => some ⟨b.frames, .name false⟩
    | _ => none
  | .separator, .closeArray => closeArray b.frames
  | .separator, .closeObject => closeObject b.frames
  | _, _ => none

/-- The value, if it is complete. -/
def finish (b : Builder) : Option Value :=
  match b.expect with
  | .nothing value => some value
  | _ => none

end Builder

/-- The value that a list of tokens writes. -/
def Value.ofTokens? (tokens : List Token) : Option Value := do
  (← tokens.foldlM Builder.next Builder.start).finish

/-- The value that a text writes. -/
def Value.ofText? (text : String) : Option Value := do
  Value.ofTokens? (← Token.ofText? text)

end MessagePassing.Json
