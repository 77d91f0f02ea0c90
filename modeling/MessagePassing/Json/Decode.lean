/-
  Message passing — what a JSON value stands for.

  A decoder gives the meaning of a value, or `none` where the value does not have
  the form.  A record may come as an object, whose unknown members are skipped, or
  as an array of its fields in declared order; `Value.fields?` gives both the same
  form: one optional value per declared field.
-/
import MessagePassing.Json.Parse
import MessagePassing.Decimal.Reading

namespace MessagePassing.Json

/-- A decoder. -/
abbrev Decoder (α : Type) := Value → Option α

namespace Value

/-- A truth value. -/
def bool? : Decoder Bool
  | .bool b => some b
  | _ => none

/-- A string with a text. -/
def text? : Decoder String
  | .string s => s
  | _ => none

/-- A count: a literal without sign, point and exponent that fits 64 bits. -/
def count? : Decoder Nat
  | .number l => l.toNat?.filter (· < Count.limit)
  | _ => none

/-- A scalar: any number that does not overflow. -/
def scalar? : Decoder Scalar
  | .number l => l.toScalar?
  | _ => none

/-- An array of anything that `decode` reads. -/
def list? {α : Type} (decode : Decoder α) : Decoder (List α)
  | .array items => items.mapM decode
  | _ => none

/-- A flat list of scalars. -/
def scalars? (v : Value) : Option (Array Scalar) := (v.list? scalar?).map List.toArray

/-- An array of exactly two. -/
def pair? {α β : Type} (first : Decoder α) (second : Decoder β) : Decoder (α × β)
  | .array [a, b] => do pure (← first a, ← second b)
  | _ => none

/-- The members of an object whose names all have a text. -/
def namedMembers? : List (Option String × Value) → Option (List (String × Value)) :=
  List.mapM fun (name, value) => name.map fun n => (n, value)

/-- The members of a map, in order. -/
def members? : Decoder (List (String × Value))
  | .object members => namedMembers? members
  | _ => none

/-- The value of one field of an object; a field given twice is an error, here the
    outer `none`. -/
def field? (members : List (String × Value)) (name : String) : Option (Option Value) :=
  match members.filter (·.1 = name) with
  | [] => some none
  | [(_, value)] => some (some value)
  | _ => none

/-- The fields of a record, one optional value per name. -/
def fields? (names : List String) : Decoder (List (Option Value))
  | .object members => do
    let members ← namedMembers? members
    names.mapM (field? members)
  | .array items =>
    if items.length ≤ names.length then
      some (items.map some ++ List.replicate (names.length - items.length) none)
    else none
  | _ => none

end Value

/-- A field that has to be given. -/
def required {α : Type} (decode : Decoder α) (field : Option Value) : Option α :=
  field.bind decode

/-- A field that stands for `default` where it is absent. -/
def optional {α : Type} (default : α) (decode : Decoder α) (field : Option Value) : Option α :=
  match field with
  | none => some default
  | some value => decode value

end MessagePassing.Json
