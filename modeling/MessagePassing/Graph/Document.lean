/-
  Message passing — graph documents.

  A document is the written form of a state: one list of values per node and per
  edge, the global values and the two ends of every edge.  `toState` reads it with
  given widths; `toStateInferred` takes the widths from the first rows, so that an
  entity without rows has no features.
-/
import MessagePassing.Graph.State
import MessagePassing.Json.Decode
import MessagePassing.Json.Text

namespace MessagePassing

/-! ## Widths in JSON -/

/-- Widths as JSON. -/
def Widths.json (w : Widths) : Json.Value :=
  .record [("nodes", .count w.nodes), ("edges", .count w.edges), ("globals", .count w.globals)]

/-- Reads widths; every field has to be given. -/
def Widths.ofJson? : Json.Decoder Widths := fun v => do
  match ← v.fields? ["nodes", "edges", "globals"] with
  | [nodes, edges, globals] =>
    pure ⟨← Json.required Json.Value.count? nodes, ← Json.required Json.Value.count? edges,
      ← Json.required Json.Value.count? globals⟩
  | _ => none

/-! ## Documents -/

/-- A graph as plain lists. -/
structure GraphDocument where
  nodes : List (Array Scalar)
  edges : List (Array Scalar)
  globals : Array Scalar
  senders : Array Nat
  receivers : Array Nat

namespace GraphDocument

/-- The state with these features and the given widths. -/
def toState (d : GraphDocument) (widths : Widths) : Outcome State := do
  let nodes ← Buffer.ofRowsOfWidth d.nodes widths.nodes
  let edges ← Buffer.ofRowsOfWidth d.edges widths.edges
  let globals ← Buffer.ofFlat d.globals 1 widths.globals
  State.ofParts nodes edges globals d.senders d.receivers

/-- The state with these features, as wide as the first rows. -/
def toStateInferred (d : GraphDocument) : Outcome State := do
  let nodes ← Buffer.ofRows d.nodes
  let edges ← Buffer.ofRows d.edges
  let globals ← Buffer.ofFlat d.globals 1 d.globals.size
  State.ofParts nodes edges globals d.senders d.receivers

/-- The document of a state. -/
def ofState (s : State) : GraphDocument :=
  ⟨s.nodes.rowList, s.edges.rowList, s.globals.data, s.senders, s.receivers⟩

/-! ## JSON -/

/-- The document as JSON. -/
def json (d : GraphDocument) : Json.Value :=
  .record [
    ("nodes", .array (d.nodes.map .scalars)),
    ("edges", .array (d.edges.map .scalars)),
    ("globals", .scalars d.globals),
    ("senders", .counts d.senders.toList),
    ("receivers", .counts d.receivers.toList)]

/-- Reads a document; every field has to be given. -/
def ofJson? : Json.Decoder GraphDocument := fun v => do
  let fields ← v.fields? ["nodes", "edges", "globals", "senders", "receivers"]
  match fields with
  | [nodes, edges, globals, senders, receivers] =>
    pure
      { nodes := ← Json.required (Json.Value.list? Json.Value.scalars?) nodes
        edges := ← Json.required (Json.Value.list? Json.Value.scalars?) edges
        globals := ← Json.required Json.Value.scalars? globals
        senders := (← Json.required (Json.Value.list? Json.Value.count?) senders).toArray
        receivers := (← Json.required (Json.Value.list? Json.Value.count?) receivers).toArray }
  | _ => none

/-- Reads the text of a document. -/
def ofText? (text : String) : Option GraphDocument := do
  ofJson? (← Json.Value.ofText? text)

end GraphDocument

end MessagePassing
