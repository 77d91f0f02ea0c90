/-
  Message passing — what feeds the update functions.

  In a graph network each update function reads a row put together from feature
  blocks.  A `Wiring` lists the blocks of the edge, node and global update, and
  its `edgeWidth`, `nodeWidth` and `globalWidth` are the widths of these rows.
-/
import MessagePassing.Count
import MessagePassing.Json.Text
import MessagePassing.Tagged

namespace MessagePassing

/-- A block of the edge update's input. -/
inductive EdgeInput where
  /-- The edge itself. -/
  | edges
  /-- The node that the edge leaves. -/
  | senders
  /-- The node that the edge reaches. -/
  | receivers
  /-- The global row. -/
  | globals
  deriving DecidableEq, Repr

/-- A block of the node update's input. -/
inductive NodeInput where
  /-- The node itself. -/
  | nodes
  /-- The reduced rows of the edges that reach the node. -/
  | receivedEdges
  /-- The global row. -/
  | globals
  deriving DecidableEq, Repr

/-- A block of the global update's input. -/
inductive GlobalInput where
  /-- The global row itself. -/
  | globals
  /-- All node rows, reduced. -/
  | nodes
  /-- All edge rows, reduced. -/
  | edges
  deriving DecidableEq, Repr

instance : Tagged EdgeInput where
  values := [.edges, .senders, .receivers, .globals]
  tag
    | .edges => "edges"
    | .senders => "senders"
    | .receivers => "receivers"
    | .globals => "globals"

instance : Tagged NodeInput where
  values := [.nodes, .receivedEdges, .globals]
  tag
    | .nodes => "nodes"
    | .receivedEdges => "received_edges"
    | .globals => "globals"

instance : Tagged GlobalInput where
  values := [.globals, .nodes, .edges]
  tag
    | .globals => "globals"
    | .nodes => "nodes"
    | .edges => "edges"

/-- The input blocks of the three update functions, in the order in which they are
    put side by side. -/
structure Wiring where
  edge : List EdgeInput
  node : List NodeInput
  global : List GlobalInput
  deriving DecidableEq, Repr

namespace Wiring

/-- Every update function sees everything near it. -/
def full : Wiring :=
  ⟨[.edges, .senders, .receivers, .globals], [.nodes, .receivedEdges, .globals],
    [.globals, .nodes, .edges]⟩

/-- Every update function sees its own entity only. -/
def ownFeatures : Wiring := ⟨[.edges], [.nodes], [.globals]⟩

/-- The width of a block of the edge update's input. -/
def edgeBlock (w : Widths) : EdgeInput → Nat
  | .edges => w.edges
  | .senders => w.nodes
  | .receivers => w.nodes
  | .globals => w.globals

/-- The width of a block of the node update's input, for updated edges of `edgeOut`
    features. -/
def nodeBlock (w : Widths) (edgeOut : Nat) : NodeInput → Nat
  | .nodes => w.nodes
  | .receivedEdges => edgeOut
  | .globals => w.globals

/-- The width of a block of the global update's input, for updated nodes and edges of
    `nodeOut` and `edgeOut` features. -/
def globalBlock (w : Widths) (nodeOut edgeOut : Nat) : GlobalInput → Nat
  | .globals => w.globals
  | .nodes => nodeOut
  | .edges => edgeOut

/-- The width of the edge update's input. -/
def edgeWidth (wiring : Wiring) (w : Widths) : Outcome Nat :=
  Count.sum (wiring.edge.map (edgeBlock w))

/-- The width of the node update's input. -/
def nodeWidth (wiring : Wiring) (w : Widths) (edgeOut : Nat) : Outcome Nat :=
  Count.sum (wiring.node.map (nodeBlock w edgeOut))

/-- The width of the global update's input. -/
def globalWidth (wiring : Wiring) (w : Widths) (nodeOut edgeOut : Nat) : Outcome Nat :=
  Count.sum (wiring.global.map (globalBlock w nodeOut edgeOut))

/-- Every update function has an input block. -/
def check (wiring : Wiring) : Outcome Unit :=
  if wiring.edge = [] ∨ wiring.node = [] ∨ wiring.global = [] then refuseShape .noInputBlock
  else .ok ()

/-! ## JSON -/

/-- The wiring as JSON. -/
def json (wiring : Wiring) : Json.Value :=
  .record [
    ("edge", .array (wiring.edge.map Tagged.json)),
    ("node", .array (wiring.node.map Tagged.json)),
    ("global", .array (wiring.global.map Tagged.json))]

/-- Reads a wiring; every list has to be given. -/
def ofJson? : Json.Decoder Wiring := fun v => do
  match ← v.fields? ["edge", "node", "global"] with
  | [edge, node, global] =>
    pure
      { edge := ← Json.required (Json.Value.list? Tagged.ofJson?) edge
        node := ← Json.required (Json.Value.list? Tagged.ofJson?) node
        global := ← Json.required (Json.Value.list? Tagged.ofJson?) global }
  | _ => none

end Wiring

end MessagePassing
