/-
  Message passing — model descriptions.

  A description names the topology, the feature widths, the update functions, the
  reducers and the wiring of a model.  Functions are named by tags, which compiling
  checks; a description itself can hold any tags and any counts.  `json` and
  `ofJson?` are its written form, in which all but the essential fields may be
  left out.
-/
import MessagePassing.Activation
import MessagePassing.Description.Entity
import MessagePassing.Description.Identifier
import MessagePassing.Description.Wiring
import MessagePassing.Graph.State
import MessagePassing.Update.Parameters

namespace MessagePassing

/-! ## Tags -/

/-- The two kinds of model. -/
inductive Architecture where
  /-- Edges, nodes and the global row are updated from one another. -/
  | graphNetwork
  /-- Every entity is updated from its own features. -/
  | graphIndependent
  deriving DecidableEq, Repr

instance : Tagged Architecture where
  values := [.graphNetwork, .graphIndependent]
  tag
    | .graphNetwork => "graph_network"
    | .graphIndependent => "graph_independent"

/-- The kinds of update function. -/
inductive UpdateKind where
  | mlp
  deriving DecidableEq, Repr

namespace UpdateKind

instance : Tagged UpdateKind where
  values := [mlp]
  tag
    | mlp => "mlp"

/-- The kind that a description names. -/
def ofTag (tag : String) : Outcome UpdateKind :=
  match Tagged.ofTag? tag with
  | some kind => .ok kind
  | none => refuseTag (.updateFunction tag)

end UpdateKind

/-! ## Descriptions -/

/-- The declaration of one update function. -/
structure UpdateDeclaration where
  /-- The tag of its kind. -/
  kind : String
  /-- The module under which its tensors are named. -/
  module : String
  /-- The output width of every layer. -/
  layerSizes : List Nat
  /-- The tag of its activation. -/
  activation : String
  activateFinal : Bool
  weightLayout : WeightLayout
  deriving DecidableEq, Repr

namespace UpdateDeclaration

/-- A perceptron with the default activation and weight layout. -/
def perceptron (module : String) (layerSizes : List Nat) : UpdateDeclaration :=
  ⟨Tagged.tag UpdateKind.mlp, module, layerSizes, "relu", false, .inOut⟩

/-- The width of the rows that the function gives, if it declares a layer. -/
def outputWidth? (u : UpdateDeclaration) : Option Nat := u.layerSizes.getLast?

/-- The width of the rows that the function gives; zero without layers. -/
def outputWidth (u : UpdateDeclaration) : Nat := u.outputWidth?.getD 0

end UpdateDeclaration

/-- The description of a model. -/
structure Description where
  name : String
  architecture : Architecture
  nodeCount : Nat
  /-- Sender and receiver of every edge. -/
  edges : List (Nat × Nat)
  /-- The features of the graphs that the model reads. -/
  inputWidths : Widths
  updates : PerUpdate UpdateDeclaration
  /-- The tags of the reducers. -/
  reducers : PerRelation String
  wiring : Wiring
  deriving DecidableEq, Repr

namespace Description

/-- The reducer where none is declared. -/
def defaultReducer : String := "sum"

/-- A description with sums as reducers and the full wiring. -/
def ofParts (name : String) (architecture : Architecture) (nodeCount : Nat)
    (edges : List (Nat × Nat)) (inputWidths : Widths) (updates : PerUpdate UpdateDeclaration) :
    Description :=
  ⟨name, architecture, nodeCount, edges, inputWidths, updates,
    ⟨defaultReducer, defaultReducer, defaultReducer⟩, .full⟩

/-- The name of the program for this model. -/
def identifier (d : Description) : String := Identifier.ofName d.name

/-- The features of the graphs that the model gives. -/
def outputWidths (d : Description) : Widths :=
  ⟨d.updates.node.outputWidth, d.updates.edge.outputWidth, d.updates.global.outputWidth⟩

/-- The widths of the rows that the update functions read. -/
def updateInputWidths (d : Description) : Outcome (PerUpdate Nat) :=
  match d.architecture with
  | .graphIndependent =>
    .ok ⟨d.inputWidths.edges, d.inputWidths.nodes, d.inputWidths.globals⟩
  | .graphNetwork => do
    let edgeOut := d.updates.edge.outputWidth
    let nodeOut := d.updates.node.outputWidth
    pure ⟨← d.wiring.edgeWidth d.inputWidths, ← d.wiring.nodeWidth d.inputWidths edgeOut,
      ← d.wiring.globalWidth d.inputWidths nodeOut edgeOut⟩

/-- The node that each edge leaves. -/
def senders (d : Description) : Array Nat := (d.edges.map (·.1)).toArray

/-- The node that each edge reaches. -/
def receivers (d : Description) : Array Nat := (d.edges.map (·.2)).toArray

/-- Every edge ends at nodes. -/
def checkAdjacency (d : Description) : Outcome Unit :=
  MessagePassing.checkAdjacency d.nodeCount d.senders d.receivers

/-- Zero features on the graph of the description. -/
def emptyState (d : Description) : Outcome State :=
  State.zeros d.nodeCount d.edges d.inputWidths

end Description

/-! ## JSON -/

namespace UpdateDeclaration

/-- The declaration as JSON. -/
def json (u : UpdateDeclaration) : Json.Value :=
  .record [
    ("kind", .text u.kind),
    ("module", .text u.module),
    ("layer_sizes", .counts u.layerSizes),
    ("activation", .text u.activation),
    ("activate_final", .bool u.activateFinal),
    ("weight_layout", Tagged.json u.weightLayout)]

/-- Reads a declaration; its kind and its module have to be given. -/
def ofJson? : Json.Decoder UpdateDeclaration := fun v => do
  let fields ← v.fields?
    ["kind", "module", "layer_sizes", "activation", "activate_final", "weight_layout"]
  match fields with
  | [kind, module, layerSizes, activation, activateFinal, weightLayout] =>
    pure
      { kind := ← Json.required Json.Value.text? kind
        module := ← Json.required Json.Value.text? module
        layerSizes := ← Json.optional [] (Json.Value.list? Json.Value.count?) layerSizes
        activation := ← Json.optional "relu" Json.Value.text? activation
        activateFinal := ← Json.optional false Json.Value.bool? activateFinal
        weightLayout := ← Json.optional .inOut Tagged.ofJson? weightLayout }
  | _ => none

end UpdateDeclaration

namespace Description

/-- A reducer as JSON. -/
def reducerJson (tag : String) : Json.Value := .record [("kind", .text tag)]

/-- Reads a reducer; where it is given, its kind has to be. -/
def reducerOfJson? : Json.Decoder String := fun v => do
  match ← v.fields? ["kind"] with
  | [kind] => Json.required Json.Value.text? kind
  | _ => none

/-- Sender and receiver of an edge as JSON. -/
def edgeJson (edge : Nat × Nat) : Json.Value := .counts [edge.1, edge.2]

/-- The description as JSON. -/
def json (d : Description) : Json.Value :=
  .record [
    ("name", .text d.name),
    ("architecture", Tagged.json d.architecture),
    ("num_nodes", .count d.nodeCount),
    ("edges", .array (d.edges.map edgeJson)),
    ("node_features", .count d.inputWidths.nodes),
    ("edge_features", .count d.inputWidths.edges),
    ("global_features", .count d.inputWidths.globals),
    ("edge_update", d.updates.edge.json),
    ("node_update", d.updates.node.json),
    ("global_update", d.updates.global.json),
    ("edge_node_aggregate", reducerJson d.reducers.edgeNode),
    ("node_global_aggregate", reducerJson d.reducers.nodeGlobal),
    ("edge_global_aggregate", reducerJson d.reducers.edgeGlobal),
    ("inputs", d.wiring.json)]

/-- The fields of a description, in declared order. -/
def fieldNames : List String :=
  ["name", "architecture", "num_nodes", "edges", "node_features", "edge_features",
    "global_features", "edge_update", "node_update", "global_update", "edge_node_aggregate",
    "node_global_aggregate", "edge_global_aggregate", "inputs"]

/-- Reads a description; architecture, edges, reducers and wiring may be left out. -/
def ofJson? : Json.Decoder Description := fun v => do
  let reducer := Json.optional defaultReducer reducerOfJson?
  let count := Json.required Json.Value.count?
  let update := Json.required UpdateDeclaration.ofJson?
  let edge := Json.Value.pair? Json.Value.count? Json.Value.count?
  match ← v.fields? fieldNames with
  | [name, architecture, nodeCount, edges, nodeFeatures, edgeFeatures, globalFeatures,
      edgeUpdate, nodeUpdate, globalUpdate, edgeNode, nodeGlobal, edgeGlobal, wiring] =>
    pure
      { name := ← Json.required Json.Value.text? name
        architecture := ← Json.optional .graphNetwork Tagged.ofJson? architecture
        nodeCount := ← count nodeCount
        edges := ← Json.optional [] (Json.Value.list? edge) edges
        inputWidths := ⟨← count nodeFeatures, ← count edgeFeatures, ← count globalFeatures⟩
        updates := ⟨← update edgeUpdate, ← update nodeUpdate, ← update globalUpdate⟩
        reducers := ⟨← reducer edgeNode, ← reducer nodeGlobal, ← reducer edgeGlobal⟩
        wiring := ← Json.optional .full Wiring.ofJson? wiring }
  | _ => none

/-- Reads the text of a description. -/
def ofText? (text : String) : Option Description := do
  ofJson? (← Json.Value.ofText? text)

end Description

end MessagePassing
