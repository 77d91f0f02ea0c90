/-
  Message passing — blocks.

  A block gives a state new features and keeps its graph.  One round of a
  `Network` updates the edges from their ends, then the nodes from the edges that
  reach them, then the global row from everything.  An `Independent` block updates
  every row from itself.
-/
import MessagePassing.Description.Basic
import MessagePassing.Reducer
import MessagePassing.Update.Perceptron

namespace MessagePassing

open Buffer (Table)

/-- The widths that three update functions give. -/
def PerUpdate.outputWidths (updates : PerUpdate Perceptron) : Widths :=
  ⟨updates.node.outputWidth, updates.edge.outputWidth, updates.global.outputWidth⟩

/-! ## Graph networks -/

/-- A block in which edges, nodes and the global row are updated from one another. -/
structure Network where
  name : String
  updates : PerUpdate Perceptron
  reducers : PerRelation Reducer
  wiring : Wiring
  /-- The features of the states that the block reads. -/
  inputWidths : Widths

namespace Network

/-- A block of the edge update's input, one row per edge. -/
def edgeBlock (s : State) : EdgeInput → Outcome (Table s.edges.rows)
  | .edges => .ok s.edges.table
  | .senders => s.senderRows
  | .receivers => s.receiverRows
  | .globals => Buffer.broadcast s.globalTable s.edges.rows

/-- A block of the node update's input, one row per node. -/
def nodeBlock (s : State) (received : Table s.nodes.rows) :
    NodeInput → Outcome (Table s.nodes.rows)
  | .nodes => .ok s.nodes.table
  | .receivedEdges => .ok received
  | .globals => Buffer.broadcast s.globalTable s.nodes.rows

/-- A block of the global update's input, a single row. -/
def globalBlock (s : State) (nodeSummary edgeSummary : Table 1) : GlobalInput → Table 1
  | .globals => s.globalTable
  | .nodes => nodeSummary
  | .edges => edgeSummary

/-- New features for the edges. -/
def updateEdges (n : Network) (s : State) : Outcome State := do
  let blocks ← n.wiring.edge.mapM (edgeBlock s)
  let edges ← n.updates.edge.apply (← Buffer.sideBySide blocks)
  pure (s.withEdges edges)

/-- New features for the nodes, from the edges as they are now. -/
def updateNodes (n : Network) (s : State) : Outcome State := do
  let received ← n.reducers.edgeNode.reduce s.edges s.receivers s.nodes.rows
  let blocks ← n.wiring.node.mapM (nodeBlock s received)
  let nodes ← n.updates.node.apply (← Buffer.sideBySide blocks)
  pure (s.withNodes nodes)

/-- A new global row, from the nodes and edges as they are now. -/
def updateGlobals (n : Network) (s : State) : Outcome State := do
  let nodeSummary ← n.reducers.nodeGlobal.reduceAll s.nodes
  let edgeSummary ← n.reducers.edgeGlobal.reduceAll s.edges
  let blocks := n.wiring.global.map (globalBlock s nodeSummary edgeSummary)
  let globals ← n.updates.global.apply (← Buffer.sideBySide blocks)
  pure (s.withGlobals globals)

/-- One round. -/
def infer (n : Network) (s : State) : Outcome State := do
  n.updateGlobals (← n.updateNodes (← n.updateEdges s))

/-- The functions of the block, in the order in which they run. -/
def describe (n : Network) : String :=
  let reduction (relation : Relation) (reducer : Reducer) : String :=
    relation.describe ++ " " ++ Tagged.tag reducer
  let edges := n.updates.edge.describe
  let received := reduction .edgesToNodes n.reducers.edgeNode
  let nodes := n.updates.node.describe
  let nodeSummary := reduction .nodesToGlobals n.reducers.nodeGlobal
  let edgeSummary := reduction .edgesToGlobals n.reducers.edgeGlobal
  let globals := n.updates.global.describe
  s!"GraphNetwork {n.name}: edges {edges} | {received} | nodes {nodes} | " ++
    s!"{nodeSummary}, {edgeSummary} | globals {globals}"

/-- The same block, up to functions that are equal as numbers. -/
def agrees (a b : Network) : Bool :=
  a.name == b.name && a.updates.all₂ Perceptron.agrees b.updates &&
    a.reducers == b.reducers && a.wiring == b.wiring && a.inputWidths == b.inputWidths

end Network

/-! ## Independent blocks -/

/-- A block in which every entity is updated from its own features. -/
structure Independent where
  name : String
  updates : PerUpdate Perceptron

namespace Independent

/-- The features of the states that the block reads. -/
def inputWidths (b : Independent) : Widths :=
  ⟨b.updates.node.inputWidth, b.updates.edge.inputWidth, b.updates.global.inputWidth⟩

/-- One round. -/
def infer (b : Independent) (s : State) : Outcome State := do
  let edges ← b.updates.edge.apply s.edges.table
  let nodes ← b.updates.node.apply s.nodes.table
  let globals ← b.updates.global.apply s.globalTable
  pure (s.withFeatures nodes edges globals)

/-- The functions of the block. -/
def describe (b : Independent) : String :=
  let edges := b.updates.edge.describe
  let nodes := b.updates.node.describe
  let globals := b.updates.global.describe
  s!"GraphIndependent {b.name}: edges {edges} | nodes {nodes} | globals {globals}"

/-- The same block, up to functions that are equal as numbers. -/
def agrees (a b : Independent) : Bool :=
  a.name == b.name && a.updates.all₂ Perceptron.agrees b.updates

end Independent

/-! ## Blocks -/

/-- A block of either architecture. -/
inductive Block where
  | network (block : Network)
  | independent (block : Independent)

namespace Block

/-- The name of the block. -/
def name : Block → String
  | network b => b.name
  | independent b => b.name

/-- The architecture of the block. -/
def architecture : Block → Architecture
  | network _ => .graphNetwork
  | independent _ => .graphIndependent

/-- The update functions of the block. -/
def updates : Block → PerUpdate Perceptron
  | network b => b.updates
  | independent b => b.updates

/-- The features of the states that the block reads. -/
def inputWidths : Block → Widths
  | network b => b.inputWidths
  | independent b => b.inputWidths

/-- The features of the states that the block gives. -/
def outputWidths (b : Block) : Widths := b.updates.outputWidths

/-- One round, for a state of the widths that the block reads. -/
def infer : Block → State → Outcome State
  | network b, s => b.infer s
  | independent b, s => b.infer s

/-- The functions of the block. -/
def describe : Block → String
  | network b => b.describe
  | independent b => b.describe

/-- The same block, up to functions that are equal as numbers. -/
def agrees : Block → Block → Bool
  | network a, network b => a.agrees b
  | independent a, independent b => a.agrees b
  | _, _ => false

end Block

end MessagePassing
