/-
  Message passing — standalone programs.

  A program computes what a block computes, on flat row-major arrays and without
  this library: topology, widths and weights are constants in it.  Its entry point
  is a list of steps, which this module has as data: `Program.text` writes them and
  `Program.run?` says what they compute.  `Program.ofNetwork` and
  `Program.ofIndependent` make programs from blocks; several programs can be inlined
  in one as its modules.
-/
import MessagePassing.Block

namespace MessagePassing

/-! ## Steps -/

/-- A flat array that a step reads. -/
inductive DataName where
  /-- The features of a kind of entity. -/
  | own (entity : Entity)
  /-- The reduced rows of the edges that reach each node. -/
  | received
  | nodeSummary
  | edgeSummary
  deriving DecidableEq, Repr

/-- A number of rows that a program with a topology knows. -/
inductive RowCount where
  | nodes
  | edges
  | single
  deriving DecidableEq, Repr

/-- A list of row indices that a program with a topology knows. -/
inductive IndexName where
  | senders
  | receivers
  /-- Row zero, once per row. -/
  | first (count : RowCount)
  deriving DecidableEq, Repr

/-- A part of an update function's input: an array of rows of `width` values, or
    the rows that an index picks from it. -/
structure Operand where
  data : DataName
  width : Nat
  index : Option IndexName
  deriving DecidableEq, Repr

/-- A step of an entry point. -/
inductive Step where
  /-- Put parts side by side, as the input of an update function. -/
  | join (entity : Entity) (parts : List Operand) (rows : RowCount)
  /-- Replace the features of a kind of entity by what its update function makes of
      its input. -/
  | update (entity : Entity) (rows : RowCount)
  /-- Replace the features of a kind of entity, rows of `width` values, by what its
      update function makes of them. -/
  | updateOwn (entity : Entity) (width : Nat)
  /-- Add up the rows of `width` values that have the same index; with `mean`, divide
      each sum by its number of rows. -/
  | reduce (result source : DataName) (width : Nat) (index : IndexName) (segments : RowCount)
      (mean : Bool)
  deriving DecidableEq, Repr

/-! ## Programs -/

/-- The graph that a program is for. -/
structure Topology where
  nodeCount : Nat
  senders : Array Nat
  receivers : Array Nat
  deriving DecidableEq, Repr

/-- A program for one block. -/
structure Program where
  name : String
  /-- The graph, for the program of a network. -/
  topology : Option Topology
  steps : List Step
  updates : PerUpdate Perceptron

/-- A program that runs others in order.  Each comes with its module name. -/
structure StackProgram where
  name : String
  members : List (String × Program)

namespace Program

/-- A part of the edge update's input. -/
def edgeOperand (w : Widths) : EdgeInput → Operand
  | .edges => ⟨.own .edges, w.edges, none⟩
  | .senders => ⟨.own .nodes, w.nodes, some .senders⟩
  | .receivers => ⟨.own .nodes, w.nodes, some .receivers⟩
  | .globals => ⟨.own .globals, w.globals, some (.first .edges)⟩

/-- A part of the node update's input. -/
def nodeOperand (w : Widths) (edgeOut : Nat) : NodeInput → Operand
  | .nodes => ⟨.own .nodes, w.nodes, none⟩
  | .receivedEdges => ⟨.received, edgeOut, none⟩
  | .globals => ⟨.own .globals, w.globals, some (.first .nodes)⟩

/-- A part of the global update's input. -/
def globalOperand (w : Widths) (nodeOut edgeOut : Nat) : GlobalInput → Operand
  | .globals => ⟨.own .globals, w.globals, none⟩
  | .nodes => ⟨.nodeSummary, nodeOut, none⟩
  | .edges => ⟨.edgeSummary, edgeOut, none⟩

/-- The reducer divides by the number of rows. -/
def isMean (r : Reducer) : Bool := r == .mean

/-- One round of a network. -/
def networkSteps (n : Network) : List Step :=
  let w := n.inputWidths
  let edgeOut := n.updates.edge.outputWidth
  let nodeOut := n.updates.node.outputWidth
  [.join .edges (n.wiring.edge.map (edgeOperand w)) .edges,
    .update .edges .edges,
    .reduce .received (.own .edges) edgeOut .receivers .nodes (isMean n.reducers.edgeNode),
    .join .nodes (n.wiring.node.map (nodeOperand w edgeOut)) .nodes,
    .update .nodes .nodes,
    .reduce .nodeSummary (.own .nodes) nodeOut (.first .nodes) .single
      (isMean n.reducers.nodeGlobal),
    .reduce .edgeSummary (.own .edges) edgeOut (.first .edges) .single
      (isMean n.reducers.edgeGlobal),
    .join .globals (n.wiring.global.map (globalOperand w nodeOut edgeOut)) .single,
    .update .globals .single]

/-- One round of an independent block. -/
def independentSteps (b : Independent) : List Step :=
  [.updateOwn .edges b.inputWidths.edges, .updateOwn .nodes b.inputWidths.nodes,
    .updateOwn .globals b.inputWidths.globals]

/-- The program of a network on a graph. -/
def ofNetwork (name : String) (n : Network) (topology : Topology) : Program :=
  ⟨name, some topology, networkSteps n, n.updates⟩

/-- The program of an independent block. -/
def ofIndependent (name : String) (b : Independent) : Program :=
  ⟨name, none, independentSteps b, b.updates⟩

end Program

/-- The module names of members: a name that is taken gets the member's position. -/
def moduleNames (members : List Program) : List String :=
  members.zipIdx.foldl (fun names (member, i) =>
    names ++ [if names.contains member.name then s!"{member.name}_{i}" else member.name]) []

/-- A program that runs others in order. -/
def StackProgram.ofMembers (name : String) (members : List Program) : StackProgram :=
  ⟨name, (moduleNames members).zip members⟩

end MessagePassing
