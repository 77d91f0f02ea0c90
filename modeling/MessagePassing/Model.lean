/-
  Message passing — compiled models.

  Compiling checks a description, in a fixed order, and binds its update functions
  to trained tensors; nothing is built unless every check passes.  A compiled model
  holds the block and, unless it is not wanted, the program that computes the same.
-/
import MessagePassing.Program.Text

namespace MessagePassing

/-- A block under its name, with its program. -/
structure Model where
  name : String
  block : Block
  program : Option Program

namespace Model

/-- The features of the states that the model reads. -/
def inputWidths (m : Model) : Widths := m.block.inputWidths

/-- The features of the states that the model gives. -/
def outputWidths (m : Model) : Widths := m.block.outputWidths

/-- The functions of the model. -/
def describe (m : Model) : String := m.block.describe

/-- One round, for a state of the widths that the model reads. -/
def infer (m : Model) (s : State) : Outcome State := m.block.infer s

/-- Equal names, blocks that are equal as numbers, and the same program text. -/
def agrees (a b : Model) : Bool :=
  a.name == b.name && a.block.agrees b.block &&
    a.program.map Program.text == b.program.map Program.text

end Model

/-! ## Compiling -/

/-- What an update declaration says once its tags are known. -/
structure CheckedUpdate where
  declaration : UpdateDeclaration
  kind : UpdateKind
  activation : Activation

namespace UpdateDeclaration

/-- The tags are known, and there are layers, none without output. -/
def check (u : UpdateDeclaration) : Outcome CheckedUpdate := do
  let kind ← UpdateKind.ofTag u.kind
  let activation ← Activation.ofTag u.activation
  if u.layerSizes = [] then refuseShape (.noLayer u.module)
  else match u.layerSizes.findIdx? (· = 0) with
    | some i => refuseShape (.emptyLayer i u.module)
    | none => pure ⟨u, kind, activation⟩

end UpdateDeclaration

/-- The update function of a declaration, for rows of `input` features. -/
def CheckedUpdate.bind (u : CheckedUpdate) (input : Nat) : Binding Perceptron :=
  match u.kind with
  | .mlp => Perceptron.bind u.declaration.module input u.declaration.layerSizes
      u.declaration.weightLayout u.activation u.declaration.activateFinal

namespace Description

/-- The three update declarations, checked edge first, then node, then global. -/
def checkUpdates (d : Description) : Outcome (PerUpdate CheckedUpdate) := do
  pure ⟨← d.updates.edge.check, ← d.updates.node.check, ← d.updates.global.check⟩

/-- The three reducers. -/
def checkReducers (d : Description) : Outcome (PerRelation Reducer) := do
  pure ⟨← Reducer.ofTag d.reducers.edgeNode, ← Reducer.ofTag d.reducers.nodeGlobal,
    ← Reducer.ofTag d.reducers.edgeGlobal⟩

/-- Every feature width is positive. -/
def checkWidths (d : Description) : Outcome Unit :=
  if d.inputWidths.Positive then .ok () else refuseShape (.zeroWidth d.inputWidths)

/-- The wiring of a network has a block for every update; that of an independent
    model is not used. -/
def checkWiring (d : Description) : Outcome Unit :=
  match d.architecture with
  | .graphNetwork => d.wiring.check
  | .graphIndependent => .ok ()

/-- The update functions, bound in the order edge, node, global. -/
def bindUpdates (updates : PerUpdate CheckedUpdate) (inputs : PerUpdate Nat) :
    Binding (PerUpdate Perceptron) := do
  let edge ← updates.edge.bind inputs.edge
  let node ← updates.node.bind inputs.node
  let global ← updates.global.bind inputs.global
  pure ⟨edge, node, global⟩

/-- The block of the description under a name. -/
def block (d : Description) (name : String) (parameters : Parameters) : Outcome Block := do
  d.checkWidths
  d.checkAdjacency
  let updates ← d.checkUpdates
  let reducers ← d.checkReducers
  d.checkWiring
  let inputs ← d.updateInputWidths
  let bound ← (bindUpdates updates inputs parameters).1
  pure (match d.architecture with
    | .graphNetwork => .network ⟨name, bound, reducers, d.wiring, d.inputWidths⟩
    | .graphIndependent => .independent ⟨name, bound⟩)

/-- The graph of the description. -/
def topology (d : Description) : Topology := ⟨d.nodeCount, d.senders, d.receivers⟩

/-- The program of a block on the graph of the description. -/
def program (d : Description) (name : String) : Block → Program
  | .network b => .ofNetwork name b d.topology
  | .independent b => .ofIndependent name b

/-- The model of the description, with these tensors; `rename` takes the place of
    its name. -/
def compile (d : Description) (parameters : Parameters) (rename : Option String)
    (withProgram : Bool) : Outcome Model := do
  let name := Identifier.ofName (rename.getD d.name)
  let block ← d.block name parameters
  pure ⟨name, block, if withProgram then some (d.program name block) else none⟩

end Description

end MessagePassing
