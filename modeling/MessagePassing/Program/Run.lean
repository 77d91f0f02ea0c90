/-
  Message passing — running programs.

  `Program.run?` is what the entry point of a program does to three flat arrays: its
  steps in order, each built from the helper functions and the constants of the
  program.  It gives `none` where a helper reads outside of an array, where a width
  to divide by is zero, or where a step names what the program does not have.
-/
import MessagePassing.Program.Basic
import MessagePassing.Program.Flat

namespace MessagePassing

/-! ## Features -/

/-- The features of a graph as flat row-major arrays. -/
@[ext]
structure Features where
  nodes : Array Scalar
  edges : Array Scalar
  globals : Array Scalar
  deriving DecidableEq

/-- The features of a state. -/
def State.features (s : State) : Features := ⟨s.nodes.data, s.edges.data, s.globals.data⟩

namespace Features

/-- The array of a kind of entity. -/
def get (f : Features) : Entity → Array Scalar
  | .nodes => f.nodes
  | .edges => f.edges
  | .globals => f.globals

/-- Replace the array of a kind of entity. -/
def set (f : Features) (values : Array Scalar) : Entity → Features
  | .nodes => { f with nodes := values }
  | .edges => { f with edges := values }
  | .globals => { f with globals := values }

end Features

/-! ## Memory -/

/-- What an entry point has computed so far. -/
structure Memory where
  features : Features
  /-- The input that was put together last for each update function. -/
  inputs : Entity → Option (Array Scalar)
  received : Option (Array Scalar)
  nodeSummary : Option (Array Scalar)
  edgeSummary : Option (Array Scalar)

namespace Memory

/-- The memory before the first step. -/
def start (features : Features) : Memory := ⟨features, fun _ => none, none, none, none⟩

/-- The array of a name. -/
def read? (m : Memory) : DataName → Option (Array Scalar)
  | .own entity => some (m.features.get entity)
  | .received => m.received
  | .nodeSummary => m.nodeSummary
  | .edgeSummary => m.edgeSummary

/-- Store an array under a name. -/
def write (m : Memory) (values : Array Scalar) : DataName → Memory
  | .own entity => { m with features := m.features.set values entity }
  | .received => { m with received := some values }
  | .nodeSummary => { m with nodeSummary := some values }
  | .edgeSummary => { m with edgeSummary := some values }

/-- Store the input of an update function. -/
def writeInput (m : Memory) (entity : Entity) (values : Array Scalar) : Memory :=
  { m with inputs := fun e => if e = entity then some values else m.inputs e }

end Memory

/-! ## Constants -/

/-- The number that a program knows under a name. -/
def Topology.rowCount (t : Topology) : RowCount → Nat
  | .nodes => t.nodeCount
  | .edges => t.senders.size
  | .single => 1

/-- The indices that a program knows under a name. -/
def Topology.indices (t : Topology) : IndexName → Array Nat
  | .senders => t.senders
  | .receivers => t.receivers
  | .first count => Array.replicate (t.rowCount count) 0

/-! ## Steps -/

/-- A part of an input, with its width. -/
def Operand.read? (o : Operand) (t : Topology) (m : Memory) : Option (Array Scalar × Nat) := do
  let data ← m.read? o.data
  match o.index with
  | none => pure (data, o.width)
  | some index => pure (← Flat.gather? data o.width (t.indices index), o.width)

/-- What a layer is followed by. -/
def Activation.onFlat : Activation → Array Scalar → Array Scalar
  | identity, values => values
  | relu, values => Flat.relu values
  | sigmoid, values => Flat.sigmoid values

/-- Layer `i` of an update function, with what follows it. -/
def Perceptron.flatLayer? (p : Perceptron) (rows : Nat) (values : Array Scalar) (d : Dense)
    (i : Nat) : Option (Array Scalar) := do
  let next ← Flat.dense? values rows d.input d.output d.weight d.bias
  pure (if p.activatesAfter i then p.activation.onFlat next else next)

/-- An update function on `rows` rows. -/
def Perceptron.onFlat? (p : Perceptron) (values : Array Scalar) (rows : Nat) :
    Option (Array Scalar) :=
  p.layers.zipIdx.foldlM (fun h (d, i) => p.flatLayer? rows h d i) values

namespace Program

/-- One step. -/
def step? (p : Program) (m : Memory) : Step → Option Memory
  | .join entity parts rows => do
    let t ← p.topology
    let parts ← parts.mapM fun o => o.read? t m
    pure (m.writeInput entity (← Flat.concat? parts (t.rowCount rows)))
  | .update entity rows => do
    let t ← p.topology
    let values ← (p.updates.get entity).onFlat? (← m.inputs entity) (t.rowCount rows)
    pure (m.write values (.own entity))
  | .updateOwn entity width => do
    let own := m.features.get entity
    if width = 0 then none
    else pure (m.write (← (p.updates.get entity).onFlat? own (own.size / width)) (.own entity))
  | .reduce result source width index segments mean => do
    let t ← p.topology
    let rows ← m.read? source
    pure (m.write (← Flat.segmentReduce? rows width (t.indices index) (t.rowCount segments) mean)
      result)

/-- The features after the steps of a program. -/
def run? (p : Program) (f : Features) : Option Features := do
  pure (← p.steps.foldlM p.step? (Memory.start f)).features

end Program

/-- The features after every member of a program that runs others. -/
def StackProgram.run? (p : StackProgram) (f : Features) : Option Features :=
  p.members.foldlM (fun f (_, member) => member.run? f) f

end MessagePassing
