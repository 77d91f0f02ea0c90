/-
  Message passing — sessions.

  A session is what a program holds: a list of states.  A call makes a state from plain data,
  derives new ones from a held state, or runs a model on a held state in place; new states are
  held after the others.  Inference in place writes one kind of features after the other, so
  that a failure in between leaves what is written by then.
-/
import MessagePassing.Graph.Document
import MessagePassing.Pipeline

namespace MessagePassing

/-! ## Inference in place -/

namespace Independent

/-- New features for the edges, each from its own. -/
def updateEdges (b : Independent) (s : State) : Outcome State := do
  pure (s.withEdges (← b.updates.edge.apply s.edges.table))

/-- New features for the nodes; the edges are not read. -/
def updateNodes (b : Independent) (s : State) : Outcome State := do
  pure (s.withNodes (← b.updates.node.apply s.nodes.table))

/-- New features for the graph, from its own alone. -/
def updateGlobals (b : Independent) (s : State) : Outcome State := do
  pure (s.withGlobals (← b.updates.global.apply s.globalTable))

end Independent

/-- The writes of a round, in order. -/
def Block.writes : Block → List (State → Outcome State)
  | network n => [n.updateEdges, n.updateNodes, n.updateGlobals]
  | independent b => [b.updateEdges, b.updateNodes, b.updateGlobals]

/-- The writes of a component, in order. -/
def Component.writes : Component → List (State → Outcome State)
  | model m => m.block.writes
  | stack s => s.models.flatMap fun m => m.block.writes

/-- A state after writes in place, up to the first one that fails. -/
def State.rewrite (s : State) : List (State → Outcome State) → State × Option Failure
  | [] => (s, none)
  | write :: rest =>
    match write s with
    | .ok t => t.rewrite rest
    | .error failure => (s, some failure)

/-- Run in place on any state; other widths than those that the component reads are refused. -/
def Component.inferInPlace (c : Component) (s : State) : State × Option Failure :=
  if s.widths = c.inputWidths then s.rewrite c.writes
  else (s, some (.refused (.shape (.stateWidths c.inputWidths s.widths))))

/-! ## Calls -/

/-- Plain data of a state. -/
inductive Source where
  | parts (nodes edges globals : Buffer) (senders receivers : Array Nat)
  | edgeList (nodes edges globals : Buffer) (edges : List (Nat × Nat))
  | zeros (nodes : Nat) (edges : List (Nat × Nat)) (widths : Widths)
  /-- A document, read with these widths. -/
  | document (d : GraphDocument) (widths : Widths)
  /-- A document, as wide as its first rows. -/
  | documentInferred (d : GraphDocument)

/-- The state of the data. -/
def Source.state : Source → Outcome State
  | parts nodes edges globals senders receivers =>
    State.ofParts nodes edges globals senders receivers
  | edgeList nodes edges globals list => State.ofEdgeList nodes edges globals list
  | zeros nodes edges widths => State.zeros nodes edges widths
  | document d widths => d.toState widths
  | documentInferred d => d.toStateInferred

/-- What can be made of one state. -/
inductive Derivation where
  | copy
  | slice (nodes edges globals : Nat × Nat)
  | split (cut : Widths)
  | run (pipeline : Pipeline) (count : Nat)

/-- The states that are made. -/
def Derivation.states (s : State) : Derivation → Outcome (List State)
  | copy => pure [s]
  | slice nodes edges globals => do pure [← s.sliceFeatures nodes edges globals]
  | split cut => do
    let (head, tail) ← s.split cut
    pure [head, tail]
  | run pipeline count => pipeline.run s count

/-- A call; held states are told by their positions. -/
inductive Call where
  | make (source : Source)
  | derived (derivation : Derivation) (operand : Nat)
  | concatenate (first second : Nat)
  | infer (component : Component) (operand : Nat)

namespace Call

/-- The positions of the states that a call is about. -/
def operands : Call → List Nat
  | make _ => []
  | derived _ i => [i]
  | concatenate i j => [i, j]
  | infer _ i => [i]

/-- New states are held after the others; a failure makes none. -/
def hold (held : List State) : Outcome (List State) → List State × Option Failure
  | .ok made => (held ++ made, none)
  | .error failure => (held, some failure)

/-- The states held after the call, and how it failed.  Nothing is done at a position where
    no state is held. -/
def perform (held : List State) : Call → List State × Option Failure
  | make source => hold held (do pure [← source.state])
  | derived derivation i =>
    match held[i]? with
    | some s => hold held (derivation.states s)
    | none => (held, none)
  | concatenate i j =>
    match held[i]?, held[j]? with
    | some s, some t => hold held (do pure [← s.concatenate t])
    | _, _ => (held, none)
  | infer component i =>
    match held[i]? with
    | some s =>
      let (t, failure) := component.inferInPlace s
      (held.set i t, failure)
    | none => (held, none)

/-- The states held after calls, from none. -/
def performAll (calls : List Call) : List State :=
  calls.foldl (fun held call => (call.perform held).1) []

end Call

end MessagePassing
