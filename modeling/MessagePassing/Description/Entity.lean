/-
  Message passing — the parts of a round.

  Names for the kinds of entity that a model updates, for the aggregations between
  them, and for the stages of one round in the order in which they run.
-/
import MessagePassing.Tagged

namespace MessagePassing

/-- A kind of entity. -/
inductive Entity where
  | nodes
  | edges
  | globals
  deriving DecidableEq, Repr

instance : Tagged Entity where
  values := [.nodes, .edges, .globals]
  tag
    | .nodes => "nodes"
    | .edges => "edges"
    | .globals => "globals"

/-- An aggregation from one kind of entity to another. -/
inductive Relation where
  /-- The edges that reach a node. -/
  | edgesToNodes
  /-- All nodes, for the global row. -/
  | nodesToGlobals
  /-- All edges, for the global row. -/
  | edgesToGlobals
  deriving DecidableEq, Repr

instance : Tagged Relation where
  values := [.edgesToNodes, .nodesToGlobals, .edgesToGlobals]
  tag
    | .edgesToNodes => "nodes_edges"
    | .nodesToGlobals => "nodes_globals"
    | .edgesToGlobals => "edges_globals"

/-- The two ends of an aggregation. -/
def Relation.describe : Relation → String
  | edgesToNodes => "edges -> nodes"
  | nodesToGlobals => "nodes -> globals"
  | edgesToGlobals => "edges -> globals"

/-- A stage of a round. -/
inductive RoundStage where
  | edgeUpdate
  | nodeAggregate
  | nodeUpdate
  | globalAggregate
  | globalUpdate
  deriving DecidableEq, Repr

/-- The stages in the order in which they run. -/
instance : Tagged RoundStage where
  values := [.edgeUpdate, .nodeAggregate, .nodeUpdate, .globalAggregate, .globalUpdate]
  tag
    | .edgeUpdate => "edge_update"
    | .nodeAggregate => "node_aggregate"
    | .nodeUpdate => "node_update"
    | .globalAggregate => "global_aggregate"
    | .globalUpdate => "global_update"

/-- One of something for the edge, the node and the global update. -/
structure PerUpdate (α : Type) where
  edge : α
  node : α
  global : α
  deriving DecidableEq, Repr

/-- One of something for every aggregation. -/
structure PerRelation (α : Type) where
  edgeNode : α
  nodeGlobal : α
  edgeGlobal : α
  deriving DecidableEq, Repr

namespace PerUpdate

variable {α β : Type}

/-- Under a function. -/
def map (f : α → β) (x : PerUpdate α) : PerUpdate β := ⟨f x.edge, f x.node, f x.global⟩

/-- The one for a kind of entity. -/
def get (x : PerUpdate α) : Entity → α
  | .nodes => x.node
  | .edges => x.edge
  | .globals => x.global

/-- The three, in the order edge, node, global. -/
def toList (x : PerUpdate α) : List α := [x.edge, x.node, x.global]

/-- A relation that holds for each of the three. -/
def all₂ (r : α → β → Bool) (x : PerUpdate α) (y : PerUpdate β) : Bool :=
  r x.edge y.edge && r x.node y.node && r x.global y.global

end PerUpdate

/-- The three, in the order edge to node, node to global, edge to global. -/
def PerRelation.toList {α : Type} (x : PerRelation α) : List α :=
  [x.edgeNode, x.nodeGlobal, x.edgeGlobal]

end MessagePassing
