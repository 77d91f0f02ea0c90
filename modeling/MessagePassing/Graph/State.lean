/-
  Message passing — graph states.

  A state is a directed graph with features: a buffer of node rows, one of edge
  rows and one of a single global row, and the sender and receiver of every edge.
  That edges have endpoints among the nodes is part of the type; `ofParts` checks
  it, and no later operation can break it.
-/
import MessagePassing.Buffer

namespace MessagePassing

open Buffer (Table)

/-- A directed graph with features on its nodes, its edges and as a whole. -/
@[ext]
structure State where
  nodes : Buffer
  edges : Buffer
  globals : Buffer
  /-- The node that each edge leaves. -/
  senders : Array Nat
  /-- The node that each edge reaches. -/
  receivers : Array Nat
  size_senders : senders.size = edges.rows
  size_receivers : receivers.size = edges.rows
  rows_globals : globals.rows = 1
  sender_lt : ∀ n ∈ senders, n < nodes.rows
  receiver_lt : ∀ n ∈ receivers, n < nodes.rows

/-! ## Adjacency -/

/-- The first endpoint that is no node, and its edge. -/
def strayEndpoint? (nodes : Nat) (endpoints : Array Nat) : Option (Nat × Nat) :=
  endpoints.zipIdx.find? fun (node, _) => nodes ≤ node

theorem lt_of_strayEndpoint? {nodes : Nat} {endpoints : Array Nat}
    (h : strayEndpoint? nodes endpoints = none) : ∀ n ∈ endpoints, n < nodes := by
  intro n hn
  obtain ⟨i, hi⟩ := Array.getElem?_of_mem hn
  have := Array.find?_eq_none.mp h (n, i) (Array.mem_zipIdx_iff_getElem?.mpr hi)
  simpa using this

/-- Every endpoint is a node; senders are looked at before receivers. -/
def checkAdjacency (nodes : Nat) (senders receivers : Array Nat) : Outcome Unit :=
  match strayEndpoint? nodes senders with
  | some (node, edge) => refuseAdjacency (.endpoint edge "sender" node nodes)
  | none => match strayEndpoint? nodes receivers with
    | some (node, edge) => refuseAdjacency (.endpoint edge "receiver" node nodes)
    | none => .ok ()

theorem lt_of_checkAdjacency {nodes : Nat} {senders receivers : Array Nat}
    (h : checkAdjacency nodes senders receivers = .ok ()) :
    (∀ n ∈ senders, n < nodes) ∧ ∀ n ∈ receivers, n < nodes := by
  unfold checkAdjacency refuseAdjacency at h
  split at h
  · simp at h
  · rename_i hs
    split at h
    · simp at h
    · rename_i hr
      exact ⟨lt_of_strayEndpoint? hs, lt_of_strayEndpoint? hr⟩

namespace State

/-! ## Construction -/

/-- A state from its parts. -/
def ofParts (nodes edges globals : Buffer) (senders receivers : Array Nat) : Outcome State :=
  if ends : senders.size ≠ receivers.size then
    refuseShape (.endpointCounts senders.size receivers.size)
  else if rows : edges.rows ≠ senders.size then
    refuseShape (.edgeRows edges.rows senders.size)
  else if single : globals.rows ≠ 1 then refuseShape (.globalRows globals.rows)
  else match h : checkAdjacency nodes.rows senders receivers with
    | .error failure => .error failure
    | .ok () => .ok
      { nodes, edges, globals, senders, receivers
        size_senders := by omega
        size_receivers := by omega
        rows_globals := by omega
        sender_lt := (lt_of_checkAdjacency h).1
        receiver_lt := (lt_of_checkAdjacency h).2 }

/-- A state whose edges are pairs of sender and receiver. -/
def ofEdgeList (nodes edges globals : Buffer) (edgeList : List (Nat × Nat)) : Outcome State :=
  ofParts nodes edges globals (edgeList.map (·.1)).toArray (edgeList.map (·.2)).toArray

/-- Zero features on a graph. -/
def zeros (nodes : Nat) (edgeList : List (Nat × Nat)) (widths : Widths) : Outcome State := do
  let nodeRows ← Buffer.tryZeros nodes widths.nodes
  let edgeRows ← Buffer.tryZeros edgeList.length widths.edges
  let globalRow ← Buffer.tryZeros 1 widths.globals
  ofEdgeList nodeRows edgeRows globalRow edgeList

/-! ## Size and widths -/

/-- The number of nodes. -/
def nodeCount (s : State) : Nat := s.nodes.rows

/-- The number of edges. -/
def edgeCount (s : State) : Nat := s.edges.rows

/-- The features of each kind of entity. -/
def widths (s : State) : Widths := ⟨s.nodes.cols, s.edges.cols, s.globals.cols⟩

/-! ## New features on the same graph -/

/-- The same graph with other features. -/
def withFeatures (s : State) (nodes : Table s.nodes.rows) (edges : Table s.edges.rows)
    (globals : Table 1) : State where
  nodes := nodes.val
  edges := edges.val
  globals := globals.val
  senders := s.senders
  receivers := s.receivers
  size_senders := by rw [edges.property, s.size_senders]
  size_receivers := by rw [edges.property, s.size_receivers]
  rows_globals := globals.property
  sender_lt := by rw [nodes.property]; exact s.sender_lt
  receiver_lt := by rw [nodes.property]; exact s.receiver_lt

/-- The global row as a table. -/
def globalTable (s : State) : Table 1 := ⟨s.globals, s.rows_globals⟩

/-- Other node features. -/
def withNodes (s : State) (nodes : Table s.nodes.rows) : State :=
  s.withFeatures nodes s.edges.table s.globalTable

/-- Other edge features. -/
def withEdges (s : State) (edges : Table s.edges.rows) : State :=
  s.withFeatures s.nodes.table edges s.globalTable

/-- Other global features. -/
def withGlobals (s : State) (globals : Table 1) : State :=
  s.withFeatures s.nodes.table s.edges.table globals

/-- The rows of the senders of all edges. -/
def senderRows (s : State) : Outcome (Table s.edges.rows) := do
  let rows ← s.nodes.gather s.senders s.sender_lt
  pure ⟨rows.val, rows.property.trans s.size_senders⟩

/-- The rows of the receivers of all edges. -/
def receiverRows (s : State) : Outcome (Table s.edges.rows) := do
  let rows ← s.nodes.gather s.receivers s.receiver_lt
  pure ⟨rows.val, rows.property.trans s.size_receivers⟩

/-! ## Joining and splitting features -/

/-- The features of two states of one graph side by side. -/
def concatenate (s t : State) : Outcome State :=
  if hn : t.nodes.rows = s.nodes.rows then
    if he : t.edges.rows = s.edges.rows then
      if s.senders = t.senders ∧ s.receivers = t.receivers then do
        let nodes ← Buffer.sideBySide [s.nodes.table, ⟨t.nodes, hn⟩]
        let edges ← Buffer.sideBySide [s.edges.table, ⟨t.edges, he⟩]
        let globals ← Buffer.sideBySide [s.globalTable, t.globalTable]
        pure (s.withFeatures nodes edges globals)
      else refuseAdjacency .different
    else refuseShape (.graphRows "edge" s.edges.rows t.edges.rows)
  else refuseShape (.graphRows "node" s.nodes.rows t.nodes.rows)

/-- Only the given columns of each kind of entity, from a first to before a last. -/
def sliceFeatures (s : State) (nodes edges globals : Nat × Nat) : Outcome State := do
  let nodeCols ← Buffer.columnRange s.nodes.table nodes.1 nodes.2
  let edgeCols ← Buffer.columnRange s.edges.table edges.1 edges.2
  let globalCols ← Buffer.columnRange s.globalTable globals.1 globals.2
  pure (s.withFeatures nodeCols edgeCols globalCols)

/-- The features before and from the given widths on. -/
def split (s : State) (cut : Widths) : Outcome (State × State) := do
  let head ← s.sliceFeatures (0, cut.nodes) (0, cut.edges) (0, cut.globals)
  let tail ← s.sliceFeatures (cut.nodes, s.widths.nodes) (cut.edges, s.widths.edges)
    (cut.globals, s.widths.globals)
  pure (head, tail)

/-- The same graph with features that are equal as numbers. -/
def agrees (s t : State) : Bool :=
  s.nodes.agrees t.nodes && s.edges.agrees t.edges && s.globals.agrees t.globals &&
    s.senders == t.senders && s.receivers == t.receivers

end State

end MessagePassing
