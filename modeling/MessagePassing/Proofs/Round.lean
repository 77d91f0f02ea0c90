/-
  Message passing — what one round of a network computes.

  A round works on whole tables.  `Network.Round` says what it comes to for every entity:
  an edge reads itself, its two nodes and the global row; a node reads itself, the new rows
  of the edges that reach it and the global row; the global row reads itself, all new nodes
  and all new edges.

  * `joined_apply`: an update function on tables side by side is the function on the parts
    of every row, one after the other;
  * `updateEdges_eq`, `updateNodes_eq`, `updateGlobals_eq`: what one stage gives;
  * `infer_eq`: what the stages give together, for a network whose widths match (`Sound`);
  * `infer_round`: a compiled network computes `Round`, unless a table is too large.
-/
import MessagePassing.Proofs.Acceptance
import MessagePassing.Proofs.Segments

namespace MessagePassing

open Buffer (Table tableOf)
open MessagePassing.Count (within limit total)

/-! ## Update functions on tables side by side -/

/-- An update function on tables side by side acts on the parts of each row. -/
theorem Perceptron.joined_apply {α : Type} (P : Perceptron) {rows : Nat}
    (parts : List (Table rows)) (row : Nat → Array Scalar) (g : Table rows → α)
    (width : total (parts.map fun part => part.val.cols) = P.inputWidth)
    (fits : P.inputWidth < limit)
    (same : ∀ i < rows, (parts.map fun part => part.val.rowAt i).toArray.flatten = row i) :
    (do let out ← P.apply (← Buffer.sideBySide parts); pure (g out)) =
      within (rows * P.inputWidth < limit ∧ rows * P.outputWidth < limit)
        (g (tableOf rows P.outputWidth (fun i => P.forward (row i))
          fun _ _ => P.size_forward _)) := by
  rw [Buffer.sideBySide_eq]
  refine Count.within_bind_congr (q := rows * P.outputWidth < limit) ?_ ?_ rfl
  · rw [Perceptron.apply, Buffer.mapRows_eq, Count.within_bind_pure]
    refine Count.within_congr Iff.rfl (congrArg g (Buffer.table_ext rfl fun i hi => ?_))
    rw [Buffer.rowAt_tableOf _ hi, Buffer.rowAt_tableOf _ hi, Buffer.rowAt_tableOf _ hi,
      Buffer.joinedRow_eq_flatten, same i hi]
  · rw [width]
    simp [fits]

namespace State

/-! ## States -/

/-- The same nodes, joined by the same edges. -/
structure SameGraph (s t : State) : Prop where
  nodeCount : t.nodeCount = s.nodeCount
  edgeCount : t.edgeCount = s.edgeCount
  senders : t.senders = s.senders
  receivers : t.receivers = s.receivers

namespace SameGraph

variable {s t u : State}

theorem refl (s : State) : s.SameGraph s := ⟨rfl, rfl, rfl, rfl⟩

theorem symm (h : s.SameGraph t) : t.SameGraph s :=
  ⟨h.nodeCount.symm, h.edgeCount.symm, h.senders.symm, h.receivers.symm⟩

theorem trans (h : s.SameGraph t) (h' : t.SameGraph u) : s.SameGraph u :=
  ⟨h'.nodeCount.trans h.nodeCount, h'.edgeCount.trans h.edgeCount, h'.senders.trans h.senders,
    h'.receivers.trans h.receivers⟩

end SameGraph

theorem sender_row_lt (s : State) {k : Nat} (hk : k < s.edges.rows) :
    s.senders.getD k 0 < s.nodes.rows :=
  Buffer.getD_lt s.sender_lt (by rwa [s.size_senders])

theorem receiver_row_lt (s : State) {k : Nat} (hk : k < s.edges.rows) :
    s.receivers.getD k 0 < s.nodes.rows :=
  Buffer.getD_lt s.receiver_lt (by rwa [s.size_receivers])

/-- The node rows at one end of every edge. -/
theorem endRows_eq (s : State) {ends : Array Nat} (size : ends.size = s.edges.rows)
    (lt : ∀ i ∈ ends, i < s.nodes.rows) :
    (do
      let rows ← s.nodes.gather ends lt
      pure ⟨rows.val, rows.property.trans size⟩ : Outcome (Table s.edges.rows)) =
      within (s.edges.rows * s.nodes.cols < limit)
        (tableOf s.edges.rows s.nodes.cols (fun k => s.nodes.rowAt (ends.getD k 0))
          fun _ hk => s.nodes.size_rowAt (Buffer.getD_lt lt (by rwa [size]))) := by
  rw [Buffer.gather_eq, Count.within_bind_pure]
  refine Count.within_congr (by rw [size]) (Buffer.table_ext rfl fun k hk => ?_)
  rw [Buffer.rowAt_tableOf _ hk]
  exact Buffer.rowAt_tableOf (fun _ hi => s.nodes.size_rowAt (Buffer.getD_lt lt hi))
    (by rwa [size])

theorem size_globalRow (s : State) : (s.globals.rowAt 0).size = s.globals.cols :=
  s.globals.size_rowAt (by rw [s.rows_globals]; exact Nat.one_pos)

end State

namespace Network

/-! ## Rows that the update functions read -/

/-- What a block of the edge update's input is for edge `k`. -/
def edgePart (s : State) (k : Nat) : EdgeInput → Array Scalar
  | .edges => s.edges.rowAt k
  | .senders => s.nodes.rowAt (s.senders.getD k 0)
  | .receivers => s.nodes.rowAt (s.receivers.getD k 0)
  | .globals => s.globals.rowAt 0

/-- The row that the edge update reads for edge `k`. -/
def edgeRow (n : Network) (s : State) (k : Nat) : Array Scalar :=
  (n.wiring.edge.map (edgePart s k)).toArray.flatten

/-- The rows of `t` of the edges that reach node `v` in `s`, reduced. -/
def received (n : Network) (s t : State) (v : Nat) : Array Scalar :=
  n.reducers.edgeNode.combine t.edges.cols ((contributors s.receivers v).map t.edges.rowAt)

/-- What a block of the node update's input is for node `v`, with the edges of `t`. -/
def nodePart (n : Network) (s t : State) (v : Nat) : NodeInput → Array Scalar
  | .nodes => s.nodes.rowAt v
  | .receivedEdges => n.received s t v
  | .globals => s.globals.rowAt 0

/-- The row that the node update reads for node `v`, with the edges of `t`. -/
def nodeRow (n : Network) (s t : State) (v : Nat) : Array Scalar :=
  (n.wiring.node.map (n.nodePart s t v)).toArray.flatten

/-- What a block of the global update's input is, with the nodes and edges of `t`. -/
def globalPart (n : Network) (s t : State) : GlobalInput → Array Scalar
  | .globals => s.globals.rowAt 0
  | .nodes => n.reducers.nodeGlobal.combine t.nodes.cols
      ((List.range t.nodes.rows).map t.nodes.rowAt)
  | .edges => n.reducers.edgeGlobal.combine t.edges.cols
      ((List.range t.edges.rows).map t.edges.rowAt)

/-- The row that the global update reads, with the nodes and edges of `t`. -/
def globalRow (n : Network) (s t : State) : Array Scalar :=
  (n.wiring.global.map (n.globalPart s t)).toArray.flatten

/-- `t` is `s` after one round: the old features feed every update, and besides them the
    new edges feed the nodes, and the new nodes and edges feed the global row. -/
structure Round (n : Network) (s t : State) : Prop extends s.SameGraph t where
  widths : t.widths = n.updates.outputWidths
  edges : ∀ k < s.edges.rows, t.edges.rowAt k = n.updates.edge.forward (n.edgeRow s k)
  nodes : ∀ v < s.nodes.rows, t.nodes.rowAt v = n.updates.node.forward (n.nodeRow s t v)
  globals : t.globals.rowAt 0 = n.updates.global.forward (n.globalRow s t)

/-- A node that no edge reaches gets a row of zeros. -/
theorem received_of_none (n : Network) (s t : State) {v : Nat}
    (none : ∀ k : Nat, s.receivers[k]? ≠ some v) :
    n.received s t v = Array.replicate t.edges.cols 0 := by
  have empty : contributors s.receivers v = [] :=
    List.eq_nil_iff_forall_not_mem.2 fun k hk => none k (mem_contributors.1 hk)
  rw [received, empty, List.map_nil, Reducer.combine_nil]

theorem size_edgePart (s : State) {k : Nat} (hk : k < s.edges.rows) (x : EdgeInput) :
    (edgePart s k x).size = Wiring.edgeBlock s.widths x := by
  cases x with
  | edges => exact s.edges.size_rowAt hk
  | senders => exact s.nodes.size_rowAt (s.sender_row_lt hk)
  | receivers => exact s.nodes.size_rowAt (s.receiver_row_lt hk)
  | globals => exact s.size_globalRow

theorem size_nodePart (n : Network) (s t : State) {v : Nat} (hv : v < s.nodes.rows)
    (x : NodeInput) : (n.nodePart s t v x).size = Wiring.nodeBlock s.widths t.edges.cols x := by
  cases x with
  | nodes => exact s.nodes.size_rowAt hv
  | receivedEdges => exact Reducer.size_combine _ _ _
  | globals => exact s.size_globalRow

theorem size_globalPart (n : Network) (s t : State) (x : GlobalInput) :
    (n.globalPart s t x).size = Wiring.globalBlock s.widths t.nodes.cols t.edges.cols x := by
  cases x with
  | globals => exact s.size_globalRow
  | nodes => exact Reducer.size_combine _ _ _
  | edges => exact Reducer.size_combine _ _ _

theorem size_flatten_map {γ : Type} {l : List γ} {part : γ → Array Scalar} {width : γ → Nat}
    (h : ∀ x, (part x).size = width x) :
    (l.map part).toArray.flatten.size = total (l.map width) := by
  induction l with
  | nil => rfl
  | cons x rest ih =>
    rw [List.map_cons, List.map_cons, Count.total_cons, ← ih, ← h x]
    simp

theorem size_edgeRow (n : Network) (s : State) {k : Nat} (hk : k < s.edges.rows) :
    (n.edgeRow s k).size = total (n.wiring.edge.map (Wiring.edgeBlock s.widths)) :=
  size_flatten_map (size_edgePart s hk)

theorem size_nodeRow (n : Network) (s t : State) {v : Nat} (hv : v < s.nodes.rows) :
    (n.nodeRow s t v).size =
      total (n.wiring.node.map (Wiring.nodeBlock s.widths t.edges.cols)) :=
  size_flatten_map (n.size_nodePart s t hv)

theorem size_globalRow (n : Network) (s t : State) :
    (n.globalRow s t).size =
      total (n.wiring.global.map (Wiring.globalBlock s.widths t.nodes.cols t.edges.cols)) :=
  size_flatten_map (n.size_globalPart s t)

/-! ## Tables of these rows -/

/-- A block of the edge update's input. -/
def edgeTable (s : State) (x : EdgeInput) : Table s.edges.rows :=
  tableOf s.edges.rows (Wiring.edgeBlock s.widths x) (fun k => edgePart s k x)
    fun _ hk => size_edgePart s hk x

/-- A block of the node update's input. -/
def nodeTable (n : Network) (s : State) (x : NodeInput) : Table s.nodes.rows :=
  tableOf s.nodes.rows (Wiring.nodeBlock s.widths s.edges.cols x) (fun v => n.nodePart s s v x)
    fun _ hv => n.size_nodePart s s hv x

/-- A block of the global update's input. -/
def globalTable (n : Network) (s : State) (x : GlobalInput) : Table 1 :=
  tableOf 1 (Wiring.globalBlock s.widths s.nodes.cols s.edges.cols x)
    (fun _ => n.globalPart s s x) fun _ _ => n.size_globalPart s s x

theorem rowAt_edgeTable (s : State) (x : EdgeInput) {k : Nat} (hk : k < s.edges.rows) :
    (edgeTable s x).val.rowAt k = edgePart s k x :=
  Buffer.rowAt_tableOf _ hk

theorem rowAt_nodeTable (n : Network) (s : State) (x : NodeInput) {v : Nat}
    (hv : v < s.nodes.rows) : (n.nodeTable s x).val.rowAt v = n.nodePart s s v x :=
  Buffer.rowAt_tableOf _ hv

theorem rowAt_globalTable (n : Network) (s : State) (x : GlobalInput) :
    (n.globalTable s x).val.rowAt 0 = n.globalPart s s x :=
  Buffer.rowAt_tableOf _ Nat.one_pos

theorem edgeBlock_eq (s : State) (x : EdgeInput) :
    edgeBlock s x = within (x = .edges ∨ s.edges.rows * Wiring.edgeBlock s.widths x < limit)
      (edgeTable s x) := by
  cases x with
  | edges =>
    rw [Count.within_of_fits (.inl rfl)]
    exact congrArg Except.ok (Buffer.table_ext rfl fun k hk => (rowAt_edgeTable s .edges hk).symm)
  | senders =>
    refine (s.endRows_eq s.size_senders s.sender_lt).trans (Count.within_congr ?_ rfl)
    simp [Wiring.edgeBlock, State.widths]
  | receivers =>
    refine (s.endRows_eq s.size_receivers s.receiver_lt).trans (Count.within_congr ?_ rfl)
    simp [Wiring.edgeBlock, State.widths]
  | globals =>
    rw [edgeBlock, Buffer.broadcast_eq]
    exact Count.within_congr (by simp [Wiring.edgeBlock, State.widths, State.globalTable]) rfl

/-- The edges that reach each node, reduced. -/
theorem received_eq (n : Network) (s : State) :
    n.reducers.edgeNode.reduce s.edges s.receivers s.nodes.rows =
      within (s.nodes.rows * s.edges.cols < limit) (n.nodeTable s .receivedEdges) :=
  Reducer.reduce_eq _ _ _ _

theorem nodeBlock_eq (n : Network) (s : State) (x : NodeInput) :
    nodeBlock s (n.nodeTable s .receivedEdges) x =
      within (x ≠ .globals ∨ s.nodes.rows * s.globals.cols < limit) (n.nodeTable s x) := by
  cases x with
  | nodes =>
    rw [Count.within_of_fits (.inl (by simp))]
    exact congrArg Except.ok (Buffer.table_ext rfl fun v hv => (n.rowAt_nodeTable s .nodes hv).symm)
  | receivedEdges => exact (Count.within_of_fits (.inl (by simp)) _).symm
  | globals =>
    rw [nodeBlock, Buffer.broadcast_eq]
    exact Count.within_congr (by simp [State.globalTable]) rfl

theorem nodeSummary_eq (n : Network) (s : State) :
    n.reducers.nodeGlobal.reduceAll s.nodes =
      within (1 * s.nodes.cols < limit) (n.globalTable s .nodes) :=
  Reducer.reduceAll_eq _ _

theorem edgeSummary_eq (n : Network) (s : State) :
    n.reducers.edgeGlobal.reduceAll s.edges =
      within (1 * s.edges.cols < limit) (n.globalTable s .edges) :=
  Reducer.reduceAll_eq _ _

theorem globalBlock_eq (n : Network) (s : State) (x : GlobalInput) :
    globalBlock s (n.globalTable s .nodes) (n.globalTable s .edges) x = n.globalTable s x := by
  cases x with
  | globals =>
    refine Buffer.table_ext rfl fun i hi => ?_
    obtain rfl : i = 0 := by omega
    exact (n.rowAt_globalTable s .globals).symm
  | nodes => rfl
  | edges => rfl

/-! ## Stages -/

/-- The edges after their update. -/
def newEdges (n : Network) (s : State) : Table s.edges.rows :=
  tableOf s.edges.rows n.updates.edge.outputWidth
    (fun k => n.updates.edge.forward (n.edgeRow s k)) fun _ _ => Perceptron.size_forward _ _

/-- The nodes after their update, with the edges as they are. -/
def newNodes (n : Network) (s : State) : Table s.nodes.rows :=
  tableOf s.nodes.rows n.updates.node.outputWidth
    (fun v => n.updates.node.forward (n.nodeRow s s v)) fun _ _ => Perceptron.size_forward _ _

/-- The global row after its update, with the nodes and edges as they are. -/
def newGlobals (n : Network) (s : State) : Table 1 :=
  tableOf 1 n.updates.global.outputWidth
    (fun _ => n.updates.global.forward (n.globalRow s s)) fun _ _ => Perceptron.size_forward _ _

/-- The tables of the edge update fit. -/
def EdgesFit (n : Network) (s : State) : Prop :=
  s.edges.rows * n.updates.edge.inputWidth < limit ∧
    s.edges.rows * n.updates.edge.outputWidth < limit

/-- The tables of the node update fit. -/
def NodesFit (n : Network) (s : State) : Prop :=
  s.nodes.rows * s.edges.cols < limit ∧ s.nodes.rows * n.updates.node.inputWidth < limit ∧
    s.nodes.rows * n.updates.node.outputWidth < limit

/-- The tables of the global update fit. -/
def GlobalsFit (n : Network) (s : State) : Prop :=
  1 * s.nodes.cols < limit ∧ 1 * s.edges.cols < limit ∧
    1 * n.updates.global.inputWidth < limit ∧ 1 * n.updates.global.outputWidth < limit

instance (n : Network) (s : State) : Decidable (n.EdgesFit s) :=
  inferInstanceAs (Decidable (_ ∧ _))

instance (n : Network) (s : State) : Decidable (n.NodesFit s) :=
  inferInstanceAs (Decidable (_ ∧ _ ∧ _))

instance (n : Network) (s : State) : Decidable (n.GlobalsFit s) :=
  inferInstanceAs (Decidable (_ ∧ _ ∧ _ ∧ _))

/-- A table that a wiring lists is no wider than all of them together. -/
theorem mul_lt_of_mem {γ : Type} {l : List γ} {width : γ → Nat} {x : γ} {rows w : Nat} (hx : x ∈ l)
    (sum : total (l.map width) = w) (fits : rows * w < limit) : rows * width x < limit := by
  have part : width x ≤ w := sum ▸ Count.le_total (List.mem_map_of_mem hx)
  exact Nat.lt_of_le_of_lt (Nat.mul_le_mul_left rows part) fits

theorem updateEdges_eq (n : Network) (s : State)
    (width : total (n.wiring.edge.map (Wiring.edgeBlock s.widths)) = n.updates.edge.inputWidth)
    (fits : n.updates.edge.inputWidth < limit) :
    n.updateEdges s = within (n.EdgesFit s) (s.withEdges (n.newEdges s)) := by
  have blocks : n.wiring.edge.mapM (edgeBlock s) = within (∀ x ∈ n.wiring.edge,
      x = .edges ∨ s.edges.rows * Wiring.edgeBlock s.widths x < limit)
      (n.wiring.edge.map (edgeTable s)) := Count.mapM_within fun x _ => edgeBlock_eq s x
  rw [updateEdges, blocks]
  refine Count.within_bind_congr (Perceptron.joined_apply _ _ (n.edgeRow s) s.withEdges
    (by rw [List.map_map]; exact width) fits fun k hk => ?_) ?_ rfl
  · rw [List.map_map, edgeRow]
    congr 2
    exact List.map_congr_left fun x _ => rowAt_edgeTable s x hk
  · exact and_iff_right_of_imp fun h x hx => .inr (mul_lt_of_mem hx width h.1)

theorem updateNodes_eq (n : Network) (s : State)
    (width : total (n.wiring.node.map (Wiring.nodeBlock s.widths s.edges.cols)) =
      n.updates.node.inputWidth)
    (fits : n.updates.node.inputWidth < limit) :
    n.updateNodes s = within (n.NodesFit s) (s.withNodes (n.newNodes s)) := by
  have blocks : n.wiring.node.mapM (nodeBlock s (n.nodeTable s .receivedEdges)) =
      within (∀ x ∈ n.wiring.node, x ≠ .globals ∨ s.nodes.rows * s.globals.cols < limit)
      (n.wiring.node.map (n.nodeTable s)) := Count.mapM_within fun x _ => n.nodeBlock_eq s x
  rw [updateNodes, received_eq]
  refine Count.within_bind_within ?_
  rw [blocks]
  refine Count.within_bind_congr (Perceptron.joined_apply _ _ (n.nodeRow s s) s.withNodes
    (by rw [List.map_map]; exact width) fits fun v hv => ?_) ?_ rfl
  · rw [List.map_map, nodeRow]
    congr 2
    exact List.map_congr_left fun x _ => n.rowAt_nodeTable s x hv
  · refine and_iff_right_of_imp fun h x hx => ?_
    by_cases global : x = .globals
    · have wide := mul_lt_of_mem hx width h.1
      rw [global] at wide
      exact .inr wide
    · exact .inl global

theorem updateGlobals_eq (n : Network) (s : State)
    (width : total (n.wiring.global.map (Wiring.globalBlock s.widths s.nodes.cols s.edges.cols)) =
      n.updates.global.inputWidth)
    (fits : n.updates.global.inputWidth < limit) :
    n.updateGlobals s = within (n.GlobalsFit s) (s.withGlobals (n.newGlobals s)) := by
  have blocks : n.wiring.global.map (globalBlock s (n.globalTable s .nodes)
      (n.globalTable s .edges)) = n.wiring.global.map (n.globalTable s) :=
    List.map_congr_left fun x _ => n.globalBlock_eq s x
  rw [updateGlobals, nodeSummary_eq, edgeSummary_eq]
  refine Count.within_bind_within (Count.within_bind_within ?_)
  rw [blocks]
  refine Perceptron.joined_apply _ _ (fun _ => n.globalRow s s) s.withGlobals
    (by rw [List.map_map]; exact width) fits fun i hi => ?_
  obtain rfl : i = 0 := by omega
  rw [List.map_map, globalRow]
  congr 2
  exact List.map_congr_left fun x _ => n.rowAt_globalTable s x

/-! ## Rounds -/

/-- A network whose update functions read rows of the widths that its wiring gives. -/
structure Sound (n : Network) : Prop where
  connected : n.wiring.Connected
  edge : total (n.wiring.edge.map (Wiring.edgeBlock n.inputWidths)) =
    n.updates.edge.inputWidth
  node : total (n.wiring.node.map
    (Wiring.nodeBlock n.inputWidths n.updates.edge.outputWidth)) = n.updates.node.inputWidth
  global : total (n.wiring.global.map (Wiring.globalBlock n.inputWidths
    n.updates.node.outputWidth n.updates.edge.outputWidth)) = n.updates.global.inputWidth
  edge_lt : n.updates.edge.inputWidth < limit
  node_lt : n.updates.node.inputWidth < limit
  global_lt : n.updates.global.inputWidth < limit

/-- The node update reads rows of its width once the edges are updated. -/
theorem Sound.total_node {n : Network} {s : State} (sound : n.Sound)
    (nodes : s.nodes.cols = n.inputWidths.nodes)
    (edges : s.edges.cols = n.updates.edge.outputWidth)
    (globals : s.globals.cols = n.inputWidths.globals) :
    total (n.wiring.node.map (Wiring.nodeBlock s.widths s.edges.cols)) =
      n.updates.node.inputWidth := by
  rw [← sound.node]
  congr 2
  funext x
  cases x with
  | nodes => exact nodes
  | receivedEdges => exact edges
  | globals => exact globals

/-- The global update reads a row of its width once the nodes and edges are updated. -/
theorem Sound.total_global {n : Network} {s : State} (sound : n.Sound)
    (nodes : s.nodes.cols = n.updates.node.outputWidth)
    (edges : s.edges.cols = n.updates.edge.outputWidth)
    (globals : s.globals.cols = n.inputWidths.globals) :
    total (n.wiring.global.map (Wiring.globalBlock s.widths s.nodes.cols s.edges.cols)) =
      n.updates.global.inputWidth := by
  rw [← sound.global]
  congr 2
  funext x
  cases x with
  | globals => exact globals
  | nodes => exact nodes
  | edges => exact edges

/-- The shapes of the tables that a round makes of a state. -/
def shapes (n : Network) (s : State) : List (Nat × Nat) :=
  let edgeOut := n.updates.edge.outputWidth
  let nodeOut := n.updates.node.outputWidth
  [(s.edges.rows, n.updates.edge.inputWidth), (s.edges.rows, edgeOut), (s.nodes.rows, edgeOut),
    (s.nodes.rows, n.updates.node.inputWidth), (s.nodes.rows, nodeOut), (1, nodeOut),
    (1, edgeOut), (1, n.updates.global.inputWidth), (1, n.updates.global.outputWidth)]

/-- The number of values of every table of a round is a count. -/
def Fits (n : Network) (s : State) : Prop :=
  ∀ shape ∈ n.shapes s, shape.1 * shape.2 < limit

instance (n : Network) (s : State) : Decidable (n.Fits s) :=
  inferInstanceAs (Decidable (∀ shape ∈ n.shapes s, shape.1 * shape.2 < limit))

/-- Only the numbers of nodes and edges matter. -/
theorem fits_congr (n : Network) {s t : State} (same : s.SameGraph t) : n.Fits t ↔ n.Fits s := by
  have nodes : t.nodes.rows = s.nodes.rows := same.nodeCount
  have edges : t.edges.rows = s.edges.rows := same.edgeCount
  rw [Fits, Fits, shapes, shapes, nodes, edges]

/-- The state after the edge update of a round. -/
def afterEdges (n : Network) (s : State) : State := s.withEdges (n.newEdges s)

/-- The state after the edge and node updates of a round. -/
def afterNodes (n : Network) (s : State) : State :=
  (n.afterEdges s).withNodes (n.newNodes (n.afterEdges s))

/-- The state after a round. -/
def round (n : Network) (s : State) : State :=
  (n.afterNodes s).withGlobals (n.newGlobals (n.afterNodes s))

theorem fits_iff (n : Network) (s : State) : n.Fits s ↔
    n.EdgesFit s ∧ n.NodesFit (n.afterEdges s) ∧ n.GlobalsFit (n.afterNodes s) := by
  simp only [Fits, shapes, List.forall_mem_cons, List.not_mem_nil, false_imp_iff, implies_true,
    and_true, EdgesFit, NodesFit, GlobalsFit, and_assoc]
  exact Iff.rfl

/-- **A round of a sound network** gives the state after it, unless a table is too large. -/
theorem infer_eq {n : Network} {s : State} (sound : n.Sound) (widths : s.widths = n.inputWidths) :
    n.infer s = within (n.Fits s) (n.round s) := by
  have nodeWidth : s.nodes.cols = n.inputWidths.nodes := congrArg Widths.nodes widths
  have globalWidth : s.globals.cols = n.inputWidths.globals := congrArg Widths.globals widths
  have edges := n.updateEdges_eq s (by rw [widths]; exact sound.edge) sound.edge_lt
  have nodes := n.updateNodes_eq (n.afterEdges s) (sound.total_node nodeWidth rfl globalWidth)
    sound.node_lt
  have globals := n.updateGlobals_eq (n.afterNodes s) (sound.total_global rfl rfl globalWidth)
    sound.global_lt
  have later : (n.updateNodes (n.afterEdges s) >>= n.updateGlobals) =
      within (n.NodesFit (n.afterEdges s) ∧ n.GlobalsFit (n.afterNodes s)) (n.round s) := by
    rw [nodes]
    exact Count.within_bind_within globals
  rw [infer, edges]
  exact Count.within_bind_congr later (n.fits_iff s).symm rfl

/-- The state after a round has the rows that a round computes. -/
theorem round_spec (n : Network) (s : State) : n.Round s (n.round s) where
  senders := rfl
  receivers := rfl
  nodeCount := rfl
  edgeCount := rfl
  widths := rfl
  edges _ hk := Buffer.rowAt_tableOf (fun _ _ => Perceptron.size_forward _ _) hk
  nodes _ hv := Buffer.rowAt_tableOf (fun _ _ => Perceptron.size_forward _ _) hv
  globals := Buffer.rowAt_tableOf (fun _ _ => Perceptron.size_forward _ _) Nat.one_pos

/-- Every row that an update function reads is as wide as the function expects. -/
structure Reads (n : Network) (s t : State) : Prop where
  edges : ∀ k < s.edges.rows, (n.edgeRow s k).size = n.updates.edge.inputWidth
  nodes : ∀ v < s.nodes.rows, (n.nodeRow s t v).size = n.updates.node.inputWidth
  globals : (n.globalRow s t).size = n.updates.global.inputWidth

theorem Round.reads {n : Network} {s t : State} (h : n.Round s t) (sound : n.Sound)
    (widths : s.widths = n.inputWidths) : n.Reads s t := by
  have edgeWidth : t.edges.cols = n.updates.edge.outputWidth := congrArg Widths.edges h.widths
  have nodeWidth : t.nodes.cols = n.updates.node.outputWidth := congrArg Widths.nodes h.widths
  refine ⟨fun k hk => ?_, fun v hv => ?_, ?_⟩
  · rw [n.size_edgeRow s hk, widths, sound.edge]
  · rw [n.size_nodeRow s t hv, widths, edgeWidth, sound.node]
  · rw [n.size_globalRow s t, widths, nodeWidth, edgeWidth, sound.global]

/-! ## Compiled networks -/

section
variable {d : Description} {p : Parameters} {rename : Option String} {withProgram : Bool}
  {m : Model} {n : Network}

theorem sound_of_compile (compiled : d.compile p rename withProgram = .ok m)
    (network : m.block = .network n) : n.Sound := by
  obtain ⟨-, made, -⟩ := Description.compile_eq_ok compiled
  have bound := made.updates
  rw [network, Block.updates] at bound
  cases architecture : d.architecture with
  | graphIndependent =>
    obtain ⟨i, independent, -⟩ := made.independent architecture
    rw [network] at independent
    cases independent
  | graphNetwork =>
    obtain ⟨n', same, -, -, wiring, inputs⟩ := made.network architecture
    obtain rfl : n = n' := Block.network.inj (network.symm.trans same)
    have edge := bound.edge.inputWidth_eq
    have node := bound.node.inputWidth_eq
    have global := bound.global.inputWidth_eq
    have edgeOut := bound.edge.outputWidth_eq
    have nodeOut := bound.node.outputWidth_eq
    obtain ⟨edge_lt, node_lt, global_lt⟩ := made.fit architecture
    rw [← edge] at edge_lt
    rw [← node] at node_lt
    rw [← global] at global_lt
    simp only [Description.rowWidths, architecture, ← wiring, ← inputs, ← edgeOut, ← nodeOut]
      at edge node global
    exact ⟨wiring ▸ made.connected architecture, edge.symm, node.symm, global.symm, edge_lt,
      node_lt, global_lt⟩

/-- **A compiled network computes a round**: every new row is the update function of the
    rows that it reads, and these are as wide as the function expects.  Only a table whose
    number of values is no count stops it. -/
theorem infer_round (compiled : d.compile p rename withProgram = .ok m)
    (network : m.block = .network n) (s : State) (widths : s.widths = n.inputWidths) :
    (n.Fits s → ∃ t, n.infer s = .ok t ∧ n.Round s t ∧ n.Reads s t ∧
        ∀ v, (∀ k : Nat, s.receivers[k]? ≠ some v) →
          n.received s t v = Array.replicate n.updates.edge.outputWidth 0) ∧
      (¬ n.Fits s → n.infer s = .error (.fault .countOverflow)) := by
  have sound := sound_of_compile compiled network
  have run := infer_eq sound widths
  refine ⟨fun fits => ⟨n.round s, ?_, n.round_spec s, ?_, fun v none => ?_⟩, fun unfit => ?_⟩
  · rw [run, Count.within_of_fits fits]
  · exact (n.round_spec s).reads sound widths
  · exact n.received_of_none s (n.round s) none
  · rw [run, Count.within_of_not_fits unfit]

end

theorem fits_round_selfLoop {n : Network} {m : Model}
    (compiled : Description.selfLoop.compile .selfLoop none true = .ok m)
    (network : m.block = .network n) : n.Fits .selfLoop := by
  obtain ⟨-, made, -⟩ := Description.compile_eq_ok compiled
  have bound := made.updates
  rw [network, Block.updates] at bound
  simp only [Fits, shapes, bound.edge.inputWidth_eq, bound.edge.outputWidth_eq,
    bound.node.inputWidth_eq, bound.node.outputWidth_eq, bound.global.inputWidth_eq,
    bound.global.outputWidth_eq]
  decide

/-- The self-loop computes a round. -/
theorem infer_round_selfLoop : ∃ (m : Model) (n : Network) (t : State),
    Description.selfLoop.compile .selfLoop none true = .ok m ∧ m.block = .network n ∧
      n.infer .selfLoop = .ok t ∧ n.Round .selfLoop t := by
  obtain ⟨m, compiled⟩ := compile_selfLoop
  obtain ⟨-, made, -⟩ := Description.compile_eq_ok compiled
  obtain ⟨n, network, -, -, -, inputs⟩ := made.network rfl
  have reads : State.selfLoop.widths = n.inputWidths := by rw [inputs]; rfl
  obtain ⟨t, run, round, -⟩ := (infer_round compiled network .selfLoop reads).1
    (fits_round_selfLoop compiled network)
  exact ⟨m, n, t, compiled, network, run, round⟩

-- the edge reads 1, 1, 1, 1, the node 1, 4, 1 and the global row 1, 6, 4
example : ((Description.selfLoop.compile .selfLoop none true).toOption.bind fun m =>
    (m.infer .selfLoop).toOption.map fun t => (t.edges.data, t.nodes.data, t.globals.data)) =
      some (#[⟨0x40800000⟩], #[⟨0x40C00000⟩], #[⟨0x41300000⟩]) := by
  decide +kernel

end Network

end MessagePassing
