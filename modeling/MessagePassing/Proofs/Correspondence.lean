/-
  Message passing — graphs that correspond.

  A `Fibration` maps nodes to nodes and edges to edges, so that the edges that reach a node
  are mapped in their order onto those that reach its image.  A sum over these edges then has
  the same terms in the same order, and two graphs with the same rows at entities that
  correspond keep them in every round.

  * `State.fibration_of_relabelling`, `State.fibration_of_embedding`: other numbers for nodes,
    and a graph inside a larger one;
  * `Network.Round.sameRows`: one round keeps equal rows equal;
  * `Network.corresponding_rounds`: a compiled network gives equal rows on corresponding
    graphs, and does so in every round if it does not read the global row on the way.
-/
import MessagePassing.Proofs.Round

namespace MessagePassing

open MessagePassing.Count (within)

/-! ## Correspondences -/

namespace State

variable {s s' t t' : State} {f e : Nat → Nat}

/-- Nodes and edges of `s` are mapped to those of `t`: an edge keeps its ends, and the edges
    that reach a node are mapped one to one and in order onto those that reach its image. -/
structure Fibration (s t : State) (f e : Nat → Nat) : Prop where
  node_lt : ∀ v < s.nodes.rows, f v < t.nodes.rows
  edge_lt : ∀ k < s.edges.rows, e k < t.edges.rows
  senders : ∀ k < s.edges.rows, t.senders.getD (e k) 0 = f (s.senders.getD k 0)
  receivers : ∀ k < s.edges.rows, t.receivers.getD (e k) 0 = f (s.receivers.getD k 0)
  received : ∀ v < s.nodes.rows,
    (contributors s.receivers v).map e = contributors t.receivers (f v)

/-- Nodes and edges have the rows of their images. -/
structure SameRows (s t : State) (f e : Nat → Nat) : Prop where
  nodes : ∀ v < s.nodes.rows, s.nodes.rowAt v = t.nodes.rowAt (f v)
  edges : ∀ k < s.edges.rows, s.edges.rowAt k = t.edges.rowAt (e k)

/-- A correspondence does not depend on features. -/
theorem Fibration.of_sameGraph (h : s.Fibration t f e) (hs : s.SameGraph s')
    (ht : t.SameGraph t') : s'.Fibration t' f e := by
  have nodes : s'.nodes.rows = s.nodes.rows := hs.nodeCount
  have edges : s'.edges.rows = s.edges.rows := hs.edgeCount
  have nodes' : t'.nodes.rows = t.nodes.rows := ht.nodeCount
  have edges' : t'.edges.rows = t.edges.rows := ht.edgeCount
  obtain ⟨node_lt, edge_lt, senders, receivers, received⟩ := h
  constructor
  · rwa [nodes, nodes']
  · rwa [edges, edges']
  · rwa [edges, hs.senders, ht.senders]
  · rwa [edges, hs.receivers, ht.receivers]
  · rwa [nodes, hs.receivers, ht.receivers]

theorem lt_of_mem_contributors (s : State) {v k : Nat} (h : k ∈ contributors s.receivers v) :
    k < s.edges.rows := by
  obtain ⟨lt, -⟩ := Array.getElem?_eq_some_iff.1 (mem_contributors.1 h)
  rwa [← s.size_receivers]

/-- Nodes under other numbers. -/
theorem fibration_of_relabelling (node_lt : ∀ v < s.nodes.rows, f v < t.nodes.rows)
    (inj : ∀ v < s.nodes.rows, ∀ w < s.nodes.rows, f v = f w → v = w)
    (edges : t.edges.rows = s.edges.rows) (senders : t.senders = s.senders.map f)
    (receivers : t.receivers = s.receivers.map f) : s.Fibration t f id := by
  have ends : ∀ (a : Array Nat), a.size = s.edges.rows → ∀ k < s.edges.rows,
      (a.map f).getD k 0 = f (a.getD k 0) := by
    intro a size k hk
    simp [Array.getD, size, hk]
  constructor
  · exact node_lt
  · rw [edges]
    exact fun k hk => hk
  · rw [senders]
    exact ends _ s.size_senders
  · rw [receivers]
    exact ends _ s.size_receivers
  · intro v hv
    rw [List.map_id, receivers, contributors, contributors, Array.size_map]
    refine List.filter_congr fun k hk => ?_
    rw [decide_eq_decide, Array.getElem?_map, Option.map_eq_some_iff]
    constructor
    · intro reached
      exact ⟨v, reached, rfl⟩
    · rintro ⟨w, reached, same⟩
      have hw := s.receiver_lt w (Array.mem_of_getElem? reached)
      rw [reached, inj w hw v hv same]

/-- A graph as a part of another, whose other edges reach none of its nodes. -/
theorem fibration_of_embedding {senders receivers : Array Nat}
    (nodes : s.nodes.rows ≤ t.nodes.rows) (edges : s.edges.rows ≤ t.edges.rows)
    (hs : t.senders = s.senders ++ senders) (hr : t.receivers = s.receivers ++ receivers)
    (apart : ∀ v ∈ receivers, s.nodes.rows ≤ v) : s.Fibration t id id := by
  have ends : ∀ (a b : Array Nat), a.size = s.edges.rows → ∀ k < s.edges.rows,
      (a ++ b).getD k 0 = a.getD k 0 := by
    intro a b size k hk
    rw [← size] at hk
    rw [Array.getD_eq_getD_getElem?, Array.getD_eq_getD_getElem?, Array.getElem?_append_left hk]
  constructor
  · exact fun v hv => Nat.lt_of_lt_of_le hv nodes
  · exact fun k hk => Nat.lt_of_lt_of_le hk edges
  · rw [hs]
    exact ends _ _ s.size_senders
  · rw [hr]
    exact ends _ _ s.size_receivers
  · intro v hv
    have own : (List.range s.receivers.size).filter
        (fun k => (s.receivers ++ receivers)[k]? = some v) = contributors s.receivers v := by
      refine List.filter_congr fun k hk => ?_
      rw [Array.getElem?_append_left (List.mem_range.1 hk)]
    have others : ((List.range receivers.size).map (s.receivers.size + ·)).filter
        (fun k => (s.receivers ++ receivers)[k]? = some v) = [] := by
      rw [List.filter_eq_nil_iff, List.forall_mem_map]
      intro k hk
      rw [Array.getElem?_append_right (Nat.le_add_right _ _), Nat.add_sub_cancel_left,
        decide_eq_true_eq]
      intro reached
      have := apart v (Array.mem_of_getElem? reached)
      omega
    rw [List.map_id, hr, id, contributors.eq_def (s.receivers ++ receivers), Array.size_append,
      List.range_add, List.filter_append, own, others, List.append_nil]

end State

/-! ## Rows that are read -/

namespace Network

open State (Fibration SameRows)

variable {n : Network} {s s' t t' : State} {f e : Nat → Nat}

/-- Neither the edge nor the node update reads the global row. -/
def IgnoresGlobals (n : Network) : Prop :=
  .globals ∉ n.wiring.edge ∧ .globals ∉ n.wiring.node

/-- The global rows are equal, or it does not matter. -/
def SameGlobals (n : Network) (s t : State) : Prop :=
  s.globals.rowAt 0 = t.globals.rowAt 0 ∨ n.IgnoresGlobals

/-- The edge update reads an edge, its two nodes and the global row. -/
theorem edgeRow_congr {k k' : Nat} (edge : s.edges.rowAt k = t.edges.rowAt k')
    (sender : s.nodes.rowAt (s.senders.getD k 0) = t.nodes.rowAt (t.senders.getD k' 0))
    (receiver : s.nodes.rowAt (s.receivers.getD k 0) = t.nodes.rowAt (t.receivers.getD k' 0))
    (globals : n.SameGlobals s t) : n.edgeRow s k = n.edgeRow t k' := by
  have parts : ∀ x ∈ n.wiring.edge, edgePart s k x = edgePart t k' x := by
    intro x hx
    cases x with
    | edges => exact edge
    | senders => exact sender
    | receivers => exact receiver
    | globals => exact globals.resolve_right fun ignores => ignores.1 hx
  rw [edgeRow, edgeRow, List.map_congr_left parts]

/-- The node update reads a node, what it receives and the global row. -/
theorem nodeRow_congr {v v' : Nat} (node : s.nodes.rowAt v = t.nodes.rowAt v')
    (received : n.received s s' v = n.received t t' v') (globals : n.SameGlobals s t) :
    n.nodeRow s s' v = n.nodeRow t t' v' := by
  have parts : ∀ x ∈ n.wiring.node, n.nodePart s s' v x = n.nodePart t t' v' x := by
    intro x hx
    cases x with
    | nodes => exact node
    | receivedEdges => exact received
    | globals => exact globals.resolve_right fun ignores => ignores.2 hx
  rw [nodeRow, nodeRow, List.map_congr_left parts]

theorem edgeRow_eq (fibration : s.Fibration t f e) (rows : s.SameRows t f e)
    (globals : n.SameGlobals s t) {k : Nat} (hk : k < s.edges.rows) :
    n.edgeRow s k = n.edgeRow t (e k) := by
  refine edgeRow_congr (rows.edges k hk) ?_ ?_ globals
  · rw [rows.nodes _ (s.sender_row_lt hk), fibration.senders k hk]
  · rw [rows.nodes _ (s.receiver_row_lt hk), fibration.receivers k hk]

/-- The rows that a node receives are those that its image receives, in the same order. -/
theorem received_of_fibration (fibration : s.Fibration t f e)
    (edges : ∀ k < s.edges.rows, s'.edges.rowAt k = t'.edges.rowAt (e k))
    (width : s'.edges.cols = t'.edges.cols) {v : Nat} (hv : v < s.nodes.rows) :
    n.received s s' v = n.received t t' (f v) := by
  -- equal lists, not only equal sets: addition of scalars is not associative
  have rows : (contributors s.receivers v).map s'.edges.rowAt =
      (contributors t.receivers (f v)).map t'.edges.rowAt := by
    rw [← fibration.received v hv, List.map_map]
    exact List.map_congr_left fun k hk => edges k (s.lt_of_mem_contributors hk)
  rw [received, received, rows, width]

/-! ## Rounds -/

/-- **One round keeps corresponding rows equal.** -/
theorem Round.sameRows (hs : n.Round s s') (ht : n.Round t t') (fibration : s.Fibration t f e)
    (rows : s.SameRows t f e) (globals : n.SameGlobals s t) : s'.SameRows t' f e := by
  have nodeCount : s'.nodes.rows = s.nodes.rows := hs.nodeCount
  have edgeCount : s'.edges.rows = s.edges.rows := hs.edgeCount
  have width : s'.edges.cols = t'.edges.cols :=
    congrArg Widths.edges (hs.widths.trans ht.widths.symm)
  have edges : ∀ k < s.edges.rows, s'.edges.rowAt k = t'.edges.rowAt (e k) := by
    intro k hk
    rw [hs.edges k hk, ht.edges _ (fibration.edge_lt k hk), edgeRow_eq fibration rows globals hk]
  constructor
  · intro v hv
    rw [nodeCount] at hv
    rw [hs.nodes v hv, ht.nodes _ (fibration.node_lt v hv), nodeRow_congr (rows.nodes v hv)
      (received_of_fibration fibration edges width hv) globals]
  · intro k hk
    rw [edgeCount] at hk
    exact edges k hk

/-- A number of rounds, one after the other. -/
def rounds (n : Network) : Nat → State → Outcome State
  | 0, s => .ok s
  | k + 1, s => n.infer s >>= n.rounds k

/-- The state after a number of rounds. -/
def after (n : Network) : Nat → State → State
  | 0, s => s
  | k + 1, s => n.after k (n.round s)

/-- Rounds of a network that gives what it reads can go on as long as the first one fits. -/
theorem rounds_eq (sound : n.Sound) (stable : n.updates.outputWidths = n.inputWidths) (k : Nat)
    (widths : s.widths = n.inputWidths) :
    n.rounds k s = within (k = 0 ∨ n.Fits s) (n.after k s) := by
  induction k generalizing s with
  | zero => exact (Count.within_of_fits (.inl rfl) _).symm
  | succ k ih =>
    have same : s.SameGraph (n.round s) := (n.round_spec s).toSameGraph
    rw [rounds, infer_eq sound widths]
    refine Count.within_bind_congr (ih ((n.round_spec s).widths.trans stable)) ?_ rfl
    rw [n.fits_congr same]
    constructor
    · rintro ⟨fits, -⟩
      exact .inr fits
    · intro h
      have fits := h.resolve_left (Nat.succ_ne_zero k)
      exact ⟨fits, .inr fits⟩

theorem sameRows_after (ignores : n.IgnoresGlobals) (k : Nat) (fibration : s.Fibration t f e)
    (rows : s.SameRows t f e) : (n.after k s).SameRows (n.after k t) f e := by
  induction k generalizing s t with
  | zero => exact rows
  | succ k ih =>
    have next := n.round_spec s
    have next' := n.round_spec t
    exact ih (fibration.of_sameGraph next.toSameGraph next'.toSameGraph)
      (next.sameRows next' fibration rows (.inr ignores))

/-- **Corresponding graphs stay equal row by row.**  A compiled network, run on two states of
    its widths, gives equal rows to entities that correspond if the states do so and have the
    same global row, or a global row that the edge and node updates do not read.  In the
    second case rounds can be repeated, provided the network gives the widths that it reads. -/
theorem corresponding_rounds {d : Description} {p : Parameters} {rename : Option String}
    {withProgram : Bool} {m : Model} (compiled : d.compile p rename withProgram = .ok m)
    (network : m.block = .network n) (widths : s.widths = n.inputWidths)
    (widths' : t.widths = n.inputWidths) (fibration : s.Fibration t f e)
    (rows : s.SameRows t f e) :
    (n.SameGlobals s t → ∀ s' t', n.infer s = .ok s' → n.infer t = .ok t' →
        s'.SameRows t' f e) ∧
      (n.IgnoresGlobals → n.updates.outputWidths = n.inputWidths → ∀ k s' t',
        n.rounds k s = .ok s' → n.rounds k t = .ok t' → s'.SameRows t' f e) ∧
      (n.Fits s → n.Fits t → (∃ s' t', n.infer s = .ok s' ∧ n.infer t = .ok t') ∧
        (n.updates.outputWidths = n.inputWidths → ∀ k, ∃ s' t',
          n.rounds k s = .ok s' ∧ n.rounds k t = .ok t')) := by
  have sound := sound_of_compile compiled network
  refine ⟨?_, ?_, ?_⟩
  · intro globals s' t' run run'
    rw [infer_eq sound widths] at run
    rw [infer_eq sound widths'] at run'
    obtain ⟨-, rfl⟩ := Count.within_eq_ok.1 run
    obtain ⟨-, rfl⟩ := Count.within_eq_ok.1 run'
    exact (n.round_spec s).sameRows (n.round_spec t) fibration rows globals
  · intro ignores stable k s' t' run run'
    rw [rounds_eq sound stable k widths] at run
    rw [rounds_eq sound stable k widths'] at run'
    obtain ⟨-, rfl⟩ := Count.within_eq_ok.1 run
    obtain ⟨-, rfl⟩ := Count.within_eq_ok.1 run'
    exact sameRows_after ignores k fibration rows
  · intro fits fits'
    refine ⟨⟨n.round s, n.round t, ?_, ?_⟩, fun stable k => ⟨n.after k s, n.after k t, ?_, ?_⟩⟩
    · rw [infer_eq sound widths, Count.within_of_fits fits]
    · rw [infer_eq sound widths', Count.within_of_fits fits']
    · rw [rounds_eq sound stable k widths, Count.within_of_fits (.inr fits)]
    · rw [rounds_eq sound stable k widths', Count.within_of_fits (.inr fits')]

end Network

/-! ## A cycle over a loop -/

/-- The self-loop without the global row in the edge and node updates. -/
def Description.quiet : Description :=
  { selfLoop with
    wiring := ⟨[.edges, .senders, .receivers], [.nodes, .receivedEdges], Wiring.full.global⟩ }

/-- Its tensors: weights one and biases zero. -/
def Parameters.quiet : Parameters :=
  ofList [("edge.linear_0.weight", Array.replicate 3 1), ("edge.linear_0.bias", #[0]),
    ("node.linear_0.weight", Array.replicate 2 1), ("node.linear_0.bias", #[0]),
    ("global.linear_0.weight", Array.replicate 3 1), ("global.linear_0.bias", #[0])]

/-- Two nodes with an edge from each to the other, and another global row. -/
def State.cycle : State :=
  ⟨⟨2, 1, #[1, 1], rfl⟩, ⟨2, 1, #[1, 1], rfl⟩, ⟨1, 1, #[0], rfl⟩, #[0, 1], #[1, 0], rfl, rfl,
    rfl, by decide, by decide⟩

theorem State.fibration_cycle : cycle.Fibration .selfLoop (fun _ => 0) (fun _ => 0) := by
  constructor <;> decide

theorem State.sameRows_cycle : cycle.SameRows .selfLoop (fun _ => 0) (fun _ => 0) := by
  constructor <;> decide

/-- The cycle and the loop keep equal rows for ever. -/
theorem Network.corresponding_rounds_cycle : ∃ (m : Model) (n : Network),
    Description.quiet.compile .quiet none true = .ok m ∧ m.block = .network n ∧ n.IgnoresGlobals ∧
      ∀ k, ∃ s t, n.rounds k .cycle = .ok s ∧ n.rounds k .selfLoop = .ok t ∧
        s.SameRows t (fun _ => 0) fun _ => 0 := by
  obtain ⟨m, compiled⟩ : ∃ m, Description.quiet.compile .quiet none true = .ok m := by
    apply Outcome.exists_of_isOk
    decide +kernel
  obtain ⟨-, made, -⟩ := Description.compile_eq_ok compiled
  obtain ⟨n, network, -, -, wiring, inputs⟩ := made.network rfl
  have bound := made.updates
  rw [network, Block.updates] at bound
  have ignores : n.IgnoresGlobals := by
    rw [IgnoresGlobals, wiring]
    decide
  have stable : n.updates.outputWidths = n.inputWidths := by
    rw [inputs]
    exact Widths.ext bound.node.outputWidth_eq bound.edge.outputWidth_eq
      bound.global.outputWidth_eq
  have fits : n.Fits .cycle ∧ n.Fits .selfLoop := by
    simp only [Fits, shapes, bound.edge.inputWidth_eq, bound.edge.outputWidth_eq,
      bound.node.inputWidth_eq, bound.node.outputWidth_eq, bound.global.inputWidth_eq,
      bound.global.outputWidth_eq]
    decide
  obtain ⟨-, agree, answer⟩ := corresponding_rounds compiled network (s := .cycle) (t := .selfLoop)
    (by rw [inputs]; rfl) (by rw [inputs]; rfl) State.fibration_cycle State.sameRows_cycle
  refine ⟨m, n, compiled, network, ignores, fun k => ?_⟩
  obtain ⟨s, t, run, run'⟩ := (answer fits.1 fits.2).2 stable k
  exact ⟨s, t, run, run', agree ignores stable k s t run run'⟩

end MessagePassing
