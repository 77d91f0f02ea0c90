/-
  Message passing — how far information travels.

  A round brings a node what its edges carry, and an edge what its two nodes hold.  A network
  that does not read the global row on the way therefore moves information by one edge per
  round: after `k` rounds a node depends on the nodes that walk to it in at most `k` steps, and
  on the edges whose receiver walks to it in fewer.

  * `Network.Round.sameWithin`: a round costs one step of the neighbourhood in which two
    states have to agree;
  * `Network.sameWithin_after`: states that agree within `k + m` steps of a node agree within
    `m` steps of it after `k` rounds;
  * `Network.local_rounds`: the same for a compiled network, at the node itself.
-/
import MessagePassing.Proofs.Correspondence

namespace MessagePassing

/-! ## Neighbourhoods -/

namespace State

variable {s s' t t' : State} {i u v : Nat}

/-- `i` edges lead from node `u` to node `v`, each leaving the node that the one before
    reaches. -/
inductive Walk (s : State) : Nat → Nat → Nat → Prop where
  | stay (v : Nat) : s.Walk 0 v v
  | step {k i v : Nat} : k < s.edges.rows → s.Walk i (s.receivers.getD k 0) v →
      s.Walk (i + 1) (s.senders.getD k 0) v

theorem Walk.of_sameGraph (walk : s'.Walk i u v) (same : s.SameGraph s') : s.Walk i u v := by
  have edges : s'.edges.rows = s.edges.rows := same.edgeCount
  induction walk with
  | stay v => exact .stay v
  | step hk _ ih =>
    rw [same.receivers] at ih
    rw [same.senders]
    exact .step (by rwa [← edges]) ih

theorem Walk.start_lt (walk : s.Walk i u v) (hv : v < s.nodes.rows) : u < s.nodes.rows := by
  cases walk with
  | stay => exact hv
  | step hk _ => exact s.sender_row_lt hk

/-- The states agree on the nodes that walk to `v` in at most `k` steps, and on the edges whose
    receiver does so in fewer. -/
structure SameWithin (s t : State) (v k : Nat) : Prop where
  nodes : ∀ u, ∀ i ≤ k, s.Walk i u v → s.nodes.rowAt u = t.nodes.rowAt u
  edges : ∀ j < s.edges.rows, ∀ i < k, s.Walk i (s.receivers.getD j 0) v →
    s.edges.rowAt j = t.edges.rowAt j

end State

/-! ## Rounds -/

namespace Network

open State (Walk SameWithin)

variable {n : Network} {s s' t t' : State} {k v : Nat}

/-- A new edge reads no node further away than its receiver and one more step. -/
theorem Round.edge_eq (hs : n.Round s s') (ht : n.Round t t') (ignores : n.IgnoresGlobals)
    (same : s.SameGraph t) (agree : s.SameWithin t v (k + 1)) {j i : Nat} (hj : j < s.edges.rows)
    (hi : i ≤ k) (walk : s.Walk i (s.receivers.getD j 0) v) :
    s'.edges.rowAt j = t'.edges.rowAt j := by
  have edgeCount : t.edges.rows = s.edges.rows := same.edgeCount
  have edge := agree.edges j hj i (by omega) walk
  have receiver := agree.nodes _ i (by omega) walk
  have sender := agree.nodes _ (i + 1) (by omega) (.step hj walk)
  rw [hs.edges j hj, ht.edges j (by rwa [edgeCount]), edgeRow_congr edge
    (by rw [same.senders]; exact sender) (by rw [same.receivers]; exact receiver) (.inr ignores)]

/-- A new node reads itself and the new edges that reach it. -/
theorem Round.node_eq (hs : n.Round s s') (ht : n.Round t t') (ignores : n.IgnoresGlobals)
    (same : s.SameGraph t) (agree : s.SameWithin t v (k + 1)) {u i : Nat} (hu : u < s.nodes.rows)
    (hi : i ≤ k) (walk : s.Walk i u v) : s'.nodes.rowAt u = t'.nodes.rowAt u := by
  have nodeCount : t.nodes.rows = s.nodes.rows := same.nodeCount
  have width : s'.edges.cols = t'.edges.cols :=
    congrArg Widths.edges (hs.widths.trans ht.widths.symm)
  have rows : (contributors s.receivers u).map s'.edges.rowAt =
      (contributors t.receivers u).map t'.edges.rowAt := by
    rw [same.receivers]
    refine List.map_congr_left fun j hj => ?_
    have reaches : s.receivers.getD j 0 = u := by
      rw [Array.getD_eq_getD_getElem?, mem_contributors.1 hj, Option.getD_some]
    exact hs.edge_eq ht ignores same agree (s.lt_of_mem_contributors hj) hi
      (by rwa [reaches])
  have received : n.received s s' u = n.received t t' u := by
    rw [Network.received, Network.received, rows, width]
  rw [hs.nodes u hu, ht.nodes u (by rwa [nodeCount]),
    nodeRow_congr (agree.nodes u i (by omega) walk) received (.inr ignores)]

/-- **A round costs one step**: what two states agree on around a node shrinks by one edge. -/
theorem Round.sameWithin (hs : n.Round s s') (ht : n.Round t t') (ignores : n.IgnoresGlobals)
    (same : s.SameGraph t) (hv : v < s.nodes.rows) (agree : s.SameWithin t v (k + 1)) :
    s'.SameWithin t' v k := by
  have edgeCount : s'.edges.rows = s.edges.rows := hs.edgeCount
  constructor
  · intro u i hi walk
    have before := walk.of_sameGraph hs.toSameGraph
    exact hs.node_eq ht ignores same agree (before.start_lt hv) hi before
  · intro j hj i hi walk
    have before := walk.of_sameGraph hs.toSameGraph
    rw [hs.receivers] at before
    exact hs.edge_eq ht ignores same agree (by rwa [← edgeCount]) (Nat.le_of_lt hi) before

theorem sameGraph_rounds (same : s.SameGraph t) : (n.round s).SameGraph (n.round t) :=
  ⟨same.nodeCount, same.edgeCount, same.senders, same.receivers⟩

theorem sameWithin_after (ignores : n.IgnoresGlobals) (m : Nat) (same : s.SameGraph t)
    (hv : v < s.nodes.rows) (agree : s.SameWithin t v (k + m)) :
    (n.after k s).SameWithin (n.after k t) v m := by
  induction k generalizing s t with
  | zero => rwa [Nat.zero_add] at agree
  | succ k ih =>
    rw [Nat.add_right_comm] at agree
    exact ih (sameGraph_rounds same) hv
      ((n.round_spec s).sameWithin (n.round_spec t) ignores same hv agree)

/-- **Information travels at most one edge per round.**  A compiled network that gives the
    widths it reads and whose edge and node updates do not read the global row is run for `k`
    rounds on two states of one graph.  If they agree on the nodes that walk to `v` in at most
    `k` steps and on the edges whose receiver does so in fewer, the rows of `v` are equal after
    the rounds, whatever else the states hold; and all rounds give a state unless a table is
    too large for one. -/
theorem local_rounds {d : Description} {p : Parameters} {rename : Option String}
    {withProgram : Bool} {m : Model} (compiled : d.compile p rename withProgram = .ok m)
    (network : m.block = .network n) (stable : n.updates.outputWidths = n.inputWidths)
    (ignores : n.IgnoresGlobals) (widths : s.widths = n.inputWidths)
    (widths' : t.widths = n.inputWidths) (same : s.SameGraph t) (hv : v < s.nodes.rows)
    (agree : s.SameWithin t v k) :
    (k = 0 ∨ n.Fits s → ∃ s' t', n.rounds k s = .ok s' ∧ n.rounds k t = .ok t' ∧
        s'.nodes.rowAt v = t'.nodes.rowAt v) ∧
      (¬ (k = 0 ∨ n.Fits s) → n.rounds k s = .error (.fault .countOverflow) ∧
        n.rounds k t = .error (.fault .countOverflow)) := by
  have sound := sound_of_compile compiled network
  have fits_iff : k = 0 ∨ n.Fits t ↔ k = 0 ∨ n.Fits s := by rw [n.fits_congr same]
  have run := rounds_eq sound stable k widths
  have run' := rounds_eq sound stable k widths'
  constructor
  · intro fits
    rw [Count.within_of_fits fits] at run
    rw [Count.within_of_fits (fits_iff.2 fits)] at run'
    exact ⟨_, _, run, run',
      (sameWithin_after ignores 0 same hv agree).nodes v 0 (Nat.le_refl 0) (.stay v)⟩
  · intro unfit
    rw [Count.within_of_not_fits unfit] at run
    rw [Count.within_of_not_fits (mt fits_iff.1 unfit)] at run'
    exact ⟨run, run'⟩

end Network

/-! ## A path -/

/-- Three nodes in a row, with a value at the first one and one as the global row. -/
def State.path (first global : Scalar) : State :=
  ⟨⟨3, 1, #[first, 1, 1], rfl⟩, ⟨2, 1, #[1, 0], rfl⟩, ⟨1, 1, #[global], rfl⟩, #[0, 1], #[1, 2],
    by simp, by simp, rfl, by simp, by simp⟩

/-- The first node is two steps away from the last. -/
theorem State.sameWithin_path (a b x y : Scalar) : (path a x).SameWithin (path b y) 2 1 := by
  constructor
  · intro u i hi walk
    cases walk with
    | stay => rfl
    | @step k i _ hk walk =>
      obtain rfl | rfl : k = 0 ∨ k = 1 := by
        change k < 2 at hk
        omega
      · -- the edge from the first node reaches the second one, and there the walk ends
        obtain rfl : i = 0 := by omega
        cases walk
      · rfl
  · intro j hj _ _ _
    obtain rfl | rfl : j = 0 ∨ j = 1 := by
      change j < 2 at hj
      omega
    · rfl
    · rfl

/-- After one round the last node does not show what the first one held. -/
theorem Network.local_rounds_path : ∃ (m : Model) (n : Network) (s t : State),
    Description.quiet.compile .quiet none true = .ok m ∧ m.block = .network n ∧
      n.rounds 1 (.path 0 0) = .ok s ∧ n.rounds 1 (.path 1 1) = .ok t ∧
      s.nodes.rowAt 2 = t.nodes.rowAt 2 := by
  obtain ⟨m, compiled⟩ : ∃ m, Description.quiet.compile .quiet none true = .ok m := by
    apply Outcome.exists_of_isOk
    decide +kernel
  obtain ⟨-, made, -⟩ := Description.compile_eq_ok compiled
  obtain ⟨n, network, -, -, wiring, inputs⟩ := made.network rfl
  have bound := made.updates
  rw [network, Block.updates] at bound
  have ignores : n.IgnoresGlobals := by
    rw [IgnoresGlobals, wiring]
    decide
  have stable : n.updates.outputWidths = n.inputWidths := by
    rw [inputs]
    exact Widths.ext bound.node.outputWidth_eq bound.edge.outputWidth_eq
      bound.global.outputWidth_eq
  have fits : n.Fits (.path 0 0) := by
    simp only [Fits, shapes, bound.edge.inputWidth_eq, bound.edge.outputWidth_eq,
      bound.node.inputWidth_eq, bound.node.outputWidth_eq, bound.global.inputWidth_eq,
      bound.global.outputWidth_eq]
    decide
  obtain ⟨s, t, run, run', same⟩ := (local_rounds compiled network stable ignores (k := 1)
    (s := .path 0 0) (t := .path 1 1) (v := 2) (by rw [inputs]; rfl) (by rw [inputs]; rfl)
    ⟨rfl, rfl, rfl, rfl⟩ (by decide) (State.sameWithin_path 0 1 0 1)).1 (.inr fits)
  exact ⟨m, n, s, t, compiled, network, run, run', same⟩

end MessagePassing
