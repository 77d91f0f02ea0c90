/-
  Message passing — networks without messages.

  A network that wires every entity to its own features sends nothing along its edges.  It
  still reduces edges and nodes in every round, but nobody reads the result, so that the
  network is an independent block with the same update functions.

  * `Network.round_eq`: one round of both blocks gives the same state;
  * `Description.compile_withArchitecture`: both architectures check and bind the same, in
    the same order;
  * `Description.compile_ownFeatures`: compiled in either architecture, a description fails
    alike or gives models that agree on every state.
-/
import MessagePassing.Proofs.Composition

namespace MessagePassing

open Buffer (Table)
open MessagePassing.Count (within limit)

/-! ## One round -/

namespace Network

variable {n : Network}

theorem edgeRow_ownFeatures (own : n.wiring = .ownFeatures) (s : State) (k : Nat) :
    n.edgeRow s k = s.edges.rowAt k := by
  simp [edgeRow, own, Wiring.ownFeatures, edgePart]

theorem nodeRow_ownFeatures (own : n.wiring = .ownFeatures) (s t : State) (v : Nat) :
    n.nodeRow s t v = s.nodes.rowAt v := by
  simp [nodeRow, own, Wiring.ownFeatures, nodePart]

theorem globalRow_ownFeatures (own : n.wiring = .ownFeatures) (s t : State) :
    n.globalRow s t = s.globals.rowAt 0 := by
  simp [globalRow, own, Wiring.ownFeatures, globalPart]

/-- The independent block with the update functions of the network. -/
def toIndependent (n : Network) : Independent := ⟨n.name, n.updates⟩

/-- A round of the network reads what a round of the independent block reads. -/
theorem round_eq (own : n.wiring = .ownFeatures) (s : State) :
    n.round s = n.toIndependent.round s := by
  have spec := n.round_spec s
  refine State.ext ?_ ?_ ?_ rfl rfl
  · refine Buffer.ext_rows rfl rfl fun v hv => ?_
    rw [spec.nodes v hv, nodeRow_ownFeatures own]
    exact (Buffer.rowAt_tableOf (fun _ _ => Perceptron.size_forward _ _) hv).symm
  · refine Buffer.ext_rows rfl rfl fun k hk => ?_
    rw [spec.edges k hk, edgeRow_ownFeatures own]
    exact (Buffer.rowAt_tableOf (fun _ _ => Perceptron.size_forward _ _) hk).symm
  · refine Buffer.ext_rows rfl rfl fun i hi => ?_
    obtain rfl : i = 0 := Nat.lt_one_iff.1 hi
    rw [spec.globals, globalRow_ownFeatures own]
    exact (Buffer.rowAt_tableOf (fun _ _ => Perceptron.size_forward _ _) Nat.one_pos).symm

/-- The network makes all tables that the independent block makes. -/
theorem Fits.toIndependent {s : State} (fits : n.Fits s) : n.toIndependent.Fits s := by
  intro shape hshape
  refine fits shape ?_
  simp only [Independent.shapes, Network.toIndependent, List.mem_cons, List.not_mem_nil,
    or_false] at hshape
  rcases hshape with rfl | rfl | rfl <;> simp [shapes]

/-- The independent block gives what the network gives. -/
theorem infer_toIndependent (n : Network) (own : n.wiring = .ownFeatures) {s : State}
    (fits : n.Fits s) :
    n.toIndependent.infer s = .ok (n.round s) := by
  rw [Independent.infer_eq, Count.within_of_fits fits.toIndependent, round_eq own]

end Network

/-! ## Compiling -/

namespace Description

/-- The same description in another architecture. -/
def withArchitecture (d : Description) (a : Architecture) : Description :=
  { d with architecture := a }

/-- The widths of the states that a description declares are counts. -/
def WidthsFit (d : Description) : Prop :=
  d.inputWidths.nodes < limit ∧ d.inputWidths.edges < limit ∧ d.inputWidths.globals < limit

instance (d : Description) : Decidable d.WidthsFit := inferInstanceAs (Decidable (_ ∧ _ ∧ _))

variable {d : Description}

/-- With its own features only, an update function reads rows of the width of its entity. -/
theorem rowWidths_ownFeatures (own : d.wiring = .ownFeatures) :
    d.rowWidths = ⟨d.inputWidths.edges, d.inputWidths.nodes, d.inputWidths.globals⟩ := by
  cases architecture : d.architecture <;>
    simp [rowWidths, architecture, own, Wiring.ownFeatures, Wiring.edgeBlock, Wiring.nodeBlock,
      Wiring.globalBlock]

theorem updateInputWidths_ownFeatures (own : d.wiring = .ownFeatures) (fits : d.WidthsFit)
    (a : Architecture) : (d.withArchitecture a).updateInputWidths =
      .ok ⟨d.inputWidths.edges, d.inputWidths.nodes, d.inputWidths.globals⟩ := by
  obtain ⟨nodes, edges, globals⟩ := fits
  have rows := rowWidths_ownFeatures (d := d.withArchitecture a) own
  rw [updateInputWidths_eq, Count.within_of_fits, rows]
  · rfl
  · intro _
    rw [rows]
    exact ⟨edges, nodes, globals⟩

theorem checkWiring_ownFeatures (own : d.wiring = .ownFeatures) (a : Architecture) :
    (d.withArchitecture a).checkWiring = .ok () := by
  cases a with
  | graphIndependent => rfl
  | graphNetwork =>
    rw [checkWiring]
    simp [withArchitecture, own, Wiring.check, Wiring.ownFeatures]

/-- What compiling makes before it puts a block together: the update functions and the
    reducers. -/
def parts (d : Description) (p : Parameters) :
    Outcome (PerUpdate Perceptron × PerRelation Reducer) := do
  d.checkWidths
  d.checkAdjacency
  let updates ← d.checkUpdates
  let reducers ← d.checkReducers
  let bound ← (bindUpdates updates
    ⟨d.inputWidths.edges, d.inputWidths.nodes, d.inputWidths.globals⟩ p).1
  pure (bound, reducers)

/-- The network that is made of these parts. -/
def ownNetwork (d : Description) (name : String)
    (parts : PerUpdate Perceptron × PerRelation Reducer) : Network :=
  ⟨name, parts.1, parts.2, .ownFeatures, d.inputWidths⟩

/-- The model of an architecture that is made of these parts. -/
def ownModel (d : Description) (rename : Option String) (withProgram : Bool)
    (parts : PerUpdate Perceptron × PerRelation Reducer) (a : Architecture) : Model :=
  let name := Identifier.ofName (rename.getD d.name)
  let block : Block := match a with
    | .graphNetwork => .network (d.ownNetwork name parts)
    | .graphIndependent => .independent (d.ownNetwork name parts).toIndependent
  ⟨name, block, if withProgram then some (d.program name block) else none⟩

/-- Both architectures check and bind the same, in the same order. -/
theorem compile_withArchitecture (own : d.wiring = .ownFeatures) (fits : d.WidthsFit)
    (p : Parameters) (rename : Option String) (withProgram : Bool) (a : Architecture) :
    (d.withArchitecture a).compile p rename withProgram = (do
      let parts ← d.parts p
      pure (d.ownModel rename withProgram parts a)) := by
  have wiring : (d.withArchitecture a).wiring = .ownFeatures := own
  rw [compile, block, checkWiring_ownFeatures own, updateInputWidths_ownFeatures own fits, wiring]
  simp only [parts, bind_assoc, pure_bind, Outcome.ok_bind, ownModel, ownNetwork,
    Network.toIndependent]
  cases a <;> rfl

end Description

/-! ## Both architectures -/

/-- **Without messages a network is an independent block.**  A description whose update
    functions read their own features compiles in both architectures or fails in both for the
    same reason; the two models have the same widths, and where the tables of a round fit they
    give the same state. -/
theorem Description.compile_ownFeatures (d : Description) (p : Parameters)
    (rename : Option String) (withProgram : Bool) (own : d.wiring = .ownFeatures)
    (fits : d.WidthsFit) :
    (∃ failure,
      (d.withArchitecture .graphNetwork).compile p rename withProgram = .error failure ∧
      (d.withArchitecture .graphIndependent).compile p rename withProgram = .error failure) ∨
    ∃ m i : Model,
      (d.withArchitecture .graphNetwork).compile p rename withProgram = .ok m ∧
      (d.withArchitecture .graphIndependent).compile p rename withProgram = .ok i ∧
      m.inputWidths = i.inputWidths ∧ m.outputWidths = i.outputWidths ∧
      ∀ s : State, s.widths = m.inputWidths → m.block.Fits s →
        ∃ t, m.infer s = .ok t ∧ i.infer s = .ok t := by
  have compiled := compile_withArchitecture own fits p rename withProgram
  cases made : d.parts p with
  | error failure =>
    rw [made] at compiled
    exact .inl ⟨failure, compiled .graphNetwork, compiled .graphIndependent⟩
  | ok parts =>
    rw [made] at compiled
    have network := compiled .graphNetwork
    have independent := compiled .graphIndependent
    refine .inr ⟨_, _, network, independent, ?_, rfl, fun s widths fits => ?_⟩
    · rw [Model.inputWidths_eq network, Model.inputWidths_eq independent]
      rfl
    · exact ⟨_, (Model.infer_eq network widths).trans (Count.within_of_fits fits _),
        (d.ownNetwork _ parts).infer_toIndependent rfl fits⟩

/-- Adders of one feature, wired to their own features. -/
def Description.ownAdder : Description := { adder 1 with wiring := .ownFeatures }

/-- They agree in both architectures. -/
theorem Description.compile_ownAdder :
    ownAdder.wiring = .ownFeatures ∧ ownAdder.WidthsFit ∧ ∃ (m i : Model) (t : State),
      (ownAdder.withArchitecture .graphNetwork).compile (.adder 1) none true = .ok m ∧
      (ownAdder.withArchitecture .graphIndependent).compile (.adder 1) none true = .ok i ∧
      m.infer .selfLoop = .ok t ∧ i.infer .selfLoop = .ok t := by
  have accepted : ((ownAdder.withArchitecture .graphNetwork).compile (.adder 1) none
      true).isOk = true := by decide +kernel
  refine ⟨rfl, by decide, ?_⟩
  obtain ⟨failure, refused, -⟩ | ⟨m, i, network, independent, -, -, agree⟩ :=
    compile_ownFeatures ownAdder (.adder 1) none true rfl (by decide)
  · rw [refused] at accepted
    cases accepted
  · have reads : State.selfLoop.widths = m.inputWidths := by
      rw [Model.inputWidths_eq network]
      rfl
    obtain ⟨-, made, -⟩ := compile_eq_ok network
    obtain ⟨n, block, -⟩ := made.network rfl
    have bound := made.updates
    have fits : m.block.Fits .selfLoop := by
      rw [block, Block.updates] at bound
      simp only [block, Block.Fits, Network.Fits, Network.shapes, bound.edge.inputWidth_eq,
        bound.edge.outputWidth_eq, bound.node.inputWidth_eq, bound.node.outputWidth_eq,
        bound.global.inputWidth_eq, bound.global.outputWidth_eq]
      decide
    obtain ⟨t, run, same⟩ := agree .selfLoop reads fits
    exact ⟨m, i, t, network, independent, run, same⟩

end MessagePassing
