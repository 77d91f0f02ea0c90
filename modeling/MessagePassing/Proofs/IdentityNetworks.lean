/-
  Message passing — networks that pass graphs through.

  Where all layers are square and hold the identity, an output is its own input: the other
  products are zero, and zero is neutral for scalars without a sign.  Such layers keep rows, and
  with own features only, a round keeps the state.  So do any number of rounds.

  * `Dense.IsIdentity.apply_eq`, `Perceptron.IsIdentity.forward_eq`: layers and perceptrons;
  * `Block.PassesOn.round_eq`: a round;
  * `Description.Square.exists_compile`: such descriptions compile;
  * `Description.Square.rounds_unchanged`: they pass every graph through.
-/
import MessagePassing.Proofs.Evaluation
import MessagePassing.Proofs.IdentityTensors
import MessagePassing.Proofs.Layouts
import MessagePassing.Proofs.Neutral
import MessagePassing.Proofs.OwnFeatures

namespace MessagePassing

open Buffer (Table)
open MessagePassing.Count (limit within)
open Parameters (identityMatrix weightSlot biasSlot)

/-! ## Layers -/

/-- Neither a NaN nor an infinity is among the scalars, and no scalar has its sign bit set. -/
def AllUnsigned (x : Array Scalar) : Prop := ∀ y ∈ x, y.Unsigned

instance (x : Array Scalar) : Decidable (AllUnsigned x) :=
  inferInstanceAs (Decidable (∀ y ∈ x, y.Unsigned))

/-- The scalars of a part are among those of the whole. -/
theorem AllUnsigned.extract {x : Array Scalar} (h : AllUnsigned x) (start stop : Nat) :
    AllUnsigned (x.extract start stop) := by
  intro y hy
  obtain ⟨i, _, rfl⟩ := Array.mem_extract_iff_getElem.1 hy
  exact h _ (Array.getElem_mem _)

theorem AllUnsigned.getD {x : Array Scalar} (h : AllUnsigned x) (i : Nat) :
    (x.getD i 0).Unsigned := by
  rw [Array.getD_eq_getD_getElem?]
  by_cases inside : i < x.size
  · rw [Array.getElem?_eq_getElem inside]
    exact h _ (Array.getElem_mem inside)
  · rw [Array.getElem?_eq_none (Nat.le_of_not_lt inside)]
    exact Scalar.unsigned_zero

/-- Sums against a column of the identity matrix: they are zero until the one is met, and then
    they stay what they are. -/
theorem Scalar.foldl_unit {f : Nat → Scalar} (unsigned : ∀ i, (f i).Unsigned) (o n : Nat) :
    (List.range n).foldl (fun sum i => sum + f i * if i = o then 1 else 0) 0 =
      if o < n then f o else 0 := by
  induction n with
  | zero => rfl
  | succ n ih =>
    rw [List.range_succ, List.foldl_append, ih, List.foldl_cons, List.foldl_nil]
    rcases Nat.lt_trichotomy o n with before | rfl | after
    · rw [if_pos before, if_neg before.ne', if_pos (by omega), (unsigned n).mul_zero,
        (unsigned o).add_zero]
    · rw [if_neg (lt_irrefl o), if_pos rfl, if_pos (Nat.lt_succ_self o), (unsigned o).mul_one,
        (unsigned o).zero_add]
    · rw [if_neg (by omega), if_neg after.ne, if_neg (by omega), (unsigned n).mul_zero,
        Scalar.unsigned_zero.add_zero]

namespace Dense

variable {d : Dense} {p : Parameters} {module : String} {layout : WeightLayout}
  {layer width : Nat}

/-- A square layer with ones on the diagonal and no biases. -/
structure IsIdentity (d : Dense) (width : Nat) : Prop where
  input : d.input = width
  output : d.output = width
  bias : d.bias = Array.replicate width 0
  weight : ∀ i < width, ∀ o < width, d.weightAt i o = if i = o then 1 else 0

/-- The identity is its own transposition, so that the layout does not matter. -/
theorem Holds.isIdentity (holds : d.Holds p module layout layer width width)
    (weights : p.get? (weightSlot module layer) = some (identityMatrix width))
    (biases : p.get? (biasSlot module layer) = some (Array.replicate width 0)) :
    d.IsIdentity width := by
  obtain ⟨stored, there, -, entries⟩ := holds.weight
  rw [weights] at there
  cases there
  refine ⟨holds.input_eq, holds.output_eq, ?_, fun i hi o ho => ?_⟩
  · exact Option.some.inj (holds.bias.symm.trans biases)
  · rw [entries i hi o ho]
    cases layout with
    | inOut => exact Parameters.getD_identityMatrix hi ho
    | outIn =>
      rw [WeightLayout.place, Parameters.getD_identityMatrix ho hi]
      simp only [eq_comm]

/-- **Such a layer keeps rows.** -/
theorem IsIdentity.apply_eq (h : d.IsIdentity width) {x : Array Scalar} (size : x.size = width)
    (unsigned : AllUnsigned x) : d.apply x = x := by
  refine Array.ext (by rw [size_apply, h.output, size]) fun o _ ho => ?_
  have inside : o < width := size ▸ ho
  have start : d.bias.getD o 0 = 0 := by simp [h.bias, Array.getD_eq_getD_getElem?, inside]
  have column : ∀ (sum : Scalar), ∀ i ∈ List.range width,
      sum + x.getD i 0 * d.weightAt i o = sum + x.getD i 0 * if i = o then 1 else 0 :=
    fun sum i hi => by rw [h.weight i (List.mem_range.1 hi) o inside]
  have formula := d.getElem?_apply x (by rw [h.output]; exact inside)
  rw [size, start, List.foldl_ext _ _ _ column, Scalar.foldl_unit unsigned.getD, if_pos inside,
    Array.getElem?_eq_some_iff] at formula
  obtain ⟨_, value⟩ := formula
  simpa [Array.getD_eq_getD_getElem?, ho] using value

end Dense

/-! ## Perceptrons -/

/-- All activations but the sigmoid keep scalars without a sign. -/
theorem Activation.onRow_eq_self {a : Activation} (straight : a ≠ .sigmoid) {x : Array Scalar}
    (unsigned : AllUnsigned x) : a.onRow x = x := by
  refine (Array.map_congr_left fun y hy => ?_).trans (Array.map_id' x)
  cases a with
  | identity => rfl
  | relu => exact if_neg (by rw [(unsigned y hy).unsigned]; decide)
  | sigmoid => exact absurd rfl straight

namespace Perceptron

/-- All layers are the identity, and the activation is not the sigmoid. -/
structure IsIdentity (P : Perceptron) (width : Nat) : Prop where
  layers : ∀ d ∈ P.layers, d.IsIdentity width
  activation : P.activation ≠ .sigmoid

variable {P : Perceptron} {width : Nat} {x : Array Scalar}

theorem applyLayers_eq_self (straight : P.activation ≠ .sigmoid) {ds : List Dense}
    (layers : ∀ d ∈ ds, d.IsIdentity width) (size : x.size = width) (unsigned : AllUnsigned x)
    (k : Nat) : P.applyLayers k ds x = x := by
  induction ds generalizing k with
  | nil => rfl
  | cons d rest ih =>
    obtain ⟨first, others⟩ := List.forall_mem_cons.1 layers
    have once : P.applyLayer k d x = x := by
      rw [applyLayer, first.apply_eq size unsigned, Activation.onRow_eq_self straight unsigned,
        ite_self]
    rw [applyLayers, once, ih others]

theorem IsIdentity.forward_eq (h : P.IsIdentity width) (size : x.size = width)
    (unsigned : AllUnsigned x) : P.forward x = x :=
  applyLayers_eq_self h.activation h.layers size unsigned 0

theorem IsIdentity.outputWidth_eq (h : P.IsIdentity width) : P.outputWidth = width :=
  (h.layers _ (List.getLast_mem P.nonempty)).output

theorem IsIdentity.inputWidth_eq (h : P.IsIdentity width) : P.inputWidth = width :=
  (h.layers _ (List.head_mem P.nonempty)).input

/-- On every row of a table, nothing changes. -/
theorem IsIdentity.rowwise_eq {rows : Nat} {b : Table rows} (h : P.IsIdentity b.val.cols)
    (unsigned : AllUnsigned b.val.data) : Independent.rowwise P b = b := by
  refine Buffer.table_ext h.outputWidth_eq fun i hi => ?_
  have row : AllUnsigned (b.val.rowAt i) := unsigned.extract _ _
  exact (Buffer.rowAt_tableOf _ hi).trans (h.forward_eq (Buffer.size_rowAt_table b hi) row)

end Perceptron

/-! ## Rounds -/

/-- No feature of the state has a sign. -/
structure State.Unsigned (s : State) : Prop where
  nodes : AllUnsigned s.nodes.data
  edges : AllUnsigned s.edges.data
  globals : AllUnsigned s.globals.data

namespace Block

/-- All update functions are the identity, and a network reads own features only. -/
structure PassesOn (b : Block) (w : Widths) : Prop where
  edge : b.updates.edge.IsIdentity w.edges
  node : b.updates.node.IsIdentity w.nodes
  global : b.updates.global.IsIdentity w.globals
  own : ∀ n, b = .network n → n.wiring = .ownFeatures

variable {b : Block} {s : State}

theorem round_independent_eq (i : Independent) (h : (independent i).PassesOn s.widths)
    (unsigned : s.Unsigned) : i.round s = s := by
  have nodes := h.node.rowwise_eq (b := s.nodes.table) unsigned.nodes
  have edges := h.edge.rowwise_eq (b := s.edges.table) unsigned.edges
  have globals := h.global.rowwise_eq (b := s.globalTable) unsigned.globals
  exact State.ext (congrArg Subtype.val nodes) (congrArg Subtype.val edges)
    (congrArg Subtype.val globals) rfl rfl

/-- **A round keeps the state.** -/
theorem PassesOn.round_eq (h : b.PassesOn s.widths) (unsigned : s.Unsigned) : b.round s = s := by
  cases b with
  | network n =>
    have alone : (independent n.toIndependent).PassesOn s.widths :=
      ⟨h.edge, h.node, h.global, by simp⟩
    exact (Network.round_eq (h.own n rfl) s).trans (round_independent_eq _ alone unsigned)
  | independent i => exact round_independent_eq i h unsigned

/-- A round makes tables as large as those of the state, and one row of edge features per node. -/
theorem PassesOn.fits_network {n : Network} (h : (network n).PassesOn s.widths)
    (narrow : s.widths.nodes < limit ∧ s.widths.edges < limit ∧ s.widths.globals < limit) :
    (network n).Fits s ↔ s.nodes.rows * s.nodes.cols < limit ∧
      s.edges.rows * s.edges.cols < limit ∧ s.nodes.rows * s.edges.cols < limit := by
  obtain ⟨nodes, edges, globals⟩ := narrow
  obtain ⟨edge, node, global, -⟩ := h
  simp only [updates] at edge node global
  simp only [Fits, Network.Fits, Network.shapes, edge.inputWidth_eq, edge.outputWidth_eq,
    node.inputWidth_eq, node.outputWidth_eq, global.inputWidth_eq, global.outputWidth_eq,
    List.forall_mem_cons, Nat.one_mul]
  constructor
  · rintro ⟨ofEdges, -, received, ofNodes, -⟩
    exact ⟨ofNodes, ofEdges, received⟩
  · rintro ⟨ofNodes, ofEdges, received⟩
    exact ⟨ofEdges, ofEdges, received, ofNodes, ofNodes, nodes, edges, globals, globals, by simp⟩

/-- Without messages it only makes tables as large as those of the state. -/
theorem PassesOn.fits_independent {i : Independent} (h : (independent i).PassesOn s.widths)
    (narrow : s.widths.nodes < limit ∧ s.widths.edges < limit ∧ s.widths.globals < limit) :
    (independent i).Fits s ↔
      s.nodes.rows * s.nodes.cols < limit ∧ s.edges.rows * s.edges.cols < limit := by
  obtain ⟨edge, node, global, -⟩ := h
  simp only [updates] at edge node global
  simp only [Fits, Independent.Fits, Independent.shapes, edge.outputWidth_eq, node.outputWidth_eq,
    global.outputWidth_eq, List.forall_mem_cons, Nat.one_mul]
  constructor
  · rintro ⟨ofEdges, ofNodes, -⟩
    exact ⟨ofNodes, ofEdges⟩
  · rintro ⟨ofNodes, ofEdges⟩
    exact ⟨ofEdges, ofNodes, narrow.2.2, by simp⟩

end Block

/-- A number of rounds, one after the other. -/
def Model.rounds (m : Model) : Nat → State → Outcome State
  | 0, s => .ok s
  | k + 1, s => m.infer s >>= m.rounds k

/-- What a round keeps, all rounds keep. -/
theorem Model.rounds_eq_self {m : Model} {s : State} {fits : Prop} [Decidable fits]
    (once : m.infer s = within fits s) (k : Nat) : m.rounds k s = within (k = 0 ∨ fits) s := by
  induction k with
  | zero => exact (Count.within_of_fits (.inl rfl) s).symm
  | succ k ih =>
    rw [rounds, once]
    refine Count.within_bind_congr ih ?_ rfl
    constructor
    · exact fun h => .inr h.1
    · exact fun h => ⟨h.resolve_left k.succ_ne_zero, .inr (h.resolve_left k.succ_ne_zero)⟩

/-! ## Descriptions -/

/-- A perceptron without sigmoid, all of whose layers have this width. -/
structure UpdateDeclaration.Square (u : UpdateDeclaration) (width : Nat) : Prop where
  kind : u.kind = "mlp"
  activation : u.activation ∈ ["identity", "linear", "relu"]
  nonempty : u.layerSizes ≠ []
  square : ∀ n ∈ u.layerSizes, n = width

namespace UpdateDeclaration.Square

variable {u : UpdateDeclaration} {width : Nat} {p : Parameters}

theorem wellFormed (h : u.Square width) (positive : 0 < width) : u.WellFormed where
  kind := h.kind
  activation := by
    have known := h.activation
    simp only [List.mem_cons, List.not_mem_nil, or_false] at known
    rcases known with known | known | known <;> simp [known, Activation.names]
  nonempty := h.nonempty
  positive n hn := by rwa [h.square n hn]

theorem straight (h : u.Square width) {a : Activation}
    (tag : Activation.ofTag u.activation = .ok a) : a ≠ .sigmoid := by
  rintro rfl
  have known := h.activation
  simp only [List.mem_cons, List.not_mem_nil, or_false] at known
  rcases known with known | known | known <;> rw [known] at tag <;> cases tag

/-- The widths in front of a layer and behind it. -/
theorem widths (h : u.Square width) {i a b : Nat} (before : (width :: u.layerSizes)[i]? = some a)
    (after : u.layerSizes[i]? = some b) : a = width ∧ b = width := by
  refine ⟨?_, h.square b (List.mem_of_getElem? after)⟩
  rcases List.mem_cons.1 (List.mem_of_getElem? before) with here | mem
  · exact here
  · exact h.square a mem

/-- The identity fills the slots of the layers. -/
theorem filled (h : u.Square width) (holds : p.HoldsIdentity u.module width u.layerSizes.length)
    {s : Slot} (mem : s ∈ layerSlots u.module 0 width u.layerSizes) : s.Filled p := by
  obtain ⟨i, _, _, before, after, slot⟩ := mem_layerSlots mem
  obtain ⟨rfl, rfl⟩ := h.widths before after
  obtain ⟨weight, bias⟩ := holds i (List.getElem?_eq_some_iff.1 after).1
  rw [Nat.zero_add] at slot
  rcases slot with rfl | rfl
  · exact ⟨_, weight, Parameters.size_identityMatrix _,
      fun x hx => Parameters.finite_identityMatrix hx⟩
  · refine ⟨_, bias, Array.size_replicate, fun x hx => ?_⟩
    rw [(Array.mem_replicate.1 hx).2]
    exact Scalar.unsigned_zero.finite

theorem length_lt (h : u.Square width) (fits : width * width < limit) {s : Slot}
    (mem : s ∈ layerSlots u.module 0 width u.layerSizes) : s.length < limit := by
  obtain ⟨i, _, _, before, after, slot⟩ := mem_layerSlots mem
  obtain ⟨rfl, rfl⟩ := h.widths before after
  rcases slot with rfl | rfl
  · exact fits
  · exact Nat.lt_of_le_of_lt (Nat.le_mul_self _) fits

/-- Bound to the identity, the perceptron is the identity. -/
theorem isIdentity (h : u.Square width) (holds : p.HoldsIdentity u.module width u.layerSizes.length)
    {P : Perceptron} (made : u.Realizes p width P) : P.IsIdentity width := by
  refine ⟨fun d hd => ?_, h.straight made.activation⟩
  obtain ⟨i, hi⟩ := List.getElem?_of_mem hd
  have inside : i < u.layerSizes.length := by
    rw [← made.layers.map_output, List.length_map]
    exact (List.getElem?_eq_some_iff.1 hi).1
  have after := List.getElem?_eq_getElem inside
  have reached : i < (width :: u.layerSizes).length := Nat.lt_succ_of_lt inside
  have before := List.getElem?_eq_getElem reached
  obtain ⟨e, he, bound⟩ := made.layers.getElem? before after
  obtain rfl : d = e := Option.some.inj (hi.symm.trans he)
  obtain ⟨a, b⟩ := h.widths before after
  rw [a, b, Nat.zero_add] at bound
  exact bound.isIdentity (holds i inside).1 (holds i inside).2

end UpdateDeclaration.Square

namespace Description

/-- Own features only, and for every entity a perceptron whose layers are as wide as it is. -/
structure Square (d : Description) : Prop where
  own : d.wiring = .ownFeatures
  positive : d.inputWidths.Positive
  endpoints : ∀ e ∈ d.edges, e.1 < d.nodeCount ∧ e.2 < d.nodeCount
  reducers : ∀ tag ∈ d.reducers.toList, tag ∈ Reducer.names
  edge : d.updates.edge.Square d.inputWidths.edges
  node : d.updates.node.Square d.inputWidths.nodes
  global : d.updates.global.Square d.inputWidths.globals
  modules : (d.updates.toList.map (·.module)).Nodup

/-- The identity for each of the update functions. -/
def identityTensors (d : Description) : Outcome Parameters := do
  let tensors (u : UpdateDeclaration) (width : Nat) :=
    Parameters.identity u.module width u.layerSizes.length
  let edge ← tensors d.updates.edge d.inputWidths.edges
  let node ← tensors d.updates.node d.inputWidths.nodes
  let global ← tensors d.updates.global d.inputWidths.globals
  pure ((edge.extend node).extend global)

/-- The tables of a round fit: those of the state, and in a network one row of edge features per
    node. -/
def RoundFits (d : Description) (s : State) : Prop :=
  s.nodes.rows * s.nodes.cols < limit ∧ s.edges.rows * s.edges.cols < limit ∧
    (d.architecture = .graphNetwork → s.nodes.rows * s.edges.cols < limit)

instance (d : Description) (s : State) : Decidable (d.RoundFits s) :=
  inferInstanceAs (Decidable (_ ∧ _ ∧ (_ → _)))

/-- The matrices that there are have counts of values. -/
theorem squares_lt {d : Description} {p : Parameters} (tensors : d.identityTensors = .ok p) :
    d.inputWidths.edges * d.inputWidths.edges < limit ∧
      d.inputWidths.nodes * d.inputWidths.nodes < limit ∧
      d.inputWidths.globals * d.inputWidths.globals < limit := by
  obtain ⟨edge, hedge, tensors⟩ := Outcome.bind_eq_ok.1 tensors
  obtain ⟨node, hnode, tensors⟩ := Outcome.bind_eq_ok.1 tensors
  obtain ⟨global, hglobal, -⟩ := Outcome.bind_eq_ok.1 tensors
  exact ⟨(Parameters.identity_eq_ok.1 hedge).1, (Parameters.identity_eq_ok.1 hnode).1,
    (Parameters.identity_eq_ok.1 hglobal).1⟩

theorem widthsFit_of_tensors {d : Description} {p : Parameters}
    (tensors : d.identityTensors = .ok p) : d.WidthsFit := by
  obtain ⟨edges, nodes, globals⟩ := squares_lt tensors
  exact ⟨(Nat.le_mul_self _).trans_lt nodes, (Nat.le_mul_self _).trans_lt edges,
    (Nat.le_mul_self _).trans_lt globals⟩

namespace Square

variable {d : Description} {p : Parameters} (square : d.Square)
include square

/-- The modules are pairwise different. -/
theorem apart : d.updates.edge.module ≠ d.updates.node.module ∧
    d.updates.edge.module ≠ d.updates.global.module ∧
    d.updates.node.module ≠ d.updates.global.module := by
  have modules := square.modules
  simp only [PerUpdate.toList, List.map_cons, List.map_nil, List.nodup_cons, List.mem_cons,
    List.not_mem_nil, or_false, not_or] at modules
  exact ⟨modules.1.1, modules.1.2, modules.2.1⟩

/-- The identity of every module is among the tensors. -/
theorem holds (tensors : d.identityTensors = .ok p) :
    p.HoldsIdentity d.updates.edge.module d.inputWidths.edges d.updates.edge.layerSizes.length ∧
      p.HoldsIdentity d.updates.node.module d.inputWidths.nodes d.updates.node.layerSizes.length ∧
      p.HoldsIdentity d.updates.global.module d.inputWidths.globals
        d.updates.global.layerSizes.length := by
  obtain ⟨edge, hedge, tensors⟩ := Outcome.bind_eq_ok.1 tensors
  obtain ⟨node, hnode, tensors⟩ := Outcome.bind_eq_ok.1 tensors
  obtain ⟨global, hglobal, tensors⟩ := Outcome.bind_eq_ok.1 tensors
  cases tensors
  obtain ⟨edgeNode, edgeGlobal, nodeGlobal⟩ := square.apart
  have underNode := Parameters.under_identity hnode
  have underGlobal := Parameters.under_identity hglobal
  refine ⟨?_, ?_, (Parameters.holdsIdentity_identity hglobal).extend_right _⟩
  · exact ((Parameters.holdsIdentity_identity hedge).extend_left underNode edgeNode).extend_left
      underGlobal edgeGlobal
  · exact ((Parameters.holdsIdentity_identity hnode).extend_right edge).extend_left underGlobal
      nodeGlobal

theorem slots_eq : d.slots =
    layerSlots d.updates.edge.module 0 d.inputWidths.edges d.updates.edge.layerSizes ++
      (layerSlots d.updates.node.module 0 d.inputWidths.nodes d.updates.node.layerSizes ++
        layerSlots d.updates.global.module 0 d.inputWidths.globals
          d.updates.global.layerSizes) := by
  rw [slots, rowWidths_ownFeatures square.own]

theorem nodup_slots : (d.slots.map (·.name)).Nodup := by
  obtain ⟨edgeNode, edgeGlobal, nodeGlobal⟩ := square.apart
  rw [square.slots_eq, List.map_append, List.map_append, List.nodup_append, List.nodup_append]
  refine ⟨nodup_layerSlots, ⟨nodup_layerSlots, nodup_layerSlots, disjoint_layerSlots nodeGlobal⟩,
    fun a ha b hb => ?_⟩
  rcases List.mem_append.1 hb with hb | hb
  · exact disjoint_layerSlots edgeNode a ha b hb
  · exact disjoint_layerSlots edgeGlobal a ha b hb

theorem accepted (tensors : d.identityTensors = .ok p) : d.Accepted p where
  widths := square.positive
  endpoints := square.endpoints
  updates := by
    obtain ⟨nodes, edges, globals⟩ := square.positive
    simp only [PerUpdate.toList, List.forall_mem_cons]
    exact ⟨square.edge.wellFormed edges, square.node.wellFormed nodes,
      square.global.wellFormed globals, by simp⟩
  reducers := square.reducers
  connected _ := by
    rw [square.own]
    decide
  distinct := square.nodup_slots
  tensors s hs := by
    obtain ⟨edge, node, global⟩ := square.holds tensors
    rw [square.slots_eq, List.mem_append, List.mem_append] at hs
    rcases hs with hs | hs | hs
    · exact square.edge.filled edge hs
    · exact square.node.filled node hs
    · exact square.global.filled global hs

/-- **Identity networks compile.** -/
theorem exists_compile (tensors : d.identityTensors = .ok p) (rename : Option String)
    (withProgram : Bool) : ∃ m, d.compile p rename withProgram = .ok m := by
  obtain ⟨edges, nodes, globals⟩ := squares_lt tensors
  refine exists_compile_iff.2 ⟨square.accepted tensors, fun _ => ?_, fun s hs => ?_⟩
  · obtain ⟨nodes, edges, globals⟩ := widthsFit_of_tensors tensors
    rw [rowWidths_ownFeatures square.own]
    exact ⟨edges, nodes, globals⟩
  · rw [square.slots_eq, List.mem_append, List.mem_append] at hs
    rcases hs with hs | hs | hs
    · exact square.edge.length_lt edges hs
    · exact square.node.length_lt nodes hs
    · exact square.global.length_lt globals hs

variable {rename : Option String} {withProgram : Bool} {m : Model}

/-- The compiled block passes on what it reads. -/
theorem passesOn (tensors : d.identityTensors = .ok p)
    (compiled : d.compile p rename withProgram = .ok m) : m.block.PassesOn d.inputWidths := by
  obtain ⟨-, made, -⟩ := compile_eq_ok compiled
  obtain ⟨edge, node, global⟩ := square.holds tensors
  obtain ⟨realizesEdge, realizesNode, realizesGlobal⟩ := made.updates
  rw [rowWidths_ownFeatures square.own] at realizesEdge realizesNode realizesGlobal
  refine ⟨square.edge.isIdentity edge realizesEdge, square.node.isIdentity node realizesNode,
    square.global.isIdentity global realizesGlobal, fun n network => ?_⟩
  cases architecture : d.architecture with
  | graphNetwork =>
    obtain ⟨n', same, -, -, wiring, -⟩ := made.network architecture
    obtain rfl : n = n' := Block.network.inj (network.symm.trans same)
    rw [wiring, square.own]
  | graphIndependent =>
    obtain ⟨i, independent, -⟩ := made.independent architecture
    rw [network] at independent
    cases independent

/-- The tensors bound all tables of a round but these. -/
theorem fits_iff (tensors : d.identityTensors = .ok p)
    (compiled : d.compile p rename withProgram = .ok m) {s : State}
    (widths : s.widths = d.inputWidths) : m.block.Fits s ↔ d.RoundFits s := by
  obtain ⟨-, made, -⟩ := compile_eq_ok compiled
  have passes := square.passesOn tensors compiled
  have narrow := widthsFit_of_tensors tensors
  rw [WidthsFit] at narrow
  rw [← widths] at passes narrow
  cases architecture : d.architecture with
  | graphNetwork =>
    obtain ⟨n, network, -⟩ := made.network architecture
    rw [network] at passes ⊢
    simp [RoundFits, architecture, passes.fits_network narrow]
  | graphIndependent =>
    obtain ⟨i, independent, -⟩ := made.independent architecture
    rw [independent] at passes ⊢
    simp [RoundFits, architecture, passes.fits_independent narrow]

/-- **A round gives the state that it gets.** -/
theorem infer_eq_self (tensors : d.identityTensors = .ok p)
    (compiled : d.compile p rename withProgram = .ok m) {s : State}
    (widths : s.widths = d.inputWidths) (unsigned : s.Unsigned) :
    m.infer s = within (d.RoundFits s) s := by
  have reads : s.widths = m.inputWidths := widths.trans (Model.inputWidths_eq compiled).symm
  have passes := square.passesOn tensors compiled
  rw [← widths] at passes
  rw [Model.infer_eq compiled reads, passes.round_eq unsigned]
  exact Count.within_congr (square.fits_iff tensors compiled widths) rfl

end Square

/-- **Identity networks pass every graph through.**  A description of either architecture with
    own features only, whose update functions are perceptrons as wide as their entities, compiles
    with the identity tensors, which have their ones exactly on the diagonal.  On every state of
    its widths whose features are finite and without a sign, any number of rounds gives the state
    again, bit for bit; only a table whose number of values is no count stops them. -/
theorem Square.rounds_unchanged {d : Description} {p : Parameters} (square : d.Square)
    (tensors : d.identityTensors = .ok p) (rename : Option String) (withProgram : Bool) :
    (∀ (module : String) (width layers : Nat) (q : Parameters),
      Parameters.identity module width layers = .ok q → ∀ l < layers,
        q.get? (biasSlot module l) = some (Array.replicate width 0) ∧
        ∃ weight, q.get? (weightSlot module l) = some weight ∧ weight.size = width * width ∧
          ∀ i < width, ∀ j < width,
            weight.getD (i * width + j) 0 = if i = j then 1 else 0) ∧
    ∃ m, d.compile p rename withProgram = .ok m ∧
      ∀ s : State, s.widths = d.inputWidths → s.Unsigned →
        (d.RoundFits s → ∀ k, m.rounds k s = .ok s) ∧
        (¬ d.RoundFits s → ∀ k, 0 < k → m.rounds k s = .error (.fault .countOverflow)) := by
  refine ⟨fun module width layers q made l hl => ?_, ?_⟩
  · obtain ⟨weight, bias⟩ := Parameters.holdsIdentity_identity made l hl
    exact ⟨bias, _, weight, Parameters.size_identityMatrix width,
      fun i hi j hj => Parameters.getD_identityMatrix hi hj⟩
  · obtain ⟨m, compiled⟩ := square.exists_compile tensors rename withProgram
    refine ⟨m, compiled, fun s widths unsigned => ?_⟩
    have rounds := Model.rounds_eq_self (square.infer_eq_self tensors compiled widths unsigned)
    refine ⟨fun fits k => ?_, fun unfit k some => ?_⟩
    · rw [rounds, Count.within_of_fits (.inr fits)]
    · rw [rounds, Count.within_of_not_fits]
      exact not_or.2 ⟨some.ne', unfit⟩

/-- Two nodes, joined by an edge, and two layers for every entity. -/
def passing : Description where
  name := "core"
  architecture := .graphNetwork
  nodeCount := 2
  edges := [(0, 1)]
  inputWidths := ⟨2, 2, 2⟩
  updates := ⟨{ UpdateDeclaration.perceptron "edge" [2, 2] with activateFinal := true },
    { UpdateDeclaration.perceptron "node" [2, 2] with weightLayout := .outIn },
    UpdateDeclaration.perceptron "global" [2]⟩
  reducers := ⟨"sum", "mean", "sum"⟩
  wiring := .ownFeatures

end Description

/-- One tenth to eight tenths. -/
def State.tenths : State :=
  ⟨⟨2, 2, #[⟨0x3DCCCCCD⟩, ⟨0x3E4CCCCD⟩, ⟨0x3E99999A⟩, ⟨0x3ECCCCCD⟩], rfl⟩,
    ⟨1, 2, #[⟨0x3F000000⟩, ⟨0x3F19999A⟩], rfl⟩, ⟨1, 2, #[⟨0x3F333333⟩, ⟨0x3F4CCCCD⟩], rfl⟩,
    #[0], #[1], by simp, by simp, by simp, by simp, by simp⟩

namespace Description

theorem square_passing : passing.Square where
  own := rfl
  positive := by decide
  endpoints := by decide
  reducers := by decide
  edge := ⟨rfl, by decide, by decide, by decide⟩
  node := ⟨rfl, by decide, by decide, by decide⟩
  global := ⟨rfl, by decide, by decide, by decide⟩
  modules := by decide

theorem rounds_unchanged_tenths : ∃ p m, passing.identityTensors = .ok p ∧
    passing.compile p none true = .ok m ∧ ∀ k, m.rounds k .tenths = .ok .tenths := by
  obtain ⟨p, tensors⟩ : ∃ p, passing.identityTensors = .ok p := ⟨_, rfl⟩
  obtain ⟨-, m, compiled, rounds⟩ := square_passing.rounds_unchanged tensors none true
  have unsigned : State.tenths.Unsigned := ⟨by decide, by decide, by decide⟩
  exact ⟨p, m, tensors, compiled, (rounds .tenths rfl unsigned).1 (by decide)⟩

end Description

end MessagePassing
