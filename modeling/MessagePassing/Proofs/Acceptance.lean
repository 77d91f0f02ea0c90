/-
  Message passing — which models compile.

  `Description.Accepted` says without any order what compiling asks of a description and
  of tensors: positive widths, edges between nodes, known tags, layers with outputs, input
  blocks for the updates of a network, and for every slot a tensor of its own.

  * `Slot.forall_listChecks`: slots taken in order pass their checks iff their names are
    distinct and each has its tensor;
  * `Description.forall_checks`: all checks of compiling hold iff the model is accepted;
  * `Description.compile_iff_accepted`: compiling accepts exactly these models, reports the
    first check that fails of any other, and binds exactly the declared tensors.
-/
import MessagePassing.Proofs.Compilation

namespace MessagePassing

/-! ## Checks that hold -/

theorem forall_zipIdx {γ : Type} {l : List γ} {n : Nat} {P : γ → Prop} :
    (∀ x ∈ l.zipIdx n, P x.1) ↔ ∀ a ∈ l, P a := by
  have values := List.forall_mem_map (l := l.zipIdx n) (f := Prod.fst) (P := P)
  rw [← values, List.zipIdx_map_fst]

namespace Slot

/-- There is a tensor for the slot, of its length and with finite values. -/
def Filled (s : Slot) (p : Parameters) : Prop :=
  ∃ values, p.get? s.name = some values ∧ values.size = s.length ∧ ∀ x ∈ values, x.isFinite

theorem forall_checks {s : Slot} {p : Parameters} {taken : List String} :
    (∀ c ∈ s.checks p taken, c.holds) ↔ s.name ∉ taken ∧ s.Filled p := by
  simp only [checks, List.forall_mem_cons, List.forall_mem_map]
  rw [forall_zipIdx (P := fun x : Scalar => x.isFinite = true)]
  constructor
  · rintro ⟨⟨untaken, present⟩, length, finite⟩
    obtain ⟨tensor, htensor⟩ := Option.isSome_iff_exists.1 present
    have same : s.values p = tensor := by rw [values, htensor]; rfl
    rw [same] at length finite
    exact ⟨untaken, tensor, htensor, length, by simpa using finite⟩
  · rintro ⟨untaken, tensor, htensor, length, finite⟩
    have same : s.values p = tensor := by rw [values, htensor]; rfl
    rw [same]
    exact ⟨⟨untaken, by rw [htensor]; rfl⟩, length, by simpa using finite⟩

/-- Slots taken in order pass iff none comes twice and each has its tensor. -/
theorem forall_listChecks {p : Parameters} {l : List Slot} {taken : List String} :
    (∀ c ∈ listChecks p taken l, c.holds) ↔
      (∀ s ∈ l, s.name ∉ taken) ∧ (l.map (·.name)).Nodup ∧ ∀ s ∈ l, s.Filled p := by
  induction l generalizing taken with
  | nil => simp [listChecks]
  | cons s rest ih =>
    rw [listChecks, List.forall_mem_append, forall_checks, ih]
    simp only [List.forall_mem_cons, List.map_cons, List.nodup_cons, List.mem_append,
      List.mem_singleton, List.mem_map, not_or, not_exists, not_and]
    constructor
    · rintro ⟨⟨untaken, filled⟩, others, distinct, rest⟩
      exact ⟨⟨untaken, fun t ht => (others t ht).1⟩, ⟨fun t ht => (others t ht).2, distinct⟩,
        filled, rest⟩
    · rintro ⟨⟨untaken, others⟩, ⟨new, distinct⟩, filled, rest⟩
      exact ⟨⟨untaken, filled⟩, fun t ht => ⟨others t ht, new t ht⟩, distinct, rest⟩

end Slot

theorem forall_endpointChecks {nodes : Nat} {role : String} {endpoints : Array Nat} :
    (∀ c ∈ endpointChecks nodes role endpoints, c.holds) ↔ ∀ n ∈ endpoints, n < nodes := by
  simp only [endpointChecks, List.forall_mem_map]
  rw [forall_zipIdx (P := fun n => n < nodes)]
  simp

/-- A declaration with a known kind and activation, and with layers that have outputs. -/
structure UpdateDeclaration.WellFormed (u : UpdateDeclaration) : Prop where
  kind : u.kind = "mlp"
  activation : u.activation ∈ Activation.names
  nonempty : u.layerSizes ≠ []
  positive : ∀ n ∈ u.layerSizes, 0 < n

theorem UpdateDeclaration.forall_checks {u : UpdateDeclaration} :
    (∀ c ∈ u.checks, c.holds) ↔ u.WellFormed := by
  simp only [checks, List.forall_mem_cons, List.forall_mem_map]
  rw [forall_zipIdx (P := fun n => 0 < n)]
  constructor
  · rintro ⟨kind, activation, nonempty, positive⟩
    exact ⟨kind, activation, nonempty, positive⟩
  · rintro ⟨kind, activation, nonempty, positive⟩
    exact ⟨kind, activation, nonempty, positive⟩

/-! ## Accepted models -/

namespace Description

/-- What compiling asks of a description and of tensors. -/
structure Accepted (d : Description) (p : Parameters) : Prop where
  widths : d.inputWidths.Positive
  endpoints : ∀ e ∈ d.edges, e.1 < d.nodeCount ∧ e.2 < d.nodeCount
  updates : ∀ u ∈ d.updates.toList, u.WellFormed
  reducers : ∀ tag ∈ d.reducers.toList, tag ∈ Reducer.names
  connected : d.architecture = .graphNetwork → d.wiring.Connected
  distinct : (d.slots.map (·.name)).Nodup
  tensors : ∀ s ∈ d.slots, s.Filled p

theorem forall_checks {d : Description} {p : Parameters} :
    (∀ c ∈ d.checks p, c.holds) ↔ d.Accepted p := by
  simp only [checks, List.forall_mem_append, List.forall_mem_singleton,
    forall_endpointChecks, UpdateDeclaration.forall_checks, Slot.forall_listChecks]
  constructor
  · rintro ⟨widths, ⟨senders, receivers⟩, ⟨edge, node, global⟩, ⟨edgeNode, nodeGlobal,
      edgeGlobal⟩, connected, -, distinct, tensors⟩
    refine ⟨widths, fun e he => ⟨senders _ ?_, receivers _ ?_⟩, ?_, ?_, connected, distinct,
      tensors⟩
    · simpa [Description.senders] using ⟨e.2, he⟩
    · simpa [Description.receivers] using ⟨e.1, he⟩
    · simpa [PerUpdate.toList] using ⟨edge, node, global⟩
    · simpa [PerRelation.toList] using ⟨edgeNode, nodeGlobal, edgeGlobal⟩
  · rintro ⟨widths, endpoints, updates, reducers, connected, distinct, tensors⟩
    obtain ⟨edge, node, global⟩ : d.updates.edge.WellFormed ∧ d.updates.node.WellFormed ∧
        d.updates.global.WellFormed := by simpa [PerUpdate.toList] using updates
    obtain ⟨edgeNode, nodeGlobal, edgeGlobal⟩ : d.reducers.edgeNode ∈ Reducer.names ∧
        d.reducers.nodeGlobal ∈ Reducer.names ∧ d.reducers.edgeGlobal ∈ Reducer.names := by
      simpa [PerRelation.toList] using reducers
    refine ⟨widths, ⟨?_, ?_⟩, ⟨edge, node, global⟩, ⟨edgeNode, nodeGlobal, edgeGlobal⟩,
      connected, by simp, distinct, tensors⟩
    · intro n hn
      obtain ⟨m, hm⟩ : ∃ m, (n, m) ∈ d.edges := by simpa [Description.senders] using hn
      exact (endpoints _ hm).1
    · intro n hn
      obtain ⟨m, hm⟩ : ∃ m, (m, n) ∈ d.edges := by simpa [Description.receivers] using hn
      exact (endpoints _ hm).2

/-- The first slot of a module is a slot of any declaration under this module. -/
theorem weightSlot_mem {u : UpdateDeclaration} (h : u.WellFormed) (input : Nat) :
    Parameters.weightSlot u.module 0 ∈
      (layerSlots u.module 0 input u.layerSizes).map (·.name) := by
  obtain ⟨output, rest, sizes⟩ := List.exists_cons_of_ne_nil h.nonempty
  rw [sizes, layerSlots]
  exact List.mem_cons_self

/-- Declarations whose slots are apart have different modules. -/
theorem module_ne_of_apart {u v : UpdateDeclaration} {i j : Nat} (hu : u.WellFormed)
    (hv : v.WellFormed) (apart : ∀ a ∈ (layerSlots u.module 0 i u.layerSizes).map (·.name),
      ∀ b ∈ (layerSlots v.module 0 j v.layerSizes).map (·.name), a ≠ b) :
    u.module ≠ v.module := by
  intro same
  exact apart _ (weightSlot_mem hu i) _ (weightSlot_mem hv j) (by rw [same])

/-- The update functions of an accepted model have modules of their own. -/
theorem Accepted.modules {d : Description} {p : Parameters} (h : d.Accepted p) :
    (d.updates.toList.map (·.module)).Nodup := by
  have distinct := h.distinct
  obtain ⟨edge, node, global⟩ : d.updates.edge.WellFormed ∧ d.updates.node.WellFormed ∧
      d.updates.global.WellFormed := by simpa [PerUpdate.toList] using h.updates
  rw [slots, List.map_append, List.map_append, List.nodup_append, List.nodup_append] at distinct
  obtain ⟨-, ⟨-, -, nodeGlobal⟩, edgeOthers⟩ := distinct
  have hen := module_ne_of_apart edge node fun a ha b hb =>
    edgeOthers a ha b (List.mem_append_left _ hb)
  have heg := module_ne_of_apart edge global fun a ha b hb =>
    edgeOthers a ha b (List.mem_append_right _ hb)
  have hng := module_ne_of_apart node global nodeGlobal
  simp [PerUpdate.toList, hen, heg, hng]

end Description

/-! ## A model -/

/-- A graph network on one node with an edge to itself, whose update functions add up
    what they read. -/
def Description.selfLoop : Description where
  name := "loop"
  architecture := .graphNetwork
  nodeCount := 1
  edges := [(0, 0)]
  inputWidths := ⟨1, 1, 1⟩
  updates := ⟨.perceptron "edge" [1], .perceptron "node" [1], .perceptron "global" [1]⟩
  reducers := ⟨"sum", "mean", "sum"⟩
  wiring := .full

/-- Its tensors: weights one and biases zero. -/
def Parameters.selfLoop : Parameters :=
  ofList [("edge.linear_0.weight", Array.replicate 4 1), ("edge.linear_0.bias", #[0]),
    ("node.linear_0.weight", Array.replicate 3 1), ("node.linear_0.bias", #[0]),
    ("global.linear_0.weight", Array.replicate 3 1), ("global.linear_0.bias", #[0])]

/-- A state that it reads. -/
def State.selfLoop : State :=
  ⟨⟨1, 1, #[1], rfl⟩, ⟨1, 1, #[1], rfl⟩, ⟨1, 1, #[1], rfl⟩, #[0], #[0], rfl, rfl, rfl,
    by decide, by decide⟩

theorem fits_selfLoop : Description.selfLoop.Fits :=
  ⟨by decide, ⟨by decide, trivial⟩, ⟨by decide, trivial⟩, ⟨by decide, trivial⟩⟩

theorem compile_selfLoop :
    ∃ m, Description.selfLoop.compile .selfLoop none true = .ok m := by
  apply Outcome.exists_of_isOk
  decide +kernel

/-- It compiles under any name. -/
theorem compile_selfLoop_as (rename : Option String) (withProgram : Bool) :
    ∃ m, Description.selfLoop.compile .selfLoop rename withProgram = .ok m := by
  have hold := (Description.compile_decided _ _ none true fits_selfLoop).ok_iff.1 compile_selfLoop
  exact (Description.compile_decided _ _ rename withProgram fits_selfLoop).ok_iff.2 hold

/-! ## Compiling -/

/-- **Compiling accepts exactly the accepted models**, reports the first check that fails
    of any other, and makes layers that hold exactly the tensors of their slots. -/
theorem Description.compile_iff_accepted (d : Description) (p : Parameters) (rename : Option String)
    (withProgram : Bool) (fits : d.Fits) :
    ((∃ m, d.compile p rename withProgram = .ok m) ↔ d.Accepted p) ∧
      (∀ failure, d.compile p rename withProgram = .error failure ↔
        FirstFailing (d.checks p) failure) ∧
      (d.Accepted p → (d.updates.toList.map (·.module)).Nodup) ∧
      ∀ m, d.compile p rename withProgram = .ok m → d.Realizes p m.block.updates := by
  have decided := d.compile_decided p rename withProgram fits
  refine ⟨?_, fun failure => decided.error_iff, Description.Accepted.modules, fun m hm => ?_⟩
  · rw [decided.ok_iff, Description.forall_checks]
  · exact (Description.compile_eq_ok hm).2.1.updates

/-- The self-loop is accepted. -/
theorem accepted_selfLoop :
    Description.selfLoop.Fits ∧ Description.selfLoop.Accepted .selfLoop :=
  ⟨fits_selfLoop,
    (Description.compile_iff_accepted _ _ none true fits_selfLoop).1.1 compile_selfLoop⟩

end MessagePassing
