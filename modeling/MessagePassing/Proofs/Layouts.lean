/-
  Message passing — how weights are stored.

  A weight tensor may have one row per input or one row per output, and a description tells
  which.  Passing to the other layout in both the description and the tensors changes nothing:
  binding puts every weight where it belongs.

  * `WeightLayout.toInOut_transposed`: reordering undoes a transposition;
  * `Description.exists_compile_iff`: compiling succeeds iff the model is accepted and its counts
    fit;
  * `BoundLayers.eq_of_stores`: layers bound from tensors in either layout are equal;
  * `Description.compile_withLayouts`: a model does not depend on the layouts.
-/
import MessagePassing.Proofs.Overflow
import MessagePassing.Proofs.SlotNames

namespace MessagePassing

open MessagePassing.Count (limit)

/-! ## Transposing -/

namespace WeightLayout

variable {weight : Array Scalar} {input output : Nat}

/-- The weights with one row per output, of those with one row per input. -/
def transposed (weight : Array Scalar) (input output : Nat) : Array Scalar :=
  .ofFn (n := output * input) fun k => weight.getD (k % input * output + k / input) 0

@[simp]
theorem size_transposed (weight : Array Scalar) (input output : Nat) :
    (transposed weight input output).size = output * input := by
  simp [transposed]

/-- Reordering is transposing from the other side. -/
theorem toInOut_outIn (size : weight.size = input * output) :
    outIn.toInOut weight input output = .ok (transposed weight output input) :=
  if_pos (Nat.le_of_eq size.symm)

/-- The weight from input `i` to output `o` goes to row `o`. -/
theorem getD_transposed (size : weight.size = input * output) {i o : Nat} (hi : i < input)
    (ho : o < output) :
    (transposed weight input output).getD (o * input + i) 0 = weight.getD (i * output + o) 0 := by
  have swapped : weight.size = output * input := size.trans (Nat.mul_comm _ _)
  obtain ⟨reordered, made, -, places⟩ := outIn.toInOut_eq_ok swapped
  rw [toInOut_outIn swapped] at made
  cases made
  exact places o ho i hi

example : transposed #[⟨1⟩, ⟨2⟩, ⟨3⟩, ⟨4⟩, ⟨5⟩, ⟨6⟩] 2 3 = #[⟨1⟩, ⟨4⟩, ⟨2⟩, ⟨5⟩, ⟨3⟩, ⟨6⟩] := by
  decide +kernel

/-- Every place in a matrix is that of an entry. -/
theorem row_column_lt {k : Nat} (h : k < input * output) :
    k / output < input ∧ k % output < output := by
  refine ⟨Nat.div_lt_of_lt_mul (Nat.mul_comm _ _ ▸ h), Nat.mod_lt _ (Nat.pos_of_ne_zero ?_)⟩
  rintro rfl
  exact Nat.not_lt_zero k h

/-- A matrix is determined by its entries. -/
theorem eq_of_entries {a b : Array Scalar} (sizeA : a.size = input * output)
    (sizeB : b.size = input * output)
    (entries : ∀ i < input, ∀ o < output, a.getD (i * output + o) 0 = b.getD (i * output + o) 0) :
    a = b := by
  refine Array.ext (sizeA.trans sizeB.symm) fun k ha hb => ?_
  rw [sizeA] at ha
  obtain ⟨row, column⟩ := row_column_lt ha
  have place : k / output * output + k % output = k := Nat.div_add_mod' k output
  have entry := entries _ row _ column
  rw [place] at entry
  simpa [Array.getD_eq_getD_getElem?, ha, sizeA, sizeB] using entry

/-- Transposing twice gives the weights back. -/
theorem transposed_transposed (size : weight.size = input * output) :
    transposed (transposed weight input output) output input = weight := by
  refine eq_of_entries (size_transposed _ _ _) size fun i hi o ho => ?_
  rw [getD_transposed (size_transposed _ _ _) ho hi, getD_transposed size hi ho]

/-- Reordering undoes a transposition. -/
theorem toInOut_transposed (size : weight.size = input * output) :
    outIn.toInOut (transposed weight input output) input output = .ok weight := by
  have swapped := (size_transposed weight input output).trans (Nat.mul_comm _ _)
  rw [toInOut_outIn swapped, transposed_transposed size]

/-- Reordering twice, with the widths swapped, changes nothing. -/
theorem toInOut_toInOut (size : weight.size = input * output) :
    (outIn.toInOut weight input output >>= fun once => outIn.toInOut once output input) =
      .ok weight := by
  have swapped : weight.size = output * input := size.trans (Nat.mul_comm _ _)
  rw [toInOut_outIn size]
  exact toInOut_transposed swapped

theorem mem_of_mem_transposed (size : weight.size = input * output) {x : Scalar}
    (mem : x ∈ transposed weight input output) : x ∈ weight := by
  obtain ⟨k, hk, rfl⟩ := Array.mem_iff_getElem.1 mem
  rw [size_transposed] at hk
  obtain ⟨row, column⟩ := row_column_lt hk
  have inside : k % input * output + k / input < weight.size := by
    have := Nat.mul_le_mul_right output (Nat.succ_le_of_lt column)
    rw [Nat.succ_mul] at this
    omega
  simp [transposed, Array.getD_eq_getD_getElem?, inside]

theorem forall_mem_transposed (size : weight.size = input * output) {P : Scalar → Prop} :
    (∀ x ∈ transposed weight input output, P x) ↔ ∀ x ∈ weight, P x := by
  refine ⟨fun all x hx => ?_, fun all x hx => all x (mem_of_mem_transposed size hx)⟩
  rw [← transposed_transposed size] at hx
  exact all x (mem_of_mem_transposed (size_transposed _ _ _) hx)

/-- A tensor as this layout stores it. -/
def ofInOut (layout : WeightLayout) (weight : Array Scalar) (input output : Nat) :
    Array Scalar :=
  match layout with
  | inOut => weight
  | outIn => transposed weight input output

theorem size_ofInOut (layout : WeightLayout) (size : weight.size = input * output) :
    (layout.ofInOut weight input output).size = input * output := by
  cases layout with
  | inOut => exact size
  | outIn => exact (size_transposed _ _ _).trans (Nat.mul_comm _ _)

theorem forall_mem_ofInOut (layout : WeightLayout) (size : weight.size = input * output)
    {P : Scalar → Prop} : (∀ x ∈ layout.ofInOut weight input output, P x) ↔ ∀ x ∈ weight, P x := by
  cases layout with
  | inOut => exact Iff.rfl
  | outIn => exact forall_mem_transposed size

/-- Every weight is stored at its place. -/
theorem getD_ofInOut (layout : WeightLayout) (size : weight.size = input * output) {i o : Nat}
    (hi : i < input) (ho : o < output) :
    (layout.ofInOut weight input output).getD (layout.place input output i o) 0 =
      weight.getD (i * output + o) 0 := by
  cases layout with
  | inOut => rfl
  | outIn => exact getD_transposed size hi ho

end WeightLayout

/-! ## Tensors in other layouts -/

/-- The weights of a layer: their name, the widths of the layer, and how they are stored. -/
structure WeightSlot where
  name : String
  layout : WeightLayout
  input : Nat
  output : Nat

namespace WeightSlot

/-- A tensor with one row per input, as the slot has it; one of another length is left alone. -/
def store (s : WeightSlot) (values : Array Scalar) : Array Scalar :=
  if values.size = s.input * s.output then s.layout.ofInOut values s.input s.output else values

theorem store_eq {s : WeightSlot} {values : Array Scalar}
    (size : values.size = s.input * s.output) :
    s.store values = s.layout.ofInOut values s.input s.output :=
  if_pos size

theorem size_store (s : WeightSlot) (values : Array Scalar) :
    (s.store values).size = values.size := by
  by_cases size : values.size = s.input * s.output
  · rw [store_eq size, WeightLayout.size_ofInOut _ size, size]
  · rw [store, if_neg size]

theorem forall_mem_store (s : WeightSlot) (values : Array Scalar) {P : Scalar → Prop} :
    (∀ x ∈ s.store values, P x) ↔ ∀ x ∈ values, P x := by
  by_cases size : values.size = s.input * s.output
  · rw [store_eq size, WeightLayout.forall_mem_ofInOut _ size]
  · rw [store, if_neg size]

end WeightSlot

/-- The weights of layers `layer`, `layer + 1`, ... of a module, for the widths after `input`. -/
def weightSlots (module : String) (layout : WeightLayout) : Nat → Nat → List Nat → List WeightSlot
  | _, _, [] => []
  | layer, input, output :: rest =>
    ⟨Parameters.weightSlot module layer, layout, input, output⟩ ::
      weightSlots module layout (layer + 1) output rest

theorem mem_weightSlots {module : String} {layout : WeightLayout} {layer input : Nat}
    {sizes : List Nat} {s : WeightSlot} (mem : s ∈ weightSlots module layout layer input sizes) :
    s.layout = layout ∧ ∃ i, s.name = Parameters.weightSlot module (layer + i) ∧
      (input :: sizes)[i]? = some s.input ∧ sizes[i]? = some s.output := by
  induction sizes generalizing layer input with
  | nil => cases mem
  | cons output rest ih =>
    rcases List.mem_cons.1 mem with rfl | mem
    · exact ⟨rfl, 0, rfl, rfl, rfl⟩
    · obtain ⟨same, i, name, before, after⟩ := ih mem
      refine ⟨same, i + 1, ?_, before, after⟩
      rw [name, Nat.add_right_comm, Nat.add_assoc]

/-- Weights of one module with the same name are those of one layer. -/
theorem weightSlots_inj {module : String} {layout : WeightLayout} {layer input : Nat}
    {sizes : List Nat} {s t : WeightSlot} (hs : s ∈ weightSlots module layout layer input sizes)
    (ht : t ∈ weightSlots module layout layer input sizes) (same : s.name = t.name) : s = t := by
  obtain ⟨layoutS, i, nameS, inputS, outputS⟩ := mem_weightSlots hs
  obtain ⟨layoutT, j, nameT, inputT, outputT⟩ := mem_weightSlots ht
  rw [nameS, nameT] at same
  obtain rfl : i = j := Nat.add_left_cancel (Parameters.weightSlot_inj same).2
  cases s
  cases t
  simp_all

namespace Parameters

/-- Every tensor under a function of its name and its values. -/
def mapValues (p : Parameters) (f : String → Array Scalar → Array Scalar) : Parameters :=
  ⟨p.entries.map fun e => (e.1, f e.1 e.2),
    List.pairwise_map.2 (p.ascending.imp fun less => less)⟩

theorem get?_mapValues (p : Parameters) (f : String → Array Scalar → Array Scalar)
    (name : String) : (p.mapValues f).get? name = (p.get? name).map (f name) := by
  rw [get?, get?, mapValues, List.find?_map, Option.map_map, Option.map_map]
  refine Option.map_congr fun e he => ?_
  have found : e.1 = name := by simpa using List.find?_some he
  rw [← found]
  rfl

/-- The tensors, with the weights of these slots stored as the slots have them. -/
def store (p : Parameters) (slots : List WeightSlot) : Parameters :=
  p.mapValues fun name values =>
    match slots.find? (·.name = name) with
    | some s => s.store values
    | none => values

/-- `p'` holds the tensors of `p`, with the weights as the slots have them. -/
structure Stores (p p' : Parameters) (slots : List WeightSlot) : Prop where
  weight : ∀ s ∈ slots, p'.get? s.name = (p.get? s.name).map s.store
  bias : ∀ module i, p'.get? (biasSlot module i) = p.get? (biasSlot module i)

theorem stores_store (p : Parameters) {slots : List WeightSlot}
    (weights : ∀ s ∈ slots, ∃ module i, s.name = weightSlot module i)
    (apart : ∀ s ∈ slots, ∀ t ∈ slots, s.name = t.name → s = t) :
    p.Stores (p.store slots) slots := by
  constructor
  · intro s hs
    have found : slots.find? (·.name = s.name) = some s := by
      obtain ⟨t, ht⟩ := Option.isSome_iff_exists.1
        (List.find?_isSome.2 ⟨s, hs, decide_eq_true rfl⟩ : (slots.find? (·.name = s.name)).isSome)
      have same : t.name = s.name := by simpa using List.find?_some ht
      rw [ht, apart t (List.mem_of_find?_eq_some ht) s hs same]
    rw [store, get?_mapValues, found]
  · intro module i
    have missing : slots.find? (·.name = biasSlot module i) = none := by
      rw [List.find?_eq_none]
      intro s hs same
      obtain ⟨other, j, name⟩ := weights s hs
      rw [decide_eq_true_iff, name] at same
      exact biasSlot_ne_weightSlot same.symm
    rw [store, get?_mapValues, missing]
    exact Option.map_id'

theorem Stores.subset {p p' : Parameters} {slots chosen : List WeightSlot}
    (h : p.Stores p' slots) (sub : chosen ⊆ slots) : p.Stores p' chosen :=
  ⟨fun s hs => h.weight s (sub hs), h.bias⟩

end Parameters

/-! ## Binding -/

section
variable {p p' : Parameters} {module : String} {layout : WeightLayout} {layer input : Nat}
  {sizes : List Nat}

open Parameters (Stores)

/-- A slot is filled in one layout iff it is in another. -/
theorem filled_iff_of_stores (stores : p.Stores p' (weightSlots module layout layer input sizes))
    {s : Slot} (mem : s ∈ layerSlots module layer input sizes) : s.Filled p' ↔ s.Filled p := by
  induction sizes generalizing layer input with
  | nil => cases mem
  | cons output rest ih =>
    rw [layerSlots, List.mem_cons, List.mem_cons] at mem
    rcases mem with rfl | rfl | mem
    · have weight := stores.weight _ List.mem_cons_self
      rw [Slot.Filled, Slot.Filled, weight]
      constructor
      · rintro ⟨_, there, size, finite⟩
        obtain ⟨values, stored, rfl⟩ := Option.map_eq_some_iff.1 there
        rw [WeightSlot.size_store] at size
        exact ⟨values, stored, size, (WeightSlot.forall_mem_store _ _).1 finite⟩
      · rintro ⟨values, stored, size, finite⟩
        refine ⟨_, congrArg _ stored, ?_, (WeightSlot.forall_mem_store _ _).2 finite⟩
        rw [WeightSlot.size_store]
        exact size
    · rw [Slot.Filled, Slot.Filled, stores.bias]
    · exact ih (stores.subset (List.subset_cons_self _ _)) mem

theorem Dense.eq_of_weightAt {a b : Dense} (inputs : a.input = b.input)
    (outputs : a.output = b.output) (biases : a.bias = b.bias)
    (weights : ∀ i < a.input, ∀ o < a.output, a.weightAt i o = b.weightAt i o) : a = b := by
  obtain ⟨n, m, weightA, biasA, sizeA, _⟩ := a
  obtain ⟨n', m', weightB, biasB, sizeB, _⟩ := b
  obtain rfl : n = n' := inputs
  obtain rfl : m = m' := outputs
  obtain rfl : biasA = biasB := biases
  obtain rfl : weightA = weightB := WeightLayout.eq_of_entries sizeA sizeB weights
  rfl

/-- A layer holds the same weights in either layout. -/
theorem Dense.Holds.eq_of_stores {output : Nat} {a b : Dense}
    (ha : a.Holds p module .inOut layer input output)
    (hb : b.Holds p' module layout layer input output)
    (weight : p'.get? (Parameters.weightSlot module layer) =
      (p.get? (Parameters.weightSlot module layer)).map
        (WeightSlot.store ⟨Parameters.weightSlot module layer, layout, input, output⟩))
    (bias : p'.get? (Parameters.biasSlot module layer) =
      p.get? (Parameters.biasSlot module layer)) : a = b := by
  obtain ⟨inputA, outputA, biasA, values, there, size, entriesA⟩ := ha
  obtain ⟨inputB, outputB, biasB, stored, there', -, entriesB⟩ := hb
  rw [there, there', Option.map_some, WeightSlot.store_eq size] at weight
  cases weight
  rw [biasA, biasB, Option.some.injEq] at bias
  refine eq_of_weightAt (inputA.trans inputB.symm) (outputA.trans outputB.symm) bias.symm ?_
  intro i hi o ho
  rw [inputA] at hi
  rw [outputA] at ho
  rw [entriesA i hi o ho, entriesB i hi o ho, WeightLayout.getD_ofInOut layout size hi ho]
  rfl

/-- **Layers bound from tensors in either layout are equal.** -/
theorem BoundLayers.eq_of_stores {ds es : List Dense}
    (stores : p.Stores p' (weightSlots module layout layer input sizes))
    (hds : BoundLayers p module .inOut layer input sizes ds)
    (hes : BoundLayers p' module layout layer input sizes es) : ds = es := by
  induction hds generalizing es with
  | nil =>
    cases hes
    rfl
  | cons holds _ ih =>
    cases hes with
    | cons holds' rest' =>
      have weight := stores.weight _ List.mem_cons_self
      rw [holds.eq_of_stores holds' weight (stores.bias _ _),
        ih (stores.subset (List.subset_cons_self _ _)) rest']

end

/-! ## Descriptions -/

namespace UpdateDeclaration

/-- The declaration with another weight layout. -/
def withLayout (u : UpdateDeclaration) (layout : WeightLayout) : UpdateDeclaration :=
  { u with weightLayout := layout }

/-- The weights of an update function that reads rows of `input` features. -/
def weightSlots (u : UpdateDeclaration) (input : Nat) : List WeightSlot :=
  MessagePassing.weightSlots u.module u.weightLayout 0 input u.layerSizes

theorem wellFormed_withLayout {u : UpdateDeclaration} {layout : WeightLayout} :
    (u.withLayout layout).WellFormed ↔ u.WellFormed :=
  ⟨fun h => ⟨h.kind, h.activation, h.nonempty, h.positive⟩,
    fun h => ⟨h.kind, h.activation, h.nonempty, h.positive⟩⟩

end UpdateDeclaration

/-- A perceptron is made of its layers and its activation. -/
theorem Perceptron.eq_of_fields {P Q : Perceptron} (layers : P.layers = Q.layers)
    (activation : P.activation = Q.activation) (final : P.activateFinal = Q.activateFinal) :
    P = Q := by
  cases P
  cases Q
  simp_all

theorem UpdateDeclaration.Realizes.eq_of_stores {u : UpdateDeclaration} {p p' : Parameters}
    {input : Nat} {layout : WeightLayout} {P Q : Perceptron} (plain : u.weightLayout = .inOut)
    (stores : p.Stores p' ((u.withLayout layout).weightSlots input))
    (hP : u.Realizes p input P) (hQ : (u.withLayout layout).Realizes p' input Q) : P = Q := by
  have layersP := hP.layers
  rw [plain] at layersP
  refine Perceptron.eq_of_fields (layersP.eq_of_stores stores hQ.layers) ?_ ?_
  · exact Except.ok.inj (hP.activation.symm.trans hQ.activation)
  · exact hP.activateFinal.trans hQ.activateFinal.symm

namespace Description

/-- **Compiling succeeds iff the model is accepted and its counts fit.** -/
theorem exists_compile_iff {d : Description} {p : Parameters} {rename : Option String}
    {withProgram : Bool} : (∃ m, d.compile p rename withProgram = .ok m) ↔
      d.Accepted p ∧ d.RowsFit ∧ ∀ s ∈ d.slots, s.length < limit := by
  rw [(d.compile_settled p rename withProgram).ok_iff, forall_checks]
  refine and_congr_right fun accepted => ?_
  have hold := forall_checks.2 accepted
  rw [checks_eq, List.forall_mem_append] at hold
  -- no check fails, so that any slot whose length is no count is come to
  have reached : Slot.Overrun p [] d.slots ↔ ∃ s ∈ d.slots, limit ≤ s.length := by
    constructor
    · rintro ⟨before, s, after, same, -, long⟩
      exact ⟨s, by simp [same], long⟩
    · rintro ⟨s, hs, long⟩
      obtain ⟨before, after, same⟩ := List.append_of_mem hs
      have slots := hold.2
      rw [same, Slot.listChecks_append, List.forall_mem_append] at slots
      exact ⟨before, s, after, same, slots.1, long⟩
  rw [Overflows, reached, and_iff_right hold.1, not_or, not_not]
  simp only [not_exists, not_and, Nat.not_le]

/-- The description with other weight layouts. -/
def withLayouts (d : Description) (layouts : PerUpdate WeightLayout) : Description :=
  { d with updates := ⟨d.updates.edge.withLayout layouts.edge,
      d.updates.node.withLayout layouts.node, d.updates.global.withLayout layouts.global⟩ }

/-- The weights of the three update functions. -/
def weightSlots (d : Description) : List WeightSlot :=
  d.updates.edge.weightSlots d.rowWidths.edge ++ (d.updates.node.weightSlots d.rowWidths.node ++
    d.updates.global.weightSlots d.rowWidths.global)

variable {d : Description} {p : Parameters} {layouts : PerUpdate WeightLayout}

/-- A weight slot belongs to one of the update functions. -/
theorem mem_weightSlots {s : WeightSlot} : s ∈ d.weightSlots ↔
    s ∈ d.updates.edge.weightSlots d.rowWidths.edge ∨
      s ∈ d.updates.node.weightSlots d.rowWidths.node ∨
      s ∈ d.updates.global.weightSlots d.rowWidths.global := by
  rw [weightSlots, List.mem_append, List.mem_append]

/-- The modules of the update functions tell the weights apart. -/
theorem weightSlots_apart (modules : (d.updates.toList.map (·.module)).Nodup) :
    ∀ s ∈ d.weightSlots, ∀ t ∈ d.weightSlots, s.name = t.name → s = t := by
  simp only [PerUpdate.toList, List.map_cons, List.map_nil, List.nodup_cons, List.mem_cons,
    List.not_mem_nil, or_false, not_or] at modules
  obtain ⟨⟨edgeNode, edgeGlobal⟩, nodeGlobal, -⟩ := modules
  have across {u v : UpdateDeclaration} {i j : Nat} {s t : WeightSlot} (hs : s ∈ u.weightSlots i)
      (ht : t ∈ v.weightSlots j) (same : s.name = t.name) : u.module = v.module := by
    obtain ⟨-, k, nameS, -⟩ := MessagePassing.mem_weightSlots hs
    obtain ⟨-, l, nameT, -⟩ := MessagePassing.mem_weightSlots ht
    rw [nameS, nameT] at same
    exact (Parameters.weightSlot_inj same).1
  intro s hs t ht same
  rcases mem_weightSlots.1 hs with hs | hs | hs <;> rcases mem_weightSlots.1 ht with ht | ht | ht
  · exact weightSlots_inj hs ht same
  · exact absurd (across hs ht same) edgeNode
  · exact absurd (across hs ht same) edgeGlobal
  · exact absurd (across ht hs same.symm) edgeNode
  · exact weightSlots_inj hs ht same
  · exact absurd (across hs ht same) nodeGlobal
  · exact absurd (across ht hs same.symm) edgeGlobal
  · exact absurd (across ht hs same.symm) nodeGlobal
  · exact weightSlots_inj hs ht same

/-- The tensors of distinct modules can be stored as the declarations say. -/
theorem stores_weightSlots (p : Parameters) (modules : (d.updates.toList.map (·.module)).Nodup) :
    p.Stores (p.store d.weightSlots) d.weightSlots := by
  refine p.stores_store (fun s hs => ?_) (weightSlots_apart modules)
  rcases mem_weightSlots.1 hs with hs | hs | hs <;>
  · obtain ⟨-, i, name, -⟩ := MessagePassing.mem_weightSlots hs
    exact ⟨_, _, name⟩

theorem filled_store (modules : (d.updates.toList.map (·.module)).Nodup) {s : Slot}
    (mem : s ∈ d.slots) : s.Filled (p.store d.weightSlots) ↔ s.Filled p := by
  have stores := stores_weightSlots p modules
  rw [slots, List.mem_append, List.mem_append] at mem
  rcases mem with mem | mem | mem
  · exact filled_iff_of_stores (stores.subset fun t ht => mem_weightSlots.2 (.inl ht)) mem
  · exact filled_iff_of_stores (stores.subset fun t ht => mem_weightSlots.2 (.inr (.inl ht))) mem
  · exact filled_iff_of_stores (stores.subset fun t ht => mem_weightSlots.2 (.inr (.inr ht))) mem

/-- Weight layouts do not matter for what is accepted. -/
theorem accepted_withLayouts : (d.withLayouts layouts).Accepted
      (p.store (d.withLayouts layouts).weightSlots) ↔ d.Accepted p := by
  have wellFormed : (∀ u ∈ (d.withLayouts layouts).updates.toList, u.WellFormed) ↔
      ∀ u ∈ d.updates.toList, u.WellFormed := by
    simp [PerUpdate.toList, withLayouts, UpdateDeclaration.wellFormed_withLayout]
  constructor
  · intro h
    exact ⟨h.widths, h.endpoints, wellFormed.1 h.updates, h.reducers, h.connected, h.distinct,
      fun s hs => (filled_store h.modules hs).1 (h.tensors s hs)⟩
  · intro h
    have modules : ((d.withLayouts layouts).updates.toList.map (·.module)).Nodup := h.modules
    exact ⟨h.widths, h.endpoints, wellFormed.2 h.updates, h.reducers, h.connected, h.distinct,
      fun s hs => (filled_store modules hs).2 (h.tensors s hs)⟩

/-- The functions of a model do not depend on the layouts. -/
theorem Realizes.eq_withLayouts {P Q : PerUpdate Perceptron}
    (plain : ∀ u ∈ d.updates.toList, u.weightLayout = .inOut) (accepted : d.Accepted p)
    (hP : d.Realizes p P) (hQ : (d.withLayouts layouts).Realizes
      (p.store (d.withLayouts layouts).weightSlots) Q) : P = Q := by
  have modules : ((d.withLayouts layouts).updates.toList.map (·.module)).Nodup := accepted.modules
  have stores := stores_weightSlots p modules
  obtain ⟨edge, node, global⟩ : d.updates.edge.weightLayout = .inOut ∧
      d.updates.node.weightLayout = .inOut ∧ d.updates.global.weightLayout = .inOut := by
    simpa [PerUpdate.toList] using plain
  have edges := hP.edge.eq_of_stores edge
    (stores.subset fun t ht => mem_weightSlots.2 (.inl ht)) hQ.edge
  have nodes := hP.node.eq_of_stores node
    (stores.subset fun t ht => mem_weightSlots.2 (.inr (.inl ht))) hQ.node
  have globals := hP.global.eq_of_stores global
    (stores.subset fun t ht => mem_weightSlots.2 (.inr (.inr ht))) hQ.global
  cases P
  cases Q
  simp_all

/-- Blocks that are made of the same functions are equal. -/
theorem Assembles.eq_of_updates {e : Description} {p' : Parameters} {name : String} {b c : Block}
    (hb : d.Assembles p name b) (hc : e.Assembles p' name c) (updates : b.updates = c.updates)
    (architecture : d.architecture = e.architecture) (reducers : d.reducers = e.reducers)
    (wiring : d.wiring = e.wiring) (widths : d.inputWidths = e.inputWidths) : b = c := by
  cases kind : d.architecture with
  | graphNetwork =>
    obtain ⟨n, rfl, nameN, reducersN, wiringN, widthsN⟩ := hb.network kind
    obtain ⟨k, rfl, nameK, reducersK, wiringK, widthsK⟩ := hc.network (architecture ▸ kind)
    rw [checkReducers, reducers, ← checkReducers, reducersK] at reducersN
    cases n
    cases k
    simp_all [Block.updates]
  | graphIndependent =>
    obtain ⟨i, rfl, nameI⟩ := hb.independent kind
    obtain ⟨j, rfl, nameJ⟩ := hc.independent (architecture ▸ kind)
    cases i
    cases j
    simp_all [Block.updates]

/-- **A model does not depend on how its weights are stored.**  A description whose weights have
    one row per input, and the same with other layouts, compile alike from tensors that are stored
    accordingly: one to a model iff the other one does, and to the same model.  For a single
    tensor, reordering undoes the transposition, and reordering twice changes nothing. -/
theorem compile_withLayouts (d : Description)
    (plain : ∀ u ∈ d.updates.toList, u.weightLayout = .inOut) (layouts : PerUpdate WeightLayout)
    (p : Parameters) (rename : Option String) (withProgram : Bool) :
    let stored := p.store (d.withLayouts layouts).weightSlots
    (∀ m, (d.withLayouts layouts).compile stored rename withProgram = .ok m ↔
      d.compile p rename withProgram = .ok m) ∧
    ∀ (weight : Array Scalar) (input output : Nat), weight.size = input * output →
      WeightLayout.outIn.toInOut (WeightLayout.transposed weight input output) input output =
        .ok weight ∧
      (WeightLayout.outIn.toInOut weight input output >>= fun once =>
        WeightLayout.outIn.toInOut once output input) = .ok weight := by
  intro stored
  refine ⟨?_, fun weight input output size =>
    ⟨WeightLayout.toInOut_transposed size, WeightLayout.toInOut_toInOut size⟩⟩
  have both : (∃ m, (d.withLayouts layouts).compile stored rename withProgram = .ok m) ↔
      ∃ m, d.compile p rename withProgram = .ok m := by
    rw [exists_compile_iff, exists_compile_iff, accepted_withLayouts]
    exact Iff.rfl
  have same {m k : Model} (hm : (d.withLayouts layouts).compile stored rename withProgram = .ok m)
      (hk : d.compile p rename withProgram = .ok k) : m = k := by
    have accepted := (exists_compile_iff.1 ⟨k, hk⟩).1
    obtain ⟨nameM, assemblesM, programM⟩ := compile_eq_ok hm
    obtain ⟨nameK, assemblesK, programK⟩ := compile_eq_ok hk
    have names : m.name = k.name := nameM.trans nameK.symm
    have updates := Realizes.eq_withLayouts plain accepted assemblesK.updates assemblesM.updates
    rw [names] at assemblesM
    have blocks : m.block = k.block :=
      assemblesM.eq_of_updates assemblesK updates.symm rfl rfl rfl rfl
    rw [names, blocks] at programM
    cases m
    cases k
    simp_all [program, topology, withLayouts, senders, receivers]
  intro m
  constructor
  · intro hm
    obtain ⟨k, hk⟩ := both.1 ⟨m, hm⟩
    rw [same hm hk, hk]
  · intro hm
    obtain ⟨k, hk⟩ := both.2 ⟨m, hm⟩
    rw [← same hk hm, hk]

/-- The self-loop, with two features for the edge. -/
def twofold : Description :=
  { selfLoop with updates := { selfLoop.updates with edge := .perceptron "edge" [2] } }

/-- Its tensors; no two weights of the edge update are equal. -/
def twofoldTensors : Parameters :=
  .ofList [
    ("edge.linear_0.weight", #[⟨1⟩, ⟨2⟩, ⟨3⟩, ⟨4⟩, ⟨5⟩, ⟨6⟩, ⟨7⟩, ⟨8⟩]),
    ("edge.linear_0.bias", #[0, 0]),
    ("node.linear_0.weight", Array.replicate 4 1), ("node.linear_0.bias", #[0]),
    ("global.linear_0.weight", Array.replicate 4 1), ("global.linear_0.bias", #[0])]

/-- It compiles to one model, with the edge weights stored either way. -/
theorem compile_twofold : ∃ m, twofold.compile twofoldTensors none true = .ok m ∧
    (twofold.withLayouts ⟨.outIn, .inOut, .inOut⟩).compile
      (twofoldTensors.store (twofold.withLayouts ⟨.outIn, .inOut, .inOut⟩).weightSlots) none true =
      .ok m ∧
    WeightLayout.outIn.toInOut (WeightLayout.transposed #[⟨1⟩, ⟨2⟩, ⟨3⟩, ⟨4⟩, ⟨5⟩, ⟨6⟩] 2 3) 2 3 =
      .ok #[⟨1⟩, ⟨2⟩, ⟨3⟩, ⟨4⟩, ⟨5⟩, ⟨6⟩] := by
  have plain : ∀ u ∈ twofold.updates.toList, u.weightLayout = .inOut := by decide
  have compiled : ∃ m, twofold.compile twofoldTensors none true = .ok m := by
    apply Outcome.exists_of_isOk
    decide +kernel
  obtain ⟨m, hm⟩ := compiled
  obtain ⟨alike, single⟩ := compile_withLayouts twofold plain ⟨.outIn, .inOut, .inOut⟩
    twofoldTensors none true
  exact ⟨m, hm, (alike m).2 hm, (single _ 2 3 rfl).1⟩

end Description

end MessagePassing
