/-
  Message passing — what binding takes and what it makes of it.

  An update function with the output widths `sizes` declares two slots per layer
  (`layerSlots`).  Binding takes the slots in order, so that a slot is there only if no
  earlier one had its name, and makes a layer of every two.

  * `layers_decided`: where the layer sizes fit, binding succeeds iff every slot passes
    its checks, and else it fails at the first check that fails;
  * `bound_of_layers`: a bound layer holds exactly the tensors of its two slots, the
    weights with one row per input;
  * `Remaining`: what is left are the tensors that no slot has taken.
-/
import MessagePassing.Proofs.Checks
import MessagePassing.Update.Perceptron

namespace MessagePassing

variable {α β : Type}

/-! ## Running a binding -/

namespace Binding

theorem bind_apply (x : Binding α) (f : α → Binding β) (q : Parameters) :
    (x >>= f) q = match x q with
      | (.ok a, r) => f a r
      | (.error e, r) => (.error e, r) := by
  show (ExceptT.bindCont f (x q).1) (x q).2 = _
  rcases x q with ⟨_ | _, _⟩ <;> rfl

theorem lift_apply (x : Outcome α) (q : Parameters) : (liftM x : Binding α) q = (x, q) := rfl

/-- A sequence succeeds iff both of its parts do. -/
theorem bind_eq_ok {x : Binding α} {f : α → Binding β} {q s : Parameters} {b : β} :
    (x >>= f) q = (.ok b, s) ↔ ∃ a r, x q = (.ok a, r) ∧ f a r = (.ok b, s) := by
  rw [bind_apply]
  constructor
  · intro h
    rcases hx : x q with ⟨e | a, r⟩
    · rw [hx] at h; cases h
    · rw [hx] at h; exact ⟨a, r, rfl, h⟩
  · rintro ⟨a, r, hx, hf⟩
    rw [hx]; exact hf

/-- The outcome of a sequence: the second part runs on what the first one leaves. -/
theorem bind_fst (x : Binding α) (f : α → Binding β) (q : Parameters) :
    ((x >>= f) q).1 = ((x q).1 >>= fun a => (f a (x q).2).1) := by
  rw [bind_apply]
  rcases x q with ⟨_ | _, _⟩ <;> rfl

theorem bind_decided {x : Binding α} {f : α → Binding β} {q : Parameters} {cs ds : List Check}
    (hx : DecidedBy (x q).1 cs) (hf : ∀ a r, x q = (.ok a, r) → DecidedBy (f a r).1 ds) :
    DecidedBy ((x >>= f) q).1 (cs ++ ds) := by
  rw [bind_fst]
  exact hx.bind fun a ha => hf a (x q).2 (Prod.ext ha rfl)

end Binding

/-! ## Tensors that are left -/

namespace Parameters

theorem get?_erase (p : Parameters) (name other : String) :
    (p.erase name).get? other = if other = name then none else p.get? other := by
  by_cases same : other = name
  · subst same
    rw [if_pos rfl, get?, Option.map_eq_none_iff, List.find?_eq_none]
    intro e he
    simpa using (List.mem_filter.1 he).2
  · rw [if_neg same, get?, get?, erase]
    congr 1
    rw [List.find?_filter]
    congr 1
    funext e
    by_cases here : e.1 = other
    · simp [here, same]
    · simp [here]

/-- `q` holds the tensors of `p` but those that were taken. -/
def Remaining (p : Parameters) (taken : List String) (q : Parameters) : Prop :=
  ∀ name, q.get? name = if name ∈ taken then none else p.get? name

theorem remaining_self (p : Parameters) : p.Remaining [] p := by
  intro name; simp

theorem Remaining.erase {p q : Parameters} {taken : List String} (h : p.Remaining taken q)
    (name : String) : p.Remaining (taken ++ [name]) (q.erase name) := by
  intro other
  rw [get?_erase, h other]
  by_cases same : other = name
  · simp [same]
  · simp [same]

end Parameters

/-! ## Slots -/

/-- The name of a tensor, and the number of values that it has to hold. -/
structure Slot where
  name : String
  length : Nat

namespace Slot

/-- The tensor of a slot; empty if there is none. -/
def values (s : Slot) (p : Parameters) : Array Scalar := (p.get? s.name).getD #[]

/-- The slot is there and not yet taken, has its length, and holds finite values. -/
def checks (s : Slot) (p : Parameters) (taken : List String) : List Check :=
  ⟨s.name ∉ taken ∧ (p.get? s.name).isSome, .parameter (.missing s.name)⟩ ::
  ⟨(s.values p).size = s.length, .parameter (.length s.name (s.values p).size s.length)⟩ ::
  (s.values p).toList.zipIdx.map fun x => ⟨x.1.isFinite, .parameter (.notFinite s.name x.2)⟩

/-- The checks of slots that are taken one after the other. -/
def listChecks (p : Parameters) (taken : List String) : List Slot → List Check
  | [] => []
  | s :: rest => s.checks p taken ++ listChecks p (taken ++ [s.name]) rest

theorem listChecks_append (p : Parameters) (taken : List String) (l k : List Slot) :
    listChecks p taken (l ++ k) = listChecks p taken l ++
      listChecks p (taken ++ l.map (·.name)) k := by
  induction l generalizing taken with
  | nil => simp [listChecks]
  | cons s rest ih => simp [listChecks, ih]

end Slot

/-! ## Taking a tensor -/

namespace Parameters

theorem checkTensor_decided (name : String) (values : Array Scalar) (length : Nat) :
    DecidedBy (checkTensor name values length)
      (⟨values.size = length, .parameter (.length name values.size length)⟩ ::
        values.toList.zipIdx.map fun x => ⟨x.1.isFinite, .parameter (.notFinite name x.2)⟩) := by
  show (checkTensor name values length).map (fun _ => ()) = _
  rw [verdict, verdict_map_zipIdx (fun i => .parameter (.notFinite name i))
    (fun x => !x.isFinite) (fun x => by simp) (fun _ => rfl), checkTensor,
    ← List.findIdx?_toArray, Array.toArray_toList]
  by_cases fits : values.size = length
  · rw [if_neg (not_not_intro fits), if_pos fits]
    cases values.findIdx? fun x => !x.isFinite with
    | none => rfl
    | some i => simp [refuseParameter, Except.map]
  · rw [if_pos fits, if_neg fits]
    rfl

theorem checkTensor_eq_ok {name : String} {values given : Array Scalar} {length : Nat}
    (h : checkTensor name values length = .ok given) : given = values ∧ values.size = length := by
  unfold checkTensor refuseParameter at h
  split at h
  · simp at h
  · rename_i fits
    split at h
    · simp at h
    · cases h
      exact ⟨rfl, Decidable.not_not.1 fits⟩

theorem Remaining.take_decided {p q : Parameters} {taken : List String}
    (h : p.Remaining taken q) (s : Slot) :
    DecidedBy (q.take s.name s.length).1 (s.checks p taken) := by
  have there := h s.name
  by_cases gone : s.name ∈ taken
  · rw [if_pos gone] at there
    rw [take, there]
    show Except.error _ = verdict _
    rw [Slot.checks, verdict, if_neg fun hs => hs.1 gone]
  · rw [if_neg gone] at there
    rw [take, there]
    cases hp : p.get? s.name with
    | none =>
      show Except.error _ = verdict _
      rw [Slot.checks, verdict, if_neg fun hs => by simp [hp] at hs]
    | some values =>
      have tensor : s.values p = values := by rw [Slot.values, hp]; rfl
      show (checkTensor s.name values s.length).map (fun _ => ()) = verdict _
      rw [Slot.checks, verdict, if_pos ⟨gone, by rw [hp]; rfl⟩, tensor]
      exact checkTensor_decided s.name values s.length

theorem Remaining.take_eq_ok {p q r : Parameters} {taken : List String} {name : String}
    {length : Nat} {values : Array Scalar} (h : p.Remaining taken q)
    (run : q.take name length = (.ok values, r)) :
    p.get? name = some values ∧ values.size = length ∧ p.Remaining (taken ++ [name]) r := by
  rw [take] at run
  cases hq : q.get? name with
  | none => simp [hq, refuseParameter] at run
  | some stored =>
    simp only [hq, Prod.mk.injEq] at run
    obtain ⟨checked, rfl⟩ := run
    obtain ⟨rfl, size⟩ := checkTensor_eq_ok checked
    refine ⟨?_, size, h.erase name⟩
    have there := h name
    rw [hq] at there
    by_cases gone : name ∈ taken
    · simp [gone] at there
    · rw [if_neg gone] at there
      exact there.symm

end Parameters

/-! ## Weights -/

namespace WeightLayout

/-- Where a tensor of this layout holds the weight from input `i` to output `o`. -/
def place (layout : WeightLayout) (input output i o : Nat) : Nat :=
  match layout with
  | inOut => i * output + o
  | outIn => o * input + i

/-- A tensor of the right size can be reordered, and every weight goes to its place. -/
theorem toInOut_eq_ok (layout : WeightLayout) {stored : Array Scalar} {input output : Nat}
    (size : stored.size = input * output) :
    ∃ weight, layout.toInOut stored input output = .ok weight ∧ weight.size = input * output ∧
      ∀ i < input, ∀ o < output,
        weight.getD (i * output + o) 0 = stored.getD (layout.place input output i o) 0 := by
  cases layout with
  | inOut => exact ⟨stored, rfl, size, fun i _ o _ => rfl⟩
  | outIn =>
    refine ⟨_, if_pos (Nat.le_of_eq size.symm), by simp, fun i hi o ho => ?_⟩
    have inside : i * output + o < input * output := by
      have := Nat.mul_le_mul_right output (Nat.succ_le_of_lt hi)
      rw [Nat.succ_mul] at this
      omega
    have column : (i * output + o) % output = o := by
      rw [Nat.mul_comm, Nat.mul_add_mod, Nat.mod_eq_of_lt ho]
    have row : (i * output + o) / output = i := by
      rw [Nat.mul_comm, Nat.mul_add_div (by omega), Nat.div_eq_of_lt ho, Nat.add_zero]
    simp [Array.getD_eq_getD_getElem?, inside, column, row, place]

end WeightLayout

theorem Dense.ofTensors_eq_ok {weight bias : Array Scalar} {input output : Nat}
    (fits : input * output < Count.limit) (hw : weight.size = input * output)
    (hb : bias.size = output) :
    ofTensors weight bias input output = .ok ⟨input, output, weight, bias, hw, hb⟩ := by
  rw [ofTensors, Count.check_bind, if_pos fits, dif_pos hw, dif_pos hb]
  rfl

/-! ## Layers -/

/-- The slots of layers `layer`, `layer + 1`, ... of a module. -/
def layerSlots (module : String) : Nat → Nat → List Nat → List Slot
  | _, _, [] => []
  | layer, input, output :: rest =>
    ⟨Parameters.weightSlot module layer, input * output⟩ ::
      ⟨Parameters.biasSlot module layer, output⟩ :: layerSlots module (layer + 1) output rest

/-- The numbers of weights of layers are counts. -/
def LayersFit : Nat → List Nat → Prop
  | _, [] => True
  | input, output :: rest => input * output < Count.limit ∧ LayersFit output rest

/-- A layer of these widths that holds the tensors of its two slots. -/
structure Dense.Holds (p : Parameters) (module : String) (layout : WeightLayout)
    (layer input output : Nat) (d : Dense) : Prop where
  input_eq : d.input = input
  output_eq : d.output = output
  bias : p.get? (Parameters.biasSlot module layer) = some d.bias
  weight : ∃ stored, p.get? (Parameters.weightSlot module layer) = some stored ∧
    stored.size = input * output ∧ ∀ i < input, ∀ o < output,
      d.weightAt i o = stored.getD (layout.place input output i o) 0

/-- Layers `layer`, `layer + 1`, ... of a module, each with the tensors of its slots. -/
inductive BoundLayers (p : Parameters) (module : String) (layout : WeightLayout) :
    Nat → Nat → List Nat → List Dense → Prop
  | nil {layer input} : BoundLayers p module layout layer input [] []
  | cons {layer input output rest d ds} : d.Holds p module layout layer input output →
      BoundLayers p module layout (layer + 1) output rest ds →
      BoundLayers p module layout layer input (output :: rest) (d :: ds)

namespace Binding

open Parameters (Remaining weightSlot biasSlot)

variable {p q r : Parameters} {taken : List String} {module : String} {layout : WeightLayout}

theorem layers_cons (module : String) (layout : WeightLayout) (layer input output : Nat)
    (rest : List Nat) :
    layers module layout layer input (output :: rest) = (do
      let count ← (Count.mul input output : Outcome Nat)
      let stored ← take (weightSlot module layer) count
      let bias ← take (biasSlot module layer) output
      let weight ← (layout.toInOut stored input output : Outcome (Array Scalar))
      let first ← (Dense.ofTensors weight bias input output : Outcome Dense)
      let others ← layers module layout (layer + 1) output rest
      pure (first :: others)) := rfl

/-- **Bound layers hold the tensors of their slots**, and these are gone afterwards. -/
theorem bound_of_layers (sizes : List Nat) {layer input : Nat} {ds : List Dense}
    (left : p.Remaining taken q) (run : layers module layout layer input sizes q = (.ok ds, r)) :
    BoundLayers p module layout layer input sizes ds ∧
      p.Remaining (taken ++ (layerSlots module layer input sizes).map (·.name)) r := by
  induction sizes generalizing layer input taken q r ds with
  | nil =>
    cases run
    exact ⟨.nil, by simpa [layerSlots] using left⟩
  | cons output rest ih =>
    rw [layers_cons] at run
    obtain ⟨count, q₀, hcount, run⟩ := bind_eq_ok.1 run
    rw [lift_apply] at hcount
    obtain ⟨mul, rfl⟩ := Prod.mk.inj hcount
    obtain ⟨fits, rfl⟩ := Count.mul_eq_ok.1 mul
    obtain ⟨stored, q₁, hstored, run⟩ := bind_eq_ok.1 run
    obtain ⟨storedAt, storedSize, left₁⟩ := left.take_eq_ok hstored
    obtain ⟨bias, q₂, hbias, run⟩ := bind_eq_ok.1 run
    obtain ⟨biasAt, biasSize, left₂⟩ := left₁.take_eq_ok hbias
    obtain ⟨weight, reorder, weightSize, places⟩ := layout.toInOut_eq_ok storedSize
    obtain ⟨weight', q₃, hweight, run⟩ := bind_eq_ok.1 run
    rw [lift_apply, reorder] at hweight
    cases hweight
    obtain ⟨first, q₄, hfirst, run⟩ := bind_eq_ok.1 run
    rw [lift_apply, Dense.ofTensors_eq_ok fits weightSize biasSize] at hfirst
    cases hfirst
    obtain ⟨others, q₅, hothers, run⟩ := bind_eq_ok.1 run
    obtain ⟨bound, left₃⟩ := ih left₂ hothers
    cases run
    refine ⟨.cons ⟨rfl, rfl, biasAt, stored, storedAt, storedSize, places⟩ bound, ?_⟩
    simpa [layerSlots, List.append_assoc] using left₃

/-- **Binding layers succeeds iff every slot passes its checks.** -/
theorem layers_decided (sizes : List Nat) {layer input : Nat} (fits : LayersFit input sizes)
    (left : p.Remaining taken q) :
    DecidedBy (layers module layout layer input sizes q).1
      (Slot.listChecks p taken (layerSlots module layer input sizes)) := by
  induction sizes generalizing layer input taken q with
  | nil => exact .ok _
  | cons output rest ih =>
    obtain ⟨fit, fits⟩ := fits
    rw [layers_cons, bind_apply, lift_apply, Count.mul_eq_ok.2 ⟨fit, rfl⟩]
    refine bind_decided (left.take_decided ⟨weightSlot module layer, input * output⟩)
      fun stored q₁ hstored => ?_
    obtain ⟨-, storedSize, left₁⟩ := left.take_eq_ok hstored
    refine bind_decided (left₁.take_decided ⟨biasSlot module layer, output⟩)
      fun bias q₂ hbias => ?_
    obtain ⟨-, biasSize, left₂⟩ := left₁.take_eq_ok hbias
    -- from here on only the layers that follow can fail
    obtain ⟨weight, reorder, weightSize, -⟩ := layout.toInOut_eq_ok storedSize
    rw [bind_apply, lift_apply, reorder]
    simp only []
    rw [bind_apply, lift_apply, Dense.ofTensors_eq_ok fit weightSize biasSize]
    simp only []
    rw [← List.append_nil (Slot.listChecks p _ _)]
    exact bind_decided (ih fits left₂) fun others _ _ => .ok _

end Binding

/-! ## Perceptrons -/

section
variable {p : Parameters} {module : String} {layout : WeightLayout} {layer input : Nat}
  {sizes : List Nat} {ds : List Dense}

theorem BoundLayers.chained (h : BoundLayers p module layout layer input sizes ds) :
    Chained ds := by
  induction h with
  | nil => trivial
  | @cons layer input output rest d ds hd hds ih =>
    cases hds with
    | nil => trivial
    | cons he _ => exact ⟨hd.output_eq.trans he.input_eq.symm, ih⟩

theorem BoundLayers.map_output (h : BoundLayers p module layout layer input sizes ds) :
    ds.map Dense.output = sizes := by
  induction h with
  | nil => rfl
  | cons hd _ ih => rw [List.map_cons, hd.output_eq, ih]

theorem BoundLayers.head_input (h : BoundLayers p module layout layer input sizes ds)
    (nonempty : ds ≠ []) : (ds.head nonempty).input = input := by
  cases h with
  | nil => exact absurd rfl nonempty
  | cons hd _ => exact hd.input_eq

/-- The layer at a position holds the tensors of the slots of this position. -/
theorem BoundLayers.getElem? (h : BoundLayers p module layout layer input sizes ds) {i : Nat}
    {a b : Nat} (ha : (input :: sizes)[i]? = some a) (hb : sizes[i]? = some b) :
    ∃ d, ds[i]? = some d ∧ d.Holds p module layout (layer + i) a b := by
  induction h generalizing i with
  | nil => simp at hb
  | @cons layer input output rest d ds hd hds ih =>
    cases i with
    | zero =>
      obtain rfl : input = a := by simpa using ha
      obtain rfl : output = b := by simpa using hb
      exact ⟨d, rfl, hd⟩
    | succ i =>
      obtain ⟨e, he, holds⟩ := ih (by simpa using ha) (by simpa using hb)
      refine ⟨e, by simpa using he, ?_⟩
      rwa [Nat.add_right_comm, Nat.add_assoc] at holds

end

theorem unchained?_eq_none {ds : List Dense} (h : Chained ds) (i : Nat) :
    unchained? i ds = none := by
  induction ds generalizing i with
  | nil => rfl
  | cons a tail ih =>
    cases tail with
    | nil => rfl
    | cons b rest => rw [unchained?, if_pos h.1]; exact ih h.2 (i + 1)

namespace Perceptron

open Parameters (Remaining)

theorem ofLayers_eq_ok {ds : List Dense} (activation : Activation) (activateFinal : Bool)
    (nonempty : ds ≠ []) (chained : Chained ds) :
    ofLayers ds activation activateFinal =
      .ok ⟨ds, activation, activateFinal, nonempty, chained⟩ := by
  rw [ofLayers, dif_neg nonempty]
  split
  · rename_i h
    rw [unchained?_eq_none chained] at h
    cases h
  · rfl

section
variable {p q r : Parameters} {taken : List String} {module : String} {layout : WeightLayout}
  {input : Nat} {sizes : List Nat} {activation : Activation} {activateFinal : Bool}
  {P : Perceptron}

theorem inputWidth_of_bound (h : BoundLayers p module layout 0 input sizes P.layers) :
    P.inputWidth = input :=
  h.head_input P.nonempty

theorem outputWidth_of_bound (h : BoundLayers p module layout 0 input sizes P.layers) :
    sizes.getLast? = some P.outputWidth := by
  rw [outputWidth, ← h.map_output, List.getLast?_map, List.getLast?_eq_some_getLast P.nonempty]
  rfl

theorem bind_eq (module : String) (input : Nat) (sizes : List Nat) (layout : WeightLayout)
    (activation : Activation) (activateFinal : Bool) :
    Perceptron.bind module input sizes layout activation activateFinal = (do
      let layers ← Binding.layers module layout 0 input sizes
      (ofLayers layers activation activateFinal : Outcome Perceptron)) := rfl

theorem bound_of_bind (left : p.Remaining taken q)
    (run : Perceptron.bind module input sizes layout activation activateFinal q = (.ok P, r)) :
    BoundLayers p module layout 0 input sizes P.layers ∧ P.activation = activation ∧
      P.activateFinal = activateFinal ∧
      p.Remaining (taken ++ (layerSlots module 0 input sizes).map (·.name)) r := by
  rw [bind_eq] at run
  obtain ⟨ds, q₁, hds, run⟩ := Binding.bind_eq_ok.1 run
  obtain ⟨bound, left₁⟩ := Binding.bound_of_layers sizes left hds
  rw [Binding.lift_apply] at run
  obtain ⟨made, rfl⟩ := Prod.mk.inj run
  by_cases none : ds = []
  · simp [ofLayers, none, refuseParameter] at made
  · rw [ofLayers_eq_ok activation activateFinal none bound.chained] at made
    cases made
    exact ⟨bound, rfl, rfl, left₁⟩

/-- The layers bound for declared sizes make a perceptron. -/
theorem ofLayers_of_run (nonempty : sizes ≠ []) (left : p.Remaining taken q) {ds : List Dense}
    (run : Binding.layers module layout 0 input sizes q = (.ok ds, r)) :
    ∃ P, ofLayers ds activation activateFinal = .ok P := by
  obtain ⟨bound, -⟩ := Binding.bound_of_layers sizes left run
  have someLayer : ds ≠ [] := by
    rintro rfl
    exact nonempty (by simpa using bound.map_output.symm)
  exact ⟨_, ofLayers_eq_ok activation activateFinal someLayer bound.chained⟩

theorem bind_decided (nonempty : sizes ≠ []) (fits : LayersFit input sizes)
    (left : p.Remaining taken q) :
    DecidedBy (Perceptron.bind module input sizes layout activation activateFinal q).1
      (Slot.listChecks p taken (layerSlots module 0 input sizes)) := by
  rw [bind_eq, Binding.bind_fst]
  exact (Binding.layers_decided sizes fits left).bind_ok fun ds hds =>
    ofLayers_of_run nonempty left (Prod.ext hds rfl)

end

end Perceptron

end MessagePassing
