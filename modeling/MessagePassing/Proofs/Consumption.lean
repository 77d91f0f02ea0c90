/-
  Message passing — what binding leaves of the tensors.

  Binding takes slot after slot, weights before biases, and stops at the first slot that is not
  filled.  Everything that it has come to is gone then, the bad tensor included, and nothing else.

  * `Slot.take_cases`: a slot is filled, or refused for what it lacks;
  * `Slot.Taking`: how taking slots in order ends, with its result and with what is left;
  * `Binding.layers_taking`: the layers of a module take its slots in order;
  * `Perceptron.bind_takes`: what binding takes, what it makes of it, and where it stops.
-/
import MessagePassing.Proofs.IdentityTensors
import MessagePassing.Proofs.Layouts

namespace MessagePassing

variable {α β : Type} {p q : Parameters} {taken names : List String}

/-! ## Tensors taken away -/

namespace Parameters

/-- The tensors but those of the given names. -/
def without (p : Parameters) (names : List String) : Parameters :=
  ⟨p.entries.filter (·.1 ∉ names), p.ascending.filter _⟩

@[simp]
theorem without_nil (p : Parameters) : p.without [] = p :=
  Parameters.ext (List.filter_eq_self.2 fun _ _ => by simp)

theorem erase_without (p : Parameters) (names : List String) (name : String) :
    (p.without names).erase name = p.without (names ++ [name]) := by
  apply Parameters.ext
  show (p.entries.filter (·.1 ∉ names)).filter (·.1 ≠ name) = p.entries.filter (·.1 ∉ names ++ [name])
  rw [List.filter_filter]
  congr 1
  funext e
  by_cases same : e.1 = name <;> simp [same]

theorem remaining_without (p : Parameters) (names : List String) :
    p.Remaining names (p.without names) := by
  induction names using List.reverseRecOn with
  | nil => simpa using p.remaining_self
  | append_singleton names name ih =>
    rw [← erase_without]
    exact ih.erase name

/-- A tensor that is not there cannot be taken away. -/
theorem erase_of_missing {name : String} (missing : q.get? name = none) : q.erase name = q := by
  apply Parameters.ext
  refine List.filter_eq_self.2 fun e he => ?_
  rw [get?, Option.map_eq_none_iff, List.find?_eq_none] at missing
  simpa using missing e he

/-- Taking a tensor leaves the others, whether or not its check passes. -/
theorem take_snd (q : Parameters) (name : String) (length : Nat) :
    (q.take name length).2 = q.erase name := by
  rw [take]
  cases there : q.get? name with
  | none => exact (erase_of_missing there).symm
  | some values => rfl

theorem mem_names_of_get? {name : String} (there : (q.get? name).isSome) : name ∈ q.names := by
  rw [get?, Option.isSome_map, List.find?_isSome] at there
  obtain ⟨e, mem, same⟩ := there
  exact List.mem_map.2 ⟨e, mem, by simpa using same⟩

/-- One tensor is gone. -/
theorem size_erase {name : String} (there : (q.get? name).isSome) :
    (q.erase name).size + 1 = q.size := by
  have once : q.entries.countP (·.1 = name) = 1 := by
    have count := List.count_eq_one_of_mem q.nodup_names (mem_names_of_get? there)
    rwa [names, List.count, List.countP_map] at count
  have parts := List.length_eq_countP_add_countP (fun e => decide (e.1 = name)) (l := q.entries)
  rw [once, Nat.add_comm] at parts
  rw [size, size, parts, List.countP_eq_length_filter]
  simp [erase]

/-- As many tensors are gone as were taken. -/
theorem size_without (distinct : names.Nodup) (there : ∀ name ∈ names, (p.get? name).isSome) :
    (p.without names).size + names.length = p.size := by
  induction names using List.reverseRecOn with
  | nil => simp
  | append_singleton names name ih =>
    rw [List.nodup_append] at distinct
    obtain ⟨earlier, last⟩ := List.forall_mem_append.1 there
    have here : ((p.without names).get? name).isSome := by
      rw [p.remaining_without names name, if_neg]
      · exact last name (List.mem_singleton_self _)
      · exact fun mem => distinct.2.2 name mem name (List.mem_singleton_self _) rfl
    rw [← erase_without, List.length_append, List.length_singleton, ← ih distinct.1 earlier,
      ← size_erase here]
    omega

end Parameters

/-! ## Slots that are not filled -/

namespace Slot

/-- What keeps a slot from being filled: there is no tensor, or it has another length, or it
    has a first value that is not finite. -/
inductive Lacks (s : Slot) (p : Parameters) : ParameterError → Prop where
  | tensor : p.get? s.name = none → Lacks s p (.missing s.name)
  | length {values : Array Scalar} : p.get? s.name = some values → values.size ≠ s.length →
      Lacks s p (.length s.name values.size s.length)
  | finite {values : Array Scalar} {i : Nat} (hi : i < values.size) :
      p.get? s.name = some values → values.size = s.length → values[i].isFinite = false →
      (∀ (j : Nat) (hj : j < i), values[j].isFinite = true) → Lacks s p (.notFinite s.name i)

theorem Lacks.not_filled {s : Slot} {cause : ParameterError} (h : s.Lacks p cause) :
    ¬ s.Filled p := by
  rintro ⟨stored, there, size, finite⟩
  cases h with
  | tensor missing =>
    rw [missing] at there
    cases there
  | length found differ =>
    rw [found] at there
    cases there
    exact differ size
  | finite hi found _ infinite _ =>
    rw [found] at there
    cases there
    rw [finite _ (Array.getElem_mem hi)] at infinite
    cases infinite

/-- A slot passes if it is filled, and else is refused for what it lacks. -/
theorem take_cases (s : Slot) (same : q.get? s.name = p.get? s.name) :
    (s.Filled p ∧ ∃ values, (q.take s.name s.length).1 = .ok values) ∨
      ∃ cause, s.Lacks p cause ∧ (q.take s.name s.length).1 = refuseParameter cause := by
  rw [Parameters.take, same]
  cases there : p.get? s.name with
  | none => exact .inr ⟨_, .tensor there, rfl⟩
  | some values =>
    simp only [Parameters.checkTensor]
    by_cases size : values.size = s.length
    · rw [if_neg (not_not_intro size)]
      cases bad : values.findIdx? fun x => !x.isFinite with
      | none =>
        refine .inl ⟨⟨values, there, size, fun x hx => ?_⟩, values, rfl⟩
        simpa using Array.findIdx?_eq_none_iff.1 bad x hx
      | some i =>
        obtain ⟨hi, infinite, finite⟩ := Array.findIdx?_eq_some_iff_getElem.1 bad
        exact .inr ⟨_, .finite hi there size (by simpa using infinite)
          (fun j hj => by simpa using finite j hj), rfl⟩
    · exact .inr ⟨_, .length there size, if_pos size⟩

/-! ## Taking slots in order -/

/-- How a binding ends that takes slots in order, when `taken` are gone already: all slots are
    filled, and gone with them; or the first that is not filled is reported, and only the slots
    up to this one are gone. -/
inductive Taking (p : Parameters) (taken : List String) (slots : List Slot) :
    Outcome α × Parameters → Prop where
  | all (a : α) : (∀ s ∈ slots, s.Filled p) →
      Taking p taken slots (.ok a, p.without (taken ++ slots.map (·.name)))
  | upTo {before after : List Slot} {s : Slot} {cause : ParameterError} :
      slots = before ++ s :: after → (∀ t ∈ before, t.Filled p) → s.Lacks p cause →
      Taking p taken slots
        (refuseParameter cause, p.without (taken ++ (before ++ [s]).map (·.name)))

namespace Taking

variable {x : Binding α} {f : α → Binding β} {l k : List Slot}

theorem bind (hx : Taking p taken l (x q))
    (hf : ∀ a r, x q = (.ok a, r) → Taking p (taken ++ l.map (·.name)) k (f a r)) :
    Taking p taken (l ++ k) ((x >>= f) q) := by
  rw [Binding.bind_apply]
  generalize run : x q = ends at hx
  cases hx with
  | upTo split filled lacks =>
    exact .upTo (by rw [split, List.append_assoc, List.cons_append]) filled lacks
  | all a filled =>
    have later := hf a _ run
    simp only
    generalize f a _ = ends at later
    cases later with
    | all b others =>
      rw [List.append_assoc, ← List.map_append]
      exact .all b (List.forall_mem_append.2 ⟨filled, others⟩)
    | @upTo before after s cause split others lacks =>
      rw [List.append_assoc, ← List.map_append, ← List.append_assoc]
      exact .upTo (by rw [split, List.append_assoc])
        (List.forall_mem_append.2 ⟨filled, others⟩) lacks

/-- A last step that takes nothing and always succeeds changes nothing. -/
theorem bind_ok (hx : Taking p taken l (x q))
    (hf : ∀ a r, x q = (.ok a, r) → ∃ b, f a r = (.ok b, r)) :
    Taking p taken l ((x >>= f) q) := by
  rw [Binding.bind_apply]
  generalize run : x q = ends at hx
  cases hx with
  | upTo split filled lacks => exact .upTo split filled lacks
  | all a filled =>
    obtain ⟨b, last⟩ := hf a _ run
    simp only [last]
    exact .all b filled

/-- One slot that was not taken before. -/
theorem single (s : Slot) (untaken : s.name ∉ taken) :
    Taking p taken [s] (Binding.take s.name s.length (p.without taken)) := by
  have same : (p.without taken).get? s.name = p.get? s.name := by
    rw [p.remaining_without taken, if_neg untaken]
  have left := (p.without taken).take_snd s.name s.length
  rw [Parameters.erase_without] at left
  show Taking p taken [s] ((p.without taken).take s.name s.length)
  generalize ends : (p.without taken).take s.name s.length = run at left
  obtain ⟨outcome, r⟩ := run
  obtain rfl : r = p.without (taken ++ [s.name]) := left
  rcases s.take_cases same with ⟨filled, values, passed⟩ | ⟨cause, lacks, refused⟩
  · obtain rfl : outcome = .ok values := by rw [← passed, ends]
    exact .all values (List.forall_mem_singleton.2 filled)
  · obtain rfl : outcome = refuseParameter cause := by rw [← refused, ends]
    exact .upTo (List.nil_append _).symm (by simp) lacks

theorem ok_iff {y : Outcome α × Parameters} (h : Taking p taken l y) :
    (∃ a, y.1 = .ok a) ↔ ∀ s ∈ l, s.Filled p := by
  cases h with
  | all a filled => exact iff_of_true ⟨a, rfl⟩ filled
  | @upTo before after s cause split _ lacks =>
    refine iff_of_false (by simp [refuseParameter]) fun filled => ?_
    exact lacks.not_filled (filled s (by simp [split]))

end Taking

end Slot

/-! ## Layers -/

namespace Binding

variable {module : String} {layout : WeightLayout} {layer input : Nat} {sizes : List Nat}

theorem take_eq_ok {name : String} {length : Nat} {values : Array Scalar}
    (run : take name length (p.without taken) = (.ok values, q)) :
    values.size = length ∧ q = p.without (taken ++ [name]) := by
  obtain ⟨-, size, -⟩ := (p.remaining_without taken).take_eq_ok run
  refine ⟨size, ?_⟩
  rw [← Parameters.erase_without, ← Parameters.take_snd _ name length]
  exact (congrArg Prod.snd run).symm

/-- **The layers of a module take their slots in order**, and nothing else. -/
theorem layers_taking (fits : LayersFit input sizes)
    (distinct : (taken ++ (layerSlots module layer input sizes).map (·.name)).Nodup) :
    Slot.Taking p taken (layerSlots module layer input sizes)
      (layers module layout layer input sizes (p.without taken)) := by
  induction sizes generalizing layer input taken with
  | nil =>
    have none : Slot.Taking p taken [] (.ok ([] : List Dense), p.without (taken ++ [])) :=
      .all [] (by simp)
    rwa [List.append_nil] at none
  | cons output rest ih =>
    obtain ⟨fit, fits⟩ := fits
    let weights : Slot := ⟨Parameters.weightSlot module layer, input * output⟩
    let biases : Slot := ⟨Parameters.biasSlot module layer, output⟩
    show Slot.Taking p taken
      ([weights] ++ ([biases] ++ layerSlots module (layer + 1) output rest)) _
    have split : taken ++ (layerSlots module layer input (output :: rest)).map (·.name) =
        ((taken ++ [weights.name]) ++ [biases.name]) ++
          (layerSlots module (layer + 1) output rest).map (·.name) := by
      simp [layerSlots, weights, biases]
    rw [split] at distinct
    have before := (List.nodup_append.1 distinct).1
    obtain ⟨first, -, second⟩ := List.nodup_append.1 before
    obtain ⟨-, -, apart⟩ := List.nodup_append.1 first
    rw [layers_cons, bind_apply, lift_apply, Count.mul_eq_ok.2 ⟨fit, rfl⟩]
    refine .bind (.single weights fun mem => apart _ mem _ (List.mem_singleton_self _) rfl)
      fun stored q₁ hstored => ?_
    obtain ⟨storedSize, rfl⟩ := take_eq_ok hstored
    refine .bind (.single biases fun mem => second _ mem _ (List.mem_singleton_self _) rfl)
      fun bias q₂ hbias => ?_
    obtain ⟨biasSize, rfl⟩ := take_eq_ok hbias
    -- the tensors fit the layer, so that only the layers that follow can fail
    obtain ⟨weight, reorder, weightSize, -⟩ := layout.toInOut_eq_ok storedSize
    rw [bind_apply, lift_apply, reorder]
    simp only []
    rw [bind_apply, lift_apply, Dense.ofTensors_eq_ok fit weightSize biasSize]
    simp only []
    exact (ih fits distinct).bind_ok fun others r _ => ⟨_, rfl⟩

end Binding

/-! ## Names of slots -/

/-- The names of the slots of a module, weights before biases in every layer. -/
def Parameters.slotNames (module : String) (layers : Nat) : List String :=
  (slots module layers).flatMap fun slot => [slot.1, slot.2]

theorem names_layerSlots (module : String) (input : Nat) (sizes : List Nat) :
    (layerSlots module 0 input sizes).map (·.name) =
      Parameters.slotNames module sizes.length := by
  rw [names_layerSlots_from, Parameters.slotNames, Parameters.slots, List.flatMap_map]
  simp only [Nat.zero_add]

theorem length_layerSlots (module : String) (layer input : Nat) (sizes : List Nat) :
    (layerSlots module layer input sizes).length = 2 * sizes.length := by
  induction sizes generalizing layer input with
  | nil => rfl
  | cons output rest ih =>
    simp only [layerSlots, List.length_cons, ih]
    omega

/-- The weights of a bound layer are the tensor of its slot, with one row per input. -/
theorem Dense.Holds.reordered {module : String} {layout : WeightLayout} {layer input output : Nat}
    {d : Dense} (h : d.Holds p module layout layer input output) :
    ∃ stored, p.get? (Parameters.weightSlot module layer) = some stored ∧
      layout.toInOut stored input output = .ok d.weight := by
  obtain ⟨stored, there, size, places⟩ := h.weight
  obtain ⟨weight, made, weightSize, entries⟩ := layout.toInOut_eq_ok size
  have dense : d.weight.size = input * output := by rw [d.size_weight, h.input_eq, h.output_eq]
  have same : weight = d.weight := WeightLayout.eq_of_entries weightSize dense fun i hi o ho => by
    rw [entries i hi o ho, ← places i hi o ho, Dense.weightAt, h.output_eq]
  exact ⟨stored, there, same ▸ made⟩

/-! ## Perceptrons -/

namespace Perceptron

variable {module : String} {input : Nat} {sizes : List Nat} {layout : WeightLayout}
  {activation : Activation} {activateFinal : Bool}

theorem bind_taking (nonempty : sizes ≠ []) (fits : LayersFit input sizes) :
    Slot.Taking p [] (layerSlots module 0 input sizes)
      (Perceptron.bind module input sizes layout activation activateFinal p) := by
  have distinct : ([] ++ (layerSlots module 0 input sizes).map Slot.name).Nodup := nodup_layerSlots
  have layers : Slot.Taking p [] (layerSlots module 0 input sizes)
      (Binding.layers module layout 0 input sizes (p.without [])) :=
    Binding.layers_taking fits distinct
  rw [Parameters.without_nil] at layers
  refine layers.bind_ok fun ds r run => ?_
  obtain ⟨P, made⟩ := ofLayers_of_run nonempty p.remaining_self run
  exact ⟨P, by rw [Binding.lift_apply, made]⟩

/-- **Binding takes exactly its slots.**  It gives a perceptron iff all slots of the module are
    filled.  Then every layer has the declared widths, the tensor of its weight slot with one
    row per input and that of its bias slot as it is, and exactly these tensors are gone.
    Otherwise the first slot that is not filled is reported, and exactly the slots up to this
    one are gone.  Bound layers always make a perceptron. -/
theorem bind_takes (module : String) (input : Nat) (sizes : List Nat) (layout : WeightLayout)
    (activation : Activation) (activateFinal : Bool) (p left : Parameters)
    (outcome : Outcome Perceptron) (nonempty : sizes ≠ []) (fits : LayersFit input sizes)
    (run : Perceptron.bind module input sizes layout activation activateFinal p =
      (outcome, left)) :
    (layerSlots module 0 input sizes).map (·.name) = Parameters.slotNames module sizes.length ∧
      ((∃ P, outcome = .ok P) ↔ ∀ s ∈ layerSlots module 0 input sizes, s.Filled p) ∧
      (∀ P, outcome = .ok P →
        P.activation = activation ∧ P.activateFinal = activateFinal ∧
        P.layers.length = sizes.length ∧
        (∀ i a b, (input :: sizes)[i]? = some a → sizes[i]? = some b →
          ∃ d, P.layers[i]? = some d ∧ d.input = a ∧ d.output = b ∧
            (∃ stored, p.get? (Parameters.weightSlot module i) = some stored ∧
              layout.toInOut stored a b = .ok d.weight) ∧
            p.get? (Parameters.biasSlot module i) = some d.bias) ∧
        left = p.without (Parameters.slotNames module sizes.length) ∧
        left.size + 2 * sizes.length = p.size) ∧
      (∀ failure, outcome = .error failure →
        ∃ before s after cause, layerSlots module 0 input sizes = before ++ s :: after ∧
          (∀ t ∈ before, t.Filled p) ∧ s.Lacks p cause ∧
          failure = .refused (.parameter cause) ∧
          left = p.without ((before ++ [s]).map (·.name))) ∧
      ∀ q ds r, Binding.layers module layout 0 input sizes q = (.ok ds, r) →
        ∃ P, ofLayers ds activation activateFinal = .ok P := by
  have names := names_layerSlots module input sizes
  have taking : Slot.Taking p [] (layerSlots module 0 input sizes) (outcome, left) :=
    run ▸ bind_taking nonempty fits
  refine ⟨names, taking.ok_iff, ?bound, ?stopped, fun q ds r layers =>
    ofLayers_of_run nonempty q.remaining_self layers⟩
  case bound =>
    rintro P rfl
    obtain ⟨bound, same, same', -⟩ := bound_of_bind p.remaining_self run
    refine ⟨same, same', ?_, fun i a b ha hb => ?_, ?_⟩
    · rw [← bound.map_output, List.length_map]
    · obtain ⟨d, hd, holds⟩ := bound.getElem? ha hb
      rw [Nat.zero_add] at holds
      exact ⟨d, hd, holds.input_eq, holds.output_eq, holds.reordered, holds.bias⟩
    · cases taking with
      | all _ filled =>
        rw [List.nil_append, names]
        refine ⟨rfl, ?_⟩
        have distinct : (Parameters.slotNames module sizes.length).Nodup := names ▸ nodup_layerSlots
        have there : ∀ name ∈ Parameters.slotNames module sizes.length,
            (p.get? name).isSome := by
          rw [← names, List.forall_mem_map]
          intro s hs
          obtain ⟨values, here, -⟩ := filled s hs
          rw [here]
          rfl
        rw [← Parameters.size_without distinct there, ← names, List.length_map, length_layerSlots]
  case stopped =>
    rintro failure rfl
    cases taking with
    | upTo split filled lacks => exact ⟨_, _, _, _, split, filled, lacks, rfl, rfl⟩

/-- Of the self-loop, one layer for the edges can be bound, but not two for the nodes: their
    first layer is gone then, and the second one is reported. -/
theorem bind_takes_selfLoop :
    (LayersFit 4 [1] ∧ ∃ P left,
      Perceptron.bind "edge" 4 [1] .outIn .relu false .selfLoop = (.ok P, left) ∧
      P.layers.length = 1 ∧
      left = Parameters.selfLoop.without ["edge.linear_0.weight", "edge.linear_0.bias"] ∧
      left.size = 4) ∧
    LayersFit 3 [1, 1] ∧ ∃ cause left,
      Perceptron.bind "node" 3 [1, 1] .inOut .relu false .selfLoop =
        (refuseParameter cause, left) ∧
      left = Parameters.selfLoop.without
        ["node.linear_0.weight", "node.linear_0.bias", "node.linear_1.weight"] := by
  have one : LayersFit 4 [1] := ⟨by decide, trivial⟩
  have two : LayersFit 3 [1, 1] := ⟨by decide, by decide, trivial⟩
  refine ⟨⟨one, ?_⟩, two, ?_⟩
  · obtain ⟨-, accepts, bound, -⟩ := bind_takes "edge" 4 [1] .outIn .relu false .selfLoop _ _
      (by simp) one rfl
    obtain ⟨P, made⟩ := accepts.2 (List.forall_mem_cons.2 ⟨⟨_, rfl, rfl, by decide⟩,
      List.forall_mem_cons.2 ⟨⟨_, rfl, rfl, by decide⟩, by simp [layerSlots]⟩⟩)
    obtain ⟨-, -, count, -, left, size⟩ := bound P made
    exact ⟨P, _, Prod.ext made rfl, count, left, Nat.add_right_cancel size⟩
  · obtain ⟨-, accepts, -, stops, -⟩ := bind_takes "node" 3 [1, 1] .inOut .relu false .selfLoop _ _
      (by simp) two rfl
    have first : Slot.Filled ⟨"node.linear_0.weight", 3⟩ .selfLoop := ⟨_, rfl, rfl, by decide⟩
    have second : Slot.Filled ⟨"node.linear_0.bias", 1⟩ .selfLoop := ⟨_, rfl, rfl, by decide⟩
    have third : ¬ Slot.Filled ⟨"node.linear_1.weight", 1⟩ .selfLoop := by
      rintro ⟨values, there, -⟩
      cases there
    cases ends : (Perceptron.bind "node" 3 [1, 1] .inOut .relu false .selfLoop).1 with
    | ok P =>
      have filled := accepts.1 ⟨P, ends⟩
      exact absurd (filled _ (List.mem_cons_of_mem _ (List.mem_cons_of_mem _ List.mem_cons_self)))
        third
    | error failure =>
      obtain ⟨before, s, after, cause, split, filled, lacks, rfl, left⟩ := stops failure ends
      refine ⟨cause, _, Prod.ext ends rfl, left.trans ?_⟩
      -- the first slot that is not filled can only be the third
      rcases before with _ | ⟨_, _ | ⟨_, _ | ⟨t, _⟩⟩⟩
      · obtain ⟨rfl, -⟩ := List.cons.inj split
        exact absurd first lacks.not_filled
      · obtain ⟨-, split⟩ := List.cons.inj split
        obtain ⟨rfl, -⟩ := List.cons.inj split
        exact absurd second lacks.not_filled
      · cases split
        rfl
      · obtain ⟨-, split⟩ := List.cons.inj split
        obtain ⟨-, split⟩ := List.cons.inj split
        obtain ⟨same, -⟩ := List.cons.inj split
        exact absurd (same ▸ filled t (by simp)) third

end Perceptron

end MessagePassing
