/-
  Message passing — descriptions that overflow.

  Compiling adds up the widths of input blocks and multiplies the widths of layers, and a
  description can hold any counts.  `Settled x passes spills` tells how an operation ends that
  can leave the range of counts: it does so iff `spills`, it gives a result iff it `passes` and
  does not, and else it refuses.  Sequences of settled operations are settled (`Settled.bind`).

  * `Slot.Overrun`: binding comes to a tensor whose length is no count;
  * `Description.compile_settled`: how compiling ends, for every description;
  * `Description.compile_answers_iff`: compiling ends with a model or an error exactly if the
    description does not overflow;
  * `Description.compile_wide`: two descriptions that do.
-/
import MessagePassing.Proofs.Acceptance

namespace MessagePassing

open MessagePassing.Count (within limit total)

variable {α β : Type}

/-! ## Operations that can overflow -/

/-- The operation leaves the range of counts iff `spills`; otherwise it gives a result iff it
    `passes`, and refuses if not. -/
structure Settled (x : Outcome α) (passes spills : Prop) : Prop where
  ok_iff : (∃ a, x = .ok a) ↔ passes ∧ ¬ spills
  fault_iff : ∀ f, x = .error (.fault f) ↔ f = .countOverflow ∧ spills

namespace Settled

variable {x : Outcome α} {f : α → Outcome β} {p p' o o' : Prop}

theorem congr (h : Settled x p o) (passes : p ↔ p') (spills : o ↔ o') : Settled x p' o' :=
  ⟨h.ok_iff.trans (and_congr passes (not_congr spills)),
    fun f => (h.fault_iff f).trans (and_congr_right fun _ => spills)⟩

theorem ok (a : α) : Settled (.ok a) True False :=
  ⟨by simp, by simp⟩

theorem fault (spills : o) : Settled (.error (.fault .countOverflow) : Outcome α) p o := by
  constructor
  · simp [spills]
  · intro f
    simp [spills, eq_comm]

theorem within [Decidable p] (a : α) : Settled (within p a) True (¬ p) := by
  by_cases hp : p
  · rw [Count.within_of_fits hp]
    exact (ok a).congr Iff.rfl (by simp [hp])
  · rw [Count.within_of_not_fits hp]
    exact fault hp

/-- What checks decide never leaves the range. -/
theorem of_decided {cs : List Check} (h : DecidedBy x cs) :
    Settled x (∀ c ∈ cs, c.holds) False := by
  constructor
  · rw [h.ok_iff]
    simp
  · intro f
    simp only [and_false, iff_false]
    intro hx
    obtain ⟨_, _, _, _, _, _, refused⟩ := h.error_iff.1 hx
    cases refused

/-- A sequence overflows in its first part, or in its second part if the first passes. -/
theorem bind (hx : Settled x p o) (hf : ∀ a, x = .ok a → Settled (f a) p' o') :
    Settled (x >>= f) (p ∧ p') (o ∨ p ∧ o') := by
  cases x with
  | error e =>
    -- the first part has not passed in the range, so the second one does not matter
    have stuck : ¬ (p ∧ ¬ o) := fun h => by
      obtain ⟨a, ha⟩ := hx.ok_iff.2 h
      cases ha
    constructor
    · simp only [Outcome.error_bind, reduceCtorEq, exists_false, false_iff]
      rintro ⟨⟨hp, -⟩, inside⟩
      exact stuck ⟨hp, fun ho => inside (.inl ho)⟩
    · intro f
      have faults := hx.fault_iff f
      rw [Except.error.injEq] at faults
      rw [Outcome.error_bind, Except.error.injEq, faults]
      refine and_congr_right fun _ => ⟨.inl, ?_⟩
      rintro (ho | ⟨hp, -⟩)
      · exact ho
      · exact Classical.not_not.1 fun ho => stuck ⟨hp, ho⟩
  | ok a =>
    obtain ⟨hp, ho⟩ := hx.ok_iff.1 ⟨a, rfl⟩
    have rest := hf a rfl
    rw [Outcome.ok_bind]
    exact rest.congr (by simp [hp]) (by simp [hp, ho])

/-- A last step that always succeeds changes nothing. -/
theorem bind_ok (hx : Settled x p o) (hf : ∀ a, x = .ok a → ∃ b, f a = .ok b) :
    Settled (x >>= f) p o := by
  have steps : Settled (x >>= f) (p ∧ True) (o ∨ p ∧ False) := hx.bind fun a ha => by
    obtain ⟨b, hb⟩ := hf a ha
    rw [hb]
    exact ok b
  exact steps.congr (by simp) (by simp)

theorem within_bind {q : Prop} [Decidable q] {a : α} (hf : Settled (f a) p o) :
    Settled (Count.within q a >>= f) p (¬ q ∨ o) := by
  have steps : Settled (Count.within q a >>= f) (True ∧ p) (¬ q ∨ True ∧ o) :=
    (within a).bind fun b hb => by
      obtain ⟨-, rfl⟩ := Count.within_eq_ok.1 hb
      exact hf
  refine steps.congr ?_ ?_
  · rw [true_and]
  · rw [true_and]

/-- Checks before a settled operation. -/
theorem after {cs : List Check} (hx : DecidedBy x cs)
    (hf : ∀ a, x = .ok a → Settled (f a) p o) :
    Settled (x >>= f) ((∀ c ∈ cs, c.holds) ∧ p) ((∀ c ∈ cs, c.holds) ∧ o) :=
  ((of_decided hx).bind hf).congr Iff.rfl (by rw [false_or])

theorem after_append {cs ds : List Check} (hx : DecidedBy x cs)
    (hf : ∀ a, x = .ok a → Settled (f a) ((∀ c ∈ ds, c.holds) ∧ p) ((∀ c ∈ ds, c.holds) ∧ o)) :
    Settled (x >>= f) ((∀ c ∈ cs ++ ds, c.holds) ∧ p) ((∀ c ∈ cs ++ ds, c.holds) ∧ o) := by
  refine (after hx hf).congr ?_ ?_
  · rw [List.forall_mem_append, and_assoc]
  · rw [List.forall_mem_append, and_assoc]

/-- The operation ends with a result or a refusal exactly if it stays in the range. -/
theorem answers_iff (h : Settled x p o) :
    (∃ a, x = .ok a) ∨ (∃ e, x = .error (.refused e)) ↔ ¬ o := by
  cases x with
  | ok a =>
    have inside := (h.ok_iff.1 ⟨a, rfl⟩).2
    simp [inside]
  | error e =>
    cases e with
    | refused e =>
      have inside : ¬ o := fun ho => by cases (h.fault_iff .countOverflow).2 ⟨rfl, ho⟩
      simp [inside]
    | fault f =>
      have outside := ((h.fault_iff f).1 rfl).2
      simp [outside]

end Settled

/-! ## Slots -/

namespace Slot

variable {p : Parameters}

/-- All slots before one whose length is no count pass their checks. -/
def Overrun (p : Parameters) (taken : List String) (slots : List Slot) : Prop :=
  ∃ before s after, slots = before ++ s :: after ∧
    (∀ c ∈ listChecks p taken before, c.holds) ∧ limit ≤ s.length

theorem not_overrun_nil {taken : List String} : ¬ Overrun p taken [] := by
  rintro ⟨before, s, after, none, -⟩
  simp at none

theorem overrun_cons {taken : List String} {s : Slot} {rest : List Slot} :
    Overrun p taken (s :: rest) ↔
      limit ≤ s.length ∨ (∀ c ∈ s.checks p taken, c.holds) ∧ Overrun p (taken ++ [s.name]) rest := by
  constructor
  · rintro ⟨before, t, after, same, hold, long⟩
    cases before with
    | nil =>
      cases same
      exact .inl long
    | cons s' before =>
      cases same
      rw [listChecks, List.forall_mem_append] at hold
      exact .inr ⟨hold.1, before, t, after, rfl, hold.2, long⟩
  · rintro (long | ⟨first, before, t, after, rfl, hold, long⟩)
    · exact ⟨[], s, rest, rfl, by simp [listChecks], long⟩
    · refine ⟨s :: before, t, after, rfl, ?_, long⟩
      rw [listChecks, List.forall_mem_append]
      exact ⟨first, hold⟩

theorem overrun_append {taken : List String} {l k : List Slot} :
    Overrun p taken (l ++ k) ↔ Overrun p taken l ∨
      (∀ c ∈ listChecks p taken l, c.holds) ∧ Overrun p (taken ++ l.map (·.name)) k := by
  induction l generalizing taken with
  | nil => simp [not_overrun_nil, listChecks]
  | cons s rest ih =>
    rw [List.cons_append, overrun_cons, overrun_cons, ih, listChecks, List.forall_mem_append,
      List.map_cons, List.append_assoc, List.singleton_append]
    constructor
    · rintro (long | ⟨first, spills | ⟨others, spills⟩⟩)
      · exact .inl (.inl long)
      · exact .inl (.inr ⟨first, spills⟩)
      · exact .inr ⟨⟨first, others⟩, spills⟩
    · rintro ((long | ⟨first, spills⟩) | ⟨⟨first, others⟩, spills⟩)
      · exact .inl long
      · exact .inr ⟨first, .inl spills⟩
      · exact .inr ⟨first, .inr ⟨others, spills⟩⟩

/-- How a binding ends that takes slots: it overflows iff it comes to one whose length is no
    count, and else gives a result iff all slots pass. -/
def Settle (p : Parameters) (taken : List String) (slots : List Slot) (x : Outcome α) : Prop :=
  Settled x (∀ c ∈ listChecks p taken slots, c.holds) (Overrun p taken slots)

theorem Settle.bind {x : Binding α} {f : α → Binding β} {q : Parameters} {taken : List String}
    {l k : List Slot} (hx : Settle p taken l (x q).1)
    (hf : ∀ a r, x q = (.ok a, r) → Settle p (taken ++ l.map (·.name)) k (f a r).1) :
    Settle p taken (l ++ k) ((x >>= f) q).1 := by
  rw [Binding.bind_fst]
  refine (Settled.bind hx fun a ha => hf a (x q).2 (Prod.ext ha rfl)).congr ?_ ?_
  · rw [listChecks_append, List.forall_mem_append]
  · rw [overrun_append]

end Slot

theorem Parameters.Remaining.take_settled {p q : Parameters} {taken : List String}
    (left : p.Remaining taken q) (s : Slot) (fits : s.length < limit) :
    Slot.Settle p taken [s] (q.take s.name s.length).1 := by
  refine (Settled.of_decided (left.take_decided s)).congr ?_ ?_
  · simp [Slot.listChecks]
  · simp [Slot.overrun_cons, Slot.not_overrun_nil, fits]

/-! ## Layers -/

namespace Binding

open Parameters (Remaining weightSlot biasSlot)

variable {p q : Parameters} {taken : List String} {module : String} {layout : WeightLayout}

/-- A layer whose tensors are taken ends as the layers after it do. -/
theorem layer_settled {stored bias : Array Scalar} {input output : Nat}
    {others : Binding (List Dense)} {passes spills : Prop} (fit : input * output < limit)
    (storedSize : stored.size = input * output) (biasSize : bias.size = output)
    (settled : Settled (others q).1 passes spills) :
    Settled ((do
      let weight ← (layout.toInOut stored input output : Outcome (Array Scalar))
      let first ← (Dense.ofTensors weight bias input output : Outcome Dense)
      let rest ← others
      pure (first :: rest) : Binding (List Dense)) q).1 passes spills := by
  obtain ⟨weight, reorder, weightSize, -⟩ := layout.toInOut_eq_ok storedSize
  rw [bind_apply, lift_apply, reorder]
  simp only []
  rw [bind_apply, lift_apply, Dense.ofTensors_eq_ok fit weightSize biasSize]
  simp only []
  rw [bind_fst]
  exact settled.bind_ok fun _ _ => ⟨_, rfl⟩

/-- Binding layers overflows iff it comes to a slot whose length is no count. -/
theorem layers_settled (sizes : List Nat) {layer input : Nat} (input_pos : 0 < input)
    (sizes_pos : ∀ n ∈ sizes, 0 < n) (left : p.Remaining taken q) :
    Slot.Settle p taken (layerSlots module layer input sizes)
      (layers module layout layer input sizes q).1 := by
  induction sizes generalizing layer input taken q with
  | nil =>
    refine (Settled.ok _).congr ?_ ?_
    · simp [layerSlots, Slot.listChecks]
    · simp [layerSlots, Slot.not_overrun_nil]
  | cons output rest ih =>
    obtain ⟨output_pos, rest_pos⟩ := List.forall_mem_cons.1 sizes_pos
    let weights : Slot := ⟨weightSlot module layer, input * output⟩
    let biases : Slot := ⟨biasSlot module layer, output⟩
    show Slot.Settle p taken ([weights] ++ ([biases] ++ layerSlots module (layer + 1) output rest)) _
    rw [layers_cons, bind_fst, lift_apply, Count.mul_eq_within]
    by_cases fit : input * output < limit
    -- the bias is no longer than the weights, so that it overflows only where they do
    · have narrow : output < limit :=
        Nat.lt_of_le_of_lt (Nat.le_mul_of_pos_left output input_pos) fit
      rw [Count.within_of_fits fit, Outcome.ok_bind]
      refine Slot.Settle.bind (left.take_settled weights fit) fun stored q₁ hstored => ?_
      obtain ⟨-, storedSize, left₁⟩ := left.take_eq_ok hstored
      refine Slot.Settle.bind (left₁.take_settled biases narrow) fun bias q₂ hbias => ?_
      obtain ⟨-, biasSize, left₂⟩ := left₁.take_eq_ok hbias
      exact layer_settled fit storedSize biasSize (ih output_pos rest_pos left₂)
    · rw [Count.within_of_not_fits fit, Outcome.error_bind]
      exact .fault (Slot.overrun_cons.2 (.inl (Nat.not_lt.1 fit)))

end Binding

/-! ## Update functions -/

section
variable {p q : Parameters} {taken : List String}

theorem Perceptron.bind_settled {module : String} {layout : WeightLayout} {input : Nat}
    {sizes : List Nat} {activation : Activation} {activateFinal : Bool} (nonempty : sizes ≠ [])
    (input_pos : 0 < input) (sizes_pos : ∀ n ∈ sizes, 0 < n) (left : p.Remaining taken q) :
    Slot.Settle p taken (layerSlots module 0 input sizes)
      (Perceptron.bind module input sizes layout activation activateFinal q).1 := by
  rw [bind_eq, Binding.bind_fst]
  exact Settled.bind_ok (Binding.layers_settled sizes input_pos sizes_pos left) fun ds hds =>
    ofLayers_of_run nonempty left (Prod.ext hds rfl)

theorem UpdateDeclaration.bind_check_settled {u : UpdateDeclaration} {c : CheckedUpdate}
    {input : Nat} (hc : u.check = .ok c) (input_pos : 0 < input) (left : p.Remaining taken q) :
    Slot.Settle p taken (layerSlots u.module 0 input u.layerSizes) (c.bind input q).1 := by
  obtain ⟨rfl, -, nonempty, positive⟩ := check_eq_ok hc
  exact Perceptron.bind_settled nonempty input_pos positive left

theorem UpdateDeclaration.outputWidth_pos {u : UpdateDeclaration} {c : CheckedUpdate}
    (hc : u.check = .ok c) : 0 < u.outputWidth := by
  obtain ⟨-, -, nonempty, positive⟩ := check_eq_ok hc
  rw [outputWidth, outputWidth?, List.getLast?_eq_some_getLast nonempty]
  exact positive _ (List.getLast_mem nonempty)

end

/-! ## Compiling -/

theorem total_map_pos {l : List α} {width : α → Nat} (nonempty : l ≠ [])
    (positive : ∀ a, 0 < width a) : 0 < total (l.map width) := by
  obtain ⟨a, rest, rfl⟩ := List.exists_cons_of_ne_nil nonempty
  exact Nat.lt_of_lt_of_le (positive a) (Count.le_total (List.mem_map_of_mem List.mem_cons_self))

namespace Description

/-- The rows that the update functions read are not empty. -/
structure RowsPositive (d : Description) : Prop where
  edge : 0 < d.rowWidths.edge
  node : 0 < d.rowWidths.node
  global : 0 < d.rowWidths.global

theorem rowsPositive {d : Description} {us : PerUpdate CheckedUpdate}
    (widths : d.inputWidths.Positive) (hus : d.checkUpdates = .ok us)
    (connected : d.architecture = .graphNetwork → d.wiring.Connected) : d.RowsPositive := by
  obtain ⟨nodes, edges, globals⟩ := widths
  obtain ⟨he, hn, -⟩ := checkUpdates_eq_ok hus
  have edgeOut := UpdateDeclaration.outputWidth_pos he
  have nodeOut := UpdateDeclaration.outputWidth_pos hn
  cases architecture : d.architecture with
  | graphIndependent => constructor <;> simpa only [rowWidths, architecture]
  | graphNetwork =>
    obtain ⟨edge, node, global⟩ := connected architecture
    constructor
    · simp only [rowWidths, architecture]
      exact total_map_pos edge fun block => by cases block <;> assumption
    · simp only [rowWidths, architecture]
      exact total_map_pos node fun block => by cases block <;> assumption
    · simp only [rowWidths, architecture]
      exact total_map_pos global fun block => by cases block <;> assumption

theorem bindUpdates_settled {d : Description} {p : Parameters} {us : PerUpdate CheckedUpdate}
    (hus : d.checkUpdates = .ok us) (rows : d.RowsPositive) :
    Slot.Settle p [] d.slots (bindUpdates us d.rowWidths p).1 := by
  obtain ⟨he, hn, hg⟩ := checkUpdates_eq_ok hus
  rw [slots, bindUpdates]
  refine Slot.Settle.bind
    (UpdateDeclaration.bind_check_settled he rows.edge p.remaining_self) fun E q₁ hE => ?_
  obtain ⟨-, left₁⟩ := UpdateDeclaration.bind_check_eq_ok he p.remaining_self hE
  refine Slot.Settle.bind
    (UpdateDeclaration.bind_check_settled hn rows.node left₁) fun N q₂ hN => ?_
  obtain ⟨-, left₂⟩ := UpdateDeclaration.bind_check_eq_ok hn left₁ hN
  rw [Binding.bind_fst]
  exact Settled.bind_ok (UpdateDeclaration.bind_check_settled hg rows.global left₂)
    fun _ _ => ⟨_, rfl⟩

/-- What compiling looks at before it adds up widths. -/
def formChecks (d : Description) : List Check :=
  [⟨d.inputWidths.Positive, .shape (.zeroWidth d.inputWidths)⟩] ++
  ((endpointChecks d.nodeCount "sender" d.senders ++
    endpointChecks d.nodeCount "receiver" d.receivers) ++
  ((d.updates.edge.checks ++ (d.updates.node.checks ++ d.updates.global.checks)) ++
  (([Reducer.tagCheck d.reducers.edgeNode] ++ ([Reducer.tagCheck d.reducers.nodeGlobal] ++
    [Reducer.tagCheck d.reducers.edgeGlobal])) ++
  [⟨d.architecture = .graphNetwork → d.wiring.Connected, .shape .noInputBlock⟩])))

theorem checks_eq (d : Description) (p : Parameters) :
    d.checks p = d.formChecks ++ Slot.listChecks p [] d.slots := by
  simp only [checks, formChecks, List.append_assoc]

/-- Compiling comes to a sum of widths or to a product of layer widths that is no count. -/
def Overflows (d : Description) (p : Parameters) : Prop :=
  (∀ c ∈ d.formChecks, c.holds) ∧ (¬ d.RowsFit ∨ Slot.Overrun p [] d.slots)

theorem block_settled (d : Description) (name : String) (p : Parameters) :
    Settled (d.block name p) (∀ c ∈ d.checks p, c.holds) (d.Overflows p) := by
  rw [checks_eq, List.forall_mem_append]
  refine .after_append d.checkWidths_decided fun _ widths => ?_
  refine .after_append (checkAdjacency_decided d.nodeCount d.senders d.receivers) fun _ _ => ?_
  refine .after_append d.checkUpdates_decided fun us hus => ?_
  refine .after_append d.checkReducers_decided fun rs _ => ?_
  refine .after d.checkWiring_decided fun _ wiring => ?_
  have positive := d.checkWidths_decided.ok_iff.1 ⟨_, widths⟩ _ List.mem_cons_self
  have connected := d.checkWiring_decided.ok_iff.1 ⟨_, wiring⟩ _ List.mem_cons_self
  have rows := rowsPositive positive hus connected
  rw [updateInputWidths_eq]
  exact .within_bind (Settled.bind_ok (bindUpdates_settled hus rows) fun _ _ => ⟨_, rfl⟩)

/-- **How compiling ends**, for every description and all tensors. -/
theorem compile_settled (d : Description) (p : Parameters) (rename : Option String)
    (withProgram : Bool) :
    Settled (d.compile p rename withProgram) (∀ c ∈ d.checks p, c.holds) (d.Overflows p) :=
  (d.block_settled _ p).bind_ok fun _ _ => ⟨_, rfl⟩

/-- A description whose counts fit does not overflow, whatever the tensors. -/
theorem not_overflows_of_fits {d : Description} (fits : d.Fits) (p : Parameters) :
    ¬ d.Overflows p := by
  intro spills
  have fault := ((d.compile_settled p none false).fault_iff .countOverflow).2 ⟨rfl, spills⟩
  obtain ⟨_, _, _, _, _, _, refused⟩ := (d.compile_decided p none false fits).error_iff.1 fault
  cases refused

/-- **Compiling ends with a model or an error exactly if no count overflows.**  An overflow
    is its only fault; otherwise it accepts exactly the accepted models. -/
theorem compile_answers_iff (d : Description) (p : Parameters) (rename : Option String)
    (withProgram : Bool) :
    ((∃ m, d.compile p rename withProgram = .ok m) ∨
        (∃ e, d.compile p rename withProgram = .error (.refused e)) ↔ ¬ d.Overflows p) ∧
      (∀ f, d.compile p rename withProgram = .error (.fault f) ↔
        f = .countOverflow ∧ d.Overflows p) ∧
      ((∃ m, d.compile p rename withProgram = .ok m) ↔ d.Accepted p ∧ ¬ d.Overflows p) := by
  have settled := d.compile_settled p rename withProgram
  refine ⟨settled.answers_iff, settled.fault_iff, ?_⟩
  rw [← forall_checks]
  exact settled.ok_iff

/-- The self-loop with nodes so wide that two of them side by side are no row. -/
def wideNodes : Description := { selfLoop with inputWidths := ⟨limit / 2, 1, 1⟩ }

/-- The self-loop with a layer so wide that its weights cannot be counted. -/
def wideLayer : Description :=
  { selfLoop with updates := { selfLoop.updates with edge := .perceptron "edge" [limit / 2] } }

theorem compile_wide :
    wideNodes.compile .empty none true = .error (.fault .countOverflow) ∧
      wideLayer.compile .empty none true = .error (.fault .countOverflow) :=
  ⟨rfl, rfl⟩

end Description

end MessagePassing
