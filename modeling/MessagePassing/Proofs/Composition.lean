/-
  Message passing — stacks as compositions.

  A push is refused exactly if the new model does not read what the last member gives, so the
  members of every stack form a chain.  Along a chain each member is fed what it reads: once
  the first member takes a state, no later one refuses, and the stack is its members one after
  the other.

  * `Component.Built.infer_eq`: models and stacks alike give the same graph with their output
    widths, unless a table is too large;
  * `Stack.reachable_attempts`, `Stack.Reachable.isChain`: what any sequence of pushes builds;
  * `Stack.tryInfer_eq_tryRounds`: a stack is the sequence of its members, failures included;
  * `Stack.Reachable.fed`: every member is fed what it reads;
  * `Stack.composition`: all of this for every sequence of pushes.
-/
import MessagePassing.Proofs.Stacks

namespace MessagePassing

open MessagePassing.Count (within)

/-! ## Rounds of a chain -/

namespace Stack

theorem sameGraph_rounds (models : List Model) (g : State) : g.SameGraph (rounds models g) := by
  induction models generalizing g with
  | nil => exact .refl g
  | cons m rest ih => exact (m.block.sameGraph_round g).trans (ih (m.block.round g))

/-- A chain gives the widths of its last model. -/
theorem widths_rounds {models : List Model} {g : State} (linked : Linked g.widths models) :
    (rounds models g).widths = (models.getLast?.map Model.outputWidths).getD g.widths := by
  induction models generalizing g with
  | nil => rfl
  | cons m rest ih =>
    obtain ⟨-, linked⟩ := linked
    have gives : (m.block.round g).widths = m.outputWidths := m.block.widths_round g
    rw [← gives] at linked
    have later : (rounds (m :: rest) g).widths = _ := ih linked
    rw [later, gives, List.getLast?_cons]
    cases rest.getLast? <;> rfl

end Stack

/-! ## Models and stacks alike -/

namespace Component

variable {c : Component} {g t : State}

/-- A compiled model, or a stack that pushes of compiled models build. -/
inductive Built : Component → Prop where
  | model {m : Model} : m.Compiled → Built (.model m)
  | stack {s : Stack} : s.Reachable → Built (.stack s)

/-- The number of values of every table is a count. -/
def Fits : Component → State → Prop
  | model m, g => m.block.Fits g
  | stack s, g => s.Fits g

instance : (c : Component) → (g : State) → Decidable (c.Fits g)
  | model m, g => inferInstanceAs (Decidable (m.block.Fits g))
  | stack s, g => inferInstanceAs (Decidable (s.Fits g))

/-- The state that the component gives. -/
def after : Component → State → State
  | model m, g => m.block.round g
  | stack s, g => Stack.rounds s.models g

theorem fits_congr (c : Component) (same : g.SameGraph t) : c.Fits t ↔ c.Fits g := by
  cases c with
  | model m => exact m.block.fits_congr same
  | stack s => exact forall₂_congr fun m _ => m.block.fits_congr same

theorem sameGraph_after (c : Component) (g : State) : g.SameGraph (c.after g) := by
  cases c with
  | model m => exact m.block.sameGraph_round g
  | stack s => exact Stack.sameGraph_rounds s.models g

theorem Built.infer_eq (built : c.Built) (widths : g.widths = c.inputWidths) :
    c.infer g = within (c.Fits g) (c.after g) := by
  cases built with
  | model compiled => exact compiled.infer_eq widths
  | stack reachable => exact Stack.infer_eq reachable widths

theorem Built.widths_after (built : c.Built) (widths : g.widths = c.inputWidths) :
    (c.after g).widths = c.outputWidths := by
  cases built with
  | @model m compiled => exact m.block.widths_round g
  | @stack s reachable =>
    have linked := reachable.linked
    rw [← show g.widths = s.inputWidths from widths] at linked
    refine (Stack.widths_rounds linked).trans ?_
    obtain ⟨name, models⟩ := s
    cases models with
    | nil => exact widths
    | cons m rest => rw [outputWidths, Stack.outputWidths, List.getLast?_cons]; rfl

theorem Built.of_infer (built : c.Built) (widths : g.widths = c.inputWidths)
    (run : c.infer g = .ok t) : g.SameGraph t ∧ t.widths = c.outputWidths := by
  rw [built.infer_eq widths] at run
  obtain ⟨-, rfl⟩ := Count.within_eq_ok.1 run
  exact ⟨c.sameGraph_after g, built.widths_after widths⟩

theorem tryInfer_of_widths (widths : g.widths = c.inputWidths) : c.tryInfer g = c.infer g :=
  if_pos widths

theorem tryInfer_of_ne (other : g.widths ≠ c.inputWidths) :
    c.tryInfer g = refuseShape (.stateWidths c.inputWidths g.widths) :=
  if_neg other

theorem tryInfer_eq_ok :
    c.tryInfer g = .ok t ↔ g.widths = c.inputWidths ∧ c.infer g = .ok t := by
  by_cases widths : g.widths = c.inputWidths
  · simp [tryInfer_of_widths widths, widths]
  · simp [tryInfer_of_ne widths, widths, refuseShape]

/-- A component refuses other widths than its own, and nothing else. -/
theorem Built.tryInfer_refused (built : c.Built) :
    (∃ e, c.tryInfer g = .error (.refused e)) ↔ g.widths ≠ c.inputWidths := by
  constructor
  · rintro ⟨e, refused⟩ widths
    rw [tryInfer_of_widths widths, built.infer_eq widths] at refused
    exact Count.within_ne_refused _ _ refused
  · intro other
    exact ⟨_, tryInfer_of_ne other⟩

theorem Built.tryInfer_answers (built : c.Built) :
    (∃ t, c.tryInfer g = .ok t) ↔ g.widths = c.inputWidths ∧ c.Fits g := by
  constructor
  · rintro ⟨t, run⟩
    obtain ⟨widths, run⟩ := tryInfer_eq_ok.1 run
    rw [built.infer_eq widths] at run
    exact ⟨widths, (Count.within_eq_ok.1 run).1⟩
  · rintro ⟨widths, fits⟩
    rw [tryInfer_of_widths widths, built.infer_eq widths, Count.within_of_fits fits]
    exact ⟨_, rfl⟩

end Component

/-! ## Pushes -/

namespace Stack

variable {s : Stack} {m : Model} {models : List Model} {g h : State}

/-- The stack after a push; a refused one leaves it as it is. -/
def attempt (s : Stack) (m : Model) : Stack := (s.push m).toOption.getD s

/-- The stack after a sequence of pushes, accepted or refused. -/
def attempts (s : Stack) (calls : List Model) : Stack := calls.foldl attempt s

theorem push_refused : (∃ cause, s.push m = refuseShape cause) ↔
    ∃ last, s.models.getLast? = some last ∧ last.outputWidths ≠ m.inputWidths := by
  rw [push]
  cases s.models.getLast? with
  | none => simp [refuseShape]
  | some last =>
    by_cases same : last.outputWidths = m.inputWidths
    · simp [same, refuseShape]
    · simp [same, refuseShape]

theorem attempt_of_ok {t : Stack} (pushed : s.push m = .ok t) : s.attempt m = t := by
  rw [attempt, pushed]
  rfl

theorem attempt_of_error {e : Failure} (failed : s.push m = .error e) : s.attempt m = s := by
  rw [attempt, failed]
  rfl

theorem attempt_eq_self : s.attempt m = s ↔ ∃ cause, s.push m = refuseShape cause := by
  constructor
  · intro kept
    by_contra accepted
    rw [push_refused] at accepted
    have fits : ∀ last, s.models.getLast? = some last → last.outputWidths = m.inputWidths := by
      intro last hlast
      by_contra differ
      exact accepted ⟨last, hlast, differ⟩
    rw [attempt_of_ok (push_eq_ok.2 ⟨fits, rfl⟩)] at kept
    have lengths := congrArg (fun s : Stack => s.models.length) kept
    simp at lengths
  · rintro ⟨cause, refused⟩
    exact attempt_of_error refused

theorem reachable_attempts {calls : List Model} (reachable : s.Reachable)
    (compiled : ∀ m ∈ calls, m.Compiled) : (s.attempts calls).Reachable := by
  induction calls generalizing s with
  | nil => exact reachable
  | cons m rest ih =>
    obtain ⟨first, others⟩ := List.forall_mem_cons.1 compiled
    refine ih ?_ others
    cases pushed : s.push m with
    | error e => rwa [attempt_of_error pushed]
    | ok t =>
      rw [attempt_of_ok pushed]
      exact .push reachable first pushed

/-- A member gives what the next one reads. -/
def Feeds (a b : Model) : Prop := a.outputWidths = b.inputWidths

theorem isChain_of_linked {w : Widths} (linked : Linked w models) : models.IsChain Feeds := by
  induction models generalizing w with
  | nil => exact .nil
  | cons a rest ih =>
    obtain ⟨-, linked⟩ := linked
    cases rest with
    | nil => exact .singleton a
    | cons b rest => exact .cons_cons linked.1.symm (ih linked)

theorem Reachable.isChain (reachable : s.Reachable) : s.models.IsChain Feeds :=
  isChain_of_linked reachable.linked

/-! ## One member after the other -/

/-- The members in order, each asked whether it takes the state. -/
def tryRounds (models : List Model) (g : State) : Outcome State :=
  models.foldlM (fun g m => (Component.model m).tryInfer g) g

/-- Along a chain no member has to be asked. -/
theorem tryRounds_eq_infer (compiled : ∀ m ∈ models, m.Compiled)
    (linked : Linked g.widths models) :
    tryRounds models g = models.foldlM (fun g m => m.infer g) g := by
  induction models generalizing g with
  | nil => rfl
  | cons m rest ih =>
    obtain ⟨first, others⟩ := List.forall_mem_cons.1 compiled
    obtain ⟨reads, linked⟩ := linked
    rw [tryRounds, List.foldlM_cons, List.foldlM_cons,
      Component.tryInfer_of_widths (c := .model m) reads.symm]
    refine Outcome.bind_congr fun t run => ih others ?_
    rw [((Component.Built.model first).of_infer reads.symm run).2]
    exact linked

/-- Whatever the members before a member give has the widths that it reads. -/
theorem widths_of_tryRounds {before rest : List Model}
    (compiled : ∀ m ∈ before, m.Compiled) (linked : Linked g.widths (before ++ m :: rest))
    (run : tryRounds before g = .ok h) : h.widths = m.inputWidths := by
  induction before generalizing g with
  | nil =>
    cases run
    exact linked.1.symm
  | cons a before ih =>
    obtain ⟨first, others⟩ := List.forall_mem_cons.1 compiled
    obtain ⟨-, linked⟩ := linked
    rw [tryRounds, List.foldlM_cons] at run
    obtain ⟨t, stepped, run⟩ := Outcome.bind_eq_ok.1 run
    obtain ⟨widths, stepped⟩ := Component.tryInfer_eq_ok.1 stepped
    refine ih others ?_ run
    rw [((Component.Built.model first).of_infer widths stepped).2]
    exact linked

/-- Once the first member takes a state, every later one is fed what it reads. -/
theorem Reachable.fed (reachable : s.Reachable) {before after : List Model}
    (split : s.models = before ++ m :: after) (nonempty : before ≠ [])
    (run : tryRounds before g = .ok h) : h.widths = m.inputWidths := by
  have compiled : ∀ a ∈ before, a.Compiled :=
    fun a ha => reachable.compiled a (by simp [split, ha])
  have start : g.widths = s.inputWidths := by
    cases before with
    | nil => exact absurd rfl nonempty
    | cons a before =>
      obtain ⟨t, stepped, -⟩ := Outcome.bind_eq_ok.1 run
      obtain ⟨widths, -⟩ := Component.tryInfer_eq_ok.1 stepped
      rw [widths, inputWidths, split]
      rfl
  have linked := reachable.linked
  rw [← start, split] at linked
  exact widths_of_tryRounds compiled linked run

/-- **A stack is its members one after the other**: the same state, or the same failure. -/
theorem tryInfer_eq_tryRounds (reachable : s.Reachable) (nonempty : s.models ≠ []) (g : State) :
    (Component.stack s).tryInfer g = tryRounds s.models g := by
  by_cases widths : g.widths = s.inputWidths
  · have linked := reachable.linked
    rw [← widths] at linked
    rw [tryRounds_eq_infer reachable.compiled linked]
    exact Component.tryInfer_of_widths widths
  · obtain ⟨name, models⟩ := s
    cases models with
    | nil => exact absurd rfl nonempty
    | cons m rest =>
      -- the stack reads what its first member reads, so that both refuse with one error
      have first : (Component.model m).tryInfer g = _ := Component.tryInfer_of_ne widths
      rw [Component.tryInfer_of_ne widths, tryRounds, List.foldlM_cons, first]
      rfl

/-- **A stack is the composition of its members.**  Whatever pushes are made, the next one is
    refused iff its model does not read what the last member gives, and then the stack stays as
    it is; each member feeds the next.  A stack with members runs as they do in order: it
    refuses a state iff the first member does, no other member ever refuses, and it gives a
    state iff the first member does and the tables of the others are not too large. -/
theorem composition {name : String} {calls : List Model} (compiled : ∀ m ∈ calls, m.Compiled)
    (built : s = (empty name).attempts calls) :
    (∀ m, ((∃ cause, s.push m = refuseShape cause) ↔
          ∃ last, s.models.getLast? = some last ∧ last.outputWidths ≠ m.inputWidths) ∧
        (s.attempt m = s ↔ ∃ cause, s.push m = refuseShape cause)) ∧
      s.models.IsChain Feeds ∧
      ∀ first rest, s.models = first :: rest →
        s.inputWidths = first.inputWidths ∧
        (∀ last, s.models.getLast? = some last → s.outputWidths = last.outputWidths) ∧
        ∀ g, (Component.stack s).tryInfer g = tryRounds s.models g ∧
          ((∃ e, (Component.stack s).tryInfer g = .error (.refused e)) ↔
            ∃ e, (Component.model first).tryInfer g = .error (.refused e)) ∧
          ((∃ out, (Component.stack s).tryInfer g = .ok out) ↔
            (∃ out, (Component.model first).tryInfer g = .ok out) ∧
              ∀ m ∈ rest, m.block.Fits g) ∧
          (∀ before m after h, s.models = before ++ m :: after → before ≠ [] →
            tryRounds before g = .ok h → h.widths = m.inputWidths ∧
              ∀ e, (Component.model m).tryInfer h ≠ .error (.refused e)) ∧
          ∀ out, (Component.stack s).tryInfer g = .ok out →
            g.SameGraph out ∧ out.widths = s.outputWidths := by
  have reachable : s.Reachable := built ▸ reachable_attempts (.empty name) compiled
  have stack := Component.Built.stack reachable
  refine ⟨fun m => ⟨push_refused, attempt_eq_self⟩, reachable.isChain, ?_⟩
  intro first rest members
  have inputs : s.inputWidths = first.inputWidths := by rw [inputWidths, members]; rfl
  have member : ∀ m ∈ s.models, (Component.model m).Built :=
    fun m hm => .model (reachable.compiled m hm)
  have head := member first (by rw [members]; exact List.mem_cons_self)
  refine ⟨inputs, fun last hlast => by rw [outputWidths, hlast]; rfl, fun g => ⟨?_, ?_, ?_, ?_, ?_⟩⟩
  · exact tryInfer_eq_tryRounds reachable (by rw [members]; exact List.cons_ne_nil _ _) g
  · rw [stack.tryInfer_refused, head.tryInfer_refused]
    show g.widths ≠ s.inputWidths ↔ g.widths ≠ first.inputWidths
    rw [inputs]
  · rw [stack.tryInfer_answers, head.tryInfer_answers, and_assoc]
    show g.widths = s.inputWidths ∧ s.Fits g ↔ g.widths = first.inputWidths ∧ _
    rw [inputs, Fits, members, List.forall_mem_cons]
    rfl
  · intro before m after h split nonempty run
    have widths := reachable.fed split nonempty run
    refine ⟨widths, fun e refused => ?_⟩
    have asked := (member m (by simp [split])).tryInfer_refused.1 ⟨e, refused⟩
    exact asked widths
  · intro out run
    obtain ⟨widths, run⟩ := Component.tryInfer_eq_ok.1 run
    exact stack.of_infer widths run

end Stack

/-! ## Adders -/

/-- Every entity gets the sum of its features, of which there are `width`. -/
def Description.adder (width : Nat) : Description :=
  { selfLoop with architecture := .graphIndependent, inputWidths := ⟨width, width, width⟩ }

/-- Its tensors: weights one and biases zero. -/
def Parameters.adder (width : Nat) : Parameters :=
  ofList [("edge.linear_0.weight", Array.replicate width 1), ("edge.linear_0.bias", #[0]),
    ("node.linear_0.weight", Array.replicate width 1), ("node.linear_0.bias", #[0]),
    ("global.linear_0.weight", Array.replicate width 1), ("global.linear_0.bias", #[0])]

theorem Model.exists_adder {width : Nat} (few : width = 1 ∨ width = 2) : ∃ m : Model,
    m.Compiled ∧ m.inputWidths = ⟨width, width, width⟩ ∧ m.outputWidths = ⟨1, 1, 1⟩ ∧
      m.block.Fits .selfLoop := by
  have accepted : ((Description.adder width).compile (.adder width) none true).isOk = true := by
    rcases few with rfl | rfl <;> decide +kernel
  obtain ⟨m, compiled⟩ := Outcome.exists_of_isOk accepted
  obtain ⟨-, made, -⟩ := Description.compile_eq_ok compiled
  obtain ⟨b, independent, -⟩ := made.independent rfl
  have outputs : m.outputWidths = ⟨1, 1, 1⟩ := outputWidths_eq compiled
  have bound := made.updates
  rw [independent, Block.updates] at bound
  refine ⟨m, ⟨_, _, _, _, compiled⟩, inputWidths_eq compiled, outputs, ?_⟩
  simp only [independent, Block.Fits, Independent.Fits, Independent.shapes,
    bound.edge.outputWidth_eq, bound.node.outputWidth_eq, bound.global.outputWidth_eq]
  show ∀ shape ∈ [(1, 1), (1, 1), (1, 1)], shape.1 * shape.2 < Count.limit
  decide

/-- An adder twice, with a refused push in between. -/
theorem Stack.composition_adders : ∃ (m wide : Model) (s : Stack) (out : State),
    (∀ call ∈ [m, wide, m], call.Compiled) ∧ s = (Stack.empty "pile").attempts [m, wide, m] ∧
      s.models = [m, m] ∧ (Component.stack s).tryInfer .selfLoop = .ok out ∧
      tryRounds [m, m] .selfLoop = .ok out ∧ out.widths = ⟨1, 1, 1⟩ := by
  obtain ⟨m, compiled, inputs, outputs, fits⟩ := Model.exists_adder (.inl rfl)
  obtain ⟨wide, compiled', inputs', -⟩ := Model.exists_adder (.inr rfl)
  have calls : ∀ call ∈ [m, wide, m], call.Compiled := by simp [compiled, compiled']
  have first : (empty "pile").attempt m = ⟨"pile", [m]⟩ :=
    attempt_of_ok (push_eq_ok.2 ⟨by simp [empty], rfl⟩)
  have refused : (⟨"pile", [m]⟩ : Stack).attempt wide = ⟨"pile", [m]⟩ :=
    attempt_eq_self.2 (push_refused.2 ⟨m, rfl, by simp [outputs, inputs']⟩)
  have second : (⟨"pile", [m]⟩ : Stack).attempt m = ⟨"pile", [m, m]⟩ :=
    attempt_of_ok (push_eq_ok.2 ⟨by simp [outputs, inputs], rfl⟩)
  have built : ⟨"pile", [m, m]⟩ = (empty "pile").attempts [m, wide, m] := by
    simp only [attempts, List.foldl_cons, List.foldl_nil, first, refused, second]
  obtain ⟨-, -, runs⟩ := composition calls built
  obtain ⟨-, last, runs⟩ := runs m [m] rfl
  obtain ⟨same, -, answers, -, gives⟩ := runs .selfLoop
  have taken : ∃ out, (Component.model m).tryInfer .selfLoop = .ok out :=
    (Component.Built.model compiled).tryInfer_answers.2 ⟨inputs.symm, fits⟩
  obtain ⟨out, run⟩ := answers.2 ⟨taken, by simpa using fits⟩
  exact ⟨m, wide, _, out, calls, built, rfl, run, same.symm.trans run,
    ((gives out run).2.trans (last m rfl)).trans outputs⟩

end MessagePassing
