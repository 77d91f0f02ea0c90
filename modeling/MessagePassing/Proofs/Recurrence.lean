/-
  Message passing — what a pipeline computes.

  A pipeline checks widths when it is built, and a run only those of its input.  This is
  enough: the encoded graph and every latent graph have the widths that the encoder gives, so
  two of them side by side are what the core reads, and what it gives is a latent graph again.

  * `Pipeline.Recurrence`: the recurrence, in which every part is asked whether it takes what
    it is fed;
  * `Pipeline.Made.run_eq_ok`: a run gives exactly what the recurrence does;
  * `Pipeline.Made.run_within`: a run on a state of the right widths fails at most because a
    table is too large;
  * `Pipeline.run_recurrence`: the outcome of every run.
-/
import MessagePassing.Proofs.Composition
import MessagePassing.Proofs.Joining
import MessagePassing.Session

namespace MessagePassing

open MessagePassing.Count (within limit)

/-! ## Checks on building -/

theorem checkFed_eq_ok {part : String} {expected given : Widths} :
    checkFed part expected given = .ok () ↔ expected = given := by
  unfold checkFed
  split <;> simp_all [refuseShape]

namespace Pipeline

variable {p q : Pipeline} {input encoded latent next out s t : State} {n : Nat}

/-- The accepted pipelines of models and stacks, with transforms or without. -/
inductive Made : Pipeline → Prop where
  | parts {encoder core decoder : Component} {p : Pipeline} : encoder.Built → core.Built →
      decoder.Built → ofParts encoder core decoder = .ok p → Made p
  | transform {transform : Component} {p q : Pipeline} : Made p → transform.Built →
      p.withTransform transform = .ok q → Made q

/-- The parts fit each other. -/
structure Wired (p : Pipeline) : Prop where
  encoder : p.encoder.Built
  core : p.core.Built
  decoder : p.decoder.Built
  transform : ∀ c, p.transform = some c → c.Built
  joined : p.core.inputWidths = p.encoder.outputWidths.beside p.encoder.outputWidths
  latent : p.core.outputWidths = p.encoder.outputWidths
  decoded : p.decoder.inputWidths = p.encoder.outputWidths
  transformed : ∀ c, p.transform = some c → c.inputWidths = p.decoder.outputWidths

theorem Made.wired (made : p.Made) : p.Wired := by
  induction made with
  | @parts encoder core decoder p hencoder hcore hdecoder built =>
    obtain ⟨twice, added, built⟩ := Outcome.bind_eq_ok.1 built
    obtain ⟨⟨⟩, joined, built⟩ := Outcome.bind_eq_ok.1 built
    obtain ⟨⟨⟩, latent, built⟩ := Outcome.bind_eq_ok.1 built
    obtain ⟨⟨⟩, decoded, built⟩ := Outcome.bind_eq_ok.1 built
    cases built
    have latent := checkFed_eq_ok.1 latent
    exact ⟨hencoder, hcore, hdecoder, by simp,
      (checkFed_eq_ok.1 joined).trans (Widths.beside_of_add added), latent.symm,
      (checkFed_eq_ok.1 decoded).trans latent.symm, by simp⟩
  | transform _ htransform built ih =>
    obtain ⟨⟨⟩, fed, built⟩ := Outcome.bind_eq_ok.1 built
    cases built
    refine { ih with transform := ?_, transformed := ?_ }
    · rintro c ⟨⟩
      exact htransform
    · rintro c ⟨⟩
      exact checkFed_eq_ok.1 fed

/-! ## The recurrence -/

/-- What is decoded goes through the transform, if there is one. -/
def finish (p : Pipeline) (decoded : State) : Outcome State :=
  match p.transform with
  | none => .ok decoded
  | some transform => transform.tryInfer decoded

/-- One step: the core takes the encoded graph and the latent graph side by side, the decoder
    takes what the core gives, and so does the transform with what the decoder gives. -/
structure Step (p : Pipeline) (encoded latent next out : State) : Prop where
  processed : ∃ joined, encoded.concatenate latent = .ok joined ∧ p.core.tryInfer joined = .ok next
  decoded : ∃ decoded, p.decoder.tryInfer next = .ok decoded ∧ p.finish decoded = .ok out

/-- The encoder takes the input, and from there one step leads to the next. -/
structure Recurrence (p : Pipeline) (input : State) (latents : Nat → State) (outs : List State) :
    Prop where
  encoded : p.encoder.tryInfer input = .ok (latents 0)
  step : ∀ (i : Nat) (h : i < outs.length),
    p.Step (latents 0) (latents i) (latents (i + 1)) outs[i]

theorem finish_eq_ok {decoded : State} : p.finish decoded = .ok out ↔
    (∀ c, p.transform = some c → decoded.widths = c.inputWidths) ∧
      (match p.transform with
        | none => pure decoded
        | some transform => transform.infer decoded) = .ok out := by
  rw [finish]
  cases p.transform with
  | none => simp [pure, Except.pure]
  | some c => simp [Component.tryInfer_eq_ok]

theorem Step.run (step : p.Step encoded latent next out) :
    p.process encoded latent = .ok next ∧ p.decode next = .ok out := by
  obtain ⟨⟨joined, join, process⟩, decoded, decode, finish⟩ := step
  obtain ⟨-, process⟩ := Component.tryInfer_eq_ok.1 process
  obtain ⟨-, decode⟩ := Component.tryInfer_eq_ok.1 decode
  constructor
  · rw [Pipeline.process, join]
    exact process
  · rw [Pipeline.decode, decode]
    exact (finish_eq_ok.1 finish).2

/-- Steps from a latent graph on are what the pipeline does from there on. -/
theorem steps_of_step {outs : List State} (latents : Nat → State)
    (step : ∀ (i : Nat) (h : i < outs.length),
      p.Step encoded (latents i) (latents (i + 1)) outs[i]) :
    p.steps encoded outs.length (latents 0) = .ok outs := by
  induction outs generalizing latents with
  | nil => rfl
  | cons out outs ih =>
    obtain ⟨process, decode⟩ := (step 0 (by simp)).run
    -- the same steps, counted from the second latent graph on
    have later : p.steps encoded outs.length (latents 1) = .ok outs :=
      ih (fun i => latents (i + 1)) fun i h => step (i + 1) (by simpa using h)
    rw [List.length_cons, steps, process, Outcome.ok_bind, decode, Outcome.ok_bind, later]
    rfl

/-! ## Latent graphs -/

/-- Both graphs have the widths that the encoder gives. -/
structure Latent (p : Pipeline) (encoded latent : State) : Prop where
  graph : encoded.SameGraph latent
  encoded : encoded.widths = p.encoder.outputWidths
  latent : latent.widths = p.encoder.outputWidths

namespace Wired

variable (wired : p.Wired)
include wired

theorem widths_beside (h : p.Latent encoded latent) :
    encoded.widths.beside latent.widths = p.core.inputWidths := by
  rw [h.encoded, h.latent, wired.joined]

theorem process_within (h : p.Latent encoded latent) : ∃ next,
    p.process encoded latent = within
      (encoded.TablesFit p.core.inputWidths ∧ p.core.Fits encoded) next ∧
    p.Latent encoded next := by
  have widths := wired.widths_beside h
  have reads := (State.widths_beside h.graph).trans widths
  refine ⟨p.core.after (encoded.beside latent h.graph), ?_, ?_, h.encoded, ?_⟩
  · rw [process, State.concatenate_eq h.graph, widths]
    refine Count.within_bind_congr (wired.core.infer_eq reads) ?_ rfl
    rw [p.core.fits_congr (State.sameGraph_beside h.graph)]
  · exact (State.sameGraph_beside h.graph).trans (p.core.sameGraph_after _)
  · rw [wired.core.widths_after reads, wired.latent]

/-- A latent graph is decoded to a state of the pipeline's widths. -/
theorem decode_within (h : p.Latent encoded next) : ∃ out,
    p.decode next = within (∀ c ∈ p.decoder :: p.transform.toList, c.Fits encoded) out ∧
      encoded.SameGraph out ∧ out.widths = p.outputWidths := by
  have reads : next.widths = p.decoder.inputWidths := h.latent.trans wired.decoded.symm
  have decoder := wired.decoder.infer_eq reads
  have gives := wired.decoder.widths_after reads
  have graph := h.graph.trans (p.decoder.sameGraph_after next)
  rw [decode, decoder, outputWidths]
  cases transform : p.transform with
  | none =>
    refine ⟨_, ?_, graph, gives⟩
    rw [Count.within_bind_pure]
    refine Count.within_congr ?_ rfl
    simp [p.decoder.fits_congr h.graph]
  | some c =>
    have built := wired.transform c transform
    have fed : (p.decoder.after next).widths = c.inputWidths :=
      gives.trans (wired.transformed c transform).symm
    refine ⟨_, Count.within_bind_congr (built.infer_eq fed) ?_ rfl,
      graph.trans (c.sameGraph_after _), built.widths_after fed⟩
    simp [p.decoder.fits_congr h.graph, c.fits_congr graph]

theorem step_of_run (h : p.Latent encoded latent) (process : p.process encoded latent = .ok next)
    (decode : p.decode next = .ok out) : p.Step encoded latent next out := by
  obtain ⟨joined, join, core⟩ := Outcome.bind_eq_ok.1 process
  obtain ⟨decoded, decoder, transform⟩ := Outcome.bind_eq_ok.1 decode
  have reads : joined.widths = p.core.inputWidths := by
    obtain ⟨same, -, rfl⟩ := State.concatenate_eq_ok.1 join
    exact wired.widths_beside h
  have latent := Count.of_within (wired.process_within h) process
  have feeds : next.widths = p.decoder.inputWidths := latent.latent.trans wired.decoded.symm
  refine ⟨⟨joined, join, Component.tryInfer_eq_ok.2 ⟨reads, core⟩⟩, decoded,
    Component.tryInfer_eq_ok.2 ⟨feeds, decoder⟩, finish_eq_ok.2 ⟨fun c hc => ?_, transform⟩⟩
  rw [(wired.decoder.of_infer feeds decoder).2, wired.transformed c hc]

end Wired

/-! ## Runs -/

/-- The tables of a step fit on the graph of the state. -/
def StepFits (p : Pipeline) (s : State) : Prop :=
  s.TablesFit p.core.inputWidths ∧ p.core.Fits s ∧
    ∀ c ∈ p.decoder :: p.transform.toList, c.Fits s

instance (p : Pipeline) (s : State) : Decidable (p.StepFits s) :=
  inferInstanceAs (Decidable (_ ∧ _ ∧ ∀ c ∈ _ :: _, _))

theorem stepFits_congr (same : s.SameGraph t) : p.StepFits t ↔ p.StepFits s := by
  rw [StepFits, StepFits, State.tablesFit_congr same, p.core.fits_congr same]
  simp only [fun c : Component => c.fits_congr same]

/-- The tables of a run fit: those of the encoder, and those of a step if there is one. -/
def Fits (p : Pipeline) (s : State) (count : Nat) : Prop :=
  p.encoder.Fits s ∧ (count = 0 ∨ p.StepFits s)

instance (p : Pipeline) (s : State) (count : Nat) : Decidable (p.Fits s count) :=
  inferInstanceAs (Decidable (_ ∧ (_ ∨ _)))

/-- Steps can go on as long as the first one fits. -/
theorem Wired.steps_within (wired : p.Wired) (n : Nat) (h : p.Latent encoded latent) : ∃ outs,
    p.steps encoded n latent = within (n = 0 ∨ p.StepFits encoded) outs := by
  induction n generalizing latent with
  | zero => exact ⟨[], (Count.within_of_fits (.inl rfl) _).symm⟩
  | succ n ih =>
    obtain ⟨next, process, latents⟩ := wired.process_within h
    obtain ⟨out, decode, -⟩ := wired.decode_within latents
    obtain ⟨outs, steps⟩ := ih latents
    refine ⟨out :: outs, ?_⟩
    rw [Pipeline.steps, process]
    have later : (p.decode next >>= fun decoded => p.steps encoded n next >>= fun rest =>
        pure (decoded :: rest)) =
        within ((∀ c ∈ p.decoder :: p.transform.toList, c.Fits encoded) ∧
          (n = 0 ∨ p.StepFits encoded)) (out :: outs) := by
      rw [decode]
      refine Count.within_bind_within ?_
      rw [steps, Count.within_bind_pure]
    refine Count.within_bind_congr later ?_ rfl
    -- every step has the tables of the first one, since no step leaves the graph
    constructor
    · rintro ⟨⟨tables, core⟩, others, -⟩
      exact .inr ⟨tables, core, others⟩
    · intro h
      have fits := h.resolve_left (Nat.succ_ne_zero n)
      exact ⟨⟨fits.1, fits.2.1⟩, fits.2.2, .inr fits⟩

/-- The states that a number of steps gives are those of the recurrence. -/
theorem Wired.step_of_steps (wired : p.Wired) {outs : List State} (h : p.Latent encoded latent)
    (run : p.steps encoded n latent = .ok outs) : outs.length = n ∧
      (∀ out ∈ outs, encoded.SameGraph out ∧ out.widths = p.outputWidths) ∧
      ∃ latents : Nat → State, latents 0 = latent ∧ ∀ (i : Nat) (h : i < outs.length),
        p.Step encoded (latents i) (latents (i + 1)) outs[i] := by
  induction n generalizing latent outs with
  | zero =>
    cases run
    exact ⟨rfl, by simp, fun _ => latent, rfl, fun i h => absurd h (Nat.not_lt_zero i)⟩
  | succ n ih =>
    obtain ⟨next, process, later⟩ := Outcome.bind_eq_ok.1 run
    obtain ⟨out, decode, later⟩ := Outcome.bind_eq_ok.1 later
    obtain ⟨rest, others, made⟩ := Outcome.bind_eq_ok.1 later
    cases made
    have latent' := Count.of_within (wired.process_within h) process
    have gives := Count.of_within (wired.decode_within latent') decode
    obtain ⟨length, all, latents, start, steps⟩ := ih latent' others
    -- the latent graphs of the later steps come after the one that is there already
    refine ⟨by rw [List.length_cons, length], List.forall_mem_cons.2 ⟨gives, all⟩,
      fun i => i.casesOn latent latents, rfl, ?_⟩
    intro i hi
    cases i with
    | zero =>
      show p.Step encoded latent (latents 0) out
      rw [start]
      exact wired.step_of_run h process decode
    | succ i => exact steps i (by simpa using hi)

theorem Wired.latent_of_encoder (wired : p.Wired) (run : p.encoder.tryInfer input = .ok encoded) :
    input.SameGraph encoded ∧ p.Latent encoded encoded := by
  obtain ⟨widths, run⟩ := Component.tryInfer_eq_ok.1 run
  obtain ⟨graph, gives⟩ := wired.encoder.of_infer widths run
  exact ⟨graph, .refl encoded, gives, gives⟩

/-- **A run gives exactly what the recurrence does.** -/
theorem Made.run_eq_ok (made : p.Made) {outs : List State} : p.run input n = .ok outs ↔
    outs.length = n ∧ ∃ latents, p.Recurrence input latents outs := by
  constructor
  · intro run
    obtain ⟨encoded, encode, run⟩ := Outcome.bind_eq_ok.1 run
    obtain ⟨-, latent⟩ := made.wired.latent_of_encoder encode
    obtain ⟨length, -, latents, rfl, steps⟩ := made.wired.step_of_steps latent run
    exact ⟨length, latents, encode, steps⟩
  · rintro ⟨rfl, latents, encode, steps⟩
    rw [run, encode]
    exact steps_of_step latents steps

theorem Made.of_run (made : p.Made) {outs : List State} (run : p.run input n = .ok outs) :
    ∀ out ∈ outs, input.SameGraph out ∧ out.widths = p.outputWidths := by
  obtain ⟨encoded, encode, run⟩ := Outcome.bind_eq_ok.1 run
  obtain ⟨graph, latent⟩ := made.wired.latent_of_encoder encode
  obtain ⟨-, all, -⟩ := made.wired.step_of_steps latent run
  intro out hout
  obtain ⟨graph', widths⟩ := all out hout
  exact ⟨graph.trans graph', widths⟩

theorem Made.run_take (made : p.Made) {outs : List State} (run : p.run input n = .ok outs) {m : Nat}
    (hm : m ≤ n) : p.run input m = .ok (outs.take m) := by
  obtain ⟨length, latents, encode, steps⟩ := made.run_eq_ok.1 run
  have shorter : (outs.take m).length = m := by rw [List.length_take, length, Nat.min_eq_left hm]
  refine made.run_eq_ok.2 ⟨shorter, latents, encode, fun i hi => ?_⟩
  rw [List.getElem_take]
  exact steps i _

/-- A run on a state of the right widths fails at most because a table is too large. -/
theorem Made.run_within (made : p.Made) (widths : input.widths = p.inputWidths) (n : Nat) :
    ∃ outs, p.run input n = within (p.Fits input n) outs := by
  have graph := p.encoder.sameGraph_after input
  have gives := made.wired.encoder.widths_after widths
  obtain ⟨outs, steps⟩ := made.wired.steps_within n ⟨.refl _, gives, gives⟩
  refine ⟨outs, ?_⟩
  rw [run, Component.tryInfer_of_widths widths, made.wired.encoder.infer_eq widths]
  exact Count.within_bind_congr steps (and_congr_right' (or_congr_right (stepFits_congr graph))) rfl

/-- **A pipeline runs its recurrence.**  A run refuses its input iff the widths are not those
    that the encoder reads, whatever the number of steps.  Otherwise it gives one state per
    step, unless a table is too large: the encoder takes the input, in each step the core takes
    the encoded graph beside the latest latent graph, and the decoder and the transform take
    what they are fed.  Every state has the input's graph and the pipeline's widths, and fewer
    steps give the first of the states.  A session that holds the input holds it as before. -/
theorem run_recurrence (made : p.Made) (input : State) :
    (∀ n, (∃ cause, p.run input n = refuseShape cause) ↔ input.widths ≠ p.inputWidths) ∧
      (input.widths = p.inputWidths → ∀ n,
        (p.Fits input n → ∃ outs, p.run input n = .ok outs) ∧
        (¬ p.Fits input n → p.run input n = .error (.fault .countOverflow))) ∧
      ∀ n outs,
        (p.run input n = .ok outs ↔
          outs.length = n ∧ ∃ latents, p.Recurrence input latents outs) ∧
        (p.run input n = .ok outs →
          (∀ out ∈ outs, out.widths = p.outputWidths ∧ input.SameGraph out) ∧
          (∀ m ≤ n, p.run input m = .ok (outs.take m)) ∧
          ∀ (held : List State) (i : Nat), held[i]? = some input →
            (Call.derived (.run p n) i).perform held = (held ++ outs, none)) := by
  refine ⟨fun n => ⟨?_, fun other => ?_⟩, fun widths n => ⟨fun fits => ?_, fun unfit => ?_⟩,
    fun n outs => ⟨made.run_eq_ok, fun run => ⟨?_, fun m hm => made.run_take run hm, ?_⟩⟩⟩
  · rintro ⟨cause, refused⟩ widths
    obtain ⟨outs, run⟩ := made.run_within widths n
    rw [run] at refused
    exact Count.within_ne_refused _ _ refused
  · exact ⟨_, by rw [run, Component.tryInfer_of_ne other]; rfl⟩
  · obtain ⟨outs, run⟩ := made.run_within widths n
    rw [run, Count.within_of_fits fits]
    exact ⟨_, rfl⟩
  · obtain ⟨outs, run⟩ := made.run_within widths n
    rw [run, Count.within_of_not_fits unfit]
  · intro out hout
    exact (made.of_run run out hout).symm
  · intro held i here
    rw [Call.perform, here]
    show Call.hold held (p.run input n) = _
    rw [run]
    rfl

/-- Adders as all parts, for two steps. -/
theorem run_recurrence_adders : ∃ (p : Pipeline) (outs : List State) (latents : Nat → State),
    p.Made ∧ p.transform.isSome ∧ p.run .selfLoop 2 = .ok outs ∧ outs.length = 2 ∧
      p.Recurrence .selfLoop latents outs ∧ p.run .selfLoop 1 = .ok (outs.take 1) := by
  obtain ⟨m, compiled, inputs, outputs, fits⟩ := Model.exists_adder (.inl rfl)
  obtain ⟨wide, compiled', inputs', outputs', fits'⟩ := Model.exists_adder (.inr rfl)
  let plain : Pipeline := ⟨.model m, .model wide, .model m, none⟩
  let p : Pipeline := { plain with transform := some (.model m) }
  have parts : ofParts (.model m) (.model wide) (.model m) = .ok plain := by
    have twice : m.outputWidths.add m.outputWidths = .ok ⟨2, 2, 2⟩ := by rw [outputs]; decide
    simp only [ofParts, Component.inputWidths, Component.outputWidths, twice, Outcome.ok_bind,
      checkFed_eq_ok.2 inputs', checkFed_eq_ok.2 (outputs.trans outputs'.symm),
      checkFed_eq_ok.2 (inputs.trans outputs'.symm)]
    rfl
  have fed : checkFed "output transform" m.inputWidths m.outputWidths = .ok () :=
    checkFed_eq_ok.2 (inputs.trans outputs.symm)
  have transformed : plain.withTransform (.model m) = .ok p := by
    show (checkFed _ m.inputWidths m.outputWidths >>= _) = _
    rw [fed]
    rfl
  have made : p.Made :=
    .transform (.parts (.model compiled) (.model compiled') (.model compiled) parts)
      (.model compiled) transformed
  have tables : State.selfLoop.TablesFit wide.inputWidths := by rw [inputs']; decide
  have all : p.Fits .selfLoop 2 :=
    ⟨fits, .inr ⟨tables, fits', by simp [p, plain, Component.Fits, fits]⟩⟩
  obtain ⟨-, answers, runs⟩ := run_recurrence made .selfLoop
  obtain ⟨outs, run⟩ := (answers inputs.symm 2).1 all
  obtain ⟨is, gives⟩ := runs 2 outs
  obtain ⟨length, latents, recurrence⟩ := is.1 run
  obtain ⟨-, fewer, -⟩ := gives run
  exact ⟨p, outs, latents, made, rfl, run, length, recurrence, fewer 1 (by decide)⟩

end Pipeline

end MessagePassing
