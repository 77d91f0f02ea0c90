/-
  Message passing — stacks and their programs.

  A stack grows by pushes, and a push compares widths only.  In memory every member runs on
  the graph of the state; in the stack's program every network runs on the graph that its
  description has told.

  * `Stack.Reachable.linked`: the first member reads the stack's input, and every other one
    reads what the one before gives;
  * `Stack.infer_eq`: a built stack gives the rounds of its members, one after the other;
  * `Stack.program_on_graph`: the networks of a stack's program have one graph iff their
    descriptions have, and on this graph the program computes what the stack does;
  * `Stack.mixed_graphs`: a stack whose members have different graphs.
-/
import MessagePassing.Proofs.Execution
import MessagePassing.Proofs.Modules

namespace MessagePassing

open MessagePassing.Count (within)

theorem State.SameGraph.topology {s t : State} (same : s.SameGraph t) : t.topology = s.topology := by
  rw [State.topology, State.topology, same.nodeCount, same.senders, same.receivers]

/-! ## Programs of members -/

/-- A program without a graph, or with this one. -/
def Program.On (q : Program) (t : Topology) : Prop := ∀ u, q.topology = some u → u = t

/-- The programs of all members are on the graph. -/
def StackProgram.On (q : StackProgram) (t : Topology) : Prop := ∀ m ∈ q.members, m.2.On t

/-- The graph that a description leaves in the program of its model. -/
def Description.graph? (d : Description) : Option Topology :=
  match d.architecture with
  | .graphNetwork => some d.topology
  | .graphIndependent => none

namespace Model

variable {m : Model} {d : Description} {q : Program}

theorem CompiledFrom.topology_eq (h : m.CompiledFrom d) (hq : m.program = some q) :
    q.topology = d.graph? := by
  obtain ⟨⟨p, rename, compiled⟩, rfl⟩ := h.program_eq hq
  obtain ⟨-, made, -⟩ := Description.compile_eq_ok compiled
  cases architecture : d.architecture with
  | graphNetwork =>
    obtain ⟨n, network, -⟩ := made.network architecture
    rw [Description.graph?, architecture, network]
    rfl
  | graphIndependent =>
    obtain ⟨i, independent, -⟩ := made.independent architecture
    rw [Description.graph?, architecture, independent]
    rfl

/-- A model of a network on the graph, or of an independent block. -/
def On (m : Model) (t : Topology) : Prop :=
  ∀ d, m.CompiledFrom d → d.architecture = .graphNetwork → d.topology = t

/-- What a network was compiled for is what its program holds. -/
theorem Compiled.on_program (h : m.Compiled) (hq : m.program = some q) {t : Topology} :
    q.On t ↔ m.On t := by
  constructor
  · intro on d compiled network
    apply on
    rw [compiled.topology_eq hq, Description.graph?, network]
  · intro on u hu
    obtain ⟨d, compiled⟩ := h
    rw [compiled.topology_eq hq, Description.graph?] at hu
    split at hu
    · cases hu
      exact on d compiled ‹_›
    · cases hu

/-- The program of a compiled model computes a round on its own graph. -/
theorem Compiled.run? (h : m.Compiled) (hq : m.program = some q) {g : State}
    (widths : g.widths = m.inputWidths) (graph : q.On g.topology) :
    q.run? g.features = some (m.block.round g).features := by
  obtain ⟨d, compiled⟩ := h
  obtain ⟨⟨p, rename, run⟩, -⟩ := compiled.program_eq hq
  have topology := compiled.topology_eq hq
  obtain ⟨q', hq', computes⟩ := run?_program run widths fun network => by
    rw [Description.graph?, network] at topology
    exact (graph _ topology).symm
  cases hq.symm.trans hq'
  exact computes

theorem Compiled.infer_eq (h : m.Compiled) {g : State} (widths : g.widths = m.inputWidths) :
    m.infer g = within (m.block.Fits g) (m.block.round g) := by
  obtain ⟨d, p, rename, withProgram, compiled⟩ := h
  exact Model.infer_eq compiled widths

end Model

/-! ## Pushes -/

namespace Stack

variable {s t : Stack} {m : Model}

theorem push_eq_ok : s.push m = .ok t ↔
    (∀ last, s.models.getLast? = some last → last.outputWidths = m.inputWidths) ∧
      t = ⟨s.name, s.models ++ [m]⟩ := by
  rw [push]
  cases s.models.getLast? with
  | none => simp [eq_comm]
  | some last =>
    by_cases same : last.outputWidths = m.inputWidths
    · simp [same, eq_comm]
    · simp [same, refuseShape]

/-- The stacks that pushes of compiled models build. -/
inductive Reachable : Stack → Prop where
  | empty (name : String) : Reachable (Stack.empty name)
  | push {s t : Stack} {m : Model} : Reachable s → m.Compiled → s.push m = .ok t → Reachable t

/-- The first model reads these widths, and every other one what the one before gives. -/
def Linked : Widths → List Model → Prop
  | _, [] => True
  | w, m :: rest => m.inputWidths = w ∧ Linked m.outputWidths rest

theorem linked_concat {w : Widths} {l : List Model} (h : Linked w l)
    (next : m.inputWidths = (l.getLast?.map Model.outputWidths).getD w) : Linked w (l ++ [m]) := by
  induction l generalizing w with
  | nil => exact ⟨next, trivial⟩
  | cons a rest ih =>
    obtain ⟨reads, linked⟩ := h
    refine ⟨reads, ih linked ?_⟩
    rw [next]
    cases rest with
    | nil => rfl
    | cons b rest => rw [List.getLast?_cons_cons]; rfl

theorem Reachable.compiled (h : s.Reachable) : ∀ m ∈ s.models, m.Compiled := by
  induction h with
  | empty name => simp [Stack.empty]
  | push _ hm pushed ih =>
    obtain ⟨-, rfl⟩ := push_eq_ok.1 pushed
    exact List.forall_mem_append.2 ⟨ih, by simpa using hm⟩

/-- **Every member of a built stack reads what the one before gives.** -/
theorem Reachable.linked (h : s.Reachable) : Linked s.inputWidths s.models := by
  induction h with
  | empty name => trivial
  | @push s t m _ _ pushed ih =>
    obtain ⟨fits, rfl⟩ := push_eq_ok.1 pushed
    obtain ⟨name, models⟩ := s
    cases models with
    | nil => exact ⟨rfl, trivial⟩
    | cons first rest =>
      refine linked_concat ih ?_
      have nonempty : first :: rest ≠ [] := List.cons_ne_nil first rest
      have last := List.getLast?_eq_some_getLast nonempty
      rw [last]
      exact (fits _ last).symm

/-! ## Runs in memory -/

/-- The number of values of every table of every member is a count. -/
def Fits (s : Stack) (g : State) : Prop := ∀ m ∈ s.models, m.block.Fits g

instance (s : Stack) (g : State) : Decidable (s.Fits g) :=
  inferInstanceAs (Decidable (∀ m ∈ s.models, m.block.Fits g))

/-- The state after a round of every model. -/
def rounds (models : List Model) (g : State) : State :=
  models.foldl (fun g m => m.block.round g) g

theorem foldlM_infer {models : List Model} {g : State} (compiled : ∀ m ∈ models, m.Compiled)
    (linked : Linked g.widths models) :
    models.foldlM (fun g m => m.infer g) g =
      within (∀ m ∈ models, m.block.Fits g) (rounds models g) := by
  induction models generalizing g with
  | nil => exact (Count.within_of_fits (by simp) _).symm
  | cons m rest ih =>
    obtain ⟨first, others⟩ := List.forall_mem_cons.1 compiled
    obtain ⟨reads, linked⟩ := linked
    have reads' : (m.block.round g).widths = m.outputWidths := m.block.widths_round g
    rw [← reads'] at linked
    rw [List.foldlM_cons, first.infer_eq reads.symm]
    refine Count.within_bind_congr (ih others linked) ?_ rfl
    simp only [List.forall_mem_cons, Block.fits_congr _ (m.block.sameGraph_round g)]

/-- **A built stack gives the rounds of its members**, one after the other. -/
theorem infer_eq (built : s.Reachable) {g : State} (widths : g.widths = s.inputWidths) :
    s.infer g = within (s.Fits g) (rounds s.models g) := by
  have linked := built.linked
  rw [← widths] at linked
  exact foldlM_infer built.compiled linked

/-! ## Runs of the program -/

theorem program_eq_some {q : StackProgram} (h : s.program = some q) :
    ∃ programs, s.models.mapM Model.program = some programs ∧
      q = .ofMembers (Identifier.ofName s.name) programs := by
  rw [program] at h
  split at h
  · cases h
  · obtain ⟨programs, members, made⟩ := Option.bind_eq_some_iff.1 h
    exact ⟨programs, members, (Option.some.inj made).symm⟩

theorem forall₂_of_mapM {models : List Model} {programs : List Program}
    (h : models.mapM Model.program = some programs) :
    List.Forall₂ (fun m q => m.program = some q) models programs := by
  induction models generalizing programs with
  | nil =>
    cases h
    exact .nil
  | cons m rest ih =>
    rw [List.mapM_cons] at h
    obtain ⟨q, hq, h⟩ := Option.bind_eq_some_iff.1 h
    obtain ⟨others, hothers, h⟩ := Option.bind_eq_some_iff.1 h
    cases h
    exact .cons hq (ih hothers)

section
variable {models : List Model} {programs : List Program}
  (embedded : List.Forall₂ (fun m q => m.program = some q) models programs)
include embedded

theorem forall_on (compiled : ∀ m ∈ models, m.Compiled) {t : Topology} :
    (∀ q ∈ programs, q.On t) ↔ ∀ m ∈ models, m.On t := by
  induction embedded with
  | nil => simp
  | cons hq _ ih =>
    obtain ⟨first, others⟩ := List.forall_mem_cons.1 compiled
    rw [List.forall_mem_cons, List.forall_mem_cons, first.on_program hq, ih others]

/-- On the graph of a state, the programs compute what the models do. -/
theorem foldlM_run? {g : State} (compiled : ∀ m ∈ models, m.Compiled)
    (linked : Linked g.widths models) (graph : ∀ q ∈ programs, q.On g.topology) :
    programs.foldlM (fun f q => q.run? f) g.features = some (rounds models g).features := by
  induction embedded generalizing g with
  | nil => rfl
  | @cons m q _ _ hq _ ih =>
    obtain ⟨first, others⟩ := List.forall_mem_cons.1 compiled
    obtain ⟨here, later⟩ := List.forall_mem_cons.1 graph
    obtain ⟨reads, linked⟩ := linked
    have reads' : (m.block.round g).widths = m.outputWidths := m.block.widths_round g
    have same : (m.block.round g).topology = g.topology := (m.block.sameGraph_round g).topology
    rw [← reads'] at linked
    rw [← same] at later
    rw [List.foldlM_cons, first.run? hq reads.symm here]
    exact ih others linked later

end

theorem foldlM_members (name : String) (programs : List Program) (f : Features) :
    (StackProgram.ofMembers name programs).run? f = programs.foldlM (fun f q => q.run? f) f := by
  have members := StackProgram.programs_ofMembers name programs
  rw [← members, List.foldlM_map, members]
  rfl

theorem on_ofMembers {name : String} {programs : List Program} {t : Topology} :
    (StackProgram.ofMembers name programs).On t ↔ ∀ q ∈ programs, q.On t := by
  have members := StackProgram.programs_ofMembers name programs
  rw [← members, List.forall_mem_map, members]
  rfl

/-- **The program of a built stack.**  Its networks have the graph `t` iff all of them were
    compiled for it; and on a state with the graph of its networks the program computes the
    features that the stack gives, bit for bit. -/
theorem program_on_graph {s : Stack} {q : StackProgram} (built : s.Reachable)
    (emitted : s.program = some q) :
    (∀ t, q.On t ↔ ∀ m ∈ s.models, m.On t) ∧
      ∀ g : State, q.On g.topology → g.widths = s.inputWidths →
        (∀ out, s.infer g = .ok out → q.run? g.features = some out.features) ∧
        (s.Fits g → ∃ out, s.infer g = .ok out) ∧
        (¬ s.Fits g → s.infer g = .error (.fault .countOverflow)) := by
  obtain ⟨programs, members, rfl⟩ := program_eq_some emitted
  have embedded := forall₂_of_mapM members
  refine ⟨fun t => ?_, fun g on widths => ⟨fun out run => ?_, fun fits => ?_, fun unfit => ?_⟩⟩
  · rw [on_ofMembers, forall_on embedded built.compiled]
  · rw [infer_eq built widths] at run
    obtain ⟨-, rfl⟩ := Count.within_eq_ok.1 run
    have linked := built.linked
    rw [← widths] at linked
    rw [foldlM_members]
    exact foldlM_run? embedded built.compiled linked (on_ofMembers.1 on)
  · rw [infer_eq built widths, Count.within_of_fits fits]
    exact ⟨_, rfl⟩
  · rw [infer_eq built widths, Count.within_of_not_fits unfit]

end Stack

/-! ## Stacks of two -/

/-- The self-loop's functions on two nodes with an edge between them. -/
def Description.arrow : Description := { selfLoop with nodeCount := 2, edges := [(0, 1)] }

namespace Stack

/-- Two models as a stack. -/
def pair (a b : Model) : Stack := ⟨"pile", [a, b]⟩

theorem reachable_pair {a b : Model} (ha : a.Compiled) (hb : b.Compiled)
    (fits : a.outputWidths = b.inputWidths) : (pair a b).Reachable := by
  have first : (Stack.empty "pile").push a = .ok ⟨"pile", [a]⟩ :=
    push_eq_ok.2 ⟨by simp [Stack.empty], rfl⟩
  have second : (⟨"pile", [a]⟩ : Stack).push b = .ok (pair a b) :=
    push_eq_ok.2 ⟨by simpa using fits, rfl⟩
  exact .push (.push (.empty "pile") ha first) hb second

theorem program_pair {a b : Model} {qa qb : Program} (ha : a.program = some qa)
    (hb : b.program = some qb) :
    (pair a b).program = some (.ofMembers (Identifier.ofName "pile") [qa, qb]) := by
  simp [program, pair, ha, hb]

theorem on_pair (name : String) {qa qb : Program} {t : Topology} :
    (StackProgram.ofMembers name [qa, qb]).On t ↔ qa.On t ∧ qb.On t := by
  simp [on_ofMembers]

/-- The self-loop after itself. -/
theorem program_on_graph_selfLoop : ∃ (s : Stack) (q : StackProgram) (out : State),
    s.Reachable ∧ s.models.length = 2 ∧ s.program = some q ∧ q.On State.selfLoop.topology ∧
      s.infer .selfLoop = .ok out ∧ q.run? State.selfLoop.features = some out.features := by
  obtain ⟨m, compiled⟩ := compile_selfLoop
  obtain ⟨-, -, program⟩ := Description.compile_eq_ok compiled
  have loop : m.CompiledFrom .selfLoop := ⟨_, _, _, compiled⟩
  have inputs := Model.inputWidths_eq compiled
  have built : (pair m m).Reachable := reachable_pair ⟨_, loop⟩ ⟨_, loop⟩
    ((Model.outputWidths_eq compiled).trans inputs.symm)
  have emitted := program_pair program program
  have graph : (Description.selfLoop.program m.name m.block).On State.selfLoop.topology := by
    intro u hu
    rw [loop.topology_eq program] at hu
    cases hu
    rfl
  have on := (on_pair (Identifier.ofName "pile")).2 ⟨graph, graph⟩
  obtain ⟨-, runs⟩ := program_on_graph built emitted
  obtain ⟨agrees, answers, -⟩ := runs .selfLoop on inputs.symm
  have fits := Model.fits_block_selfLoop compiled
  obtain ⟨out, run⟩ := answers (by simpa [Fits, pair] using fits)
  exact ⟨_, _, out, built, rfl, emitted, on, run, agrees out run⟩

/-- **Pushes do not look at graphs**: a self-loop and an arrow make a stack, and no graph is
    that of both. -/
theorem mixed_graphs : ∃ (s : Stack) (q : StackProgram),
    s.Reachable ∧ s.program = some q ∧ ¬ ∃ t, q.On t := by
  obtain ⟨a, ha⟩ := compile_selfLoop
  obtain ⟨b, hb⟩ : ∃ b, Description.arrow.compile .selfLoop none true = .ok b := by
    apply Outcome.exists_of_isOk
    decide +kernel
  obtain ⟨-, -, first⟩ := Description.compile_eq_ok ha
  obtain ⟨-, -, second⟩ := Description.compile_eq_ok hb
  have ofLoop : a.CompiledFrom .selfLoop := ⟨_, _, _, ha⟩
  have ofArrow : b.CompiledFrom .arrow := ⟨_, _, _, hb⟩
  have fits : a.outputWidths = b.inputWidths :=
    (Model.outputWidths_eq ha).trans (Model.inputWidths_eq hb).symm
  refine ⟨_, _, reachable_pair ⟨_, ofLoop⟩ ⟨_, ofArrow⟩ fits, program_pair first second, ?_⟩
  rintro ⟨t, on⟩
  obtain ⟨onLoop, onArrow⟩ := (on_pair _).1 on
  -- one node is not two
  have one := onLoop _ (ofLoop.topology_eq first)
  have two := onArrow _ (ofArrow.topology_eq second)
  cases one.trans two.symm

end Stack

end MessagePassing
