/-
  Message passing — rounds from the command line.

  The command line runs a model for a number of rounds, each on what the last one gave.  The
  graph is read with the widths of the model, so that the first round takes it; the second one
  takes what a model gives that keeps its widths, and then no later one can be refused.

  * `Model.rounds_eq`: rounds of a model that keeps its widths, or one round;
  * `CommandLine.rounds_eq`: how the loop over the rounds ends, whatever the model and the count;
  * `Block.fits_of_small`: which rounds fit into memory for sure;
  * `CommandLine.run_infer`: how the whole command line ends.
-/
import MessagePassing.Proofs.Composition
import MessagePassing.Proofs.IdentityNetworks
import MessagePassing.Proofs.PrintedGraphs

namespace MessagePassing

open MessagePassing.Count (within limit)

variable {m : Model} {s : State}

/-! ## Rounds of a model -/

/-- **Rounds of a model** go on as long as the first one fits, if there is one at most or the
    model keeps its widths. -/
theorem Model.rounds_eq (compiled : m.Compiled) (widths : s.widths = m.inputWidths) {n : Nat}
    (stable : n ≤ 1 ∨ m.outputWidths = m.inputWidths) :
    m.rounds n s = within (n = 0 ∨ m.block.Fits s) (m.block.round^[n] s) := by
  induction n generalizing s with
  | zero => exact (Count.within_of_fits (.inl rfl) s).symm
  | succ n ih =>
    rw [rounds, compiled.infer_eq widths, Function.iterate_succ_apply]
    have again : m.rounds n (m.block.round s) =
        within (n = 0 ∨ m.block.Fits (m.block.round s)) (m.block.round^[n] (m.block.round s)) := by
      rcases stable with last | stable
      · obtain rfl : n = 0 := by omega
        exact (Count.within_of_fits (.inl rfl) _).symm
      · exact ih ((m.block.widths_round s).trans stable) (.inr stable)
    refine Count.within_bind_congr again ?_ rfl
    rw [m.block.fits_congr (m.block.sameGraph_round s)]
    constructor
    · exact fun h => .inr h.1
    · exact fun h => ⟨h.resolve_left n.succ_ne_zero, .inr (h.resolve_left n.succ_ne_zero)⟩

namespace CommandLine

/-- **How the loop over the rounds ends.**  The first round is never refused.  Only tables that
    are too large stop it, and then the count overflows; else the second one is refused exactly
    if the model does not keep its widths, and no later one is refused. -/
theorem rounds_eq (compiled : m.Compiled) (widths : s.widths = m.inputWidths) (step n : Nat) :
    rounds m step n s =
      if n = 0 then .ok s
      else if m.block.Fits s then
        if n = 1 ∨ m.outputWidths = m.inputWidths then .ok (m.block.round^[n] s)
        else .error (.context s!"running step {step + 1}")
      else .error .fault := by
  induction n generalizing step s with
  | zero => rfl
  | succ n ih =>
    have once : (Component.model m).tryInfer s = within (m.block.Fits s) (m.block.round s) :=
      (Component.tryInfer_of_widths widths).trans (compiled.infer_eq widths)
    rw [rounds, once, if_neg n.succ_ne_zero]
    by_cases fits : m.block.Fits s
    · rw [Count.within_of_fits fits, if_pos fits]
      show rounds m (step + 1) n (m.block.round s) = _
      have gives : (m.block.round s).widths = m.outputWidths := m.block.widths_round s
      by_cases stable : m.outputWidths = m.inputWidths
      · have again : m.block.Fits (m.block.round s) :=
          (m.block.fits_congr (m.block.sameGraph_round s)).2 fits
        rw [ih (gives.trans stable), if_pos again, if_pos (Or.inr stable), if_pos (Or.inr stable)]
        split
        · rename_i last
          rw [last]
          rfl
        · rw [Function.iterate_succ_apply]
      · cases n with
        | zero => rfl
        | succ n =>
          -- the second round is the one that is refused
          have refused : (Component.model m).tryInfer (m.block.round s) = _ :=
            Component.tryInfer_of_ne (gives ▸ stable)
          rw [rounds, refused, if_neg (by simp [stable])]
          rfl
    · rw [Count.within_of_not_fits fits, if_neg fits]
      rfl

end CommandLine

/-! ## What fits into memory -/

section

variable {p : Parameters} {bound : Nat}

/-- The widths of layers are lengths of their tensors at most. -/
theorem BoundLayers.widths_lt {module : String} {layout : WeightLayout} {layer input : Nat}
    {sizes : List Nat} {ds : List Dense} (h : BoundLayers p module layout layer input sizes ds)
    (positive : ∀ n ∈ sizes, 0 < n)
    (small : ∀ name values, p.get? name = some values → values.size < bound) :
    ∀ d ∈ ds, d.input < bound ∧ d.output < bound := by
  induction h with
  | nil => simp
  | @cons layer input output rest d ds holds _ ih =>
    obtain ⟨first, others⟩ := List.forall_mem_cons.1 positive
    refine List.forall_mem_cons.2 ⟨⟨?_, ?_⟩, ih others⟩
    · obtain ⟨stored, there, size, -⟩ := holds.weight
      have weights := small _ stored there
      rw [size] at weights
      rw [holds.input_eq]
      exact lt_of_le_of_lt (Nat.le_mul_of_pos_right input first) weights
    · rw [← d.size_bias]
      exact small _ _ holds.bias

theorem UpdateDeclaration.Realizes.widths_lt {u : UpdateDeclaration} {input : Nat}
    {P : Perceptron} (h : u.Realizes p input P)
    (small : ∀ name values, p.get? name = some values → values.size < bound) :
    P.inputWidth < bound ∧ P.outputWidth < bound := by
  have widths := h.layers.widths_lt h.positive small
  exact ⟨(widths _ (List.head_mem _)).1, (widths _ (List.getLast_mem _)).2⟩

/-- **Rounds fit into memory** on a graph with fewer than 2^32 nodes and edges, if no tensor has
    2^32 values. -/
theorem Block.fits_of_small {d : Description} {name : String} {b : Block}
    (made : d.Assembles p name b)
    (small : ∀ name values, p.get? name = some values → values.size < 2 ^ 32)
    (nodes : s.nodes.rows < 2 ^ 32) (edges : s.edges.rows < 2 ^ 32) : b.Fits s := by
  have edge := made.updates.edge.widths_lt small
  have node := made.updates.node.widths_lt small
  have global := made.updates.global.widths_lt small
  have table {rows cols : Nat} (hr : rows < 2 ^ 32) (hc : cols < 2 ^ 32) : rows * cols < limit :=
    Nat.mul_lt_mul'' hr hc
  have row {cols : Nat} (hc : cols < 2 ^ 32) : 1 * cols < limit := table (by decide) hc
  cases b with
  | network n =>
    rw [Fits, Network.Fits, Network.shapes]
    simp only [List.forall_mem_cons]
    exact ⟨table edges edge.1, table edges edge.2, table nodes edge.2, table nodes node.1,
      table nodes node.2, row node.2, row edge.2, row global.1, row global.2, by simp⟩
  | independent i =>
    rw [Fits, Independent.Fits, Independent.shapes]
    simp only [List.forall_mem_cons]
    exact ⟨table edges edge.2, table nodes node.2, row global.2, by simp⟩

end

/-! ## The command line -/

namespace CommandLine

open GraphDocument (ofState)

variable {load : String → Loaded} {options : ModelOptions} {graph : String} {steps : Nat}
  {d : Description} {p : Parameters} {start : State}

/-- What an ending prints. -/
def Ending.printed : Ending → String
  | success output => output
  | _ => ""

theorem begins_of_evaluate {product : Product}
    (run : (Command.infer options graph steps).evaluate load = .ok product) :
    ∃ d p m start, Begins load options graph d p m start := by
  obtain ⟨m, start, final, infers, -⟩ := infers_of_evaluate run
  obtain ⟨d, p, description, parameters, compiled⟩ := compile_eq_ok.1 infers.model
  exact ⟨d, p, m, start, decodeFile_eq_ok.1 description, decodeFile_eq_ok.1 parameters, compiled,
    infers.graph⟩

theorem Begins.settled (h : Begins load options graph d p m start) (steps : Nat) :
    (steps ≤ 1 ∨ m.outputWidths = m.inputWidths → steps = 0 ∨ m.block.Fits start →
      ∃ final, m.rounds steps start = .ok final ∧
        (Command.infer options graph steps).evaluate load = .ok (.text (graphText final))) ∧
    (¬ (steps ≤ 1 ∨ m.outputWidths = m.inputWidths) → m.block.Fits start →
      (Command.infer options graph steps).evaluate load = .error (.context "running step 1")) ∧
    (¬ (steps = 0 ∨ m.block.Fits start) →
      (Command.infer options graph steps).evaluate load = .error .fault) := by
  have compiled : m.Compiled := ⟨d, p, options.name, false, h.model⟩
  obtain ⟨_, _, -, -, made⟩ := h.graph
  have widths := GraphDocument.widths_of_toState made
  rw [h.evaluate_eq, rounds_eq compiled widths]
  refine ⟨fun stable fits => ?_, fun unstable fits => ?_, fun unfit => ?_⟩
  · refine ⟨m.block.round^[steps] start, ?_, ?_⟩
    · rw [m.rounds_eq compiled widths stable, Count.within_of_fits fits]
    · split
      · rename_i none
        rw [none]
        rfl
      · rename_i some
        have last : steps = 1 ∨ m.outputWidths = m.inputWidths :=
          stable.imp_left fun few => by omega
        rw [if_pos (fits.resolve_left some), if_pos last]
        rfl
  · obtain ⟨many, differ⟩ := not_or.1 unstable
    rw [if_neg (by omega), if_pos fits, if_neg (not_or.2 ⟨by omega, differ⟩)]
    rfl
  · obtain ⟨some, unfit⟩ := not_or.1 unfit
    rw [if_neg some, if_neg unfit]
    rfl

/-- The command line ends as the command does, and leaves all files alone. -/
theorem run_of_evaluate {t : FileTree} {environment : List (String × String)}
    {arguments : List String} (asked : Request.ofArguments environment false arguments =
      .ok (.run (.infer options graph steps))) :
    ∃ ending, run t environment arguments = (ending, t) ∧
      (∀ output, ending = .success output ↔
        (Command.infer options graph steps).evaluate t.load = .ok (.text output)) ∧
      (∀ step, ending = .failure step ↔
        (Command.infer options graph steps).evaluate t.load = .error (.context step)) ∧
      (ending = .abort ↔ (Command.infer options graph steps).evaluate t.load = .error .fault) := by
  rw [run, asked]
  simp only [Request.answer]
  cases evaluates : (Command.infer options graph steps).evaluate t.load with
  | ok product =>
    obtain ⟨m, start, final, -, rfl⟩ := infers_of_evaluate evaluates
    exact ⟨.success (graphText final), rfl, by simp, by simp, by simp⟩
  | error complaint =>
    cases complaint with
    | context step => exact ⟨.failure step, rfl, by simp, by simp, by simp⟩
    | fault => exact ⟨.abort, rfl, by simp, by simp, by simp⟩

/-- **How the command line ends that runs rounds.**  It succeeds iff model and graph are read,
    the model compiles, the graph is a state of its widths, and there is one round at most or
    the model keeps its widths, unless a table is too large for memory.  Then it prints the
    graph after all rounds.  Otherwise it prints nothing: the second round is the only one that
    is refused.  No file is changed. -/
theorem run_infer (t : FileTree) (environment : List (String × String)) (arguments : List String)
    (options : ModelOptions) (graph : String) (steps : Nat)
    (asked : Request.ofArguments environment false arguments =
      .ok (.run (.infer options graph steps))) :
    ∃ ending, run t environment arguments = (ending, t) ∧
      ((∃ output, ending = .success output) ↔ ∃ d p m start,
        Begins t.load options graph d p m start ∧
          (steps ≤ 1 ∨ m.outputWidths = m.inputWidths) ∧ (steps = 0 ∨ m.block.Fits start)) ∧
      ((¬ ∃ output, ending = .success output) → ending.printed = "") ∧
      ∀ d p m start, Begins t.load options graph d p m start →
        (steps ≤ 1 ∨ m.outputWidths = m.inputWidths → steps = 0 ∨ m.block.Fits start →
          ∃ final, m.rounds steps start = .ok final ∧
            ending = .success ((ofState final).json.indented ++ "\n") ∧
            ending.printed = (ofState final).json.indented ++ "\n") ∧
        (¬ (steps ≤ 1 ∨ m.outputWidths = m.inputWidths) → m.block.Fits start →
          ending = .failure "running step 1") ∧
        (¬ (steps = 0 ∨ m.block.Fits start) → ending = .abort) ∧
        ((∀ name values, p.get? name = some values → values.size < 2 ^ 32) →
          start.nodes.rows < 2 ^ 32 → start.edges.rows < 2 ^ 32 → m.block.Fits start) := by
  obtain ⟨ending, ends, succeeds, fails, aborts⟩ := run_of_evaluate (t := t) asked
  refine ⟨ending, ends, ⟨?runs, ?_⟩, fun none => ?_, fun d p m start begins => ?_⟩
  case runs =>
    rintro ⟨output, success⟩
    have evaluates := (succeeds output).1 success
    obtain ⟨d, p, m, start, begins⟩ := begins_of_evaluate evaluates
    obtain ⟨-, unstable, unfit⟩ := begins.settled steps
    have fits : steps = 0 ∨ m.block.Fits start := by
      by_contra h
      rw [unfit h] at evaluates
      cases evaluates
    refine ⟨d, p, m, start, begins, ?_, fits⟩
    by_contra h
    rw [unstable h (fits.resolve_left fun none => h (.inl (by omega)))] at evaluates
    cases evaluates
  · rintro ⟨d, p, m, start, begins, stable, fits⟩
    obtain ⟨final, -, evaluates⟩ := (begins.settled steps).1 stable fits
    exact ⟨_, (succeeds _).2 evaluates⟩
  · cases ending with
    | success output => exact absurd ⟨output, rfl⟩ none
    | _ => rfl
  · obtain ⟨success, unstable, unfit⟩ := begins.settled steps
    refine ⟨fun stable fits => ?_, fun h fits => (fails _).2 (unstable h fits),
      fun h => aborts.2 (unfit h), Block.fits_of_small (Description.compile_eq_ok begins.model).2.1⟩
    obtain ⟨final, rounds, evaluates⟩ := success stable fits
    have ends : ending = .success (graphText final) := (succeeds _).2 evaluates
    exact ⟨final, rounds, ends, by rw [ends]; rfl⟩

/-- A folder with the files of the self-loop. -/
def selfLoopFolder : FileTree where
  root := .folder [("model", .file Description.selfLoop.json.compact),
    ("tensors", .file Parameters.selfLoop.json.compact),
    ("graph", .file (ofState .selfLoop).json.compact)]
  working := []

theorem load_selfLoopFolder (path : String) (h : path ∈ ["model", "tensors", "graph"]) :
    selfLoopFolder.load path = selfLoopFiles .selfLoop path := by
  have places : ∀ path ∈ ["model", "tensors", "graph"],
      selfLoopFolder.resolve path = some [path] := by decide +kernel
  rw [FileTree.load, places path h]
  simp only [List.mem_cons, List.not_mem_nil, or_false] at h
  rcases h with rfl | rfl | rfl <;> rfl

/-- An option and its value as two arguments. -/
theorem readOptions_cons {keys : List Key} {key : Key} {argument value : String}
    {rest : List String} {given : Given} (word : Word.ofArgument keys argument = .option key none)
    (reads : argument ≠ "--") (plain : looksLikeOption value = false)
    (accepted : (given.any (·.1 == key) || !key.accepts value) = false) :
    readOptions keys (argument :: value :: rest) given =
      readOptions keys rest (given ++ [(key, value)]) := by
  rw [readOptions, if_neg reads, word]
  simp only [plain, readOptions.accept, accepted, Bool.false_eq_true, if_false]

/-- Arguments that ask for three rounds. -/
theorem asks_threeRounds : Request.ofArguments [] false
    ["infer", "-d", "model", "-p", "tensors", "-g", "graph", "--steps", "3"] =
      .ok (.run (.infer ⟨"model", "tensors", none⟩ "graph" 3)) := by
  have description : Word.ofArgument Verb.infer.keys "-d" = .option .description none := by decide
  have parameters : Word.ofArgument Verb.infer.keys "-p" = .option .parameters none := by decide
  have graph : Word.ofArgument Verb.infer.keys "-g" = .option .graph none := by decide
  have steps : Word.ofArgument Verb.infer.keys "--steps" = .option .steps none := by decide
  have read : readOptions Verb.infer.keys
      ["-d", "model", "-p", "tensors", "-g", "graph", "--steps", "3"] [] =
      .ok (some [(.description, "model"), (.parameters, "tensors"), (.graph, "graph"),
        (.steps, "3")]) := by
    rw [readOptions_cons description (by decide) (by decide) (by decide),
      readOptions_cons parameters (by decide) (by decide) (by decide),
      readOptions_cons graph (by decide) (by decide) (by decide),
      readOptions_cons steps (by decide) (by decide) (by decide), readOptions]
    rfl
  have verb : Verb.ofWord? "infer" = some .infer := by decide
  rw [Request.ofArguments, if_neg (by decide)]
  simp only [verb, Request.ofVerb, read]
  decide +kernel

/-- Three rounds of the self-loop. -/
theorem run_infer_selfLoop : ∃ m final,
    Description.selfLoop.compile .selfLoop none false = .ok m ∧
    m.rounds 3 .selfLoop = .ok final ∧
    run selfLoopFolder [] ["infer", "-d", "model", "-p", "tensors", "-g", "graph", "--steps", "3"] =
      (.success ((ofState final).json.indented ++ "\n"), selfLoopFolder) := by
  obtain ⟨m, compiled⟩ := compile_selfLoop_as none false
  have begun := begins_selfLoop (s := .selfLoop)
    ⟨by decide, by decide, by decide, by decide, by decide⟩ rfl compiled
  have begins : Begins selfLoopFolder.load ⟨"model", "tensors", none⟩ "graph" .selfLoop .selfLoop m
      .selfLoop :=
    ⟨load_selfLoopFolder "model" (by simp) ▸ begun.description,
      load_selfLoopFolder "tensors" (by simp) ▸ begun.parameters, compiled,
      load_selfLoopFolder "graph" (by simp) ▸ begun.graph⟩
  have stable : m.outputWidths = m.inputWidths :=
    (Model.outputWidths_eq compiled).trans (Model.inputWidths_eq compiled).symm
  have small : ∀ e ∈ Parameters.selfLoop.entries, e.2.size < 2 ^ 32 := by decide
  obtain ⟨ending, ends, -, -, settled⟩ := run_infer selfLoopFolder [] _ _ _ 3 asks_threeRounds
  obtain ⟨success, -, -, fits⟩ := settled _ _ m _ begins
  have fit : m.block.Fits .selfLoop := fits (fun name values there => by
    obtain ⟨⟨_, _⟩, found, rfl⟩ := Option.map_eq_some_iff.1 there
    exact small _ (List.mem_of_find?_eq_some found)) (by decide) (by decide)
  obtain ⟨final, rounds, printed, -⟩ := success (.inr stable) (.inr fit)
  exact ⟨m, final, compiled, rounds, ends.trans (by rw [printed])⟩

end CommandLine

end MessagePassing
