/-
  Message passing — printed graphs.

  A command prints the graph that its rounds end with.  JSON has no number for an infinity or a
  NaN, so that such a feature is printed as null, which no reader of graphs accepts: the text can
  be read as a graph again iff every feature is finite.

  * `GraphDocument.ofText?_indented`: which documents are read back from their printed text;
  * `State.Counted.of_rounds`: what rounds preserve for the graph to be accepted again;
  * `CommandLine.infer_printed`: what is printed, and when it is a graph;
  * `CommandLine.infer_overflow`: a run that prints no graph.
-/
import MessagePassing.Proofs.Descriptions
import MessagePassing.Proofs.Documents
import MessagePassing.Proofs.Indentation
import MessagePassing.Proofs.Stacks

namespace MessagePassing

open MessagePassing.Count (limit)

/-! ## Values that are read -/

namespace Json

variable {α β : Type}

/-- Of a list that is read every item is, and nothing comes out that no item gives. -/
theorem read_of_mapM {f : α → Option β} {l : List α} {k : List β} (h : l.mapM f = some k) :
    (∀ a ∈ l, ∃ b, f a = some b) ∧ ∀ b ∈ k, ∃ a, f a = some b := by
  induction l generalizing k with
  | nil =>
    cases h
    simp
  | cons a rest ih =>
    rw [List.mapM_cons] at h
    obtain ⟨b, hb, h⟩ := Option.bind_eq_some_iff.1 h
    obtain ⟨bs, hbs, h⟩ := Option.bind_eq_some_iff.1 h
    cases h
    obtain ⟨items, results⟩ := ih hbs
    exact ⟨List.forall_mem_cons.2 ⟨⟨b, hb⟩, items⟩, List.forall_mem_cons.2 ⟨⟨a, hb⟩, results⟩⟩

theorem read_of_list? {encode : α → Value} {decode : Decoder β} {xs : List α} {ys : List β}
    (h : Value.list? decode (.array (xs.map encode)) = some ys) :
    ∀ x ∈ xs, ∃ y, decode (encode x) = some y := by
  intro x hx
  exact (read_of_mapM h).1 _ (List.mem_map_of_mem hx)

theorem count?_lt {v : Value} {n : Nat} (h : v.count? = some n) : n < limit := by
  cases v with
  | number l =>
    rw [Value.count?, Option.filter_eq_some_iff] at h
    simpa using h.2
  | _ => cases h

/-- A scalar without a number is written as null, which is no scalar. -/
theorem scalar_of_not_finite {x : Scalar} (infinite : x.isFinite = false) :
    Value.scalar x = .null := by
  rw [Value.scalar, Scalar.literal?, if_neg (by simp [infinite])]

theorem finite_of_scalar? {x y : Scalar} (h : (Value.scalar x).scalar? = some y) :
    x.isFinite = true := by
  cases finite : x.isFinite with
  | true => rfl
  | false =>
    rw [scalar_of_not_finite finite] at h
    cases h

theorem proper_scalar (x : Scalar) : (Value.scalar x).Proper := by
  cases finite : x.isFinite with
  | true => exact (lossless_scalar finite).proper
  | false =>
    rw [scalar_of_not_finite finite]
    exact .null

theorem counts_lt {v : Value} {ns : List Nat} (h : v.list? Value.count? = some ns) :
    ∀ n ∈ ns, n < limit := by
  intro n hn
  cases v with
  | array items =>
    obtain ⟨item, read⟩ := (read_of_mapM h).2 n hn
    exact count?_lt read
  | _ => cases h

theorem proper_scalars (xs : Array Scalar) : (Value.scalars xs).Proper := by
  refine .array fun v hv => ?_
  obtain ⟨x, -, rfl⟩ := List.mem_map.1 hv
  exact proper_scalar x

theorem finite_of_scalars? {xs ys : Array Scalar} (h : (Value.scalars xs).scalars? = some ys) :
    ∀ x ∈ xs, x.isFinite = true := by
  obtain ⟨read, there, -⟩ := Option.map_eq_some_iff.1 h
  intro x hx
  obtain ⟨y, hy⟩ := read_of_list? there x (Array.mem_def.1 hx)
  exact finite_of_scalar? hy

end Json

/-! ## Documents -/

namespace GraphDocument

/-- Every feature is finite. -/
structure Finite (d : GraphDocument) : Prop where
  nodes : ∀ row ∈ d.nodes, ∀ x ∈ row, x.isFinite = true
  edges : ∀ row ∈ d.edges, ∀ x ∈ row, x.isFinite = true
  globals : ∀ x ∈ d.globals, x.isFinite = true

instance (d : GraphDocument) : Decidable d.Finite :=
  decidable_of_iff ((∀ row ∈ d.nodes, ∀ x ∈ row, x.isFinite = true) ∧
      (∀ row ∈ d.edges, ∀ x ∈ row, x.isFinite = true) ∧ ∀ x ∈ d.globals, x.isFinite = true)
    ⟨fun h => ⟨h.1, h.2.1, h.2.2⟩, fun h => ⟨h.nodes, h.edges, h.globals⟩⟩

/-- The ends of edges are counts. -/
def Counted (d : GraphDocument) : Prop :=
  (∀ n ∈ d.senders, n < limit) ∧ ∀ n ∈ d.receivers, n < limit

instance (d : GraphDocument) : Decidable d.Counted := inferInstanceAs (Decidable (_ ∧ _))

/-- Every document can be written, whatever its features are. -/
theorem proper_json (d : GraphDocument) : d.json.Proper := by
  have rows (l : List (Array Scalar)) : (Json.Value.array (l.map .scalars)).Proper := by
    refine .array fun v hv => ?_
    obtain ⟨row, -, rfl⟩ := List.mem_map.1 hv
    exact Json.proper_scalars row
  refine Json.proper_record ?_
  simp only [List.forall_mem_cons, List.not_mem_nil, false_imp_iff, implies_true, and_true]
  exact ⟨rows _, rows _, Json.proper_scalars _, Json.proper_counts _, Json.proper_counts _⟩

/-- What is read back from a document has finite features. -/
theorem finite_of_ofJson? {d e : GraphDocument} (h : ofJson? d.json = some e) : d.Finite := by
  rw [ofJson?, fields?_json, Option.bind_eq_bind, Option.bind_some] at h
  obtain ⟨nodes, hn, h⟩ := Option.bind_eq_some_iff.1 h
  obtain ⟨edges, he, h⟩ := Option.bind_eq_some_iff.1 h
  obtain ⟨globals, hg, -⟩ := Option.bind_eq_some_iff.1 h
  refine ⟨fun row hrow => ?_, fun row hrow => ?_, Json.finite_of_scalars? hg⟩
  · obtain ⟨_, read⟩ := Json.read_of_list? hn row hrow
    exact Json.finite_of_scalars? read
  · obtain ⟨_, read⟩ := Json.read_of_list? he row hrow
    exact Json.finite_of_scalars? read

/-- The ends of edges that are read are counts. -/
theorem counted_of_ofText? {d : GraphDocument} {text : String} (h : ofText? text = some d) :
    d.Counted := by
  obtain ⟨v, -, h⟩ := Option.bind_eq_some_iff.1 h
  obtain ⟨fields, -, h⟩ := Option.bind_eq_some_iff.1 h
  split at h
  · rename_i nodes edges globals senders receivers
    obtain ⟨_, -, h⟩ := Option.bind_eq_some_iff.1 h
    obtain ⟨_, -, h⟩ := Option.bind_eq_some_iff.1 h
    obtain ⟨_, -, h⟩ := Option.bind_eq_some_iff.1 h
    obtain ⟨_, hs, h⟩ := Option.bind_eq_some_iff.1 h
    obtain ⟨_, hr, h⟩ := Option.bind_eq_some_iff.1 h
    obtain ⟨_, -, readS⟩ := Option.bind_eq_some_iff.1 hs
    obtain ⟨_, -, readR⟩ := Option.bind_eq_some_iff.1 hr
    cases h
    exact ⟨fun n hn => Json.counts_lt readS n (by simpa using hn),
      fun n hn => Json.counts_lt readR n (by simpa using hn)⟩
  · cases h

/-- The global row that a document gives is a table of a count of values. -/
theorem globals_lt_of_toState {d : GraphDocument} {w : Widths} {s : State}
    (made : d.toState w = .ok s) : w.globals < limit := by
  obtain ⟨_, -, made⟩ := Outcome.bind_eq_ok.1 made
  obtain ⟨_, -, made⟩ := Outcome.bind_eq_ok.1 made
  obtain ⟨_, made, -⟩ := Outcome.bind_eq_ok.1 made
  rw [Buffer.ofFlat] at made
  split at made
  · rwa [← Nat.one_mul w.globals]
  · cases made

/-- A state has the widths that it was asked for with. -/
theorem widths_of_toState {d : GraphDocument} {w : Widths} {s : State}
    (made : d.toState w = .ok s) : s.widths = w :=
  ((toState_eq_ok (globals_lt_of_toState made)).1 made).2

/-- **A printed document is read back iff every feature is finite**, and then as it was. -/
theorem ofText?_indented {d : GraphDocument} (counted : d.Counted) :
    (d.Finite → ofText? (d.json.indented ++ "\n") = some d) ∧
      (¬ d.Finite → ofText? (d.json.indented ++ "\n") = none) := by
  have parsed := (Json.Value.ofText?_indented d.proper_json).2
  rw [ofText?, parsed]
  constructor
  · intro finite
    exact (lossless ⟨finite.nodes, finite.edges, finite.globals, counted.1, counted.2⟩).read
  · intro infinite
    rw [Option.eq_none_iff_forall_ne_some]
    intro e read
    exact infinite (finite_of_ofJson? read)

end GraphDocument

/-! ## Rounds -/

/-- The global row of a round is a table of a count of values. -/
theorem Block.globals_lt {b : Block} {s : State} (fits : b.Fits s) :
    b.outputWidths.globals < limit := by
  cases b with
  | network n =>
    have row := fits (1, n.updates.global.outputWidth) (by simp [Network.shapes])
    rwa [Nat.one_mul] at row
  | independent b =>
    have row := fits (1, b.updates.global.outputWidth) (by simp [Independent.shapes])
    rwa [Nat.one_mul] at row

/-- The width of the global row and the ends of edges are counts. -/
structure State.Counted (s : State) : Prop where
  globals : s.widths.globals < limit
  senders : ∀ n ∈ s.senders, n < limit
  receivers : ∀ n ∈ s.receivers, n < limit

namespace State.Counted

open CommandLine (inStep)

theorem of_toState {d : GraphDocument} {w : Widths} {s : State} (counted : d.Counted)
    (made : d.toState w = .ok s) : s.Counted := by
  have narrow := GraphDocument.globals_lt_of_toState made
  obtain ⟨rfl, rfl⟩ := (GraphDocument.toState_eq_ok narrow).1 made
  exact ⟨narrow, counted.1, counted.2⟩

/-- One round keeps the graph and what is counted of it. -/
theorem of_tryInfer {m : Model} {s t : State} (compiled : m.Compiled) (counted : s.Counted)
    (run : (Component.model m).tryInfer s = .ok t) : t.Counted := by
  obtain ⟨widths, run⟩ := Component.tryInfer_eq_ok.1 run
  have built : (Component.model m).Built := .model compiled
  obtain ⟨same, gives⟩ := built.of_infer widths run
  rw [built.infer_eq widths] at run
  obtain ⟨fits, -⟩ := Count.within_eq_ok.1 run
  refine ⟨?_, same.senders ▸ counted.senders, same.receivers ▸ counted.receivers⟩
  rw [gives]
  exact Block.globals_lt fits

/-- **Rounds keep what is needed to read the graph again.** -/
theorem of_rounds {m : Model} (compiled : m.Compiled) {n step : Nat} {s t : State}
    (counted : s.Counted) (run : CommandLine.rounds m step n s = .ok t) : t.Counted := by
  induction n generalizing step s with
  | zero =>
    cases run
    exact counted
  | succ n ih =>
    rw [CommandLine.rounds] at run
    cases next : (Component.model m).tryInfer s with
    | ok u =>
      rw [next] at run
      exact ih (of_tryInfer compiled counted next) run
    | error failure =>
      rw [next] at run
      cases failure <;> cases run

end State.Counted

/-! ## The command -/

namespace CommandLine

open GraphDocument (ofState)

variable {load : String → Loaded} {options : ModelOptions} {graph : String} {steps : Nat}
  {d : Description} {p : Parameters} {m : Model} {start : State}

/-- The graph is read from its file and becomes `start`, and the rounds of the model end with
    `final`. -/
structure Infers (load : String → Loaded) (options : ModelOptions) (graph : String) (steps : Nat)
    (m : Model) (start final : State) : Prop where
  model : options.compile load false = .ok m
  graph : ∃ content document, load graph = .text content ∧
    GraphDocument.ofText? content = some document ∧ document.toState m.inputWidths = .ok start
  rounds : rounds m 0 steps start = .ok final

theorem bind_eq_ok {α β : Type} {x : Except Complaint α} {f : α → Except Complaint β} {b : β} :
    (x >>= f) = .ok b ↔ ∃ a, x = .ok a ∧ f a = .ok b := by
  cases x with
  | error e => simp [bind, Except.bind]
  | ok a => simp [bind, Except.bind]

theorem inStep_eq_ok {α : Type} {step : String} {x : Outcome α} {a : α} :
    inStep step x = .ok a ↔ x = .ok a := by
  cases x with
  | ok b => simp [inStep]
  | error failure => cases failure <;> simp [inStep]

theorem decodeFile_eq_ok {α : Type} {kind path : String} {decode : String → Option α} {a : α} :
    decodeFile load kind path decode = .ok a ↔
      ∃ content, load path = .text content ∧ decode content = some a := by
  rw [decodeFile]
  cases load path with
  | absent => simp
  | unreadable => simp
  | text content =>
    cases decoded : decode content with
    | none => simp [decoded]
    | some b => simp [decoded]

theorem compile_eq_ok {withProgram : Bool} {m : Model} :
    options.compile load withProgram = .ok m ↔ ∃ d p,
      decodeFile load "model description" options.description Description.ofText? = .ok d ∧
      decodeFile load "parameter file" options.parameters parametersOfText? = .ok p ∧
      d.compile p options.name withProgram = .ok m := by
  rw [ModelOptions.compile, bind_eq_ok]
  refine exists_congr fun d => ?_
  rw [bind_eq_ok, ← exists_and_left]
  exact exists_congr fun p => and_congr_right fun _ => and_congr_right fun _ => inStep_eq_ok

/-- The model and the graph are read from their files, the model compiles, and the graph is a
    state of its widths. -/
structure Begins (load : String → Loaded) (options : ModelOptions) (graph : String)
    (d : Description) (p : Parameters) (m : Model) (start : State) : Prop where
  description : ∃ text, load options.description = .text text ∧ Description.ofText? text = some d
  parameters : ∃ text, load options.parameters = .text text ∧ parametersOfText? text = some p
  model : d.compile p options.name false = .ok m
  graph : ∃ text document, load graph = .text text ∧ GraphDocument.ofText? text = some document ∧
    document.toState m.inputWidths = .ok start

/-- Once all is read, only the rounds are left. -/
theorem Begins.evaluate_eq (h : Begins load options graph d p m start) :
    (Command.infer options graph steps).evaluate load =
      (rounds m 0 steps start).map fun final => .text (graphText final) := by
  obtain ⟨text, document, there, decoded, made⟩ := h.graph
  have model : options.compile load false = .ok m :=
    compile_eq_ok.2 ⟨d, p, decodeFile_eq_ok.2 h.description, decodeFile_eq_ok.2 h.parameters,
      h.model⟩
  have read : decodeFile load "graph" graph GraphDocument.ofText? = .ok document :=
    decodeFile_eq_ok.2 ⟨text, there, decoded⟩
  rw [Command.evaluate, model]
  show (do
    let document ← decodeFile load "graph" graph GraphDocument.ofText?
    let state ← inStep "building graph state" (document.toState m.inputWidths)
    pure (Product.text (graphText (← rounds m 0 steps state)))) = _
  rw [read]
  show (do
    let state ← inStep "building graph state" (document.toState m.inputWidths)
    pure (Product.text (graphText (← rounds m 0 steps state)))) = _
  rw [made]
  show (do pure (Product.text (graphText (← rounds m 0 steps start)))) = _
  cases rounds m 0 steps start <;> rfl

/-- What the command prints is the graph that the rounds end with. -/
theorem infers_of_evaluate {product : Product}
    (run : (Command.infer options graph steps).evaluate load = .ok product) :
    ∃ m start final, Infers load options graph steps m start final ∧
      product = .text (graphText final) := by
  obtain ⟨m, model, run⟩ := bind_eq_ok.1 run
  obtain ⟨document, decoded, run⟩ := bind_eq_ok.1 run
  obtain ⟨start, made, run⟩ := bind_eq_ok.1 run
  obtain ⟨final, rounds, run⟩ := bind_eq_ok.1 run
  obtain ⟨content, there, decoded⟩ := decodeFile_eq_ok.1 decoded
  cases run
  exact ⟨m, start, final, ⟨model, ⟨content, document, there, decoded, inStep_eq_ok.1 made⟩,
    rounds⟩, rfl⟩

/-- **What is printed is a graph iff all of its features are finite.**  The text is that of the
    state that the rounds end with.  If its features are finite, then the text is read as the
    document of this state, and this becomes the state again; else the text is refused. -/
theorem infer_printed (load : String → Loaded) (options : ModelOptions) (graph : String)
    (steps : Nat) (product : Product)
    (run : (Command.infer options graph steps).evaluate load = .ok product) :
    ∃ m start final, Infers load options graph steps m start final ∧
      product = .text (graphText final) ∧
      ((ofState final).Finite → GraphDocument.ofText? (graphText final) = some (ofState final) ∧
        (ofState final).toState final.widths = .ok final) ∧
      (¬ (ofState final).Finite → GraphDocument.ofText? (graphText final) = none) := by
  obtain ⟨m, start, final, infers, rfl⟩ := infers_of_evaluate run
  obtain ⟨content, document, -, decoded, made⟩ := infers.graph
  obtain ⟨d, p, -, -, compiled⟩ := compile_eq_ok.1 infers.model
  have begun : start.Counted := .of_toState (GraphDocument.counted_of_ofText? decoded) made
  have counted : final.Counted :=
    begun.of_rounds ⟨d, p, options.name, false, compiled⟩ infers.rounds
  obtain ⟨read, refused⟩ :=
    GraphDocument.ofText?_indented (d := ofState final) ⟨counted.senders, counted.receivers⟩
  exact ⟨m, start, final, infers, rfl, fun finite => ⟨read finite,
    (GraphDocument.toState_eq_ok counted.globals).2 ⟨rfl, rfl⟩⟩, refused⟩

/-! ## Runs of the self-loop -/

/-- The files of the self-loop, with the graph of a state. -/
def selfLoopFiles (s : State) : String → Loaded
  | "model" => .text Description.selfLoop.json.compact
  | "tensors" => .text Parameters.selfLoop.json.compact
  | "graph" => .text (ofState s).json.compact
  | _ => .absent

/-- One round of the self-loop. -/
def selfLoopRound (s : State) : Outcome State := do
  let m ← Description.selfLoop.compile .selfLoop none false
  (Component.model m).tryInfer s

theorem begins_selfLoop {s : State} {m : Model} (storable : (ofState s).Storable)
    (widths : s.widths = ⟨1, 1, 1⟩)
    (compiled : Description.selfLoop.compile .selfLoop none false = .ok m) :
    Begins (selfLoopFiles s) ⟨"model", "tensors", none⟩ "graph" .selfLoop .selfLoop m s := by
  have finite : Parameters.selfLoop.Finite := by
    unfold Parameters.Finite
    decide +kernel
  have reads : m.inputWidths = s.widths := (Model.inputWidths_eq compiled).trans widths.symm
  have narrow : s.widths.globals < limit := by
    rw [widths]
    decide
  exact ⟨⟨_, rfl, (Description.lossless Description.storable_selfLoop).ofText?⟩,
    ⟨_, rfl, (Parameters.lossless finite).ofText?⟩, compiled,
    _, _, rfl, (GraphDocument.lossless storable).ofText?,
    (GraphDocument.toState_eq_ok (reads ▸ narrow)).2 ⟨rfl, reads.symm⟩⟩

theorem evaluate_selfLoop {s t : State} (storable : (ofState s).Storable)
    (widths : s.widths = ⟨1, 1, 1⟩) (run : selfLoopRound s = .ok t) :
    (Command.infer ⟨"model", "tensors", none⟩ "graph" 1).evaluate (selfLoopFiles s) =
      .ok (.text (graphText t)) := by
  obtain ⟨m, compiled, run⟩ := Outcome.bind_eq_ok.1 run
  have once : rounds m 0 1 s = .ok t := bind_eq_ok.2 ⟨t, inStep_eq_ok.2 run, rfl⟩
  rw [(begins_selfLoop storable widths compiled).evaluate_eq, once]
  rfl

/-- How a round ends that can be computed. -/
theorem exists_of_decide {s : State} {P : GraphDocument → Prop} [DecidablePred P]
    (h : (selfLoopRound s).toOption.map (fun t => decide (P (ofState t))) = some true) :
    ∃ t, selfLoopRound s = .ok t ∧ P (ofState t) := by
  cases run : selfLoopRound s with
  | error e => simp [run, Except.toOption] at h
  | ok t => exact ⟨t, rfl, by simpa [run, Except.toOption] using h⟩

/-- From ones the self-loop prints a graph. -/
theorem infer_printed_selfLoop : ∃ final : State,
    (Command.infer ⟨"model", "tensors", none⟩ "graph" 1).evaluate (selfLoopFiles .selfLoop) =
      .ok (.text (graphText final)) ∧
    GraphDocument.ofText? (graphText final) = some (ofState final) ∧
    (ofState final).toState final.widths = .ok final := by
  obtain ⟨t, run, finite, counted⟩ := exists_of_decide (s := .selfLoop)
    (P := fun d => d.Finite ∧ d.Counted) (by decide +kernel)
  have evaluates := evaluate_selfLoop
    ⟨by decide, by decide, by decide, by decide, by decide⟩ rfl run
  obtain ⟨_, _, final, -, same, read, refused⟩ := infer_printed _ _ _ _ _ evaluates
  have text : graphText t = graphText final := Product.text.inj same
  have graph : (ofState final).Finite := by
    by_contra infinite
    have none := refused infinite
    rw [← text, graphText, (GraphDocument.ofText?_indented counted).1 finite] at none
    cases none
  exact ⟨final, text ▸ evaluates, read graph⟩

/-- The self-loop with the greatest features. -/
def greatest : State :=
  { State.selfLoop with
    nodes := ⟨1, 1, #[⟨0x7F7FFFFF⟩], rfl⟩
    edges := ⟨1, 1, #[⟨0x7F7FFFFF⟩], rfl⟩
    globals := ⟨1, 1, #[⟨0x7F7FFFFF⟩], rfl⟩ }

/-- **A run that prints no graph**: the sum of the greatest features is an infinity, which is
    printed as null. -/
theorem infer_overflow : ∃ final : State,
    (Command.infer ⟨"model", "tensors", none⟩ "graph" 1).evaluate (selfLoopFiles greatest) =
      .ok (.text (graphText final)) ∧
    GraphDocument.ofText? (graphText final) = none := by
  obtain ⟨t, run, infinite, counted⟩ := exists_of_decide (s := greatest)
    (P := fun d => ¬ d.Finite ∧ d.Counted) (by decide +kernel)
  have evaluates := evaluate_selfLoop
    ⟨by decide, by decide, by decide, by decide, by decide⟩ rfl run
  exact ⟨t, evaluates, (GraphDocument.ofText?_indented counted).2 infinite⟩

end CommandLine

end MessagePassing
