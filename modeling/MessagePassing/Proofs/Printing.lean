/-
  Message passing — printing meets only what can be printed.

  A printer may fail at scalars that are not finite and at texts that are no identifiers.
  The programs of compiled models and stacks ask for neither, because binding has let only
  finite tensors through, and names have been made identifiers before.  So it does not
  matter for compiling whether the program is written as well.

  * `Program.print_eq`, `StackProgram.print_eq`: what a program asks of a printer, and that
    nothing else is needed;
  * `Program.identifiers_valid`: the names in a program are valid;
  * `Printer.Lawful.emission`: with and without its program a model compiles alike, and the
    programs of all stacks can be written.
-/
import MessagePassing.Program.Printing
import MessagePassing.Proofs.Overflow
import MessagePassing.Proofs.ProgramTexts
import MessagePassing.Proofs.Stacks

namespace MessagePassing

open Code

/-! ## What a program asks of a printer -/

/-- The weights, then the biases. -/
def Dense.scalars (d : Dense) : List Scalar := d.weight.toList ++ d.bias.toList

namespace Program

/-- The names of an update function and of the constants of its layers. -/
def updateNames (name label : String) (P : Perceptron) : List String :=
  name :: (List.range P.layers.length).flatMap fun i => [s!"{label}_W{i}", s!"{label}_B{i}"]

/-- The texts that become identifiers. -/
def identifiers (p : Program) : List String :=
  updateNames "edge_update" "EDGE_UPDATE" p.updates.edge ++
    (updateNames "node_update" "NODE_UPDATE" p.updates.node ++
      updateNames "global_update" "GLOBAL_UPDATE" p.updates.global)

/-- The scalars that become literals. -/
def constants (p : Program) : List Scalar :=
  p.updates.toList.flatMap fun P => P.layers.flatMap Dense.scalars

end Program

namespace Printer

variable {w : Printer}

theorem scalarsConstant_eq (name : String) {values : Array Scalar}
    (scalars : ∀ x ∈ values, w.scalar x = .ok (Program.scalarText x)) :
    w.scalarsConstant name values = .ok (Program.scalarsConstant name values) := by
  have items : values.toList.mapM w.scalar = .ok (values.toList.map Program.scalarText) :=
    Outcome.mapM_eq_ok (by simpa using scalars)
  rw [scalarsConstant, items]
  rfl

theorem layer_eq (p : Perceptron) {label : String} {d : Dense} {i : Nat}
    (scalars : ∀ x ∈ d.scalars, w.scalar x = .ok (Program.scalarText x))
    (weight : w.name s!"{label}_W{i}" = .ok s!"{label}_W{i}")
    (bias : w.name s!"{label}_B{i}" = .ok s!"{label}_B{i}") :
    w.layer p label d i =
      .ok (Program.layerConstants label i d, Program.layerStep p label i d) := by
  obtain ⟨weights, biases⟩ := List.forall_mem_append.1 scalars
  rw [layer, weight, bias, Outcome.ok_bind, Outcome.ok_bind,
    scalarsConstant_eq _ (by simpa using weights), scalarsConstant_eq _ (by simpa using biases)]
  simp only [Outcome.ok_bind, Program.layerConstants, Program.layerStep]
  refine congrArg (fun text => Except.ok (_, line text :: _)) ?_
  simp only [toString, String.append_assoc]

theorem updateFunction_eq {name label : String} (called : capitals name = label)
    {p : Perceptron}
    (scalars : ∀ d ∈ p.layers, ∀ x ∈ d.scalars, w.scalar x = .ok (Program.scalarText x))
    (names : ∀ n ∈ Program.updateNames name label p, w.name n = .ok n) :
    w.updateFunction name p = .ok (Program.updateFunction name label p) := by
  have layers : ∀ e ∈ p.layers.zipIdx, w.layer p label e.1 e.2 =
      .ok (Program.layerConstants label e.2 e.1, Program.layerStep p label e.2 e.1) := by
    rintro ⟨d, i⟩ he
    obtain ⟨hi, hd⟩ := List.mem_zipIdx' he
    have listed (n : String) (hn : n ∈ [s!"{label}_W{i}", s!"{label}_B{i}"]) :
        w.name n = .ok n :=
      names n (List.mem_cons_of_mem _ (List.mem_flatMap.2 ⟨i, List.mem_range.2 hi, hn⟩))
    exact layer_eq p (scalars d (hd ▸ List.getElem_mem hi)) (listed _ (by simp))
      (listed _ (by simp))
  rw [updateFunction, names name List.mem_cons_self, Outcome.ok_bind, called,
    Outcome.mapM_eq_ok layers, Outcome.ok_bind, Program.updateFunction]
  simp only [List.flatMap_map]
  rfl

end Printer

namespace Program

variable {w : Printer} {p : Program}

/-- **A program needs nothing else of a printer** than its scalars and its identifiers. -/
theorem print_eq (scalars : ∀ x ∈ p.constants, w.scalar x = .ok (scalarText x))
    (names : ∀ n ∈ p.identifiers, w.name n = .ok n) : p.print w = .ok p.code := by
  have layers : ∀ P ∈ p.updates.toList, ∀ d ∈ P.layers, ∀ x ∈ d.scalars,
      w.scalar x = .ok (scalarText x) := fun P hP d hd x hx =>
    scalars x (List.mem_flatMap.2 ⟨P, hP, List.mem_flatMap.2 ⟨d, hd, hx⟩⟩)
  simp only [PerUpdate.toList, List.forall_mem_cons] at layers
  rw [identifiers, List.forall_mem_append, List.forall_mem_append] at names
  rw [print, Printer.updateFunction_eq (by decide) layers.1 names.1, Outcome.ok_bind,
    Printer.updateFunction_eq (by decide) layers.2.1 names.2.1, Outcome.ok_bind,
    Printer.updateFunction_eq (by decide) layers.2.2.1 names.2.2, Outcome.ok_bind]
  rfl

end Program

namespace Printer

variable {w : Printer}

theorem scalar_of_updateFunction {name : String} {P : Perceptron} {code : List Code}
    (h : w.updateFunction name P = .ok code) :
    ∀ d ∈ P.layers, ∀ x ∈ d.scalars, ∃ text, w.scalar x = .ok text := by
  obtain ⟨_, -, h⟩ := Outcome.bind_eq_ok.1 h
  obtain ⟨layers, each, -⟩ := Outcome.bind_eq_ok.1 h
  intro d hd x hx
  obtain ⟨i, hi⟩ := List.getElem?_of_mem hd
  have listed : (d, i) ∈ P.layers.zipIdx := List.mem_zipIdx_iff_getElem?.2 hi
  obtain ⟨_, hlayer⟩ := Outcome.exists_of_mapM each listed
  obtain ⟨_, -, hlayer⟩ := Outcome.bind_eq_ok.1 hlayer
  obtain ⟨_, -, hlayer⟩ := Outcome.bind_eq_ok.1 hlayer
  obtain ⟨_, weights, hlayer⟩ := Outcome.bind_eq_ok.1 hlayer
  obtain ⟨_, biases, -⟩ := Outcome.bind_eq_ok.1 hlayer
  obtain ⟨_, weights, -⟩ := Outcome.bind_eq_ok.1 weights
  obtain ⟨_, biases, -⟩ := Outcome.bind_eq_ok.1 biases
  rcases List.mem_append.1 hx with hx | hx
  · exact Outcome.exists_of_mapM weights hx
  · exact Outcome.exists_of_mapM biases hx

end Printer

namespace Program

variable {w : Printer} {p : Program}

/-- A printer that writes a program writes each of its scalars. -/
theorem scalar_of_print {code : List Code} (h : p.print w = .ok code) :
    ∀ x ∈ p.constants, ∃ text, w.scalar x = .ok text := by
  obtain ⟨_, edge, h⟩ := Outcome.bind_eq_ok.1 h
  obtain ⟨_, node, h⟩ := Outcome.bind_eq_ok.1 h
  obtain ⟨_, global, -⟩ := Outcome.bind_eq_ok.1 h
  have layers : ∀ P ∈ p.updates.toList, ∀ d ∈ P.layers, ∀ x ∈ d.scalars,
      ∃ text, w.scalar x = .ok text := by
    simp only [PerUpdate.toList, List.forall_mem_cons]
    exact ⟨Printer.scalar_of_updateFunction edge, Printer.scalar_of_updateFunction node,
      Printer.scalar_of_updateFunction global, by simp⟩
  intro x hx
  obtain ⟨P, hP, hx⟩ := List.mem_flatMap.1 hx
  obtain ⟨d, hd, hx⟩ := List.mem_flatMap.1 hx
  exact layers P hP d hd x hx

theorem finite_constants : (∀ x ∈ p.constants, x.isFinite = true) ↔ p.updates.Finite := by
  simp only [constants, List.forall_mem_flatMap, Dense.scalars, List.forall_mem_append,
    Array.mem_toList_iff]
  rfl

end Program

namespace StackProgram

variable {w : Printer} {q : StackProgram}

theorem print_eq (names : ∀ m ∈ q.members, w.name m.1 = .ok m.1) :
    q.print w = .ok q.code := by
  rw [print, Outcome.mapM_eq_ok names, Outcome.ok_bind, List.map_map]
  rfl

end StackProgram

/-! ## Identifiers -/

namespace Identifier

/-- A text that is an identifier letter by letter: plain characters, no digit first. -/
structure Lexical (name : String) : Prop where
  nonempty : name.toList ≠ []
  head : ¬ name.toList.head?.any Char.isDigit
  plain : ∀ c ∈ name.toList, IsPlain c

instance (name : String) : Decidable (Lexical name) :=
  decidable_of_iff (name.toList ≠ [] ∧ (¬ name.toList.head?.any Char.isDigit) ∧
      ∀ c ∈ name.toList, IsPlain c)
    ⟨fun ⟨nonempty, head, plain⟩ => ⟨nonempty, head, plain⟩,
      fun h => ⟨h.nonempty, h.head, h.plain⟩⟩

theorem Valid.lexical {name : String} (h : Valid name) : Lexical name := by
  obtain ⟨c, mem, -⟩ := h.word.letter
  exact ⟨List.ne_nil_of_mem mem, h.word.head, h.word.plain⟩

end Identifier

namespace Program

open Identifier (Valid)

/-- A constant of a layer is called after its update function. -/
theorem valid_layerName {label : String} (word : Identifier.Word label.toList) (kind : String)
    (plain : ∀ c ∈ kind.toList, Identifier.IsPlain c) (mark : '_' ∈ kind.toList) (i : Nat) :
    Valid (label ++ kind ++ toString i) := by
  rw [String.append_assoc]
  refine word.valid_append ?_ ?_
  · rw [String.toList_append]
    refine List.forall_mem_append.2 ⟨plain, fun c hc => ?_⟩
    rw [Nat.toString_eq_repr, Nat.toList_repr] at hc
    exact Identifier.isPlain_of_isDigit (isDigit_of_mem hc)
  · rw [String.toList_append]
    exact List.mem_append_left _ mark

theorem valid_updateNames {name label : String} (valid : Valid name)
    (word : Identifier.Word label.toList) (P : Perceptron) :
    ∀ n ∈ updateNames name label P, Valid n := by
  refine List.forall_mem_cons.2 ⟨valid, fun n hn => ?_⟩
  obtain ⟨i, -, hn⟩ := List.mem_flatMap.1 hn
  simp only [List.mem_cons, List.not_mem_nil, or_false] at hn
  rcases hn with rfl | rfl
  · exact valid_layerName word "_W" (by simp [Identifier.IsPlain]) (by simp) i
  · exact valid_layerName word "_B" (by simp [Identifier.IsPlain]) (by simp) i

/-- **Every name in a program is valid.** -/
theorem identifiers_valid (p : Program) : ∀ n ∈ p.identifiers, Valid n := by
  rw [identifiers, List.forall_mem_append, List.forall_mem_append]
  refine ⟨valid_updateNames ⟨?_, by decide⟩ ?_ _, valid_updateNames ⟨?_, by decide⟩ ?_ _,
    valid_updateNames ⟨?_, by decide⟩ ?_ _⟩
  · exact ⟨by simp [Identifier.IsPlain], by simp, 'e', by simp⟩
  · exact ⟨by simp [Identifier.IsPlain], by simp, 'E', by simp⟩
  · exact ⟨by simp [Identifier.IsPlain], by simp, 'n', by simp⟩
  · exact ⟨by simp [Identifier.IsPlain], by simp, 'N', by simp⟩
  · exact ⟨by simp [Identifier.IsPlain], by simp, 'g', by simp⟩
  · exact ⟨by simp [Identifier.IsPlain], by simp, 'G', by simp⟩

end Program

/-! ## Printers of the library -/

namespace Printer

/-- What is known of the two steps: scalars have literals exactly if they are finite, and
    texts of ASCII letters are identifiers exactly if they look like it.  Texts with other
    characters, and with the mark of raw identifiers, are left open. -/
structure Lawful (w : Printer) : Prop where
  scalar : ∀ x, x.isFinite = true → w.scalar x = .ok (Program.scalarText x)
  finite : ∀ x text, w.scalar x = .ok text → x.isFinite = true
  name : ∀ n, Identifier.Lexical n → w.name n = .ok n
  lexical : ∀ n text, (∀ c ∈ n.toList, c.toNat < 128 ∧ c ≠ '#') → w.name n = .ok text →
    Identifier.Lexical n

variable {w : Printer}

/-- A program can be written exactly if its weights and biases are finite. -/
theorem Lawful.print_iff (lawful : w.Lawful) (p : Program) :
    ((∃ code, p.print w = .ok code) ↔ p.updates.Finite) ∧
      (p.updates.Finite → p.print w = .ok p.code) := by
  have writes (finite : p.updates.Finite) : p.print w = .ok p.code :=
    Program.print_eq
      (fun x hx => lawful.scalar x (Program.finite_constants.2 finite x hx))
      (fun n hn => lawful.name n (p.identifiers_valid n hn).lexical)
  refine ⟨⟨?_, fun finite => ⟨_, writes finite⟩⟩, writes⟩
  rintro ⟨code, printed⟩
  refine Program.finite_constants.1 fun x hx => ?_
  obtain ⟨text, hx⟩ := Program.scalar_of_print printed x hx
  exact lawful.finite x text hx

end Printer

namespace Description

variable {w : Printer} {d : Description} {p : Parameters} {rename : Option String}

theorem updates_program (name : String) (b : Block) :
    (d.program name b).updates = b.updates := by
  cases b <;> rfl

/-- Two models that differ in their programs only, where `m` has one that can be written. -/
structure Emits (w : Printer) (d : Description) (p : Parameters) (rename : Option String)
    (m bare : Model) (q : Program) : Prop where
  written : d.emit w p rename true = .ok (m, some q.text)
  unwritten : d.emit w p rename false = .ok (bare, none)
  name : m.name = bare.name
  block : m.block = bare.block
  program : m.program = some q
  finite : ∀ x ∈ q.constants, x.isFinite = true
  valid : ∀ n ∈ q.identifiers, Identifier.Valid n

/-- Compiling with and without the program differs in the program only. -/
theorem compile_cases (d : Description) (p : Parameters) (rename : Option String) :
    (∃ f, d.compile p rename true = .error f ∧ d.compile p rename false = .error f) ∨
      ∃ (name : String) (b : Block),
        d.compile p rename true = .ok ⟨name, b, some (d.program name b)⟩ ∧
          d.compile p rename false = .ok ⟨name, b, none⟩ := by
  simp only [compile]
  generalize Identifier.ofName (rename.getD d.name) = name
  cases d.block name p with
  | error f => exact .inl ⟨f, rfl, rfl⟩
  | ok b => exact .inr ⟨name, b, rfl, rfl⟩

/-- **Writing the program does not change how compiling ends.** -/
theorem emit_cases (lawful : w.Lawful) (d : Description) (p : Parameters)
    (rename : Option String) :
    (∃ f, d.emit w p rename true = .error f ∧ d.emit w p rename false = .error f ∧
        d.compile p rename true = .error f) ∨
      ∃ m bare q, d.Emits w p rename m bare q := by
  rcases d.compile_cases p rename with ⟨f, failed, failed'⟩ | ⟨name, b, compiled, compiled'⟩
  · refine .inl ⟨f, ?_, ?_, failed⟩
    · rw [emit, failed, Outcome.error_bind]
    · rw [emit, failed', Outcome.error_bind]
  · have finite : (d.program name b).updates.Finite := by
      rw [updates_program]
      exact finite_of_compile compiled
    refine .inr ⟨⟨name, b, some (d.program name b)⟩, ⟨name, b, none⟩, d.program name b, ?_, ?_,
      rfl, rfl, rfl, Program.finite_constants.2 finite, Program.identifiers_valid _⟩
    · rw [emit, compiled, Outcome.ok_bind]
      simp only [(lawful.print_iff _).2 finite, Outcome.ok_bind]
      rfl
    · rw [emit, compiled', Outcome.ok_bind]
      rfl

end Description

/-! ## Programs of stacks -/

theorem Program.Compiled.finite {q : Program} (h : q.Compiled) : q.updates.Finite := by
  obtain ⟨m, ⟨d, compiled⟩, hq⟩ := h
  obtain ⟨⟨p, rename, run⟩, rfl⟩ := compiled.program_eq hq
  rw [Description.updates_program]
  exact Description.finite_of_compile run

/-- **The program of a stack of compiled models can be written**, and so could its members. -/
theorem Stack.Reachable.print_program {w : Printer} {s : Stack} (built : s.Reachable)
    (lawful : w.Lawful) {q : StackProgram} (emitted : s.program = some q) :
    q.print w = .ok q.code ∧
      ∀ m ∈ q.members, Identifier.Valid m.1 ∧ m.2.print w = .ok m.2.code := by
  obtain ⟨programs, members, rfl⟩ := program_eq_some emitted
  have compiled : ∀ q ∈ programs, q.Compiled := by
    intro q hq
    obtain ⟨i, hi, rfl⟩ := List.getElem_of_mem hq
    have each := forall₂_of_mapM members
    have hm : i < s.models.length := each.length_eq ▸ hi
    exact ⟨s.models[i], built.compiled _ (List.getElem_mem hm), each.get hm hi⟩
  have valid : ∀ m ∈ (StackProgram.ofMembers (Identifier.ofName s.name) programs).members,
      Identifier.Valid m.1 := by
    intro m hm
    refine valid_moduleNames (fun q hq => ?_) (?_ : m.1 ∈ moduleNames programs)
    · obtain ⟨text, same⟩ := (compiled q hq).exists_name
      rw [same]
      exact Identifier.valid_ofName text
    · rw [← StackProgram.names_ofMembers (Identifier.ofName s.name) programs]
      exact List.mem_map_of_mem hm
  refine ⟨StackProgram.print_eq fun m hm => lawful.name _ (valid m hm).lexical,
    fun m hm => ⟨valid m hm, ?_⟩⟩
  have listed : m.2 ∈ programs := by
    rw [← StackProgram.programs_ofMembers (Identifier.ofName s.name) programs]
    exact List.mem_map_of_mem hm
  exact (lawful.print_iff m.2).2 (compiled m.2 listed).finite

/-! ## Writing programs -/

/-- **Writing programs never changes an outcome.**  For every printer of which the laws are
    known:

    * a description whose counts do not overflow is refused with the same error with and
      without its program, or compiles both ways under the same name and to the same block;
      then the text is that of the program, whose weights and biases are finite and whose
      names are valid identifiers;
    * the program of every stack of compiled models can be written, and its modules have
      valid names. -/
theorem Printer.Lawful.emission {w : Printer} (lawful : w.Lawful) :
    (∀ (d : Description) (p : Parameters) (rename : Option String), ¬ d.Overflows p →
      (∃ e, d.emit w p rename true = .error (.refused e) ∧
          d.emit w p rename false = .error (.refused e)) ∨
        ∃ m bare q, d.Emits w p rename m bare q) ∧
      ∀ s : Stack, s.Reachable → ∀ q, s.program = some q →
        q.print w = .ok q.code ∧
          ∀ m ∈ q.members, Identifier.Valid m.1 ∧ m.2.print w = .ok m.2.code := by
  refine ⟨fun d p rename inside => ?_, fun s built q emitted => built.print_program lawful emitted⟩
  rcases Description.emit_cases lawful d p rename with ⟨f, failed, failed', cause⟩ | emits
  · rcases (d.compile_settled p rename true).answers_iff.2 inside with ⟨m, compiled⟩ | ⟨e, refused⟩
    · rw [compiled] at cause
      cases cause
    · cases cause.symm.trans refused
      exact .inl ⟨e, failed, failed'⟩
  · exact .inr emits

/-- A printer that fails exactly where it must. -/
def Printer.strict : Printer where
  scalar x := if x.isFinite then .ok (Program.scalarText x) else .error (.fault .outOfRange)
  name n := if Identifier.Lexical n then .ok n else .error (.fault .outOfRange)

theorem Printer.lawful_strict : strict.Lawful where
  scalar x finite := if_pos finite
  finite x text written := by
    by_contra infinite
    have failed : strict.scalar x = .error (.fault .outOfRange) := if_neg infinite
    cases failed.symm.trans written
  name n lexical := if_pos lexical
  lexical n text _ written := by
    by_contra other
    have failed : strict.name n = .error (.fault .outOfRange) := if_neg other
    cases failed.symm.trans written

/-- The self-loop, and the stack of two of them. -/
theorem Printer.emission_selfLoop : strict.Lawful ∧ ¬ Description.selfLoop.Overflows .selfLoop ∧
    (∃ m bare q, Description.selfLoop.Emits strict .selfLoop (some "loop") m bare q) ∧
    ∃ (s : Stack) (q : StackProgram), s.Reachable ∧ s.models.length = 2 ∧
      s.program = some q ∧ q.print strict = .ok q.code := by
  have inside := Description.not_overflows_of_fits fits_selfLoop .selfLoop
  obtain ⟨emits, prints⟩ := Printer.Lawful.emission lawful_strict
  refine ⟨lawful_strict, inside, ?_, ?_⟩
  · rcases emits .selfLoop .selfLoop (some "loop") inside with ⟨e, -, refused⟩ | emits
    · obtain ⟨m, compiled⟩ := compile_selfLoop_as (some "loop") false
      obtain ⟨-, -, program⟩ := Description.compile_eq_ok compiled
      simp [Description.emit, compiled, program, pure, Except.pure] at refused
    · exact emits
  · obtain ⟨m, compiled⟩ := compile_selfLoop
    obtain ⟨-, -, program⟩ := Description.compile_eq_ok compiled
    have loop : m.Compiled := ⟨_, _, _, _, compiled⟩
    have built := Stack.reachable_pair loop loop
      ((Model.outputWidths_eq compiled).trans (Model.inputWidths_eq compiled).symm)
    have emitted := Stack.program_pair program program
    exact ⟨_, _, built, rfl, emitted, (prints _ built _ emitted).1⟩

end MessagePassing
