/-
  Message passing — the modules of a program that runs others.

  Members become modules.  A member whose name is taken is renamed after its position, and a
  position comes only once, so that the new name can be that of a member but not another
  renamed one.  `Clashes members` says that this happens.

  * `nodup_moduleNames`: module names are distinct iff no renamed member clashes;
  * `StackProgram.module?_of_mem`: under distinct names every name leads to its program;
  * `StackProgram.modules_of_members`: all names are valid, calls and modules are in the order
    of the members, and every call finds its member iff there is no clash;
  * `clashing_members`: members that clash.
-/
import MessagePassing.Proofs.Acceptance
import MessagePassing.Proofs.Identifiers
import Mathlib.Data.List.Induction

namespace MessagePassing

/-! ## Names with a position -/

/-- The module name of a member whose own name is taken. -/
def positioned (name : String) (position : Nat) : String := s!"{name}_{position}"

theorem toList_positioned (name : String) (position : Nat) :
    (positioned name position).toList = name.toList ++ '_' :: Nat.toDigits 10 position := by
  have written : positioned name position = name ++ "_" ++ position.repr := rfl
  rw [written, String.toList_append, String.toList_append, Nat.toList_repr, List.append_assoc]
  rfl

theorem isDigit_of_mem {c : Char} {n : Nat} (h : c ∈ Nat.toDigits 10 n) : c.isDigit :=
  Nat.isDigit_of_mem_toDigits (by decide) (by decide) h

theorem not_mem_digits {c : Char} (other : c.isDigit = false) (n : Nat) :
    c ∉ Nat.toDigits 10 n :=
  fun mem => by simpa [other] using isDigit_of_mem mem

theorem digits_inj {m n : Nat} (same : Nat.toDigits 10 m = Nat.toDigits 10 n) : m = n := by
  simpa using congrArg (fun ds => Nat.ofDigitChars 10 ds 0) same

/-- What follows the last separator is determined by the whole. -/
theorem suffix_eq {α : Type} {a : α} {l l' s s' : List α} (h : l ++ a :: s = l' ++ a :: s')
    (hs : a ∉ s) (hs' : a ∉ s') : s = s' := by
  rcases List.append_eq_append_iff.1 h with ⟨c, -, rest⟩ | ⟨c, -, rest⟩
  · cases c with
    | nil => exact (List.cons.inj rest).2
    | cons b c => exact absurd (by simp [(List.cons.inj rest).2]) hs
  · cases c with
    | nil => exact (List.cons.inj rest).2.symm
    | cons b c => exact absurd (by simp [(List.cons.inj rest).2]) hs'

theorem position_eq {a b : String} {i j : Nat} (h : positioned a i = positioned b j) : i = j := by
  have letters := congrArg String.toList h
  rw [toList_positioned, toList_positioned] at letters
  exact digits_inj (suffix_eq letters (not_mem_digits rfl i) (not_mem_digits rfl j))

theorem valid_positioned {name : String} (h : Identifier.Valid name) (position : Nat) :
    Identifier.Valid (positioned name position) := by
  have more : positioned name position = name ++ ("_" ++ toString position) :=
    String.append_assoc
  rw [more]
  refine h.append ?_ (by simp)
  intro c hc
  rw [String.toList_append, Nat.toString_eq_repr, Nat.toList_repr, List.mem_append] at hc
  rcases hc with hc | hc
  · exact .inr (by simpa using hc)
  · exact Identifier.isPlain_of_isDigit (isDigit_of_mem hc)

/-! ## Module names -/

variable {members : List Program}

/-- The module name of the next member. -/
def nextName (names : List String) (member : Program) (position : Nat) : String :=
  if names.contains member.name then positioned member.name position else member.name

theorem moduleNames_concat (members : List Program) (m : Program) :
    moduleNames (members ++ [m]) =
      moduleNames members ++ [nextName (moduleNames members) m members.length] := by
  simp only [moduleNames, List.zipIdx_append, List.foldl_append, List.zipIdx_cons,
    List.zipIdx_nil, List.foldl_cons, List.foldl_nil, Nat.zero_add]
  rfl

theorem length_moduleNames (members : List Program) :
    (moduleNames members).length = members.length := by
  induction members using List.reverseRecOn with
  | nil => rfl
  | append_singleton members m ih => simp [moduleNames_concat, ih]

/-- A module has the name of a member, with or without an earlier position. -/
theorem of_mem_moduleNames {name : String} (h : name ∈ moduleNames members) :
    ∃ m ∈ members, name = m.name ∨ ∃ i < members.length, name = positioned m.name i := by
  induction members using List.reverseRecOn with
  | nil => cases h
  | append_singleton members m ih =>
    rw [moduleNames_concat, List.mem_append, List.mem_singleton] at h
    rcases h with h | rfl
    · obtain ⟨n, hn, h⟩ := ih h
      refine ⟨n, List.mem_append_left _ hn, h.imp_right ?_⟩
      rintro ⟨i, hi, h⟩
      exact ⟨i, by simp; omega, h⟩
    · refine ⟨m, by simp, ?_⟩
      unfold nextName
      split
      · exact .inr ⟨members.length, by simp, rfl⟩
      · exact .inl rfl

/-- The name of a member is always the name of a module, its own or one before it. -/
theorem name_mem_moduleNames {m : Program} (h : m ∈ members) : m.name ∈ moduleNames members := by
  induction members using List.reverseRecOn with
  | nil => cases h
  | append_singleton members n ih =>
    rw [moduleNames_concat, List.mem_append, List.mem_singleton]
    rcases List.mem_append.1 h with h | h
    · exact .inl (ih h)
    · obtain rfl := List.mem_singleton.1 h
      by_cases taken : m.name ∈ moduleNames members
      · exact .inl taken
      · exact .inr (by simp [nextName, taken])

/-- No module is named after the next position unless a member is. -/
theorem positioned_mem_moduleNames {name : String} :
    positioned name members.length ∈ moduleNames members ↔
      ∃ m ∈ members, m.name = positioned name members.length := by
  constructor
  · intro h
    obtain ⟨m, hm, same | ⟨i, hi, same⟩⟩ := of_mem_moduleNames h
    · exact ⟨m, hm, same.symm⟩
    -- a member renamed before had an earlier position
    · have := position_eq same
      omega
  · rintro ⟨m, hm, same⟩
    rw [← same]
    exact name_mem_moduleNames hm

/-- The name of some member is taken, and its name with its position is that of an earlier
    member. -/
def Clashes (members : List Program) : Prop :=
  ∃ before m after, members = before ++ m :: after ∧ m.name ∈ moduleNames before ∧
    ∃ e ∈ before, e.name = positioned m.name before.length

theorem not_clashes_nil : ¬ Clashes [] := by
  rintro ⟨before, m, after, none, -⟩
  simp at none

theorem clashes_concat {m : Program} : Clashes (members ++ [m]) ↔ Clashes members ∨
    m.name ∈ moduleNames members ∧ ∃ e ∈ members, e.name = positioned m.name members.length := by
  constructor
  · rintro ⟨before, n, after, same, taken, other⟩
    rcases List.eq_nil_or_concat after with rfl | ⟨after, last, rfl⟩
    · obtain ⟨rfl, last⟩ := List.append_inj' same rfl
      cases last
      exact .inr ⟨taken, other⟩
    · rw [List.concat_eq_append, ← List.cons_append, ← List.append_assoc] at same
      obtain ⟨rfl, -⟩ := List.append_inj' same rfl
      exact .inl ⟨before, n, after, rfl, taken, other⟩
  · rintro (⟨before, n, after, rfl, taken, other⟩ | ⟨taken, other⟩)
    · exact ⟨before, n, after ++ [m], by simp, taken, other⟩
    · exact ⟨members, m, [], rfl, taken, other⟩

theorem nextName_mem {m : Program} :
    nextName (moduleNames members) m members.length ∈ moduleNames members ↔
      m.name ∈ moduleNames members ∧
        ∃ e ∈ members, e.name = positioned m.name members.length := by
  rw [← positioned_mem_moduleNames]
  by_cases taken : m.name ∈ moduleNames members
  · simp [nextName, taken]
  · simp [nextName, taken]

/-- **Module names are distinct iff no renamed member clashes.** -/
theorem nodup_moduleNames : (moduleNames members).Nodup ↔ ¬ Clashes members := by
  induction members using List.reverseRecOn with
  | nil =>
    have empty : (moduleNames []).Nodup := List.nodup_nil
    simp [empty, not_clashes_nil]
  | append_singleton members m ih =>
    -- the last name is the only new one, and it is there already iff the last member clashes
    rw [moduleNames_concat, clashes_concat, not_or, ← ih, ← nextName_mem, List.nodup_append]
    constructor
    · rintro ⟨distinct, -, apart⟩
      exact ⟨distinct, fun mem => apart _ mem _ List.mem_cons_self rfl⟩
    · rintro ⟨distinct, new⟩
      refine ⟨distinct, by simp, ?_⟩
      rintro a ha b hb rfl
      obtain rfl := List.mem_singleton.1 hb
      exact new ha

theorem valid_moduleNames (valid : ∀ m ∈ members, Identifier.Valid m.name) {name : String}
    (h : name ∈ moduleNames members) : Identifier.Valid name := by
  obtain ⟨m, hm, rfl | ⟨i, -, rfl⟩⟩ := of_mem_moduleNames h
  · exact valid m hm
  · exact valid_positioned (valid m hm) i

/-! ## Modules -/

namespace StackProgram

/-- The program of the only module of this name. -/
def module? (p : StackProgram) (name : String) : Option Program :=
  match p.members.filter (·.1 = name) with
  | [m] => some m.2
  | _ => none

/-- The call of a module. -/
def call (name : String) : Code :=
  .line s!"self::{name}::infer(node_data, edge_data, global_data);"

/-- A module with the code of a member. -/
def moduleCode (m : String × Program) : Code := .block s!"pub mod {m.1}" m.2.code

theorem code_eq (p : StackProgram) :
    p.code = Program.header p.name "stack" ++
      Program.entryPoint "Runs every member model in order."
        (p.members.map fun m => call m.1) ++ p.members.map moduleCode := rfl

theorem filter_eq_singleton {l : List (String × Program)} {m : String × Program} (hm : m ∈ l)
    (distinct : (l.map Prod.fst).Nodup) : l.filter (·.1 = m.1) = [m] := by
  induction l with
  | nil => cases hm
  | cons n rest ih =>
    rw [List.map_cons, List.nodup_cons, List.mem_map] at distinct
    obtain ⟨new, distinct⟩ := distinct
    rcases List.mem_cons.1 hm with rfl | hm
    · rw [List.filter_cons_of_pos (by simp), List.filter_eq_nil_iff.2]
      intro n hn
      simpa using fun same => new ⟨n, hn, same⟩
    · rw [List.filter_cons_of_neg, ih hm distinct]
      simpa using fun same => new ⟨m, hm, same.symm⟩

theorem module?_of_mem {p : StackProgram} {m : String × Program} (hm : m ∈ p.members)
    (distinct : (p.members.map Prod.fst).Nodup) : p.module? m.1 = some m.2 := by
  rw [module?, filter_eq_singleton hm distinct]

theorem names_ofMembers (name : String) (members : List Program) :
    (ofMembers name members).members.map Prod.fst = moduleNames members :=
  List.map_fst_zip (Nat.le_of_eq (length_moduleNames members))

theorem programs_ofMembers (name : String) (members : List Program) :
    (ofMembers name members).members.map Prod.snd = members :=
  List.map_snd_zip (Nat.le_of_eq (length_moduleNames members).symm)

/-- The module of a member is at the position of the member. -/
theorem getElem?_ofMembers (name : String) {members : List Program} {i : Nat} {q : Program}
    (h : members[i]? = some q) :
    ∃ module, (ofMembers name members).members[i]? = some (module, q) := by
  have there : ((ofMembers name members).members.map Prod.snd)[i]? = some q := by
    rw [programs_ofMembers, h]
  rw [List.getElem?_map, Option.map_eq_some_iff] at there
  obtain ⟨⟨module, _⟩, hm, rfl⟩ := there
  exact ⟨module, hm⟩

/-- **The modules of a stack's program.**  Their names are valid; calls and modules are in the
    order of the members, each module with the code of its member; and the names are distinct
    iff no renamed member clashes, in which case every call leads to its member. -/
theorem modules_of_members (name : String) (members : List Program)
    (compiled : ∀ q ∈ members, q.Compiled) :
    let stack := ofMembers name members
    (∀ m ∈ stack.members, Identifier.Valid m.1) ∧
      ((stack.members.map Prod.fst).Nodup ↔ ¬ Clashes members) ∧
      ∃ calls modules : List Code, stack.code = Program.header name "stack" ++
          Program.entryPoint "Runs every member model in order." calls ++ modules ∧
        calls.length = members.length ∧ modules.length = members.length ∧
        ∀ (i : Nat) (q : Program), members[i]? = some q → ∃ module, calls[i]? = some (call module) ∧
          modules[i]? = some (moduleCode (module, q)) ∧
          (¬ Clashes members → stack.module? module = some q) := by
  intro stack
  have valid : ∀ q ∈ members, Identifier.Valid q.name := by
    intro q hq
    obtain ⟨text, same⟩ := (compiled q hq).exists_name
    rw [same]
    exact Identifier.valid_ofName text
  have names : stack.members.map Prod.fst = moduleNames members := names_ofMembers name members
  have code := code_eq stack
  have size : stack.members.length = members.length := by
    rw [← length_moduleNames members, ← names, List.length_map]
  have distinct : (stack.members.map Prod.fst).Nodup ↔ ¬ Clashes members := by
    rw [names]
    exact nodup_moduleNames
  refine ⟨?_, distinct, stack.members.map fun m => call m.1, stack.members.map moduleCode,
    ?_, ?_, ?_, ?_⟩
  · intro m hm
    apply valid_moduleNames valid
    rw [← names]
    exact List.mem_map_of_mem hm
  · exact code
  · rw [List.length_map, size]
  · rw [List.length_map, size]
  · intro i q hq
    obtain ⟨module, hm⟩ := getElem?_ofMembers name hq
    refine ⟨module, ?_, ?_, fun apart => ?_⟩
    · rw [List.getElem?_map, hm, Option.map_some]
    · rw [List.getElem?_map, hm, Option.map_some]
    · exact module?_of_mem (List.mem_of_getElem? hm) (distinct.2 apart)

/-! ## Members of one name -/

theorem exists_compiled_as (name : String) :
    ∃ q : Program, q.Compiled ∧ q.name = Identifier.ofName name := by
  obtain ⟨m, hm⟩ := compile_selfLoop_as (some name) true
  obtain ⟨named, -, program⟩ := Description.compile_eq_ok hm
  refine ⟨_, ⟨m, ⟨_, _, _, _, hm⟩, program⟩, ?_⟩
  rw [Description.program_name, named]
  rfl

theorem modules_of_repeated : ∃ q : Program, q.Compiled ∧
    (∀ m ∈ (ofMembers "pile" [q, q, q]).members, Identifier.Valid m.1) ∧
    ((ofMembers "pile" [q, q, q]).members.map Prod.fst).Nodup := by
  obtain ⟨q, compiled, named⟩ := exists_compiled_as "a"
  have all : ∀ r ∈ [q, q, q], r.Compiled := by simp [compiled]
  obtain ⟨valid, distinct, -⟩ := modules_of_members "pile" [q, q, q] all
  have plain : q.name = "a" := named.trans (by decide)
  have names : moduleNames [q, q, q] = ["a", "a_1", "a_2"] := by
    simp only [moduleNames, List.zipIdx_cons, List.zipIdx_nil, List.foldl_cons, List.foldl_nil,
      plain]
    decide
  have apart : ¬ Clashes [q, q, q] := by
    rw [← nodup_moduleNames, names]
    decide
  exact ⟨q, compiled, valid, distinct.2 apart⟩

/-- **Names can clash**: the third of these members is renamed to the name of the first. -/
theorem clashing_members : ∃ members : List Program, members ≠ [] ∧
    (∀ q ∈ members, q.Compiled) ∧
    (ofMembers "pile" members).members.map Prod.fst = ["a_2", "a", "a_2"] := by
  obtain ⟨q, hq, named⟩ := exists_compiled_as "a_2"
  obtain ⟨r, hr, other⟩ := exists_compiled_as "a"
  refine ⟨[q, r, r], by simp, by simp [hq, hr], ?_⟩
  have first : q.name = "a_2" := named.trans (by decide)
  have second : r.name = "a" := other.trans (by decide)
  rw [names_ofMembers]
  simp only [moduleNames, List.zipIdx_cons, List.zipIdx_nil, List.foldl_cons, List.foldl_nil,
    first, second]
  decide

end StackProgram

end MessagePassing
