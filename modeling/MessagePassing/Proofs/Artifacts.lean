/-
  Message passing — where programs are written.

  The name of a program is a valid identifier, whatever text it was made from.  So its file is
  one step along a path, and writing it into a folder puts it right below this folder.

  * `FileTree.resolve_join`: the path of a name in a folder leads one step further than that of
    the folder;
  * `FileTree.write_join`: what is written there is the only change;
  * `CommandLine.store_eq_success`: so for a program that is stored;
  * `Identifier.ofName_safe`: names of programs are safe, and stay as they are.
-/
import MessagePassing.CommandLine.Run
import MessagePassing.Proofs.Stacks

namespace MessagePassing

namespace CommandLine

/-! ## Entries -/

namespace Entry

/-- What putting an entry below a folder changes: the one entry on the way. -/
theorem put_cons {entries : List (String × Entry)} {name : String} {rest : List String}
    {other after : Entry} (h : (folder entries).put (name :: rest) other = some after) :
    ∃ changed, after = folder (withNamed name changed entries) ∧
      (rest = [] ∧ changed = other ∨
        ∃ child, entries.lookup name = some child ∧ child.put rest other = some changed) := by
  cases rest with
  | nil =>
    cases h
    exact ⟨other, rfl, .inl ⟨rfl, rfl⟩⟩
  | cons next more =>
    obtain ⟨child, found, h⟩ := Option.bind_eq_some_iff.1 h
    obtain ⟨changed, put, h⟩ := Option.bind_eq_some_iff.1 h
    cases h
    exact ⟨changed, rfl, .inr ⟨child, found, put⟩⟩

/-- There is room for a name in every folder. -/
theorem exists_put {e : Entry} {place : List String} {entries : List (String × Entry)}
    (there : e.at? place = some (folder entries)) (name : String) (other : Entry) :
    ∃ after, e.put (place ++ [name]) other = some after := by
  induction place generalizing e with
  | nil =>
    cases there
    exact ⟨_, rfl⟩
  | cons first rest ih =>
    cases e with
    | file content => cases there
    | folder others =>
      obtain ⟨child, found, below⟩ := Option.bind_eq_some_iff.1 there
      obtain ⟨changed, put⟩ := ih below
      -- the way has at least one more step, which decides how the folder is changed
      cases rest <;> exact ⟨_, Option.bind_eq_some_iff.2 ⟨child, found,
        Option.bind_eq_some_iff.2 ⟨changed, put, rfl⟩⟩⟩

theorem lookup_withNamed_of_ne {name other : String} (e : Entry) (entries : List (String × Entry))
    (h : other ≠ name) : (withNamed name e entries).lookup other = entries.lookup other := by
  have last : [(name, e)].lookup other = none := by simp [h]
  rw [withNamed, List.lookup_append, last, Option.or_none]
  induction entries with
  | nil => rfl
  | cons entry rest ih =>
    obtain ⟨key, value⟩ := entry
    by_cases dropped : key = name
    · have different : (other == key) = false := by simp [dropped, h]
      rw [List.filter_cons_of_neg (by simpa using dropped), List.lookup_cons, different, ih]
    · rw [List.filter_cons_of_pos (by simpa using dropped), List.lookup_cons, List.lookup_cons, ih]

/-- The text at a place. -/
def textAt? (e : Entry) (place : List String) : Option String :=
  match e.at? place with
  | some (.file content) => some content
  | _ => none

theorem textAt?_cons (entries : List (String × Entry)) (name : String) (rest : List String) :
    (folder entries).textAt? (name :: rest) = (entries.lookup name).bind (·.textAt? rest) := by
  rw [textAt?, at?]
  cases entries.lookup name <;> rfl

theorem at?_append (e : Entry) (place rest : List String) :
    e.at? (place ++ rest) = (e.at? place).bind (·.at? rest) := by
  induction place generalizing e with
  | nil => cases e <;> rfl
  | cons name more ih =>
    cases e with
    | file content => rfl
    | folder entries =>
      rw [List.cons_append, at?, at?, Option.bind_assoc]
      simp only [ih]

theorem textAt?_append (e : Entry) (place rest : List String) :
    e.textAt? (place ++ rest) = (e.at? place).bind (·.textAt? rest) := by
  rw [textAt?, at?_append]
  cases e.at? place <;> rfl

/-- What is put at a place changes no file elsewhere. -/
theorem textAt?_put_of_apart {e other after : Entry} {place elsewhere : List String}
    (put : e.put place other = some after) (apart : ¬ place <+: elsewhere) :
    after.textAt? elsewhere = e.textAt? elsewhere := by
  induction place generalizing e after elsewhere with
  | nil => exact absurd List.nil_prefix apart
  | cons name rest ih =>
    cases e with
    | file old => cases put
    | folder entries =>
      obtain ⟨changed, rfl, way⟩ := put_cons put
      cases elsewhere with
      | nil => rfl
      | cons first more =>
        rw [textAt?_cons, textAt?_cons]
        by_cases here : first = name
        · subst here
          rw [List.prefix_cons_inj] at apart
          rcases way with ⟨rfl, -⟩ | ⟨child, found, put⟩
          · exact absurd List.nil_prefix apart
          · rw [lookup_withNamed, found]
            exact ih put apart
        · rw [lookup_withNamed_of_ne _ _ here]

/-- A file that is put where no folder is changes no other file. -/
theorem textAt?_put_file {e after : Entry} {place : List String} {content : String}
    (free : ∀ entries, e.at? place ≠ some (folder entries))
    (put : e.put place (.file content) = some after) (other : List String) :
    after.textAt? other = if other = place then some content else e.textAt? other := by
  by_cases below : place <+: other
  · obtain ⟨rest, rfl⟩ := below
    rw [textAt?_append, at?_put put, textAt?_append]
    cases rest with
    | nil => rw [if_pos (List.append_nil _)]; rfl
    | cons name more =>
      rw [if_neg (by simp)]
      cases there : e.at? place with
      | none => rfl
      | some old =>
        cases old with
        | file text => rfl
        | folder entries => exact absurd there (free entries)
  · have apart : other ≠ place := fun same => below (same ▸ List.prefix_rfl)
    rw [if_neg apart, textAt?_put_of_apart put below]

/-- An empty folder that is put where nothing is changes no file. -/
theorem textAt?_put_folder {e after : Entry} {place : List String} (free : e.at? place = none)
    (put : e.put place (.folder []) = some after) (other : List String) :
    after.textAt? other = e.textAt? other := by
  by_cases below : place <+: other
  · obtain ⟨rest, rfl⟩ := below
    rw [textAt?_append, at?_put put, textAt?_append, free]
    cases rest <;> rfl
  · exact textAt?_put_of_apart put below

end Entry

/-! ## Paths -/

namespace FileTree

variable {t written : FileTree} {folder name content : String}

/-- A name that leads one step down. -/
structure IsStep (name : String) : Prop where
  inside : '/' ∉ name.toList
  further : name ≠ ""
  down : name ≠ "." ∧ name ≠ ".."

theorem namesOf_append (front back : String) :
    namesOf (front ++ "/" ++ back) = namesOf front ++ namesOf back := by
  have letters : (front ++ "/" ++ back).toList = front.toList ++ '/' :: back.toList := by simp
  rw [namesOf, letters, List.splitOn_append_cons_self, List.map_append]
  rfl

theorem IsStep.namesOf_eq (h : IsStep name) : namesOf name = [name] := by
  rw [namesOf, List.splitOn_eq_singleton h.inside, List.map_singleton, String.ofList_toList]

theorem follow_append (t : FileTree) (here names more : List String) :
    t.follow here (names ++ more) = (t.follow here names).bind (t.follow · more) := by
  induction names generalizing here with
  | nil => rfl
  | cons name rest ih =>
    rw [List.cons_append, follow, follow]
    repeat' split
    · exact ih here
    · exact ih here.dropLast
    · exact ih (here ++ [name])
    · rfl

theorem IsStep.follow_eq (h : IsStep name) (t : FileTree) (here : List String) :
    t.follow here [name] = if t.isFolder here then some (here ++ [name]) else none := by
  rw [follow, if_neg (not_or.2 ⟨h.further, h.down.1⟩), if_neg h.down.2]
  rfl

/-- A slash at the end of a path asks for a folder. -/
theorem follow_slash (t : FileTree) (here : List String) :
    t.follow here [""] = if t.isFolder here then some here else none := by
  rw [follow, if_pos (Or.inl rfl)]
  rfl

/-- A name starts in the working folder. -/
theorem IsStep.start_eq (h : IsStep name) (t : FileTree) : t.start name = t.working := by
  rw [start, if_neg]
  rw [String.startsWith_string_iff]
  exact fun slash => h.inside (slash.subset (List.mem_singleton_self _))

/-- A path starts where its front does. -/
theorem start_append (t : FileTree) (nonempty : folder ≠ "") (more : String) :
    t.start (folder ++ more) = t.start folder := by
  obtain ⟨c, rest, letters⟩ : ∃ c rest, folder.toList = c :: rest :=
    List.exists_cons_of_ne_nil fun none => nonempty (String.toList_eq_nil_iff.1 none)
  have same : (folder ++ more).startsWith "/" = folder.startsWith "/" := by
    rw [Bool.eq_iff_iff, String.startsWith_string_iff, String.startsWith_string_iff,
      String.toList_append, letters]
    show ['/'] <+: c :: (rest ++ more.toList) ↔ ['/'] <+: c :: rest
    simp
  rw [start, start, same]

/-- A folder is named with or without a slash at its end. -/
theorem join_cases (nonempty : folder ≠ "") (name : String) :
    ∃ front, (folder = front ∨ folder = front ++ "/") ∧
      join folder name = front ++ "/" ++ name := by
  rw [join, if_neg nonempty]
  by_cases slash : folder.endsWith "/"
  · rw [if_pos slash]
    rw [String.endsWith_eq_endsWith_toSlice, String.Slice.endsWith_string_iff] at slash
    obtain ⟨front, letters⟩ := slash
    have same : folder = String.ofList front ++ "/" := by
      rw [← String.toList_inj]
      simpa using letters.symm
    exact ⟨String.ofList front, .inr same, by rw [← same]⟩
  · rw [if_neg slash]
    exact ⟨folder, .inl rfl, rfl⟩

theorem isShort_iff {path : String} :
    isShort path ↔ path.utf8ByteSize ≤ greatestPath ∧
      ∀ name ∈ namesOf path, name.utf8ByteSize ≤ greatestName := by
  rw [isShort, Bool.and_eq_true, decide_eq_true_iff, List.all_eq_true]
  simp only [decide_eq_true_iff]

theorem namesOf_slash (front : String) : namesOf (front ++ "/") = namesOf front ++ [""] := by
  have same := namesOf_append front ""
  rwa [String.append_empty] at same

/-- Where the path of a name in a folder is short, that of the folder is. -/
theorem isShort_of_join (short : isShort (join folder name)) : isShort folder := by
  by_cases nonempty : folder = ""
  · rw [nonempty]
    decide
  · obtain ⟨front, form, same⟩ := join_cases nonempty name
    rw [same, isShort_iff, namesOf_append, List.forall_mem_append, String.utf8ByteSize_append,
      String.utf8ByteSize_append] at short
    obtain ⟨path, names, -⟩ := short
    rw [isShort_iff]
    rcases form with rfl | rfl
    · exact ⟨by omega, names⟩
    · rw [namesOf_slash, List.forall_mem_append, String.utf8ByteSize_append]
      exact ⟨by omega, names, by simp⟩

/-- **The path of a name in a folder** leads one step further than that of the folder. -/
theorem resolve_join (h : IsStep name) (t : FileTree) (folder : String) :
    t.resolve (join folder name) = if isShort (join folder name) then
      (t.resolve folder).bind fun here => if t.isFolder here then some (here ++ [name]) else none
    else none := by
  by_cases short : isShort (join folder name)
  · rw [if_pos short, resolve, if_pos short, resolve, if_pos (isShort_of_join short)]
    by_cases nonempty : folder = ""
    · rw [nonempty, join, if_pos rfl, h.namesOf_eq, h.follow_eq, h.start_eq]
      show _ = (t.follow t.working [""]).bind _
      rw [follow_slash]
      by_cases working : t.isFolder t.working <;> simp [working]
    · obtain ⟨front, form, same⟩ := join_cases nonempty name
      rw [same, namesOf_append, h.namesOf_eq, follow_append]
      rcases form with rfl | rfl
      · rw [String.append_assoc, start_append t nonempty]
        simp only [h.follow_eq]
      · rw [start_append t nonempty, namesOf_slash, follow_append, Option.bind_assoc]
        congr 1
        funext here
        rw [h.follow_eq, follow_slash]
        by_cases there : t.isFolder here <;> simp [there]
  · rw [if_neg short, resolve, if_neg short]

/-! ## Making folders and writing files -/

theorem file?_eq (t : FileTree) (place : List String) : t.file? place = t.root.textAt? place := rfl

theorem isFolder_iff {place : List String} :
    t.isFolder place ↔ ∃ entries, t.root.at? place = some (.folder entries) := by
  rw [isFolder]
  split
  · rename_i entries there
    exact iff_of_true rfl ⟨entries, there⟩
  · rename_i other
    exact iff_of_false Bool.false_ne_true fun ⟨entries, there⟩ => other entries there

theorem put_eq_some {place : List String} {e : Entry} :
    t.put place e = some written ↔
      ∃ root, t.root.put place e = some root ∧ written = { t with root } := by
  rw [put]
  cases t.root.put place e <;> simp [eq_comm]

/-- Making folders changes no file. -/
theorem file?_makeFolders {here names : List String} (made : t.makeFolders here names = some written)
    (place : List String) : written.file? place = t.file? place := by
  induction names generalizing t here with
  | nil =>
    cases made
    rfl
  | cons name rest ih =>
    rw [makeFolders] at made
    split at made
    · exact ih made
    · by_cases file : (t.file? (here ++ [name])).isSome
      · simp [file] at made
      · by_cases folder : t.isFolder (here ++ [name])
        · simp only [file, folder] at made
          exact ih made
        · simp only [file, folder] at made
          obtain ⟨next, changed, made⟩ := Option.bind_eq_some_iff.1 made
          obtain ⟨root, put, rfl⟩ := put_eq_some.1 changed
          have free : t.root.at? (here ++ [name]) = none := by
            cases there : t.root.at? (here ++ [name]) with
            | none => rfl
            | some e =>
              cases e with
              | file content => simp [file?, there] at file
              | folder entries => exact absurd (isFolder_iff.2 ⟨entries, there⟩) folder
          rw [ih made, file?_eq, file?_eq]
          exact Entry.textAt?_put_folder free put place

theorem file?_createFolder (made : t.createFolder folder = some written) (place : List String) :
    written.file? place = t.file? place := by
  rw [createFolder] at made
  split at made
  · obtain ⟨tree, folders, made⟩ := Option.bind_eq_some_iff.1 made
    split at made
    · cases made
      exact file?_makeFolders folders place
    · cases made
  · cases made

/-- A file is written into a folder that is there, under a name that no folder has. -/
theorem write_join_eq_some (h : IsStep name) :
    t.write (join folder name) content = some written ↔
      isShort (join folder name) ∧ ∃ here, t.resolve folder = some here ∧ t.isFolder here ∧
        ¬ t.isFolder (here ++ [name]) ∧ t.put (here ++ [name]) (.file content) = some written := by
  rw [FileTree.write, resolve_join h]
  by_cases short : isShort (join folder name)
  · rw [if_pos short]
    cases found : t.resolve folder with
    | none => simp
    | some here =>
      by_cases there : t.isFolder here <;> by_cases taken : t.isFolder (here ++ [name]) <;>
        simp [short, there, taken]
  · simp [short]

/-- **A file can be written into a folder**, unless its path is too long or a folder has its
    name. -/
theorem exists_write_join (h : IsStep name) (t : FileTree) (folder content : String) :
    (∃ written, t.write (join folder name) content = some written) ↔
      isShort (join folder name) ∧ ∃ here, t.resolve folder = some here ∧ t.isFolder here ∧
        ¬ t.isFolder (here ++ [name]) := by
  simp only [write_join_eq_some h]
  constructor
  · rintro ⟨written, short, here, resolved, there, free, -⟩
    exact ⟨short, here, resolved, there, free⟩
  · rintro ⟨short, here, resolved, there, free⟩
    obtain ⟨entries, found⟩ := isFolder_iff.1 there
    obtain ⟨root, put⟩ := Entry.exists_put found name (.file content)
    exact ⟨_, short, here, resolved, there, free, put_eq_some.2 ⟨root, put, rfl⟩⟩

/-- **Writing a file into a folder changes no other file.** -/
theorem file?_write_join (h : IsStep name)
    (write : t.write (join folder name) content = some written) :
    ∃ here, t.resolve folder = some here ∧ t.isFolder here ∧
      ∀ place, written.file? place =
        if place = here ++ [name] then some content else t.file? place := by
  obtain ⟨-, here, resolved, there, free, changed⟩ := (write_join_eq_some h).1 write
  obtain ⟨root, put, rfl⟩ := put_eq_some.1 changed
  refine ⟨here, resolved, there, fun place => ?_⟩
  exact Entry.textAt?_put_file (fun entries taken => free (isFolder_iff.2 ⟨entries, taken⟩)) put
    place

end FileTree

/-! ## Storing programs -/

/-- **Storing a program writes one file**, right below the folder, or none.  Either way no other
    file is changed. -/
theorem store_cases {t after : FileTree} {folder : String} {q : Program} {ending : Ending}
    (step : FileTree.IsStep (Artifact.program q).fileName)
    (stored : store t folder q = (ending, after)) :
    (ending = .success "" ∧ ∃ made here, t.createFolder folder = some made ∧
      made.resolve folder = some here ∧ made.isFolder here ∧
      ∀ place, after.file? place =
        if place = here ++ [(Artifact.program q).fileName] then some q.text else t.file? place) ∨
    (∃ failed, ending = .failure failed) ∧ ∀ place, after.file? place = t.file? place := by
  rw [store] at stored
  cases made : t.createFolder folder with
  | none =>
    rw [made] at stored
    cases stored
    exact .inr ⟨⟨_, rfl⟩, fun place => rfl⟩
  | some tree =>
    simp only [made, programPath] at stored
    cases write : tree.write (FileTree.join folder (Artifact.program q).fileName) q.text with
    | none =>
      rw [write] at stored
      cases stored
      exact .inr ⟨⟨_, rfl⟩, FileTree.file?_createFolder made⟩
    | some written =>
      rw [write] at stored
      cases stored
      obtain ⟨here, resolved, there, files⟩ := FileTree.file?_write_join step write
      refine .inl ⟨rfl, tree, here, rfl, resolved, there, fun place => ?_⟩
      rw [files, FileTree.file?_createFolder made]

end CommandLine

/-! ## Names of programs -/

open CommandLine

/-- The file of a program with a valid name is one step along a path. -/
theorem Identifier.Valid.isStep {name : String} (h : Valid name) :
    FileTree.IsStep (name ++ ".rs") := by
  obtain ⟨c, mem, -⟩ := h.word.letter
  obtain ⟨first, rest, letters⟩ := List.exists_cons_of_ne_nil (List.ne_nil_of_mem mem)
  have long : 4 ≤ (name ++ ".rs").toList.length := by
    rw [String.toList_append, letters]
    simp
  refine ⟨?_, ?_, ?_, ?_⟩
  · rw [String.toList_append, List.mem_append, not_or]
    exact ⟨fun slash => absurd (h.word.plain _ slash) (by decide), by decide⟩
  all_goals
    intro same
    rw [same] at long
    revert long
    decide

/-- Only the identifier of a name matters to compiling. -/
theorem Description.compile_of_identifier (d : Description) (p : Parameters)
    (withProgram : Bool) {name other : String}
    (same : Identifier.ofName name = Identifier.ofName other) :
    d.compile p (some name) withProgram = d.compile p (some other) withProgram := by
  rw [compile, compile, Option.getD_some, Option.getD_some, same]

/-- A name given to compiling is as good as the name of the description. -/
theorem Description.compile_named (d : Description) (p : Parameters) (withProgram : Bool)
    (name : String) : ({ d with name } : Description).compile p none withProgram =
      d.compile p (some name) withProgram := rfl

theorem Stack.program_of_identifier (models : List Model) {name other : String}
    (same : Identifier.ofName name = Identifier.ofName other) :
    (Stack.mk name models).program = (Stack.mk other models).program := by
  simp only [program, same]

theorem StackProgram.name_ofMembers (name : String) (members : List Program) :
    (ofMembers name members).name = name := rfl

/-- **Names of programs are safe**: whatever the text, they are words that are not reserved.
    They stay as they are, so that they can be names again.  A program is written right below
    the folder that it is written into. -/
theorem Identifier.ofName_safe (text : String) :
    (ofName text ≠ "" ∧ (∀ c ∈ (ofName text).toList, c.isAlphanum ∨ c = '_') ∧
      ¬ (ofName text).toList.head?.any Char.isDigit ∧ (∃ c ∈ (ofName text).toList, c ≠ '_') ∧
      ofName text ∉ reserved) ∧
    ofName (ofName text) = ofName text ∧
    (∀ (d : Description) (p : Parameters) (withProgram : Bool),
      d.compile p (some (ofName text)) withProgram = d.compile p (some text) withProgram ∧
      ({ d with name := ofName text } : Description).compile p none withProgram =
        d.compile p (some text) withProgram ∧
      ∀ m, d.compile p (some text) withProgram = .ok m →
        m.name = ofName text ∧ ∀ q, m.program = some q → q.name = ofName text) ∧
    (∀ models : List Model,
      (Stack.mk (ofName text) models).program = (Stack.mk text models).program ∧
      ∀ q, (Stack.mk text models).program = some q → q.name = ofName text) ∧
    (∀ a : Artifact, a.name = ofName text → ∀ (t : FileTree) (folder : String),
      a.fileName = ofName text ++ ".rs" ∧
      t.resolve (FileTree.join folder a.fileName) =
        if FileTree.isShort (FileTree.join folder a.fileName) then
          (t.resolve folder).bind fun here =>
            if t.isFolder here then some (here ++ [a.fileName]) else none
        else none) ∧
    ∀ q : Program, q.name = ofName text → ∀ (t after : FileTree) (folder : String),
      store t folder q = (.success "", after) →
        ∃ made here, t.createFolder folder = some made ∧ made.resolve folder = some here ∧
          made.isFolder here ∧ ∀ place, after.file? place =
            if place = here ++ [ofName text ++ ".rs"] then some q.text else t.file? place := by
  have valid := valid_ofName text
  have stays := valid.ofName_eq
  refine ⟨⟨?_, valid.word.plain, valid.word.head, valid.word.letter, valid.free⟩, stays,
    fun d p withProgram => ⟨d.compile_of_identifier p withProgram stays, ?_, fun m compiled => ?_⟩,
    fun models => ⟨Stack.program_of_identifier models stays, fun q made => ?_⟩,
    fun a named t folder => ?_, fun q named t after folder stored => ?_⟩
  · obtain ⟨c, mem, -⟩ := valid.word.letter
    exact fun empty => by simp [empty] at mem
  · rw [d.compile_named]
    exact d.compile_of_identifier p withProgram stays
  · obtain ⟨named, -, program⟩ := Description.compile_eq_ok compiled
    refine ⟨named, fun q made => ?_⟩
    rw [program] at made
    split at made
    · cases made
      exact (d.program_name m.name m.block).trans named
    · cases made
  · obtain ⟨members, -, rfl⟩ := Stack.program_eq_some made
    exact StackProgram.name_ofMembers _ members
  · have file : a.fileName = ofName text ++ ".rs" := by rw [Artifact.fileName, named]
    rw [file]
    exact ⟨rfl, FileTree.resolve_join valid.isStep t folder⟩
  · have file : (Artifact.program q).fileName = ofName text ++ ".rs" :=
      congrArg (· ++ ".rs") named
    rcases store_cases (file ▸ valid.isStep) stored with ⟨-, made, here, written⟩ | ⟨⟨_, failed⟩, -⟩
    · exact ⟨made, here, file ▸ written⟩
    · cases failed

/-- A name with slashes, dots and a blank: its program is still written right below the folder. -/
theorem Identifier.ofName_safe_boxes : ofName "../2 boxes.json" = "___2_boxes" ∧
    ∃ m q made after, Description.selfLoop.compile .selfLoop (some "../2 boxes.json") true = .ok m ∧
      Description.selfLoop.compile .selfLoop (some m.name) true = .ok m ∧
      m.program = some q ∧ q.name = "___2_boxes" ∧
      store .new "out" q = (.success "", after) ∧
      FileTree.new.createFolder "out" = some made ∧
      made.resolve "out" = some ["tmp", "work", "out"] ∧
      after.file? ["tmp", "work", "out", "___2_boxes.rs"] = some q.text := by
  let d := Description.selfLoop
  have name : ofName "../2 boxes.json" = "___2_boxes" := by decide
  obtain ⟨-, -, compiles, -, -, stores⟩ := ofName_safe "../2 boxes.json"
  obtain ⟨m, compiled⟩ := compile_selfLoop_as (some "../2 boxes.json") true
  obtain ⟨again, -, names⟩ := compiles d .selfLoop true
  obtain ⟨named, programs⟩ := names m compiled
  obtain ⟨-, -, program⟩ := Description.compile_eq_ok compiled
  have file : (d.program m.name m.block).name = "___2_boxes" :=
    (d.program_name _ _).trans (named.trans name)
  -- the folder is made, and there is room for the file
  have room : (FileTree.new.createFolder "out").map (fun made =>
      (made.resolve "out", made.isFolder ["tmp", "work", "out"],
        made.isFolder ["tmp", "work", "out", "___2_boxes.rs"])) =
      some (some ["tmp", "work", "out"], true, false) := by decide +kernel
  obtain ⟨made, created, shape⟩ := Option.map_eq_some_iff.1 room
  obtain ⟨resolved, there, free⟩ : made.resolve "out" = some ["tmp", "work", "out"] ∧
      made.isFolder ["tmp", "work", "out"] = true ∧
      made.isFolder ["tmp", "work", "out", "___2_boxes.rs"] = false := by simpa using shape
  have step : FileTree.IsStep "___2_boxes.rs" := ⟨by decide, by decide, by decide, by decide⟩
  obtain ⟨after, written⟩ := (FileTree.exists_write_join step made "out"
    (d.program m.name m.block).text).2 ⟨by decide +kernel, _, resolved, there, by simp [free]⟩
  have path : programPath "out" (d.program m.name m.block) =
      FileTree.join "out" "___2_boxes.rs" := by
    rw [programPath, Artifact.fileName, Artifact.name, file]
    exact congrArg (FileTree.join "out") (by decide)
  have stored : store .new "out" (d.program m.name m.block) = (.success "", after) := by
    rw [store, created]
    simp only [path, written]
  obtain ⟨tree, here, created', resolved', -, files⟩ :=
    stores _ (programs _ program) .new after "out" stored
  obtain rfl : made = tree := Option.some.inj (created.symm.trans created')
  obtain rfl : _ = here := Option.some.inj (resolved.symm.trans resolved')
  refine ⟨name, m, _, made, after, compiled, ?_, program, file, stored, created, resolved, ?_⟩
  · rw [named, again]
    exact compiled
  · rw [files, name, if_pos (by decide)]

end MessagePassing
