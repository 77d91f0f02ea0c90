/-
  Message passing — a tree of files in memory.

  The command line reads and writes files.  A `FileTree` is a tree of files and
  folders below a root; a place in it is the list of names that leads there.  A path
  is a text for a place: it starts at the root or at the working folder, what it leads
  through has to be a folder, and neither it nor a name along it may be too long.
-/

namespace MessagePassing.CommandLine

/-- What a path leads to when it is read. -/
inductive Loaded where
  /-- Nothing that can be opened. -/
  | absent
  /-- Something that can be opened but holds no text, such as a folder. -/
  | unreadable
  | text (content : String)
  deriving DecidableEq, Repr

/-- A file, or a folder with what it holds under each name. -/
inductive Entry where
  | file (content : String)
  | folder (entries : List (String × Entry))

/-- A tree of files. -/
structure FileTree where
  root : Entry
  /-- Where paths start that do not start at the root. -/
  working : List String

/-! ## Entries -/

namespace Entry

/-- What lies at a place below an entry. -/
def at? : Entry → List String → Option Entry
  | e, [] => some e
  | file _, _ :: _ => none
  | folder entries, name :: rest => (entries.lookup name).bind fun e => e.at? rest

/-- Entries with one under a name, in place of an earlier one. -/
def withNamed (name : String) (e : Entry) (entries : List (String × Entry)) :
    List (String × Entry) :=
  entries.filter (·.1 != name) ++ [(name, e)]

/-- Put another entry at a place below an entry; `none` where the way there is not
    through folders. -/
def put : Entry → List String → Entry → Option Entry
  | _, [], other => some other
  | file _, _ :: _, _ => none
  | folder entries, [name], other => some (folder (withNamed name other entries))
  | folder entries, name :: next :: rest, other => do
    let e ← (← entries.lookup name).put (next :: rest) other
    pure (folder (withNamed name e entries))

theorem lookup_withNamed (name : String) (e : Entry) (entries : List (String × Entry)) :
    (withNamed name e entries).lookup name = some e := by
  have others : (entries.filter (·.1 != name)).lookup name = none := by
    rw [List.lookup_eq_none_iff]
    intro p hp
    have different : p.1 ≠ name := by simpa using (List.mem_filter.mp hp).2
    simpa using Ne.symm different
  simp [withNamed, List.lookup_append, others]

theorem at?_put {place : List String} {e other after : Entry} (h : e.put place other = some after) :
    after.at? place = some other := by
  induction place generalizing e after with
  | nil =>
    cases e <;> simp_all [put, at?]
  | cons name rest ih =>
    cases e with
    | file content => simp [put] at h
    | folder entries =>
      cases rest with
      | nil =>
        simp only [put, Option.some.injEq] at h
        simp [← h, at?, lookup_withNamed]
      | cons next rest =>
        simp only [put, Option.bind_eq_bind, Option.bind_eq_some_iff, Option.pure_def,
          Option.some.injEq] at h
        obtain ⟨child, _, put, hput, rfl⟩ := h
        simp [at?, lookup_withNamed, ih hput]

mutual

/-- The files at and below an entry, with their paths from it. -/
def files : Entry → List (List String × String)
  | file content => [([], content)]
  | folder entries => filesIn entries

/-- The files at and below named entries. -/
def filesIn : List (String × Entry) → List (List String × String)
  | [] => []
  | (name, e) :: rest =>
    (e.files.map fun (path, content) => (name :: path, content)) ++ filesIn rest

end

end Entry

namespace FileTree

/-! ## Paths -/

/-- The greatest length of a name, in bytes. -/
def greatestName : Nat := 255

/-- The greatest length of a path, in bytes. -/
def greatestPath : Nat := 4095

/-- The names along a path, as they are written. -/
def namesOf (path : String) : List String := (path.toList.splitOn '/').map String.ofList

/-- Neither the path nor a name along it is too long. -/
def isShort (path : String) : Bool :=
  path.utf8ByteSize ≤ greatestPath &&
    (namesOf path).all fun name => name.utf8ByteSize ≤ greatestName

/-- The path of a file in a folder, as text. -/
def join (folder name : String) : String :=
  if folder = "" then name
  else if folder.endsWith "/" then folder ++ name else folder ++ "/" ++ name

/-! ## Places -/

/-- The text of the file at a place. -/
def file? (t : FileTree) (place : List String) : Option String :=
  match t.root.at? place with
  | some (.file content) => some content
  | _ => none

/-- There is a folder at a place. -/
def isFolder (t : FileTree) (place : List String) : Bool :=
  match t.root.at? place with
  | some (.folder _) => true
  | _ => false

/-- Put an entry at a place. -/
def put (t : FileTree) (place : List String) (e : Entry) : Option FileTree := do
  pure { t with root := ← t.root.put place e }

/-! ## Following paths -/

/-- Where a path starts. -/
def start (t : FileTree) (path : String) : List String :=
  if path.startsWith "/" then [] else t.working

/-- Follow names from a place; what a name is followed in has to be a folder.  Above
    the root is the root. -/
def follow (t : FileTree) (here : List String) : List String → Option (List String)
  | [] => some here
  | name :: rest =>
    if t.isFolder here then
      if name = "" ∨ name = "." then t.follow here rest
      else if name = ".." then t.follow here.dropLast rest
      else t.follow (here ++ [name]) rest
    else none

/-- The place that a path leads to, whether or not something is there. -/
def resolve (t : FileTree) (path : String) : Option (List String) :=
  if isShort path then t.follow (t.start path) (namesOf path) else none

/-- What a path leads to when it is read. -/
def load (t : FileTree) (path : String) : Loaded :=
  match t.resolve path with
  | none => .absent
  | some place =>
    match t.file? place with
    | some content => .text content
    | none => if t.isFolder place then .unreadable else .absent

/-! ## Making folders -/

/-- The names of the folders to make for a path.  A path that ends in a dot names a
    folder that is there already, so only those on the way to it are made. -/
def foldersToMake (path : String) : List String :=
  let names := (namesOf path).filter (· != "")
  let folders := names.filter (· != ".")
  if names.getLast? = some "." then folders.dropLast else folders

/-- Make every folder along names, from a folder on; `none` where a file is in the
    way. -/
def makeFolders (t : FileTree) (here : List String) : List String → Option FileTree
  | [] => some t
  | name :: rest =>
    if name = ".." then t.makeFolders here.dropLast rest
    else
      let next := here ++ [name]
      if (t.file? next).isSome then none
      else if t.isFolder next then t.makeFolders next rest
      else do (← t.put next (.folder [])).makeFolders next rest

/-- Make the folder of a path, and those on the way to it. -/
def createFolder (t : FileTree) (path : String) : Option FileTree := do
  if isShort path then
    let made ← t.makeFolders (t.start path) (foldersToMake path)
    if (made.resolve path).any made.isFolder then pure made else none
  else none

/-! ## Writing -/

/-- Write a file; `none` where it cannot be, because its path leads to nothing or to a
    folder. -/
def write (t : FileTree) (path content : String) : Option FileTree := do
  let place ← t.resolve path
  if t.isFolder place then none
  else t.put place (.file content)

/-! ## Working folders -/

/-- Folders at the root, all empty but for a file in one that is always empty. -/
def common : List (String × Entry) :=
  ("dev", .folder [("null", .file "")]) ::
    ["bin", "etc", "home", "lib", "proc", "root", "sys", "usr", "var"].map fun name =>
      (name, .folder [])

/-- A tree with an empty working folder. -/
def new : FileTree where
  root := .folder (("tmp", .folder [("work", .folder [])]) :: common)
  working := ["tmp", "work"]

/-- Put a file at a path from the working folder, making the folders on the way. -/
def addFile (t : FileTree) (path content : String) : Option FileTree := do
  let names := (namesOf path).filter fun name => name != "" && name != "."
  (← t.makeFolders t.working names.dropLast).put (t.working ++ names) (.file content)

/-- A tree with a working folder that holds files with these paths and texts. -/
def ofFiles (files : List (String × String)) : FileTree :=
  files.foldl (fun t (path, content) => (t.addFile path content).getD t) new

/-- The files below the working folder that an earlier tree does not have, with their
    paths from there. -/
def newSince (t earlier : FileTree) : List (String × String) :=
  match t.root.at? t.working with
  | some e =>
    (e.files.filter fun (path, _) => (earlier.file? (t.working ++ path)).isNone).map
      fun (path, content) => ("/".intercalate path, content)
  | none => []

end FileTree

end MessagePassing.CommandLine
