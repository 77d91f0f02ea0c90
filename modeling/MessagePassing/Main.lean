/-
  Message passing — the command-line program.

  Reads the files that a request names, and prints or writes what it gives.
-/
import MessagePassing.CommandLine.Run

namespace MessagePassing.CommandLine

/-- The files that a request names. -/
def Request.files : Request → List String
  | .run (.compile o _) => [o.description, o.parameters]
  | .run (.infer o graph _) => [o.description, o.parameters, graph]
  | .run (.inspect o) => [o.description, o.parameters]
  | _ => []

/-- The environment variables that options and flags can come from. -/
def environmentNames : List String :=
  logVariable :: [Key.description, .parameters, .name, .folder, .graph, .steps].map
    Key.environmentName

/-- The text of an open file. -/
def readText (handle : IO.FS.Handle) : IO Loaded := do
  try
    return .text (← handle.readToEnd)
  catch _ =>
    return .unreadable

/-- What a path leads to. -/
def loadFile (path : String) : IO Loaded := do
  try
    readText (← IO.FS.Handle.mk path .read)
  catch _ =>
    return .absent

/-- Report the step that failed. -/
def complain (step : String) : IO UInt32 := do
  IO.eprintln s!"Error: {step}"
  return (Ending.failure step).code.toUInt32

/-- The action ends without an error. -/
def succeeds (action : IO Unit) : IO Bool := do
  try
    action
    return true
  catch _ =>
    return false

/-- Make the folder of a path, and those on the way to it.  A path that ends in a dot
    can be opened only if it names a folder. -/
def makeFolder (path : String) : IO Bool := do
  let root := if path.startsWith "/" then "/" else ""
  let way := root ++ "/".intercalate (FileTree.foldersToMake path)
  if way = "" || (← succeeds (IO.FS.createDirAll way)) then
    succeeds (discard (IO.FS.Handle.mk path .read))
  else return false

/-- Write a program into a folder. -/
def writeProgram (folder : String) (program : Program) : IO UInt32 := do
  let path := programPath folder program
  if ← makeFolder folder then
    if ← succeeds (IO.FS.writeFile path program.text) then
      return (Ending.success program.text).code.toUInt32
    else complain (writeStep path)
  else complain (folderStep folder)

/-- Carry out a request. -/
def perform (environment : List (String × String)) (request : Request) : IO UInt32 := do
  let loaded ← request.files.mapM fun path => do return (path, ← loadFile path)
  match request.answer environment fun path => (loaded.lookup path).getD .absent with
  | .error (.context step) => complain step
  | .error .fault =>
    IO.eprintln "a count left the 64-bit range"
    return Ending.abort.code.toUInt32
  | .ok (.text content) =>
    IO.print content
    return (Ending.success content).code.toUInt32
  | .ok (.program folder program) => writeProgram folder program

end MessagePassing.CommandLine

open MessagePassing.CommandLine in
/-- The program. -/
def main (arguments : List String) : IO UInt32 := do
  let environment ← environmentNames.filterMapM fun name => do
    return (← IO.getEnv name).map fun value => (name, value)
  match Request.ofArguments environment false arguments with
  | .error () =>
    IO.eprint (helpText environment .commands)
    return Ending.usage.code.toUInt32
  | .ok request => perform environment request
