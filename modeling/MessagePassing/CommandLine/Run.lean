/-
  Message passing — the commands.

  `Command.evaluate` is a command as a function of the files that it names: it
  gives a text to print or a program to write, or says in which step it failed.
  `run` is the whole command line on a tree of files in memory.
-/
import MessagePassing.CommandLine.Arguments
import MessagePassing.CommandLine.FileTree
import MessagePassing.Graph.Document
import MessagePassing.Stack
import MessagePassing.Text.Control

namespace MessagePassing.CommandLine

/-! ## Commands on texts -/

/-- Why a command gives nothing. -/
inductive Complaint where
  /-- A step failed; the text says which. -/
  | context (step : String)
  /-- A count left the 64-bit range. -/
  | fault
  deriving DecidableEq, Repr

/-- What a command gives. -/
inductive Product where
  /-- Text for the standard output. -/
  | text (content : String)
  /-- A program, to be written into a folder. -/
  | program (folder : String) (program : Program)

/-- The value of a file: it has to be there and to decode. -/
def decodeFile {α : Type} (load : String → Loaded) (kind path : String)
    (decode : String → Option α) : Except Complaint α :=
  match load path with
  | .absent => .error (.context s!"opening {kind} {path}")
  | .unreadable => .error (.context s!"decoding {kind} {path}")
  | .text content =>
    match decode content with
    | some value => .ok value
    | none => .error (.context s!"decoding {kind} {path}")

/-- The result of a step that can be refused. -/
def inStep {α : Type} (step : String) : Outcome α → Except Complaint α
  | .ok value => .ok value
  | .error (.refused _) => .error (.context step)
  | .error (.fault _) => .error .fault

/-- The parameters that a text writes. -/
def parametersOfText? (text : String) : Option Parameters := do
  Parameters.ofJson? (← Json.Value.ofText? text)

/-- The model of the named files. -/
def ModelOptions.compile (o : ModelOptions) (load : String → Loaded) (withProgram : Bool) :
    Except Complaint Model := do
  let description ← decodeFile load "model description" o.description Description.ofText?
  let parameters ← decodeFile load "parameter file" o.parameters parametersOfText?
  inStep s!"compiling {o.description}" (description.compile parameters o.name withProgram)

/-- Rounds `step`, `step + 1`, ... of a model. -/
def rounds (m : Model) (step : Nat) : Nat → State → Except Complaint State
  | 0, s => .ok s
  | n + 1, s => do
    rounds m (step + 1) n (← inStep s!"running step {step}" ((Component.model m).tryInfer s))

/-- The text about a model. -/
def inspection (m : Model) : String :=
  s!"{m.describe}\ninput widths: {m.inputWidths.describe}\n" ++
    s!"output widths: {m.outputWidths.describe}\n"

/-- The text of a state. -/
def graphText (s : State) : String := (GraphDocument.ofState s).json.indented ++ "\n"

/-- What a command gives, for files that `load` finds. -/
def Command.evaluate (load : String → Loaded) : Command → Except Complaint Product
  | .compile options folder => do
    let model ← options.compile load true
    match model.program with
    | some program => pure (.program folder program)
    | none => .error (.context "compiler did not produce generated code")
  | .infer options graph steps => do
    let model ← options.compile load false
    let document ← decodeFile load "graph" graph GraphDocument.ofText?
    let state ← inStep "building graph state" (document.toState model.inputWidths)
    pure (.text (graphText (← rounds model 0 steps state)))
  | .inspect options => do
    let model ← options.compile load false
    pure (.text (inspection model))

/-! ## Texts about the command line -/

/-- The version. -/
def versionText : String := "graphnet-cli 0.1.0\n"

/-- An option in a usage text: its forms, then what it is for. -/
def Key.purpose : Key → String
  | description => "JSON description of the graph model"
  | parameters => "JSON object mapping tensor names to their flat values"
  | name => "Overrides the model name used for the block and the generated file"
  | folder => "Directory receiving `<name>.rs`"
  | graph => "JSON graph with `nodes`, `edges`, `globals`, `senders` and `receivers`"
  | steps => "Number of rounds to run"

/-- A short form, or as many blanks, and a long form; what is typed is in bold. -/
def forms (letter? : Option Char) (long : String) : String :=
  let letter := match letter? with
    | some c => Text.bold (String.ofList ['-', c]) ++ ", "
    | none => "    "
  "  " ++ letter ++ Text.bold ("--" ++ long)

/-- The forms of an option with the word for its value. -/
def Key.forms (key : Key) : String :=
  let word := (key.long.map Char.toUpper).map fun c => if c = '-' then '_' else c
  s!"{CommandLine.forms key.short? key.long} <{word}>"

/-- The value of an option that is not given. -/
def Key.default? : Key → Option String
  | folder => some "."
  | steps => some "1"
  | _ => none

/-- The option has to be given. -/
def Key.needed : Key → Bool
  | description => true
  | parameters => true
  | graph => true
  | _ => false

/-- What a verb is for. -/
def Verb.purpose : Verb → String
  | compile => "Compile a model and write its generated inference code"
  | infer => "Compile a model, run one message passing round on a graph and print the result"
  | inspect => "Compile a model and print its stages"

/-- Blanks up to a column. -/
def blanks (count : Nat) : String := String.ofList (List.replicate count ' ')

/-- The number of characters that a text takes in a line. -/
def shownLength (s : String) : Nat := (Text.plain s).length

/-- Rows of two columns, every line of the second aligned. -/
def alignedRows (rows : List (String × String)) : String :=
  let column := rows.foldl (fun n row => max n (shownLength row.1)) 0 + 2
  String.join (rows.map fun (left, right) =>
    let lines := ("\n" ++ blanks column).intercalate (right.splitOn "\n")
    left ++ blanks (column - shownLength left) ++ lines ++ "\n")

/-- The row of the option that asks for help. -/
def helpRow : String × String := (forms (some 'h') "help", "Print help")

/-- The value that the environment has for a variable. -/
def variableText (environment : List (String × String)) (name : String) : String :=
  let value := (environment.lookup name).getD ""
  s!"[env: {name}={value}]"

/-- How to use a verb. -/
def Verb.usage (environment : List (String × String)) (verb : Verb) : String :=
  let needed := (verb.keys.filter Key.needed).map fun key =>
    s!" --{key.long} <{key.long.map Char.toUpper}>"
  let options := verb.keys.map fun key =>
    let default := match key.default? with
      | some value => s!" [default: {value}]"
      | none => ""
    (key.forms, s!"{key.purpose} {variableText environment key.environmentName}{default}")
  s!"{verb.purpose}\n\nUsage: graphnet {verb.word} [OPTIONS]{String.join needed}\n\nOptions:\n" ++
    alignedRows (options ++ [helpRow])

/-- What the word "help" is for. -/
def helpPurpose : String := "Print this message or the help of the given subcommand(s)"

/-- How to use the commands. -/
def generalUsage (environment : List (String × String)) : String :=
  let row (word purpose : String) : String × String := ("  " ++ Text.bold word, purpose)
  let verbs := [Verb.compile, .infer, .inspect].map fun v => row v.word v.purpose
  let logs := "Should the logs be printed in json format or not " ++
    variableText environment logVariable
  "Command line front end for the graphnet compiler\n\n" ++
    "Usage: graphnet [OPTIONS] <COMMAND>\n\nCommands:\n" ++
    alignedRows (verbs ++ [row "help" helpPurpose]) ++ "\nOptions:\n" ++
    alignedRows [(forms none "json-logs", logs), helpRow,
      (forms (some 'V') "version", "Print version")]

/-- How to use the word "help". -/
def helpUsage : String :=
  s!"{helpPurpose}\n\nUsage: graphnet help [COMMAND]...\n\nArguments:\n" ++
    alignedRows [("  [COMMAND]...", "Print help for the subcommand(s)")]

/-- The text that answers a request for help.  Values from the environment are shown
    in it without what steers a terminal. -/
def helpText (environment : List (String × String)) (topic : Topic) : String :=
  Text.plain <| match topic with
    | .commands => generalUsage environment
    | .verb verb => verb.usage environment
    | .help => helpUsage

/-! ## The command line on a tree of files -/

/-- How the command line ends. -/
inductive Ending where
  /-- Success, with the text for the standard output. -/
  | success (output : String)
  /-- A step failed; the text says which. -/
  | failure (step : String)
  /-- The arguments are no request. -/
  | usage
  /-- A count left the 64-bit range. -/
  | abort
  deriving DecidableEq, Repr

/-- The exit code of an ending. -/
def Ending.code : Ending → Nat
  | success _ => 0
  | failure _ => 1
  | usage => 2
  | abort => 101

/-- The step that fails where the folder of a program cannot be made. -/
def folderStep (folder : String) : String := s!"creating output directory {folder}"

/-- The path of a program in a folder. -/
def programPath (folder : String) (program : Program) : String :=
  FileTree.join folder (Artifact.program program).fileName

/-- The step that fails where a program cannot be written. -/
def writeStep (path : String) : String := s!"writing generated code to {path}"

/-- Write a program into a folder of the tree. -/
def store (t : FileTree) (folder : String) (program : Program) : Ending × FileTree :=
  match t.createFolder folder with
  | none => (.failure (folderStep folder), t)
  | some made =>
    let path := programPath folder program
    match made.write path program.text with
    | none => (.failure (writeStep path), made)
    | some written => (.success "", written)

/-- What a request gives, for files that `load` finds. -/
def Request.answer (environment : List (String × String)) (load : String → Loaded) :
    Request → Except Complaint Product
  | .run command => command.evaluate load
  | .version => .ok (.text versionText)
  | .help topic => .ok (.text (helpText environment topic))

/-- The command line in a folder, with its arguments and environment. -/
def run (t : FileTree) (environment : List (String × String)) (arguments : List String) :
    Ending × FileTree :=
  match Request.ofArguments environment false arguments with
  | .error () => (.usage, t)
  | .ok request =>
    match request.answer environment t.load with
    | .error (.context step) => (.failure step, t)
    | .error .fault => (.abort, t)
    | .ok (.text content) => (.success content, t)
    | .ok (.program folder program) => store t folder program

end MessagePassing.CommandLine
