/-
  Message passing — command-line arguments.

  `Request.ofArguments` reads the arguments and the environment.  Options come in
  a short and a long form, with their value attached or as the next argument; an
  option that is absent takes its environment variable, then its default.
  Anything else is a usage error, as are options given twice.
-/
import MessagePassing.Count

namespace MessagePassing.CommandLine

/-! ## What can be asked for -/

/-- The files of a model, and a name that takes the place of its own. -/
structure ModelOptions where
  description : String
  parameters : String
  name : Option String
  deriving DecidableEq, Repr

/-- What to do. -/
inductive Command where
  /-- Write the program of a model into a folder. -/
  | compile (model : ModelOptions) (folder : String)
  /-- Run a model on a graph for some rounds and print the graph. -/
  | infer (model : ModelOptions) (graph : String) (steps : Nat)
  /-- Print the functions and widths of a model. -/
  | inspect (model : ModelOptions)
  deriving DecidableEq, Repr

/-- The commands by name. -/
inductive Verb where
  | compile
  | infer
  | inspect
  deriving DecidableEq, Repr

/-- What one can ask help about. -/
inductive Topic where
  | commands
  | verb (verb : Verb)
  /-- The word "help" itself. -/
  | help
  deriving DecidableEq, Repr

/-- A request: a command, or a text about the command line itself. -/
inductive Request where
  | run (command : Command)
  | version
  | help (topic : Topic)
  deriving DecidableEq, Repr

/-! ## Options -/

/-- An option with a value. -/
inductive Key where
  | description
  | parameters
  | name
  | folder
  | graph
  | steps
  deriving DecidableEq, Repr

namespace Key

/-- The long form, without dashes. -/
def long : Key → String
  | description => "description"
  | parameters => "params"
  | name => "name"
  | folder => "out-dir"
  | graph => "graph"
  | steps => "steps"

/-- The letter of the short form. -/
def short? : Key → Option Char
  | description => some 'd'
  | parameters => some 'p'
  | folder => some 'o'
  | graph => some 'g'
  | name => none
  | steps => none

/-- The environment variable that stands in for the option. -/
def environmentName : Key → String
  | description => "GRAPHNET_DESCRIPTION"
  | parameters => "GRAPHNET_PARAMS"
  | name => "GRAPHNET_NAME"
  | folder => "GRAPHNET_OUT_DIR"
  | graph => "GRAPHNET_GRAPH"
  | steps => "GRAPHNET_STEPS"

end Key

/-- A number of rounds: digits, perhaps after a plus sign, in 64 bits. -/
def steps? (text : String) : Option Nat :=
  let digits := match text.toList with
    | '+' :: rest => rest
    | chars => chars
  if digits.isEmpty || !digits.all Char.isDigit then none
  else
    let n := digits.foldl (fun n c => 10 * n + (c.toNat - '0'.toNat)) 0
    if n < Count.limit then some n else none

/-- The value is one that the option takes: paths are not empty, rounds are a count. -/
def Key.accepts (key : Key) (value : String) : Bool :=
  match key with
  | .name => true
  | .steps => (steps? value).isSome
  | _ => value != ""

/-- The name of a verb. -/
def Verb.word : Verb → String
  | compile => "compile"
  | infer => "infer"
  | inspect => "inspect"

/-- The verb of a name. -/
def Verb.ofWord? (word : String) : Option Verb :=
  [compile, infer, inspect].find? fun v => v.word == word

/-- The options of a verb. -/
def Verb.keys : Verb → List Key
  | compile => [.description, .parameters, .name, .folder]
  | infer => [.description, .parameters, .name, .graph, .steps]
  | inspect => [.description, .parameters, .name]

/-! ## Reading options -/

/-- An argument after the verb. -/
inductive Word where
  /-- An option, with the value attached to it. -/
  | option (key : Key) (attached : Option String)
  | help
  | unknown
  deriving DecidableEq, Repr

/-- The argument reads as an option, so it cannot be a value. -/
def looksLikeOption (argument : String) : Bool :=
  match argument.toList with
  | '-' :: _ :: _ => true
  | _ => false

/-- The part before the first equals sign, and the part after it if there is one. -/
def cutAtEquals (chars : List Char) : List Char × Option String :=
  match chars.span (· != '=') with
  | (front, []) => (front, none)
  | (front, _ :: back) => (front, some (String.ofList back))

/-- The value attached to a short option: an equals sign in front is not part of it. -/
def attachedToShort : List Char → Option String
  | [] => none
  | '=' :: rest => some (String.ofList rest)
  | rest => some (String.ofList rest)

/-- What an argument says, among the options of a verb. -/
def Word.ofArgument (keys : List Key) (argument : String) : Word :=
  match argument.toList with
  | '-' :: '-' :: rest =>
    let (name, attached) := cutAtEquals rest
    let name := String.ofList name
    match keys.find? (·.long == name) with
    | some key => .option key attached
    | none => if name == "help" && attached.isNone then .help else .unknown
  | '-' :: letter :: rest =>
    match keys.find? (·.short? == some letter) with
    | some key => .option key (attachedToShort rest)
    | none => if letter == 'h' then .help else .unknown
  | _ => .unknown

/-- Options and their values, in the order given. -/
abbrev Given := List (Key × String)

/-- The values read from the arguments after a verb; `none` inside stands for a
    request for help, and an error for a usage error. -/
def readOptions (keys : List Key) : List String → Given → Except Unit (Option Given)
  | [], given => .ok (some given)
  | argument :: rest, given =>
    if argument = "--" then if rest.isEmpty then .ok (some given) else .error ()
    else match Word.ofArgument keys argument with
      | .help => .ok none
      | .unknown => .error ()
      | .option key (some value) => accept key value rest given
      | .option key none =>
        match rest with
        | value :: rest => if looksLikeOption value then .error () else accept key value rest given
        | [] => .error ()
where
  /-- One more option, not given before and with a value that it takes. -/
  accept (key : Key) (value : String) (rest : List String) (given : Given) :
      Except Unit (Option Given) :=
    if given.any (·.1 == key) || !key.accepts value then .error ()
    else readOptions keys rest (given ++ [(key, value)])

/-- The value of an option: given, or from the environment. -/
def value? (environment : List (String × String)) (given : Given) (key : Key) : Option String :=
  (given.lookup key).or (environment.lookup key.environmentName)

/-- The command of a verb, once all arguments are read. -/
def Command.ofOptions? (verb : Verb) (value : Key → Option String) : Option Command := do
  if verb.keys.any fun key => (value key).any fun v => !key.accepts v then none
  else
    let model : ModelOptions :=
      ⟨← value .description, ← value .parameters, value .name⟩
    match verb with
    | .compile => pure (.compile model ((value .folder).getD "."))
    | .infer => pure (.infer model (← value .graph) ((value .steps).bind steps? |>.getD 1))
    | .inspect => pure (.inspect model)

/-- The request of the arguments after a verb. -/
def Request.ofVerb (environment : List (String × String)) (verb : Verb) (rest : List String) :
    Except Unit Request := do
  match ← readOptions verb.keys rest [] with
  | none => pure (.help (.verb verb))
  | some given =>
    match Command.ofOptions? verb (value? environment given) with
    | some command => pure (.run command)
    | none => .error ()

/-! ## Before the verb -/

/-- The variable that stands in for the flag of structured logs. -/
def logVariable : String := "JSON_LOGS"

/-- The flag of structured logs is a truth value where the environment has it. -/
def logVariableFits (environment : List (String × String)) : Bool :=
  (environment.lookup logVariable).all fun v => v == "true" || v == "false"

/-- What the arguments after the word "help" ask for. -/
def helpFor : List String → Except Unit Request
  | [] => .ok (.help .commands)
  | [word] => match Verb.ofWord? word with
    | some verb => .ok (.help (.verb verb))
    | none => if word == "help" then .ok (.help .help) else .error ()
  | _ => .error ()

/-- The request of all arguments; `logs` says that structured logs are asked for
    already. -/
def Request.ofArguments (environment : List (String × String)) (logs : Bool) :
    List String → Except Unit Request
  | [] => .error ()
  | argument :: rest =>
    if argument = "--json-logs" then
      if logs then .error () else ofArguments environment true rest
    else match argument.toList with
      | '-' :: '-' :: _ =>
        if argument = "--version" then .ok .version
        else if argument = "--help" then .ok (.help .commands)
        else .error ()
      | '-' :: 'V' :: _ => .ok .version
      | '-' :: 'h' :: _ => .ok (.help .commands)
      | _ =>
        if argument = "help" then helpFor rest
        else match Verb.ofWord? argument with
          | none => .error ()
          | some verb => do
            let request ← ofVerb environment verb rest
            match request with
            | .run _ =>
              if logs || logVariableFits environment then pure request else .error ()
            | _ => pure request

end MessagePassing.CommandLine
