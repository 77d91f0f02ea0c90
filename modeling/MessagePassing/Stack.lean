/-
  Message passing — stacks of models.

  A stack runs its models in order.  A model is accepted only if it reads what the
  last one gives, so every model of a stack is fed the widths that it expects.
-/
import MessagePassing.Model

namespace MessagePassing

/-- Models run one after the other. -/
structure Stack where
  name : String
  models : List Model

namespace Stack

/-- A stack without models. -/
def empty (name : String) : Stack := ⟨name, []⟩

/-- A stack with one more model at its end. -/
def push (s : Stack) (m : Model) : Outcome Stack :=
  match s.models.getLast? with
  | none => .ok { s with models := s.models ++ [m] }
  | some last =>
    if last.outputWidths = m.inputWidths then .ok { s with models := s.models ++ [m] }
    else refuseShape (.stackWidths last.name last.outputWidths m.name m.inputWidths)

/-- The features of the states that the first model reads; none without models. -/
def inputWidths (s : Stack) : Widths := (s.models.head?.map Model.inputWidths).getD .zero

/-- The features of the states that the last model gives; none without models. -/
def outputWidths (s : Stack) : Widths := (s.models.getLast?.map Model.outputWidths).getD .zero

/-- Every model in order. -/
def infer (s : Stack) (state : State) : Outcome State :=
  s.models.foldlM (fun state m => m.infer state) state

/-- The names of the models. -/
def describe (s : Stack) : String :=
  let names := " -> ".intercalate (s.models.map Model.name)
  s!"Stack {s.name} [{names}]"

/-- One program that runs the programs of all models; there is none for a stack
    without models or with a model without program. -/
def program (s : Stack) : Option StackProgram := do
  if s.models = [] then none
  else
    let members ← s.models.mapM Model.program
    pure (.ofMembers (Identifier.ofName s.name) members)

end Stack

/-! ## Models and stacks alike -/

/-- Anything that gives a state new features: a model or a stack. -/
inductive Component where
  | model (model : Model)
  | stack (stack : Stack)

namespace Component

/-- The features of the states that the component reads. -/
def inputWidths : Component → Widths
  | model m => m.inputWidths
  | stack s => s.inputWidths

/-- The features of the states that the component gives. -/
def outputWidths : Component → Widths
  | model m => m.outputWidths
  | stack s => s.outputWidths

/-- The functions of the component. -/
def describe : Component → String
  | model m => m.describe
  | stack s => s.describe

/-- Run on a state of the widths that the component reads. -/
def infer : Component → State → Outcome State
  | model m, s => m.infer s
  | stack k, s => k.infer s

/-- Run on any state; other widths than those that the component reads are refused. -/
def tryInfer (c : Component) (s : State) : Outcome State :=
  if s.widths = c.inputWidths then c.infer s
  else refuseShape (.stateWidths c.inputWidths s.widths)

/-- The program of the component. -/
def artifact : Component → Option Artifact
  | model m => m.program.map .program
  | stack s => s.program.map .stack

end Component

end MessagePassing
