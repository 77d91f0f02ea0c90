/-
  Message passing — programs written by a printer.

  Two steps of writing a program are not its own: a scalar becomes a literal, and a text
  becomes an identifier.  Either can fail.  A `Printer` is a choice of these two steps;
  `print` takes them in the order in which a program needs them, and `emit` does so after
  compiling.
-/
import MessagePassing.Stack

namespace MessagePassing

open Code

/-- The steps of writing code that can fail. -/
structure Printer where
  /-- The literal of a scalar. -/
  scalar : Scalar → Outcome String
  /-- A text as an identifier. -/
  name : String → Outcome String

namespace Printer

variable (w : Printer)

/-- The declaration of a constant array of scalars. -/
def scalarsConstant (name : String) (values : Array Scalar) : Outcome Code := do
  let size := Program.countText values.size
  let items := Program.listText (← values.toList.mapM w.scalar)
  pure (line s!"const {name}: [f32; {size}] = {items};")

/-- The constants of layer `i`, and its evaluation. -/
def layer (p : Perceptron) (label : String) (d : Dense) (i : Nat) :
    Outcome (List Code × List Code) := do
  let weight ← w.name s!"{label}_W{i}"
  let bias ← w.name s!"{label}_B{i}"
  let constants := [← w.scalarsConstant weight d.weight, ← w.scalarsConstant bias d.bias]
  let input := Program.countText d.input
  let output := Program.countText d.output
  let step := line s!"let mut h = dense(&h, rows, {input}, {output}, &{weight}, &{bias});"
  pure (constants,
    step :: if p.activatesAfter i then Program.activationCode p.activation else [])

/-- A name in capitals. -/
def capitals (name : String) : String := .ofList (name.toList.map Char.toUpper)

/-- An update function.  Its constants are called after it, in capitals. -/
def updateFunction (name : String) (p : Perceptron) : Outcome (List Code) := do
  let name ← w.name name
  let layers ← p.layers.zipIdx.mapM fun (d, i) => w.layer p (capitals name) d i
  pure (layers.flatMap Prod.fst ++
    [block s!"fn {name}(input: &[f32], rows: usize) -> Vec<f32>"
      (line "let h = input.to_vec();" :: layers.flatMap Prod.snd ++ [line "h"])])

end Printer

/-- The code of a program. -/
def Program.print (w : Printer) (p : Program) : Outcome (List Code) := do
  let edge ← w.updateFunction "edge_update" p.updates.edge
  let node ← w.updateFunction "node_update" p.updates.node
  let global ← w.updateFunction "global_update" p.updates.global
  let (summary, comment) := p.captions
  pure (header p.name summary ++ p.topology.toList.flatMap topologyCode ++
    entryPoint comment (p.steps.flatMap stepCode) ++ (edge ++ node ++ global) ++ helpers)

/-- The code of a program that runs its modules in order.  Its members are written
    already. -/
def StackProgram.print (w : Printer) (p : StackProgram) : Outcome (List Code) := do
  let names ← p.members.mapM fun (module, _) => w.name module
  pure (Program.header p.name "stack" ++
    Program.entryPoint "Runs every member model in order."
      (names.map fun module =>
        line s!"self::{module}::infer(node_data, edge_data, global_data);") ++
    p.members.map fun (module, member) => block s!"pub mod {module}" member.code)

/-- The model of the description, and the text of its program if it is wanted. -/
def Description.emit (w : Printer) (d : Description) (parameters : Parameters)
    (rename : Option String) (withProgram : Bool) : Outcome (Model × Option String) := do
  let m ← d.compile parameters rename withProgram
  match m.program with
  | none => pure (m, none)
  | some program => pure (m, some (Code.text (← program.print w)))

end MessagePassing
