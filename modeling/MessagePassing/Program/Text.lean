/-
  Message passing — the text of programs.

  A program is written as a module with one entry point, `infer`, that replaces
  three flat arrays.  Widths, topology, weights and biases are written out as
  constants; the loops that use them are the same helper functions in every
  program.
-/
import MessagePassing.Program.Basic
import MessagePassing.Program.Code

namespace MessagePassing

open Code

namespace Program

/-! ## Constants -/

/-- Scalars in programs are always positional, and whole ones have no point. -/
def scalarLayout : Layout where
  lowest := -64
  highest := 64
  fractionZero := false
  tie := .up

/-- A count. -/
def countText (n : Nat) : String := s!"{n}usize"

/-- A finite scalar. -/
def scalarText (x : Scalar) : String :=
  match x.literal? scalarLayout with
  | some l => l.text ++ "f32"
  | none => ""

/-- Texts with commas between them, in brackets. -/
def listText (items : List String) : String := "[" ++ ", ".intercalate items ++ "]"

/-- The declaration of a constant array of scalars. -/
def scalarsConstant (name : String) (values : Array Scalar) : Code :=
  let size := countText values.size
  let items := listText (values.toList.map scalarText)
  line s!"const {name}: [f32; {size}] = {items};"

/-! ## The parts of a program -/

/-- The version of the program format. -/
def version : String := "0.1.0"

/-- The first lines of a program. -/
def header (name summary : String) : List Code :=
  [line (s!"#![doc = \" Inference code for `{name}` ({summary}), generated by graphnet " ++
      s!"{version}. Do not edit.\"]"),
    line "#![allow(dead_code, unused_mut, unused_variables, clippy::all)]"]

/-- The entry point with a comment. -/
def entryPoint (comment : String) (body : List Code) : List Code :=
  [line s!"#[doc = r\" {comment}\"]",
    block ("pub fn infer(node_data: &mut Vec<f32>, edge_data: &mut Vec<f32>, " ++
      "global_data: &mut Vec<f32>)") body]

/-- What a layer is followed by. -/
def activationCode : Activation → List Code
  | .identity => []
  | .relu => [line "relu(&mut h);"]
  | .sigmoid => [line "sigmoid(&mut h);"]

/-- The constants of layer `i`. -/
def layerConstants (label : String) (i : Nat) (d : Dense) : List Code :=
  [scalarsConstant s!"{label}_W{i}" d.weight, scalarsConstant s!"{label}_B{i}" d.bias]

/-- The evaluation of layer `i`. -/
def layerStep (p : Perceptron) (label : String) (i : Nat) (d : Dense) : List Code :=
  let input := countText d.input
  let output := countText d.output
  line s!"let mut h = dense(&h, rows, {input}, {output}, &{label}_W{i}, &{label}_B{i});" ::
    if p.activatesAfter i then activationCode p.activation else []

/-- An update function: the constants of its layers, then the function. -/
def updateFunction (name label : String) (p : Perceptron) : List Code :=
  p.layers.zipIdx.flatMap (fun (d, i) => layerConstants label i d) ++
    [block s!"fn {name}(input: &[f32], rows: usize) -> Vec<f32>"
      (line "let h = input.to_vec();" ::
        p.layers.zipIdx.flatMap (fun (d, i) => layerStep p label i d) ++ [line "h"])]

/-- The three update functions. -/
def updateFunctions (updates : PerUpdate Perceptron) : List Code :=
  updateFunction "edge_update" "EDGE_UPDATE" updates.edge ++
    updateFunction "node_update" "NODE_UPDATE" updates.node ++
    updateFunction "global_update" "GLOBAL_UPDATE" updates.global

/-- The loops that every program uses. -/
def helpers : List Code :=
  [block ("fn dense(input: &[f32], rows: usize, input_width: usize, output_width: usize, " ++
      "weight: &[f32], bias: &[f32]) -> Vec<f32>")
    [line "let mut out = Vec::with_capacity(rows * output_width);",
      block "for r in 0..rows"
        [line "let mut y = bias.to_vec();",
          block "for (i, x) in input[r * input_width..(r + 1) * input_width].iter().enumerate()"
            [block "for (o, yo) in y.iter_mut().enumerate()"
              [line "*yo += x * weight[i * output_width + o];"]],
          line "out.extend_from_slice(&y);"],
      line "out"],
    block "fn relu(values: &mut [f32])"
      [block "for v in values.iter_mut()"
        [block "if v.is_sign_negative()" [line "*v = 0.0;"]]],
    block "fn sigmoid(values: &mut [f32])"
      [block "for v in values.iter_mut()" [line "*v = 1.0 / (1.0 + (-*v).exp());"]],
    block "fn gather(data: &[f32], width: usize, index: &[usize]) -> Vec<f32>"
      [line "let mut out = Vec::with_capacity(index.len() * width);",
        block "for &i in index"
          [line "out.extend_from_slice(&data[i * width..(i + 1) * width]);"],
        line "out"],
    block "fn concat(parts: &[(&[f32], usize)], rows: usize) -> Vec<f32>"
      [line "let mut out = Vec::new();",
        block "for r in 0..rows"
          [block "for (data, width) in parts"
            [line "out.extend_from_slice(&data[r * width..(r + 1) * width]);"]],
        line "out"],
    block ("fn segment_reduce(data: &[f32], width: usize, index: &[usize], segments: usize, " ++
        "mean: bool) -> Vec<f32>")
      [line "let mut out = vec![0.0f32; segments * width];",
        line "let mut counts = vec![0usize; segments];",
        block "for (k, &j) in index.iter().enumerate()"
          [line "counts[j] += 1;",
            block "for c in 0..width" [line "out[j * width + c] += data[k * width + c];"]],
        block "if mean"
          [block "for (j, &count) in counts.iter().enumerate()"
            [block "if count > 0"
              [block "for c in 0..width" [line "out[j * width + c] /= count as f32;"]]]],
        line "out"]]

/-! ## Steps -/

/-- The word for a kind of entity in names. -/
def entityText : Entity → String
  | .nodes => "node"
  | .edges => "edge"
  | .globals => "global"

/-- The name of an array. -/
def dataText : DataName → String
  | .own entity => entityText entity ++ "_data"
  | .received => "received"
  | .nodeSummary => "node_summary"
  | .edgeSummary => "edge_summary"

/-- A number of rows. -/
def rowCountText : RowCount → String
  | .nodes => "NUM_NODES"
  | .edges => "NUM_EDGES"
  | .single => "1"

/-- A list of row indices. -/
def indexText : IndexName → String
  | .senders => "&SENDERS"
  | .receivers => "&RECEIVERS"
  | .first count => s!"&[0usize; {rowCountText count}]"

/-- A part of an input with its width. -/
def operandText (o : Operand) : String :=
  let data := s!"&{dataText o.data}[..]"
  let width := countText o.width
  match o.index with
  | none => s!"({data}, {width})"
  | some index => s!"(&gather({data}, {width}, {indexText index})[..], {width})"

/-- The lines of a step. -/
def stepCode : Step → List Code
  | .join entity parts rows =>
    let items := listText (parts.map operandText)
    [line s!"let {entityText entity}_input = concat(&{items}, {rowCountText rows});"]
  | .update entity rows =>
    let word := entityText entity
    [line s!"*{word}_data = {word}_update(&{word}_input, {rowCountText rows});"]
  | .updateOwn entity width =>
    let word := entityText entity
    [line s!"let {word}s = {word}_data.len() / {countText width};",
      line s!"*{word}_data = {word}_update(&{word}_data[..], {word}s);"]
  | .reduce result source width index segments mean =>
    [line (s!"let {dataText result} = segment_reduce(&{dataText source}[..], " ++
      s!"{countText width}, {indexText index}, {rowCountText segments}, {mean});")]

/-! ## Programs -/

/-- The declaration of a constant array of node indices, one per edge. -/
def endpointsConstant (name : String) (indices : Array Nat) : Code :=
  let items := listText (indices.toList.map countText)
  line s!"pub const {name}: [usize; NUM_EDGES] = {items};"

/-- The constants of a graph. -/
def topologyCode (t : Topology) : List Code :=
  [line s!"pub const NUM_NODES: usize = {countText t.nodeCount};",
    line s!"pub const NUM_EDGES: usize = {countText t.senders.size};",
    endpointsConstant "SENDERS" t.senders,
    endpointsConstant "RECEIVERS" t.receivers]

/-- What a program comes from, and what its entry point does. -/
def captions (p : Program) : String × String :=
  match p.topology with
  | some _ => ("graph network",
    "Runs one message passing round on row-major node, edge and global buffers.")
  | none => ("graph independent",
    "Updates node, edge and global rows independently of each other.")

/-- The code of a program. -/
def code (p : Program) : List Code :=
  let (summary, comment) := p.captions
  header p.name summary ++ p.topology.toList.flatMap topologyCode ++
    entryPoint comment (p.steps.flatMap stepCode) ++ updateFunctions p.updates ++ helpers

/-- The text of a program. -/
def text (p : Program) : String := Code.text p.code

end Program

/-! ## Stack programs -/

namespace StackProgram

/-- The code of a program that runs its modules in order. -/
def code (p : StackProgram) : List Code :=
  Program.header p.name "stack" ++
    Program.entryPoint "Runs every member model in order."
      (p.members.map fun (module, _) =>
        line s!"self::{module}::infer(node_data, edge_data, global_data);") ++
    p.members.map fun (module, member) => block s!"pub mod {module}" member.code

/-- The text of the program. -/
def text (p : StackProgram) : String := Code.text p.code

end StackProgram

/-! ## Artifacts -/

/-- What a model or a stack can be written to a file as. -/
inductive Artifact where
  | program (program : Program)
  | stack (program : StackProgram)

namespace Artifact

/-- The name of the program. -/
def name : Artifact → String
  | program p => p.name
  | stack p => p.name

/-- The text of the program. -/
def text : Artifact → String
  | program p => p.text
  | stack p => p.text

/-- The file that holds the program. -/
def fileName (a : Artifact) : String := a.name ++ ".rs"

end Artifact

end MessagePassing
