/-
  Message passing — perceptrons as they run on rows.

  `Dense.apply` reads each weight by its position.  A run walks along the weights: it
  cuts them into chunks of the output width, takes one chunk per input, and adds its
  products to a row that it overwrites.  Lengths that do not agree, and chunks without
  values, are faults.
-/
import MessagePassing.Update.Perceptron

namespace MessagePassing

/-! ## Walking along rows -/

/-- The chunks of `n` values, without an incomplete one at the end. -/
def fullChunks (n : Nat) (values : List Scalar) : List (List Scalar) :=
  if 0 < n ∧ n ≤ values.length then
    values.take n :: fullChunks n (values.drop n)
  else []
termination_by values.length
decreasing_by simp only [List.length_drop]; omega

/-- The chunks of `n` values, which must be some. -/
def chunksExact (n : Nat) (values : List Scalar) : Outcome (List (List Scalar)) :=
  if n = 0 then .error (.fault .outOfRange) else .ok (fullChunks n values)

/-- Write values over a row that has as many. -/
def overwrite (row values : Array Scalar) : Outcome (Array Scalar) :=
  if row.size = values.size then .ok values else .error (.fault .outOfRange)

/-- Add the products with `x` of a chunk of weights, as far as both go. -/
def addProducts (x : Scalar) : List Scalar → List Scalar → List Scalar
  | y :: row, w :: chunk => (y + x * w) :: addProducts x row chunk
  | row, _ => row

/-! ## Layers -/

/-- The layer on a row, written over another row. -/
def Dense.applyOnto (d : Dense) (x row : Array Scalar) : Outcome (Array Scalar) :=
  if x.size = d.input then do
    let start ← overwrite row d.bias
    let chunks ← chunksExact (max d.output 1) d.weight.toList
    let sums := (x.toList.zip chunks).foldl (fun y (xi, chunk) => addProducts xi y chunk)
      start.toList
    pure sums.toArray
  else .error (.fault .outOfRange)

namespace Perceptron

/-- Layer `i` on a row of zeros, and what follows it. -/
def runLayer (p : Perceptron) (x : Array Scalar) (d : Dense) (i : Nat) :
    Outcome (Array Scalar) := do
  let next ← d.applyOnto x (Array.replicate d.output 0)
  pure (if p.activatesAfter i then p.activation.onRow next else next)

/-- The perceptron on a row, layer by layer. -/
def run (p : Perceptron) (x : Array Scalar) : Outcome (Array Scalar) :=
  p.layers.zipIdx.foldlM (fun x (d, i) => p.runLayer x d i) x

/-- The perceptron on every row of a buffer, each written over a row of zeros.  Rows
    without columns are not visited. -/
def runRows (p : Perceptron) (b : Buffer) : Outcome (Array Scalar) := do
  let start ← Buffer.zeros b.rows p.outputWidth
  if p.outputWidth = 0 then pure start.data
  else do
    let rows ← (List.range b.rows).mapM fun r => do
      overwrite (start.rowAt r) (← p.run (b.rowAt r))
    pure rows.toArray.flatten

end Perceptron

end MessagePassing
