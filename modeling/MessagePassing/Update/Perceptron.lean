/-
  Message passing — multilayer perceptrons.

  A perceptron is a non-empty chain of dense layers, each as wide at its input as
  the one before at its output.  The activation follows every layer but the last,
  and the last one too if the perceptron says so.  `bind` takes the layers from
  trained tensors.
-/
import MessagePassing.Activation
import MessagePassing.Buffer
import MessagePassing.Update.Dense
import MessagePassing.Update.Parameters

namespace MessagePassing

/-- Every layer feeds one of its own width. -/
def Chained : List Dense → Prop
  | a :: b :: rest => a.output = b.input ∧ Chained (b :: rest)
  | _ => True

/-- The first layer that feeds a layer of another width, and its position. -/
def unchained? : Nat → List Dense → Option (Nat × Dense × Dense)
  | i, a :: b :: rest =>
    if a.output = b.input then unchained? (i + 1) (b :: rest) else some (i, a, b)
  | _, _ => none

theorem chained_of_unchained? {layers : List Dense} {i : Nat}
    (h : unchained? i layers = none) : Chained layers := by
  induction layers generalizing i with
  | nil => trivial
  | cons a tail ih =>
    cases tail with
    | nil => trivial
    | cons b rest =>
      unfold unchained? at h
      split at h
      · rename_i same
        exact ⟨same, ih h⟩
      · simp at h

/-- A chain of layers with activations. -/
structure Perceptron where
  layers : List Dense
  activation : Activation
  /-- The activation follows the last layer as well. -/
  activateFinal : Bool
  nonempty : layers ≠ []
  chained : Chained layers

namespace Perceptron

/-- A perceptron from its layers. -/
def ofLayers (layers : List Dense) (activation : Activation) (activateFinal : Bool) :
    Outcome Perceptron :=
  if nonempty : layers = [] then refuseParameter .noLayers
  else match h : unchained? 0 layers with
    | some (i, a, b) => refuseShape (.layerWidths i a.output b.input)
    | none => .ok ⟨layers, activation, activateFinal, nonempty, chained_of_unchained? h⟩

/-- The width of the rows that the perceptron expects. -/
def inputWidth (p : Perceptron) : Nat := (p.layers.head p.nonempty).input

/-- The width of the rows that the perceptron gives. -/
def outputWidth (p : Perceptron) : Nat := (p.layers.getLast p.nonempty).output

/-- The activation follows layer `i`. -/
def activatesAfter (p : Perceptron) (i : Nat) : Bool :=
  i + 1 < p.layers.length || p.activateFinal

/-! ## Evaluation -/

/-- Layer `i` and what follows it. -/
def applyLayer (p : Perceptron) (i : Nat) (d : Dense) (x : Array Scalar) : Array Scalar :=
  if p.activatesAfter i then p.activation.onRow (d.apply x) else d.apply x

/-- Layers `i`, `i + 1`, ... on a row. -/
def applyLayers (p : Perceptron) (i : Nat) : List Dense → Array Scalar → Array Scalar
  | [], x => x
  | d :: rest, x => p.applyLayers (i + 1) rest (p.applyLayer i d x)

/-- The perceptron on a row. -/
def forward (p : Perceptron) (x : Array Scalar) : Array Scalar := p.applyLayers 0 p.layers x

@[simp]
theorem size_applyLayer (p : Perceptron) (i : Nat) (d : Dense) (x : Array Scalar) :
    (p.applyLayer i d x).size = d.output := by
  unfold applyLayer
  split <;> simp

theorem size_applyLayers (p : Perceptron) (i : Nat) (d : Dense) (rest : List Dense)
    (x : Array Scalar) :
    (p.applyLayers i (d :: rest) x).size = ((d :: rest).getLast (List.cons_ne_nil _ _)).output := by
  induction rest generalizing i d x with
  | nil => simp [applyLayers]
  | cons e rest ih =>
    rw [applyLayers, ih, List.getLast_cons (List.cons_ne_nil e rest)]

@[simp]
theorem size_forward (p : Perceptron) (x : Array Scalar) :
    (p.forward x).size = p.outputWidth := by
  obtain ⟨layers, activation, activateFinal, nonempty, chained⟩ := p
  cases layers with
  | nil => exact absurd rfl nonempty
  | cons d rest => exact size_applyLayers _ 0 d rest x

/-- The perceptron on every row of a buffer. -/
def apply {rows : Nat} (p : Perceptron) (b : Buffer.Table rows) : Outcome (Buffer.Table rows) :=
  Buffer.mapRows b p.outputWidth p.forward p.size_forward

/-- The widths from the input to the last layer, and the activation. -/
def describe (p : Perceptron) : String :=
  let widths := p.inputWidth :: p.layers.map Dense.output
  let shape := " -> ".intercalate (widths.map toString)
  let final := if p.activateFinal then " (final)" else ""
  s!"MLP [{shape}] activation: {Tagged.tag p.activation}{final}"

/-- Layers that are equal as numbers, and equal activations. -/
def agrees (a b : Perceptron) : Bool :=
  a.layers.length == b.layers.length &&
    ((a.layers.zip b.layers).all fun (c, d) => c.agrees d) &&
    a.activation == b.activation && a.activateFinal == b.activateFinal

end Perceptron

/-! ## Binding -/

/-- A computation that takes tensors out of a set of parameters.  What it has taken
    is gone even if it fails. -/
abbrev Binding := ExceptT Failure (StateM Parameters)

namespace Binding

/-- Take a tensor out and check it. -/
def take (name : String) (length : Nat) : Binding (Array Scalar) :=
  fun p => p.take name length

/-- Layers `layer`, `layer + 1`, ... of a module, for the widths after `input`. -/
def layers (module : String) (layout : WeightLayout) (layer input : Nat) :
    List Nat → Binding (List Dense)
  | [] => pure []
  | output :: rest => do
    let count ← (Count.mul input output : Outcome Nat)
    let stored ← take (Parameters.weightSlot module layer) count
    let bias ← take (Parameters.biasSlot module layer) output
    let weight ← (layout.toInOut stored input output : Outcome (Array Scalar))
    let first ← (Dense.ofTensors weight bias input output : Outcome Dense)
    let others ← layers module layout (layer + 1) output rest
    pure (first :: others)

end Binding

/-- The perceptron of a module: its tensors are taken layer by layer, weights before
    biases. -/
def Perceptron.bind (module : String) (input : Nat) (sizes : List Nat) (layout : WeightLayout)
    (activation : Activation) (activateFinal : Bool) : Binding Perceptron := do
  let layers ← Binding.layers module layout 0 input sizes
  (ofLayers layers activation activateFinal : Outcome Perceptron)

end MessagePassing
