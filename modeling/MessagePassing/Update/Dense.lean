/-
  Message passing — dense layers.

  A layer maps a row `x` to `bias + x * weight`, where the weight matrix is stored
  with one row per input.  The products are added to the bias input by input.
-/
import MessagePassing.Count
import MessagePassing.Scalar

namespace MessagePassing

/-- An affine map of rows of `input` scalars to rows of `output` scalars. -/
structure Dense where
  input : Nat
  output : Nat
  weight : Array Scalar
  bias : Array Scalar
  size_weight : weight.size = input * output
  size_bias : bias.size = output

namespace Dense

/-- A layer from its flat weight and its bias. -/
def ofTensors (weight bias : Array Scalar) (input output : Nat) : Outcome Dense := do
  Count.check (input * output)
  if hw : weight.size = input * output then
    if hb : bias.size = output then pure ⟨input, output, weight, bias, hw, hb⟩
    else refuseParameter (.biasLength bias.size output)
  else refuseParameter (.weightLength weight.size input output)

/-- The weight between an input and an output. -/
def weightAt (d : Dense) (i o : Nat) : Scalar := d.weight.getD (i * d.output + o) 0

/-- Add what input `i`, of value `x`, contributes to every output. -/
def addInput (d : Dense) (y : Array Scalar) (x : Scalar) (i : Nat) : Array Scalar :=
  y.mapIdx fun o value => value + x * d.weightAt i o

/-- The layer on a row. -/
def apply (d : Dense) (x : Array Scalar) : Array Scalar :=
  x.zipIdx.foldl (fun y (xi, i) => d.addInput y xi i) d.bias

@[simp]
theorem size_apply (d : Dense) (x : Array Scalar) : (d.apply x).size = d.output := by
  have keep : ∀ (l : List (Scalar × Nat)) (y : Array Scalar),
      (l.foldl (fun y (xi, i) => d.addInput y xi i) y).size = y.size := by
    intro l
    induction l with
    | nil => simp
    | cons p rest ih => intro y; rw [List.foldl_cons, ih]; simp [addInput]
  rw [apply, ← Array.foldl_toList, keep, d.size_bias]

/-- Equal widths, and values that are equal as numbers. -/
def agrees (a b : Dense) : Bool :=
  a.input == b.input && a.output == b.output && Scalar.allAgree a.weight b.weight &&
    Scalar.allAgree a.bias b.bias

end Dense

end MessagePassing
