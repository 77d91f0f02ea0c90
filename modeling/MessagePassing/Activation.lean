/-
  Message passing — activations.

  An activation is a function on scalars, applied to every component of a row
  after a layer.
-/
import MessagePassing.Failure
import MessagePassing.Tagged

namespace MessagePassing

/-- The functions that can follow a layer. -/
inductive Activation where
  | identity
  | relu
  | sigmoid
  deriving DecidableEq, Repr

namespace Activation

instance : Tagged Activation where
  values := [identity, relu, sigmoid]
  tag
    | identity => "identity"
    | relu => "relu"
    | sigmoid => "sigmoid"

/-- The activation that a description names; "linear" is another word for the identity. -/
def ofTag (tag : String) : Outcome Activation :=
  if tag = "linear" then .ok identity
  else match Tagged.ofTag? tag with
    | some activation => .ok activation
    | none => refuseTag (.activation tag)

/-- The value of the activation at a scalar.  Anything with a sign bit, negative
    zero too, becomes positive zero under `relu`. -/
def onScalar : Activation → Scalar → Scalar
  | identity, x => x
  | relu, x => if Scalar.isSigned x then 0 else x
  | sigmoid, x => 1 / (1 + Scalar.exp (-x))

/-- The activation of every component. -/
def onRow (a : Activation) (row : Array Scalar) : Array Scalar := row.map a.onScalar

@[simp]
theorem size_onRow (a : Activation) (row : Array Scalar) : (a.onRow row).size = row.size := by
  simp [onRow]

end Activation

end MessagePassing
