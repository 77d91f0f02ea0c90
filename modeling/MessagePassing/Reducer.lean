/-
  Message passing — reducers.

  A reducer gathers the rows of a buffer into one row per destination.  Every
  source row is added to the tally of its destination, in increasing order; the
  mean divides each tally by its number of rows.  A destination without rows
  keeps its zeros.
-/
import MessagePassing.Buffer
import MessagePassing.Tagged

namespace MessagePassing

/-- How the rows of one destination are combined. -/
inductive Reducer where
  | sum
  | mean
  deriving DecidableEq, Repr

/-- What has reached a destination: the number of rows and their sum. -/
structure Tally (width : Nat) where
  count : Nat
  total : Vector Scalar width

namespace Tally

variable {width : Nat}

/-- Nothing yet. -/
def empty : Tally width := ⟨0, Vector.replicate width 0⟩

/-- One more row. -/
def add (t : Tally width) (row : Array Scalar) : Tally width :=
  ⟨t.count + 1, t.total.mapIdx fun c x => x + row.getD c 0⟩

end Tally

/-- The tallies of `segments` destinations; source row `k` goes to `index[k]`. -/
def tallies (source : Buffer) (index : Array Nat) (segments : Nat) :
    Array (Tally source.cols) :=
  index.zipIdx.foldl (fun ts (j, k) => ts.modify j (·.add (source.rowAt k)))
    (.ofFn (n := segments) fun _ => Tally.empty)

namespace Reducer

instance : Tagged Reducer where
  values := [sum, mean]
  tag
    | sum => "sum"
    | mean => "mean"

/-- The reducer that a description names. -/
def ofTag (tag : String) : Outcome Reducer :=
  match Tagged.ofTag? tag with
  | some reducer => .ok reducer
  | none => refuseTag (.aggregator tag)

/-- The row of a destination. -/
def finish {width : Nat} (r : Reducer) (t : Tally width) : Vector Scalar width :=
  match r with
  | sum => t.total
  | mean => if t.count = 0 then t.total else t.total.map (· / Scalar.ofNat t.count)

/-- One row per destination, for an index that the caller promises to fit. -/
def reduce (r : Reducer) (source : Buffer) (index : Array Nat) (segments : Nat) :
    Outcome (Buffer.Table segments) := do
  Count.check (segments * source.cols)
  let ts := tallies source index segments
  pure ⟨.tabulate segments source.cols (fun j => (r.finish (ts.getD j .empty)).toArray)
    (fun _ _ => Vector.size_toArray _), rfl⟩

/-- One row from all rows. -/
def reduceAll (r : Reducer) (source : Buffer) : Outcome (Buffer.Table 1) :=
  r.reduce source (Array.replicate source.rows 0) 1

/-- One row per destination, for any index. -/
def aggregate (r : Reducer) (source : Buffer) (index : Array Nat) (segments : Nat) :
    Outcome (Buffer.Table segments) :=
  if index.size ≠ source.rows then refuseShape (.destinationCount index.size source.rows)
  else match index.find? (segments ≤ ·) with
    | some bad => refuseAdjacency (.destination bad segments)
    | none => r.reduce source index segments

end Reducer

end MessagePassing
