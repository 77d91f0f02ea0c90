/-
  Message passing — the helper functions of programs.

  Programs work on flat row-major arrays, whose widths they are told.  Each of these
  functions is a loop that reads and writes single values or whole rows by position;
  it gives `none` where a position lies outside of its array.
-/
import MessagePassing.Scalar

namespace MessagePassing.Flat

/-! ## Reading and writing by position -/

/-- The values from `start` to before `stop`. -/
def slice? (data : Array Scalar) (start stop : Nat) : Option (Array Scalar) :=
  if start ≤ stop ∧ stop ≤ data.size then some (data.extract start stop) else none

/-- Row `r`, for rows of `width` values. -/
def row? (data : Array Scalar) (width r : Nat) : Option (Array Scalar) :=
  slice? data (r * width) ((r + 1) * width)

/-- Change the value at a position. -/
def modify? {α : Type} (xs : Array α) (i : Nat) (f : α → α) : Option (Array α) :=
  if i < xs.size then some (xs.modify i f) else none

/-- What `f` gives for each of a list of things, one after the other. -/
def joinAll? {α : Type} (f : α → Option (Array Scalar)) (xs : List α) : Option (Array Scalar) :=
  xs.foldlM (fun out x => do pure (out ++ (← f x))) #[]

/-! ## Layers -/

/-- A dense layer on a row: each product of an input and a weight is added to its
    output, input by input. -/
def denseRow? (output : Nat) (weight bias x : Array Scalar) : Option (Array Scalar) :=
  x.zipIdx.foldlM (fun y (xi, i) => y.zipIdx.mapM fun (yo, o) => do
    pure (yo + xi * (← weight[i * output + o]?))) bias

/-- A dense layer on every row. -/
def dense? (data : Array Scalar) (rows input output : Nat) (weight bias : Array Scalar) :
    Option (Array Scalar) :=
  joinAll? (fun r => do denseRow? output weight bias (← row? data input r)) (List.range rows)

/-- Positive zero in place of everything with a sign bit. -/
def relu (values : Array Scalar) : Array Scalar :=
  values.map fun v => if v.isSigned then 0 else v

/-- The logistic function of every value. -/
def sigmoid (values : Array Scalar) : Array Scalar :=
  values.map fun v => 1 / (1 + (-v).exp)

/-! ## Rows -/

/-- The rows that an index picks. -/
def gather? (data : Array Scalar) (width : Nat) (index : Array Nat) : Option (Array Scalar) :=
  joinAll? (row? data width) index.toList

/-- Row `r` of arrays side by side. -/
def concatRow? (parts : List (Array Scalar × Nat)) (r : Nat) : Option (Array Scalar) :=
  joinAll? (fun (data, width) => row? data width r) parts

/-- Arrays side by side, each with its width. -/
def concat? (parts : List (Array Scalar × Nat)) (rows : Nat) : Option (Array Scalar) :=
  joinAll? (concatRow? parts) (List.range rows)

/-! ## Segments -/

/-- The sums of segments, flat, and the number of rows in each. -/
structure Sums where
  totals : Array Scalar
  counts : Array Nat

/-- Add row `k` of an array to segment `j`. -/
def Sums.add? (data : Array Scalar) (width : Nat) (s : Sums) (j k : Nat) : Option Sums := do
  let counts ← modify? s.counts j (· + 1)
  let totals ← (List.range width).foldlM (fun out c => do
    let v ← data[k * width + c]?
    modify? out (j * width + c) (· + v)) s.totals
  pure ⟨totals, counts⟩

/-- Divide the sum of segment `j` by its number of rows; without rows it stays. -/
def divideSegment? (width : Nat) (totals : Array Scalar) (count j : Nat) :
    Option (Array Scalar) :=
  if 0 < count then
    (List.range width).foldlM (fun out c =>
      modify? out (j * width + c) (· / Scalar.ofNat count)) totals
  else some totals

/-- The sum of the rows of each segment, or their mean; row `k` belongs to segment
    `index[k]`. -/
def segmentReduce? (data : Array Scalar) (width : Nat) (index : Array Nat) (segments : Nat)
    (mean : Bool) : Option (Array Scalar) := do
  let start : Sums := ⟨Array.replicate (segments * width) 0, Array.replicate segments 0⟩
  let sums ← index.zipIdx.foldlM (fun s (j, k) => s.add? data width j k) start
  if mean then
    sums.counts.zipIdx.foldlM (fun totals (count, j) => divideSegment? width totals count j)
      sums.totals
  else pure sums.totals

end MessagePassing.Flat
