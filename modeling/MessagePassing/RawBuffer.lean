/-
  Message passing — buffers as they are stored.

  A raw buffer is a shape beside a flat array of values, and nothing says that one fits the
  other.  Its operations know positions only: they compute where a row starts and stops, and read,
  append or write what lies there.  A position that is no count, or that lies outside of the
  storage, is a fault.

  An operation in place changes the buffer write by write, and what is written by then stays if
  a later step fails.
-/
import MessagePassing.Reducer

namespace MessagePassing

/-- A shape, and values that may be too few or too many for it. -/
@[ext]
structure RawBuffer where
  rows : Nat
  cols : Nat
  data : Array Scalar

/-- A buffer as it is stored. -/
def Buffer.raw (b : Buffer) : RawBuffer := ⟨b.rows, b.cols, b.data⟩

/-- What is written for a row, over the values that are there. -/
structure RowWriter where
  write : Array Scalar → Array Scalar → Array Scalar
  size_write : ∀ row values, (write row values).size = values.size

namespace RawBuffer

/-! ## Rows -/

/-- Where row `i` starts and stops. -/
def span (b : RawBuffer) (i : Nat) : Outcome (Nat × Nat) := do
  let start ← Count.mul i b.cols
  let next ← Count.add i 1
  let stop ← Count.mul next b.cols
  pure (start, stop)

/-- Row `i` of a caller that promises it. -/
def row (b : RawBuffer) (i : Nat) : Outcome (Array Scalar) := do
  let (start, stop) ← b.span i
  if stop ≤ b.data.size then pure (b.data.extract start stop)
  else .error (.fault .outOfRange)

/-- Row `i`, if there is one. -/
def getRow (b : RawBuffer) (i : Nat) : Outcome (Option (Array Scalar)) :=
  if i < b.rows then some <$> b.row i else pure none

/-- Every row, in order. -/
def iterRows (b : RawBuffer) : Outcome (List (Array Scalar)) := (List.range b.rows).mapM b.row

/-- Write over the values from `start` to before `stop`, with as many. -/
def overwriteRange (data : Array Scalar) (start stop : Nat) (values : Array Scalar) :
    Outcome (Array Scalar) :=
  if start ≤ stop ∧ stop ≤ data.size ∧ values.size = stop - start then
    .ok (data.extract 0 start ++ values ++ data.extract stop data.size)
  else .error (.fault .outOfRange)

/-! ## Construction -/

/-- Zeros, for a shape that the caller promises to fit. -/
def zeros (rows cols : Nat) : Outcome RawBuffer := do
  let count ← Count.mul rows cols
  pure ⟨rows, cols, Array.replicate count 0⟩

/-- The number of values of a shape from outside. -/
def elementCount (rows cols : Nat) : Outcome Nat :=
  if rows * cols < Count.limit then .ok (rows * cols) else refuseShape (.tooLarge rows cols)

/-- Zeros, for any shape. -/
def tryZeros (rows cols : Nat) : Outcome RawBuffer := do
  let count ← elementCount rows cols
  pure ⟨rows, cols, Array.replicate count 0⟩

/-- Wrap a flat row-major sequence. -/
def ofFlat (data : Array Scalar) (rows cols : Nat) : Outcome RawBuffer := do
  let count ← elementCount rows cols
  if data.size ≠ count then refuseShape (.valueCount rows cols data.size)
  else pure ⟨rows, cols, data⟩

/-- A buffer from its rows, all of width `cols`. -/
def ofRowsOfWidth (rows : List (Array Scalar)) (cols : Nat) : Outcome RawBuffer :=
  match Buffer.misfit? rows cols with
  | some (row, i) => refuseShape (.rowWidth i row.size cols)
  | none => .ok ⟨rows.length, cols, rows.toArray.flatten⟩

/-- A buffer from its rows, all as wide as the first; no rows give the empty buffer. -/
def ofRows (rows : List (Array Scalar)) : Outcome RawBuffer :=
  ofRowsOfWidth rows ((rows.head?.map Array.size).getD 0)

/-! ## Change in place -/

/-- A computation that changes a buffer.  What it has written stays even if it fails. -/
abbrev InPlace := ExceptT Failure (StateM RawBuffer)

/-- The old storage up to the new number of values, and zeros where it was shorter. -/
def fitted (data : Array Scalar) (count : Nat) : Array Scalar :=
  data.extract 0 count ++ Array.replicate (count - data.size) 0

/-- The first `kept` values of row `i`, in row `i` of a storage of another width. -/
def copyRow (b : RawBuffer) (cols kept : Nat) (data : Array Scalar) (i : Nat) :
    Outcome (Array Scalar) := do
  let start ← Count.mul i cols
  let stop ← Count.add start kept
  let row ← b.row i
  if kept ≤ row.size then overwriteRange data start stop (row.extract 0 kept)
  else .error (.fault .outOfRange)

/-- Change the shape.  For as many columns as before the storage is cut or extended, and else
    its rows are copied to a new one. -/
def resize (rows cols : Nat) : InPlace Unit := do
  let b ← get
  if cols = b.cols then do
    let count ← (Count.mul rows cols : Outcome Nat)
    modify fun b => { b with data := fitted b.data count }
    modify fun b => { b with rows := rows }
  else do
    let count ← (Count.mul rows cols : Outcome Nat)
    let data ← ((List.range (min rows b.rows)).foldlM (b.copyRow cols (min cols b.cols))
      (Array.replicate count 0) : Outcome (Array Scalar))
    set (⟨rows, cols, data⟩ : RawBuffer)

/-- Overwrite row `i`. -/
def setRow (i : Nat) (values : Array Scalar) : InPlace Unit := do
  let b ← get
  if b.rows ≤ i then (refuseShape (.noSuchRow i b.rows) : Outcome Unit)
  else if values.size ≠ b.cols then (refuseShape (.rowValues i values.size b.cols) : Outcome Unit)
  else do
    let (start, stop) ← (b.span i : Outcome (Nat × Nat))
    let data ← (overwriteRange b.data start stop values : Outcome (Array Scalar))
    set { b with data := data }

/-! ## Rows and columns of other buffers -/

/-- Buffers side by side, for a caller that promises equally many rows: row by row, the rows of
    all of them. -/
def stack (parts : List RawBuffer) : Outcome RawBuffer := do
  let rows := (parts.head?.map RawBuffer.rows).getD 0
  let cols ← Count.sum (parts.map RawBuffer.cols)
  Count.check (rows * cols)
  let data ← (List.range rows).foldlM (fun data i =>
    parts.foldlM (fun data part => do pure (data ++ (← part.row i))) data) #[]
  pure ⟨rows, cols, data⟩

/-- Buffers side by side; they must have equally many rows. -/
def joinColumns (parts : List RawBuffer) : Outcome RawBuffer :=
  let rows := (parts.head?.map RawBuffer.rows).getD 0
  match parts.find? fun p => p.rows ≠ rows with
  | some other => refuseShape (.rowCounts rows other.rows)
  | none => stack parts

/-- The columns from `start` to before `stop`. -/
def columns (b : RawBuffer) (start stop : Nat) : Outcome RawBuffer :=
  if stop < start ∨ b.cols < stop then refuseShape (.columnRange start stop b.cols)
  else do
    let data ← (List.range b.rows).foldlM (fun data i => do
      let row ← b.row i
      if stop ≤ row.size then pure (data ++ row.extract start stop)
      else .error (.fault .outOfRange)) #[]
    pure ⟨b.rows, stop - start, data⟩

/-- Row `k` of the result is row `indices[k]`. -/
def gather (b : RawBuffer) (indices : Array Nat) : Outcome RawBuffer := do
  Count.check (indices.size * b.cols)
  let data ← indices.toList.foldlM (fun data i => do pure (data ++ (← b.row i))) #[]
  pure ⟨indices.size, b.cols, data⟩

/-- The first row, `rows` times. -/
def broadcast (b : RawBuffer) (rows : Nat) : Outcome RawBuffer := do
  let first ← b.row 0
  Count.check (first.size * rows)
  pure ⟨rows, b.cols, (Array.replicate rows first).flatten⟩

/-! ## Rows by themselves -/

/-- Write chunk `i` of a storage, for row `i` of the buffer.  Chunks have `cols` values, and the
    last one has what is left. -/
def writeChunk (b : RawBuffer) (cols : Nat) (f : RowWriter) (data : Array Scalar) (i : Nat) :
    Outcome (Array Scalar) := do
  let row ← b.row i
  let start := i * cols
  let stop := min (start + cols) data.size
  overwriteRange data start stop (f.write row (data.extract start stop))

/-- Every row by itself, each written over a chunk of zeros.  Without columns there are no
    chunks. -/
def mapRows (b : RawBuffer) (cols : Nat) (f : RowWriter) : Outcome RawBuffer := do
  let start ← zeros b.rows cols
  if cols = 0 then pure start
  else do
    let data ← (List.range ((start.data.size + (cols - 1)) / cols)).foldlM
      (b.writeChunk cols f) start.data
    pure { start with data := data }

/-- Every row by itself as in `mapRows`, with the rows in the given order. -/
def mapRowsIn (b : RawBuffer) (order : List Nat) (cols : Nat) (f : RowWriter) :
    Outcome RawBuffer := do
  let start ← zeros b.rows cols
  if cols = 0 then pure start
  else do
    let data ← order.foldlM (b.writeChunk cols f) start.data
    pure { start with data := data }

/-! ## Reductions -/

/-- Write over row `i`, for a caller that promises a row of as many values. -/
def putRow (b : RawBuffer) (i : Nat) (values : Array Scalar) : Outcome RawBuffer := do
  let (start, stop) ← b.span i
  let data ← overwriteRange b.data start stop values
  pure { b with data := data }

end RawBuffer

/-- The sums of destinations, as they are stored, and the number of rows in each. -/
structure RawTotals where
  sums : RawBuffer
  counts : Array Nat

namespace RawTotals

/-- Add row `k` of a source to destination `j`. -/
def addRow (source : RawBuffer) (t : RawTotals) (j k : Nat) : Outcome RawTotals := do
  let row ← source.row k
  if j < t.counts.size then
    let count ← Count.add (t.counts.getD j 0) 1
    let sum ← t.sums.row j
    let sums ← t.sums.putRow j (Array.zipWith (· + ·) sum row)
    pure ⟨sums, t.counts.setIfInBounds j count⟩
  else .error (.fault .outOfRange)

/-- Divide the sum of destination `j` by its number of rows; without rows it stays. -/
def divide (sums : RawBuffer) (count j : Nat) : Outcome RawBuffer :=
  if 0 < count then do
    let sum ← sums.row j
    sums.putRow j (sum.map (· / Scalar.ofNat count))
  else pure sums

/-- The rows of all destinations, from their sums. -/
def finish (t : RawTotals) (r : Reducer) : Outcome RawBuffer :=
  match r with
  | .sum => .ok t.sums
  | .mean => t.counts.toList.zipIdx.foldlM (fun sums (count, j) => divide sums count j) t.sums

end RawTotals

namespace RawBuffer

/-- One row per destination, for an index that the caller promises to fit. -/
def reduce (source : RawBuffer) (r : Reducer) (index : Array Nat) (segments : Nat) :
    Outcome RawBuffer := do
  let start ← zeros segments source.cols
  let totals ← index.toList.zipIdx.foldlM (fun t (j, k) => t.addRow source j k)
    (⟨start, Array.replicate segments 0⟩ : RawTotals)
  totals.finish r

/-- One row per destination, for any index. -/
def aggregate (source : RawBuffer) (r : Reducer) (index : Array Nat) (segments : Nat) :
    Outcome RawBuffer :=
  if index.size ≠ source.rows then refuseShape (.destinationCount index.size source.rows)
  else match index.find? (segments ≤ ·) with
    | some bad => refuseAdjacency (.destination bad segments)
    | none => source.reduce r index segments

end RawBuffer

end MessagePassing
