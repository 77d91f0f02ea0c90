/-
  Message passing — operations by position.

  `Buffer` and `Reducer` make their results from whole rows.  A run goes through the storage: it
  computes the positions where a row starts and stops, and reads or writes what lies between
  them.  A position that is no count, or that lies outside of the storage, is a fault.

  An `Operation` is a call of an operation that can refuse its arguments: `perform` is what it
  does to rows, and `walk` how it goes through the storage.
-/
import MessagePassing.Graph.State
import MessagePassing.Reducer
import MessagePassing.Update.Dense

namespace MessagePassing

namespace Buffer

/-! ## Rows -/

/-- Write over the values from `start` to before `stop`, with as many. -/
def writeRange (b : Buffer) (start stop : Nat) (values : Array Scalar) : Outcome Buffer :=
  if h : start ≤ stop ∧ stop ≤ b.data.size ∧ values.size = stop - start then .ok
    { b with
      data := b.data.extract 0 start ++ values ++ b.data.extract stop b.data.size
      size_data := by
        have size := b.size_data
        simp only [Array.size_append, Array.size_extract]
        omega }
  else .error (.fault .outOfRange)

/-- Write over row `i`, for a caller that promises a row of as many values. -/
def putRow (b : Buffer) (i : Nat) (values : Array Scalar) : Outcome Buffer := do
  let start ← Count.mul i b.cols
  let next ← Count.add i 1
  let stop ← Count.mul next b.cols
  b.writeRange start stop values

/-- Overwrite row `i`. -/
def runSetRow (b : Buffer) (i : Nat) (values : Array Scalar) : Outcome Buffer :=
  if b.rows ≤ i then refuseShape (.noSuchRow i b.rows)
  else if values.size ≠ b.cols then refuseShape (.rowValues i values.size b.cols)
  else b.putRow i values

/-! ## Columns -/

/-- The storage of buffers side by side, for a caller that promises equally many rows: row by
    row, the rows of all buffers. -/
def stack (parts : List Buffer) : Outcome (Array Scalar) := do
  let rows := (parts.head?.map Buffer.rows).getD 0
  let cols ← Count.sum (parts.map Buffer.cols)
  Count.check (rows * cols)
  (List.range rows).foldlM (fun data i =>
    parts.foldlM (fun data part => do pure (data ++ (← part.row i))) data) #[]

/-- The storage of buffers side by side. -/
def runJoinColumns (parts : List Buffer) : Outcome (Array Scalar) :=
  let rows := (parts.head?.map Buffer.rows).getD 0
  match parts.find? fun p => p.rows ≠ rows with
  | some other => refuseShape (.rowCounts rows other.rows)
  | none => stack parts

/-- The storage of the columns from `start` to before `stop`. -/
def runColumnRange (b : Buffer) (start stop : Nat) : Outcome (Array Scalar) :=
  if stop < start ∨ b.cols < stop then refuseShape (.columnRange start stop b.cols)
  else (List.range b.rows).foldlM (fun data i => do
    let row ← b.row i
    if stop ≤ row.size then pure (data ++ row.extract start stop)
    else .error (.fault .outOfRange)) #[]

end Buffer

/-! ## Reductions -/

/-- The sums of destinations and the number of rows in each. -/
structure Totals where
  sums : Buffer
  counts : Array Nat

/-- Add row `k` of a source to destination `j`. -/
def Totals.addRow (t : Totals) (source : Buffer) (j k : Nat) : Outcome Totals := do
  let row ← source.row k
  if j < t.counts.size then
    let count ← Count.add (t.counts.getD j 0) 1
    let sum ← t.sums.row j
    let sums ← t.sums.putRow j (Array.zipWith (· + ·) sum row)
    pure ⟨sums, t.counts.setIfInBounds j count⟩
  else .error (.fault .outOfRange)

/-- Divide the sum of destination `j` by its number of rows; without rows it stays. -/
def Totals.divide (sums : Buffer) (count j : Nat) : Outcome Buffer :=
  if 0 < count then do
    let sum ← sums.row j
    sums.putRow j (sum.map (· / Scalar.ofNat count))
  else pure sums

namespace Reducer

/-- The rows of all destinations, from their sums. -/
def runFinish (r : Reducer) (t : Totals) : Outcome Buffer :=
  match r with
  | sum => .ok t.sums
  | mean => t.counts.toList.zipIdx.foldlM (fun sums (count, j) => Totals.divide sums count j) t.sums

/-- One row per destination, for an index that the caller promises to fit. -/
def runReduce (r : Reducer) (source : Buffer) (index : Array Nat) (segments : Nat) :
    Outcome Buffer := do
  let start ← Buffer.zeros segments source.cols
  let totals ← index.toList.zipIdx.foldlM (fun t (j, k) => t.addRow source j k)
    (⟨start, Array.replicate segments 0⟩ : Totals)
  r.runFinish totals

/-- One row per destination, for any index. -/
def runAggregate (r : Reducer) (source : Buffer) (index : Array Nat) (segments : Nat) :
    Outcome Buffer :=
  if index.size ≠ source.rows then refuseShape (.destinationCount index.size source.rows)
  else match index.find? (segments ≤ ·) with
    | some bad => refuseAdjacency (.destination bad segments)
    | none => r.runReduce source index segments

end Reducer

/-! ## States -/

namespace State

/-- The storages of the node, edge and global features. -/
def storages (s : State) : List (Array Scalar) := [s.nodes.data, s.edges.data, s.globals.data]

/-- The storages of two states of one graph side by side. -/
def runConcatenate (s t : State) : Outcome (List (Array Scalar)) :=
  if s.nodes.rows ≠ t.nodes.rows then
    refuseShape (.graphRows "node" s.nodes.rows t.nodes.rows)
  else if s.edges.rows ≠ t.edges.rows then
    refuseShape (.graphRows "edge" s.edges.rows t.edges.rows)
  else if s.senders ≠ t.senders ∨ s.receivers ≠ t.receivers then refuseAdjacency .different
  else do
    let nodes ← Buffer.stack [s.nodes, t.nodes]
    let edges ← Buffer.stack [s.edges, t.edges]
    let globals ← Buffer.stack [s.globals, t.globals]
    pure [nodes, edges, globals]

/-- The storages of the given columns of each kind of entity. -/
def runSliceFeatures (s : State) (nodes edges globals : Nat × Nat) :
    Outcome (List (Array Scalar)) := do
  let nodeCols ← s.nodes.runColumnRange nodes.1 nodes.2
  let edgeCols ← s.edges.runColumnRange edges.1 edges.2
  let globalCols ← s.globals.runColumnRange globals.1 globals.2
  pure [nodeCols, edgeCols, globalCols]

/-- The storages before and from the given widths on. -/
def runSplit (s : State) (cut : Widths) : Outcome (List (Array Scalar)) := do
  let head ← s.runSliceFeatures (0, cut.nodes) (0, cut.edges) (0, cut.globals)
  let tail ← s.runSliceFeatures (cut.nodes, s.widths.nodes) (cut.edges, s.widths.edges)
    (cut.globals, s.widths.globals)
  pure (head ++ tail)

end State

/-! ## Operations -/

/-- An operation on buffers, layers or states that can refuse its arguments. -/
inductive Operation where
  | tryZeros (rows cols : Nat)
  | ofFlat (data : Array Scalar) (rows cols : Nat)
  | ofRowsOfWidth (rows : List (Array Scalar)) (cols : Nat)
  | setRow (b : Buffer) (i : Nat) (values : Array Scalar)
  | joinColumns (parts : List Buffer)
  | columnRange (b : Buffer) (start stop : Nat)
  | aggregate (r : Reducer) (source : Buffer) (index : Array Nat) (segments : Nat)
  | ofTensors (weight bias : Array Scalar) (input output : Nat)
  | ofParts (nodes edges globals : Buffer) (senders receivers : Array Nat)
  | concatenate (s t : State)
  | sliceFeatures (s : State) (nodes edges globals : Nat × Nat)
  | split (s : State) (cut : Widths)

/-- What an operation gives. -/
inductive Answer where
  | buffer (b : Buffer)
  | layer (d : Dense)
  | state (s : State)
  | states (s t : State)

/-- The storages of an answer. -/
def Answer.storages : Answer → List (Array Scalar)
  | buffer b => [b.data]
  | layer d => [d.weight, d.bias]
  | state s => s.storages
  | states s t => s.storages ++ t.storages

namespace Operation

/-- The operation on whole rows. -/
def perform : Operation → Outcome Answer
  | tryZeros rows cols => .buffer <$> Buffer.tryZeros rows cols
  | ofFlat data rows cols => .buffer <$> Buffer.ofFlat data rows cols
  | ofRowsOfWidth rows cols => .buffer <$> Buffer.ofRowsOfWidth rows cols
  | setRow b i values => .buffer <$> b.setRow i values
  | joinColumns parts => .buffer <$> Buffer.joinColumns parts
  | columnRange b start stop => (fun t => .buffer t.val) <$> Buffer.columnRange b.table start stop
  | aggregate r source index segments =>
    (fun t => .buffer t.val) <$> r.aggregate source index segments
  | ofTensors weight bias input output => .layer <$> Dense.ofTensors weight bias input output
  | ofParts nodes edges globals senders receivers =>
    .state <$> State.ofParts nodes edges globals senders receivers
  | concatenate s t => .state <$> s.concatenate t
  | sliceFeatures s nodes edges globals => .state <$> s.sliceFeatures nodes edges globals
  | split s cut => (fun p => .states p.1 p.2) <$> s.split cut

/-- The operation by position; those that go through no storage are as they were. -/
def walk : Operation → Outcome (List (Array Scalar))
  | setRow b i values => (fun c => [c.data]) <$> b.runSetRow i values
  | joinColumns parts => ([·]) <$> Buffer.runJoinColumns parts
  | columnRange b start stop => ([·]) <$> b.runColumnRange start stop
  | aggregate r source index segments =>
    (fun c => [c.data]) <$> r.runAggregate source index segments
  | concatenate s t => s.runConcatenate t
  | sliceFeatures s nodes edges globals => s.runSliceFeatures nodes edges globals
  | split s cut => s.runSplit cut
  | o => Answer.storages <$> o.perform

end Operation

end MessagePassing
