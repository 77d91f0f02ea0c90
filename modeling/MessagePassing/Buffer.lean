/-
  Message passing — feature buffers.

  A buffer holds one row per entity and one column per feature, row-major in one
  flat array.  Operations that build a buffer build it row by row (`tabulate`);
  `rowAt_tabulate` gives the rows back, and the laws of the operations on rows
  follow from it.  A `Table` is a buffer whose row count is known: operations on
  tables cannot meet rows that do not line up.
-/
import MessagePassing.Count
import MessagePassing.Scalar

namespace MessagePassing

/-- A table of scalars, row after row in `data`. -/
@[ext]
structure Buffer where
  rows : Nat
  cols : Nat
  data : Array Scalar
  size_data : data.size = rows * cols

namespace Buffer

/-! ## Rows -/

/-- Row `i`; the values that lie there, for an index past the last row. -/
def rowAt (b : Buffer) (i : Nat) : Array Scalar :=
  b.data.extract (i * b.cols) ((i + 1) * b.cols)

/-- Row `i`, if there is one. -/
def row? (b : Buffer) (i : Nat) : Option (Array Scalar) :=
  if i < b.rows then some (b.rowAt i) else none

/-- Row `i` of a caller that promises it: a fault where its place in the storage
    is no range of the storage. -/
def row (b : Buffer) (i : Nat) : Outcome (Array Scalar) := do
  let start ← Count.mul i b.cols
  let next ← Count.add i 1
  let stop ← Count.mul next b.cols
  if stop ≤ b.data.size then pure (b.data.extract start stop)
  else .error (.fault .outOfRange)

/-- Every row, in order. -/
def rowList (b : Buffer) : List (Array Scalar) := (List.range b.rows).map b.rowAt

theorem size_rowAt (b : Buffer) {i : Nat} (h : i < b.rows) : (b.rowAt i).size = b.cols := by
  have fits : (i + 1) * b.cols ≤ b.rows * b.cols := Nat.mul_le_mul_right _ h
  have step : (i + 1) * b.cols = i * b.cols + b.cols := Nat.succ_mul i b.cols
  simp only [rowAt, Array.size_extract, b.size_data]
  omega

/-! ## Building row by row -/

/-- The rows `f 0`, ..., `f (n - 1)` one after the other. -/
def joinRows (f : Nat → Array Scalar) (n : Nat) : Array Scalar :=
  Nat.fold n (fun i _ done => done ++ f i) #[]

theorem joinRows_succ (f : Nat → Array Scalar) (n : Nat) :
    joinRows f (n + 1) = joinRows f n ++ f n := by
  simp [joinRows, Nat.fold_succ]

theorem size_joinRows {f : Nat → Array Scalar} {cols : Nat} (n : Nat)
    (h : ∀ i, i < n → (f i).size = cols) : (joinRows f n).size = n * cols := by
  induction n with
  | zero => simp [joinRows]
  | succ n ih =>
    rw [joinRows_succ, Array.size_append, ih fun i hi => h i (by omega), h n (by omega),
      Nat.succ_mul]

/-- The buffer whose row `i` is `f i`.  Rows without columns are not visited. -/
def tabulate (rows cols : Nat) (f : Nat → Array Scalar)
    (h : ∀ i, i < rows → (f i).size = cols) : Buffer where
  rows := rows
  cols := cols
  data := if cols = 0 then #[] else joinRows f rows
  size_data := by
    split
    · simp [*]
    · exact size_joinRows rows h

theorem extract_joinRows {f : Nat → Array Scalar} {cols : Nat} (n : Nat)
    (h : ∀ i, i < n → (f i).size = cols) {i : Nat} (hi : i < n) :
    (joinRows f n).extract (i * cols) ((i + 1) * cols) = f i := by
  induction n with
  | zero => omega
  | succ n ih =>
    have sizes : (joinRows f n).size = n * cols := size_joinRows n fun j hj => h j (by omega)
    rw [joinRows_succ, Array.extract_append, sizes]
    by_cases last : i = n
    · subst last
      have here : (joinRows f i).extract (i * cols) ((i + 1) * cols) = #[] :=
        Array.extract_empty_of_size_le_start (by omega)
      have step : (i + 1) * cols - i * cols = cols := by
        rw [Nat.succ_mul]; omega
      rw [here, Nat.sub_self, step, Array.empty_append]
      exact Array.extract_eq_self_of_le (Nat.le_of_eq (h i (by omega)))
    · have before : i < n := by omega
      have fits : (i + 1) * cols ≤ n * cols := Nat.mul_le_mul_right _ before
      rw [ih (fun j hj => h j (by omega)) before, Nat.sub_eq_zero_of_le fits]
      simp

theorem rowAt_tabulate {rows cols : Nat} {f : Nat → Array Scalar}
    (h : ∀ i, i < rows → (f i).size = cols) {i : Nat} (hi : i < rows) :
    (tabulate rows cols f h).rowAt i = f i := by
  by_cases none : cols = 0
  · have nothing : f i = #[] := Array.eq_empty_of_size_eq_zero (by rw [h i hi, none])
    simp [rowAt, tabulate, none, nothing]
  · simpa [rowAt, tabulate, none] using extract_joinRows rows h hi

/-! ## Construction -/

/-- Zeros in every place. -/
def blank (rows cols : Nat) : Buffer :=
  ⟨rows, cols, Array.replicate (rows * cols) 0, by simp⟩

/-- The buffer without rows and columns. -/
def empty : Buffer := ⟨0, 0, #[], by simp⟩

/-- Zeros, for a shape that the caller promises to fit. -/
def zeros (rows cols : Nat) : Outcome Buffer := do
  Count.check (rows * cols)
  pure (blank rows cols)

/-- Zeros, for any shape. -/
def tryZeros (rows cols : Nat) : Outcome Buffer :=
  if rows * cols < Count.limit then .ok (blank rows cols)
  else refuseShape (.tooLarge rows cols)

/-- Wrap a flat row-major sequence. -/
def ofFlat (data : Array Scalar) (rows cols : Nat) : Outcome Buffer :=
  if rows * cols < Count.limit then
    if h : data.size = rows * cols then .ok ⟨rows, cols, data, h⟩
    else refuseShape (.valueCount rows cols data.size)
  else refuseShape (.tooLarge rows cols)

/-- The first row of another width, with its position. -/
def misfit? (rows : List (Array Scalar)) (cols : Nat) : Option (Array Scalar × Nat) :=
  rows.zipIdx.find? fun (row, _) => row.size ≠ cols

theorem size_of_misfit?_eq_none {rows : List (Array Scalar)} {cols : Nat}
    (h : misfit? rows cols = none) : ∀ row ∈ rows, row.size = cols := by
  intro row hrow
  obtain ⟨i, hi⟩ := List.getElem?_of_mem hrow
  simpa using List.find?_eq_none.mp h (row, i) (List.mem_zipIdx_iff_getElem?.mpr hi)

/-- A buffer from its rows, all of width `cols`. -/
def ofRowsOfWidth (rows : List (Array Scalar)) (cols : Nat) : Outcome Buffer :=
  match h : misfit? rows cols with
  | some (row, i) => refuseShape (.rowWidth i row.size cols)
  | none => .ok
    { rows := rows.length
      cols := cols
      data := (rows.map Array.toList).flatten.toArray
      size_data := by
        have widths := size_of_misfit?_eq_none h
        clear h
        induction rows with
        | nil => simp
        | cons row rest ih =>
          have tail := ih fun r hr => widths r (List.mem_cons_of_mem _ hr)
          have head := widths row List.mem_cons_self
          simp only [List.size_toArray, List.map_cons, List.flatten_cons, List.length_append,
            List.length_cons] at tail ⊢
          rw [tail, Nat.succ_mul, Array.length_toList, head, Nat.add_comm] }

/-- A buffer from its rows, all as wide as the first; no rows give the empty buffer. -/
def ofRows (rows : List (Array Scalar)) : Outcome Buffer :=
  ofRowsOfWidth rows ((rows.head?.map Array.size).getD 0)

/-! ## Change of shape and of rows -/

/-- Cut or extend the storage, for as many columns as before. -/
def withRows (b : Buffer) (rows : Nat) : Buffer where
  rows := rows
  cols := b.cols
  data := b.data.extract 0 (rows * b.cols) ++
    Array.replicate (rows * b.cols - b.data.size) 0
  size_data := by
    simp only [Array.size_append, Array.size_extract, Array.size_replicate]
    omega

/-- Cut or extend every row. -/
def recut (b : Buffer) (rows cols : Nat) : Buffer :=
  tabulate rows cols
    (fun i =>
      if i < b.rows then (b.rowAt i).extract 0 cols ++ Array.replicate (cols - b.cols) 0
      else Array.replicate cols 0)
    (by
      intro i _
      split
      · rename_i h
        simp only [Array.size_append, Array.size_extract, Array.size_replicate, b.size_rowAt h]
        omega
      · simp)

/-- Change the shape: values whose place exists in both shapes stay, new places are zero. -/
def resize (b : Buffer) (rows cols : Nat) : Outcome Buffer := do
  Count.check (rows * cols)
  pure (if cols = b.cols then b.withRows rows else b.recut rows cols)

/-- Overwrite row `i`. -/
def setRow (b : Buffer) (i : Nat) (values : Array Scalar) : Outcome Buffer :=
  if hi : i < b.rows then
    if hv : values.size = b.cols then .ok
      { b with
        data := b.data.extract 0 (i * b.cols) ++ values ++
          b.data.extract ((i + 1) * b.cols) b.data.size
        size_data := by
          have fits : (i + 1) * b.cols ≤ b.rows * b.cols := Nat.mul_le_mul_right _ hi
          have step : (i + 1) * b.cols = i * b.cols + b.cols := Nat.succ_mul i b.cols
          simp only [Array.size_append, Array.size_extract, b.size_data, hv]
          omega }
    else refuseShape (.rowValues i values.size b.cols)
  else refuseShape (.noSuchRow i b.rows)

/-! ## Tables: buffers of a known row count -/

/-- A buffer of `rows` rows. -/
abbrev Table (rows : Nat) := { b : Buffer // b.rows = rows }

/-- Row `i` of tables side by side. -/
def joinedRow {rows : Nat} (parts : List (Table rows)) (i : Nat) : Array Scalar :=
  parts.foldl (fun row part => row ++ part.val.rowAt i) #[]

theorem size_foldl_rowAt {rows i : Nat} (hi : i < rows) (parts : List (Table rows))
    (done : Array Scalar) :
    (parts.foldl (fun row part => row ++ part.val.rowAt i) done).size =
      done.size + Count.total (parts.map fun part => part.val.cols) := by
  induction parts generalizing done with
  | nil => simp [Count.total]
  | cons p rest ih =>
    have row : (p.val.rowAt i).size = p.val.cols := p.val.size_rowAt (by rw [p.property]; exact hi)
    rw [List.foldl_cons, ih, Array.size_append, row, List.map_cons, Nat.add_assoc]
    rfl

/-- Tables side by side. -/
def sideBySide {rows : Nat} (parts : List (Table rows)) : Outcome (Table rows) := do
  let cols ← Count.sum (parts.map fun part => part.val.cols)
  Count.check (rows * cols)
  pure ⟨tabulate rows (Count.total (parts.map fun part => part.val.cols)) (joinedRow parts) (by
    intro i hi
    simpa [joinedRow] using size_foldl_rowAt hi parts #[]), rfl⟩

/-- Row `k` of the result is row `indices[k]`. -/
def gather (b : Buffer) (indices : Array Nat) (h : ∀ i ∈ indices, i < b.rows) :
    Outcome (Table indices.size) := do
  Count.check (indices.size * b.cols)
  pure ⟨tabulate indices.size b.cols (fun k => b.rowAt (indices.getD k 0)) (by
    intro k hk
    refine b.size_rowAt (h _ ?_)
    rw [Array.getD_eq_getD_getElem?, Array.getElem?_eq_getElem hk]
    exact Array.getElem_mem hk), rfl⟩

/-- The only row, `rows` times. -/
def broadcast (b : Table 1) (rows : Nat) : Outcome (Table rows) := do
  Count.check (rows * b.val.cols)
  pure ⟨tabulate rows b.val.cols (fun _ => b.val.rowAt 0)
    (fun _ _ => b.val.size_rowAt (by rw [b.property]; exact Nat.one_pos)), rfl⟩

/-- Every row by itself under `f`, which gives rows of `cols` values. -/
def mapRows {rows : Nat} (b : Table rows) (cols : Nat) (f : Array Scalar → Array Scalar)
    (h : ∀ x, (f x).size = cols) : Outcome (Table rows) := do
  Count.check (rows * cols)
  pure ⟨tabulate rows cols (fun i => f (b.val.rowAt i)) (fun _ _ => h _), rfl⟩

/-- The columns from `start` to before `stop`. -/
def columnRange {rows : Nat} (b : Table rows) (start stop : Nat) : Outcome (Table rows) :=
  if h : start ≤ stop ∧ stop ≤ b.val.cols then
    .ok ⟨tabulate rows (stop - start) (fun i => (b.val.rowAt i).extract start stop) (by
      intro i hi
      rw [Array.size_extract, b.val.size_rowAt (by rw [b.property]; exact hi)]
      omega), rfl⟩
  else refuseShape (.columnRange start stop b.val.cols)

/-- A buffer as a table of its row count. -/
def table (b : Buffer) : Table b.rows := ⟨b, rfl⟩

/-- Buffers side by side; they must have equally many rows. -/
def joinColumns (parts : List Buffer) : Outcome Buffer :=
  let rows := (parts.head?.map Buffer.rows).getD 0
  match h : parts.find? fun p => p.rows ≠ rows with
  | some other => refuseShape (.rowCounts rows other.rows)
  | none => do
    let joined ← sideBySide (parts.attach.map fun ⟨p, hp⟩ =>
      (⟨p, by simpa using List.find?_eq_none.mp h p hp⟩ : Table rows))
    pure joined.val

/-! ## Comparison -/

/-- Equal shapes, and values that are equal as numbers. -/
def agrees (a b : Buffer) : Bool :=
  a.rows == b.rows && a.cols == b.cols && Scalar.allAgree a.data b.data

end Buffer

end MessagePassing
