/-
  Message passing — raw buffers that hold rows.

  An operation on the raw form of a buffer ends as the operation on whole rows does, with the raw
  form of what that gives.  All that an operation is asked for is that its positions are counts.

  * `RawBuffer.row_raw`, `RawBuffer.overwriteRange_row`, `RawBuffer.foldlM_modifyRow`: one row,
    and a loop that changes rows in any order;
  * `RawBuffer.setRow_raw`: a row changed in place;
  * `RawBuffer.joinColumns_raw`, `RawBuffer.columns_raw`, `RawBuffer.gather_raw`,
    `RawBuffer.broadcast_raw`: rows and columns of other buffers;
  * `RawBuffer.foldlM_writeChunk`, `RawBuffer.mapRowsIn_raw`: rows by themselves, chunk by chunk
    and in any order;
  * `RawBuffer.aggregate_raw`: sums that are changed in place;
  * `RawBuffer.make_raw`: plain data.
-/
import MessagePassing.BufferSession
import MessagePassing.Proofs.Columns
import MessagePassing.Proofs.Operations

namespace MessagePassing

open Buffer (Table tableOf joinRows)
open MessagePassing.Count (within limit total)

/-! ## Rows -/

namespace Buffer

@[simp]
theorem rows_raw (b : Buffer) : b.raw.rows = b.rows := rfl

@[simp]
theorem cols_raw (b : Buffer) : b.raw.cols = b.cols := rfl

@[simp]
theorem data_raw (b : Buffer) : b.raw.data = b.data := rfl

end Buffer

namespace RawBuffer

variable {b c : Buffer} {i : Nat} {values : Array Scalar}

theorem row_raw (b : Buffer) (i : Nat) : b.raw.row i = b.row i := by
  simp only [row, span, Buffer.row, bind_assoc, pure_bind]
  rfl

/-- Reading every row of a buffer in range. -/
theorem iterRows_raw (h : b.InRange) : b.raw.iterRows = .ok b.rowList :=
  Outcome.mapM_eq_ok fun i hi => (row_raw b i).trans (Buffer.row_eq h (List.mem_range.1 hi))

theorem getRow_raw (h : b.InRange) (i : Nat) : b.raw.getRow i = .ok (b.row? i) := by
  rw [getRow, Buffer.row?, Buffer.rows_raw]
  by_cases hi : i < b.rows
  · rw [if_pos hi, if_pos hi, row_raw, Buffer.row_eq h hi]
    rfl
  · rw [if_neg hi, if_neg hi]
    rfl

theorem span_raw (h : b.InRange) (hi : i < b.rows) :
    b.raw.span i = .ok (i * b.cols, (i + 1) * b.cols) := by
  obtain ⟨start, next, stop⟩ := h.positions hi
  rw [span, Buffer.cols_raw, start, Outcome.ok_bind, next, Outcome.ok_bind, stop, Outcome.ok_bind]
  rfl

/-- Writing over the front of a row leaves its back. -/
theorem overwriteRange_front (c : Buffer) (hi : i < c.rows) (narrow : values.size ≤ c.cols) :
    overwriteRange c.data (i * c.cols) (i * c.cols + values.size) values =
      Buffer.data <$> c.setRow i (values ++ (c.rowAt i).extract values.size c.cols) := by
  have inside := Buffer.InRange.stop_le c hi
  have step : (i + 1) * c.cols = i * c.cols + c.cols := Nat.succ_mul i c.cols
  have back : (c.rowAt i).extract values.size c.cols =
      c.data.extract (i * c.cols + values.size) ((i + 1) * c.cols) := by
    rw [Buffer.rowAt, Array.extract_extract, step, Nat.min_self]
  have size : (values ++ (c.rowAt i).extract values.size c.cols).size = c.cols := by
    rw [Array.size_append, Array.size_extract, c.size_rowAt hi]
    omega
  rw [overwriteRange, if_pos ⟨by omega, by omega, by omega⟩, Buffer.setRow, dif_pos hi,
    dif_pos size]
  have behind : c.data.extract (i * c.cols + values.size) ((i + 1) * c.cols) ++
      c.data.extract ((i + 1) * c.cols) c.data.size =
        c.data.extract (i * c.cols + values.size) c.data.size := by
    rw [Array.extract_append_extract, Nat.min_eq_left (by omega), Nat.max_eq_right (by omega)]
  refine congrArg Except.ok ?_
  show _ = _ ++ (values ++ _) ++ _
  rw [back, ← behind]
  simp only [Array.append_assoc]

/-- Writing over a whole row. -/
theorem overwriteRange_row (c : Buffer) (hi : i < c.rows) (size : values.size = c.cols) :
    overwriteRange c.data (i * c.cols) ((i + 1) * c.cols) values =
      Buffer.data <$> c.setRow i values := by
  have front := overwriteRange_front c hi (Nat.le_of_eq size)
  rwa [size, Array.extract_empty_of_size_le_start (Nat.le_of_eq (c.size_rowAt hi)),
    Array.append_empty, ← Nat.succ_mul] at front

theorem putRow_raw (b : Buffer) (i : Nat) (values : Array Scalar) :
    b.raw.putRow i values = Buffer.raw <$> b.putRow i values := by
  simp only [putRow, span, Buffer.putRow, bind_assoc, pure_bind, map_bind]
  refine Outcome.bind_congr fun start _ => Outcome.bind_congr fun next _ =>
    Outcome.bind_congr fun stop _ => ?_
  rw [overwriteRange, Buffer.writeRange, Buffer.data_raw]
  split <;> rfl

/-- A loop, each step of which changes one row of a buffer.  A row becomes what its own steps make
    of it, in their order; the steps for other rows do not matter. -/
theorem foldlM_modifyRow {ι : Type} {f : Array Scalar → ι → Outcome (Array Scalar)}
    (place : ι → Nat) (g : ι → Array Scalar → Array Scalar) {steps : List ι} {rows cols : Nat}
    (start : Buffer) (inside : ∀ s ∈ steps, place s < rows)
    (sizes : ∀ s ∈ steps, ∀ row, row.size = cols → (g s row).size = cols)
    (step : ∀ s ∈ steps, ∀ c : Buffer, c.rows = rows → c.cols = cols →
      f c.data s = Buffer.data <$> c.setRow (place s) (g s (c.rowAt (place s))))
    (hr : start.rows = rows) (hc : start.cols = cols) :
    ∃ c : Buffer, steps.foldlM f start.data = .ok c.data ∧ c.rows = rows ∧ c.cols = cols ∧
      ∀ i < rows, c.rowAt i =
        (steps.filter (place · = i)).foldl (fun row s => g s row) (start.rowAt i) := by
  induction steps generalizing start with
  | nil => exact ⟨start, rfl, hr, hc, fun i _ => rfl⟩
  | cons s rest ih =>
    obtain ⟨here, inside⟩ := List.forall_mem_cons.1 inside
    obtain ⟨size, sizes⟩ := List.forall_mem_cons.1 sizes
    obtain ⟨first, step⟩ := List.forall_mem_cons.1 step
    have there : place s < start.rows := hr ▸ here
    have fresh : (g s (start.rowAt (place s))).size = start.cols := by
      rw [hc]
      exact size _ ((start.size_rowAt there).trans hc)
    obtain ⟨next, put⟩ := Buffer.exists_setRow there fresh
    obtain ⟨-, nextRows, nextCols, written⟩ := Buffer.setRow_eq_ok.1 put
    obtain ⟨c, run, cRows, cCols, rowAt⟩ := ih next inside sizes step (nextRows.trans hr)
      (nextCols.trans hc)
    refine ⟨c, ?_, cRows, cCols, fun i hi => ?_⟩
    · rw [List.foldlM_cons, first start hr hc, put]
      exact run
    · rw [rowAt i hi, written i (hr ▸ hi)]
      by_cases this : place s = i
      · rw [List.filter_cons_of_pos (by simpa using this), List.foldl_cons, this, if_pos rfl]
      · rw [List.filter_cons_of_neg (by simpa using this), if_neg (Ne.symm this)]

/-- Rows that are changed once each. -/
theorem foldlM_modifyRow_once {f : Array Scalar → Nat → Outcome (Array Scalar)}
    (g : Nat → Array Scalar → Array Scalar) {order : List Nat} {rows cols : Nat} (start : Buffer)
    (once : order.Nodup) (inside : ∀ i ∈ order, i < rows)
    (sizes : ∀ i ∈ order, ∀ row, row.size = cols → (g i row).size = cols)
    (step : ∀ i ∈ order, ∀ c : Buffer, c.rows = rows → c.cols = cols →
      f c.data i = Buffer.data <$> c.setRow i (g i (c.rowAt i)))
    (hr : start.rows = rows) (hc : start.cols = cols) :
    ∃ c : Buffer, order.foldlM f start.data = .ok c.data ∧ c.rows = rows ∧ c.cols = cols ∧
      ∀ i < rows, c.rowAt i = if i ∈ order then g i (start.rowAt i) else start.rowAt i := by
  obtain ⟨c, run, cRows, cCols, rowAt⟩ := foldlM_modifyRow id g start inside sizes step hr hc
  refine ⟨c, run, cRows, cCols, fun i hi => ?_⟩
  rw [rowAt i hi]
  show (order.filter (· = i)).foldl _ _ = _
  rw [List.filter_eq, once.count]
  split <;> rfl

end RawBuffer

/-! ## Change in place -/

namespace RawBuffer

variable {b : Buffer}

theorem get_bind {α : Type} (f : RawBuffer → InPlace α) (b : RawBuffer) :
    ((get : InPlace RawBuffer) >>= f) b = f b b := rfl

theorem ok_bind {α β : Type} (a : α) (f : α → InPlace β) (b : RawBuffer) :
    ((liftM (.ok a : Outcome α) : InPlace α) >>= f) b = f a b := rfl

theorem error_bind {α β : Type} (e : Failure) (f : α → InPlace β) (b : RawBuffer) :
    ((liftM (.error e : Outcome α) : InPlace α) >>= f) b = (.error e, b) := rfl

/-- A row written over, or refused before. -/
theorem setRow_raw (h : b.InRange) (i : Nat) (values : Array Scalar) :
    setRow i values b.raw = Prod.map id Buffer.raw (b.replaceBy (b.setRow i values)) := by
  rw [setRow, get_bind, Buffer.rows_raw, Buffer.cols_raw]
  by_cases hi : i < b.rows
  · by_cases size : values.size = b.cols
    · obtain ⟨c, put⟩ := Buffer.exists_setRow hi size
      have written : overwriteRange b.data (i * b.cols) ((i + 1) * b.cols) values = .ok c.data := by
        rw [overwriteRange_row b hi size, put]
        rfl
      obtain ⟨-, rows, cols, -⟩ := Buffer.setRow_eq_ok.1 put
      rw [if_neg (Nat.not_le.2 hi), if_neg (not_not.2 size), span_raw h hi, ok_bind]
      show ((liftM (overwriteRange b.data _ _ values) : InPlace _) >>= _) b.raw = _
      rw [written, ok_bind, put]
      exact Prod.ext rfl (RawBuffer.ext rows.symm cols.symm rfl)
    · rw [if_neg (Nat.not_le.2 hi), if_pos size, Buffer.setRow, dif_pos hi, dif_neg size]
      rfl
  · rw [if_pos (Nat.not_lt.1 hi), Buffer.setRow, dif_neg hi]
    rfl

end RawBuffer

/-! ## Rows and columns of other buffers -/

/-- The items of an array at their positions. -/
theorem toList_eq_map_getD {α : Type} (xs : Array α) (d : α) :
    xs.toList = (List.range xs.size).map fun k => xs.getD k d := by
  have positions := congrArg (List.map Prod.fst) (toList_zipIdx_eq xs d)
  rwa [List.zipIdx_map_fst, List.map_map] at positions

theorem Buffer.raw_tableOf {rows cols : Nat} {f : Nat → Array Scalar}
    (h : ∀ i, i < rows → (f i).size = cols) :
    (tableOf rows cols f h).val.raw = ⟨rows, cols, joinRows f rows⟩ :=
  RawBuffer.ext rfl rfl (data_tableOf h)

namespace RawBuffer

variable {b : Buffer} {parts : List Buffer}

theorem rowsOf_raw (parts : List Buffer) :
    ((parts.map Buffer.raw).head?.map RawBuffer.rows).getD 0 = Buffer.rowsOf parts := by
  rw [List.head?_map, Option.map_map]
  rfl

theorem find?_raw (parts : List Buffer) (n : Nat) :
    ((parts.map Buffer.raw).find? fun p => p.rows ≠ n) =
      (parts.find? fun p => p.rows ≠ n).map Buffer.raw :=
  List.find?_map

theorem stack_raw (parts : List Buffer) : stack (parts.map Buffer.raw) =
    RawBuffer.mk (Buffer.rowsOf parts) (Buffer.colsOf parts) <$> Buffer.stack parts := by
  simp only [stack, rowsOf_raw, Buffer.stack, map_bind, List.foldlM_map, row_raw, List.map_map]
  refine Outcome.bind_congr fun cols hcols => ?_
  obtain ⟨-, rfl⟩ := Count.sum_eq_ok.1 hcols
  rfl

theorem shape_joinColumns {c : Buffer} (joined : Buffer.joinColumns parts = .ok c) :
    c.rows = Buffer.rowsOf parts ∧ c.cols = Buffer.colsOf parts := by
  by_cases aligned : Buffer.Aligned parts
  · obtain ⟨d, given, rows, cols, -⟩ := Buffer.joinColumns_within aligned
    obtain ⟨-, rfl⟩ := Count.within_eq_ok.1 (given.symm.trans joined)
    exact ⟨rows, cols⟩
  · obtain ⟨cause, refused, -⟩ := Buffer.joinColumns_of_not_aligned aligned
    cases refused.symm.trans joined

theorem joinColumns_raw (h : ∀ p ∈ parts, p.InRange) :
    joinColumns (parts.map Buffer.raw) = Buffer.raw <$> Buffer.joinColumns parts := by
  have stored : joinColumns (parts.map Buffer.raw) =
      RawBuffer.mk (Buffer.rowsOf parts) (Buffer.colsOf parts) <$> Buffer.runJoinColumns parts := by
    rw [joinColumns, rowsOf_raw, find?_raw, Buffer.runJoinColumns, stack_raw, ← Buffer.rowsOf]
    cases parts.find? fun p => p.rows ≠ Buffer.rowsOf parts <;> rfl
  rw [stored, Buffer.runJoinColumns_eq h, Functor.map_map]
  refine Outcome.map_congr fun c joined => ?_
  obtain ⟨rows, cols⟩ := shape_joinColumns joined
  exact RawBuffer.ext rows.symm cols.symm rfl

theorem columns_raw (h : b.InRange) (start stop : Nat) :
    b.raw.columns start stop = Buffer.raw <$> b.columns start stop := by
  have walk := Buffer.runColumnRange_eq b.table h start stop
  have stored : b.raw.columns start stop =
      (fun data => ⟨b.rows, stop - start, data⟩) <$> b.runColumnRange start stop := by
    rw [columns, Buffer.runColumnRange, Buffer.cols_raw]
    split
    · rfl
    · simp only [row_raw]
      rfl
  rw [stored]
  show _ <$> Buffer.runColumnRange b.table.val start stop = _
  rw [walk, Functor.map_map, Buffer.columns, Functor.map_map]
  refine Outcome.map_congr fun t cut => ?_
  obtain ⟨-, cols, -⟩ := Buffer.columnRange_eq_ok.1 cut
  exact RawBuffer.ext t.property.symm cols.symm rfl

theorem gather_raw (h : b.InRange) {indices : Array Nat} (inside : ∀ i ∈ indices, i < b.rows) :
    b.raw.gather indices = (fun t => t.val.raw) <$> b.gather indices inside := by
  have row (data : Array Scalar) (k : Nat) (hk : k < indices.size) :
      (do pure (data ++ (← b.raw.row (indices.getD k 0))) : Outcome (Array Scalar)) =
        .ok (data ++ b.rowAt (indices.getD k 0)) := by
    rw [row_raw, Buffer.row_eq h (Buffer.getD_lt inside hk)]
    rfl
  rw [gather, toList_eq_map_getD indices 0, List.foldlM_map, Outcome.foldlM_joinRows row,
    Buffer.gather_eq, Count.map_within, Buffer.raw_tableOf]
  exact Count.check_bind_pure _ _

theorem flatten_replicate (row : Array Scalar) (n : Nat) :
    (Array.replicate n row).flatten = joinRows (fun _ => row) n := by
  induction n with
  | zero => simp [joinRows]
  | succ n ih => rw [Buffer.joinRows_succ, ← ih, Array.replicate_succ, Array.flatten_push]

theorem broadcast_raw (h : b.InRange) (single : b.rows = 1) (rows : Nat) :
    b.raw.broadcast rows = (fun t => t.val.raw) <$> Buffer.broadcast ⟨b, single⟩ rows := by
  have there : 0 < b.rows := by rw [single]; exact Nat.one_pos
  rw [broadcast, row_raw, Buffer.row_eq h there, Outcome.ok_bind, b.size_rowAt there,
    Nat.mul_comm, flatten_replicate, Buffer.broadcast_eq, Count.map_within, Buffer.raw_tableOf]
  exact Count.check_bind_pure _ _

/-! ## Rows by themselves -/

theorem zeros_eq (rows cols : Nat) :
    zeros rows cols = within (rows * cols < limit) (Buffer.blank rows cols).raw := by
  rw [zeros, Count.mul_eq_within]
  exact Count.within_bind_pure

theorem zeros_raw (rows cols : Nat) : zeros rows cols = Buffer.raw <$> Buffer.zeros rows cols := by
  rw [zeros_eq, Buffer.zeros, Count.check_bind_pure, Count.map_within]

/-- As many chunks as rows. -/
theorem chunkCount {rows cols : Nat} (some : 0 < cols) :
    (rows * cols + (cols - 1)) / cols = rows := by
  rw [Nat.mul_comm, Nat.mul_add_div some, Nat.div_eq_of_lt (by omega), Nat.add_zero]

/-- A chunk is a row of the storage, and what is written goes over it. -/
theorem writeChunk_raw (h : b.InRange) (f : RowWriter) {c : Buffer} {i : Nat} (hi : i < b.rows)
    (rows : c.rows = b.rows) :
    b.raw.writeChunk c.cols f c.data i =
      Buffer.data <$> c.setRow i (f.write (b.rowAt i) (c.rowAt i)) := by
  have inside := Buffer.InRange.stop_le c (rows.symm ▸ hi)
  have step : (i + 1) * c.cols = i * c.cols + c.cols := Nat.succ_mul i c.cols
  rw [writeChunk, row_raw, Buffer.row_eq h hi, Outcome.ok_bind]
  show overwriteRange c.data _ (min (i * c.cols + c.cols) c.data.size) _ = _
  rw [← step, Nat.min_eq_left inside, ← Buffer.rowAt]
  exact overwriteRange_row c (rows.symm ▸ hi) (by rw [f.size_write, c.size_rowAt (rows.symm ▸ hi)])

/-- The chunks of some rows, each written once, in any order; all others are still zeros. -/
theorem foldlM_writeChunk (h : b.InRange) (cols : Nat) (f : RowWriter) {order : List Nat}
    (once : order.Nodup) (inside : ∀ i ∈ order, i < b.rows) : ∃ c : Buffer,
    order.foldlM (b.raw.writeChunk cols f) (Buffer.blank b.rows cols).data = .ok c.data ∧
      c.rows = b.rows ∧ c.cols = cols ∧
      ∀ i < b.rows, c.rowAt i =
        if i ∈ order then f.write (b.rowAt i) (Array.replicate cols 0)
        else Array.replicate cols 0 := by
  obtain ⟨c, run, rows, width, rowAt⟩ := foldlM_modifyRow_once (fun i => f.write (b.rowAt i))
    (.blank b.rows cols) once inside (fun i _ row size => (f.size_write _ row).trans size)
    (fun i hi c rows cols => cols ▸ writeChunk_raw h f (inside i hi) rows) rfl rfl
  refine ⟨c, run, rows, width, fun i hi => ?_⟩
  rw [rowAt i hi, Buffer.rowAt_blank hi]

section
variable {order : List Nat} {cols : Nat} (h : b.InRange) (each : order.Perm (List.range b.rows))
include h each

/-- All rows by themselves.  Without columns no chunk is written, and there is nothing to write. -/
theorem exists_mapRowsIn (f : RowWriter) (fits : b.rows * cols < limit) :
    ∃ c : Buffer, b.raw.mapRowsIn order cols f = .ok c.raw ∧ c.rows = b.rows ∧ c.cols = cols ∧
      ∀ i < b.rows, c.rowAt i = f.write (b.rowAt i) (Array.replicate cols 0) := by
  rw [mapRowsIn, zeros_eq, Buffer.rows_raw, Count.within_of_fits fits, Outcome.ok_bind]
  by_cases none : cols = 0
  · subst none
    refine ⟨.blank b.rows 0, if_pos rfl, rfl, rfl, fun i hi => ?_⟩
    have empty : (f.write (b.rowAt i) (Array.replicate 0 0)).size = 0 := f.size_write _ _
    rw [Buffer.rowAt_blank hi, Array.eq_empty_of_size_eq_zero empty]
    rfl
  · have isRow (i : Nat) : i ∈ order ↔ i < b.rows := each.mem_iff.trans List.mem_range
    obtain ⟨c, run, rows, width, rowAt⟩ := foldlM_writeChunk h cols f
      (each.nodup_iff.2 List.nodup_range) fun i hi => (isRow i).1 hi
    refine ⟨c, ?_, rows, width, fun i hi => (rowAt i hi).trans (if_pos ((isRow i).2 hi))⟩
    rw [if_neg none, Buffer.data_raw, run]
    exact congrArg Except.ok (RawBuffer.ext rows.symm width.symm rfl)

/-- The order of the rows changes nothing. -/
theorem mapRowsIn_raw (f : RowWriter)
    (sizes : ∀ row, (f.write row (Array.replicate cols 0)).size = cols) :
    b.raw.mapRowsIn order cols f = (fun t => t.val.raw) <$>
      Buffer.mapRows b.table cols (fun row => f.write row (Array.replicate cols 0)) sizes := by
  rw [Buffer.mapRows_eq, Count.map_within]
  by_cases fits : b.rows * cols < limit
  · obtain ⟨c, run, rows, width, rowAt⟩ := exists_mapRowsIn h each f fits
    have same : c = (tableOf b.rows cols _ fun i _ => sizes (b.rowAt i)).val :=
      Buffer.ext_rows rows width fun i hi => by
        rw [rows] at hi
        rw [rowAt i hi, Buffer.rowAt_tableOf _ hi]
    rw [run, Count.within_of_fits fits, same]
    rfl
  · rw [mapRowsIn, zeros_eq, Buffer.rows_raw, Count.within_of_not_fits fits,
      Count.within_of_not_fits fits]
    rfl

end

/-- The rows in ascending order: there are as many chunks as rows. -/
theorem mapRows_eq_mapRowsIn (b : Buffer) (cols : Nat) (f : RowWriter) :
    b.raw.mapRows cols f = b.raw.mapRowsIn (List.range b.rows) cols f := by
  rw [mapRows, mapRowsIn, zeros_eq, Buffer.rows_raw]
  by_cases fits : b.rows * cols < limit
  · rw [Count.within_of_fits fits, Outcome.ok_bind, Outcome.ok_bind, Buffer.data_raw,
      Buffer.size_data]
    by_cases none : cols = 0
    · rw [if_pos none, if_pos none]
    · rw [if_neg none, if_neg none]
      show (List.range ((b.rows * cols + (cols - 1)) / cols)).foldlM _ _ >>= _ = _
      rw [chunkCount (Nat.pos_of_ne_zero none)]
  · rw [Count.within_of_not_fits fits, Outcome.error_bind, Outcome.error_bind]

theorem mapRows_raw (h : b.InRange) (cols : Nat) (f : RowWriter)
    (sizes : ∀ row, (f.write row (Array.replicate cols 0)).size = cols) :
    b.raw.mapRows cols f = (fun t => t.val.raw) <$>
      Buffer.mapRows b.table cols (fun row => f.write row (Array.replicate cols 0)) sizes :=
  (mapRows_eq_mapRowsIn b cols f).trans (mapRowsIn_raw h (List.Perm.refl _) f sizes)

end RawBuffer

/-! ## Reductions -/

/-- Totals as they are stored. -/
def Totals.raw (t : Totals) : RawTotals := ⟨t.sums.raw, t.counts⟩

namespace RawTotals

open RawBuffer (row_raw putRow_raw)

theorem addRow_raw (source : Buffer) (t : Totals) (j k : Nat) :
    t.raw.addRow source.raw j k = Totals.raw <$> t.addRow source j k := by
  simp only [addRow, Totals.addRow, row_raw, map_bind]
  refine Outcome.bind_congr fun row _ => ?_
  show (if j < t.counts.size then _ else _) = _
  by_cases hj : j < t.counts.size
  · rw [if_pos hj, if_pos hj, map_bind]
    refine Outcome.bind_congr fun count _ => ?_
    show (t.sums.raw.row j >>= _) = _
    rw [row_raw, map_bind]
    refine Outcome.bind_congr fun sum _ => ?_
    show (t.sums.raw.putRow j _ >>= _) = _
    rw [putRow_raw, bind_map_left, map_bind]
    rfl
  · rw [if_neg hj, if_neg hj]
    rfl

theorem divide_raw (sums : Buffer) (count j : Nat) :
    divide sums.raw count j = Buffer.raw <$> Totals.divide sums count j := by
  rw [divide, Totals.divide]
  split
  · simp only [row_raw, putRow_raw, map_bind]
  · rfl

theorem finish_raw (t : Totals) (r : Reducer) :
    t.raw.finish r = Buffer.raw <$> r.runFinish t := by
  cases r with
  | sum => rfl
  | mean =>
    exact Outcome.foldlM_of_map Buffer.raw (fun sums (p : Nat × Nat) => divide sums p.1 p.2)
      (fun sums p => Totals.divide sums p.1 p.2) (fun sums p => divide_raw sums p.1 p.2) _ t.sums

end RawTotals

namespace RawBuffer

theorem reduce_raw (source : Buffer) (r : Reducer) (index : Array Nat) (segments : Nat) :
    source.raw.reduce r index segments = Buffer.raw <$> r.runReduce source index segments := by
  rw [reduce, Reducer.runReduce, Buffer.cols_raw, zeros_raw, bind_map_left, map_bind]
  refine Outcome.bind_congr fun sums _ => ?_
  have loop := Outcome.foldlM_of_map Totals.raw
    (fun t (p : Nat × Nat) => t.addRow source.raw p.1 p.2)
    (fun t p => t.addRow source p.1 p.2) (fun t p => RawTotals.addRow_raw source t p.1 p.2)
    index.toList.zipIdx ⟨sums, Array.replicate segments 0⟩
  show (index.toList.zipIdx.foldlM (fun t p => t.addRow source.raw p.1 p.2)
    (Totals.raw ⟨sums, Array.replicate segments 0⟩) >>= _) = _
  rw [loop, bind_map_left, map_bind]
  exact Outcome.bind_congr fun t _ => RawTotals.finish_raw t r

theorem aggregate_raw {source : Buffer} (h : source.InRange) (r : Reducer) (index : Array Nat)
    {segments : Nat} (hs : segments < limit) :
    source.raw.aggregate r index segments =
      (fun t => t.val.raw) <$> r.aggregate source index segments := by
  have stored : source.raw.aggregate r index segments =
      Buffer.raw <$> r.runAggregate source index segments := by
    rw [aggregate, Reducer.runAggregate, Buffer.rows_raw]
    split
    · rfl
    · cases index.find? (segments ≤ ·) with
      | some bad => rfl
      | none => exact reduce_raw source r index segments
  rw [stored, r.runAggregate_eq h hs index, Functor.map_map]

/-! ## Construction -/

theorem tryZeros_raw (rows cols : Nat) :
    tryZeros rows cols = Buffer.raw <$> Buffer.tryZeros rows cols := by
  rw [tryZeros, elementCount, Buffer.tryZeros]
  split <;> rfl

theorem ofFlat_raw (data : Array Scalar) (rows cols : Nat) :
    ofFlat data rows cols = Buffer.raw <$> Buffer.ofFlat data rows cols := by
  rw [ofFlat, elementCount, Buffer.ofFlat]
  by_cases fits : rows * cols < limit
  · rw [if_pos fits, if_pos fits, Outcome.ok_bind]
    by_cases size : data.size = rows * cols
    · rw [if_neg (not_not.2 size), dif_pos size]
      rfl
    · rw [if_pos size, dif_neg size]
      rfl
  · rw [if_neg fits, if_neg fits]
    rfl

theorem ofRowsOfWidth_raw (rows : List (Array Scalar)) (cols : Nat) :
    ofRowsOfWidth rows cols = Buffer.raw <$> Buffer.ofRowsOfWidth rows cols := by
  rw [Buffer.ofRowsOfWidth]
  split
  · rename_i row i found
    rw [ofRowsOfWidth, found]
    rfl
  · rename_i found
    have made : ofRowsOfWidth rows cols = .ok ⟨rows.length, cols, rows.toArray.flatten⟩ := by
      rw [ofRowsOfWidth, found]
    have data : rows.toArray.flatten = (rows.map Array.toList).flatten.toArray := by
      simp
    exact made.trans (congrArg Except.ok (RawBuffer.ext rfl rfl data))

theorem make_raw (source : BufferSource) : make source = Buffer.raw <$> Buffer.make source := by
  cases source with
  | zeros rows cols => exact zeros_raw rows cols
  | tryZeros rows cols => exact tryZeros_raw rows cols
  | flat data rows cols => exact ofFlat_raw data rows cols
  | rows rows => exact ofRowsOfWidth_raw rows _
  | rowsOfWidth rows cols => exact ofRowsOfWidth_raw rows cols

end RawBuffer

end MessagePassing
