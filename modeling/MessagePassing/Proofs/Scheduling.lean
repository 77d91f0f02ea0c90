/-
  Message passing — rows by themselves, in any order.

  Every row is processed once, and what is written for it goes to its own chunk of an output that
  is zero at the start.  What is done for the other rows before or in between does not matter:
  their chunks are elsewhere.  So the output is the same for every order, and for chunks of any
  width; and also if the work on a row has several steps, and steps for other rows come between.

  * `RawBuffer.runSteps_eq` is the invariant: at any moment a chunk is what the steps for its row
    have made of zeros so far;
  * `RawBuffer.mapRowsIn_order`: what comes out, whatever the order.
-/
import MessagePassing.Proofs.RawBuffers

namespace MessagePassing

open MessagePassing.Count (limit)

/-- Steps that are taken one after the other. -/
def RowWriter.sequence (steps : List RowWriter) : RowWriter where
  write row values := steps.foldl (fun values step => step.write row values) values
  size_write row values := by
    induction steps generalizing values with
    | nil => rfl
    | cons step rest ih => exact (ih _).trans (step.size_write row values)

namespace RawBuffer

/-! ## Steps for rows -/

/-- Steps for rows, one after the other, each over what is in the chunk of its row. -/
def runSteps (b : RawBuffer) (cols : Nat) (data : Array Scalar) (steps : List (Nat × RowWriter)) :
    Outcome (Array Scalar) :=
  steps.foldlM (fun data step => b.writeChunk cols step.2 data step.1) data

/-- The steps for one row, as a single one. -/
def stepsFor (r : Nat) (steps : List (Nat × RowWriter)) : RowWriter :=
  .sequence ((steps.filter (·.1 = r)).map (·.2))

variable {b : Buffer} {steps : List (Nat × RowWriter)}

/-- **Steps for other rows do not matter.** -/
theorem runSteps_eq (h : b.InRange) (cols : Nat) (inside : ∀ step ∈ steps, step.1 < b.rows) :
    ∃ c : Buffer, b.raw.runSteps cols (Buffer.blank b.rows cols).data steps = .ok c.data ∧
      c.rows = b.rows ∧ c.cols = cols ∧
      ∀ r < b.rows, c.rowAt r = (stepsFor r steps).write (b.rowAt r) (Array.replicate cols 0) := by
  have write : ∀ step ∈ steps, ∀ c : Buffer, c.rows = b.rows → c.cols = cols →
      b.raw.writeChunk cols step.2 c.data step.1 =
        Buffer.data <$> c.setRow step.1 (step.2.write (b.rowAt step.1) (c.rowAt step.1)) := by
    rintro step here c rows rfl
    exact writeChunk_raw h step.2 (inside step here) rows
  obtain ⟨c, run, rows, width, rowAt⟩ := foldlM_modifyRow
    (f := fun data step => b.raw.writeChunk cols step.2 data step.1) Prod.fst
    (fun step row => step.2.write (b.rowAt step.1) row) (.blank b.rows cols) inside
    (fun step _ row size => (step.2.size_write _ row).trans size) write rfl rfl
  refine ⟨c, run, rows, width, fun r hr => ?_⟩
  rw [rowAt r hr, Buffer.rowAt_blank hr]
  show _ = ((steps.filter (·.1 = r)).map (·.2)).foldl _ _
  rw [List.foldl_map]
  refine List.foldl_ext _ _ _ fun row step here => ?_
  -- the steps that are left are for this row
  obtain rfl : step.1 = r := by simpa using (List.mem_filter.1 here).2
  rfl

/-! ## Rows in any order -/

/-- **Rows by themselves do not depend on their order.**  If every row is processed once,

    * the outcome is that of ascending order, and that of the operation on whole rows;
    * it is an overflow if the output has more values than can be counted, and else an output of as
      many rows and of the given width: its chunk `r` is what is written for row `r` over zeros,
      whatever the width of the rows, which may be empty;
    * the work on a row may have steps, and steps for other rows may come between them.  At any
      moment a chunk is what the steps for its row have made of zeros, and if they all come to what
      is to be written, the output is the same. -/
theorem mapRowsIn_order (b : Buffer) (range : b.InRange) (cols : Nat) (f : RowWriter)
    (order : List Nat) (each : order.Perm (List.range b.rows)) :
    (b.raw.mapRowsIn order cols f = b.raw.mapRows cols f ∧
      b.raw.mapRowsIn order cols f = Buffer.raw <$> b.derive (.mapRows cols f)) ∧
    (¬ b.rows * cols < limit → b.raw.mapRowsIn order cols f = .error (.fault .countOverflow)) ∧
    (b.rows * cols < limit → ∃ c : Buffer, b.raw.mapRowsIn order cols f = .ok c.raw ∧
      c.rows = b.rows ∧ c.cols = cols ∧
      (∀ r < b.rows, ∃ row, b.raw.row r = .ok row ∧ row.size = b.cols ∧
        c.data.extract (r * cols) ((r + 1) * cols) = f.write row (Array.replicate cols 0)) ∧
      ∀ steps, (∀ step ∈ steps, step.1 < b.rows) → ∃ d : Buffer,
        b.raw.runSteps cols (Buffer.blank b.rows cols).data steps = .ok d.data ∧
        d.rows = b.rows ∧ d.cols = cols ∧
        (∀ r < b.rows,
          d.rowAt r = (stepsFor r steps).write (b.rowAt r) (Array.replicate cols 0)) ∧
        ((∀ r < b.rows, (stepsFor r steps).write (b.rowAt r) (Array.replicate cols 0) =
          f.write (b.rowAt r) (Array.replicate cols 0)) → d = c)) := by
  have sizes (row : Array Scalar) : (f.write row (Array.replicate cols 0)).size = cols := by
    rw [f.size_write, Array.size_replicate]
  have whole := mapRowsIn_raw range each f sizes
  refine ⟨⟨whole.trans (mapRows_raw range cols f sizes).symm, ?derived⟩, fun full => ?overflow,
    fun fits => ?output⟩
  case derived =>
    rw [whole, Buffer.derive, Functor.map_map]
  case overflow =>
    rw [whole, Buffer.mapRows_eq, Count.within_of_not_fits full]
    rfl
  case output =>
    obtain ⟨c, run, rows, width, chunk⟩ := exists_mapRowsIn range each f fits
    refine ⟨c, run, rows, width, fun r hr => ⟨b.rowAt r, ?_, b.size_rowAt hr, ?_⟩,
      fun steps inside => ?_⟩
    · rw [row_raw, Buffer.row_eq range hr]
    · rw [← chunk r hr, Buffer.rowAt, width]
    · obtain ⟨d, taken, dRows, dCols, rowAt⟩ := runSteps_eq range cols inside
      refine ⟨d, taken, dRows, dCols, rowAt, fun complete => ?_⟩
      refine Buffer.ext_rows (dRows.trans rows.symm) (dCols.trans width.symm) fun r hr => ?_
      rw [dRows] at hr
      exact (rowAt r hr).trans ((complete r hr).trans (chunk r hr).symm)

/-- The first value of a row, in every place. -/
def firstValue : RowWriter where
  write row values := Array.replicate values.size (row.getD 0 0)
  size_write _ _ := Array.size_replicate

/-- The first value of a row, in one place. -/
def firstValueAt (k : Nat) : RowWriter where
  write row values := values.setIfInBounds k (row.getD 0 0)
  size_write _ _ := Array.size_setIfInBounds

/-- The second of two rows is processed first, into chunks that are wider than the rows, or place
    by place and with the other row in between; and so with rows that have no values. -/
theorem mapRowsIn_order_crossed :
    Buffer.crossed.InRange ∧ (Buffer.blank 2 0).InRange ∧ [1, 0].Perm (List.range 2) ∧
      2 * 3 < limit ∧
      (∃ c : Buffer, Buffer.crossed.raw.mapRowsIn [1, 0] 3 firstValue = .ok c.raw ∧
        c.data.extract 0 3 = #[0, 0, 0] ∧ c.data.extract 3 6 = #[1, 1, 1] ∧
        Buffer.crossed.raw.runSteps 3 (Buffer.blank 2 3).data
          [(1, firstValueAt 2), (0, firstValueAt 0), (1, firstValueAt 0), (0, firstValueAt 1),
            (0, firstValueAt 2), (1, firstValueAt 1)] = .ok c.data) ∧
      ∃ c : Buffer, (Buffer.blank 2 0).raw.mapRowsIn [1, 0] 3 firstValue = .ok c.raw ∧
        c.data.extract 3 6 = #[0, 0, 0] := by
  have crossed : Buffer.crossed.InRange := ⟨by decide, by decide, by decide⟩
  have blank : (Buffer.blank 2 0).InRange := .of_shape (by decide) (by decide) (by decide)
  have each : [1, 0].Perm (List.range 2) := List.Perm.swap 0 1 []
  have fits : 2 * 3 < limit := by decide
  obtain ⟨-, -, some⟩ := mapRowsIn_order .crossed crossed 3 firstValue [1, 0] each
  obtain ⟨-, -, none⟩ := mapRowsIn_order (.blank 2 0) blank 3 firstValue [1, 0] each
  obtain ⟨c, run, -, -, chunk, stepwise⟩ := some fits
  obtain ⟨d, runBlank, -, -, chunkBlank, -⟩ := none fits
  obtain ⟨_, ⟨⟩, -, first⟩ := chunk 0 (by decide)
  obtain ⟨_, ⟨⟩, -, second⟩ := chunk 1 (by decide)
  obtain ⟨_, ⟨⟩, -, empty⟩ := chunkBlank 1 (by decide)
  obtain ⟨e, taken, -, -, -, complete⟩ := stepwise [(1, firstValueAt 2), (0, firstValueAt 0),
    (1, firstValueAt 0), (0, firstValueAt 1), (0, firstValueAt 2), (1, firstValueAt 1)] (by decide)
  have same : e = c := complete fun
    | 0, _ => rfl
    | 1, _ => rfl
  rw [same] at taken
  exact ⟨crossed, blank, each, fits, ⟨c, run, first, second, taken⟩, d, runBlank, empty⟩

end RawBuffer

end MessagePassing
