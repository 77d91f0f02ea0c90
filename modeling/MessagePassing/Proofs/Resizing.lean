/-
  Message passing — a change of shape keeps what both shapes have.

  For as many columns as before the storage is cut or extended, and else rows are copied to a new
  one.  Both give the buffer whose rows are those from before, cut or extended (`recut`).

  * `Buffer.value?_recut`, `Buffer.value?_withRows`: the values, place by place;
  * `RawBuffer.resize_raw`: the storage cut or extended, and the rows copied;
  * `Buffer.resize_keeps_overlap`: every shape, and there and back.
-/
import MessagePassing.Proofs.Flat
import MessagePassing.Proofs.RawBuffers

namespace MessagePassing

open MessagePassing.Count (within limit)

namespace Buffer

variable {b c : Buffer} {i j : Nat}

/-! ## Values -/

/-- The value at row `i` and column `j`, if there is this place. -/
def value? (b : Buffer) (i j : Nat) : Option Scalar :=
  if i < b.rows ∧ j < b.cols then b.data[i * b.cols + j]? else none

theorem value?_eq_some (hi : i < b.rows) (hj : j < b.cols) :
    b.value? i j = some ((b.rowAt i).getD j 0) := by
  rw [value?, if_pos ⟨hi, hj⟩, Flat.getElem?_data b hi hj]

/-- A buffer is determined by its shape and its values. -/
theorem ext_values (rows : b.rows = c.rows) (cols : b.cols = c.cols)
    (same : ∀ i < b.rows, ∀ j < b.cols, b.value? i j = c.value? i j) : b = c := by
  refine ext_rows rows cols fun i hi => ?_
  have hi' : i < c.rows := rows ▸ hi
  refine Array.ext ((b.size_rowAt hi).trans (cols.trans (c.size_rowAt hi').symm)) fun j hb hc => ?_
  rw [b.size_rowAt hi] at hb
  have value := same i hi j hb
  rw [value?_eq_some hi hb, value?_eq_some hi' (cols ▸ hb)] at value
  simpa [Array.getD, *] using value

/-- A value of a changed shape: the old one of this place, or a zero where there was none. -/
theorem value?_recut (b : Buffer) {rows cols : Nat} (hi : i < rows) (hj : j < cols) :
    (b.recut rows cols).value? i j = some ((b.value? i j).getD 0) := by
  rw [value?_eq_some (b := b.recut rows cols) hi hj, recut, rowAt_tabulate _ hi]
  refine congrArg some ?_
  by_cases row : i < b.rows
  · have size : ((b.rowAt i).extract 0 cols).size = min cols b.cols := by
      rw [Array.size_extract, b.size_rowAt row, Nat.sub_zero]
    rw [if_pos row, Array.getD_eq_getD_getElem?, Array.getElem?_append, size]
    by_cases col : j < b.cols
    · rw [if_pos (Nat.lt_min.2 ⟨hj, col⟩), value?_eq_some row col, Array.getElem?_extract,
        if_pos (by rw [b.size_rowAt row]; omega), Nat.zero_add, ← Array.getD_eq_getD_getElem?]
      rfl
    · rw [if_neg (by omega), value?, if_neg fun place => col place.2, Array.getElem?_replicate,
        if_pos (by omega)]
      rfl
  · rw [if_neg row, value?, if_neg fun place => row place.1, Array.getD_eq_getD_getElem?,
      Array.getElem?_replicate, if_pos hj]
    rfl

/-- As for `recut`: a place of the storage before its old end is one of an old row. -/
theorem value?_withRows (b : Buffer) {rows : Nat} (hi : i < rows) (hj : j < b.cols) :
    (b.withRows rows).value? i j = some ((b.value? i j).getD 0) := by
  have inside : (i + 1) * b.cols ≤ rows * b.cols := Nat.mul_le_mul_right _ hi
  have step : (i + 1) * b.cols = i * b.cols + b.cols := Nat.succ_mul i b.cols
  show (if i < rows ∧ j < b.cols then (_ ++ _ : Array Scalar)[i * b.cols + j]? else none) = _
  rw [if_pos ⟨hi, hj⟩, Array.getElem?_append, Array.size_extract, value?]
  by_cases row : i < b.rows
  · have upTo := InRange.stop_le b row
    rw [if_pos (by omega), if_pos ⟨row, hj⟩]
    rw [Array.getElem?_extract, if_pos (by omega), Nat.zero_add,
      Array.getElem?_eq_getElem (by omega)]
    rfl
  · have past : b.rows * b.cols ≤ i * b.cols := Nat.mul_le_mul_right _ (Nat.not_lt.1 row)
    have size := b.size_data
    rw [if_neg (by omega), if_neg fun place => row place.1, Array.getElem?_replicate,
      if_pos (by omega)]
    rfl

/-- Cutting or extending the storage gives rows that are cut or extended. -/
theorem withRows_eq_recut (b : Buffer) (rows : Nat) : b.withRows rows = b.recut rows b.cols :=
  ext_values rfl rfl fun _ hi _ hj =>
    (value?_withRows b hi hj).trans (value?_recut b hi hj).symm

theorem resize_eq (b : Buffer) (rows cols : Nat) :
    b.resize rows cols = within (rows * cols < limit) (b.recut rows cols) := by
  rw [resize, Count.check_bind_pure]
  by_cases same : cols = b.cols
  · rw [if_pos same, same, withRows_eq_recut]
  · rw [if_neg same]

theorem recut_recut (b : Buffer) {rows cols : Nat} (hr : b.rows ≤ rows) (hc : b.cols ≤ cols) :
    (b.recut rows cols).recut b.rows b.cols = b := by
  refine ext_values rfl rfl fun i (hi : i < b.rows) j (hj : j < b.cols) => ?_
  rw [value?_recut _ hi hj, value?_recut _ (Nat.lt_of_lt_of_le hi hr) (Nat.lt_of_lt_of_le hj hc),
    value?_eq_some hi hj]
  rfl

end Buffer

/-! ## Storage -/

namespace RawBuffer

variable {b : Buffer} {rows cols : Nat}

/-- The storage cut or extended. -/
theorem resize_sameCols (b : Buffer) (rows : Nat) :
    resize rows b.cols b.raw = Prod.map id Buffer.raw (b.replaceBy (b.resize rows b.cols)) := by
  rw [resize, get_bind, Buffer.cols_raw, if_pos rfl, Buffer.resize, if_pos rfl,
    Count.check_bind_pure, Count.mul_eq_within]
  by_cases fits : rows * b.cols < limit
  · rw [Count.within_of_fits fits, Count.within_of_fits fits, ok_bind]
    rfl
  · rw [Count.within_of_not_fits fits, Count.within_of_not_fits fits, error_bind]
    rfl

/-- The first `kept` values of row `i`, over those of a row of another width. -/
def copied (b : Buffer) (kept width i : Nat) (row : Array Scalar) : Array Scalar :=
  (b.rowAt i).extract 0 kept ++ row.extract kept width

theorem size_copied {kept i : Nat} {row : Array Scalar} (hi : i < b.rows) (fromOld : kept ≤ b.cols)
    (toNew : kept ≤ row.size) : (copied b kept row.size i row).size = row.size := by
  rw [copied, Array.size_append, Array.size_extract, Array.size_extract, b.size_rowAt hi]
  omega

/-- Copying changes the row in the same place. -/
theorem copyRow_raw {c : Buffer} {i kept : Nat} (h : b.InRange) (hi : i < b.rows)
    (fits : c.InRange) (hc : i < c.rows) (fromOld : kept ≤ b.cols) (toNew : kept ≤ c.cols) :
    b.raw.copyRow c.cols kept c.data i =
      Buffer.data <$> c.setRow i (copied b kept c.cols i (c.rowAt i)) := by
  obtain ⟨start, -, -⟩ := fits.positions hc
  have inside := Buffer.InRange.stop_le c hc
  have step : (i + 1) * c.cols = i * c.cols + c.cols := Nat.succ_mul i c.cols
  have stop : Count.add (i * c.cols) kept = .ok (i * c.cols + kept) :=
    Count.add_eq_ok.2 ⟨by have := fits.size; omega, rfl⟩
  have size : ((b.rowAt i).extract 0 kept).size = kept := by
    rw [Array.size_extract, b.size_rowAt hi]
    omega
  have front := overwriteRange_front c hc (Nat.le_trans (Nat.le_of_eq size) toNew)
  rw [size] at front
  rw [copyRow, start, Outcome.ok_bind, stop, Outcome.ok_bind, row_raw, Buffer.row_eq h hi,
    Outcome.ok_bind, if_pos (by rwa [b.size_rowAt hi]), front, copied]

/-- All rows that both shapes have, copied to a storage of zeros. -/
theorem foldlM_copyRow (h : b.InRange) (hr : rows < limit) (hc : cols < limit)
    (fits : rows * cols < limit) :
    (List.range (min rows b.rows)).foldlM (b.raw.copyRow cols (min cols b.cols))
      (Buffer.blank rows cols).data = .ok (b.recut rows cols).data := by
  have both (i : Nat) (hi : i ∈ List.range (min rows b.rows)) : i < rows ∧ i < b.rows :=
    Nat.lt_min.1 (List.mem_range.1 hi)
  have size : ∀ i ∈ List.range (min rows b.rows), ∀ row : Array Scalar, row.size = cols →
      (copied b (min cols b.cols) cols i row).size = cols := by
    rintro i hi row rfl
    exact size_copied (both i hi).2 (Nat.min_le_right _ _) (Nat.min_le_left _ _)
  have copy : ∀ i ∈ List.range (min rows b.rows), ∀ c : Buffer, c.rows = rows → c.cols = cols →
      b.raw.copyRow cols (min cols b.cols) c.data i =
        Buffer.data <$> c.setRow i (copied b (min cols b.cols) cols i (c.rowAt i)) := by
    rintro i hi c rfl rfl
    exact copyRow_raw h (both i hi).2 (.of_shape hr hc fits) (both i hi).1 (Nat.min_le_right _ _)
      (Nat.min_le_left _ _)
  obtain ⟨c, run, cRows, cCols, rowAt⟩ := foldlM_modifyRow_once
    (fun i => copied b (min cols b.cols) cols i) (.blank rows cols) List.nodup_range
    (fun i hi => (both i hi).1) size copy rfl rfl
  refine run.trans (congrArg (Except.ok ∘ Buffer.data) (Buffer.ext_rows cRows cCols fun i hi => ?_))
  rw [cRows] at hi
  rw [rowAt i hi, Buffer.recut, Buffer.rowAt_tabulate _ hi, Buffer.rowAt_blank hi]
  by_cases old : i < b.rows
  · have kept : (b.rowAt i).extract 0 (min cols b.cols) = (b.rowAt i).extract 0 cols :=
      Array.extract_eq_extract_right.2 (by rw [b.size_rowAt old]; omega)
    have added : min cols cols - min cols b.cols = cols - b.cols := by omega
    rw [if_pos (List.mem_range.2 (Nat.lt_min.2 ⟨hi, old⟩)), if_pos old, copied,
      Array.extract_replicate, kept, added]
  · rw [if_neg fun place => old (both i place).2, if_neg old]

/-- The rows copied to a new storage. -/
theorem resize_otherCols (h : b.InRange) (hr : rows < limit) (hc : cols < limit)
    (other : cols ≠ b.cols) :
    resize rows cols b.raw = Prod.map id Buffer.raw (b.replaceBy (b.resize rows cols)) := by
  rw [resize, get_bind, Buffer.cols_raw, if_neg other, Buffer.resize, if_neg other,
    Count.check_bind_pure, Count.mul_eq_within]
  by_cases fits : rows * cols < limit
  · rw [Count.within_of_fits fits, Count.within_of_fits fits, ok_bind]
    show ((liftM (List.foldlM _ (Buffer.blank rows cols).data _ : Outcome _) : InPlace _) >>= _)
      b.raw = _
    rw [Buffer.rows_raw, foldlM_copyRow h hr hc fits, ok_bind]
    rfl
  · rw [Count.within_of_not_fits fits, Count.within_of_not_fits fits, error_bind]
    rfl

theorem resize_raw (h : b.InRange) (hr : rows < limit) (hc : cols < limit) :
    resize rows cols b.raw = Prod.map id Buffer.raw (b.replaceBy (b.resize rows cols)) := by
  by_cases same : cols = b.cols
  · rw [same, resize_sameCols]
  · exact resize_otherCols h hr hc same

end RawBuffer

/-! ## Every shape -/

namespace Buffer

/-- **A change of shape keeps exactly the overlap.**

    The storage that is cut or extended, or to which rows are copied, has the new shape.  At every
    place of it there is the value that was at this row and column before, or a zero if there was
    none; hence a larger shape that is changed back gives the buffer back. -/
theorem resize_keeps_overlap (b : Buffer) (h : b.InRange) {rows cols : Nat} (hr : rows < limit)
    (hc : cols < limit) (fits : rows * cols < limit) : ∃ c,
    RawBuffer.resize rows cols b.raw = (.ok (), c.raw) ∧ b.resize rows cols = .ok c ∧
      (c.rows = rows ∧ c.cols = cols) ∧
      (∀ i j, c.value? i j =
        if i < rows ∧ j < cols then some ((b.value? i j).getD 0) else none) ∧
      (b.rows ≤ rows → b.cols ≤ cols →
        RawBuffer.resize b.rows b.cols c.raw = (.ok (), b.raw)) := by
  have made : b.resize rows cols = .ok (b.recut rows cols) := by
    rw [resize_eq, Count.within_of_fits fits]
  have range : (b.recut rows cols).InRange := .of_shape hr hc fits
  refine ⟨b.recut rows cols, ?_, made, ⟨rfl, rfl⟩, fun i j => ?_, fun moreRows moreCols => ?_⟩
  · rw [RawBuffer.resize_raw h hr hc, made]
    rfl
  · by_cases place : i < rows ∧ j < cols
    · rw [if_pos place, value?_recut b place.1 place.2]
    · rw [if_neg place]
      exact if_neg place
  · have back : (b.recut rows cols).resize b.rows b.cols = .ok b := by
      rw [resize_eq, recut_recut b moreRows moreCols, Count.within_of_fits]
      exact b.size_data ▸ h.size
    rw [RawBuffer.resize_raw range h.rows h.cols, back]
    rfl

/-- Two rows of two values, changed to three rows of three values and back. -/
theorem resize_keeps_overlap_crossed :
    crossed.InRange ∧ 3 < limit ∧ 3 * 3 < limit ∧
      ∃ c : Buffer, RawBuffer.resize 3 3 crossed.raw = (.ok (), c.raw) ∧ c.value? 1 0 = some 1 ∧
        c.value? 2 2 = some 0 ∧ RawBuffer.resize 2 2 c.raw = (.ok (), crossed.raw) := by
  have range : crossed.InRange := ⟨by decide, by decide, by decide⟩
  obtain ⟨c, changed, -, -, values, back⟩ :=
    resize_keeps_overlap crossed range (show 3 < limit by decide) (show 3 < limit by decide)
      (by decide)
  exact ⟨range, by decide, by decide, c, changed, values 1 0, values 2 2,
    back (by decide) (by decide)⟩

end Buffer

end MessagePassing
