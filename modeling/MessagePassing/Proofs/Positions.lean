/-
  Message passing — operations by position stay inside of their storage.

  Every buffer that a process holds has counts for its shape and its size (`Buffer.InRange`).
  On such buffers a walk along the storage never reads or writes outside of it, and ends as the
  operation on whole rows does.

  * `Buffer.row_eq`, `Buffer.putRow_eq`: a row in its place;
  * `Buffer.setRow_eq_ok`: writing over a row changes this row only;
  * `Buffer.runJoinColumns_eq`, `Buffer.runColumnRange_eq`: rows side by side and parts of rows;
  * `Totals.Hold.addRow`, `Totals.Hold.addRows`, `Reducer.runAggregate_eq`: sums that are changed
    in place;
  * `State.runConcatenate_eq`, `State.runSplit_eq`: the walks of states.
-/
import MessagePassing.Positions
import MessagePassing.Proofs.Aggregation
import MessagePassing.Proofs.Splitting

namespace MessagePassing

open Buffer (Table tableOf joinRows)
open MessagePassing.Count (within limit total)

/-- A loop that appends one row after the other. -/
theorem Outcome.foldlM_joinRows {f : Array Scalar → Nat → Outcome (Array Scalar)}
    {g : Nat → Array Scalar} {n : Nat} (h : ∀ data, ∀ i < n, f data i = .ok (data ++ g i)) :
    (List.range n).foldlM f #[] = .ok (joinRows g n) := by
  rw [Buffer.joinRows_eq_foldl]
  exact foldlM_eq_ok (fun data i hi => h data i (List.mem_range.1 hi)) #[]

/-! ## Buffers that a process can hold -/

namespace Buffer

/-- As a process can hold it: rows, columns and values are counts. -/
structure InRange (b : Buffer) : Prop where
  rows : b.rows < limit
  cols : b.cols < limit
  size : b.data.size < limit

namespace InRange

variable {b : Buffer} {i : Nat}

theorem of_shape (rows : b.rows < limit) (cols : b.cols < limit)
    (fits : b.rows * b.cols < limit) : b.InRange :=
  ⟨rows, cols, by rwa [b.size_data]⟩

/-- Where a row ends is a place in the storage. -/
theorem stop_le (b : Buffer) (hi : i < b.rows) : (i + 1) * b.cols ≤ b.data.size := by
  rw [b.size_data]
  exact Nat.mul_le_mul_right _ hi

/-- The positions at which a row starts and stops. -/
theorem positions (h : b.InRange) (hi : i < b.rows) :
    Count.mul i b.cols = .ok (i * b.cols) ∧ Count.add i 1 = .ok (i + 1) ∧
      Count.mul (i + 1) b.cols = .ok ((i + 1) * b.cols) := by
  have stop : (i + 1) * b.cols < limit := Nat.lt_of_le_of_lt (stop_le b hi) h.size
  have start : i * b.cols ≤ (i + 1) * b.cols := Nat.mul_le_mul_right _ (by omega)
  exact ⟨Count.mul_eq_ok.2 ⟨by omega, rfl⟩,
    Count.add_eq_ok.2 ⟨Nat.lt_of_le_of_lt hi h.rows, rfl⟩, Count.mul_eq_ok.2 ⟨stop, rfl⟩⟩

end InRange

/-! ## Rows in their places -/

/-- Of two rows, one ends where the other one starts or before. -/
theorem rows_apart (width : Nat) {i j : Nat} (other : j ≠ i) :
    (j + 1) * width ≤ i * width ∨ (i + 1) * width ≤ j * width := by
  rcases Nat.lt_or_gt_of_ne other with before | after
  · exact .inl (Nat.mul_le_mul_right width before)
  · exact .inr (Nat.mul_le_mul_right width after)

/-- A row of an array, one row of which was written over. -/
theorem extract_writeOver {data values : Array Scalar} {width n i j : Nat}
    (size : data.size = n * width) (same : values.size = width) (hi : i < n) (hj : j < n) :
    (data.extract 0 (i * width) ++ values ++ data.extract ((i + 1) * width) data.size).extract
        (j * width) ((j + 1) * width) =
      if j = i then values else data.extract (j * width) ((j + 1) * width) := by
  have lastI : (i + 1) * width ≤ n * width := Nat.mul_le_mul_right _ hi
  have lastJ : (j + 1) * width ≤ n * width := Nat.mul_le_mul_right _ hj
  have stepI : (i + 1) * width = i * width + width := Nat.succ_mul i width
  have stepJ : (j + 1) * width = j * width + width := Nat.succ_mul j width
  by_cases here : j = i
  · subst here
    rw [if_pos rfl]
    refine Array.ext (by simp only [Array.size_extract, Array.size_append]; omega) fun k _ hk => ?_
    simp only [Array.getElem_extract, Array.getElem_append, Array.size_append, Array.size_extract]
    rw [dif_pos (by omega), dif_neg (by omega)]
    congr 1
    omega
  · rw [if_neg here]
    refine Array.ext (by simp only [Array.size_extract, Array.size_append]; omega) fun k _ hk => ?_
    have inside : k < width := by rw [Array.size_extract] at hk; omega
    simp only [Array.getElem_extract, Array.getElem_append, Array.size_append, Array.size_extract]
    rcases rows_apart width here with before | after
    · rw [dif_pos (by omega), dif_pos (by omega)]
      congr 1
      omega
    · rw [dif_neg (by omega)]
      congr 1
      omega

section
variable {b c : Buffer} {i : Nat} {values : Array Scalar}

/-- Reading a row that there is. -/
theorem row_eq (h : b.InRange) (hi : i < b.rows) : b.row i = .ok (b.rowAt i) := by
  obtain ⟨start, next, stop⟩ := h.positions hi
  rw [row, start, Outcome.ok_bind, next, Outcome.ok_bind, stop, Outcome.ok_bind,
    if_pos (InRange.stop_le b hi)]
  rfl

/-- Writing over a row that there is, with as many values. -/
theorem putRow_eq (h : b.InRange) (hi : i < b.rows) (size : values.size = b.cols) :
    b.putRow i values = b.setRow i values := by
  obtain ⟨start, next, stop⟩ := h.positions hi
  have step : (i + 1) * b.cols = i * b.cols + b.cols := Nat.succ_mul i b.cols
  have inside := InRange.stop_le b hi
  rw [putRow, start, Outcome.ok_bind, next, Outcome.ok_bind, stop, Outcome.ok_bind, writeRange,
    dif_pos ⟨by omega, inside, by omega⟩, setRow, dif_pos hi, dif_pos size]

theorem runSetRow_eq (h : b.InRange) (i : Nat) (values : Array Scalar) :
    b.runSetRow i values = b.setRow i values := by
  by_cases hi : i < b.rows
  · by_cases size : values.size = b.cols
    · rw [runSetRow, if_neg (Nat.not_le.2 hi), if_neg (not_not.2 size), putRow_eq h hi size]
    · rw [runSetRow, if_neg (Nat.not_le.2 hi), if_pos size, setRow, dif_pos hi, dif_neg size]
  · rw [runSetRow, if_pos (Nat.not_lt.1 hi), setRow, dif_neg hi]

/-- Writing over a row changes this row only. -/
theorem setRow_eq_ok : b.setRow i values = .ok c ↔ (i < b.rows ∧ values.size = b.cols) ∧
    c.rows = b.rows ∧ c.cols = b.cols ∧
      ∀ j < b.rows, c.rowAt j = if j = i then values else b.rowAt j := by
  constructor
  · intro put
    rw [setRow] at put
    split at put
    · rename_i hi
      split at put
      · rename_i size
        cases put
        exact ⟨⟨hi, size⟩, rfl, rfl, fun j hj => extract_writeOver b.size_data size hi hj⟩
      · cases put
    · cases put
  · rintro ⟨⟨hi, size⟩, rows, cols, same⟩
    rw [setRow, dif_pos hi, dif_pos size]
    refine congrArg Except.ok (ext_rows rows.symm cols.symm fun j hj => ?_)
    exact (extract_writeOver b.size_data size hi hj).trans (same j hj).symm

theorem exists_setRow (hi : i < b.rows) (size : values.size = b.cols) :
    ∃ c, b.setRow i values = .ok c :=
  ⟨_, by rw [setRow, dif_pos hi, dif_pos size]⟩

theorem InRange.setRow (h : b.InRange) (put : b.setRow i values = .ok c) : c.InRange := by
  obtain ⟨-, rows, cols, -⟩ := setRow_eq_ok.1 put
  refine .of_shape (rows ▸ h.rows) (cols ▸ h.cols) ?_
  rw [rows, cols, ← b.size_data]
  exact h.size

end

theorem rowAt_blank {rows cols i : Nat} (hi : i < rows) :
    (blank rows cols).rowAt i = Array.replicate cols 0 := by
  have last : (i + 1) * cols ≤ rows * cols := Nat.mul_le_mul_right _ hi
  have step : (i + 1) * cols = i * cols + cols := Nat.succ_mul i cols
  simp only [rowAt, blank, Array.extract_replicate]
  congr 1
  omega

/-! ## Columns -/

/-- The rows of buffers side by side: those of the first. -/
def rowsOf (parts : List Buffer) : Nat := (parts.head?.map Buffer.rows).getD 0

/-- Equally many rows. -/
def Aligned (parts : List Buffer) : Prop := ∀ p ∈ parts, p.rows = rowsOf parts

/-- The columns of buffers side by side. -/
def colsOf (parts : List Buffer) : Nat := total (parts.map Buffer.cols)

section
variable {parts : List Buffer}

theorem find?_rows_eq_none :
    (parts.find? fun p => p.rows ≠ (parts.head?.map Buffer.rows).getD 0) = none ↔
      Aligned parts := by
  simp [Aligned, rowsOf]

/-- Aligned buffers are tables. -/
theorem Aligned.exists_tables (h : Aligned parts) :
    ∃ tables : List (Table (rowsOf parts)), tables.map (·.val) = parts :=
  ⟨parts.attach.map fun p => ⟨p.1, h p.1 p.2⟩, by
    rw [List.map_map]
    exact List.attach_map_subtype_val parts⟩

theorem colsOf_tables {rows : Nat} (tables : List (Table rows)) :
    colsOf (tables.map (·.val)) = total (tables.map fun part => part.val.cols) := by
  rw [colsOf, List.map_map]
  rfl

/-- Aligned buffers side by side are tables side by side. -/
theorem joinColumns_tables {tables : List (Table (rowsOf parts))}
    (same : tables.map (·.val) = parts) :
    joinColumns parts = (·.val) <$> sideBySide tables := by
  have aligned : Aligned parts := by
    intro p hp
    obtain ⟨t, -, rfl⟩ := List.mem_map.1 (same ▸ hp)
    exact t.property
  rw [joinColumns]
  split
  · rename_i other found
    rw [find?_rows_eq_none.2 aligned] at found
    cases found
  · refine congrArg (fun ts => (·.val) <$> sideBySide ts) ?_
    refine (List.map_inj_right fun _ _ => Subtype.ext).1 (Eq.trans ?_ same.symm)
    rw [List.map_map]
    exact List.attach_map_subtype_val parts

/-- Buffers that are not aligned are refused, on both ways. -/
theorem joinColumns_of_not_aligned (other : ¬ Aligned parts) :
    ∃ cause, joinColumns parts = refuseShape cause ∧ runJoinColumns parts = refuseShape cause := by
  rw [← find?_rows_eq_none, ← ne_eq, Option.ne_none_iff_exists'] at other
  obtain ⟨p, found⟩ := other
  refine ⟨.rowCounts (rowsOf parts) p.rows, ?_, ?_⟩
  · rw [joinColumns]
    split
    · rename_i q found'
      cases found.symm.trans found'
      rfl
    · rename_i none
      cases found.symm.trans none
  · rw [runJoinColumns, found]
    rfl

theorem foldl_rowAt {rows : Nat} (tables : List (Table rows)) (i : Nat) (data : Array Scalar) :
    tables.foldl (fun row part => row ++ part.val.rowAt i) data = data ++ joinedRow tables i := by
  induction tables generalizing data with
  | nil => simp [joinedRow]
  | cons t rest ih =>
    have first : joinedRow (t :: rest) i = #[] ++ t.val.rowAt i ++ joinedRow rest i := ih _
    rw [List.foldl_cons, ih, first, Array.empty_append, Array.append_assoc]

/-- The rows of tables, one after the other. -/
theorem stack_tables {rows : Nat} {tables : List (Table rows)}
    (count : rowsOf (tables.map (·.val)) = rows) (h : ∀ t ∈ tables, t.val.InRange) :
    stack (tables.map (·.val)) = (·.val.data) <$> sideBySide tables := by
  have row (data : Array Scalar) (i : Nat) (hi : i < rows) :
      (tables.map (·.val)).foldlM (fun data part => do pure (data ++ (← part.row i))) data =
        (.ok (data ++ joinedRow tables i) : Outcome (Array Scalar)) := by
    rw [List.foldlM_map, ← foldl_rowAt]
    refine Outcome.foldlM_eq_ok (fun data t ht => ?_) data
    rw [row_eq (h t ht) (by rwa [t.property])]
    rfl
  rw [sideBySide_eq, Count.map_within, data_tableOf, ← colsOf_tables, stack, Count.sum_eq_within]
  refine Count.within_bind_within ?_
  show (Count.check (rowsOf (tables.map (·.val)) * colsOf (tables.map (·.val))) >>= fun _ =>
    (List.range (rowsOf (tables.map (·.val)))).foldlM _ #[]) = _
  rw [count, Outcome.foldlM_joinRows row]
  exact Count.check_bind_pure _ _

/-- The walk along the rows of all buffers gives them side by side. -/
theorem runJoinColumns_eq (h : ∀ p ∈ parts, p.InRange) :
    runJoinColumns parts = Buffer.data <$> joinColumns parts := by
  by_cases aligned : Aligned parts
  · obtain ⟨tables, same⟩ := aligned.exists_tables
    have range (t : Table (rowsOf parts)) (ht : t ∈ tables) : t.val.InRange :=
      h _ ((congrArg (t.val ∈ ·) same).mp (List.mem_map_of_mem ht))
    have walk := stack_tables (by rw [same]) range
    rw [same] at walk
    rw [joinColumns_tables same, Functor.map_map, runJoinColumns, find?_rows_eq_none.2 aligned]
    exact walk
  · obtain ⟨cause, joined, run⟩ := joinColumns_of_not_aligned aligned
    rw [joined, run]
    rfl

end

/-- The walk along the rows gives a range of their columns. -/
theorem runColumnRange_eq {rows : Nat} (b : Table rows) (h : b.val.InRange) (start stop : Nat) :
    b.val.runColumnRange start stop = (·.val.data) <$> columnRange b start stop := by
  by_cases inside : start ≤ stop ∧ stop ≤ b.val.cols
  · have row (data : Array Scalar) (i : Nat) (hi : i < b.val.rows) : (do
        let row ← b.val.row i
        if stop ≤ row.size then pure (data ++ row.extract start stop)
        else .error (.fault .outOfRange) : Outcome (Array Scalar)) =
          .ok (data ++ (b.val.rowAt i).extract start stop) := by
      rw [row_eq h hi, Outcome.ok_bind, if_pos (by rw [b.val.size_rowAt hi]; exact inside.2)]
      rfl
    have sizes (i : Nat) (hi : i < rows) :
        ((b.val.rowAt i).extract start stop).size = stop - start := by
      rw [Array.size_extract, size_rowAt_table b hi, Nat.min_eq_left inside.2]
    have cut : columnRange b start stop = .ok (tableOf rows (stop - start) _ sizes) :=
      columnRange_eq_ok.2 ⟨inside, rfl, fun i hi => rowAt_tableOf sizes hi⟩
    rw [runColumnRange, if_neg (by omega), Outcome.foldlM_joinRows row, cut, b.property]
    exact congrArg Except.ok (data_tableOf sizes).symm
  · rw [runColumnRange, if_pos (by omega), columnRange, dif_neg inside]
    rfl

end Buffer

/-! ## Reductions -/

open Buffer (InRange)

theorem getD_setIfInBounds {σ : Type} {xs : Array σ} {x d : σ} {i j : Nat} (hj : j < xs.size) :
    (xs.setIfInBounds j x).getD i d = if i = j then x else xs.getD i d := by
  by_cases here : i = j
  · subst here
    simp [Array.getD_eq_getD_getElem?, hj]
  · simp [Array.getD_eq_getD_getElem?, here, Ne.symm here]

/-- Sums and counts that stand for tallies. -/
structure Totals.Hold {width : Nat} (t : Totals) (segments : Nat) (ts : Array (Tally width)) :
    Prop where
  size : ts.size = segments
  size_counts : t.counts.size = segments
  rows : t.sums.rows = segments
  cols : t.sums.cols = width
  range : t.sums.InRange
  counts : ∀ j < segments, t.counts.getD j 0 = (ts.getD j .empty).count
  sums : ∀ j < segments, t.sums.rowAt j = (ts.getD j .empty).total.toArray

namespace Totals.Hold

variable {width segments j k : Nat} {t : Totals} {ts : Array (Tally width)} {source : Buffer}

theorem start (fits : (Buffer.blank segments width).InRange) :
    Hold ⟨.blank segments width, Array.replicate segments 0⟩ segments
      (Array.ofFn (n := segments) fun _ => (Tally.empty : Tally width)) where
  size := by simp
  size_counts := by simp
  rows := rfl
  cols := rfl
  range := fits
  counts j hj := by simp [Array.getD_eq_getD_getElem?, hj, Tally.empty]
  sums j hj := by
    rw [Buffer.rowAt_blank hj]
    simp [Array.getD_eq_getD_getElem?, hj, Tally.empty]

/-- One more row keeps the sums at the tallies. -/
theorem addRow {ts : Array (Tally source.cols)} (h : t.Hold segments ts) (range : source.InRange)
    (hj : j < segments) (hk : k < source.rows) (fits : (ts.getD j .empty).count + 1 < limit) :
    ∃ t', t.addRow source j k = .ok t' ∧
      t'.Hold segments (ts.modify j (·.add (source.rowAt k))) := by
  have there : j < t.sums.rows := by rwa [h.rows]
  have counted : j < t.counts.size := by rwa [h.size_counts]
  have width : (Array.zipWith (· + ·) (t.sums.rowAt j) (source.rowAt k)).size = t.sums.cols := by
    rw [Array.size_zipWith, t.sums.size_rowAt there, source.size_rowAt hk, h.cols, Nat.min_self]
  obtain ⟨sums, put⟩ := Buffer.exists_setRow there width
  obtain ⟨-, rows, cols, rowAt⟩ := Buffer.setRow_eq_ok.1 put
  have count : Count.add (t.counts.getD j 0) 1 = .ok ((ts.getD j .empty).count + 1) := by
    rw [h.counts j hj]
    exact Count.add_eq_ok.2 ⟨fits, rfl⟩
  refine ⟨⟨sums, t.counts.setIfInBounds j ((ts.getD j .empty).count + 1)⟩, ?run, ?hold⟩
  case run =>
    rw [Totals.addRow, Buffer.row_eq range hk, Outcome.ok_bind, if_pos counted, count,
      Outcome.ok_bind, Buffer.row_eq h.range there, Outcome.ok_bind,
      Buffer.putRow_eq h.range there width, put]
    rfl
  case hold =>
    refine ⟨by rw [Array.size_modify, h.size], by simp [h.size_counts], rows.trans h.rows,
      cols.trans h.cols, h.range.setRow put, fun i hi => ?_, fun i hi => ?_⟩
    · rw [getD_setIfInBounds counted, getD_modify (by rwa [h.size]), h.counts i hi]
      by_cases same : i = j
      · rw [if_pos same, if_pos same, same]
        rfl
      · rw [if_neg same, if_neg same]
    · rw [rowAt i (by rwa [h.rows]), h.sums i hi, h.sums j hj, getD_modify (by rwa [h.size])]
      by_cases same : i = j
      · rw [if_pos same, if_pos same, same]
        refine Array.ext (by simp [source.size_rowAt hk]) fun c _ hc => ?_
        have inside : c < (source.rowAt k).size := by
          rw [source.size_rowAt hk]
          simpa using hc
        simp [Tally.add, Array.getD_eq_getD_getElem?, inside]
      · rw [if_neg same, if_neg same]

/-- All rows, one after the other: a count grows by one with each row, so that it stays below
    the number of rows. -/
theorem addRows {ts : Array (Tally source.cols)} (h : t.Hold segments ts) (range : source.InRange)
    (pairs : List (Nat × Nat)) (inside : ∀ p ∈ pairs, p.1 < segments ∧ p.2 < source.rows)
    (fits : ∀ j < segments, (ts.getD j .empty).count + pairs.length < limit) :
    ∃ t', pairs.foldlM (fun t p => t.addRow source p.1 p.2) t = .ok t' ∧
      t'.Hold segments (pairs.foldl (fun ts p => ts.modify p.1 (·.add (source.rowAt p.2))) ts) := by
  induction pairs generalizing t ts with
  | nil => exact ⟨t, rfl, h⟩
  | cons p rest ih =>
    obtain ⟨⟨hj, hk⟩, others⟩ := List.forall_mem_cons.1 inside
    rw [List.length_cons] at fits
    obtain ⟨t₁, first, h₁⟩ := h.addRow range hj hk (by have := fits p.1 hj; omega)
    obtain ⟨t₂, tail, h₂⟩ := ih h₁ others fun i hi => by
      have here := fits i hi
      rw [getD_modify (by rwa [h.size])]
      split
      · simp only [Tally.add]
        omega
      · omega
    refine ⟨t₂, ?_, h₂⟩
    rw [List.foldlM_cons, first]
    exact tail

/-- The rows of the first `n` destinations are divided, and the others are not. -/
theorem divideAll (h : t.Hold segments ts) {n : Nat} (hn : n ≤ segments) :
    ∃ sums, (List.range n).foldlM (fun sums j => Totals.divide sums (t.counts.getD j 0) j) t.sums =
        .ok sums ∧ sums.rows = segments ∧ sums.cols = width ∧ sums.InRange ∧
      ∀ j < segments, sums.rowAt j = if j < n then (Reducer.mean.finish (ts.getD j .empty)).toArray
        else (ts.getD j .empty).total.toArray := by
  induction n with
  | zero => exact ⟨t.sums, rfl, h.rows, h.cols, h.range, h.sums⟩
  | succ n ih =>
    obtain ⟨sums, run, rows, cols, range, rowAt⟩ := ih (by omega)
    have own : sums.rowAt n = (ts.getD n .empty).total.toArray := by
      rw [rowAt n (by omega), if_neg (by omega)]
    rw [foldlM_range_succ, run, Outcome.ok_bind, h.counts n (by omega), Totals.divide]
    by_cases none : (ts.getD n .empty).count = 0
    · refine ⟨sums, if_neg (by omega), rows, cols, range, fun j hj => ?_⟩
      by_cases here : j = n
      · subst here
        rw [if_pos (by omega), Reducer.finish, if_pos none, own]
      · have same : j < n + 1 ↔ j < n := by omega
        simp only [same, rowAt j hj]
    · have there : n < sums.rows := by omega
      have width : ((sums.rowAt n).map (· / Scalar.ofNat (ts.getD n .empty).count)).size =
          sums.cols := by
        rw [Array.size_map, sums.size_rowAt there]
      obtain ⟨divided, put⟩ := Buffer.exists_setRow there width
      obtain ⟨-, rows', cols', rowAt'⟩ := Buffer.setRow_eq_ok.1 put
      refine ⟨divided, ?_, rows'.trans rows, cols'.trans cols, range.setRow put, fun j hj => ?_⟩
      · rw [if_pos (by omega), Buffer.row_eq range there, Outcome.ok_bind,
          Buffer.putRow_eq range there width, put]
      · rw [rowAt' j (by omega)]
        by_cases here : j = n
        · subst here
          rw [if_pos rfl, if_pos (by omega), own, Reducer.finish, if_neg none]
          exact Array.ext (by simp) fun c _ _ => by simp
        · have same : j < n + 1 ↔ j < n := by omega
          rw [if_neg here, rowAt j hj]
          simp only [same]

/-- The rows of all destinations. -/
theorem runFinish (h : t.Hold segments ts) (r : Reducer) : ∃ sums, r.runFinish t = .ok sums ∧
    sums.rows = segments ∧ sums.cols = width ∧
      ∀ j < segments, sums.rowAt j = (r.finish (ts.getD j .empty)).toArray := by
  cases r with
  | sum => exact ⟨t.sums, rfl, h.rows, h.cols, h.sums⟩
  | mean =>
    obtain ⟨sums, run, rows, cols, -, rowAt⟩ := h.divideAll (Nat.le_refl segments)
    refine ⟨sums, ?_, rows, cols, fun j hj => by rw [rowAt j hj, if_pos hj]⟩
    rw [Reducer.runFinish, toList_zipIdx_eq t.counts 0, h.size_counts, List.foldlM_map]
    exact run

end Totals.Hold

namespace Reducer

variable {source : Buffer} {index : Array Nat} {segments : Nat}

/-- The walk over the rows reduces them. -/
theorem runReduce_eq (r : Reducer) (range : source.InRange) (segments_lt : segments < limit)
    (size : index.size = source.rows) (inside : ∀ j ∈ index, j < segments) :
    r.runReduce source index segments = (·.val) <$> r.reduce source index segments := by
  rw [runReduce, reduce, Buffer.zeros, Count.check_bind_pure, Count.check_bind_pure,
    Count.map_within]
  by_cases fits : segments * source.cols < limit
  · rw [Count.within_of_fits fits, Outcome.ok_bind, Count.within_of_fits fits]
    have start := Totals.Hold.start (InRange.of_shape (b := .blank segments source.cols)
      segments_lt range.cols fits)
    have pairs : ∀ p ∈ index.toList.zipIdx, p.1 < segments ∧ p.2 < source.rows := by
      rintro ⟨j, k⟩ hp
      obtain ⟨hk, hj⟩ := List.mem_zipIdx' hp
      rw [Array.length_toList, size] at hk
      exact ⟨inside j (hj ▸ Array.mem_toList_iff.1 (List.getElem_mem _)), hk⟩
    obtain ⟨t, run, hold⟩ := start.addRows range index.toList.zipIdx pairs fun j hj => by
      have rows := range.rows
      simpa [Array.getD_eq_getD_getElem?, hj, Tally.empty, size] using rows
    have same : index.toList.zipIdx.foldl (fun ts p => ts.modify p.1 (·.add (source.rowAt p.2)))
        (Array.ofFn (n := segments) fun _ => (Tally.empty : Tally source.cols)) =
          tallies source index segments := by
      rw [tallies, ← Array.foldl_toList, Array.toList_zipIdx]
    rw [same] at hold
    obtain ⟨sums, finish, rows, cols, rowAt⟩ := hold.runFinish r
    show (index.toList.zipIdx.foldlM _ _ >>= _) = _
    rw [run, Outcome.ok_bind, finish]
    refine congrArg Except.ok (Buffer.ext_rows rows cols fun j hj => ?_)
    rw [rows] at hj
    rw [rowAt j hj, Buffer.rowAt_tabulate _ hj]
  · rw [Count.within_of_not_fits fits, Outcome.error_bind, Count.within_of_not_fits fits]

/-- The walk over the rows aggregates them. -/
theorem runAggregate_eq (r : Reducer) (range : source.InRange) (segments_lt : segments < limit)
    (index : Array Nat) :
    r.runAggregate source index segments = (·.val) <$> r.aggregate source index segments := by
  by_cases size : index.size = source.rows
  · cases found : index.find? (segments ≤ ·) with
    | some bad =>
      rw [runAggregate, if_neg (not_not.2 size), aggregate, if_neg (not_not.2 size), found]
      rfl
    | none =>
      rw [runAggregate, if_neg (not_not.2 size), aggregate, if_neg (not_not.2 size), found]
      exact runReduce_eq r range segments_lt size (find?_outside_eq_none.1 found)
  · rw [runAggregate, if_pos size, aggregate, if_pos size]
    rfl

end Reducer

/-! ## States -/

namespace State

/-- As a process can hold it. -/
structure InRange (s : State) : Prop where
  nodes : s.nodes.InRange
  edges : s.edges.InRange
  globals : s.globals.InRange

variable {s t : State}

theorem runConcatenate_eq (hs : s.InRange) (ht : t.InRange) :
    s.runConcatenate t = storages <$> s.concatenate t := by
  rw [runConcatenate, concatenate]
  by_cases nodes : t.nodes.rows = s.nodes.rows
  · by_cases edges : t.edges.rows = s.edges.rows
    · by_cases ends : s.senders = t.senders ∧ s.receivers = t.receivers
      · have both {n : Nat} (a b : Table n) (ha : a.val.InRange) (hb : b.val.InRange) :
            Buffer.stack ([a, b].map (·.val)) = (·.val.data) <$> Buffer.sideBySide [a, b] :=
          Buffer.stack_tables (by simp [Buffer.rowsOf, a.property]) (by simp [ha, hb])
        have nodeRows := both s.nodes.table ⟨t.nodes, nodes⟩ hs.nodes ht.nodes
        have edgeRows := both s.edges.table ⟨t.edges, edges⟩ hs.edges ht.edges
        have globalRow := both s.globalTable t.globalTable hs.globals ht.globals
        dsimp only [List.map, Buffer.table, globalTable] at nodeRows edgeRows globalRow
        rw [if_neg (not_not.2 nodes.symm), if_neg (not_not.2 edges.symm),
          if_neg (by simp [ends]), dif_pos nodes, dif_pos edges, if_pos ends, nodeRows, edgeRows,
          globalRow]
        simp only [bind_map_left, map_bind]
        rfl
      · rw [if_neg (not_not.2 nodes.symm), if_neg (not_not.2 edges.symm), if_pos (by tauto),
          dif_pos nodes, dif_pos edges, if_neg ends]
        rfl
    · rw [if_neg (not_not.2 nodes.symm), if_pos (Ne.symm edges), dif_pos nodes, dif_neg edges]
      rfl
  · rw [if_pos (Ne.symm nodes), dif_neg nodes]
    rfl

theorem runSliceFeatures_eq (hs : s.InRange) (nodes edges globals : Nat × Nat) :
    s.runSliceFeatures nodes edges globals = storages <$> s.sliceFeatures nodes edges globals := by
  have nodeCols := Buffer.runColumnRange_eq s.nodes.table hs.nodes nodes.1 nodes.2
  have edgeCols := Buffer.runColumnRange_eq s.edges.table hs.edges edges.1 edges.2
  have globalCols := Buffer.runColumnRange_eq s.globalTable hs.globals globals.1 globals.2
  dsimp only [Buffer.table, globalTable] at nodeCols edgeCols globalCols
  rw [runSliceFeatures, sliceFeatures, nodeCols, edgeCols, globalCols]
  simp only [bind_map_left, map_bind]
  rfl

theorem runSplit_eq (hs : s.InRange) (cut : Widths) :
    s.runSplit cut = (fun p => p.1.storages ++ p.2.storages) <$> s.split cut := by
  rw [runSplit, split, runSliceFeatures_eq hs, runSliceFeatures_eq hs]
  simp only [bind_map_left, map_bind]
  rfl

end State

end MessagePassing
