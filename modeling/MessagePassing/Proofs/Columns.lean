/-
  Message passing — columns side by side and apart.

  Buffers side by side have the columns of the first, then those of the second, and so on.  Cut
  at the places where one ends and the next starts, they come apart again, and a buffer that is
  cut anywhere can be put together.

  * `Buffer.columns_eq_ok`: what a range of columns holds;
  * `Buffer.joinColumns_within`: what buffers side by side hold;
  * `Buffer.extract_sideRow`, `Buffer.exists_pieces`: a row of the parts cut apart, and the parts
    of a row put together;
  * `Buffer.joinColumns_columns`: both ways, and what is refused.
-/
import MessagePassing.Proofs.Positions

namespace MessagePassing

open Buffer (Table)
open MessagePassing.Count (within limit)

namespace Buffer

variable {b c : Buffer} {parts : List Buffer}

/-! ## A range of columns -/

/-- The columns from `start` to before `stop`, in a buffer of their own. -/
def columns (b : Buffer) (start stop : Nat) : Outcome Buffer :=
  (·.val) <$> columnRange b.table start stop

theorem columns_eq_ok {start stop : Nat} : b.columns start stop = .ok c ↔
    (start ≤ stop ∧ stop ≤ b.cols) ∧ c.rows = b.rows ∧ c.cols = stop - start ∧
      ∀ i < b.rows, c.rowAt i = (b.rowAt i).extract start stop := by
  constructor
  · intro cut
    obtain ⟨t, made, rfl⟩ := Outcome.map_eq_ok.1 cut
    obtain ⟨inside, cols, rows⟩ := columnRange_eq_ok.1 made
    exact ⟨inside, t.property, cols, rows⟩
  · rintro ⟨inside, count, cols, rows⟩
    have cut : columnRange b.table start stop = .ok ⟨c, count⟩ :=
      columnRange_eq_ok.2 ⟨inside, cols, rows⟩
    rw [columns, cut]
    rfl

theorem exists_columns {start stop : Nat} (inside : start ≤ stop ∧ stop ≤ b.cols) :
    ∃ c, b.columns start stop = .ok c := by
  obtain ⟨t, cut⟩ : ∃ t, columnRange b.table start stop = .ok t := ⟨_, dif_pos inside⟩
  exact ⟨t.val, by rw [columns, cut]; rfl⟩

/-- A range is refused iff it is reversed or goes past the last column. -/
theorem columns_refused {start stop : Nat} :
    (∃ cause, b.columns start stop = refuseShape cause) ↔ stop < start ∨ b.cols < stop := by
  by_cases inside : start ≤ stop ∧ stop ≤ b.cols
  · obtain ⟨c, cut⟩ := exists_columns inside
    rw [cut]
    constructor
    · rintro ⟨cause, ⟨⟩⟩
    · omega
  · have refused : columnRange b.table start stop = refuseShape (.columnRange start stop b.cols) :=
      dif_neg inside
    rw [columns, refused]
    exact ⟨fun _ => by omega, fun _ => ⟨_, rfl⟩⟩

/-! ## Buffers side by side -/

/-- Row `i` of buffers side by side. -/
def sideRow (parts : List Buffer) (i : Nat) : Array Scalar :=
  parts.foldr (fun p row => p.rowAt i ++ row) #[]

theorem sideRow_cons (p : Buffer) (rest : List Buffer) (i : Nat) :
    sideRow (p :: rest) i = p.rowAt i ++ sideRow rest i := rfl

theorem colsOf_cons (p : Buffer) (rest : List Buffer) :
    colsOf (p :: rest) = p.cols + colsOf rest := rfl

theorem joinedRow_eq_sideRow {rows : Nat} (tables : List (Table rows)) (i : Nat) :
    joinedRow tables i = sideRow (tables.map (·.val)) i := by
  induction tables with
  | nil => rfl
  | cons t rest ih =>
    have first : joinedRow (t :: rest) i = #[] ++ t.val.rowAt i ++ joinedRow rest i :=
      foldl_rowAt rest i _
    rw [first, ih, Array.empty_append]
    rfl

theorem aligned_iff : Aligned parts ↔ ∀ p ∈ parts, ∀ q ∈ parts, p.rows = q.rows := by
  constructor
  · intro aligned p hp q hq
    rw [aligned p hp, aligned q hq]
  · intro same p hp
    cases parts with
    | nil => cases hp
    | cons first rest => exact same p hp first List.mem_cons_self

/-- Aligned buffers can be put side by side, unless this is too large. -/
theorem joinColumns_within (aligned : Aligned parts) : ∃ c,
    joinColumns parts =
      within (colsOf parts < limit ∧ rowsOf parts * colsOf parts < limit) c ∧
      c.rows = rowsOf parts ∧ c.cols = colsOf parts ∧
      ∀ i < rowsOf parts, c.rowAt i = sideRow parts i := by
  obtain ⟨tables, same⟩ := aligned.exists_tables
  have cols := colsOf_tables tables
  rw [same] at cols
  refine ⟨(tableOf _ _ (joinedRow tables) (size_joinedRow tables)).val, ?_, rfl, cols.symm,
    fun i hi => ?_⟩
  · rw [joinColumns_tables same, sideBySide_eq, Count.map_within]
    exact Count.within_congr (by rw [cols]) rfl
  · rw [rowAt_tableOf _ hi, joinedRow_eq_sideRow, same]

/-- Buffers are refused iff two of them have different numbers of rows. -/
theorem joinColumns_refused : (∃ cause, joinColumns parts = refuseShape cause) ↔
    ∃ p ∈ parts, ∃ q ∈ parts, p.rows ≠ q.rows := by
  have other : ¬ Aligned parts ↔ ∃ p ∈ parts, ∃ q ∈ parts, p.rows ≠ q.rows := by
    rw [aligned_iff]
    push Not
    rfl
  rw [← other]
  constructor
  · rintro ⟨cause, refused⟩ aligned
    obtain ⟨c, joined, -⟩ := joinColumns_within aligned
    rw [joined] at refused
    exact Count.within_ne_refused _ _ refused
  · intro other
    obtain ⟨cause, refused, -⟩ := joinColumns_of_not_aligned other
    exact ⟨cause, refused⟩

/-! ## From the whole to the parts -/

/-- The columns of part `k` in a row are the row of this part: the parts before it are as wide
    as the place where it starts. -/
theorem extract_sideRow {rows : Nat} (aligned : ∀ p ∈ parts, p.rows = rows) {i : Nat}
    (hi : i < rows) {k : Nat} {p : Buffer} (hp : parts[k]? = some p) :
    (sideRow parts i).extract (colsOf (parts.take k)) (colsOf (parts.take (k + 1))) =
      p.rowAt i := by
  induction parts generalizing k with
  | nil => simp at hp
  | cons first rest ih =>
    obtain ⟨own, others⟩ := List.forall_mem_cons.1 aligned
    have size : (first.rowAt i).size = first.cols := first.size_rowAt (by rwa [own])
    cases k with
    | zero =>
      obtain rfl : first = p := by simpa using hp
      rw [List.take_succ_cons, List.take_zero, List.take_zero, sideRow_cons, colsOf_cons]
      show Array.extract _ 0 (first.cols + 0) = _
      rw [Nat.add_zero, ← size, Array.extract_append_left, Array.extract_size]
    | succ k =>
      have tail := ih others (by simpa using hp)
      rw [List.take_succ_cons, List.take_succ_cons, colsOf_cons, colsOf_cons, sideRow_cons,
        Array.extract_append, size, Nat.add_sub_cancel_left, Nat.add_sub_cancel_left, tail,
        Array.extract_empty_of_size_le_start (by omega), Array.empty_append]

theorem colsOf_take_succ {k : Nat} {p : Buffer} (hp : parts[k]? = some p) :
    colsOf (parts.take (k + 1)) = colsOf (parts.take k) + p.cols := by
  induction parts generalizing k with
  | nil => simp at hp
  | cons first rest ih =>
    cases k with
    | zero =>
      obtain rfl : first = p := by simpa using hp
      rw [List.take_succ_cons, List.take_zero, List.take_zero, colsOf_cons, Nat.add_comm]
    | succ k =>
      rw [List.take_succ_cons, List.take_succ_cons, colsOf_cons, colsOf_cons,
        ih (by simpa using hp), Nat.add_assoc]

theorem colsOf_take_le (parts : List Buffer) (k : Nat) : colsOf (parts.take k) ≤ colsOf parts := by
  induction parts generalizing k with
  | nil => simp
  | cons first rest ih =>
    cases k with
    | zero => exact Nat.zero_le _
    | succ k =>
      rw [List.take_succ_cons, colsOf_cons, colsOf_cons]
      exact Nat.add_le_add_left (ih k) _

/-! ## From the parts to the whole -/

/-- The columns between each cut and the next one. -/
def pieces (b : Buffer) : List Nat → Outcome (List Buffer)
  | start :: stop :: cuts => do
    let piece ← b.columns start stop
    let others ← b.pieces (stop :: cuts)
    pure (piece :: others)
  | _ => pure []

/-- The pieces from the first cut to the last one are all that lies between these two: every
    piece starts where the one before it stops. -/
theorem exists_pieces {start : Nat} {cuts : List Nat} (sorted : (start :: cuts).Pairwise (· ≤ ·))
    (inside : ∀ cut ∈ cuts, cut ≤ b.cols) : ∃ parts, b.pieces (start :: cuts) = .ok parts ∧
      parts.length = cuts.length ∧ (∀ p ∈ parts, p.rows = b.rows) ∧
      start + colsOf parts = (start :: cuts).getLast (List.cons_ne_nil _ _) ∧
      ∀ i < b.rows, sideRow parts i =
        (b.rowAt i).extract start ((start :: cuts).getLast (List.cons_ne_nil _ _)) := by
  induction cuts generalizing start with
  | nil =>
    refine ⟨[], rfl, rfl, by simp, rfl, fun i _ => (Array.eq_empty_of_size_eq_zero ?_).symm⟩
    show ((b.rowAt i).extract start start).size = 0
    rw [Array.size_extract]
    omega
  | cons stop cuts ih =>
    obtain ⟨before, rest⟩ := List.pairwise_cons.1 sorted
    obtain ⟨here, after⟩ := List.forall_mem_cons.1 inside
    have forward : start ≤ stop := before stop List.mem_cons_self
    obtain ⟨others, tail, length, rows, width, sides⟩ := ih rest after
    obtain ⟨p, piece⟩ := exists_columns ⟨forward, here⟩
    obtain ⟨-, count, cols, first⟩ := columns_eq_ok.1 piece
    have last := List.getLast_cons (a := start) (List.cons_ne_nil stop cuts)
    have upTo : stop ≤ (stop :: cuts).getLast (List.cons_ne_nil _ _) := by omega
    refine ⟨p :: others, ?_, by rw [List.length_cons, List.length_cons, length],
      List.forall_mem_cons.2 ⟨count, rows⟩, ?_, fun i hi => ?_⟩
    · rw [pieces, piece, tail]
      rfl
    · rw [last, colsOf_cons, cols]
      omega
    · rw [last, sideRow_cons, first i hi, sides i hi, Array.extract_append_extract,
        Nat.min_eq_left forward, Nat.max_eq_right upTo]

/-- A buffer that is cut from its first column to its last one, put together. -/
theorem joinColumns_pieces (h : b.InRange) {cuts : List Nat}
    (sorted : (0 :: cuts ++ [b.cols]).Pairwise (· ≤ ·)) :
    ∃ parts, b.pieces (0 :: cuts ++ [b.cols]) = .ok parts ∧ joinColumns parts = .ok b := by
  rw [List.cons_append] at sorted ⊢
  have inside : ∀ cut ∈ cuts ++ [b.cols], cut ≤ b.cols := by
    have upTo := (List.pairwise_append.1 (List.pairwise_cons.1 sorted).2).2.2
    intro cut hcut
    rcases List.mem_append.1 hcut with hcut | hcut
    · exact upTo cut hcut b.cols List.mem_cons_self
    · exact Nat.le_of_eq (List.mem_singleton.1 hcut)
  obtain ⟨parts, cut, length, rows, width, sides⟩ := exists_pieces sorted inside
  have last : (0 :: (cuts ++ [b.cols])).getLast (List.cons_ne_nil _ _) = b.cols := by simp
  rw [last] at width sides
  -- there is at least one piece, so that the pieces tell the number of rows
  obtain ⟨p, rest, rfl⟩ : ∃ p rest, parts = p :: rest := by
    cases parts with
    | nil => simp at length
    | cons p rest => exact ⟨p, rest, rfl⟩
  have count : rowsOf (p :: rest) = b.rows := rows p List.mem_cons_self
  have cols : colsOf (p :: rest) = b.cols := by omega
  have aligned : Aligned (p :: rest) := fun q hq => (rows q hq).trans count.symm
  obtain ⟨c, joined, cRows, cCols, cSides⟩ := joinColumns_within aligned
  rw [count, cols, ← b.size_data, Count.within_of_fits ⟨h.cols, h.size⟩] at joined
  refine ⟨_, cut, joined.trans (congrArg Except.ok ?_)⟩
  refine ext_rows (cRows.trans count) (cCols.trans cols) fun i hi => ?_
  rw [cRows] at hi
  rw [cSides i hi, sides i (by rwa [← count]), ← b.size_rowAt (by rwa [← count]),
    Array.extract_size]

/-- **Columns are put side by side and cut apart.**

    * Buffers with equally many rows are put side by side, unless this is too large, and part `k`
      is what lies between the place where it starts and the one where the next part does.
    * A buffer that is cut at any places, in order and from the first column to the last, is put
      together as it was.
    * Buffers side by side are refused iff two of them have different numbers of rows, and a range
      of columns is iff it is reversed or goes past the last column. -/
theorem joinColumns_columns :
    (∀ parts : List Buffer, (∀ p ∈ parts, ∀ q ∈ parts, p.rows = q.rows) →
      colsOf parts < limit → rowsOf parts * colsOf parts < limit →
      ∃ c, joinColumns parts = .ok c ∧ c.rows = rowsOf parts ∧ c.cols = colsOf parts ∧
        ∀ k p, parts[k]? = some p →
          c.columns (colsOf (parts.take k)) (colsOf (parts.take (k + 1))) = .ok p) ∧
    (∀ b : Buffer, b.InRange → ∀ cuts : List Nat, (0 :: cuts ++ [b.cols]).Pairwise (· ≤ ·) →
      ∃ parts, b.pieces (0 :: cuts ++ [b.cols]) = .ok parts ∧ joinColumns parts = .ok b) ∧
    (∀ parts : List Buffer, (∃ cause, joinColumns parts = refuseShape cause) ↔
      ∃ p ∈ parts, ∃ q ∈ parts, p.rows ≠ q.rows) ∧
    ∀ (b : Buffer) (start stop : Nat), (∃ cause, b.columns start stop = refuseShape cause) ↔
      start > stop ∨ stop > b.cols := by
  refine ⟨fun parts same width fits => ?_, fun b h cuts => joinColumns_pieces h,
    fun parts => joinColumns_refused, fun b start stop => columns_refused⟩
  have aligned := aligned_iff.2 same
  obtain ⟨c, joined, rows, cols, sides⟩ := joinColumns_within aligned
  rw [Count.within_of_fits ⟨width, fits⟩] at joined
  refine ⟨c, joined, rows, cols, fun k p hp => columns_eq_ok.2 ⟨⟨?_, ?_⟩, ?_, ?_, ?_⟩⟩
  · rw [colsOf_take_succ hp]
    exact Nat.le_add_right _ _
  · rw [cols]
    exact colsOf_take_le parts _
  · rw [rows]
    exact aligned p (List.mem_of_getElem? hp)
  · rw [colsOf_take_succ hp, Nat.add_sub_cancel_left]
  · intro i hi
    rw [rows] at hi
    rw [sides i hi, extract_sideRow aligned hi hp]

/-- Two rows with two columns. -/
def crossed : Buffer := ⟨2, 2, #[0, 1, 1, 0], rfl⟩

/-- It is put beside a column and beside no column at all and cut off again, and it is cut twice
    after its first column and put together. -/
theorem joinColumns_columns_crossed :
    ∃ parts, parts = [.blank 2 1, .blank 2 0, crossed] ∧
      (∀ p ∈ parts, ∀ q ∈ parts, p.rows = q.rows) ∧
      (∃ c, joinColumns parts = .ok c ∧ c.cols = 3 ∧ c.columns 1 1 = .ok (.blank 2 0) ∧
        c.columns 1 3 = .ok crossed) ∧
      ∃ pieces, crossed.pieces [0, 1, 1, 2] = .ok pieces ∧ joinColumns pieces = .ok crossed := by
  have same : ∀ p ∈ [blank 2 1, blank 2 0, crossed],
      ∀ q ∈ [blank 2 1, blank 2 0, crossed], p.rows = q.rows := by
    simp [blank, crossed]
  obtain ⟨apart, together, -⟩ := joinColumns_columns
  obtain ⟨c, joined, -, cols, parts⟩ := apart _ same (by decide) (by decide)
  exact ⟨_, rfl, same, ⟨c, joined, cols, parts 1 _ rfl, parts 2 _ rfl⟩,
    together crossed ⟨by decide, by decide, by decide⟩ [1, 1] (by decide)⟩

end Buffer

end MessagePassing
