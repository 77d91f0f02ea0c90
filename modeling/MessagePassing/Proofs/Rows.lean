/-
  Message passing — buffers as functions from rows.

  A buffer is determined by its shape and its rows (`ext_rows`), and its storage is
  those rows one after the other (`data_eq_joinRows`).  `tableOf` is the table with
  given rows; every operation that a round uses gives such a table or overflows
  (`gather_eq`, `broadcast_eq`, `sideBySide_eq`, `mapRows_eq`).
-/
import MessagePassing.Buffer
import MessagePassing.Proofs.Outcome

namespace MessagePassing.Buffer

/-! ## Storage and rows -/

theorem joinRows_congr {f g : Nat → Array Scalar} (n : Nat) (h : ∀ i, i < n → f i = g i) :
    joinRows f n = joinRows g n := by
  induction n with
  | zero => rfl
  | succ n ih =>
    rw [joinRows_succ, joinRows_succ, ih fun i hi => h i (by omega), h n (by omega)]

/-- The storage up to row `n` is the first `n` rows. -/
theorem joinRows_rowAt (b : Buffer) (n : Nat) :
    joinRows b.rowAt n = b.data.extract 0 (n * b.cols) := by
  induction n with
  | zero => simp [joinRows]
  | succ n ih =>
    have step : (n + 1) * b.cols = n * b.cols + b.cols := Nat.succ_mul n b.cols
    rw [joinRows_succ, ih, rowAt, Array.extract_append_extract]
    congr 1
    omega

theorem data_eq_joinRows (b : Buffer) : b.data = joinRows b.rowAt b.rows := by
  rw [joinRows_rowAt, ← b.size_data, Array.extract_size]

/-- Buffers of one shape with equal rows are equal. -/
theorem ext_rows {a b : Buffer} (rows : a.rows = b.rows) (cols : a.cols = b.cols)
    (same : ∀ i, i < a.rows → a.rowAt i = b.rowAt i) : a = b := by
  refine Buffer.ext rows cols ?_
  rw [data_eq_joinRows a, data_eq_joinRows b, ← rows]
  exact joinRows_congr _ same

theorem data_tabulate {rows cols : Nat} {f : Nat → Array Scalar}
    (h : ∀ i, i < rows → (f i).size = cols) : (tabulate rows cols f h).data = joinRows f rows := by
  rw [data_eq_joinRows]
  exact joinRows_congr rows fun i hi => rowAt_tabulate h hi

/-! ## Tables with given rows -/

/-- The table whose row `i` is `f i`. -/
def tableOf (rows cols : Nat) (f : Nat → Array Scalar)
    (h : ∀ i, i < rows → (f i).size = cols) : Table rows :=
  ⟨tabulate rows cols f h, rfl⟩

section
variable {rows cols : Nat} {f : Nat → Array Scalar} (h : ∀ i, i < rows → (f i).size = cols)

theorem rowAt_tableOf {i : Nat} (hi : i < rows) : (tableOf rows cols f h).val.rowAt i = f i :=
  rowAt_tabulate h hi

theorem data_tableOf : (tableOf rows cols f h).val.data = joinRows f rows := data_tabulate h

end

theorem table_ext {rows : Nat} {a b : Table rows} (cols : a.val.cols = b.val.cols)
    (same : ∀ i, i < rows → a.val.rowAt i = b.val.rowAt i) : a = b :=
  Subtype.ext (ext_rows (a.property.trans b.property.symm) cols fun i hi =>
    same i (by rwa [a.property] at hi))

theorem table_data_eq_joinRows {rows : Nat} (b : Table rows) :
    b.val.data = joinRows b.val.rowAt rows := by
  obtain ⟨b, rfl⟩ := b
  exact b.data_eq_joinRows

theorem size_rowAt_table {rows : Nat} (b : Table rows) {i : Nat} (hi : i < rows) :
    (b.val.rowAt i).size = b.val.cols :=
  b.val.size_rowAt (by rwa [b.property])

/-! ## What the operations of a round give -/

open MessagePassing.Count (within limit total)

theorem getD_lt {index : Array Nat} {n k : Nat} (h : ∀ i ∈ index, i < n) (hk : k < index.size) :
    index.getD k 0 < n := by
  rw [Array.getD_eq_getD_getElem?, Array.getElem?_eq_getElem hk]
  exact h _ (Array.getElem_mem hk)

theorem gather_eq (b : Buffer) (indices : Array Nat) (h : ∀ i ∈ indices, i < b.rows) :
    b.gather indices h = within (indices.size * b.cols < limit)
      (tableOf indices.size b.cols (fun k => b.rowAt (indices.getD k 0))
        fun _ hk => b.size_rowAt (getD_lt h hk)) :=
  Count.check_bind_pure _ _

theorem broadcast_eq (b : Table 1) (rows : Nat) :
    broadcast b rows = within (rows * b.val.cols < limit)
      (tableOf rows b.val.cols (fun _ => b.val.rowAt 0)
        (fun _ _ => size_rowAt_table b Nat.one_pos)) :=
  Count.check_bind_pure _ _

/-- A row of tables side by side is the rows of the parts, one after the other. -/
theorem joinedRow_eq_flatten {rows : Nat} (parts : List (Table rows)) (i : Nat) :
    joinedRow parts i = (parts.map fun part => part.val.rowAt i).toArray.flatten := by
  rw [joinedRow, Array.flatten, ← Array.foldl_toList, List.foldl_map]
  rfl

theorem size_joinedRow {rows : Nat} (parts : List (Table rows)) (i : Nat) (hi : i < rows) :
    (joinedRow parts i).size = total (parts.map fun part => part.val.cols) := by
  rw [joinedRow, size_foldl_rowAt hi parts #[], Array.size_empty, Nat.zero_add]

theorem sideBySide_eq {rows : Nat} (parts : List (Table rows)) :
    sideBySide parts =
      within (total (parts.map fun part => part.val.cols) < limit ∧
          rows * total (parts.map fun part => part.val.cols) < limit)
        (tableOf rows (total (parts.map fun part => part.val.cols)) (joinedRow parts)
          (size_joinedRow parts)) := by
  rw [sideBySide, Count.sum_eq_within]
  exact Count.within_bind_within (Count.check_bind_pure _ _)

theorem mapRows_eq {rows : Nat} (b : Table rows) (cols : Nat) (f : Array Scalar → Array Scalar)
    (h : ∀ x, (f x).size = cols) :
    mapRows b cols f h = within (rows * cols < limit)
      (tableOf rows cols (fun i => f (b.val.rowAt i)) (fun _ _ => h _)) :=
  Count.check_bind_pure _ _

end MessagePassing.Buffer
