/-
  Message passing — rows read by position.

  A read that promises nothing looks whether there is the row, and a read that promises the row
  only computes its place.  Both give the row where there is one.  Past the last row the promised
  place lies outside of the storage, unless rows have no columns: then every row is the empty
  range at the start, and a read gives it.

  * `Buffer.row_eq_ok`, `Buffer.row_faults`: when a read by position gives values, and when not;
  * `Buffer.row_access`: both ways to read a row, and the list of all rows;
  * `Buffer.row_past_end`: a read past the last row that is no fault.
-/
import MessagePassing.Proofs.RawBuffers

namespace MessagePassing

open MessagePassing.Count (limit)

namespace Buffer

variable {b : Buffer} {i : Nat} {row : Array Scalar}

/-- A read by position succeeds iff its place lies inside of the storage. -/
theorem row_eq_ok (h : b.InRange) :
    b.row i = .ok row ↔ (i < b.rows ∨ b.cols = 0 ∧ i + 1 < limit) ∧ row = b.rowAt i := by
  constructor
  · intro read
    obtain ⟨start, hstart, read⟩ := Outcome.bind_eq_ok.1 read
    obtain ⟨next, hnext, read⟩ := Outcome.bind_eq_ok.1 read
    obtain ⟨stop, hstop, read⟩ := Outcome.bind_eq_ok.1 read
    obtain ⟨-, rfl⟩ := Count.mul_eq_ok.1 hstart
    obtain ⟨count, rfl⟩ := Count.add_eq_ok.1 hnext
    obtain ⟨-, rfl⟩ := Count.mul_eq_ok.1 hstop
    split at read
    · rename_i inside
      rw [b.size_data] at inside
      refine ⟨?_, (Except.ok.inj read).symm⟩
      -- only rows with columns tell by their end whether they are inside
      by_cases none : b.cols = 0
      · exact .inr ⟨none, count⟩
      · exact .inl (Nat.le_of_mul_le_mul_right inside (Nat.pos_of_ne_zero none))
    · cases read
  · rintro ⟨place, rfl⟩
    rcases place with there | ⟨none, count⟩
    · exact row_eq h there
    · have next : Count.add i 1 = .ok (i + 1) := Count.add_eq_ok.2 ⟨count, rfl⟩
      have zero (n : Nat) : Count.mul n b.cols = .ok 0 :=
        Count.mul_eq_ok.2 ⟨by rw [none, Nat.mul_zero]; decide, by rw [none, Nat.mul_zero]⟩
      rw [Buffer.row, zero, Outcome.ok_bind, next, Outcome.ok_bind, zero, Outcome.ok_bind,
        if_pos (Nat.zero_le _), rowAt, none, Nat.mul_zero, Nat.mul_zero]
      rfl

/-- A read by position is never refused. -/
theorem row_ne_refused (b : Buffer) (i : Nat) (e : Error) : b.row i ≠ .error (.refused e) := by
  refine Outcome.bind_ne_refused (Count.checked_ne_refused _ e) fun start =>
    Outcome.bind_ne_refused (Count.checked_ne_refused _ e) fun next =>
    Outcome.bind_ne_refused (Count.checked_ne_refused _ e) fun stop => ?_
  split <;> nofun

theorem row_faults (h : b.InRange) : (∃ f, b.row i = .error (.fault f)) ↔
    ¬ (i < b.rows ∨ b.cols = 0 ∧ i + 1 < limit) := by
  constructor
  · rintro ⟨f, fault⟩ place
    rw [(row_eq_ok h).2 ⟨place, rfl⟩] at fault
    cases fault
  · intro nowhere
    cases read : b.row i with
    | ok row => exact absurd ((row_eq_ok h).1 read).1 nowhere
    | error failure =>
      cases failure with
      | refused e => exact absurd read (row_ne_refused b i e)
      | fault f => exact ⟨f, rfl⟩

/-- **Rows are read by position.**

    * A read that promises nothing gives the row where there is one, and else nothing.
    * A read that promises the row gives the same row where there is one, which has a value for
      each column and stands at its position among all rows.
    * Where there is none it is a fault, unless rows have no columns: then it gives the empty
      row, up to the last position after which there is no count. -/
theorem row_access (b : Buffer) (h : b.InRange) {i : Nat} (hi : i < limit) :
    (b.raw.row i = b.row i ∧ b.raw.getRow i = .ok (b.row? i) ∧ b.raw.iterRows = .ok b.rowList) ∧
      (b.row? i = none ↔ b.rows ≤ i) ∧
      (i < b.rows → ∃ row, b.row i = .ok row ∧ b.row? i = some row ∧ b.rowList[i]? = some row ∧
        row.size = b.cols) ∧
      ((∃ f, b.row i = .error (.fault f)) ↔ b.rows ≤ i ∧ (b.cols = 0 → i + 1 = limit)) ∧
      (b.rows ≤ i → b.cols = 0 → i + 1 < limit → b.row i = .ok #[]) := by
  refine ⟨⟨RawBuffer.row_raw b i, RawBuffer.getRow_raw h i, RawBuffer.iterRows_raw h⟩, ?_,
    fun there => ?_, ?_, fun past none count => ?_⟩
  · rw [row?]
    split <;> simp <;> omega
  · have item : b.rowList[i]? = some (b.rowAt i) := by
      rw [rowList, List.getElem?_map, List.getElem?_range there]
      rfl
    exact ⟨b.rowAt i, row_eq h there, if_pos there, item, b.size_rowAt there⟩
  · rw [row_faults h]
    omega
  · have empty : b.rowAt i = #[] := by
      rw [rowAt, none, Nat.mul_zero, Nat.mul_zero]
      exact Array.extract_empty_of_stop_le_start (Nat.le_refl 0)
    exact (row_eq_ok h).2 ⟨.inr ⟨none, count⟩, empty.symm⟩

/-- Of a buffer with two rows and no columns a third row is read, and it does not exist. -/
theorem row_access_blank :
    (blank 2 0).InRange ∧ 2 < limit ∧ (blank 2 0).row 1 = .ok #[] ∧ (blank 2 0).row 2 = .ok #[] ∧
      (blank 2 0).raw.getRow 2 = .ok none := by
  have range : (blank 2 0).InRange := .of_shape (by decide) (by decide) (by decide)
  have count : 2 < limit := by decide
  obtain ⟨-, -, row, -⟩ := row_access (blank 2 0) range (show 1 < limit by decide)
  obtain ⟨⟨-, checked, -⟩, none, -, -, past⟩ := row_access (blank 2 0) range count
  obtain ⟨values, read, -, -, size⟩ := row (by decide)
  refine ⟨range, count, ?_, past (by decide) rfl (by decide), ?_⟩
  · rw [read, Array.eq_empty_of_size_eq_zero size]
  · rw [checked, none.2 (by decide)]

/-- Not every read past the last row is a fault. -/
theorem row_past_end : ¬ ∀ (b : Buffer) (i : Nat), b.InRange → i < limit →
    ((∃ f, b.row i = .error (.fault f)) ↔ b.rows ≤ i) := by
  intro all
  have range : (blank 2 0).InRange := .of_shape (by decide) (by decide) (by decide)
  obtain ⟨f, fault⟩ := (all (blank 2 0) 2 range (by decide)).2 (by decide)
  have read : (blank 2 0).row 2 = .ok #[] := rfl
  rw [read] at fault
  cases fault

end Buffer

end MessagePassing
