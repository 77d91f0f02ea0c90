/-
  Message passing — reduction by destination.

  A reducer sends source row `k` to destination `index[k]`.  `contributors index j` are
  the rows that reach destination `j`, in increasing order, and `combine` is what a
  reducer makes of a list of rows, column by column.

  * `tallies_getD`: destination `j` tallies exactly its contributors, whatever the
    other destinations get in between;
  * `reduce_eq`: row `j` of a reduction combines the contributors of `j`;
  * `reduceAll_eq`: the row of a reduction of everything combines all rows.
-/
import MessagePassing.Proofs.Rows
import MessagePassing.Reducer

namespace MessagePassing

open MessagePassing.Count (within limit)

/-! ## What a reducer makes of rows -/

/-- The source rows that reach destination `j`, in increasing order. -/
def contributors (index : Array Nat) (j : Nat) : List Nat :=
  (List.range index.size).filter fun k => index[k]? = some j

theorem mem_contributors {index : Array Nat} {j k : Nat} :
    k ∈ contributors index j ↔ index[k]? = some j := by
  simp only [contributors, List.mem_filter, List.mem_range, decide_eq_true_eq,
    and_iff_right_iff_imp]
  intro h
  exact (Array.getElem?_eq_some_iff.1 h).1

/-- Where everything goes to one destination, every row contributes. -/
theorem contributors_replicate (n : Nat) : contributors (Array.replicate n 0) 0 = List.range n := by
  rw [contributors, Array.size_replicate, List.filter_eq_self]
  intro k hk
  simp [List.mem_range.1 hk]

namespace Reducer

/-- The value of a column: the sum from the first to the last, which the mean divides
    by their number.  Without values it is zero. -/
def ofColumn (r : Reducer) (values : List Scalar) : Scalar :=
  match r with
  | sum => values.foldl (· + ·) 0
  | mean => if values = [] then 0 else values.foldl (· + ·) 0 / Scalar.ofNat values.length

/-- The reduction of a list of rows to one row, column by column. -/
def combine (r : Reducer) (width : Nat) (rows : List (Array Scalar)) : Array Scalar :=
  .ofFn (n := width) fun c => r.ofColumn (rows.map fun row => row.getD c 0)

@[simp]
theorem size_combine (r : Reducer) (width : Nat) (rows : List (Array Scalar)) :
    (r.combine width rows).size = width := by
  simp [combine]

/-- No rows give the zero row, under both reducers. -/
theorem combine_nil (r : Reducer) (width : Nat) :
    r.combine width [] = Array.replicate width 0 := by
  refine Array.ext (by simp) fun c _ _ => ?_
  cases r <;> simp [combine, ofColumn]

end Reducer

/-! ## Tallies -/

namespace Tally

variable {width : Nat}

theorem foldl_add (rows : List (Array Scalar)) (t : Tally width) :
    (rows.foldl add t).count = t.count + rows.length ∧
      ∀ (c : Nat) (hc : c < width), (rows.foldl add t).total[c] =
        (rows.map fun row => row.getD c 0).foldl (· + ·) t.total[c] := by
  induction rows generalizing t with
  | nil => simp
  | cons row rest ih =>
    obtain ⟨count, total⟩ := ih (t.add row)
    refine ⟨?_, fun c hc => ?_⟩
    · rw [List.foldl_cons, count, List.length_cons]
      simp only [add]
      omega
    · rw [List.foldl_cons, total c hc, List.map_cons, List.foldl_cons]
      simp [add]

/-- The tally of rows gives what the reducer makes of them. -/
theorem finish_foldl_add (r : Reducer) (rows : List (Array Scalar)) :
    (r.finish (rows.foldl add (empty : Tally width))).toArray = r.combine width rows := by
  obtain ⟨count, total⟩ := foldl_add rows (empty : Tally width)
  refine Array.ext (by simp) fun c hc _ => ?_
  have hw : c < width := by simpa using hc
  have column := total c hw
  cases r with
  | sum => simpa [Reducer.finish, Reducer.combine, Reducer.ofColumn, empty] using column
  | mean =>
    by_cases none : rows = []
    · subst none
      simp [Reducer.finish, Reducer.combine, Reducer.ofColumn, empty]
    · have rowCount : (rows.foldl add (empty : Tally width)).count = rows.length := by
        rw [count]; simp [empty]
      simp only [Reducer.finish, rowCount]
      simpa [Reducer.combine, Reducer.ofColumn, none, empty] using
        congrArg (· / Scalar.ofNat rows.length) column

end Tally

section
variable {σ : Type} {xs : Array σ} {d : σ} {i j : Nat}

theorem getD_modify {f : σ → σ} (hi : i < xs.size) :
    (xs.modify j f).getD i d = if i = j then f (xs.getD i d) else xs.getD i d := by
  by_cases here : i = j
  · subst here
    simp [Array.getD_eq_getD_getElem?, Array.getElem_modify, hi]
  · simp [Array.getD_eq_getD_getElem?, Array.getElem?_modify, here, Ne.symm here]

/-- The entry of one destination after a run over (destination, row) pairs: only the
    pairs of this destination count. -/
theorem getD_foldl_modify (add : σ → Nat → σ) (d : σ) (pairs : List (Nat × Nat)) (ts : Array σ)
    (hj : j < ts.size) :
    (pairs.foldl (fun ts p => ts.modify p.1 (add · p.2)) ts).getD j d =
      ((pairs.filter fun p => p.1 = j).map (·.2)).foldl add (ts.getD j d) := by
  induction pairs generalizing ts with
  | nil => rfl
  | cons p rest ih =>
    rw [List.foldl_cons, ih _ (by simpa using hj), getD_modify hj]
    by_cases here : j = p.1
    · rw [if_pos here, List.filter_cons_of_pos (by simpa using here.symm)]
      rfl
    · rw [if_neg here, List.filter_cons_of_neg (by simpa using Ne.symm here)]

end

/-- The entries of an array with their positions. -/
theorem toList_zipIdx_eq {α : Type} (xs : Array α) (d : α) :
    xs.toList.zipIdx = (List.range xs.size).map fun k => (xs.getD k d, k) := by
  refine List.ext_getElem (by simp) fun k hk _ => ?_
  have inside : k < xs.size := by simpa using hk
  simp [Array.getD_eq_getD_getElem?, inside]

/-- The rows of one destination in a list of destinations. -/
theorem map_filter_zipIdx (index : Array Nat) (j : Nat) :
    ((index.toList.zipIdx.filter fun p => p.1 = j).map (·.2)) = contributors index j := by
  rw [toList_zipIdx_eq index 0, List.filter_map, List.map_map, contributors]
  have same : (List.range index.size).filter ((fun p : Nat × Nat => decide (p.1 = j)) ∘
      fun k => (index.getD k 0, k)) =
      (List.range index.size).filter fun k => index[k]? = some j := by
    refine List.filter_congr fun k hk => ?_
    have inside : k < index.size := List.mem_range.1 hk
    simp [Array.getD_eq_getD_getElem?, inside]
  rw [same]
  exact List.map_id' _

/-- **Every destination tallies its contributors**, in increasing order. -/
theorem tallies_getD (source : Buffer) (index : Array Nat) {segments j : Nat}
    (hj : j < segments) :
    (tallies source index segments).getD j .empty =
      ((contributors index j).map source.rowAt).foldl Tally.add .empty := by
  have start : (Array.ofFn (n := segments) fun _ => (Tally.empty : Tally source.cols)).getD j
      .empty = .empty := by
    simp [Array.getD_eq_getD_getElem?, hj]
  have run := getD_foldl_modify (fun (t : Tally source.cols) k => t.add (source.rowAt k)) .empty
    index.toList.zipIdx (Array.ofFn (n := segments) fun _ => Tally.empty) (by simpa using hj)
  rw [map_filter_zipIdx, start] at run
  rw [List.foldl_map, ← run, tallies, ← Array.foldl_toList, Array.toList_zipIdx]

/-! ## Reductions -/

namespace Reducer

/-- **Row `j` of a reduction combines the rows that reach `j`.** -/
theorem reduce_eq (r : Reducer) (source : Buffer) (index : Array Nat) (segments : Nat) :
    r.reduce source index segments = within (segments * source.cols < limit)
      (Buffer.tableOf segments source.cols
        (fun j => r.combine source.cols ((contributors index j).map source.rowAt))
        (fun _ _ => size_combine r _ _)) := by
  rw [reduce, Count.check_bind_pure]
  congr 1
  refine Buffer.table_ext rfl fun j hj => ?_
  rw [Buffer.rowAt_tableOf _ hj, Buffer.rowAt_tabulate _ hj, tallies_getD source index hj,
    Tally.finish_foldl_add]

/-- The reduction of everything combines all rows. -/
theorem reduceAll_eq (r : Reducer) (source : Buffer) :
    r.reduceAll source = within (1 * source.cols < limit)
      (Buffer.tableOf 1 source.cols
        (fun _ => r.combine source.cols ((List.range source.rows).map source.rowAt))
        (fun _ _ => size_combine r _ _)) := by
  rw [reduceAll, reduce_eq]
  congr 1
  refine Buffer.table_ext rfl fun j hj => ?_
  obtain rfl : j = 0 := by omega
  rw [Buffer.rowAt_tableOf _ hj, Buffer.rowAt_tableOf _ hj, contributors_replicate]

end Reducer

end MessagePassing
