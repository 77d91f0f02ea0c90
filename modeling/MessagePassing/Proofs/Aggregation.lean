/-
  Message passing — aggregation as a fold over segments.

  For any index, an aggregation refuses an index of another length than the source,
  then the first destination that does not exist, and otherwise gives one row per
  destination: column by column the sum of its contributors, from zero and in
  increasing order, which the mean divides by their number.

  * `contributors_perm`: every source row reaches exactly one destination, once;
  * `Reducer.aggregate_cases`: how an aggregation ends, and with which table;
  * `Reducer.aggregate_segments`: all of this, with the refusals, for every source and index.
-/
import Mathlib.Data.List.Nodup
import MessagePassing.Proofs.Flat

namespace MessagePassing

open MessagePassing.Count (within limit)

/-! ## Which rows reach a destination -/

theorem sorted_contributors (index : Array Nat) (j : Nat) :
    (contributors index j).Pairwise (· < ·) :=
  List.pairwise_lt_range.filter _

/-- **Every source row reaches exactly one destination, once.** -/
theorem contributors_perm {index : Array Nat} {segments : Nat} (h : ∀ j ∈ index, j < segments) :
    ((List.range segments).flatMap (contributors index)).Perm (List.range index.size) := by
  have once : ((List.range segments).flatMap (contributors index)).Nodup := by
    refine List.nodup_flatMap.2 ⟨fun j _ => (sorted_contributors index j).nodup, ?_⟩
    refine List.nodup_range.imp fun {i j} different k hi hj => different ?_
    rw [mem_contributors] at hi hj
    exact Option.some.inj (hi.symm.trans hj)
  refine (List.perm_ext_iff_of_nodup once List.nodup_range).2 fun k => ?_
  simp only [List.mem_flatMap, List.mem_range, mem_contributors]
  constructor
  · rintro ⟨j, -, hk⟩
    exact (Array.getElem?_eq_some_iff.1 hk).1
  · intro hk
    exact ⟨index[k], h _ (Array.getElem_mem hk), Array.getElem?_eq_getElem hk⟩

/-! ## The first destination that does not exist -/

/-- `bad` is the first entry of an index that is no segment. -/
def FirstOutside (index : Array Nat) (segments bad : Nat) : Prop :=
  segments ≤ bad ∧ ∃ before after, index.toList = before ++ bad :: after ∧
    ∀ j ∈ before, j < segments

theorem FirstOutside.mem {index : Array Nat} {segments bad : Nat}
    (h : FirstOutside index segments bad) : bad ∈ index := by
  obtain ⟨-, before, after, split, -⟩ := h
  exact Array.mem_toList_iff.1 (by simp [split])

theorem find?_outside {index : Array Nat} {segments bad : Nat} :
    index.find? (segments ≤ ·) = some bad ↔ FirstOutside index segments bad := by
  rw [← Array.find?_toList, List.find?_eq_some_iff_append]
  simp [FirstOutside]

theorem find?_outside_eq_none {index : Array Nat} {segments : Nat} :
    index.find? (segments ≤ ·) = none ↔ ∀ j ∈ index, j < segments := by
  simp [Array.find?_eq_none]

/-! ## Folds over columns -/

/-- The sum of column `c` over rows of a buffer, from zero and from the first row to
    the last. -/
def columnSum (source : Buffer) (rows : List Nat) (c : Nat) : Scalar :=
  rows.foldl (fun sum k => sum + (source.rowAt k).getD c 0) 0

namespace Reducer

/-- Row `j` of a table combines the contributors of `j`. -/
structure Folds (r : Reducer) (source : Buffer) (index : Array Nat) {segments : Nat}
    (t : Buffer.Table segments) : Prop where
  cols : t.val.cols = source.cols
  sum : r = sum → ∀ j < segments, ∀ c < source.cols,
    (t.val.rowAt j)[c]? = some (columnSum source (contributors index j) c)
  mean : r = mean → ∀ j < segments, ∀ c < source.cols, contributors index j ≠ [] →
    (t.val.rowAt j)[c]? = some (columnSum source (contributors index j) c /
      Scalar.ofNat (contributors index j).length)
  none : ∀ j < segments, contributors index j = [] →
    t.val.rowAt j = Array.replicate source.cols 0
  /-- One flat array of totals, changed row by row in the order of the source, ends
      as the storage of the table. -/
  flat : Flat.segmentReduce? source.data source.cols index segments (Program.isMean r) =
    some t.val.data

theorem ofColumn_eq (r : Reducer) (source : Buffer) (rows : List Nat) (c : Nat) :
    r.ofColumn ((rows.map source.rowAt).map fun row => row.getD c 0) =
      match r with
      | .sum => columnSum source rows c
      | .mean => if rows = [] then 0 else columnSum source rows c / Scalar.ofNat rows.length := by
  cases r <;> simp [ofColumn, columnSum, List.foldl_map]

/-- **What an aggregation gives**, for an index that fits. -/
theorem folds_tableOf (r : Reducer) (source : Buffer) {index : Array Nat} {segments : Nat}
    (size : index.size = source.rows) (inside : ∀ j ∈ index, j < segments) :
    r.Folds source index (Buffer.tableOf segments source.cols
      (fun j => r.combine source.cols ((contributors index j).map source.rowAt))
      (fun _ _ => size_combine r _ _)) := by
  have entry {j c : Nat} (hj : j < segments) (hc : c < source.cols) :
      ((Buffer.tableOf segments source.cols
        (fun j => r.combine source.cols ((contributors index j).map source.rowAt))
        (fun _ _ => size_combine r _ _)).val.rowAt j)[c]? =
        some (r.ofColumn (((contributors index j).map source.rowAt).map fun row =>
          row.getD c 0)) := by
    rw [Buffer.rowAt_tableOf _ hj]
    simp [combine, hc]
  constructor
  case cols => rfl
  case sum =>
    rintro rfl j hj c hc
    rw [entry hj hc, ofColumn_eq]
  case mean =>
    rintro rfl j hj c hc some
    rw [entry hj hc, ofColumn_eq, if_neg some]
  case none =>
    intro j hj none
    rw [Buffer.rowAt_tableOf _ hj, none, List.map_nil, combine_nil]
  case flat =>
    rw [Flat.segmentReduce?_eq r source index size inside, Buffer.data_tableOf]

/-! ## Aggregations -/

section
variable (r : Reducer) (source : Buffer) {index : Array Nat} {segments : Nat}

theorem aggregate_of_size_ne (size : index.size ≠ source.rows) :
    r.aggregate source index segments =
      refuseShape (.destinationCount index.size source.rows) :=
  if_pos size

theorem aggregate_of_outside (size : index.size = source.rows) {bad : Nat}
    (outside : FirstOutside index segments bad) :
    r.aggregate source index segments = refuseAdjacency (.destination bad segments) := by
  rw [aggregate, if_neg (not_not.2 size), find?_outside.2 outside]

theorem aggregate_of_inside (size : index.size = source.rows)
    (inside : ∀ j ∈ index, j < segments) :
    r.aggregate source index segments = r.reduce source index segments := by
  rw [aggregate, if_neg (not_not.2 size), find?_outside_eq_none.2 inside]

/-- How an aggregation ends. -/
theorem aggregate_cases (index : Array Nat) (segments : Nat)
    (fits : segments * source.cols < limit) :
    (index.size ≠ source.rows ∧ r.aggregate source index segments =
        refuseShape (.destinationCount index.size source.rows)) ∨
      (index.size = source.rows ∧ ∃ bad, FirstOutside index segments bad ∧
        r.aggregate source index segments = refuseAdjacency (.destination bad segments)) ∨
      (index.size = source.rows ∧ (∀ j ∈ index, j < segments) ∧
        ∃ t, r.aggregate source index segments = .ok t ∧ r.Folds source index t) := by
  by_cases size : index.size = source.rows
  · refine .inr ?_
    cases found : index.find? (segments ≤ ·) with
    | some bad =>
      have outside := find?_outside.1 found
      exact .inl ⟨size, bad, outside, aggregate_of_outside r source size outside⟩
    | none =>
      have inside := find?_outside_eq_none.1 found
      refine .inr ⟨size, inside, _, ?_, folds_tableOf r source size inside⟩
      rw [aggregate_of_inside r source size inside, reduce_eq, Count.within_of_fits fits]
  · exact .inl ⟨size, aggregate_of_size_ne r source size⟩

/-- The reduction of everything is an aggregation with one destination. -/
theorem reduceAll_eq_aggregate :
    r.reduceAll source = r.aggregate source (Array.replicate source.rows 0) 1 := by
  rw [aggregate_of_inside r source Array.size_replicate (by simp), reduceAll]

/-- No rows reduce to the zero row. -/
theorem reduceAll_nothing (nothing : source.rows = 0) (fits : source.cols < limit) :
    ∃ t, r.reduceAll source = .ok t ∧ t.val.cols = source.cols ∧
      t.val.data = Array.replicate source.cols 0 := by
  refine ⟨_, by rw [reduceAll_eq, Count.within_of_fits (by omega)], rfl, ?_⟩
  rw [Buffer.data_tableOf, nothing]
  simp [Buffer.joinRows, combine_nil]

end

/-- **Aggregation is the fold over segments.**  For every source, index and number of
    segments, as far as the result has a size:

    * an index of another length than the source is refused for its shape, and nothing
      else is;
    * else the first entry that is no segment is refused, if there is one;
    * else there is a result, whose rows combine the contributors of their segments, each
      in increasing order and every source row in exactly one of them;
    * the reduction of everything is the aggregation into one segment, and gives a zero
      row where there are no rows. -/
theorem aggregate_segments (r : Reducer) (source : Buffer) (index : Array Nat)
    (segments : Nat) (fits : segments * source.cols < limit) :
    ((∃ cause, r.aggregate source index segments = refuseShape cause) ↔
        index.size ≠ source.rows) ∧
      ((∃ cause, r.aggregate source index segments = refuseAdjacency cause) ↔
        index.size = source.rows ∧ ∃ j ∈ index, segments ≤ j) ∧
      (∀ cause, r.aggregate source index segments = refuseAdjacency cause →
        ∃ bad, FirstOutside index segments bad ∧ cause = .destination bad segments) ∧
      (index.size = source.rows → (∀ j ∈ index, j < segments) →
        (∃ t, r.aggregate source index segments = .ok t ∧ r.Folds source index t) ∧
        (∀ j k, k ∈ contributors index j ↔ index[k]? = some j) ∧
        (∀ j, (contributors index j).Pairwise (· < ·)) ∧
        ((List.range segments).flatMap (contributors index)).Perm (List.range source.rows)) ∧
      r.reduceAll source = r.aggregate source (Array.replicate source.rows 0) 1 ∧
      (source.rows = 0 → source.cols < limit → ∃ t, r.reduceAll source = .ok t ∧
        t.val.cols = source.cols ∧ t.val.data = Array.replicate source.cols 0) := by
  refine ⟨?shape, ?adjacency, ?first, ?result, reduceAll_eq_aggregate r source,
    reduceAll_nothing r source⟩
  case shape =>
    rcases aggregate_cases r source index segments fits with
      ⟨size, ends⟩ | ⟨size, bad, -, ends⟩ | ⟨size, -, t, ends, -⟩ <;>
      simp [ends, size, refuseShape, refuseAdjacency]
  case adjacency =>
    rcases aggregate_cases r source index segments fits with
      ⟨size, ends⟩ | ⟨size, bad, outside, ends⟩ | ⟨size, inside, t, ends, -⟩
    · simp [ends, size, refuseShape, refuseAdjacency]
    · simp only [ends, size, true_and]
      exact iff_of_true ⟨_, rfl⟩ ⟨bad, outside.mem, outside.1⟩
    · simpa [ends, size, refuseAdjacency] using inside
  case first =>
    intro cause refused
    rcases aggregate_cases r source index segments fits with
      ⟨size, ends⟩ | ⟨size, bad, outside, ends⟩ | ⟨size, inside, t, ends, -⟩
    · simp [ends, refuseShape, refuseAdjacency] at refused
    · rw [ends] at refused
      simp only [refuseAdjacency, Except.error.injEq, Failure.refused.injEq,
        Error.adjacency.injEq] at refused
      exact ⟨bad, outside, refused.symm⟩
    · simp [ends, refuseAdjacency] at refused
  case result =>
    intro size inside
    refine ⟨?_, fun _ _ => mem_contributors, sorted_contributors index, ?_⟩
    · rcases aggregate_cases r source index segments fits with
        ⟨other, -⟩ | ⟨-, bad, outside, -⟩ | ⟨-, -, result⟩
      · exact absurd size other
      · exact absurd (inside bad outside.mem) (Nat.not_lt.2 outside.1)
      · exact result
    · rw [← size]
      exact contributors_perm inside

/-- Three rows of two values. -/
def threeRows : Buffer := ⟨3, 2, #[1, 0, 1, 1, 0, 1], rfl⟩

theorem aggregate_segments_threeRows : 3 * threeRows.cols < limit ∧
    ∃ t, mean.aggregate threeRows #[0, 0, 2] 3 = .ok t ∧
      (t.val.rowAt 0)[1]? = some ⟨0x3F000000⟩ ∧ t.val.rowAt 1 = #[0, 0] := by
  have fits : 3 * threeRows.cols < limit := by decide
  obtain ⟨-, -, -, result, -⟩ := aggregate_segments mean threeRows #[0, 0, 2] 3 fits
  obtain ⟨⟨t, ends, folds⟩, -⟩ := result rfl (by simp)
  refine ⟨fits, t, ends, ?_, folds.none 1 (by decide) rfl⟩
  rw [folds.mean rfl 0 (by decide) 1 (by decide) (by decide)]
  exact congrArg some (by decide +kernel)

end Reducer

end MessagePassing
