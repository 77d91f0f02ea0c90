/-
  Message passing — the helper functions on rows.

  The helper functions of programs read and write flat arrays by position.  On arrays that
  hold rows one after the other (`Buffer.joinRows`) they stay inside of the arrays and do
  to the rows what the library does.

  * `foldlM_related`: a loop whose steps keep a relation to another loop succeeds and ends
    in this relation;
  * `gather?_eq`, `concat?_eq`: rows that an index picks, and rows side by side;
  * `dense?_eq`, `Perceptron.onFlat?_eq`: layers and update functions, row by row;
  * `segmentReduce?_eq`: the loop over segments combines the contributors of each.
-/
import MessagePassing.Program.Run
import MessagePassing.Proofs.Segments

namespace MessagePassing

open Buffer (Table joinRows)

/-! ## Loops that succeed -/

theorem mapM_eq_some {α β : Type} {f : α → Option β} {g : α → β} {l : List α}
    (h : ∀ x ∈ l, f x = some (g x)) : l.mapM f = some (l.map g) := by
  induction l with
  | nil => rfl
  | cons x rest ih =>
    rw [List.mapM_cons, h x List.mem_cons_self, ih fun y hy => h y (List.mem_cons_of_mem _ hy)]
    rfl

/-- A loop whose steps keep a relation to the steps of a total loop. -/
theorem foldlM_related {α β γ : Type} (R : β → γ → Prop) {f : β → α → Option β} {g : γ → α → γ}
    {l : List α} {b : β} {c : γ} (start : R b c)
    (step : ∀ x ∈ l, ∀ b c, R b c → ∃ b', f b x = some b' ∧ R b' (g c x)) :
    ∃ b', l.foldlM f b = some b' ∧ R b' (l.foldl g c) := by
  induction l generalizing b c with
  | nil => exact ⟨b, rfl, start⟩
  | cons x rest ih =>
    obtain ⟨b₁, first, kept⟩ := step x List.mem_cons_self b c start
    obtain ⟨b₂, others, ended⟩ := ih kept fun y hy => step y (List.mem_cons_of_mem _ hy)
    refine ⟨b₂, ?_, ended⟩
    rw [List.foldlM_cons, first]
    exact others

/-- The last pass of a loop over a range. -/
theorem foldlM_range_succ {m : Type → Type} [Monad m] [LawfulMonad m] {β : Type}
    {f : β → Nat → m β} {n : Nat} {b : β} :
    (List.range (n + 1)).foldlM f b = ((List.range n).foldlM f b >>= fun b' => f b' n) := by
  rw [List.range_succ, List.foldlM_append]
  congr 1
  funext b'
  simp

namespace Buffer

/-! ## Rows in one array -/

theorem joinRows_eq_foldl (f : Nat → Array Scalar) (n : Nat) :
    joinRows f n = (List.range n).foldl (fun out i => out ++ f i) #[] := by
  induction n with
  | zero => rfl
  | succ n ih => rw [joinRows_succ, ih, List.range_succ, List.foldl_append]; rfl

/-- A function on positions acts on the rows. -/
theorem mapIdx_joinRows {f : Nat → Array Scalar} {width : Nat} (g : Nat → Scalar → Scalar)
    (n : Nat) (h : ∀ i, i < n → (f i).size = width) :
    (joinRows f n).mapIdx g = joinRows (fun i => (f i).mapIdx fun c => g (i * width + c)) n := by
  induction n with
  | zero => rfl
  | succ n ih =>
    rw [joinRows_succ, joinRows_succ, Array.mapIdx_append,
      size_joinRows n fun i hi => h i (by omega), ih fun i hi => h i (by omega)]
    congr 2
    funext c
    rw [Nat.add_comm]

theorem map_joinRows (f : Nat → Array Scalar) (g : Scalar → Scalar) (n : Nat) :
    (joinRows f n).map g = joinRows (fun i => (f i).map g) n := by
  induction n with
  | zero => simp [joinRows]
  | succ n ih => rw [joinRows_succ, joinRows_succ, Array.map_append, ih]

theorem joinRows_replicate (n width : Nat) :
    joinRows (fun _ => Array.replicate width 0) n = Array.replicate (n * width) 0 := by
  induction n with
  | zero => simp [joinRows]
  | succ n ih => rw [joinRows_succ, ih, Array.replicate_append_replicate, Nat.succ_mul]

end Buffer

namespace Flat

/-! ## Reading and writing -/

theorem row?_joinRows {f : Nat → Array Scalar} {width n : Nat}
    (h : ∀ i, i < n → (f i).size = width) {r : Nat} (hr : r < n) :
    row? (joinRows f n) width r = some (f r) := by
  have size : (joinRows f n).size = n * width := Buffer.size_joinRows n h
  have last : (r + 1) * width ≤ n * width := Nat.mul_le_mul_right _ hr
  have order : r * width ≤ (r + 1) * width := Nat.mul_le_mul_right _ (by omega)
  rw [row?, slice?, if_pos ⟨order, by rw [size]; exact last⟩, Buffer.extract_joinRows n h hr]

theorem row?_data (b : Buffer) {r : Nat} (hr : r < b.rows) :
    row? b.data b.cols r = some (b.rowAt r) := by
  rw [b.data_eq_joinRows]
  exact row?_joinRows (fun i hi => b.size_rowAt hi) hr

theorem modify?_eq {α : Type} {xs : Array α} {i : Nat} (hi : i < xs.size) (f : α → α) :
    modify? xs i f = some (xs.modify i f) := if_pos hi

/-- What joins arrays is what each of them is. -/
theorem joinAll?_eq {α : Type} {f : α → Option (Array Scalar)} {g : α → Array Scalar}
    {l : List α} (h : ∀ x ∈ l, f x = some (g x)) :
    joinAll? f l = some (l.foldl (fun out x => out ++ g x) #[]) := by
  obtain ⟨out, run, rfl⟩ := foldlM_related (f := fun out x => do pure (out ++ (← f x)))
    (g := fun out x => out ++ g x) (fun b c => b = c) (b := #[]) rfl fun x hx b c same =>
      ⟨b ++ g x, by rw [h x hx]; rfl, by rw [same]⟩
  exact run

theorem joinAll?_range {f : Nat → Option (Array Scalar)} {g : Nat → Array Scalar} {n : Nat}
    (h : ∀ i < n, f i = some (g i)) : joinAll? f (List.range n) = some (joinRows g n) := by
  rw [joinAll?_eq fun i hi => h i (List.mem_range.1 hi), Buffer.joinRows_eq_foldl]

/-! ## Rows of arrays -/

/-- The rows that an index picks. -/
theorem gather?_eq (b : Buffer) (index : Array Nat) (h : ∀ i ∈ index, i < b.rows) :
    gather? b.data b.cols index =
      some (joinRows (fun k => b.rowAt (index.getD k 0)) index.size) := by
  have positions : index.toList = (List.range index.size).map fun k => index.getD k 0 := by
    rw [← List.zipIdx_map_fst 0 index.toList, toList_zipIdx_eq index 0, List.map_map]
    rfl
  rw [gather?, joinAll?_eq fun i hi => row?_data b (h i (Array.mem_toList_iff.1 hi)), positions,
    List.foldl_map, Buffer.joinRows_eq_foldl]

/-- Tables side by side. -/
theorem concat?_eq {rows : Nat} (parts : List (Table rows)) :
    concat? (parts.map fun part => (part.val.data, part.val.cols)) rows =
      some (joinRows (Buffer.joinedRow parts) rows) := by
  refine joinAll?_range fun r hr => ?_
  have row : ∀ part ∈ parts, row? part.val.data part.val.cols r = some (part.val.rowAt r) :=
    fun part _ => row?_data _ (by rw [part.property]; exact hr)
  have steps := joinAll?_eq row
  rw [joinAll?] at steps
  rw [concatRow?, joinAll?, List.foldlM_map]
  exact steps

/-! ## Layers -/

/-- One input of a layer. -/
theorem addInput?_eq (d : Dense) {y : Array Scalar} (size : y.size = d.output) (x : Scalar)
    {i : Nat} (hi : i < d.input) :
    (y.zipIdx.mapM fun (yo, o) => do pure (yo + x * (← d.weight[i * d.output + o]?))) =
      some (d.addInput y x i) := by
  have values : ∀ e ∈ y.toList.zipIdx,
      (do pure (e.1 + x * (← d.weight[i * d.output + e.2]?)) : Option Scalar) =
        some (e.1 + x * d.weightAt i e.2) := by
    rintro ⟨yo, o⟩ he
    have ho : o < d.output := by
      have := (List.mem_zipIdx' he).1
      rwa [Array.length_toList, size] at this
    have inside : i * d.output + o < d.weight.size := by
      have row : (i + 1) * d.output ≤ d.input * d.output := Nat.mul_le_mul_right _ hi
      rw [Nat.succ_mul] at row
      rw [d.size_weight]
      omega
    simp [Dense.weightAt, Array.getD_eq_getD_getElem?, inside]
  rw [Array.mapM_eq_mapM_toList, Array.toList_zipIdx, mapM_eq_some values]
  refine congrArg some (Array.ext (by simp [Dense.addInput]) fun o _ _ => ?_)
  simp [Dense.addInput]

/-- A layer on a row. -/
theorem denseRow?_eq (d : Dense) {x : Array Scalar} (size : x.size = d.input) :
    denseRow? d.output d.weight d.bias x = some (d.apply x) := by
  have run := foldlM_related (l := x.toList.zipIdx) (b := d.bias) (c := d.bias)
    (f := fun y (e : Scalar × Nat) => y.zipIdx.mapM fun (yo, o) => do
      pure (yo + e.1 * (← d.weight[e.2 * d.output + o]?)))
    (g := fun y e => d.addInput y e.1 e.2) (fun b c => b = c ∧ b.size = d.output)
    ⟨rfl, d.size_bias⟩ ?_
  · obtain ⟨y, run, rfl, -⟩ := run
    rw [denseRow?, Dense.apply, ← Array.foldlM_toList, ← Array.foldl_toList,
      Array.toList_zipIdx]
    exact run
  · rintro ⟨xi, i⟩ he y _ ⟨rfl, hy⟩
    have hi : i < d.input := by
      have := (List.mem_zipIdx' he).1
      rwa [Array.length_toList, size] at this
    exact ⟨_, addInput?_eq d hy xi hi, rfl, by simp [Dense.addInput, hy]⟩

/-- A layer on every row. -/
theorem dense?_eq (d : Dense) {f : Nat → Array Scalar} {rows : Nat}
    (h : ∀ i, i < rows → (f i).size = d.input) :
    dense? (joinRows f rows) rows d.input d.output d.weight d.bias =
      some (joinRows (fun i => d.apply (f i)) rows) := by
  refine joinAll?_range fun r hr => ?_
  rw [row?_joinRows h hr]
  exact denseRow?_eq d (h r hr)

theorem onFlat_joinRows (a : Activation) (f : Nat → Array Scalar) (n : Nat) :
    a.onFlat (joinRows f n) = joinRows (fun i => a.onRow (f i)) n := by
  cases a with
  | identity => exact Buffer.joinRows_congr n fun i _ => (Array.map_id' (f i)).symm
  | relu => exact Buffer.map_joinRows f _ n
  | sigmoid => exact Buffer.map_joinRows f _ n

end Flat

namespace Perceptron

theorem flatLayer?_eq (P : Perceptron) (d : Dense) (i : Nat) {f : Nat → Array Scalar} {rows : Nat}
    (h : ∀ r, r < rows → (f r).size = d.input) :
    P.flatLayer? rows (joinRows f rows) d i =
      some (joinRows (fun r => P.applyLayer i d (f r)) rows) := by
  rw [flatLayer?, Flat.dense?_eq d h]
  by_cases active : P.activatesAfter i
  · simp [applyLayer, active, Flat.onFlat_joinRows]
  · simp [applyLayer, active]

theorem flatLayers?_eq (P : Perceptron) (ds : List Dense) (chained : Chained ds) (i : Nat)
    {f : Nat → Array Scalar} {rows : Nat}
    (h : ∀ d ∈ ds.head?, ∀ r, r < rows → (f r).size = d.input) :
    (ds.zipIdx i).foldlM (fun x (d, i) => P.flatLayer? rows x d i) (joinRows f rows) =
      some (joinRows (fun r => P.applyLayers i ds (f r)) rows) := by
  induction ds generalizing i f with
  | nil => rfl
  | cons d rest ih =>
    rw [List.zipIdx_cons, List.foldlM_cons]
    show (P.flatLayer? rows (joinRows f rows) d i >>= fun x => (rest.zipIdx (i + 1)).foldlM _ x) = _
    rw [flatLayer?_eq P d i (h d rfl)]
    refine ih ?_ (i + 1) ?_
    · cases rest with
      | nil => trivial
      | cons e rest => exact chained.2
    · cases rest with
      | nil => simp
      | cons e rest =>
        rintro _ ⟨⟩ r -
        rw [size_applyLayer]
        exact chained.1

/-- **An update function on flat rows** is the function on every row. -/
theorem onFlat?_eq (P : Perceptron) {f : Nat → Array Scalar} {rows : Nat}
    (h : ∀ r, r < rows → (f r).size = P.inputWidth) :
    P.onFlat? (joinRows f rows) rows = some (joinRows (fun r => P.forward (f r)) rows) := by
  refine flatLayers?_eq P P.layers P.chained 0 fun d hd r hr => ?_
  rw [h r hr, inputWidth]
  have first : P.layers.head? = some (P.layers.head P.nonempty) :=
    List.head?_eq_some_head P.nonempty
  rw [first] at hd
  cases hd
  rfl

end Perceptron

/-! ## Segments -/

namespace Flat

/-- A loop that changes the values at consecutive positions. -/
theorem foldlM_modify {step : Array Scalar → Nat → Option (Array Scalar)}
    {f : Nat → Scalar → Scalar} {start n : Nat} {xs : Array Scalar} (fits : start + n ≤ xs.size)
    (h : ∀ out c, c < n → step out c = modify? out (start + c) (f c)) :
    (List.range n).foldlM step xs = some (xs.mapIdx fun q x =>
      if start ≤ q ∧ q < start + n then f (q - start) x else x) := by
  induction n with
  | zero =>
    refine congrArg some (Array.ext (by simp) fun q _ _ => ?_)
    rw [Array.getElem_mapIdx, if_neg (by omega)]
  | succ n ih =>
    rw [foldlM_range_succ, ih (by omega) fun out c hc => h out c (by omega)]
    show step _ n = _
    rw [h _ n (by omega), modify?_eq (by rw [Array.size_mapIdx]; omega)]
    refine congrArg some (Array.ext (by simp) fun q _ _ => ?_)
    rw [Array.getElem_modify, Array.getElem_mapIdx, Array.getElem_mapIdx]
    by_cases last : start + n = q
    · rw [if_pos last, if_neg (by omega), if_pos (by omega)]
      congr 1
      omega
    · rw [if_neg last]
      have same : (start ≤ q ∧ q < start + n) ↔ (start ≤ q ∧ q < start + (n + 1)) := by omega
      simp only [same]

/-- A loop that changes the values of one row. -/
theorem foldlM_modifyRow {step : Array Scalar → Nat → Option (Array Scalar)}
    {f : Nat → Scalar → Scalar} {F : Nat → Array Scalar} {width n j : Nat} (hj : j < n)
    (sizes : ∀ i, i < n → (F i).size = width)
    (h : ∀ out c, c < width → step out c = modify? out (j * width + c) (f c)) :
    (List.range width).foldlM step (joinRows F n) =
      some (joinRows (fun i => if i = j then (F i).mapIdx f else F i) n) := by
  have last : (j + 1) * width ≤ n * width := Nat.mul_le_mul_right _ hj
  rw [Nat.succ_mul] at last
  rw [foldlM_modify (by rw [Buffer.size_joinRows n sizes]; exact last) h,
    Buffer.mapIdx_joinRows _ n sizes]
  refine congrArg some (Buffer.joinRows_congr n fun i hi => ?_)
  by_cases here : i = j
  · subst here
    rw [if_pos rfl]
    refine Array.ext (by simp) fun c hc _ => ?_
    have inside : c < width := by rwa [Array.size_mapIdx, sizes i hi] at hc
    rw [Array.getElem_mapIdx, Array.getElem_mapIdx, if_pos (by omega), Nat.add_sub_cancel_left]
  · rw [if_neg here]
    refine Array.ext (by simp) fun c hc _ => ?_
    have inside : c < width := by rwa [Array.size_mapIdx, sizes i hi] at hc
    have apart : ¬ (j * width ≤ i * width + c ∧ i * width + c < j * width + width) := by
      rcases Nat.lt_or_gt_of_ne here with before | after
      · have := Nat.mul_le_mul_right width (Nat.succ_le_of_lt before)
        rw [Nat.succ_mul] at this
        omega
      · have := Nat.mul_le_mul_right width (Nat.succ_le_of_lt after)
        rw [Nat.succ_mul] at this
        omega
    rw [Array.getElem_mapIdx, if_neg apart]

/-- Flat sums and counts that stand for tallies. -/
structure Sums.Hold {width : Nat} (s : Sums) (segments : Nat) (ts : Array (Tally width)) :
    Prop where
  size : ts.size = segments
  counts : s.counts = ts.map (·.count)
  totals : s.totals = joinRows (fun j => (ts.getD j .empty).total.toArray) segments

theorem getElem?_data (b : Buffer) {k c : Nat} (hk : k < b.rows) (hc : c < b.cols) :
    b.data[k * b.cols + c]? = some ((b.rowAt k).getD c 0) := by
  have row : (k + 1) * b.cols ≤ b.rows * b.cols := Nat.mul_le_mul_right _ hk
  rw [Nat.succ_mul] at row
  have inside : k * b.cols + c < b.data.size := by rw [b.size_data]; omega
  have width : c < (b.rowAt k).size := by rwa [b.size_rowAt hk]
  rw [Array.getElem?_eq_getElem inside, Array.getD_eq_getD_getElem?,
    Array.getElem?_eq_getElem width]
  simp [Buffer.rowAt]

/-- One more row keeps the sums at the tallies. -/
theorem Sums.Hold.add {b : Buffer} {s : Sums} {segments : Nat} {ts : Array (Tally b.cols)}
    (h : s.Hold segments ts) {j k : Nat} (hj : j < segments) (hk : k < b.rows) :
    ∃ s', s.add? b.data b.cols j k = some s' ∧
      s'.Hold segments (ts.modify j (·.add (b.rowAt k))) := by
  have counts : modify? s.counts j (· + 1) = some (s.counts.modify j (· + 1)) :=
    modify?_eq (by rw [h.counts, Array.size_map, h.size]; exact hj) _
  have totals : (List.range b.cols).foldlM (fun out c => do
      let v ← b.data[k * b.cols + c]?
      modify? out (j * b.cols + c) (· + v)) s.totals = some (joinRows (fun i =>
        if i = j then (ts.getD i .empty).total.toArray.mapIdx
          fun c x => x + (b.rowAt k).getD c 0
        else (ts.getD i .empty).total.toArray) segments) := by
    rw [h.totals]
    refine foldlM_modifyRow hj (fun _ _ => Vector.size_toArray _) fun out c hc => ?_
    rw [getElem?_data b hk hc]
    rfl
  refine ⟨⟨_, _⟩, by rw [add?, counts, Option.bind_eq_bind, Option.bind_some, totals]; rfl,
    ⟨by rw [Array.size_modify, h.size], ?_, ?_⟩⟩
  · rw [h.counts]
    refine Array.ext (by simp) fun i hi _ => ?_
    rw [Array.getElem_modify, Array.getElem_map, Array.getElem_map, Array.getElem_modify]
    by_cases here : j = i
    · simp [here, Tally.add]
    · simp [here]
  · refine Buffer.joinRows_congr segments fun i hi => ?_
    have inside : i < ts.size := by rw [h.size]; exact hi
    rw [getD_modify inside]
    by_cases here : i = j
    · simp [here, Tally.add]
    · rw [if_neg here, if_neg here]

theorem Sums.hold_start (width segments : Nat) :
    Sums.Hold ⟨Array.replicate (segments * width) 0, Array.replicate segments 0⟩ segments
      (Array.ofFn (n := segments) fun _ => (Tally.empty : Tally width)) := by
  refine ⟨by simp, Array.ext (by simp) fun i _ _ => by simp [Tally.empty], ?_⟩
  rw [← Buffer.joinRows_replicate]
  refine Buffer.joinRows_congr segments fun i hi => ?_
  simp [Array.getD_eq_getD_getElem?, hi, Tally.empty]

/-- Dividing a segment gives its mean. -/
theorem divideSegment?_eq {width segments : Nat} {ts : Array (Tally width)} {F : Nat → Array Scalar}
    {j : Nat} (hj : j < segments) (sizes : ∀ i, i < segments → (F i).size = width)
    (sum : F j = (ts.getD j .empty).total.toArray) :
    divideSegment? width (joinRows F segments) (ts.getD j .empty).count j =
      some (joinRows (fun i => if i = j then (Reducer.mean.finish (ts.getD j .empty)).toArray
        else F i) segments) := by
  by_cases none : (ts.getD j .empty).count = 0
  · rw [divideSegment?, if_neg (by omega)]
    refine congrArg some (Buffer.joinRows_congr segments fun i _ => ?_)
    by_cases here : i = j
    · rw [if_pos here, here, sum, Reducer.finish, if_pos none]
    · rw [if_neg here]
  · rw [divideSegment?, if_pos (by omega),
      foldlM_modifyRow (f := fun _ x => x / Scalar.ofNat (ts.getD j .empty).count) hj sizes
        fun _ _ _ => rfl]
    refine congrArg some (Buffer.joinRows_congr segments fun i _ => ?_)
    by_cases here : i = j
    · rw [if_pos here, if_pos here, here, sum, Reducer.finish, if_neg none]
      exact Array.ext (by simp) fun c _ _ => by simp
    · rw [if_neg here, if_neg here]

/-- Dividing the segments one after the other gives their means. -/
theorem divideSegments?_eq {width segments : Nat} (ts : Array (Tally width)) {n : Nat}
    (hn : n ≤ segments) :
    (List.range n).foldlM (fun totals j => divideSegment? width totals (ts.getD j .empty).count j)
        (joinRows (fun j => (ts.getD j .empty).total.toArray) segments) =
      some (joinRows (fun j => if j < n then (Reducer.mean.finish (ts.getD j .empty)).toArray
        else (ts.getD j .empty).total.toArray) segments) := by
  induction n with
  | zero => rfl
  | succ n ih =>
    rw [foldlM_range_succ, ih (by omega)]
    refine (divideSegment?_eq (by omega) (fun i _ => ?_) (if_neg (by omega))).trans ?_
    · by_cases before : i < n
      · rw [if_pos before, Vector.size_toArray]
      · rw [if_neg before, Vector.size_toArray]
    · refine congrArg some (Buffer.joinRows_congr segments fun i _ => ?_)
      by_cases here : i = n
      · rw [if_pos here, if_pos (by omega), here]
      · have same : i < n ↔ i < n + 1 := by omega
        simp only [if_neg here, same]

/-- **The loop over segments** combines the contributors of each segment. -/
theorem segmentReduce?_eq (r : Reducer) (b : Buffer) (index : Array Nat) {segments : Nat}
    (size : index.size = b.rows) (h : ∀ j ∈ index, j < segments) :
    segmentReduce? b.data b.cols index segments (Program.isMean r) = some (joinRows
      (fun j => r.combine b.cols ((contributors index j).map b.rowAt)) segments) := by
  -- the sums run beside the tallies of the library
  obtain ⟨s, run, hold⟩ := foldlM_related (l := index.toList.zipIdx)
    (f := fun (s : Sums) (e : Nat × Nat) => s.add? b.data b.cols e.1 e.2)
    (g := fun ts e => ts.modify e.1 (·.add (b.rowAt e.2))) (Sums.Hold · segments ·)
    (Sums.hold_start b.cols segments) (by
      rintro ⟨j, k⟩ he s ts hold
      obtain ⟨hk, hj⟩ := List.mem_zipIdx' he
      refine hold.add (h j ?_) ?_
      · rw [hj]
        exact Array.mem_toList_iff.1 (List.getElem_mem _)
      · rwa [Array.length_toList, size] at hk)
  have same : index.toList.zipIdx.foldl (fun ts e => ts.modify e.1 (·.add (b.rowAt e.2)))
      (Array.ofFn (n := segments) fun _ => (Tally.empty : Tally b.cols)) =
        tallies b index segments := by
    rw [tallies, ← Array.foldl_toList, Array.toList_zipIdx]
  rw [same] at hold
  have result (j : Nat) (hj : j < segments) :
      (r.finish ((tallies b index segments).getD j .empty)).toArray =
        r.combine b.cols ((contributors index j).map b.rowAt) := by
    rw [tallies_getD b index hj, Tally.finish_foldl_add]
  rw [segmentReduce?, ← Array.foldlM_toList, Array.toList_zipIdx]
  show (index.toList.zipIdx.foldlM _ _ >>= fun _ => _) = _
  rw [run, ← Buffer.joinRows_congr segments result]
  cases r with
  | sum => exact congrArg some hold.totals
  | mean =>
    have counts : s.counts.toList.zipIdx = (List.range segments).map fun j =>
        (((tallies b index segments).getD j .empty).count, j) := by
      rw [toList_zipIdx_eq s.counts 0, hold.counts, Array.size_map, hold.size]
      refine List.map_congr_left fun j hj => ?_
      have inside : j < (tallies b index segments).size := by
        rw [hold.size]
        exact List.mem_range.1 hj
      simp [Array.getD_eq_getD_getElem?, inside]
    have means := divideSegments?_eq (tallies b index segments) (Nat.le_refl segments)
    show s.counts.zipIdx.foldlM _ s.totals = _
    rw [← Array.foldlM_toList, Array.toList_zipIdx, counts, List.foldlM_map, hold.totals]
    refine means.trans (congrArg some (Buffer.joinRows_congr segments fun j hj => ?_))
    rw [if_pos hj]

end Flat

end MessagePassing
