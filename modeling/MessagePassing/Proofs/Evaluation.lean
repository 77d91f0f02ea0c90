/-
  Message passing — perceptrons as affine formulas.

  Output `o` of a dense layer is its bias, to which the products with the inputs are
  added one by one.  A run along the chunks of the weights computes the same, also for
  layers without inputs or outputs, and meets no fault.

  * `Dense.getElem?_apply`: the formula of a layer;
  * `Dense.applyOnto_eq`, `Perceptron.run_eq`, `Perceptron.runRows_eq`: a run of a layer,
    of a perceptron on a row and on every row of a buffer;
  * `Perceptron.layerwise_affine`: from the data of its layers to its rows.
-/
import MessagePassing.Proofs.Binding
import MessagePassing.Proofs.Flat
import MessagePassing.Update.Evaluation

namespace MessagePassing

open MessagePassing.Count (limit within)

/-! ## Chunks -/

theorem fullChunks_eq {n : Nat} (some : 0 < n) (m : Nat) {values : List Scalar}
    (size : values.length = m * n) :
    fullChunks n values = (List.range m).map fun i => (values.drop (i * n)).take n := by
  induction m generalizing values with
  | zero =>
    rw [Nat.zero_mul, List.length_eq_zero_iff] at size
    rw [fullChunks, if_neg (by simp [size]; omega)]
    rfl
  | succ m ih =>
    rw [Nat.succ_mul] at size
    have rest : (values.drop n).length = m * n := by rw [List.length_drop]; omega
    rw [fullChunks, if_pos ⟨some, by omega⟩, ih rest, List.range_succ_eq_map, List.map_cons,
      List.map_map, Nat.zero_mul, List.drop_zero]
    congr 2
    funext i
    simp [Nat.succ_mul, Nat.add_comm]

/-- Where a row and a chunk have one length, every output gets a product. -/
theorem addProducts_eq_zipWith (x : Scalar) {row chunk : List Scalar}
    (same : row.length = chunk.length) :
    addProducts x row chunk = List.zipWith (fun y w => y + x * w) row chunk := by
  induction row generalizing chunk with
  | nil => rfl
  | cons y row ih =>
    cases chunk with
    | nil => cases same
    | cons w chunk => rw [addProducts, ih (Nat.succ.inj same), List.zipWith_cons_cons]

theorem overwrite_eq {row values : Array Scalar} (same : row.size = values.size) :
    overwrite row values = .ok values := if_pos same

/-! ## Layers -/

namespace Dense

variable (d : Dense)

/-- The weights of input `i`. -/
def chunk (i : Nat) : List Scalar := (d.weight.toList.drop (i * d.output)).take d.output

theorem length_chunk {i : Nat} (hi : i < d.input) : (d.chunk i).length = d.output := by
  have row : (i + 1) * d.output ≤ d.input * d.output := Nat.mul_le_mul_right _ hi
  rw [Nat.succ_mul] at row
  simp only [chunk, List.length_take, List.length_drop, Array.length_toList, d.size_weight]
  omega

theorem getElem_chunk {i o : Nat} (hi : i < d.input) (ho : o < (d.chunk i).length) :
    (d.chunk i)[o] = d.weightAt i o := by
  rw [d.length_chunk hi] at ho
  have row : (i + 1) * d.output ≤ d.input * d.output := Nat.mul_le_mul_right _ hi
  rw [Nat.succ_mul] at row
  have inside : i * d.output + o < d.weight.size := by rw [d.size_weight]; omega
  simp [chunk, weightAt, Array.getD_eq_getD_getElem?, inside]

/-- Without outputs there are no chunks, else there is one per input. -/
theorem chunksExact_weight : chunksExact (max d.output 1) d.weight.toList =
    .ok (if d.output = 0 then [] else (List.range d.input).map d.chunk) := by
  rw [chunksExact, if_neg (by omega)]
  split
  · rename_i none
    have nothing : d.weight.toList.length = 0 := by simp [d.size_weight, none]
    rw [List.length_eq_zero_iff.1 nothing, fullChunks, if_neg (by simp)]
  · rename_i some
    have width : max d.output 1 = d.output := by omega
    rw [width, fullChunks_eq (by omega) d.input (by simp [d.size_weight])]
    rfl

/-- The products of one input. -/
theorem addProducts_chunk {y : Array Scalar} (size : y.size = d.output) (x : Scalar) {i : Nat}
    (hi : i < d.input) : addProducts x y.toList (d.chunk i) = (d.addInput y x i).toList := by
  have same : y.toList.length = (d.chunk i).length := by
    rw [d.length_chunk hi, Array.length_toList, size]
  rw [addProducts_eq_zipWith x same]
  refine List.ext_getElem (by simp [addInput, ← same]) fun o ho _ => ?_
  have inside : o < (d.chunk i).length := by
    simp only [List.length_zipWith] at ho
    omega
  simp [addInput, d.getElem_chunk hi inside]

/-- A walk along the inputs adds the products of each. -/
theorem foldl_chunks (inputs : List (Scalar × Nat)) {y : Array Scalar} (size : y.size = d.output)
    (inside : ∀ e ∈ inputs, e.2 < d.input) :
    (inputs.map fun e => (e.1, d.chunk e.2)).foldl (fun y (x, chunk) => addProducts x y chunk)
        y.toList =
      (inputs.foldl (fun y (x, i) => d.addInput y x i) y).toList := by
  induction inputs generalizing y with
  | nil => rfl
  | cons e rest ih =>
    have here : e.2 < d.input := inside e List.mem_cons_self
    rw [List.map_cons, List.foldl_cons, List.foldl_cons]
    simp only [d.addProducts_chunk size e.1 here]
    exact ih (by simp [addInput, size]) fun e he => inside e (List.mem_cons_of_mem _ he)

/-- **A run of a layer** meets no fault and gives its row. -/
theorem applyOnto_eq {x row : Array Scalar} (size : x.size = d.input)
    (room : row.size = d.output) : d.applyOnto x row = .ok (d.apply x) := by
  rw [applyOnto, if_pos size, overwrite_eq (room.trans d.size_bias.symm), Outcome.ok_bind,
    d.chunksExact_weight, Outcome.ok_bind]
  refine congrArg Except.ok ?_
  split
  · rename_i none
    have nothing : d.apply x = #[] := Array.eq_empty_of_size_eq_zero (by simp [none])
    have start : d.bias = #[] := Array.eq_empty_of_size_eq_zero (by rw [d.size_bias, none])
    simp [nothing, start]
  · have inputs : x.toList.zip ((List.range d.input).map d.chunk) =
        x.toList.zipIdx.map fun e => (e.1, d.chunk e.2) := by
      refine List.ext_getElem (by simp [size]) fun i _ _ => ?_
      simp
    rw [inputs, d.foldl_chunks _ d.size_bias ?_]
    · rw [apply, ← Array.foldl_toList, Array.toList_zipIdx]
    · rintro ⟨xi, i⟩ he
      have := (List.mem_zipIdx' he).1
      rwa [Array.length_toList, size] at this

/-! ## The formula of a layer -/

theorem getElem?_foldl_addInput (f : Nat → Scalar) (inputs : List Nat) (y : Array Scalar)
    (o : Nat) :
    (inputs.foldl (fun y i => d.addInput y (f i) i) y)[o]? =
      y[o]?.map fun b => inputs.foldl (fun sum i => sum + f i * d.weightAt i o) b := by
  induction inputs generalizing y with
  | nil => simp
  | cons i rest ih =>
    rw [List.foldl_cons, ih]
    simp [addInput, Function.comp_def]

/-- **Output `o` of a layer** is its bias and the products with the inputs, added from the
    first to the last. -/
theorem getElem?_apply (x : Array Scalar) {o : Nat} (ho : o < d.output) :
    (d.apply x)[o]? = some ((List.range x.size).foldl
      (fun sum i => sum + x.getD i 0 * d.weightAt i o) (d.bias.getD o 0)) := by
  have inside : o < d.bias.size := by rw [d.size_bias]; exact ho
  rw [apply, ← Array.foldl_toList, Array.toList_zipIdx, toList_zipIdx_eq x 0, List.foldl_map,
    getElem?_foldl_addInput d (fun i => x.getD i 0)]
  simp [Array.getD_eq_getD_getElem?, inside]

end Dense

/-! ## Perceptrons on rows -/

theorem Chained.tail {d : Dense} {ds : List Dense} (h : Chained (d :: ds)) : Chained ds := by
  cases ds with
  | nil => trivial
  | cons e rest => exact h.2

theorem Chained.widths {ds : List Dense} (h : Chained ds) {i : Nat} {a b : Dense}
    (ha : ds[i]? = some a) (hb : ds[i + 1]? = some b) : a.output = b.input := by
  induction ds generalizing i with
  | nil => simp at ha
  | cons d rest ih =>
    cases i with
    | zero =>
      cases rest with
      | nil => simp at hb
      | cons e rest =>
        obtain rfl : d = a := by simpa using ha
        obtain rfl : e = b := by simpa using hb
        exact h.1
    | succ i => exact ih h.tail (by simpa using ha) (by simpa using hb)

namespace Perceptron

variable (p : Perceptron)

theorem inputWidth_eq {d : Dense} (first : p.layers[0]? = some d) : p.inputWidth = d.input := by
  have head : p.layers.head p.nonempty = d := by
    rw [← List.head?_eq_getElem?, List.head?_eq_some_head p.nonempty] at first
    exact Option.some.inj first
  rw [inputWidth, head]

theorem runLayer_eq {x : Array Scalar} {d : Dense} (size : x.size = d.input) (i : Nat) :
    p.runLayer x d i = .ok (p.applyLayer i d x) := by
  rw [runLayer, d.applyOnto_eq size (by simp)]
  rfl

theorem foldlM_runLayer {ds : List Dense} (chained : Chained ds) {x : Array Scalar} (k : Nat)
    (size : ∀ d ∈ ds.head?, x.size = d.input) :
    (ds.zipIdx k).foldlM (fun x (d, i) => p.runLayer x d i) x =
      (.ok (p.applyLayers k ds x) : Outcome (Array Scalar)) := by
  induction ds generalizing k x with
  | nil => rfl
  | cons d rest ih =>
    rw [List.zipIdx_cons, List.foldlM_cons]
    simp only [p.runLayer_eq (size d rfl), Outcome.ok_bind]
    refine ih chained.tail (k + 1) ?_
    cases rest with
    | nil => simp
    | cons e rest =>
      rintro _ ⟨⟩
      rw [size_applyLayer]
      exact chained.1

/-- **A run of a perceptron** meets no fault and gives its row. -/
theorem run_eq {x : Array Scalar} (size : x.size = p.inputWidth) : p.run x = .ok (p.forward x) :=
  p.foldlM_runLayer p.chained 0 fun d hd => by
    rw [size, p.inputWidth_eq (by rwa [← List.head?_eq_getElem?])]

/-! ## The row in front of each layer -/

/-- The row that comes out of the first `i` layers. -/
def rowAfter (x : Array Scalar) (i : Nat) : Array Scalar := p.applyLayers 0 (p.layers.take i) x

theorem applyLayers_append (k : Nat) (ds : List Dense) (d : Dense) (x : Array Scalar) :
    p.applyLayers k (ds ++ [d]) x = p.applyLayer (k + ds.length) d (p.applyLayers k ds x) := by
  induction ds generalizing k x with
  | nil => rfl
  | cons e rest ih =>
    rw [List.cons_append, applyLayers, applyLayers, ih, List.length_cons, Nat.add_assoc k 1,
      Nat.add_comm 1]

@[simp]
theorem rowAfter_zero (x : Array Scalar) : p.rowAfter x 0 = x := by
  rw [rowAfter, List.take_zero, applyLayers]

theorem rowAfter_length (x : Array Scalar) : p.rowAfter x p.layers.length = p.forward x := by
  rw [rowAfter, List.take_length, forward]

theorem rowAfter_succ (x : Array Scalar) {i : Nat} {d : Dense} (h : p.layers[i]? = some d) :
    p.rowAfter x (i + 1) = p.applyLayer i d (p.rowAfter x i) := by
  have inside : i < p.layers.length := (List.getElem?_eq_some_iff.1 h).1
  rw [rowAfter, List.take_add_one, h, Option.toList_some, applyLayers_append, List.length_take,
    Nat.zero_add, Nat.min_eq_left (by omega), rowAfter]

/-- Every layer gets a row of its input width. -/
theorem size_rowAfter {x : Array Scalar} (size : x.size = p.inputWidth) {i : Nat} {d : Dense}
    (h : p.layers[i]? = some d) : (p.rowAfter x i).size = d.input := by
  cases i with
  | zero => rw [rowAfter_zero, size, p.inputWidth_eq h]
  | succ i =>
    have inside : i + 1 < p.layers.length := (List.getElem?_eq_some_iff.1 h).1
    have before : p.layers[i]? = some (p.layers[i]) := List.getElem?_eq_getElem (by omega)
    rw [p.rowAfter_succ x before, size_applyLayer, p.chained.widths before h]

/-! ## Perceptrons on buffers -/

theorem apply_eq_within {rows : Nat} (b : Buffer.Table rows) :
    p.apply b = within (rows * p.outputWidth < limit) (Buffer.tableOf rows p.outputWidth
      (fun r => p.forward (b.val.rowAt r)) (fun _ _ => p.size_forward _)) :=
  Buffer.mapRows_eq b p.outputWidth p.forward p.size_forward

/-- **A run on every row** meets no fault and gives the storage of the result. -/
theorem runRows_eq {b : Buffer} (cols : b.cols = p.inputWidth) :
    p.runRows b = within (b.rows * p.outputWidth < limit)
      (Buffer.joinRows (fun r => p.forward (b.rowAt r)) b.rows) := by
  have start : Buffer.zeros b.rows p.outputWidth =
      within (b.rows * p.outputWidth < limit) (Buffer.blank b.rows p.outputWidth) :=
    Count.check_bind_pure _ _
  rw [runRows, start]
  by_cases fits : b.rows * p.outputWidth < limit
  · rw [Count.within_of_fits fits, Count.within_of_fits fits, Outcome.ok_bind]
    split
    · rename_i none
      have nothing : Buffer.joinRows (fun r => p.forward (b.rowAt r)) b.rows = #[] := by
        have sizes : ∀ r < b.rows, (p.forward (b.rowAt r)).size = 0 := by simp [none]
        refine Array.eq_empty_of_size_eq_zero ?_
        rw [Buffer.size_joinRows _ sizes, Nat.mul_zero]
      simp [nothing, Buffer.blank, none]
      rfl
    · have rows : ∀ r ∈ List.range b.rows,
          (do overwrite ((Buffer.blank b.rows p.outputWidth).rowAt r) (← p.run (b.rowAt r))) =
            .ok (p.forward (b.rowAt r)) := by
        intro r hr
        have inside : r < b.rows := List.mem_range.1 hr
        rw [p.run_eq ((b.size_rowAt inside).trans cols), Outcome.ok_bind, overwrite_eq]
        rw [size_forward]
        exact Buffer.size_rowAt (Buffer.blank b.rows p.outputWidth) inside
      rw [Outcome.mapM_eq_ok rows, Outcome.ok_bind]
      refine congrArg Except.ok ?_
      rw [Buffer.joinRows_eq_foldl, Array.flatten, ← Array.foldl_toList, List.foldl_map]
      rfl
  · rw [Count.within_of_not_fits fits, Count.within_of_not_fits fits, Outcome.error_bind]

end Perceptron

/-! ## From the data of the layers -/

/-- What a dense layer is made from. -/
structure LayerData where
  weight : Array Scalar
  bias : Array Scalar
  input : Nat
  output : Nat

namespace LayerData

/-- The layer, if the data are accepted. -/
def layer (L : LayerData) : Outcome Dense := Dense.ofTensors L.weight L.bias L.input L.output

/-- Output `o` for a row: the bias, to which the product of each input and its weight is
    added, from the first input to the last. -/
def affine (L : LayerData) (x : Array Scalar) (o : Nat) : Scalar :=
  (List.range L.input).foldl
    (fun sum k => sum + x.getD k 0 * L.weight.getD (k * L.output + o) 0) (L.bias.getD o 0)

/-- An accepted layer holds the data. -/
theorem layer_eq_ok {L : LayerData} {d : Dense} (accepted : L.layer = .ok d) :
    d.input = L.input ∧ d.output = L.output ∧ d.weight = L.weight ∧ d.bias = L.bias := by
  rw [layer, Dense.ofTensors, Count.check_bind] at accepted
  split at accepted
  · split at accepted
    · split at accepted
      · cases accepted
        exact ⟨rfl, rfl, rfl, rfl⟩
      · cases accepted
    · cases accepted
  · cases accepted

theorem getElem?_apply {L : LayerData} {d : Dense} (accepted : L.layer = .ok d) {x : Array Scalar}
    (size : x.size = d.input) {o : Nat} (ho : o < d.output) :
    (d.apply x)[o]? = some (L.affine x o) := by
  obtain ⟨input, output, weight, bias⟩ := layer_eq_ok accepted
  rw [d.getElem?_apply x ho, affine, size, input, bias]
  simp only [Dense.weightAt, weight, output]

end LayerData

namespace Perceptron

theorem ofLayers_eq_ok_iff {ds : List Dense} {activation : Activation} {activateFinal : Bool}
    {p : Perceptron} : ofLayers ds activation activateFinal = .ok p ↔
      p.layers = ds ∧ p.activation = activation ∧ p.activateFinal = activateFinal := by
  constructor
  · intro made
    rw [ofLayers] at made
    split at made
    · cases made
    · split at made
      · cases made
      · cases made
        exact ⟨rfl, rfl, rfl⟩
  · rintro ⟨rfl, rfl, rfl⟩
    exact ofLayers_eq_ok p.activation p.activateFinal p.nonempty p.chained

/-- The rows of a perceptron with layers of the given data: each is the affine formula of
    its layer on the row before, under the activation where it is applied. -/
structure Follows (p : Perceptron) (data : List LayerData) (rows : Nat → Array Scalar) : Prop where
  input : ∀ i L, data[i]? = some L → (rows i).size = L.input
  output : ∀ i L, data[i]? = some L → (rows (i + 1)).size = L.output
  value : ∀ i L, data[i]? = some L → ∀ o < L.output, (rows (i + 1))[o]? =
    some (if i + 1 < data.length ∨ p.activateFinal then
      p.activation.onScalar (L.affine (rows i) o) else L.affine (rows i) o)

/-- The rows between the layers are as the formula says. -/
theorem follows_rowAfter {data : List LayerData} {p : Perceptron}
    (accepted : data.mapM LayerData.layer = .ok p.layers) {x : Array Scalar}
    (size : x.size = p.inputWidth) : p.Follows data (p.rowAfter x) := by
  obtain ⟨length, layers⟩ := Outcome.getElem?_of_mapM accepted
  constructor
  case input =>
    intro i L hL
    obtain ⟨d, hd, made⟩ := layers i L hL
    rw [p.size_rowAfter size hd, (LayerData.layer_eq_ok made).1]
  case output =>
    intro i L hL
    obtain ⟨d, hd, made⟩ := layers i L hL
    rw [p.rowAfter_succ x hd, size_applyLayer, (LayerData.layer_eq_ok made).2.1]
  case value =>
    intro i L hL o ho
    obtain ⟨d, hd, made⟩ := layers i L hL
    rw [← (LayerData.layer_eq_ok made).2.1] at ho
    have formula := LayerData.getElem?_apply made (p.size_rowAfter size hd) ho
    have active : p.activatesAfter i = true ↔ i + 1 < data.length ∨ p.activateFinal = true := by
      rw [activatesAfter, length]
      simp
    rw [p.rowAfter_succ x hd, applyLayer]
    by_cases on : p.activatesAfter i = true
    · rw [if_pos on, if_pos (active.1 on), Activation.onRow, Array.getElem?_map, formula]
      rfl
    · rw [if_neg on, if_neg (mt active.2 on), formula]

/-- **A perceptron is the affine formula, layer by layer.**  For every perceptron of
    accepted layers, whatever their widths:

    * on every row of its input width a run meets no fault and gives `forward`, which is
      reached from the row by the formula of each layer, with the activation after every
      layer but the last, and after the last one if the perceptron says so;
    * on every buffer of its input width a run gives the table whose rows are `forward` of
      the rows of the buffer, unless the number of its values leaves the range of counts. -/
theorem layerwise_affine {data : List LayerData} {ds : List Dense} {activation : Activation}
    {activateFinal : Bool} {p : Perceptron} (accepted : data.mapM LayerData.layer = .ok ds)
    (made : ofLayers ds activation activateFinal = .ok p) :
    (p.activation = activation ∧ p.activateFinal = activateFinal ∧
      data.head?.map LayerData.input = some p.inputWidth ∧
      data.getLast?.map LayerData.output = some p.outputWidth) ∧
    (∀ x : Array Scalar, x.size = p.inputWidth →
      p.run x = .ok (p.forward x) ∧ (p.forward x).size = p.outputWidth ∧
      ∃ rows : Nat → Array Scalar, rows 0 = x ∧ rows data.length = p.forward x ∧
        p.Follows data rows) ∧
    ∀ b : Buffer, b.cols = p.inputWidth →
      (b.rows * p.outputWidth < limit → ∃ t, p.apply b.table = .ok t ∧
        p.runRows b = .ok t.val.data ∧ t.val.cols = p.outputWidth ∧
        ∀ r < b.rows, t.val.rowAt r = p.forward (b.rowAt r)) ∧
      (¬ b.rows * p.outputWidth < limit → p.apply b.table = .error (.fault .countOverflow)) := by
  obtain ⟨rfl, rfl, rfl⟩ := ofLayers_eq_ok_iff.1 made
  obtain ⟨length, layers⟩ := Outcome.getElem?_of_mapM accepted
  refine ⟨⟨rfl, rfl, ?first, ?last⟩, fun x size => ⟨p.run_eq size, p.size_forward x, ?rows⟩,
    fun b cols => ⟨fun fits => ?table, fun full => ?overflow⟩⟩
  case first =>
    have some : 0 < data.length := by rw [← length]; exact List.length_pos_iff.2 p.nonempty
    obtain ⟨d, hd, made⟩ := layers 0 data[0] (List.getElem?_eq_getElem some)
    rw [List.head?_eq_getElem?, List.getElem?_eq_getElem some, Option.map_some,
      p.inputWidth_eq hd, (LayerData.layer_eq_ok made).1]
  case last =>
    have some : 0 < data.length := by rw [← length]; exact List.length_pos_iff.2 p.nonempty
    obtain ⟨d, hd, made⟩ := layers (data.length - 1) data[data.length - 1]
      (List.getElem?_eq_getElem (by omega))
    have final : p.layers.getLast p.nonempty = d := by
      rw [← length, ← List.getLast?_eq_getElem?, List.getLast?_eq_some_getLast p.nonempty] at hd
      exact Option.some.inj hd
    rw [List.getLast?_eq_getElem?, List.getElem?_eq_getElem (by omega), Option.map_some,
      outputWidth, final, (LayerData.layer_eq_ok made).2.1]
  case rows =>
    exact ⟨p.rowAfter x, p.rowAfter_zero x, by rw [← length, rowAfter_length],
      follows_rowAfter accepted size⟩
  case table =>
    refine ⟨_, by rw [p.apply_eq_within, Count.within_of_fits fits], ?_, rfl, fun r hr => ?_⟩
    · rw [p.runRows_eq cols, Count.within_of_fits fits, Buffer.data_tableOf]
      rfl
    · rw [Buffer.rowAt_tableOf _ hr]
      rfl
  case overflow =>
    rw [p.apply_eq_within, Count.within_of_not_fits full]

/-- Two outputs, then none, then one again. -/
def narrowed : List LayerData :=
  [⟨#[1, 1], #[0, 1], 1, 2⟩, ⟨#[], #[], 2, 0⟩, ⟨#[], #[1], 0, 1⟩]

theorem layerwise_affine_narrowed : ∃ ds p, narrowed.mapM LayerData.layer = .ok ds ∧
    ofLayers ds .relu false = .ok p ∧ p.run #[1] = .ok (p.forward #[1]) ∧
    (p.forward #[1])[0]? = some 1 := by
  obtain ⟨ds, accepted⟩ : ∃ ds, narrowed.mapM LayerData.layer = .ok ds :=
    Outcome.exists_of_isOk (by decide +kernel)
  have chained : (narrowed.mapM LayerData.layer >>= fun ds => ofLayers ds .relu false).isOk := by
    decide +kernel
  rw [accepted, Outcome.ok_bind] at chained
  obtain ⟨p, made⟩ := Outcome.exists_of_isOk chained
  obtain ⟨⟨-, notFinal, input, -⟩, onRows, -⟩ := layerwise_affine accepted made
  obtain ⟨run, -, rows, -, last, follows⟩ := onRows #[1] (Option.some.inj input)
  refine ⟨ds, p, accepted, made, run, ?_⟩
  have value := follows.value 2 ⟨#[], #[1], 0, 1⟩ rfl 0 (by decide)
  rw [if_neg (by rw [notFinal]; decide)] at value
  rw [← last]
  exact value

end Perceptron

end MessagePassing
