/-
  Message passing — layers in the text of a program.

  Counts and scalars are followed by their type, and so end where its first letter stands; a
  scalar is known from its literal.  The constants of an update function say how many layers
  there are, and what tensors they have; its body says how wide they are, and what follows each.
  An activation that is not applied leaves no trace, and has no effect either.

  * `Reveals.count`, `Reveals.scalar`: numbers;
  * `Perceptron.stages`: the layers, each with what follows it; `Perceptron.apply_eq` says that
    there is nothing more to a perceptron;
  * `Reveals.updates`: the layers of the three update functions.
-/
import MessagePassing.Proofs.Legibility
import MessagePassing.Proofs.Modules
import MessagePassing.Proofs.Numerals
import MessagePassing.Proofs.Texts

namespace MessagePassing

open Code (word words)
open Program (countText scalarText)

/-! ## Numbers -/

theorem toNat_lt_of_isPlain {c : Char} (plain : Identifier.IsPlain c) : c.toNat < 128 := by
  rcases plain with plain | rfl
  · simp only [Char.isAlphanum, Char.isAlpha, Char.isUpper, Char.isLower, Char.isDigit,
      Bool.or_eq_true, Bool.and_eq_true, decide_eq_true_eq] at plain
    rcases plain with (upper | lower) | digit
    · exact (UInt32.le_iff_toNat_le.1 upper.2).trans_lt (by decide)
    · exact (UInt32.le_iff_toNat_le.1 lower.2).trans_lt (by decide)
    · exact (UInt32.le_iff_toNat_le.1 digit.2).trans_lt (by decide)
  · decide

theorem isSpace_of_isPlain {c : Char} (plain : Identifier.IsPlain c) : isSpace c = false := by
  have all : ∀ n : Fin 128, Identifier.IsPlain (Char.ofNat n) →
      isSpace (Char.ofNat n) = false := by
    decide
  have place := all ⟨c.toNat, toNat_lt_of_isPlain plain⟩
  rw [Char.ofNat_toNat] at place
  exact place plain

theorem isSpace_of_isNumeric {c : Char} (numeric : Json.isNumeric c = true) :
    isSpace c = false := by
  simp only [Json.isNumeric, Bool.or_eq_true, decide_eq_true_eq] at numeric
  rcases numeric with ((((digit | rfl) | rfl) | rfl) | rfl) | rfl
  · exact isSpace_of_isPlain (Identifier.isPlain_of_isDigit digit)
  all_goals decide

theorem letters_countText (n : Nat) :
    letters (countText n) = Nat.toDigits 10 n ++ 'u' :: letters "size" := by
  have digits : letters n.repr = Nat.toDigits 10 n := letters_eq Nat.toList_repr
    fun c hc => isSpace_of_isPlain (Identifier.isPlain_of_isDigit (isDigit_of_mem hc))
  have mark : letters "usize" = 'u' :: letters "size" := by decide
  show letters (n.repr ++ "usize") = _
  rw [letters_append, digits, mark]

theorem begins_count (n : Nat) : Begins (· ≠ ']') (letters (countText n)) := by
  rw [letters_countText]
  exact begins_marked (not_mem_digits rfl n) (by decide) _

theorem Reveals.count (m n : Nat) :
    Reveals (letters (countText m)) (letters (countText n)) (m = n) := by
  rw [letters_countText, letters_countText]
  exact (marked (not_mem_digits rfl m) (not_mem_digits rfl n) _).imp digits_inj

theorem letters_scalarText {x : Scalar} (finite : x.isFinite = true) :
    ∃ l, x.literal? Program.scalarLayout = some l ∧ l.Proper ∧
      letters (scalarText x) = l.chars ++ 'f' :: letters "32" := by
  obtain ⟨l, written, proper⟩ := Scalar.proper_literal? Program.scalarLayout finite
  have chars : letters l.text = l.chars := letters_eq String.toList_ofList
    fun c hc => isSpace_of_isNumeric (Json.isNumeric_of_mem_chars hc)
  have mark : letters "f32" = 'f' :: letters "32" := by decide
  refine ⟨l, written, proper, ?_⟩
  rw [scalarText, written]
  show letters (l.text ++ "f32") = _
  rw [letters_append, chars, mark]

theorem not_mem_chars {c : Char} (other : Json.isNumeric c = false) (l : Literal) :
    c ∉ l.chars :=
  fun mem => by simpa [other] using Json.isNumeric_of_mem_chars mem

theorem begins_scalar {x : Scalar} (finite : x.isFinite = true) :
    Begins (· ≠ ']') (letters (scalarText x)) := by
  obtain ⟨l, -, -, form⟩ := letters_scalarText finite
  rw [form]
  exact begins_marked (not_mem_chars rfl l) (by decide) _

/-- **A scalar is known from its text.** -/
theorem Reveals.scalar (x y : Scalar) (hx : x.isFinite = true) (hy : y.isFinite = true) :
    Reveals (letters (scalarText x)) (letters (scalarText y)) (x = y) := by
  obtain ⟨l, writtenX, properX, formX⟩ := letters_scalarText hx
  obtain ⟨k, writtenY, properY, formY⟩ := letters_scalarText hy
  rw [formX, formY]
  refine (marked (not_mem_chars rfl l) (not_mem_chars rfl k) _).imp fun same => ?_
  have literals : some l = some k := by
    rw [← Json.literal?_chars properX, same, Json.literal?_chars properY]
  exact Scalar.literal?_inj hx hy (writtenX.trans (literals.trans writtenY.symm))

theorem letters_listText (items : List String) :
    letters (Program.listText items) = '[' :: listed (items.map letters) := by
  have opening : letters "[" = ['['] := by decide
  have ending : letters "]" = [']'] := by decide
  rw [Program.listText, letters_append, letters_append, opening, ending, List.append_assoc,
    letters_intercalate]
  rfl

/-- A list is known from its text if its items are. -/
theorem Reveals.listText {α : Type} {f : α → String} {K : α → Prop} {xs ys : List α}
    (each : ∀ x y, K x → K y → Reveals (letters (f x)) (letters (f y)) (x = y))
    (begins : ∀ x, K x → Begins (· ≠ ']') (letters (f x))) (hx : ∀ x ∈ xs, K x)
    (hy : ∀ y ∈ ys, K y) :
    Reveals (letters (Program.listText (xs.map f))) (letters (Program.listText (ys.map f)))
      (xs = ys) := by
  rw [letters_listText, letters_listText, List.map_map, List.map_map]
  exact (list each hx hy begins).after ['[']

/-! ## Layers -/

/-- Finite weights and biases. -/
def Dense.Finite (d : Dense) : Prop :=
  (∀ x ∈ d.weight, x.isFinite = true) ∧ ∀ x ∈ d.bias, x.isFinite = true

theorem word_scalarsConstant (name : String) (values : Array Scalar) :
    (Program.scalarsConstant name values).word =
      letters ("const " ++ name ++ ": [f32; ") ++ letters (countText values.size) ++
        letters "] = " ++ letters (Program.listText (values.toList.map scalarText)) ++
        letters ";" := by
  show letters ("const " ++ name ++ ": [f32; " ++ countText values.size ++ "] = " ++
    Program.listText (values.toList.map scalarText) ++ ";") = _
  simp only [letters_append]

theorem Reveals.scalars (name : String) {xs ys : Array Scalar}
    (hx : ∀ x ∈ xs, x.isFinite = true) (hy : ∀ y ∈ ys, y.isFinite = true) :
    Reveals (Program.scalarsConstant name xs).word (Program.scalarsConstant name ys).word
      (xs = ys) := by
  have size := ((count xs.size ys.size).after (letters ("const " ++ name ++ ": [f32; "))).before
    (letters "] = ")
  have values := listText scalar (fun _ finite => begins_scalar finite)
    (fun x mem => hx x (Array.mem_toList_iff.1 mem))
    (fun y mem => hy y (Array.mem_toList_iff.1 mem))
  rw [word_scalarsConstant, word_scalarsConstant]
  exact ((size.append fun _ => values).before _).imp fun h => Array.toList_inj.1 h.2

/-- A layer is made of its widths and its tensors. -/
theorem Dense.eq_of_fields {d e : Dense} (input : d.input = e.input) (output : d.output = e.output)
    (weight : d.weight = e.weight) (bias : d.bias = e.bias) : d = e := by
  cases d
  cases e
  simp_all

instance : DecidableEq Dense := fun d e =>
  decidable_of_iff (d.input = e.input ∧ d.output = e.output ∧ d.weight = e.weight ∧
      d.bias = e.bias)
    ⟨fun h => Dense.eq_of_fields h.1 h.2.1 h.2.2.1 h.2.2.2, fun h => by simp [h]⟩

/-- Equal weights and equal biases. -/
def Dense.SameTensors (d e : Dense) : Prop := d.weight = e.weight ∧ d.bias = e.bias

theorem words_layerConstants (label : String) (i : Nat) (d : Dense) :
    words (Program.layerConstants label i d) =
      (Program.scalarsConstant s!"{label}_W{i}" d.weight).word ++
        (Program.scalarsConstant s!"{label}_B{i}" d.bias).word := by
  rw [Program.layerConstants, Code.words_cons, Code.words_singleton]

theorem layerConstants_eq_cons (label : String) (i : Nat) (d : Dense) :
    ∃ t, words (Program.layerConstants label i d) = 'c' :: t := by
  have mark : letters "const " = 'c' :: letters "onst " := by decide
  rw [words_layerConstants, word_scalarsConstant]
  simp only [letters_append, mark, List.cons_append]
  exact ⟨_, rfl⟩

/-- **Constants tell the tensors of the layers**, and how many there are: what follows them begins
    with another letter. -/
theorem Reveals.constants (label : String) {ds es : List Dense} (hd : ∀ d ∈ ds, d.Finite)
    (he : ∀ e ∈ es, e.Finite) (k : Nat) (t : List Char) :
    Reveals
      (words ((ds.zipIdx k).flatMap fun (d, i) => Program.layerConstants label i d) ++ 'f' :: t)
      (words ((es.zipIdx k).flatMap fun (d, i) => Program.layerConstants label i d) ++ 'f' :: t)
      (List.Forall₂ Dense.SameTensors ds es) := by
  induction ds generalizing es k with
  | nil =>
    cases es with
    | nil => exact (same _).imp fun _ => .nil
    | cons e es =>
      obtain ⟨u, first⟩ := layerConstants_eq_cons label k e
      rw [List.zipIdx_cons, List.flatMap_cons, Code.words_append, first]
      exact clash (by decide)
  | cons d ds ih =>
    cases es with
    | nil =>
      obtain ⟨u, first⟩ := layerConstants_eq_cons label k d
      rw [List.zipIdx_cons, List.flatMap_cons, Code.words_append, first]
      exact clash (by decide)
    | cons e es =>
      obtain ⟨finiteD, hd⟩ := List.forall_mem_cons.1 hd
      obtain ⟨finiteE, he⟩ := List.forall_mem_cons.1 he
      have first := (scalars s!"{label}_W{k}" finiteD.1 finiteE.1).append fun _ =>
        scalars s!"{label}_B{k}" finiteD.2 finiteE.2
      rw [← words_layerConstants, ← words_layerConstants] at first
      simp only [List.zipIdx_cons, List.flatMap_cons, Code.words_append, List.append_assoc]
      exact (first.append fun _ => ih hd he (k + 1)).imp fun h => .cons h.1 h.2

/-! ## Stages -/

namespace Perceptron

variable {p q : Perceptron}

/-- What follows layer `i`; where nothing does, this is the identity. -/
def follower (p : Perceptron) (i : Nat) : Activation :=
  if p.activatesAfter i then p.activation else .identity

/-- The layers, each with what follows it. -/
def stages (p : Perceptron) : List (Dense × Activation) :=
  p.layers.zipIdx.map fun (d, i) => (d, p.follower i)

theorem map_fst_stages (p : Perceptron) : p.stages.map Prod.fst = p.layers := by
  rw [stages, List.map_map]
  exact List.zipIdx_map_fst ..

theorem applyLayer_eq (p : Perceptron) (i : Nat) (d : Dense) (x : Array Scalar) :
    p.applyLayer i d x = (p.follower i).onRow (d.apply x) := by
  rw [applyLayer, follower]
  split
  · rfl
  · exact (Array.map_id' _).symm

theorem applyLayers_eq (p : Perceptron) (ds : List Dense) (k : Nat) (x : Array Scalar) :
    p.applyLayers k ds x = ((ds.zipIdx k).map fun (d, i) => (d, p.follower i)).foldl
      (fun x stage => stage.2.onRow (stage.1.apply x)) x := by
  induction ds generalizing k x with
  | nil => rfl
  | cons d ds ih => rw [applyLayers, ih, applyLayer_eq]; rfl

theorem forward_eq (p : Perceptron) (x : Array Scalar) :
    p.forward x = p.stages.foldl (fun x stage => stage.2.onRow (stage.1.apply x)) x :=
  p.applyLayers_eq p.layers 0 x

/-- **There is nothing more to a perceptron** than its layers and what follows them. -/
theorem apply_eq {rows : Nat} (same : p.stages = q.stages) (b : Buffer.Table rows) :
    p.apply b = q.apply b := by
  have layers : p.layers = q.layers := by rw [← map_fst_stages, same, map_fst_stages]
  have width : p.outputWidth = q.outputWidth := by
    rw [outputWidth, outputWidth, List.getLast_congr p.nonempty q.nonempty layers]
  have forward : p.forward = q.forward := funext fun x => by rw [forward_eq, same, forward_eq]
  have mapRows {m n : Nat} {f g : Array Scalar → Array Scalar} (hf : ∀ x, (f x).size = m)
      (hg : ∀ x, (g x).size = n) (widths : m = n) (functions : f = g) :
      Buffer.mapRows b m f hf = Buffer.mapRows b n g hg := by
    subst widths functions
    rfl
  exact mapRows _ _ width forward

end Perceptron

/-- What the layers from layer `k` on say in the body of their function. -/
def stageWords (label : String) : Nat → List (Dense × Activation) → List Char
  | _, [] => letters "h"
  | k, (d, a) :: rest =>
    letters "let mut h = dense(&h, rows, " ++ letters (countText d.input) ++
      letters ", " ++ letters (countText d.output) ++
      letters s!", &{label}_W{k}, &{label}_B{k});" ++
      (words (Program.activationCode a) ++ stageWords label (k + 1) rest)

theorem words_layerStep (p : Perceptron) (label : String) (k : Nat) (d : Dense) (t : List Char) :
    words (Program.layerStep p label k d) ++ t =
      letters "let mut h = dense(&h, rows, " ++ letters (countText d.input) ++
        letters ", " ++ letters (countText d.output) ++
        letters s!", &{label}_W{k}, &{label}_B{k});" ++
        (words (Program.activationCode (p.follower k)) ++ t) := by
  have follower : (if p.activatesAfter k then Program.activationCode p.activation else []) =
      Program.activationCode (p.follower k) := by
    rw [Perceptron.follower]
    split <;> rfl
  have line : Program.layerStep p label k d = .line ("let mut h = dense(&h, rows, " ++
      countText d.input ++ ", " ++ countText d.output ++ s!", &{label}_W{k}, &{label}_B{k});") ::
      Program.activationCode (p.follower k) := by
    rw [← follower, Program.layerStep]
    simp only [toString, String.append_assoc]
  rw [line, Code.words_cons, word]
  simp only [letters_append, List.append_assoc]

theorem words_layerSteps (p : Perceptron) (label : String) (ds : List Dense) (k : Nat) :
    words (((ds.zipIdx k).flatMap fun (d, i) => Program.layerStep p label i d) ++ [.line "h"]) =
      stageWords label k ((ds.zipIdx k).map fun (d, i) => (d, p.follower i)) := by
  induction ds generalizing k with
  | nil => exact Code.words_singleton _
  | cons d ds ih =>
    rw [List.zipIdx_cons, List.flatMap_cons, List.append_assoc, Code.words_append, ih,
      words_layerStep]
    rfl

/-- A layer and the end of the body begin with other letters than any activation. -/
theorem begins_stageWords (label : String) (k : Nat) (stages : List (Dense × Activation)) :
    Begins (fun c => c ≠ 'r' ∧ c ≠ 's') (stageWords label k stages) := by
  cases stages with
  | nil =>
    have mark : letters "h" = ['h'] := by decide
    exact ⟨'h', [], mark, by decide⟩
  | cons stage rest =>
    have mark : letters "let mut h = dense(&h, rows, " =
        'l' :: letters "et mut h = dense(&h, rows, " := by decide
    rw [stageWords, mark]
    exact ⟨'l', _, rfl, by decide⟩

theorem Reveals.activation (f g : Activation) {a b : List Char} {Q : Prop}
    (beginsA : Begins (fun c => c ≠ 'r' ∧ c ≠ 's') a)
    (beginsB : Begins (fun c => c ≠ 'r' ∧ c ≠ 's') b) (rest : Reveals a b Q) :
    Reveals (words (Program.activationCode f) ++ a) (words (Program.activationCode g) ++ b)
      (f = g ∧ Q) := by
  have identity : words (Program.activationCode .identity) = [] := rfl
  have relu : words (Program.activationCode .relu) = 'r' :: letters "elu(&mut h);" := by decide
  have sigmoid : words (Program.activationCode .sigmoid) = 's' :: letters "igmoid(&mut h);" := by
    decide
  obtain ⟨c, t, rfl, notR, notS⟩ := beginsA
  obtain ⟨d, u, rfl, notR', notS'⟩ := beginsB
  by_cases equal : f = g
  · subst equal
    exact (rest.after _).imp fun h => ⟨rfl, h⟩
  · cases f <;> cases g <;> simp only [identity, relu, sigmoid, List.nil_append, List.cons_append]
    all_goals first
      | exact absurd rfl equal
      | exact clash notR
      | exact clash notS
      | exact clash notR'.symm
      | exact clash notS'.symm
      | exact clash (by decide)

/-- **The body of an update function tells its stages**, if its constants tell the tensors. -/
theorem Reveals.stages (label : String) {xs ys : List (Dense × Activation)}
    (tensors : List.Forall₂ (fun x y => x.1.SameTensors y.1) xs ys) (k : Nat) :
    Reveals (stageWords label k xs) (stageWords label k ys) (xs = ys) := by
  induction tensors generalizing k with
  | nil => exact (same _).imp fun _ => rfl
  | @cons x y xs ys tensors _ ih =>
    obtain ⟨d, f⟩ := x
    obtain ⟨e, g⟩ := y
    have input := (count d.input e.input).after (letters "let mut h = dense(&h, rows, ")
    have widths := (input.before (letters ", ")).append fun _ => count d.output e.output
    have rest := activation f g (begins_stageWords label (k + 1) xs)
      (begins_stageWords label (k + 1) ys) (ih (k + 1))
    refine ((widths.before (letters s!", &{label}_W{k}, &{label}_B{k});")).append fun _ =>
      rest).imp ?_
    rintro ⟨⟨input, output⟩, rfl, rfl⟩
    rw [Dense.eq_of_fields input output tensors.1 tensors.2]

theorem words_updateFunction (name label : String) (p : Perceptron) :
    words (Program.updateFunction name label p) =
      words (p.layers.zipIdx.flatMap fun (d, i) => Program.layerConstants label i d) ++
        'f' :: (letters s!"n {name}(input: &[f32], rows: usize) -> Vec<f32>" ++
          '\x7b' :: letters "let h = input.to_vec();") ++ stageWords label 0 p.stages ++
        ['\x7d'] := by
  have mark : letters (s!"fn {name}(input: &[f32], rows: usize) -> Vec<f32>") =
      'f' :: letters s!"n {name}(input: &[f32], rows: usize) -> Vec<f32>" := by
    have first : letters "fn " = 'f' :: letters "n " := by decide
    simp only [toString, letters_append, first, List.cons_append]
  rw [Program.updateFunction, Code.words_append, Code.words_singleton, word, mark,
    List.cons_append, List.cons_append, Code.words_cons, words_layerSteps, word,
    ← Perceptron.stages]
  simp only [List.append_assoc, List.cons_append]

/-- **An update function tells its stages.** -/
theorem Reveals.updateFunction (name label : String) {p q : Perceptron}
    (hp : ∀ d ∈ p.layers, d.Finite) (hq : ∀ d ∈ q.layers, d.Finite) :
    Reveals (words (Program.updateFunction name label p))
      (words (Program.updateFunction name label q)) (p.stages = q.stages) := by
  rw [words_updateFunction, words_updateFunction]
  refine (((constants label hp hq 0 _).append fun tensors => stages label ?_ 0).before _).imp
    And.right
  rw [← p.map_fst_stages, ← q.map_fst_stages] at tensors
  simpa [List.forall₂_map_left_iff, List.forall₂_map_right_iff] using tensors

/-- The text of the update functions says no more than their stages. -/
theorem words_updateFunctions_eq {us vs : PerUpdate Perceptron}
    (same : us.map Perceptron.stages = vs.map Perceptron.stages) :
    words (Program.updateFunctions us) = words (Program.updateFunctions vs) := by
  obtain ⟨edge, node, global⟩ := PerUpdate.mk.inj same
  simp only [Program.updateFunctions, Code.words_append, words_updateFunction,
    ← Perceptron.map_fst_stages, edge, node, global]

/-- Finite weights and biases in all layers of three update functions. -/
def PerUpdate.Finite (updates : PerUpdate Perceptron) : Prop :=
  ∀ p ∈ updates.toList, ∀ d ∈ p.layers, d.Finite

/-- **The update functions of a program tell their stages.** -/
theorem Reveals.updates {us vs : PerUpdate Perceptron} (hu : us.Finite) (hv : vs.Finite) :
    Reveals (words (Program.updateFunctions us)) (words (Program.updateFunctions vs))
      (us.map Perceptron.stages = vs.map Perceptron.stages) := by
  simp only [PerUpdate.Finite, PerUpdate.toList, List.forall_mem_cons] at hu hv
  have edge := updateFunction "edge_update" "EDGE_UPDATE" hu.1 hv.1
  have node := updateFunction "node_update" "NODE_UPDATE" hu.2.1 hv.2.1
  have global := updateFunction "global_update" "GLOBAL_UPDATE" hu.2.2.1 hv.2.2.1
  rw [Program.updateFunctions, Program.updateFunctions]
  simp only [Code.words_append]
  refine ((edge.append fun _ => node).append fun _ => global).imp ?_
  rintro ⟨⟨edges, nodes⟩, globals⟩
  rw [PerUpdate.map, PerUpdate.map, edges, nodes, globals]

end MessagePassing
