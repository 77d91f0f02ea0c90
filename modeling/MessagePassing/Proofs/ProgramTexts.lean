/-
  Message passing — what the text of a program says.

  Every part of a program can be read off its text, white space or not: the constants of the graph,
  the inputs of the updates and their order, the reducers, and the layers.  So models whose
  programs have the same text compute the same.  They need not be equal: an activation that is not
  applied is not written, either.

  * `Reveals.operand`, `Reveals.networkSteps`, `Reveals.topology`: the parts of a program;
  * `Reveals.code`, `Program.letters_text_eq`: which programs have the same text;
  * `Block.Alike`: blocks that are made of the same parts;
  * `Description.alike_of_letters`: models whose programs have the same text.
-/
import MessagePassing.Proofs.Layouts
import MessagePassing.Proofs.LayerTexts

namespace MessagePassing

open Code (word words)
open Program (countText)

/-! ## Operands -/

/-- The arrays that a program reads. -/
def DataName.all : List DataName :=
  [.own .nodes, .own .edges, .own .globals, .received, .nodeSummary, .edgeSummary]

theorem DataName.mem_all (data : DataName) : data ∈ all := by
  cases data with
  | own entity => cases entity <;> decide
  | _ => decide

/-- The beginning of an operand, which tells its array and whether rows are picked from it. -/
def operandHead (head : DataName × Bool) : List Char :=
  letters ((if head.2 then "(&gather(&" else "(&") ++ Program.dataText head.1 ++ "[..], ")

theorem operandHead_code (i j : DataName × Bool) (first : operandHead i <+: operandHead j) :
    i = j := by
  have all : ∀ a ∈ DataName.all, ∀ b ∈ DataName.all, ∀ picked picked' : Bool,
      operandHead (a, picked) <+: operandHead (b, picked') → (a, picked) = (b, picked') := by
    decide
  exact all i.1 i.1.mem_all j.1 j.1.mem_all i.2 j.2 first

/-- The lists of row indices in a program. -/
def IndexName.all : List IndexName :=
  [.senders, .receivers, .first .nodes, .first .edges, .first .single]

theorem IndexName.mem_all (index : IndexName) : index ∈ all := by
  cases index with
  | first count => cases count <;> decide
  | _ => decide

theorem indexText_code (i j : IndexName)
    (first : letters (Program.indexText i) <+: letters (Program.indexText j)) : i = j := by
  have all : ∀ a ∈ IndexName.all, ∀ b ∈ IndexName.all,
      letters (Program.indexText a) <+: letters (Program.indexText b) → a = b := by
    decide
  exact all i i.mem_all j j.mem_all first

theorem letters_operandText (o : Operand) : letters (Program.operandText o) =
    operandHead (o.data, o.index.isSome) ++ letters (countText o.width) ++
      o.index.elim (letters ")") fun index =>
        letters ", " ++ letters (Program.indexText index) ++
          letters (")[..], " ++ countText o.width ++ ")") := by
  obtain ⟨data, width, index⟩ := o
  cases index with
  | none =>
    show letters ("(" ++ ("&" ++ Program.dataText data ++ "[..]") ++ ", " ++ countText width ++
      ")") = _
    have opening : letters "(" ++ letters "&" = letters "(&" := by decide
    have comma : letters "[..]" ++ letters ", " = letters "[..], " := by decide
    simp [operandHead, ← opening, ← comma]
  | some index =>
    show letters ("(&gather(" ++ ("&" ++ Program.dataText data ++ "[..]") ++ ", " ++
      countText width ++ ", " ++ Program.indexText index ++ ")[..], " ++ countText width ++
      ")") = _
    have opening : letters "(&gather(" ++ letters "&" = letters "(&gather(&" := by decide
    have comma : letters "[..]" ++ letters ", " = letters "[..], " := by decide
    simp [operandHead, ← opening, ← comma]

theorem begins_operand (o : Operand) : Begins (· ≠ ']') (letters (Program.operandText o)) := by
  have plain : letters "(&" = '(' :: ['&'] := by decide
  have picked : letters "(&gather(&" = '(' :: letters "&gather(&" := by decide
  rw [letters_operandText, operandHead]
  split <;> simp [Begins, plain, picked]

/-- **An operand is known from its text.** -/
theorem Reveals.operand (o o' : Operand) : Reveals (letters (Program.operandText o))
    (letters (Program.operandText o')) (o = o') := by
  obtain ⟨data, width, index⟩ := o
  obtain ⟨data', width', index'⟩ := o'
  have head := (of_code operandHead_code (data, index.isSome) (data', index'.isSome)).append
    fun _ => count width width'
  rw [letters_operandText, letters_operandText]
  refine (head.append (Q := index = index') ?_).imp ?_
  · rintro ⟨same, rfl⟩
    cases index with
    | none =>
      cases index' with
      | none => exact (Reveals.same _).imp fun _ => rfl
      | some index' => simp at same
    | some index =>
      cases index' with
      | none => simp at same
      | some index' =>
        exact (((of_code indexText_code index index').after _).before _).imp fun h => by rw [h]
  · rintro ⟨⟨same, rfl⟩, rfl⟩
    rw [(Prod.mk.inj same).1]

/-! ## Steps -/

theorem Reveals.join (entity : Entity) (parts parts' : List Operand) (rows : RowCount) :
    Reveals (words (Program.stepCode (.join entity parts rows)))
      (words (Program.stepCode (.join entity parts' rows))) (parts = parts') := by
  have form (parts : List Operand) : words (Program.stepCode (.join entity parts rows)) =
      letters ("let " ++ Program.entityText entity ++ "_input = concat(&") ++
        letters (Program.listText (parts.map Program.operandText)) ++
        letters (", " ++ Program.rowCountText rows ++ ");") := by
    show words [.line ("let " ++ Program.entityText entity ++ "_input = concat(&" ++
      Program.listText (parts.map Program.operandText) ++ ", " ++ Program.rowCountText rows ++
      ");")] = _
    rw [Code.words_singleton, word]
    simp only [letters_append, List.append_assoc]
  have parts := listText (K := fun _ => True) (fun o o' _ _ => operand o o')
    (fun o _ => begins_operand o) (fun o (_ : o ∈ parts) => trivial)
    (fun o (_ : o ∈ parts') => trivial)
  rw [form, form]
  exact (parts.after _).before _

theorem Reveals.mean (mean mean' : Bool) :
    Reveals (letters (toString mean)) (letters (toString mean')) (mean = mean') :=
  of_code (w := fun mean : Bool => letters (toString mean)) (by decide) mean mean'

theorem Reveals.reduce (result source : DataName) (width width' : Nat) (index : IndexName)
    (segments : RowCount) (mean mean' : Bool) :
    Reveals (words (Program.stepCode (.reduce result source width index segments mean)))
      (words (Program.stepCode (.reduce result source width' index segments mean')))
      (mean = mean') := by
  have form (width : Nat) (mean : Bool) :
      words (Program.stepCode (.reduce result source width index segments mean)) =
        letters ("let " ++ Program.dataText result ++ " = segment_reduce(&" ++
          Program.dataText source ++ "[..], ") ++ letters (countText width) ++
        letters (", " ++ Program.indexText index ++ ", " ++ Program.rowCountText segments ++
          ", ") ++ letters (toString mean) ++ letters ");" := by
    show words [.line ("let " ++ Program.dataText result ++ " = segment_reduce(&" ++
      Program.dataText source ++ "[..], " ++ (countText width ++ ", " ++
      Program.indexText index ++ ", " ++ Program.rowCountText segments ++ ", " ++
      toString mean ++ ");"))] = _
    rw [Code.words_singleton, word]
    simp only [letters_append, List.append_assoc]
  rw [form, form]
  exact ((((count width width').after _).before _).append fun _ =>
    Reveals.mean mean mean').before _ |>.imp And.right

theorem Reveals.updateOwn (entity : Entity) (width width' : Nat) :
    Reveals (words (Program.stepCode (.updateOwn entity width)))
      (words (Program.stepCode (.updateOwn entity width'))) (width = width') := by
  have form (width : Nat) : words (Program.stepCode (.updateOwn entity width)) =
      letters ("let " ++ Program.entityText entity ++ "s = " ++ Program.entityText entity ++
        "_data.len() / ") ++ letters (countText width) ++ (letters ";" ++
        words ((Program.stepCode (.updateOwn entity width)).tail)) := by
    show words (.line ("let " ++ Program.entityText entity ++ "s = " ++
      Program.entityText entity ++ "_data.len() / " ++ countText width ++ ";") ::
      (Program.stepCode (.updateOwn entity width)).tail) = _
    rw [Code.words_cons, word]
    simp only [letters_append, List.append_assoc]
  rw [form, form]
  exact ((count width width').after _).before _

/-! ## Rounds -/

/-- Parts that tell what they come from are known, whatever their widths are. -/
theorem Reveals.inputs {ι : Type} (entity : Entity) (rows : RowCount) {f g : ι → Operand}
    (apart : ∀ i j, f i = g j → i = j) (xs ys : List ι) :
    Reveals (words (Program.stepCode (.join entity (xs.map f) rows)))
      (words (Program.stepCode (.join entity (ys.map g) rows))) (xs = ys) := by
  refine (join entity (xs.map f) (ys.map g) rows).imp fun same => ?_
  induction xs generalizing ys with
  | nil => simpa [eq_comm] using same
  | cons x xs ih =>
    cases ys with
    | nil => cases same
    | cons y ys =>
      obtain ⟨first, rest⟩ := List.cons.inj same
      rw [apart x y first, ih ys rest]

theorem isMean_inj {r r' : Reducer} (same : Program.isMean r = Program.isMean r') : r = r' := by
  revert same
  cases r <;> cases r' <;> decide

theorem Reveals.steps {x y : Step} {xs ys : List Step} {P Q : Prop}
    (first : Reveals (words (Program.stepCode x)) (words (Program.stepCode y)) P)
    (rest : Reveals (words (xs.flatMap Program.stepCode)) (words (ys.flatMap Program.stepCode))
      Q) :
    Reveals (words ((x :: xs).flatMap Program.stepCode))
      (words ((y :: ys).flatMap Program.stepCode)) (P ∧ Q) := by
  rw [List.flatMap_cons, List.flatMap_cons, Code.words_append, Code.words_append]
  exact first.append fun _ => rest

/-- **The steps of a network tell what is put together, and how it is reduced.** -/
theorem Reveals.networkSteps (n k : Network) :
    Reveals (words ((Program.networkSteps n).flatMap Program.stepCode))
      (words ((Program.networkSteps k).flatMap Program.stepCode))
      (n.wiring = k.wiring ∧ n.reducers = k.reducers) := by
  have edgeApart (v w : Widths) (i j : EdgeInput)
      (h : Program.edgeOperand v i = Program.edgeOperand w j) : i = j := by
    cases i <;> cases j <;> simp [Program.edgeOperand] at h ⊢
  have nodeApart (v w : Widths) (a b : Nat) (i j : NodeInput)
      (h : Program.nodeOperand v a i = Program.nodeOperand w b j) : i = j := by
    cases i <;> cases j <;> simp [Program.nodeOperand] at h ⊢
  have globalApart (v w : Widths) (a b c d : Nat) (i j : GlobalInput)
      (h : Program.globalOperand v a b i = Program.globalOperand w c d j) : i = j := by
    cases i <;> cases j <;> simp [Program.globalOperand] at h ⊢
  refine imp (steps (inputs .edges .edges (edgeApart _ _) n.wiring.edge k.wiring.edge)
    (steps (same _)
    (steps (reduce .received (.own .edges) _ _ .receivers .nodes _ _)
    (steps (inputs .nodes .nodes (nodeApart _ _ _ _) n.wiring.node k.wiring.node)
    (steps (same _)
    (steps (reduce .nodeSummary (.own .nodes) _ _ (.first .nodes) .single _ _)
    (steps (reduce .edgeSummary (.own .edges) _ _ (.first .edges) .single _ _)
    (steps (inputs .globals .single (globalApart _ _ _ _ _ _) n.wiring.global k.wiring.global)
    (same _))))))))) ?_
  rintro ⟨edge, -, received, node, -, nodes, edges, global, -⟩
  constructor
  · show Wiring.mk n.wiring.edge n.wiring.node n.wiring.global = k.wiring
    rw [edge, node, global]
  · show PerRelation.mk n.reducers.edgeNode n.reducers.nodeGlobal n.reducers.edgeGlobal =
      k.reducers
    rw [isMean_inj received, isMean_inj nodes, isMean_inj edges]

/-- The steps of an independent block tell the widths of its rows. -/
theorem Reveals.independentSteps (b c : Independent) :
    Reveals (words ((Program.independentSteps b).flatMap Program.stepCode))
      (words ((Program.independentSteps c).flatMap Program.stepCode))
      (b.inputWidths = c.inputWidths) := by
  refine imp (steps (updateOwn .edges _ _) (steps (updateOwn .nodes _ _)
    (steps (updateOwn .globals _ _) (same _)))) ?_
  rintro ⟨edges, nodes, globals, -⟩
  show Widths.mk b.inputWidths.nodes b.inputWidths.edges b.inputWidths.globals = c.inputWidths
  rw [edges, nodes, globals]

/-! ## Programs -/

theorem Reveals.endpoints (name : String) (is js : Array Nat) :
    Reveals (Program.endpointsConstant name is).word (Program.endpointsConstant name js).word
      (is = js) := by
  have form (is : Array Nat) : (Program.endpointsConstant name is).word =
      letters ("pub const " ++ name ++ ": [usize; NUM_EDGES] = ") ++
        letters (Program.listText (is.toList.map countText)) ++ letters ";" := by
    show letters ("pub const " ++ name ++ ": [usize; NUM_EDGES] = " ++
      Program.listText (is.toList.map countText) ++ ";") = _
    simp only [letters_append]
  have indices := listText (K := fun _ => True) (fun m n _ _ => count m n)
    (fun n _ => begins_count n) (fun n (_ : n ∈ is.toList) => trivial)
    (fun n (_ : n ∈ js.toList) => trivial)
  rw [form, form]
  exact ((indices.after _).before _).imp Array.toList_inj.1

/-- **A topology is known from its constants.** -/
theorem Reveals.topology (t u : Topology) :
    Reveals (words (Program.topologyCode t)) (words (Program.topologyCode u)) (t = u) := by
  have constant (name : String) (m n : Nat) :
      Reveals (letters ("pub const " ++ name ++ ": usize = " ++ countText m ++ ";"))
        (letters ("pub const " ++ name ++ ": usize = " ++ countText n ++ ";")) (m = n) := by
    simp only [letters_append]
    exact ((count m n).after _).before _
  have nodes := constant "NUM_NODES" t.nodeCount u.nodeCount
  have edges := constant "NUM_EDGES" t.senders.size u.senders.size
  refine (nodes.append fun _ => edges.append fun _ => (endpoints "SENDERS" _ _).append fun _ =>
    (endpoints "RECEIVERS" _ _).before []).imp ?_
  rintro ⟨nodes, -, senders, receivers⟩
  cases t
  cases u
  simp_all

/-- What a program for a graph, and one for any graph, says that it comes from. -/
def summaryText (network : Bool) : String :=
  if network then "graph network" else "graph independent"

theorem Reveals.header {name name' : String} (h : Identifier.Valid name)
    (h' : Identifier.Valid name') (network network' : Bool) :
    Reveals (words (Program.header name (summaryText network)))
      (words (Program.header name' (summaryText network')))
      (name = name' ∧ network = network') := by
  have plain {name : String} (h : Identifier.Valid name) : letters name = name.toList :=
    letters_eq rfl fun c hc => isSpace_of_isPlain (h.word.plain c hc)
  have unquoted {name : String} (h : Identifier.Valid name) : '\x60' ∉ letters name := by
    rw [plain h]
    intro mem
    have := h.word.plain _ mem
    revert this
    decide
  have quote : letters "` (" = ['\x60', '('] := by decide
  have form (name : String) (network : Bool) : words (Program.header name (summaryText network)) =
      letters "#![doc = \" Inference code for `" ++ (letters name ++ ['\x60', '(']) ++
        letters (summaryText network) ++ (letters "), generated by graphnet " ++
          (letters (Program.version ++ ". Do not edit.\"]") ++
            letters "#![allow(dead_code, unused_mut, unused_variables, clippy::all)]")) := by
    show words [.line ("#![doc = \" Inference code for `" ++ name ++ "` (" ++
      summaryText network ++ "), generated by graphnet " ++
      (Program.version ++ ". Do not edit.\"]")), _] = _
    rw [Code.words_cons, Code.words_singleton, word, word, ← quote]
    simp only [letters_append, List.append_assoc]
  have names := (marked (unquoted h) (unquoted h') ['(']).after
    (letters "#![doc = \" Inference code for `")
  have summary := of_code (w := fun network => letters (summaryText network)) (by decide) network
    network'
  rw [form, form]
  refine ((names.append fun _ => summary).before _).imp ?_
  rintro ⟨same, kind⟩
  rw [plain h, plain h'] at same
  exact ⟨String.toList_inj.1 same, kind⟩

theorem Reveals.entryPoint (comment : String) {body body' : List Code} {Q : Prop}
    (h : Reveals (words body) (words body') Q) :
    Reveals (words (Program.entryPoint comment body)) (words (Program.entryPoint comment body'))
      Q := by
  have form (body : List Code) : words (Program.entryPoint comment body) =
      letters s!"#[doc = r\" {comment}\"]" ++ (letters
        ("pub fn infer(node_data: &mut Vec<f32>, edge_data: &mut Vec<f32>, " ++
          "global_data: &mut Vec<f32>)") ++ '\x7b' :: (words body ++ ['\x7d'])) := by
    rw [Program.entryPoint, Code.words_cons, Code.words_singleton, word, word]
  rw [form, form]
  exact (((h.before _).after ['\x7b']).after _).after _

theorem Reveals.topologies {t u : Option Topology} (kind : t.isSome = u.isSome) :
    Reveals (words (t.toList.flatMap Program.topologyCode))
      (words (u.toList.flatMap Program.topologyCode)) (t = u) := by
  cases t with
  | none =>
    cases u with
    | none => exact (same _).imp fun _ => rfl
    | some u => cases kind
  | some t =>
    cases u with
    | none => cases kind
    | some u =>
      rw [Option.toList_some, Option.toList_some, List.flatMap_singleton, List.flatMap_singleton]
      exact (topology t u).imp fun same => by rw [same]

theorem words_code (p : Program) : words p.code =
    words (Program.header p.name (summaryText p.topology.isSome)) ++
      (words (p.topology.toList.flatMap Program.topologyCode) ++
        (words (Program.entryPoint p.captions.2 (p.steps.flatMap Program.stepCode)) ++
          (words (Program.updateFunctions p.updates) ++ words Program.helpers))) := by
  have summary : p.captions.1 = summaryText p.topology.isSome := by
    rw [Program.captions]
    cases p.topology <;> rfl
  rw [← summary, Program.code]
  simp only [Code.words_append, List.append_assoc]

/-- **A program is known from its text**, as far as its steps are known from theirs. -/
theorem Reveals.code {p q : Program} {Q : Prop} (hp : Identifier.Valid p.name)
    (hq : Identifier.Valid q.name) (finiteP : p.updates.Finite) (finiteQ : q.updates.Finite)
    (steps : p.topology.isSome = q.topology.isSome →
      Reveals (words (p.steps.flatMap Program.stepCode)) (words (q.steps.flatMap Program.stepCode))
        Q) :
    Reveals (words p.code) (words q.code) (p.name = q.name ∧ p.topology = q.topology ∧ Q ∧
      p.updates.map Perceptron.stages = q.updates.map Perceptron.stages) := by
  have comment : p.topology.isSome = q.topology.isSome → p.captions.2 = q.captions.2 := by
    rw [Program.captions, Program.captions]
    cases p.topology <;> cases q.topology <;> first | exact fun _ => rfl | exact nofun
  rw [words_code, words_code]
  refine ((header hp hq p.topology.isSome q.topology.isSome).append fun known =>
    (topologies known.2).append fun _ => ?_).imp fun h => ⟨h.1.1, h.2.1, h.2.2⟩
  rw [comment known.2]
  exact (entryPoint _ (steps known.2)).append fun _ => (updates finiteP finiteQ).before _

/-- The text of a program says no more than these four. -/
theorem Program.letters_text_eq {p q : Program} (name : p.name = q.name)
    (topology : p.topology = q.topology) (steps : p.steps = q.steps)
    (stages : p.updates.map Perceptron.stages = q.updates.map Perceptron.stages) :
    letters p.text = letters q.text := by
  rw [text, text, Code.letters_text, Code.letters_text, words_code, words_code, captions, captions,
    name, topology, steps, words_updateFunctions_eq stages]

/-- Blocks that are made of the same parts. -/
inductive Block.Alike : Block → Block → Prop
  | network {n k : Network} (wiring : n.wiring = k.wiring) (reducers : n.reducers = k.reducers)
      (stages : n.updates.map Perceptron.stages = k.updates.map Perceptron.stages) :
      Alike (.network n) (.network k)
  | independent {b c : Independent}
      (stages : b.updates.map Perceptron.stages = c.updates.map Perceptron.stages) :
      Alike (.independent b) (.independent c)

theorem Reveals.program {d e : Description} {name name' : String} {b c : Block}
    (h : Identifier.Valid name) (h' : Identifier.Valid name') (hb : b.updates.Finite)
    (hc : c.updates.Finite) :
    Reveals (words (d.program name b).code) (words (e.program name' c).code)
      (name = name' ∧ (d.program name b).topology = (e.program name' c).topology ∧
        b.Alike c) := by
  cases b with
  | network n =>
    cases c with
    | network k =>
      refine (code (p := d.program name (.network n)) (q := e.program name' (.network k)) h h' hb hc
        fun _ => networkSteps n k).imp ?_
      rintro ⟨names, topologies, ⟨wiring, reducers⟩, stages⟩
      exact ⟨names, topologies, .network wiring reducers stages⟩
    | independent c =>
      refine (code (p := d.program name (.network n)) (q := e.program name' (.independent c)) h h'
        hb hc (Q := False) fun kind => ?_).imp fun known => known.2.2.1.elim
      cases kind
  | independent b =>
    cases c with
    | network k =>
      refine (code (p := d.program name (.independent b)) (q := e.program name' (.network k)) h h'
        hb hc (Q := False) fun kind => ?_).imp fun known => known.2.2.1.elim
      cases kind
    | independent c =>
      refine (code (p := d.program name (.independent b)) (q := e.program name' (.independent c)) h
        h' hb hc fun _ => independentSteps b c).imp ?_
      rintro ⟨names, topologies, -, stages⟩
      exact ⟨names, topologies, .independent stages⟩

/-! ## Compiled models -/

/-- Blocks of the same parts compute the same. -/
theorem Block.Alike.infer_eq {b c : Block} (alike : b.Alike c) (s : State) :
    b.infer s = c.infer s := by
  cases alike with
  | @network n k wiring reducers stages =>
    obtain ⟨edge, node, global⟩ := PerUpdate.mk.inj stages
    have edges (s : State) : n.updateEdges s = k.updateEdges s := by
      simp only [Network.updateEdges, wiring, Perceptron.apply_eq edge]
    have nodes (s : State) : n.updateNodes s = k.updateNodes s := by
      simp only [Network.updateNodes, wiring, reducers, Perceptron.apply_eq node]
    have globals (s : State) : n.updateGlobals s = k.updateGlobals s := by
      simp only [Network.updateGlobals, wiring, reducers, Perceptron.apply_eq global]
    simp only [infer, Network.infer, edges, nodes, globals]
  | independent stages =>
    obtain ⟨edge, node, global⟩ := PerUpdate.mk.inj stages
    simp only [infer, Independent.infer, Perceptron.apply_eq edge, Perceptron.apply_eq node,
      Perceptron.apply_eq global]

section
variable {p : Parameters} {module : String} {layout : WeightLayout} {layer input : Nat}

open Parameters (weightSlot biasSlot)

/-- The tensors of a layer are as finite as those of its slots. -/
theorem Dense.Holds.finite {output : Nat} {d : Dense}
    (holds : d.Holds p module layout layer input output)
    (weight : Slot.Filled ⟨weightSlot module layer, input * output⟩ p)
    (bias : Slot.Filled ⟨biasSlot module layer, output⟩ p) : d.Finite := by
  obtain ⟨rfl, rfl, biases, stored, there, -, entries⟩ := holds
  obtain ⟨values, there', -, finite⟩ := weight
  obtain ⟨values', biases', -, finite'⟩ := bias
  obtain rfl := Option.some.inj (there.symm.trans there')
  obtain rfl := Option.some.inj (biases.symm.trans biases')
  refine ⟨fun x hx => ?_, finite'⟩
  obtain ⟨k, hk, rfl⟩ := Array.mem_iff_getElem.1 hx
  obtain ⟨row, column⟩ := WeightLayout.row_column_lt (d.size_weight ▸ hk)
  have entry := entries _ row _ column
  rw [Dense.weightAt, Nat.div_add_mod', Array.getD_eq_getD_getElem?, Array.getElem?_eq_getElem hk,
    Option.getD_some] at entry
  rw [entry, Array.getD_eq_getD_getElem?]
  cases there : stored[layout.place d.input d.output (k / d.output) (k % d.output)]? with
  | none => rfl
  | some x => exact finite x (Array.mem_of_getElem? there)

theorem BoundLayers.finite {sizes : List Nat} {ds : List Dense}
    (bound : BoundLayers p module layout layer input sizes ds)
    (filled : ∀ s ∈ layerSlots module layer input sizes, s.Filled p) : ∀ d ∈ ds, d.Finite := by
  induction bound with
  | nil => simp
  | cons holds _ ih =>
    rw [layerSlots, List.forall_mem_cons, List.forall_mem_cons] at filled
    exact List.forall_mem_cons.2 ⟨holds.finite filled.1 filled.2.1, ih filled.2.2⟩

end

namespace Description

variable {d e : Description} {p p' : Parameters} {rename rename' : Option String}
  {withProgram : Bool} {m m' : Model}

/-- All weights and biases of a compiled model are finite. -/
theorem finite_of_compile (compiled : d.compile p rename withProgram = .ok m) :
    m.block.updates.Finite := by
  have filled := (exists_compile_iff.1 ⟨m, compiled⟩).1.tensors
  obtain ⟨-, ⟨-, -, -, -, updates, -, -⟩, -⟩ := compile_eq_ok compiled
  rw [slots, List.forall_mem_append, List.forall_mem_append] at filled
  simp only [PerUpdate.Finite, PerUpdate.toList, List.forall_mem_cons]
  exact ⟨updates.edge.layers.finite filled.1, updates.node.layers.finite filled.2.1,
    updates.global.layers.finite filled.2.2, by simp⟩

/-- **The text of a program keeps the whole model.**  If the programs of two compiled models are
    the same up to white space, the models have the same architecture, and in it the same layers
    with every bit of their weights and biases, the same activations where they are applied, the
    same inputs and the same reducers; so they compute the same of any state. -/
theorem alike_of_letters (compiled : d.compile p rename true = .ok m)
    (compiled' : e.compile p' rename' true = .ok m') {q q' : Program}
    (program : m.program = some q) (program' : m'.program = some q')
    (same : letters q.text = letters q'.text) :
    m.block.Alike m'.block ∧ m.name = m'.name ∧ q.topology = q'.topology ∧
      ∀ s : State, m.infer s = m'.infer s := by
  obtain ⟨name, -, made⟩ := compile_eq_ok compiled
  obtain ⟨name', -, made'⟩ := compile_eq_ok compiled'
  obtain rfl := Option.some.inj (program.symm.trans made)
  obtain rfl := Option.some.inj (program'.symm.trans made')
  have reveals := Reveals.program (d := d) (e := e) (name ▸ Identifier.valid_ofName _)
    (name' ▸ Identifier.valid_ofName _) (finite_of_compile compiled) (finite_of_compile compiled')
  rw [Program.text, Program.text, Code.letters_text, Code.letters_text] at same
  obtain ⟨⟨names, topologies, alike⟩, -⟩ := reveals [] [] (by rw [same])
  exact ⟨alike, names, topologies, alike.infer_eq⟩

/-- The self-loop, with another activation for a layer that none follows. -/
def unapplied : Description :=
  { selfLoop with updates :=
      { selfLoop.updates with edge := { selfLoop.updates.edge with activation := "sigmoid" } } }

/-- It is another model with the same program text, and it computes the same. -/
theorem alike_of_letters_unapplied : ∃ (m m' : Model) (q q' : Program),
    selfLoop.compile .selfLoop none true = .ok m ∧
    unapplied.compile .selfLoop none true = .ok m' ∧
    m.program = some q ∧ m'.program = some q' ∧ letters q.text = letters q'.text ∧
    m.block.updates.edge.activation ≠ m'.block.updates.edge.activation ∧
    m.block.Alike m'.block ∧ ∀ s : State, m.infer s = m'.infer s := by
  let parts (made : Outcome Model) := (made.toOption.bind Model.program).map fun q =>
    ((q.name, q.topology), (q.steps, q.updates.map Perceptron.stages))
  have equal : parts (selfLoop.compile .selfLoop none true) =
      parts (unapplied.compile .selfLoop none true) := by
    decide +kernel
  let activation (made : Outcome Model) := made.toOption.map (·.block.updates.edge.activation)
  have other : activation (selfLoop.compile .selfLoop none true) ≠
      activation (unapplied.compile .selfLoop none true) := by
    decide +kernel
  obtain ⟨m, compiled⟩ := compile_selfLoop
  obtain ⟨m', compiled'⟩ : ∃ m', unapplied.compile .selfLoop none true = .ok m' := by
    apply Outcome.exists_of_isOk
    decide +kernel
  obtain ⟨-, -, program⟩ := compile_eq_ok compiled
  obtain ⟨-, -, program'⟩ := compile_eq_ok compiled'
  rw [if_pos rfl] at program program'
  simp only [parts, compiled, compiled', Except.toOption, Option.bind_some, program, program',
    Option.map_some, Option.some.injEq, Prod.mk.injEq] at equal
  simp only [activation, compiled, compiled', Except.toOption, Option.map_some, ne_eq,
    Option.some.injEq] at other
  obtain ⟨⟨name, topology⟩, steps, stages⟩ := equal
  have same := Program.letters_text_eq name topology steps stages
  obtain ⟨alike, -, -, run⟩ := alike_of_letters compiled compiled' program program' same
  exact ⟨m, m', _, _, compiled, compiled', program, program', same, other, alike, run⟩

end Description

end MessagePassing
