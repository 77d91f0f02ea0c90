/-
  Message passing — runs of programs.

  The steps of a program do to flat arrays what a round does to tables.  Every lemma here
  is about a memory that holds the features of some state, and says that after the steps
  of a stage it holds the features of the state after this stage.

  * `step?_join`, `step?_update`, `step?_reduce`, `step?_updateOwn`: one step;
  * `run_edgeSteps`, `run_nodeSteps`, `run_globalSteps`: the steps of one stage;
  * `run?_ofNetwork`, `run?_ofIndependent`: whole programs;
  * `Model.program_agrees`: a compiled model and its program give the same features.
-/
import MessagePassing.Proofs.Flat
import MessagePassing.Proofs.Inference

namespace MessagePassing

open Buffer (Table tableOf joinRows)
open MessagePassing.Count (total)

/-- The graph of a state. -/
def State.topology (s : State) : Topology := ⟨s.nodeCount, s.senders, s.receivers⟩

namespace Network

/-! ## Tables as flat arrays -/

theorem data_edgeTable (s : State) (x : EdgeInput) :
    (edgeTable s x).val.data = joinRows (fun k => edgePart s k x) s.edges.rows :=
  Buffer.data_tableOf _

theorem data_nodeTable (n : Network) (s : State) (x : NodeInput) :
    (n.nodeTable s x).val.data = joinRows (fun v => n.nodePart s s v x) s.nodes.rows :=
  Buffer.data_tableOf _

theorem data_globalTable (n : Network) (s : State) (x : GlobalInput) :
    (n.globalTable s x).val.data = joinRows (fun _ => n.globalPart s s x) 1 :=
  Buffer.data_tableOf _

theorem data_newEdges (n : Network) (s : State) : (n.newEdges s).val.data =
    joinRows (fun k => n.updates.edge.forward (n.edgeRow s k)) s.edges.rows :=
  Buffer.data_tableOf _

theorem data_newNodes (n : Network) (s : State) : (n.newNodes s).val.data =
    joinRows (fun v => n.updates.node.forward (n.nodeRow s s v)) s.nodes.rows :=
  Buffer.data_tableOf _

theorem data_newGlobals (n : Network) (s : State) : (n.newGlobals s).val.data =
    joinRows (fun _ => n.updates.global.forward (n.globalRow s s)) 1 :=
  Buffer.data_tableOf _

end Network

namespace Program

/-! ## Steps -/

section
variable {p : Program} {t : Topology} {m : Memory} {entity : Entity}

theorem run_cons {m₁ m₂ : Memory} {a : Step} {rest : List Step} (first : p.step? m a = some m₁)
    (others : rest.foldlM p.step? m₁ = some m₂) : (a :: rest).foldlM p.step? m = some m₂ := by
  rw [List.foldlM_cons, first]
  exact others

theorem run_append {m₁ m₂ : Memory} {l k : List Step} (first : l.foldlM p.step? m = some m₁)
    (others : k.foldlM p.step? m₁ = some m₂) : (l ++ k).foldlM p.step? m = some m₂ := by
  rw [List.foldlM_append, first]
  exact others

/-- Tables that a step joins become the input of an update function. -/
theorem step?_join {γ : Type} {l : List γ} {operand : γ → Operand} {count : RowCount}
    {rows : Nat} {table : γ → Table rows} {row : Nat → Array Scalar}
    (topology : p.topology = some t) (counts : t.rowCount count = rows)
    (reads : ∀ x ∈ l, (operand x).read? t m = some ((table x).val.data, (table x).val.cols))
    (same : ∀ i < rows, (l.map fun x => (table x).val.rowAt i).toArray.flatten = row i) :
    p.step? m (.join entity (l.map operand) count) =
      some (m.writeInput entity (joinRows row rows)) := by
  have parts : (l.map operand).mapM (fun o => o.read? t m) =
      some ((l.map table).map fun part => (part.val.data, part.val.cols)) := by
    rw [List.mapM_map, List.map_map]
    exact mapM_eq_some reads
  have rowParts : ∀ i < rows, Buffer.joinedRow (l.map table) i = row i := by
    intro i hi
    rw [Buffer.joinedRow_eq_flatten, List.map_map, ← same i hi]
    rfl
  simp only [step?, topology, counts, Option.bind_eq_bind, Option.bind_some, parts,
    Flat.concat?_eq]
  rw [Buffer.joinRows_congr rows rowParts]
  rfl

/-- An update function acts on every row of its input. -/
theorem step?_update {f : Nat → Array Scalar} {count : RowCount} {rows : Nat}
    (topology : p.topology = some t) (counts : t.rowCount count = rows)
    (input : m.inputs entity = some (joinRows f rows))
    (sizes : ∀ i, i < rows → (f i).size = (p.updates.get entity).inputWidth) :
    p.step? m (.update entity count) = some (m.write
      (joinRows (fun i => (p.updates.get entity).forward (f i)) rows) (.own entity)) := by
  simp only [step?, topology, counts, Option.bind_eq_bind, Option.bind_some, input,
    Perceptron.onFlat?_eq _ sizes]
  rfl

/-- A reduction combines the rows that reach each destination. -/
theorem step?_reduce {b : Buffer} {r : Reducer} {result source : DataName} {index : IndexName}
    {count : RowCount} {segments : Nat} (topology : p.topology = some t)
    (counts : t.rowCount count = segments) (reads : m.read? source = some b.data)
    (size : (t.indices index).size = b.rows) (lt : ∀ j ∈ t.indices index, j < segments) :
    p.step? m (.reduce result source b.cols index count (isMean r)) = some (m.write
      (joinRows (fun j => r.combine b.cols ((contributors (t.indices index) j).map b.rowAt))
        segments) result) := by
  simp only [step?, topology, counts, Option.bind_eq_bind, Option.bind_some, reads,
    Flat.segmentReduce?_eq r b (t.indices index) size lt]
  rfl

/-- An update function acts on the rows of its own entity. -/
theorem step?_updateOwn (entity : Entity) {rows : Nat} (b : Table rows)
    (own : m.features.get entity = b.val.data)
    (width : b.val.cols = (p.updates.get entity).inputWidth) (positive : 0 < b.val.cols) :
    p.step? m (.updateOwn entity b.val.cols) = some (m.write
      (Independent.rowwise (p.updates.get entity) b).val.data (.own entity)) := by
  have count : b.val.data.size / b.val.cols = rows := by
    rw [b.val.size_data, Nat.mul_div_cancel _ positive, b.property]
  have sizes : ∀ i, i < rows → (b.val.rowAt i).size = (p.updates.get entity).inputWidth :=
    fun i hi => (Buffer.size_rowAt_table b hi).trans width
  have run := Perceptron.onFlat?_eq (p.updates.get entity) sizes
  rw [← Buffer.table_data_eq_joinRows b] at run
  simp only [step?, own, count, if_neg (Nat.ne_of_gt positive), Option.bind_eq_bind,
    Option.bind_some, run]
  rw [Independent.rowwise, Buffer.data_tableOf]
  rfl

end

/-! ## Stages of a network -/

/-- The steps of the edge update. -/
def edgeSteps (n : Network) : List Step :=
  [.join .edges (n.wiring.edge.map (edgeOperand n.inputWidths)) .edges, .update .edges .edges]

/-- The steps of the node update. -/
def nodeSteps (n : Network) : List Step :=
  let edgeOut := n.updates.edge.outputWidth
  [.reduce .received (.own .edges) edgeOut .receivers .nodes (isMean n.reducers.edgeNode),
    .join .nodes (n.wiring.node.map (nodeOperand n.inputWidths edgeOut)) .nodes,
    .update .nodes .nodes]

/-- The steps of the global update. -/
def globalSteps (n : Network) : List Step :=
  let edgeOut := n.updates.edge.outputWidth
  let nodeOut := n.updates.node.outputWidth
  [.reduce .nodeSummary (.own .nodes) nodeOut (.first .nodes) .single
      (isMean n.reducers.nodeGlobal),
    .reduce .edgeSummary (.own .edges) edgeOut (.first .edges) .single
      (isMean n.reducers.edgeGlobal),
    .join .globals (n.wiring.global.map (globalOperand n.inputWidths nodeOut edgeOut)) .single,
    .update .globals .single]

theorem networkSteps_eq (n : Network) :
    networkSteps n = edgeSteps n ++ (nodeSteps n ++ globalSteps n) := rfl

section
variable {n : Network} {s : State} {m : Memory}

theorem read?_own (features : m.features = s.features) (entity : Entity) :
    m.read? (.own entity) = some (s.features.get entity) := by
  rw [Memory.read?, features]

theorem read?_plain {t : Topology} {data : DataName} {values : Array Scalar} (width : Nat)
    (reads : m.read? data = some values) :
    Operand.read? ⟨data, width, none⟩ t m = some (values, width) := by
  simp [Operand.read?, reads]

theorem read?_picked {t : Topology} {data : DataName} {index : IndexName} {b : Buffer}
    (reads : m.read? data = some b.data) (lt : ∀ i ∈ t.indices index, i < b.rows) :
    Operand.read? ⟨data, b.cols, some index⟩ t m = some
      (joinRows (fun k => b.rowAt ((t.indices index).getD k 0)) (t.indices index).size,
        b.cols) := by
  simp [Operand.read?, reads, Flat.gather?_eq b _ lt]

/-- The global row, once for every row that is counted. -/
theorem read?_globals {t : Topology} (s : State) (count : RowCount)
    (features : m.features = s.features) :
    Operand.read? ⟨.own .globals, s.globals.cols, some (.first count)⟩ t m = some
      (joinRows (fun _ => s.globals.rowAt 0) (t.rowCount count), s.globals.cols) := by
  have own : m.read? (.own .globals) = some s.globals.data := read?_own features .globals
  have lt : ∀ i ∈ t.indices (.first count), i < s.globals.rows := by
    intro i hi
    rw [Topology.indices, Array.mem_replicate] at hi
    rw [hi.2, s.rows_globals]
    exact Nat.one_pos
  rw [read?_picked own lt, Topology.indices, Array.size_replicate]
  congr 2
  exact Buffer.joinRows_congr _ fun k hk => by simp [Array.getD_eq_getD_getElem?, hk]

theorem edgeOperand_read? (features : m.features = s.features) (x : EdgeInput) :
    (edgeOperand s.widths x).read? s.topology m =
      some ((Network.edgeTable s x).val.data, (Network.edgeTable s x).val.cols) := by
  have nodes : m.read? (.own .nodes) = some s.nodes.data := read?_own features .nodes
  rw [Network.data_edgeTable]
  cases x with
  | edges =>
    refine (read?_plain _ (read?_own features .edges)).trans ?_
    exact congrArg (fun data => some (data, _)) s.edges.data_eq_joinRows
  | senders =>
    have lt : ∀ i ∈ s.topology.indices .senders, i < s.nodes.rows := s.sender_lt
    refine (read?_picked nodes lt).trans ?_
    show some (joinRows _ s.senders.size, _) = _
    rw [s.size_senders]
    rfl
  | receivers =>
    have lt : ∀ i ∈ s.topology.indices .receivers, i < s.nodes.rows := s.receiver_lt
    refine (read?_picked nodes lt).trans ?_
    show some (joinRows _ s.receivers.size, _) = _
    rw [s.size_receivers]
    rfl
  | globals =>
    refine (read?_globals s .edges features).trans ?_
    show some (joinRows _ s.senders.size, _) = _
    rw [s.size_senders]
    rfl

theorem nodeOperand_read? (features : m.features = s.features)
    (received : m.received = some (n.nodeTable s .receivedEdges).val.data) (x : NodeInput) :
    (nodeOperand s.widths s.edges.cols x).read? s.topology m =
      some ((n.nodeTable s x).val.data, (n.nodeTable s x).val.cols) := by
  cases x with
  | nodes =>
    refine (read?_plain _ (read?_own features .nodes)).trans ?_
    rw [n.data_nodeTable]
    exact congrArg (fun data => some (data, _)) s.nodes.data_eq_joinRows
  | receivedEdges => exact read?_plain _ received
  | globals =>
    rw [n.data_nodeTable]
    exact read?_globals s .nodes features

theorem globalOperand_read? (features : m.features = s.features)
    (nodeSummary : m.nodeSummary = some (n.globalTable s .nodes).val.data)
    (edgeSummary : m.edgeSummary = some (n.globalTable s .edges).val.data) (x : GlobalInput) :
    (globalOperand s.widths s.nodes.cols s.edges.cols x).read? s.topology m =
      some ((n.globalTable s x).val.data, (n.globalTable s x).val.cols) := by
  cases x with
  | globals =>
    refine (read?_plain _ (read?_own features .globals)).trans ?_
    rw [n.data_globalTable]
    have row := Buffer.table_data_eq_joinRows s.globalTable
    refine congrArg (fun data => some (data, _)) (row.trans ?_)
    refine Buffer.joinRows_congr 1 fun i hi => ?_
    obtain rfl : i = 0 := by omega
    rfl
  | nodes => exact read?_plain _ nodeSummary
  | edges => exact read?_plain _ edgeSummary

variable {p : Program} (topology : p.topology = some s.topology) (updates : p.updates = n.updates)
  (features : m.features = s.features)

include topology updates features

/-- The edge steps do what the edge update does. -/
theorem run_edgeSteps (sound : n.Sound) (widths : s.widths = n.inputWidths) :
    ∃ m', (edgeSteps n).foldlM p.step? m = some m' ∧
      m'.features = (s.withEdges (n.newEdges s)).features := by
  have counts : s.topology.rowCount .edges = s.edges.rows := s.size_senders
  obtain ⟨m₁, join, features₁, input⟩ : ∃ m₁,
      p.step? m (.join .edges (n.wiring.edge.map (edgeOperand s.widths)) .edges) = some m₁ ∧
      m₁.features = s.features ∧
      m₁.inputs .edges = some (joinRows (n.edgeRow s) s.edges.rows) := by
    refine ⟨_, step?_join topology counts (fun x _ => edgeOperand_read? features x)
      fun k hk => ?_, features, rfl⟩
    rw [Network.edgeRow]
    congr 2
    exact List.map_congr_left fun x _ => Network.rowAt_edgeTable s x hk
  have sizes : ∀ k, k < s.edges.rows →
      (n.edgeRow s k).size = (p.updates.get .edges).inputWidth := by
    intro k hk
    rw [n.size_edgeRow s hk, widths, sound.edge, updates]
    rfl
  rw [edgeSteps, ← widths]
  refine ⟨_, run_cons join (run_cons (step?_update topology counts input sizes) rfl), ?_⟩
  show m₁.features.set (joinRows _ _) .edges = _
  rw [features₁, updates]
  exact congrArg (s.features.set · .edges) (n.data_newEdges s).symm

/-- The node steps do what the node update does. -/
theorem run_nodeSteps (sound : n.Sound) (nodes : s.nodes.cols = n.inputWidths.nodes)
    (edges : s.edges.cols = n.updates.edge.outputWidth)
    (globals : s.globals.cols = n.inputWidths.globals) :
    ∃ m', (nodeSteps n).foldlM p.step? m = some m' ∧
      m'.features = (s.withNodes (n.newNodes s)).features := by
  have operands : nodeOperand n.inputWidths n.updates.edge.outputWidth =
      nodeOperand s.widths s.edges.cols := by
    funext x
    cases x with
    | nodes => rw [nodeOperand, nodeOperand, ← nodes]; rfl
    | receivedEdges => rw [nodeOperand, nodeOperand, edges]
    | globals => rw [nodeOperand, nodeOperand, ← globals]; rfl
  have counts : s.topology.rowCount .nodes = s.nodes.rows := rfl
  have size : (s.topology.indices .receivers).size = s.edges.rows := s.size_receivers
  have lt : ∀ j ∈ s.topology.indices .receivers, j < s.nodes.rows := s.receiver_lt
  have reads : m.read? (.own .edges) = some s.edges.data := read?_own features .edges
  obtain ⟨m₁, reduce, features₁, received⟩ : ∃ m₁,
      p.step? m (.reduce .received (.own .edges) s.edges.cols .receivers .nodes
        (isMean n.reducers.edgeNode)) = some m₁ ∧ m₁.features = s.features ∧
      m₁.received = some (n.nodeTable s .receivedEdges).val.data := by
    refine ⟨_, step?_reduce topology counts reads size lt, features, ?_⟩
    rw [n.data_nodeTable s]
    rfl
  obtain ⟨m₂, join, features₂, input⟩ : ∃ m₂,
      p.step? m₁ (.join .nodes (n.wiring.node.map (nodeOperand s.widths s.edges.cols)) .nodes) =
        some m₂ ∧ m₂.features = s.features ∧
      m₂.inputs .nodes = some (joinRows (n.nodeRow s s) s.nodes.rows) := by
    refine ⟨_, step?_join topology counts (fun x _ => nodeOperand_read? features₁ received x)
      fun v hv => ?_, features₁, rfl⟩
    rw [Network.nodeRow]
    congr 2
    exact List.map_congr_left fun x _ => n.rowAt_nodeTable s x hv
  have sizes : ∀ v, v < s.nodes.rows →
      (n.nodeRow s s v).size = (p.updates.get .nodes).inputWidth := by
    intro v hv
    rw [n.size_nodeRow s s hv, sound.total_node nodes edges globals, updates]
    rfl
  rw [nodeSteps, operands, ← edges]
  refine ⟨_, run_cons reduce (run_cons join (run_cons
    (step?_update topology counts input sizes) rfl)), ?_⟩
  show m₂.features.set (joinRows _ _) .nodes = _
  rw [features₂, updates]
  exact congrArg (s.features.set · .nodes) (n.data_newNodes s).symm

/-- The global steps do what the global update does. -/
theorem run_globalSteps (sound : n.Sound) (nodes : s.nodes.cols = n.updates.node.outputWidth)
    (edges : s.edges.cols = n.updates.edge.outputWidth)
    (globals : s.globals.cols = n.inputWidths.globals) :
    ∃ m', (globalSteps n).foldlM p.step? m = some m' ∧
      m'.features = (s.withGlobals (n.newGlobals s)).features := by
  have operands : globalOperand n.inputWidths n.updates.node.outputWidth
      n.updates.edge.outputWidth = globalOperand s.widths s.nodes.cols s.edges.cols := by
    funext x
    cases x with
    | globals => rw [globalOperand, globalOperand, ← globals]; rfl
    | nodes => rw [globalOperand, globalOperand, nodes]
    | edges => rw [globalOperand, globalOperand, edges]
  have counts : s.topology.rowCount .single = 1 := rfl
  have nodeIndex : s.topology.indices (.first .nodes) = Array.replicate s.nodes.rows 0 := rfl
  have edgeIndex : s.topology.indices (.first .edges) = Array.replicate s.edges.rows 0 := by
    rw [← s.size_senders]
    rfl
  have first {k : Nat} : ∀ j ∈ Array.replicate k 0, j < 1 := by
    intro j hj
    rw [(Array.mem_replicate.1 hj).2]
    exact Nat.one_pos
  have all {k : Nat} {b : Buffer} {r : Reducer} {i : Nat} (hi : i < 1) :
      r.combine b.cols ((contributors (Array.replicate k 0) i).map b.rowAt) =
        r.combine b.cols ((List.range k).map b.rowAt) := by
    obtain rfl : i = 0 := by omega
    rw [contributors_replicate]
  obtain ⟨m₁, nodeReduce, features₁, nodeSummary⟩ : ∃ m₁,
      p.step? m (.reduce .nodeSummary (.own .nodes) s.nodes.cols (.first .nodes) .single
        (isMean n.reducers.nodeGlobal)) = some m₁ ∧ m₁.features = s.features ∧
      m₁.nodeSummary = some (n.globalTable s .nodes).val.data := by
    have reads : m.read? (.own .nodes) = some s.nodes.data := read?_own features .nodes
    refine ⟨_, step?_reduce topology counts reads (by rw [nodeIndex, Array.size_replicate])
      (by rw [nodeIndex]; exact first), features, ?_⟩
    rw [n.data_globalTable s, nodeIndex]
    exact congrArg some (Buffer.joinRows_congr 1 fun i hi => all hi)
  obtain ⟨m₂, edgeReduce, features₂, nodeSummary₂, edgeSummary⟩ : ∃ m₂,
      p.step? m₁ (.reduce .edgeSummary (.own .edges) s.edges.cols (.first .edges) .single
        (isMean n.reducers.edgeGlobal)) = some m₂ ∧ m₂.features = s.features ∧
      m₂.nodeSummary = some (n.globalTable s .nodes).val.data ∧
      m₂.edgeSummary = some (n.globalTable s .edges).val.data := by
    have reads : m₁.read? (.own .edges) = some s.edges.data := read?_own features₁ .edges
    refine ⟨_, step?_reduce topology counts reads (by rw [edgeIndex, Array.size_replicate])
      (by rw [edgeIndex]; exact first), features₁, nodeSummary, ?_⟩
    rw [n.data_globalTable s, edgeIndex]
    exact congrArg some (Buffer.joinRows_congr 1 fun i hi => all hi)
  obtain ⟨m₃, join, features₃, input⟩ : ∃ m₃,
      p.step? m₂ (.join .globals (n.wiring.global.map
        (globalOperand s.widths s.nodes.cols s.edges.cols)) .single) = some m₃ ∧
      m₃.features = s.features ∧
      m₃.inputs .globals = some (joinRows (fun _ => n.globalRow s s) 1) := by
    refine ⟨_, step?_join topology counts
      (fun x _ => globalOperand_read? features₂ nodeSummary₂ edgeSummary x)
      fun i hi => ?_, features₂, rfl⟩
    obtain rfl : i = 0 := by omega
    rw [Network.globalRow]
    congr 2
    exact List.map_congr_left fun x _ => n.rowAt_globalTable s x
  have sizes : ∀ i, i < 1 → (n.globalRow s s).size = (p.updates.get .globals).inputWidth := by
    intro i hi
    rw [n.size_globalRow s s, sound.total_global nodes edges globals, updates]
    rfl
  rw [globalSteps, operands, ← nodes, ← edges]
  refine ⟨_, run_cons nodeReduce (run_cons edgeReduce (run_cons join (run_cons
    (step?_update topology counts input sizes) rfl))), ?_⟩
  show m₃.features.set (joinRows _ _) .globals = _
  rw [features₃, updates]
  exact congrArg (s.features.set · .globals) (n.data_newGlobals s).symm

end

/-! ## Whole programs -/

/-- **The program of a network computes a round of it.** -/
theorem run?_ofNetwork {n : Network} {s : State} (name : String) (sound : n.Sound)
    (widths : s.widths = n.inputWidths) :
    (ofNetwork name n s.topology).run? s.features = some (n.round s).features := by
  have nodeWidth : s.nodes.cols = n.inputWidths.nodes := congrArg Widths.nodes widths
  have globalWidth : s.globals.cols = n.inputWidths.globals := congrArg Widths.globals widths
  have steps : (ofNetwork name n s.topology).steps =
      edgeSteps n ++ (nodeSteps n ++ globalSteps n) := networkSteps_eq n
  obtain ⟨m₁, run₁, features₁⟩ := run_edgeSteps (p := ofNetwork name n s.topology)
    (m := .start s.features) rfl rfl rfl sound widths
  obtain ⟨m₂, run₂, features₂⟩ := run_nodeSteps (p := ofNetwork name n s.topology)
    (s := n.afterEdges s) rfl rfl features₁ sound nodeWidth rfl globalWidth
  obtain ⟨m₃, run₃, features₃⟩ := run_globalSteps (p := ofNetwork name n s.topology)
    (s := n.afterNodes s) rfl rfl features₂ sound rfl rfl globalWidth
  have run := run_append run₁ (run_append run₂ run₃)
  rw [← steps] at run
  rw [run?, run]
  exact congrArg some features₃

/-- **The program of an independent block computes a round of it.** -/
theorem run?_ofIndependent {b : Independent} {s : State} (name : String)
    (widths : s.widths = b.inputWidths) (positive : b.inputWidths.Positive) :
    (ofIndependent name b).run? s.features = some (b.round s).features := by
  have nodeWidth : s.nodes.cols = b.updates.node.inputWidth := congrArg Widths.nodes widths
  have edgeWidth : s.edges.cols = b.updates.edge.inputWidth := congrArg Widths.edges widths
  have globalWidth : s.globals.cols = b.updates.global.inputWidth :=
    congrArg Widths.globals widths
  rw [← widths] at positive
  obtain ⟨nodePositive, edgePositive, globalPositive⟩ := positive
  have steps : (ofIndependent name b).steps = [.updateOwn .edges s.edges.cols,
      .updateOwn .nodes s.nodes.cols, .updateOwn .globals s.globals.cols] := by
    rw [nodeWidth, edgeWidth, globalWidth]
    rfl
  obtain ⟨m₁, edges, features₁⟩ : ∃ m₁, (ofIndependent name b).step? (.start s.features)
      (.updateOwn .edges s.edges.cols) = some m₁ ∧ m₁.features = ⟨s.nodes.data,
        (Independent.rowwise b.updates.edge s.edges.table).val.data, s.globals.data⟩ :=
    ⟨_, step?_updateOwn .edges s.edges.table rfl edgeWidth edgePositive, rfl⟩
  obtain ⟨m₂, nodes, features₂⟩ : ∃ m₂, (ofIndependent name b).step? m₁
      (.updateOwn .nodes s.nodes.cols) = some m₂ ∧ m₂.features =
        ⟨(Independent.rowwise b.updates.node s.nodes.table).val.data,
          (Independent.rowwise b.updates.edge s.edges.table).val.data, s.globals.data⟩ := by
    refine ⟨_, step?_updateOwn .nodes s.nodes.table (by rw [features₁]; rfl) nodeWidth
      nodePositive, ?_⟩
    show m₁.features.set _ .nodes = _
    rw [features₁]
    rfl
  obtain ⟨m₃, globals, features₃⟩ : ∃ m₃, (ofIndependent name b).step? m₂
      (.updateOwn .globals s.globals.cols) = some m₃ ∧ m₃.features = (b.round s).features := by
    refine ⟨_, step?_updateOwn .globals s.globalTable (by rw [features₂]; rfl) globalWidth
      globalPositive, ?_⟩
    show m₂.features.set _ .globals = _
    rw [features₂]
    rfl
  have run : (ofIndependent name b).steps.foldlM (ofIndependent name b).step?
      (.start s.features) = some m₃ := by
    rw [steps]
    exact run_cons edges (run_cons nodes (run_cons globals rfl))
  rw [run?, run]
  exact congrArg some features₃

end Program

/-! ## Compiled models -/

/-- The program of a compiled model, for a state of its widths and, for a network, of
    the graph of its description, computes the features of a round. -/
theorem Model.run?_program {d : Description} {p : Parameters} {rename : Option String} {m : Model}
    {s : State} (compiled : d.compile p rename true = .ok m) (widths : s.widths = m.inputWidths)
    (graph : d.architecture = .graphNetwork → s.topology = d.topology) :
    ∃ program, m.program = some program ∧
      program.run? s.features = some (m.block.round s).features := by
  obtain ⟨-, made, program⟩ := Description.compile_eq_ok compiled
  refine ⟨_, program, ?_⟩
  have inputs := inputWidths_eq compiled
  rw [inputWidths] at widths inputs
  cases architecture : d.architecture with
  | graphNetwork =>
    obtain ⟨n, network, -⟩ := made.network architecture
    have sound := Network.sound_of_compile compiled network
    rw [network] at widths ⊢
    rw [Description.program, ← graph architecture]
    exact Program.run?_ofNetwork m.name sound widths
  | graphIndependent =>
    obtain ⟨b, independent, -⟩ := made.independent architecture
    rw [independent] at widths inputs ⊢
    refine Program.run?_ofIndependent m.name widths ?_
    have positive := made.positive
    rw [← inputs] at positive
    exact positive

/-- **A compiled model and its program compute the same features**, bit for bit, and the
    program reads nothing outside of its arrays. -/
theorem Model.program_agrees {d : Description} {p : Parameters} {rename : Option String}
    {m : Model} (compiled : d.compile p rename true = .ok m) (s : State)
    (widths : s.widths = m.inputWidths)
    (graph : d.architecture = .graphNetwork → s.nodeCount = d.nodeCount ∧
      s.senders = d.senders ∧ s.receivers = d.receivers) :
    ∃ program, m.program = some program ∧
      (∀ t, m.infer s = .ok t → program.run? s.features = some t.features) ∧
      (m.block.Fits s → ∃ t, m.infer s = .ok t) ∧
      (¬ m.block.Fits s → m.infer s = .error (.fault .countOverflow)) := by
  have topology : d.architecture = .graphNetwork → s.topology = d.topology := by
    intro architecture
    obtain ⟨nodes, senders, receivers⟩ := graph architecture
    rw [State.topology, nodes, senders, receivers]
    rfl
  obtain ⟨program, emitted, run⟩ := run?_program compiled widths topology
  have infers := infer_eq compiled widths
  refine ⟨program, emitted, fun t ht => ?_, fun fits => ⟨m.block.round s, ?_⟩,
    fun unfit => ?_⟩
  · rw [infers] at ht
    obtain ⟨-, rfl⟩ := Count.within_eq_ok.1 ht
    exact run
  · rw [infers, Count.within_of_fits fits]
  · rw [infers, Count.within_of_not_fits unfit]

/-- The self-loop and its program compute the same features. -/
theorem Model.program_agrees_selfLoop : ∃ (m : Model) (program : Program) (t : State),
    Description.selfLoop.compile .selfLoop none true = .ok m ∧ m.program = some program ∧
      m.infer .selfLoop = .ok t ∧
      program.run? State.selfLoop.features = some t.features := by
  obtain ⟨m, compiled⟩ := compile_selfLoop
  have reads : State.selfLoop.widths = m.inputWidths := by rw [inputWidths_eq compiled]; rfl
  obtain ⟨program, emitted, agrees, runs, -⟩ :=
    program_agrees compiled .selfLoop reads fun _ => ⟨rfl, rfl, rfl⟩
  obtain ⟨t, run⟩ := runs (fits_block_selfLoop compiled)
  exact ⟨m, program, t, compiled, emitted, run, agrees t run⟩

end MessagePassing
