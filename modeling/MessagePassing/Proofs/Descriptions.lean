/-
  Message passing — stored descriptions.

  A description is read back from its text, whatever its strings and counts are, and also from
  other texts that say the same: with the members of its objects in another order, with unknown
  members, and without fields that hold their defaults.

  * `UpdateDeclaration.fields`, `Wiring.fields`, `Description.fields`: what may be written for
    each field, and which default may be left out;
  * `Description.ofJson?_of_writtenAs`: every form stands for the description;
  * `Description.ofText?_of_writtenAs`: and so do the texts of these forms.
-/
import MessagePassing.Proofs.Acceptance
import MessagePassing.Proofs.Records

namespace MessagePassing

open MessagePassing.Count (limit)
open Json (Field Lossless Value WrittenAs lossless_count lossless_list)

/-! ## Parts -/

namespace Json

theorem Lossless.reads {α : Type} {encode : α → Value} {decode : Decoder α} {x : α}
    (h : Lossless encode decode x) : ∀ v, v = encode x → decode v = some x := by
  rintro _ rfl
  exact h.read

theorem lossless_text (s : String) : Lossless .text Value.text? s := ⟨.text s, rfl⟩

theorem lossless_bool (b : Bool) : Lossless .bool Value.bool? b := ⟨.bool b, rfl⟩

theorem lossless_tag {α : Type} [Tagged α] {x : α} (known : Tagged.ofTag? (Tagged.tag x) = some x) :
    Lossless Tagged.json Tagged.ofJson? x :=
  ⟨.text _, known⟩

end Json

theorem WeightLayout.lossless (l : WeightLayout) : Lossless Tagged.json Tagged.ofJson? l :=
  Json.lossless_tag (by cases l <;> rfl)

theorem Architecture.lossless (a : Architecture) : Lossless Tagged.json Tagged.ofJson? a :=
  Json.lossless_tag (by cases a <;> rfl)

theorem EdgeInput.lossless (i : EdgeInput) : Lossless Tagged.json Tagged.ofJson? i :=
  Json.lossless_tag (by cases i <;> rfl)

theorem NodeInput.lossless (i : NodeInput) : Lossless Tagged.json Tagged.ofJson? i :=
  Json.lossless_tag (by cases i <;> rfl)

theorem GlobalInput.lossless (i : GlobalInput) : Lossless Tagged.json Tagged.ofJson? i :=
  Json.lossless_tag (by cases i <;> rfl)

/-! ## Update declarations -/

namespace UpdateDeclaration

/-- What may be written for the fields of the declaration. -/
def fields (u : UpdateDeclaration) : List Field := [
  .needed "kind" (· = .text u.kind),
  .needed "module" (· = .text u.module),
  .defaulting "layer_sizes" [] u.layerSizes (· = .counts u.layerSizes),
  .defaulting "activation" "relu" u.activation (· = .text u.activation),
  .defaulting "activate_final" false u.activateFinal (· = .bool u.activateFinal),
  .defaulting "weight_layout" .inOut u.weightLayout (· = Tagged.json u.weightLayout)]

theorem names_fields (u : UpdateDeclaration) : u.fields.map (·.name) =
    ["kind", "module", "layer_sizes", "activation", "activate_final", "weight_layout"] := rfl

theorem nodup_fields (u : UpdateDeclaration) : (u.fields.map (·.name)).Nodup := by
  rw [names_fields]
  decide

theorem writtenAs_json (u : UpdateDeclaration) : WrittenAs u.fields u.json := by
  refine Json.writtenAs_record ?_ u.nodup_fields
  repeat' constructor

variable {u : UpdateDeclaration}

theorem lossless_layerSizes (fits : ∀ n ∈ u.layerSizes, n < limit) :
    Lossless .counts (Value.list? Value.count?) u.layerSizes :=
  lossless_list fun n hn => lossless_count (fits n hn)

theorem proper_json (fits : ∀ n ∈ u.layerSizes, n < limit) : u.json.Proper := by
  refine Json.proper_record ?_
  simp only [List.forall_mem_cons, List.not_mem_nil, false_imp_iff, implies_true, and_true]
  exact ⟨.text _, .text _, (lossless_layerSizes fits).proper, .text _, .bool _,
    u.weightLayout.lossless.proper⟩

/-- A declaration is read from every form. -/
theorem ofJson?_of_writtenAs (fits : ∀ n ∈ u.layerSizes, n < limit) {v : Value}
    (h : WrittenAs u.fields v) : ofJson? v = some u := by
  obtain ⟨written, fields, allowed⟩ := h.fields? u.nodup_fields
  simp only [UpdateDeclaration.fields, List.forall_mem_cons, Field.name_needed,
    Field.name_defaulting] at allowed
  obtain ⟨kind, module, layerSizes, activation, activateFinal, weightLayout, -⟩ := allowed
  have kind := Field.required_of_allows kind (Json.lossless_text u.kind).reads
  have module := Field.required_of_allows module (Json.lossless_text u.module).reads
  have layerSizes := Field.optional_of_allows layerSizes (lossless_layerSizes fits).reads
  have activation := Field.optional_of_allows activation (Json.lossless_text u.activation).reads
  have activateFinal := Field.optional_of_allows activateFinal
    (Json.lossless_bool u.activateFinal).reads
  have weightLayout := Field.optional_of_allows weightLayout u.weightLayout.lossless.reads
  rw [names_fields] at fields
  rw [ofJson?, fields]
  simp only [List.map_cons, List.map_nil, Option.bind_eq_bind, Option.bind_some, kind, module,
    layerSizes, activation, activateFinal, weightLayout]
  rfl

end UpdateDeclaration

/-! ## Wirings -/

namespace Wiring

/-- What may be written for the fields of the wiring: all of them have to be given. -/
def fields (w : Wiring) : List Field := [
  .needed "edge" (· = .array (w.edge.map Tagged.json)),
  .needed "node" (· = .array (w.node.map Tagged.json)),
  .needed "global" (· = .array (w.global.map Tagged.json))]

theorem names_fields (w : Wiring) : w.fields.map (·.name) = ["edge", "node", "global"] := rfl

theorem nodup_fields (w : Wiring) : (w.fields.map (·.name)).Nodup := by
  rw [names_fields]
  decide

theorem writtenAs_json (w : Wiring) : WrittenAs w.fields w.json := by
  refine Json.writtenAs_record ?_ w.nodup_fields
  repeat' constructor

theorem proper_json (w : Wiring) : w.json.Proper := by
  refine Json.proper_record ?_
  simp only [List.forall_mem_cons, List.not_mem_nil, false_imp_iff, implies_true, and_true]
  exact ⟨(lossless_list fun i _ => EdgeInput.lossless i).proper,
    (lossless_list fun i _ => NodeInput.lossless i).proper,
    (lossless_list fun i _ => GlobalInput.lossless i).proper⟩

/-- A wiring is read from every form. -/
theorem ofJson?_of_writtenAs {w : Wiring} {v : Value} (h : WrittenAs w.fields v) :
    ofJson? v = some w := by
  obtain ⟨written, fields, allowed⟩ := h.fields? w.nodup_fields
  simp only [Wiring.fields, List.forall_mem_cons, Field.name_needed] at allowed
  obtain ⟨edge, node, global, -⟩ := allowed
  have edge := Field.required_of_allows edge (lossless_list fun i _ => EdgeInput.lossless i).reads
  have node := Field.required_of_allows node (lossless_list fun i _ => NodeInput.lossless i).reads
  have global := Field.required_of_allows global
    (lossless_list fun i _ => GlobalInput.lossless i).reads
  rw [names_fields] at fields
  rw [ofJson?, fields]
  simp only [List.map_cons, List.map_nil, Option.bind_eq_bind, Option.bind_some, edge, node, global]
  rfl

end Wiring

/-! ## Descriptions -/

namespace Description

/-- What may be written for the only field of a reducer. -/
def reducerFields (tag : String) : List Field := [.needed "kind" (· = .text tag)]

theorem nodup_reducerFields (tag : String) : ((reducerFields tag).map (·.name)).Nodup := by
  simp [reducerFields]

theorem writtenAs_reducerJson (tag : String) : WrittenAs (reducerFields tag) (reducerJson tag) := by
  refine Json.writtenAs_record ?_ (nodup_reducerFields tag)
  repeat' constructor

theorem proper_reducerJson (tag : String) : (reducerJson tag).Proper :=
  Json.proper_record fun _ hm => List.mem_singleton.1 hm ▸ .text tag

theorem reducerOfJson?_of_writtenAs {tag : String} {v : Value}
    (h : WrittenAs (reducerFields tag) v) : reducerOfJson? v = some tag := by
  obtain ⟨written, fields, allowed⟩ := h.fields? (nodup_reducerFields tag)
  simp only [reducerFields, List.forall_mem_cons, Field.name_needed] at allowed
  have kind := Field.required_of_allows allowed.1 (Json.lossless_text tag).reads
  simp only [reducerFields, List.map_cons, List.map_nil, Field.name_needed] at fields
  rw [reducerOfJson?, fields]
  exact kind

/-- What may be written for the fields of the description. -/
def fields (d : Description) : List Field := [
  .needed "name" (· = .text d.name),
  .defaulting "architecture" .graphNetwork d.architecture (· = Tagged.json d.architecture),
  .needed "num_nodes" (· = .count d.nodeCount),
  .defaulting "edges" [] d.edges (· = .array (d.edges.map fun e => .counts [e.1, e.2])),
  .needed "node_features" (· = .count d.inputWidths.nodes),
  .needed "edge_features" (· = .count d.inputWidths.edges),
  .needed "global_features" (· = .count d.inputWidths.globals),
  .needed "edge_update" (WrittenAs d.updates.edge.fields),
  .needed "node_update" (WrittenAs d.updates.node.fields),
  .needed "global_update" (WrittenAs d.updates.global.fields),
  .defaulting "edge_node_aggregate" "sum" d.reducers.edgeNode
    (WrittenAs (reducerFields d.reducers.edgeNode)),
  .defaulting "node_global_aggregate" "sum" d.reducers.nodeGlobal
    (WrittenAs (reducerFields d.reducers.nodeGlobal)),
  .defaulting "edge_global_aggregate" "sum" d.reducers.edgeGlobal
    (WrittenAs (reducerFields d.reducers.edgeGlobal)),
  .defaulting "inputs" ⟨[.edges, .senders, .receivers, .globals],
    [.nodes, .receivedEdges, .globals], [.globals, .nodes, .edges]⟩ d.wiring
    (WrittenAs d.wiring.fields)]

theorem names_fields (d : Description) : d.fields.map (·.name) = fieldNames := rfl

theorem nodup_fields (d : Description) : (d.fields.map (·.name)).Nodup := by
  rw [names_fields]
  decide

/-- Every number that the description holds is a count. -/
structure Storable (d : Description) : Prop where
  nodeCount : d.nodeCount < limit
  edges : ∀ e ∈ d.edges, e.1 < limit ∧ e.2 < limit
  nodes : d.inputWidths.nodes < limit
  edgeFeatures : d.inputWidths.edges < limit
  globals : d.inputWidths.globals < limit
  layerSizes : ∀ u ∈ d.updates.toList, ∀ n ∈ u.layerSizes, n < limit

theorem lossless_edge {e : Nat × Nat} (fits : e.1 < limit ∧ e.2 < limit) :
    Lossless edgeJson (Value.pair? Value.count? Value.count?) e := by
  have first := lossless_count fits.1
  have second := lossless_count fits.2
  refine ⟨.array ?_, ?_⟩
  · simp only [List.map_cons, List.map_nil, List.forall_mem_cons, List.not_mem_nil, false_imp_iff,
      implies_true, and_true]
    exact ⟨first.proper, second.proper⟩
  · rw [edgeJson, Value.counts, List.map_cons, List.map_cons, List.map_nil, Value.pair?,
      first.read, second.read]
    rfl

theorem lossless_edges {d : Description} (storable : d.Storable) :
    Lossless (fun es => .array (es.map edgeJson))
      (Value.list? (Value.pair? Value.count? Value.count?)) d.edges :=
  lossless_list fun e he => lossless_edge (storable.edges e he)

theorem writtenAs_json (d : Description) : WrittenAs d.fields d.json := by
  refine Json.writtenAs_record ?_ d.nodup_fields
  have reducer := writtenAs_reducerJson
  simp only [fields, List.forall₂_cons]
  exact ⟨⟨rfl, rfl⟩, ⟨rfl, rfl⟩, ⟨rfl, rfl⟩, ⟨rfl, rfl⟩, ⟨rfl, rfl⟩, ⟨rfl, rfl⟩, ⟨rfl, rfl⟩,
    ⟨rfl, d.updates.edge.writtenAs_json⟩, ⟨rfl, d.updates.node.writtenAs_json⟩,
    ⟨rfl, d.updates.global.writtenAs_json⟩, ⟨rfl, reducer _⟩, ⟨rfl, reducer _⟩, ⟨rfl, reducer _⟩,
    ⟨rfl, d.wiring.writtenAs_json⟩, .nil⟩

theorem Storable.update {d : Description} (storable : d.Storable) (e : Entity) :
    ∀ n ∈ (d.updates.get e).layerSizes, n < limit := by
  apply storable.layerSizes
  cases e <;> simp [PerUpdate.toList, PerUpdate.get]

theorem proper_json {d : Description} (storable : d.Storable) : d.json.Proper := by
  have reducer := proper_reducerJson
  refine Json.proper_record ?_
  simp only [List.forall_mem_cons, List.not_mem_nil, false_imp_iff, implies_true, and_true]
  exact ⟨.text _, d.architecture.lossless.proper, (lossless_count storable.nodeCount).proper,
    (lossless_edges storable).proper, (lossless_count storable.nodes).proper,
    (lossless_count storable.edgeFeatures).proper, (lossless_count storable.globals).proper,
    UpdateDeclaration.proper_json (storable.update .edges),
    UpdateDeclaration.proper_json (storable.update .nodes),
    UpdateDeclaration.proper_json (storable.update .globals), reducer _, reducer _, reducer _,
    d.wiring.proper_json⟩

/-- **A description is read from every form.** -/
theorem ofJson?_of_writtenAs {d : Description} (storable : d.Storable) {v : Value}
    (h : WrittenAs d.fields v) : ofJson? v = some d := by
  obtain ⟨written, fields, allowed⟩ := h.fields? d.nodup_fields
  simp only [Description.fields, List.forall_mem_cons, Field.name_needed,
    Field.name_defaulting] at allowed
  obtain ⟨name, architecture, nodeCount, edges, nodes, edgeFeatures, globals, edge, node, global,
    edgeNode, nodeGlobal, edgeGlobal, wiring, -⟩ := allowed
  have name := Field.required_of_allows name (Json.lossless_text d.name).reads
  have architecture := Field.optional_of_allows architecture d.architecture.lossless.reads
  have nodeCount := Field.required_of_allows nodeCount (lossless_count storable.nodeCount).reads
  have edges := Field.optional_of_allows edges (lossless_edges storable).reads
  have nodes := Field.required_of_allows nodes (lossless_count storable.nodes).reads
  have edgeFeatures := Field.required_of_allows edgeFeatures
    (lossless_count storable.edgeFeatures).reads
  have globals := Field.required_of_allows globals (lossless_count storable.globals).reads
  have edge := Field.required_of_allows edge fun _ =>
    UpdateDeclaration.ofJson?_of_writtenAs (storable.update .edges)
  have node := Field.required_of_allows node fun _ =>
    UpdateDeclaration.ofJson?_of_writtenAs (storable.update .nodes)
  have global := Field.required_of_allows global fun _ =>
    UpdateDeclaration.ofJson?_of_writtenAs (storable.update .globals)
  have edgeNode := Field.optional_of_allows edgeNode fun _ => reducerOfJson?_of_writtenAs
  have nodeGlobal := Field.optional_of_allows nodeGlobal fun _ => reducerOfJson?_of_writtenAs
  have edgeGlobal := Field.optional_of_allows edgeGlobal fun _ => reducerOfJson?_of_writtenAs
  have wiring := Field.optional_of_allows wiring fun _ => Wiring.ofJson?_of_writtenAs
  rw [names_fields] at fields
  rw [ofJson?, fields]
  rw [Option.bind_eq_bind, Option.bind_some]
  simp only [fieldNames, List.map_cons, List.map_nil, Wiring.full, defaultReducer]
  rw [name, architecture, nodeCount, edges, nodes, edgeFeatures, globals, edge, node, global,
    edgeNode, nodeGlobal, edgeGlobal, wiring]
  rfl

theorem lossless {d : Description} (storable : d.Storable) : Lossless json ofJson? d :=
  ⟨proper_json storable, ofJson?_of_writtenAs storable d.writtenAs_json⟩

/-- **Descriptions survive their text.**  A description of any strings and counts is read back
    from its text; and so it is from every other text of a form of it, in which fields come in
    another order and among unknown ones, and those that hold their defaults may be missing. -/
theorem ofText?_of_writtenAs (d : Description) (storable : d.Storable) :
    ofText? d.json.compact = some d ∧ WrittenAs d.fields d.json ∧
      ∀ v, WrittenAs d.fields v →
        (∀ text, Value.ofText? text = some v → ofText? text = some d) ∧
        (v.Proper → ofText? v.compact = some d) := by
  have read {v : Value} {text : String} (h : WrittenAs d.fields v)
      (parsed : Value.ofText? text = some v) : ofText? text = some d := by
    rw [ofText?, parsed]
    exact ofJson?_of_writtenAs storable h
  refine ⟨?_, d.writtenAs_json, fun v h => ⟨fun _ => read h, fun proper => ?_⟩⟩
  · exact (lossless storable).ofText?
  · exact read h (Value.ofText?_compact proper)

theorem storable_selfLoop : selfLoop.Storable :=
  ⟨by decide, by decide, by decide, by decide, by decide, by decide⟩

/-- An update declaration of the self-loop, written from its last field to its first, with a
    comment and without defaults. -/
def updateReversed (module : String) : Value :=
  .record [("comment", .null), ("layer_sizes", .counts [1]), ("module", .text module),
    ("kind", .text "mlp")]

/-- The self-loop, written in the same way. -/
def reversed : Value :=
  .record [("comment", .text "in reverse"), ("node_global_aggregate", reducerJson "mean"),
    ("global_update", updateReversed "global"), ("node_update", updateReversed "node"),
    ("edge_update", updateReversed "edge"), ("global_features", .count 1),
    ("edge_features", .count 1), ("node_features", .count 1),
    ("edges", .array [.counts [0, 0]]), ("num_nodes", .count 1), ("name", .text "loop")]

theorem writtenAs_updateReversed (module : String) :
    WrittenAs (UpdateDeclaration.perceptron module [1]).fields (updateReversed module) := by
  refine .intro (fun
    | "kind" => some (.text "mlp")
    | "module" => some (.text module)
    | "layer_sizes" => some (.counts [1])
    | _ => none) [("comment", .null)] _ ?_ ?_
    (List.reverse_perm [("kind", _), ("module", _), ("layer_sizes", _), ("comment", _)])
  · simp only [UpdateDeclaration.fields, List.forall_mem_cons]
    exact ⟨rfl, rfl, rfl, rfl, rfl, rfl, by simp⟩
  · simp [UpdateDeclaration.fields]

theorem writtenAs_reversed : WrittenAs selfLoop.fields reversed := by
  refine .intro (fun
    | "name" => some (.text "loop")
    | "num_nodes" => some (.count 1)
    | "edges" => some (.array [.counts [0, 0]])
    | "node_features" => some (.count 1)
    | "edge_features" => some (.count 1)
    | "global_features" => some (.count 1)
    | "edge_update" => some (updateReversed "edge")
    | "node_update" => some (updateReversed "node")
    | "global_update" => some (updateReversed "global")
    | "node_global_aggregate" => some (reducerJson "mean")
    | _ => none) [("comment", .text "in reverse")] _ ?_ ?_
    (List.reverse_perm [("name", _), ("num_nodes", _), ("edges", _), ("node_features", _),
      ("edge_features", _), ("global_features", _), ("edge_update", _), ("node_update", _),
      ("global_update", _), ("node_global_aggregate", _), ("comment", _)])
  · simp only [fields, List.forall_mem_cons]
    exact ⟨rfl, rfl, rfl, rfl, rfl, rfl, rfl, writtenAs_updateReversed _,
      writtenAs_updateReversed _, writtenAs_updateReversed _, rfl, writtenAs_reducerJson _, rfl,
      rfl, by simp⟩
  · simp [fields]

theorem proper_reversed : reversed.Proper := by
  have counts := Json.proper_counts
  have update (module : String) : (updateReversed module).Proper := by
    refine Json.proper_record ?_
    simp only [List.forall_mem_cons, List.not_mem_nil, false_imp_iff, implies_true, and_true]
    exact ⟨.null, counts _, .text _, .text _⟩
  refine Json.proper_record ?_
  simp only [List.forall_mem_cons, List.not_mem_nil, false_imp_iff, implies_true, and_true]
  exact ⟨.text _, proper_reducerJson _, update _, update _, update _, .number (Json.proper_ofNat 1),
    .number (Json.proper_ofNat 1), .number (Json.proper_ofNat 1),
    .array fun v hv => List.mem_singleton.1 hv ▸ counts _, .number (Json.proper_ofNat 1), .text _⟩

/-- The self-loop is read from both texts. -/
theorem ofText?_reversed :
    ofText? reversed.compact = some selfLoop ∧ ofText? selfLoop.json.compact = some selfLoop := by
  obtain ⟨own, -, forms⟩ := ofText?_of_writtenAs selfLoop storable_selfLoop
  have parsed := Value.ofText?_compact proper_reversed
  exact ⟨(forms reversed writtenAs_reversed).1 _ parsed, own⟩

end Description

end MessagePassing
