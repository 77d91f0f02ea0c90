/-
  Message passing — what stored texts keep.

  A decoder undoes an encoder on some data if the value is written without loss and read back
  (`Lossless`).  This goes from scalars and counts over lists to the data that are stored:
  parameters and graphs.

  * `Lossless.ofText?`: a lossless value is read back from its text;
  * `lossless_scalar`, `lossless_count`, `lossless_list`: the parts;
  * `Parameters.lossless`, `GraphDocument.lossless`: the whole;
  * `CommandLine.read_written`: stored texts lose nothing.
-/
import MessagePassing.CommandLine.Run
import MessagePassing.Proofs.Flat
import MessagePassing.Proofs.Scalars
import MessagePassing.Proofs.Texts

namespace MessagePassing

open MessagePassing.Count (limit)

/-! ## Values that lose nothing -/

theorem mapM_map_eq_some {α β γ : Type} {f : α → β} {g : β → Option γ} {h : α → γ} {l : List α}
    (each : ∀ x ∈ l, g (f x) = some (h x)) : (l.map f).mapM g = some (l.map h) := by
  rw [List.mapM_map]
  exact mapM_eq_some each

namespace Json

/-- The value of `x` can be written, and the decoder reads `x` from it. -/
structure Lossless {α : Type} (encode : α → Value) (decode : Decoder α) (x : α) : Prop where
  proper : (encode x).Proper
  read : decode (encode x) = some x

section
variable {α : Type} {encode : α → Value} {decode : Decoder α} {x : α}

theorem Lossless.ofText? (h : Lossless encode decode x) :
    (Value.ofText? (encode x).compact).bind decode = some x := by
  rw [Value.ofText?_compact h.proper]
  exact h.read

theorem lossless_scalar {x : Scalar} (finite : x.isFinite = true) :
    Lossless .scalar Value.scalar? x := by
  obtain ⟨l, written, proper, read⟩ := Scalar.exists_literal finite
  have value : Value.scalar x = .number l := by rw [Value.scalar, written]
  exact ⟨value ▸ .number proper, value ▸ read⟩

theorem proper_ofNat (n : ℕ) : (Literal.ofNat n).Proper :=
  ⟨Digits.ofNat_ne_nil n, Digits.length_ofNat, by simp [Literal.ofNat]⟩

theorem proper_counts (ns : List Nat) : (Value.counts ns).Proper := by
  refine .array fun v hv => ?_
  obtain ⟨n, -, rfl⟩ := List.mem_map.1 hv
  exact .number (proper_ofNat n)

theorem lossless_count {n : ℕ} (fits : n < limit) : Lossless .count Value.count? n := by
  refine ⟨.number (proper_ofNat n), ?_⟩
  rw [Value.count, Value.count?, Literal.toNat?_ofNat, Option.filter_some, if_pos (by simpa)]

theorem lossless_list {xs : List α} (each : ∀ x ∈ xs, Lossless encode decode x) :
    Lossless (fun xs => .array (xs.map encode)) (Value.list? decode) xs := by
  refine ⟨.array ?_, ?_⟩
  · intro v hv
    obtain ⟨x, hx, rfl⟩ := List.mem_map.1 hv
    exact (each x hx).proper
  · rw [Value.list?, mapM_map_eq_some fun x hx => (each x hx).read, List.map_id']

theorem lossless_scalars {xs : Array Scalar} (finite : ∀ x ∈ xs, x.isFinite = true) :
    Lossless .scalars Value.scalars? xs := by
  have list := lossless_list fun x hx => lossless_scalar (finite x (Array.mem_def.2 hx))
  refine ⟨list.proper, ?_⟩
  rw [Value.scalars?, Value.scalars, list.read]
  rfl

end

/-! ## Records -/

theorem proper_record {members : List (String × Value)} (each : ∀ m ∈ members, m.2.Proper) :
    (Value.record members).Proper := by
  refine .object (fun m hm => ?_) fun m hm => ?_
  · obtain ⟨m, -, rfl⟩ := List.mem_map.1 hm
    rfl
  · obtain ⟨m, mem, rfl⟩ := List.mem_map.1 hm
    exact each m mem

theorem members?_record (members : List (String × Value)) :
    (Value.record members).members? = some members := by
  have named := mapM_map_eq_some (l := members) (f := fun m => (some m.1, m.2))
    (g := fun m => m.1.map fun name => (name, m.2)) (h := id) fun _ _ => rfl
  exact named.trans (congrArg some members.map_id)

theorem field?_eq {members : List (String × Value)} (distinct : (members.map (·.1)).Nodup)
    {m : String × Value} (mem : m ∈ members) : Value.field? members m.1 = some (some m.2) := by
  have only : members.filter (·.1 = m.1) = [m] := by
    induction members with
    | nil => cases mem
    | cons a rest ih =>
      obtain ⟨fresh, distinct⟩ := List.nodup_cons.1 distinct
      rcases List.mem_cons.1 mem with rfl | mem
      · rw [List.filter_cons_of_pos (by simp), List.filter_eq_nil_iff.2 fun b hb => ?_]
        intro same
        exact fresh (List.mem_map.2 ⟨b, hb, of_decide_eq_true same⟩)
      · rw [List.filter_cons_of_neg, ih distinct mem]
        intro same
        exact fresh (List.mem_map.2 ⟨m, mem, (of_decide_eq_true same).symm⟩)
  rw [Value.field?, only]

/-- The fields of a record with distinct names. -/
theorem fields?_record (members : List (String × Value))
    (distinct : (members.map (·.1)).Nodup) :
    (Value.record members).fields? (members.map (·.1)) = some (members.map fun m => some m.2) := by
  have named := members?_record members
  rw [Value.record, Value.members?] at named
  rw [Value.record, Value.fields?, named]
  exact mapM_map_eq_some fun m hm => field?_eq distinct hm

end Json

/-! ## Parameters -/

namespace Parameters

/-- Every value of every tensor is finite. -/
def Finite (p : Parameters) : Prop := ∀ e ∈ p.entries, ∀ x ∈ e.2, x.isFinite = true

theorem insertEntry_last {name : String} {values : Array Scalar}
    {l : List (String × Array Scalar)} (less : ∀ e ∈ l, e.1 < name) :
    insertEntry name values l = l ++ [(name, values)] := by
  induction l with
  | nil => rfl
  | cons e rest ih =>
    have first := less e List.mem_cons_self
    rw [insertEntry, if_neg (String.lt_asymm first), if_neg (by grind),
      ih fun d hd => less d (List.mem_cons_of_mem _ hd), List.cons_append]

theorem entries_insertAll {p : Parameters} {entries : List (String × Array Scalar)}
    (ascending : (p.entries ++ entries).Pairwise fun a b => a.1 < b.1) :
    (p.insertAll entries).entries = p.entries ++ entries := by
  induction entries generalizing p with
  | nil => exact p.entries.append_nil.symm
  | cons e rest ih =>
    have less : ∀ d ∈ p.entries, d.1 < e.1 := fun d hd =>
      (List.pairwise_append.1 ascending).2.2 d hd e List.mem_cons_self
    have last : (p.insert e.1 e.2).entries = p.entries ++ [e] := insertEntry_last less
    have others := ih (p := p.insert e.1 e.2) (by
      rw [last, List.append_assoc]
      exact ascending)
    rw [last, List.append_assoc] at others
    exact others

/-- Parameters are made of their entries. -/
theorem ofList_entries (p : Parameters) : ofList p.entries = p :=
  Parameters.ext (entries_insertAll p.ascending)

theorem lossless {p : Parameters} (finite : p.Finite) : Json.Lossless json ofJson? p := by
  have each (e) (he : e ∈ p.entries) := Json.lossless_scalars (finite e he)
  refine ⟨Json.proper_record fun m hm => ?_, ?_⟩
  · obtain ⟨e, he, rfl⟩ := List.mem_map.1 hm
    exact (each e he).proper
  · have entries : (p.entries.map fun e => (e.1, Json.Value.scalars e.2)).mapM
        (fun m => do pure (m.1, ← m.2.scalars?)) = some p.entries := by
      have read (e) (he : e ∈ p.entries) :
          (do pure (e.1, ← (Json.Value.scalars e.2).scalars?) : Option _) = some (id e) := by
        rw [(each e he).read]
        rfl
      exact (mapM_map_eq_some read).trans (congrArg some p.entries.map_id)
    rw [ofJson?, json, Json.members?_record, Option.bind_eq_bind, Option.bind_some,
      Option.bind_eq_bind]
    exact (congrArg (Option.bind · fun entries => some (ofList entries)) entries).trans
      (congrArg some p.ofList_entries)

end Parameters

/-! ## Graphs -/

namespace GraphDocument

/-- Every feature is finite, and the ends of edges are counts. -/
structure Storable (d : GraphDocument) : Prop where
  nodes : ∀ row ∈ d.nodes, ∀ x ∈ row, x.isFinite = true
  edges : ∀ row ∈ d.edges, ∀ x ∈ row, x.isFinite = true
  globals : ∀ x ∈ d.globals, x.isFinite = true
  senders : ∀ n ∈ d.senders, n < limit
  receivers : ∀ n ∈ d.receivers, n < limit

theorem fields?_json (d : GraphDocument) :
    d.json.fields? ["nodes", "edges", "globals", "senders", "receivers"] =
      some [some (.array (d.nodes.map .scalars)), some (.array (d.edges.map .scalars)),
        some (.scalars d.globals), some (.counts d.senders.toList),
        some (.counts d.receivers.toList)] :=
  Json.fields?_record [("nodes", .array (d.nodes.map .scalars)),
    ("edges", .array (d.edges.map .scalars)), ("globals", .scalars d.globals),
    ("senders", .counts d.senders.toList), ("receivers", .counts d.receivers.toList)] (by simp)

theorem lossless {d : GraphDocument} (storable : d.Storable) : Json.Lossless json ofJson? d := by
  have nodes := Json.lossless_list fun row hrow => Json.lossless_scalars (storable.nodes row hrow)
  have edges := Json.lossless_list fun row hrow => Json.lossless_scalars (storable.edges row hrow)
  have globals := Json.lossless_scalars storable.globals
  have senders := Json.lossless_list fun n hn =>
    Json.lossless_count (storable.senders n (Array.mem_def.2 hn))
  have receivers := Json.lossless_list fun n hn =>
    Json.lossless_count (storable.receivers n (Array.mem_def.2 hn))
  refine ⟨Json.proper_record ?_, ?_⟩
  · simp only [List.forall_mem_cons, List.not_mem_nil, false_imp_iff, implies_true, and_true]
    exact ⟨nodes.proper, edges.proper, globals.proper, senders.proper, receivers.proper⟩
  · rw [ofJson?, fields?_json]
    simp only [Option.bind_eq_bind, Option.bind_some, Json.required, Json.Value.counts, nodes.read,
      edges.read, globals.read, senders.read, receivers.read]
    rfl

end GraphDocument

/-! ## Stored texts -/

namespace CommandLine

/-- **Stored texts lose nothing**: parameters with finite values are read back from their text as
    they are, bit for bit, and so are graphs with finite features. -/
theorem read_written :
    (∀ p : Parameters, p.Finite → parametersOfText? p.json.compact = some p) ∧
    ∀ d : GraphDocument, d.Storable → GraphDocument.ofText? d.json.compact = some d :=
  ⟨fun _ finite => (Parameters.lossless finite).ofText?,
    fun _ storable => (GraphDocument.lossless storable).ofText?⟩

/-- Negative zero, the least and the greatest magnitude, and a scalar whose decimal is very near to
    the end of its interval. -/
def extremes : Array Scalar := #[⟨0x80000000⟩, ⟨1⟩, ⟨0xFF7FFFFF⟩, ⟨0x15AE43FD⟩]

/-- Tensors, one under a name that has to be escaped. -/
def escapedTensors : Parameters :=
  .ofList [("a \"quoted\"\n\x01 name", extremes), ("", #[]), ("ü", #[⟨0x3DCCCCCD⟩])]

/-- A graph without edge features. -/
def extremeGraph : GraphDocument := ⟨[extremes, #[]], [#[]], extremes, #[0], #[1]⟩

/-- They are read back from their texts. -/
theorem read_written_extremes :
    parametersOfText? escapedTensors.json.compact = some escapedTensors ∧
    GraphDocument.ofText? extremeGraph.json.compact = some extremeGraph := by
  have finite : escapedTensors.Finite := by
    unfold Parameters.Finite
    decide +kernel
  exact ⟨read_written.1 _ finite, read_written.2 _ ⟨by decide, by decide, by decide, by decide,
    by decide⟩⟩

end CommandLine

end MessagePassing
