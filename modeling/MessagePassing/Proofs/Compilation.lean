/-
  Message passing — what compiling accepts and what it binds.

  `Description.checks` are the conditions of compiling, in the order in which they are
  looked at.

  * `block_decided`: where the counts of a description fit, compiling gives the error
    of the first check that fails, and a model iff none does;
  * `block_eq_ok`: a compiled block is made of functions that hold exactly the declared
    tensors (`UpdateDeclaration.Realizes`), whether or not anything is known to fit.
-/
import MessagePassing.Model
import MessagePassing.Proofs.Binding

namespace MessagePassing

/-! ## Tags -/

theorem UpdateKind.ofTag_eq (tag : String) :
    UpdateKind.ofTag tag = if tag = "mlp" then .ok .mlp else refuseTag (.updateFunction tag) := by
  by_cases h : tag = "mlp"
  · subst h; rfl
  · have other : ¬ "mlp" = tag := fun e => h e.symm
    simp [ofTag, Tagged.ofTag?, Tagged.values, Tagged.tag, h, other]

namespace Activation

/-- The tags of activations. -/
def names : List String := ["identity", "linear", "relu", "sigmoid"]

theorem ofTag_of_mem {tag : String} (h : tag ∈ names) : ∃ a, ofTag tag = .ok a := by
  simp only [names, List.mem_cons, List.not_mem_nil, or_false] at h
  rcases h with rfl | rfl | rfl | rfl
  · exact ⟨identity, rfl⟩
  · exact ⟨identity, rfl⟩
  · exact ⟨relu, rfl⟩
  · exact ⟨sigmoid, rfl⟩

theorem ofTag_of_not_mem {tag : String} (h : tag ∉ names) :
    ofTag tag = refuseTag (.activation tag) := by
  simp only [names, List.mem_cons, List.not_mem_nil, or_false, not_or] at h
  obtain ⟨h₁, h₂, h₃, h₄⟩ := h
  simp [ofTag, Tagged.ofTag?, Tagged.values, Tagged.tag, h₂, Ne.symm h₁, Ne.symm h₃, Ne.symm h₄]

end Activation

namespace Reducer

/-- The tags of reducers. -/
def names : List String := ["sum", "mean"]

/-- The tag names a reducer. -/
def tagCheck (tag : String) : Check := ⟨tag ∈ names, .unsupported (.aggregator tag)⟩

theorem ofTag_decided (tag : String) : DecidedBy (ofTag tag) [tagCheck tag] := by
  by_cases h : tag ∈ names
  · have known : ∃ r, ofTag tag = .ok r := by
      simp only [names, List.mem_cons, List.not_mem_nil, or_false] at h
      rcases h with rfl | rfl
      · exact ⟨sum, rfl⟩
      · exact ⟨mean, rfl⟩
    obtain ⟨r, hr⟩ := known
    exact .single (fun _ => hr) fun fails => absurd h fails
  · refine .single (a := sum) (fun holds => absurd holds h) fun _ => ?_
    simp only [names, List.mem_cons, List.not_mem_nil, or_false, not_or] at h
    simp [ofTag, Tagged.ofTag?, Tagged.values, Tagged.tag, Ne.symm h.1, Ne.symm h.2, refuseTag,
      tagCheck]

end Reducer

/-! ## Adjacency -/

/-- Every endpoint is a node. -/
def endpointChecks (nodes : Nat) (role : String) (endpoints : Array Nat) : List Check :=
  endpoints.toList.zipIdx.map fun e => ⟨e.1 < nodes, .adjacency (.endpoint e.2 role e.1 nodes)⟩

theorem verdict_endpointChecks (nodes : Nat) (role : String) (endpoints : Array Nat) :
    verdict (endpointChecks nodes role endpoints) = match strayEndpoint? nodes endpoints with
      | some (node, edge) => refuseAdjacency (.endpoint edge role node nodes)
      | none => .ok () := by
  rw [endpointChecks, verdict_map_of_find? (fun e => decide (nodes ≤ e.1)) _ (by simp),
    strayEndpoint?, ← Array.find?_toList, Array.toList_zipIdx]
  cases endpoints.toList.zipIdx.find? fun e => decide (nodes ≤ e.1) with
  | none => rfl
  | some e => rfl

theorem checkAdjacency_decided (nodes : Nat) (senders receivers : Array Nat) :
    DecidedBy (checkAdjacency nodes senders receivers)
      (endpointChecks nodes "sender" senders ++ endpointChecks nodes "receiver" receivers) := by
  show (checkAdjacency nodes senders receivers).map (fun _ => ()) = _
  rw [verdict_append, verdict_endpointChecks, verdict_endpointChecks, checkAdjacency]
  cases strayEndpoint? nodes senders with
  | some e => rfl
  | none =>
    cases strayEndpoint? nodes receivers with
    | some e => rfl
    | none => rfl

/-! ## Update declarations -/

namespace UpdateDeclaration

/-- The kind and the activation are known, and there are layers, none without output. -/
def checks (u : UpdateDeclaration) : List Check :=
  ⟨u.kind = "mlp", .unsupported (.updateFunction u.kind)⟩ ::
  ⟨u.activation ∈ Activation.names, .unsupported (.activation u.activation)⟩ ::
  ⟨u.layerSizes ≠ [], .shape (.noLayer u.module)⟩ ::
  u.layerSizes.zipIdx.map fun size => ⟨0 < size.1, .shape (.emptyLayer size.2 u.module)⟩

theorem check_decided (u : UpdateDeclaration) : DecidedBy u.check u.checks := by
  show u.check.map (fun _ => ()) = verdict u.checks
  rw [check, checks, verdict, UpdateKind.ofTag_eq]
  by_cases kind : u.kind = "mlp"
  · rw [if_pos kind, if_pos kind, Outcome.ok_bind, verdict]
    by_cases activation : u.activation ∈ Activation.names
    · obtain ⟨a, ha⟩ := Activation.ofTag_of_mem activation
      rw [ha, Outcome.ok_bind, if_pos activation, verdict]
      by_cases none : u.layerSizes = []
      · rw [if_pos none, if_neg fun h => h none]
        rfl
      · rw [if_neg none, if_pos none, verdict_map_zipIdx (fun i => .shape (.emptyLayer i u.module))
          (fun n => decide (n = 0)) (fun size => by simp [Nat.pos_iff_ne_zero]) (fun _ => rfl)]
        cases u.layerSizes.findIdx? fun n => decide (n = 0) with
        | none => rfl
        | some i => simp [refuseShape, Except.map]
    · rw [Activation.ofTag_of_not_mem activation, if_neg activation]
      rfl
  · rw [if_neg kind, if_neg kind]
    rfl

theorem check_eq_ok {u : UpdateDeclaration} {c : CheckedUpdate} (h : u.check = .ok c) :
    c.declaration = u ∧ Activation.ofTag u.activation = .ok c.activation ∧
      u.layerSizes ≠ [] ∧ ∀ n ∈ u.layerSizes, 0 < n := by
  have holds := u.check_decided.ok_iff.1 ⟨c, h⟩
  have nonempty : u.layerSizes ≠ [] :=
    holds ⟨u.layerSizes ≠ [], .shape (.noLayer u.module)⟩ (by simp [checks])
  rw [check] at h
  obtain ⟨kind, -, h⟩ := Outcome.bind_eq_ok.1 h
  obtain ⟨activation, ha, h⟩ := Outcome.bind_eq_ok.1 h
  rw [if_neg nonempty] at h
  split at h
  · cases h
  · rename_i none
    cases h
    refine ⟨rfl, ha, nonempty, fun n hn => ?_⟩
    have := List.findIdx?_eq_none_iff.1 none n hn
    simpa [Nat.pos_iff_ne_zero] using this

/-- A perceptron that computes what the declaration says with the tensors of its
    module, for rows of `input` features. -/
structure Realizes (u : UpdateDeclaration) (p : Parameters) (input : Nat) (P : Perceptron) :
    Prop where
  nonempty : u.layerSizes ≠ []
  positive : ∀ n ∈ u.layerSizes, 0 < n
  activation : Activation.ofTag u.activation = .ok P.activation
  activateFinal : P.activateFinal = u.activateFinal
  layers : BoundLayers p u.module u.weightLayout 0 input u.layerSizes P.layers

namespace Realizes

variable {u : UpdateDeclaration} {p : Parameters} {input : Nat} {P : Perceptron}

theorem inputWidth_eq (h : u.Realizes p input P) : P.inputWidth = input :=
  Perceptron.inputWidth_of_bound h.layers

theorem outputWidth_eq (h : u.Realizes p input P) : P.outputWidth = u.outputWidth := by
  rw [outputWidth, outputWidth?, Perceptron.outputWidth_of_bound h.layers]
  rfl

end Realizes

theorem bind_check_decided {u : UpdateDeclaration} {c : CheckedUpdate} {p q : Parameters}
    {taken : List String} {input : Nat} (hc : u.check = .ok c)
    (fits : LayersFit input u.layerSizes) (left : p.Remaining taken q) :
    DecidedBy (c.bind input q).1
      (Slot.listChecks p taken (layerSlots u.module 0 input u.layerSizes)) := by
  obtain ⟨rfl, -, nonempty, -⟩ := check_eq_ok hc
  exact Perceptron.bind_decided nonempty fits left

theorem bind_check_eq_ok {u : UpdateDeclaration} {c : CheckedUpdate} {p q r : Parameters}
    {taken : List String} {input : Nat} {P : Perceptron} (hc : u.check = .ok c)
    (left : p.Remaining taken q) (run : c.bind input q = (.ok P, r)) :
    u.Realizes p input P ∧
      p.Remaining (taken ++ (layerSlots u.module 0 input u.layerSizes).map (·.name)) r := by
  obtain ⟨rfl, activation, nonempty, positive⟩ := check_eq_ok hc
  obtain ⟨layers, hact, hfinal, left'⟩ := Perceptron.bound_of_bind left run
  exact ⟨⟨nonempty, positive, hact ▸ activation, hfinal, layers⟩, left'⟩

end UpdateDeclaration

/-! ## Row widths -/

/-- Every update function has an input block. -/
def Wiring.Connected (w : Wiring) : Prop := w.edge ≠ [] ∧ w.node ≠ [] ∧ w.global ≠ []

instance (w : Wiring) : Decidable w.Connected := inferInstanceAs (Decidable (_ ∧ _ ∧ _))

namespace Description

open MessagePassing.Count (within limit total)

/-- The widths of the rows that the update functions read. -/
def rowWidths (d : Description) : PerUpdate Nat :=
  match d.architecture with
  | .graphIndependent => ⟨d.inputWidths.edges, d.inputWidths.nodes, d.inputWidths.globals⟩
  | .graphNetwork =>
    let edgeOut := d.updates.edge.outputWidth
    let nodeOut := d.updates.node.outputWidth
    ⟨total (d.wiring.edge.map (Wiring.edgeBlock d.inputWidths)),
      total (d.wiring.node.map (Wiring.nodeBlock d.inputWidths edgeOut)),
      total (d.wiring.global.map (Wiring.globalBlock d.inputWidths nodeOut edgeOut))⟩

/-- The widths of the rows that a network puts together are counts. -/
def RowsFit (d : Description) : Prop :=
  d.architecture = .graphNetwork →
    d.rowWidths.edge < limit ∧ d.rowWidths.node < limit ∧ d.rowWidths.global < limit

instance (d : Description) : Decidable d.RowsFit := inferInstanceAs (Decidable (_ → _))

theorem updateInputWidths_eq (d : Description) :
    d.updateInputWidths = within d.RowsFit d.rowWidths := by
  cases architecture : d.architecture with
  | graphIndependent =>
    have fit : d.RowsFit := fun network => by rw [architecture] at network; cases network
    rw [Count.within_of_fits fit, updateInputWidths, rowWidths, architecture]
  | graphNetwork =>
    have sums : d.updateInputWidths = within (d.rowWidths.edge < limit ∧
        d.rowWidths.node < limit ∧ d.rowWidths.global < limit) d.rowWidths := by
      simp only [updateInputWidths, rowWidths, architecture, Wiring.edgeWidth,
        Wiring.nodeWidth, Wiring.globalWidth, Count.sum_eq_within]
      exact Count.within_bind_within (Count.within_bind_within Count.within_bind_pure)
    rw [sums]
    exact Count.within_congr (by simp [RowsFit, architecture]) rfl

/-- All counts of a description fit: the row widths and the numbers of weights. -/
structure Fits (d : Description) : Prop where
  rows : d.RowsFit
  edge : LayersFit d.rowWidths.edge d.updates.edge.layerSizes
  node : LayersFit d.rowWidths.node d.updates.node.layerSizes
  global : LayersFit d.rowWidths.global d.updates.global.layerSizes

/-! ## The checks of compiling -/

/-- The slots of the three update functions, in the order in which they are taken. -/
def slots (d : Description) : List Slot :=
  layerSlots d.updates.edge.module 0 d.rowWidths.edge d.updates.edge.layerSizes ++
  (layerSlots d.updates.node.module 0 d.rowWidths.node d.updates.node.layerSizes ++
  layerSlots d.updates.global.module 0 d.rowWidths.global d.updates.global.layerSizes)

/-- What compiling looks at, in order. -/
def checks (d : Description) (p : Parameters) : List Check :=
  [⟨d.inputWidths.Positive, .shape (.zeroWidth d.inputWidths)⟩] ++
  ((endpointChecks d.nodeCount "sender" d.senders ++
    endpointChecks d.nodeCount "receiver" d.receivers) ++
  ((d.updates.edge.checks ++ (d.updates.node.checks ++ d.updates.global.checks)) ++
  (([Reducer.tagCheck d.reducers.edgeNode] ++ ([Reducer.tagCheck d.reducers.nodeGlobal] ++
    [Reducer.tagCheck d.reducers.edgeGlobal])) ++
  ([⟨d.architecture = .graphNetwork → d.wiring.Connected, .shape .noInputBlock⟩] ++
  Slot.listChecks p [] d.slots))))

theorem checkWidths_decided (d : Description) :
    DecidedBy d.checkWidths [⟨d.inputWidths.Positive, .shape (.zeroWidth d.inputWidths)⟩] :=
  .single (a := ()) (fun positive => if_pos positive) fun zero => if_neg zero

theorem checkUpdates_decided (d : Description) :
    DecidedBy d.checkUpdates
      (d.updates.edge.checks ++ (d.updates.node.checks ++ d.updates.global.checks)) :=
  d.updates.edge.check_decided.bind fun _ _ =>
    d.updates.node.check_decided.bind fun _ _ =>
      d.updates.global.check_decided.bind_ok fun _ _ => ⟨_, rfl⟩

theorem checkUpdates_eq_ok {d : Description} {us : PerUpdate CheckedUpdate}
    (h : d.checkUpdates = .ok us) :
    d.updates.edge.check = .ok us.edge ∧ d.updates.node.check = .ok us.node ∧
      d.updates.global.check = .ok us.global := by
  obtain ⟨e, he, h⟩ := Outcome.bind_eq_ok.1 h
  obtain ⟨n, hn, h⟩ := Outcome.bind_eq_ok.1 h
  obtain ⟨g, hg, h⟩ := Outcome.bind_eq_ok.1 h
  cases h
  exact ⟨he, hn, hg⟩

theorem checkReducers_decided (d : Description) :
    DecidedBy d.checkReducers
      ([Reducer.tagCheck d.reducers.edgeNode] ++ ([Reducer.tagCheck d.reducers.nodeGlobal] ++
        [Reducer.tagCheck d.reducers.edgeGlobal])) :=
  (Reducer.ofTag_decided _).bind fun _ _ =>
    (Reducer.ofTag_decided _).bind fun _ _ =>
      (Reducer.ofTag_decided _).bind_ok fun _ _ => ⟨_, rfl⟩

theorem checkWiring_decided (d : Description) :
    DecidedBy d.checkWiring
      [⟨d.architecture = .graphNetwork → d.wiring.Connected, .shape .noInputBlock⟩] := by
  refine .single (a := ()) (fun connected => ?_) fun fails => ?_
  · cases architecture : d.architecture with
    | graphIndependent => rw [checkWiring, architecture]
    | graphNetwork =>
      obtain ⟨he, hn, hg⟩ := connected architecture
      simp only [checkWiring, architecture, Wiring.check, he, hn, hg, or_self, if_false]
  · obtain ⟨architecture, unconnected⟩ := Classical.not_imp.1 fails
    have missing : d.wiring.edge = [] ∨ d.wiring.node = [] ∨ d.wiring.global = [] := by
      simpa only [Wiring.Connected, ne_eq, Decidable.not_and_iff_not_or_not,
        Decidable.not_not] using unconnected
    simp only [checkWiring, architecture, Wiring.check, if_pos missing]
    rfl

/-- The update functions of checked declarations are decided by the slots that are left. -/
theorem bindUpdates_decided {d : Description} {p : Parameters} {us : PerUpdate CheckedUpdate}
    (hus : d.checkUpdates = .ok us) (fits : d.Fits) :
    DecidedBy (bindUpdates us d.rowWidths p).1 (Slot.listChecks p [] d.slots) := by
  obtain ⟨he, hn, hg⟩ := checkUpdates_eq_ok hus
  rw [slots, Slot.listChecks_append, Slot.listChecks_append, bindUpdates]
  refine Binding.bind_decided
    (UpdateDeclaration.bind_check_decided he fits.edge p.remaining_self) fun E q₁ hE => ?_
  obtain ⟨-, left₁⟩ := UpdateDeclaration.bind_check_eq_ok he p.remaining_self hE
  refine Binding.bind_decided
    (UpdateDeclaration.bind_check_decided hn fits.node left₁) fun N q₂ hN => ?_
  obtain ⟨-, left₂⟩ := UpdateDeclaration.bind_check_eq_ok hn left₁ hN
  rw [← List.append_nil (Slot.listChecks p _ _)]
  exact Binding.bind_decided
    (UpdateDeclaration.bind_check_decided hg fits.global left₂) fun _ _ _ => .ok _

theorem block_decided (d : Description) (name : String) (p : Parameters) (fits : d.Fits) :
    DecidedBy (d.block name p) (d.checks p) := by
  refine d.checkWidths_decided.bind fun _ _ => ?_
  refine (checkAdjacency_decided d.nodeCount d.senders d.receivers).bind fun _ _ => ?_
  refine d.checkUpdates_decided.bind fun us hus => ?_
  refine d.checkReducers_decided.bind fun rs _ => ?_
  refine d.checkWiring_decided.bind fun _ _ => ?_
  rw [updateInputWidths_eq, Count.within_of_fits fits.rows, Outcome.ok_bind]
  exact (bindUpdates_decided hus fits).bind_ok fun _ _ => ⟨_, rfl⟩

/-- **Compiling is decided by the checks in their order.** -/
theorem compile_decided (d : Description) (p : Parameters) (rename : Option String)
    (withProgram : Bool) (fits : d.Fits) :
    DecidedBy (d.compile p rename withProgram) (d.checks p) :=
  (d.block_decided _ p fits).bind_ok fun _ _ => ⟨_, rfl⟩

/-! ## What a compiled block is made of -/

/-- Functions that compute what the three declarations say. -/
structure Realizes (d : Description) (p : Parameters) (bound : PerUpdate Perceptron) : Prop where
  edge : d.updates.edge.Realizes p d.rowWidths.edge bound.edge
  node : d.updates.node.Realizes p d.rowWidths.node bound.node
  global : d.updates.global.Realizes p d.rowWidths.global bound.global

theorem bindUpdates_eq_ok {d : Description} {p r : Parameters} {us : PerUpdate CheckedUpdate}
    {bound : PerUpdate Perceptron} (hus : d.checkUpdates = .ok us)
    (run : bindUpdates us d.rowWidths p = (.ok bound, r)) : d.Realizes p bound := by
  obtain ⟨he, hn, hg⟩ := checkUpdates_eq_ok hus
  rw [bindUpdates] at run
  obtain ⟨E, q₁, hE, run⟩ := Binding.bind_eq_ok.1 run
  obtain ⟨edge, left₁⟩ := UpdateDeclaration.bind_check_eq_ok he p.remaining_self hE
  obtain ⟨N, q₂, hN, run⟩ := Binding.bind_eq_ok.1 run
  obtain ⟨node, left₂⟩ := UpdateDeclaration.bind_check_eq_ok hn left₁ hN
  obtain ⟨G, q₃, hG, run⟩ := Binding.bind_eq_ok.1 run
  obtain ⟨global, -⟩ := UpdateDeclaration.bind_check_eq_ok hg left₂ hG
  cases run
  exact ⟨edge, node, global⟩

/-- A block that is made of what a description declares. -/
structure Assembles (d : Description) (p : Parameters) (name : String) (b : Block) : Prop where
  positive : d.inputWidths.Positive
  adjacency : d.checkAdjacency = .ok ()
  connected : d.architecture = .graphNetwork → d.wiring.Connected
  fit : d.RowsFit
  updates : d.Realizes p b.updates
  network : d.architecture = .graphNetwork → ∃ n, b = .network n ∧ n.name = name ∧
    d.checkReducers = .ok n.reducers ∧ n.wiring = d.wiring ∧ n.inputWidths = d.inputWidths
  independent : d.architecture = .graphIndependent → ∃ i, b = .independent i ∧ i.name = name

/-- **A compiled block is made of what its description declares.** -/
theorem block_eq_ok {d : Description} {name : String} {p : Parameters} {b : Block}
    (h : d.block name p = .ok b) : d.Assembles p name b := by
  rw [block] at h
  obtain ⟨⟨⟩, widths, h⟩ := Outcome.bind_eq_ok.1 h
  obtain ⟨⟨⟩, adjacency, h⟩ := Outcome.bind_eq_ok.1 h
  obtain ⟨us, hus, h⟩ := Outcome.bind_eq_ok.1 h
  obtain ⟨reducers, hreducers, h⟩ := Outcome.bind_eq_ok.1 h
  obtain ⟨⟨⟩, wiring, h⟩ := Outcome.bind_eq_ok.1 h
  obtain ⟨inputs, hinputs, h⟩ := Outcome.bind_eq_ok.1 h
  obtain ⟨bound, hbound, h⟩ := Outcome.bind_eq_ok.1 h
  rw [updateInputWidths_eq] at hinputs
  obtain ⟨fit, same⟩ := Count.within_eq_ok.1 hinputs
  rw [← same] at hbound
  have updates : d.Realizes p bound := bindUpdates_eq_ok hus (Prod.ext hbound rfl)
  have positive := d.checkWidths_decided.ok_iff.1 ⟨_, widths⟩ _ List.mem_cons_self
  have connected := d.checkWiring_decided.ok_iff.1 ⟨_, wiring⟩ _ List.mem_cons_self
  cases h
  cases architecture : d.architecture with
  | graphNetwork =>
    exact ⟨positive, adjacency, connected, fit, updates,
      fun _ => ⟨_, rfl, rfl, hreducers, rfl, rfl⟩,
      fun independent => by rw [architecture] at independent; cases independent⟩
  | graphIndependent =>
    exact ⟨positive, adjacency, connected, fit, updates,
      fun network => (by rw [architecture] at network; cases network), fun _ => ⟨_, rfl, rfl⟩⟩

theorem compile_eq_ok {d : Description} {p : Parameters} {rename : Option String}
    {withProgram : Bool} {m : Model} (h : d.compile p rename withProgram = .ok m) :
    m.name = Identifier.ofName (rename.getD d.name) ∧ d.Assembles p m.name m.block ∧
      m.program = if withProgram then some (d.program m.name m.block) else none := by
  rw [compile] at h
  generalize Identifier.ofName (rename.getD d.name) = name at h ⊢
  obtain ⟨b, hb, made⟩ := Outcome.bind_eq_ok.1 h
  cases made
  exact ⟨rfl, block_eq_ok hb, rfl⟩

theorem program_name (d : Description) (name : String) (b : Block) :
    (d.program name b).name = name := by
  cases b with
  | network n => rfl
  | independent i => rfl

end Description

/-! ## Compiled models -/

/-- The description compiles to the model, with some tensors. -/
def Model.CompiledFrom (m : Model) (d : Description) : Prop :=
  ∃ (p : Parameters) (rename : Option String) (withProgram : Bool),
    d.compile p rename withProgram = .ok m

/-- Some description compiles to the model. -/
def Model.Compiled (m : Model) : Prop := ∃ d, m.CompiledFrom d

/-- The program of a compiled model. -/
def Program.Compiled (q : Program) : Prop := ∃ m : Model, m.Compiled ∧ m.program = some q

/-- A compiled model with a program was compiled to one, and it is that of its block. -/
theorem Model.CompiledFrom.program_eq {m : Model} {d : Description} {q : Program}
    (h : m.CompiledFrom d) (hq : m.program = some q) :
    (∃ p rename, d.compile p rename true = .ok m) ∧ q = d.program m.name m.block := by
  obtain ⟨p, rename, withProgram, compiled⟩ := h
  obtain ⟨-, -, program⟩ := Description.compile_eq_ok compiled
  rw [hq] at program
  cases withProgram with
  | false => cases program
  | true => exact ⟨⟨p, rename, compiled⟩, Option.some.inj program⟩

theorem Program.Compiled.exists_name {q : Program} (h : q.Compiled) :
    ∃ name, q.name = Identifier.ofName name := by
  obtain ⟨m, ⟨d, compiled⟩, hq⟩ := h
  obtain ⟨⟨p, rename, run⟩, rfl⟩ := compiled.program_eq hq
  obtain ⟨named, -, -⟩ := Description.compile_eq_ok run
  exact ⟨_, (d.program_name m.name m.block).trans named⟩

end MessagePassing
