/-
  Message passing — what a session holds.

  Only the construction of a state looks at its graph.  All else gives new features to a graph
  that is there already, and inference in place does so write by write: the graph stays even if
  a write fails, and a refusal comes before the first one.

  * `State.ofParts_answers`: construction accepts exactly the data that make up a state;
  * `Component.sameGraph_inferInPlace`, `Component.Built.inferInPlace_refused`: inference in
    place;
  * `Call.Sound.effect`: all that a call can do;
  * `Call.performAll_rooted`: every held state has the graph of a constructed one;
  * `Call.held_coherent`: what any sequence of calls holds, and what the next call does to it.
-/
import MessagePassing.Proofs.Recurrence

namespace MessagePassing

/-! ## Construction -/

/-- One row per edge, one global row, and edges between nodes. -/
structure Coherent (nodes edges globals : Buffer) (senders receivers : Array Nat) : Prop where
  size_senders : senders.size = edges.rows
  size_receivers : receivers.size = edges.rows
  rows_globals : globals.rows = 1
  sender_lt : ∀ n ∈ senders, n < nodes.rows
  receiver_lt : ∀ n ∈ receivers, n < nodes.rows

theorem checkAdjacency_eq_ok {nodes : Nat} {senders receivers : Array Nat} :
    checkAdjacency nodes senders receivers = .ok () ↔
      (∀ n ∈ senders, n < nodes) ∧ ∀ n ∈ receivers, n < nodes := by
  rw [← @forall_endpointChecks nodes "sender" senders,
    ← @forall_endpointChecks nodes "receiver" receivers, ← List.forall_mem_append,
    ← (checkAdjacency_decided nodes senders receivers).ok_iff]
  constructor
  · intro h
    exact ⟨(), h⟩
  · rintro ⟨⟨⟩, h⟩
    exact h

namespace State

variable {s t : State} {nodes edges globals : Buffer} {senders receivers : Array Nat}

theorem coherent (s : State) : Coherent s.nodes s.edges s.globals s.senders s.receivers :=
  ⟨s.size_senders, s.size_receivers, s.rows_globals, s.sender_lt, s.receiver_lt⟩

theorem ofParts_self (s : State) :
    ofParts s.nodes s.edges s.globals s.senders s.receivers = .ok s := by
  have adjacency := checkAdjacency_eq_ok.2 ⟨s.sender_lt, s.receiver_lt⟩
  rw [ofParts, dif_neg (by simp [s.size_senders, s.size_receivers]),
    dif_neg (by simp [s.size_senders]), dif_neg (by simp [s.rows_globals])]
  split
  · rename_i failure refused
    rw [adjacency] at refused
    cases refused
  · rfl

theorem ofParts_eq_ok : ofParts nodes edges globals senders receivers = .ok s ↔
    s.nodes = nodes ∧ s.edges = edges ∧ s.globals = globals ∧ s.senders = senders ∧
      s.receivers = receivers := by
  constructor
  · intro made
    rw [ofParts] at made
    split at made
    · cases made
    · split at made
      · cases made
      · split at made
        · cases made
        · split at made
          · cases made
          · cases made
            exact ⟨rfl, rfl, rfl, rfl, rfl⟩
  · rintro ⟨rfl, rfl, rfl, rfl, rfl⟩
    exact ofParts_self s

/-- **Construction accepts exactly the data that make up a state.** -/
theorem ofParts_answers : (∃ s, ofParts nodes edges globals senders receivers = .ok s) ↔
    Coherent nodes edges globals senders receivers := by
  constructor
  · rintro ⟨s, made⟩
    obtain ⟨rfl, rfl, rfl, rfl, rfl⟩ := ofParts_eq_ok.1 made
    exact s.coherent
  · intro h
    exact ⟨_, ofParts_self ⟨nodes, edges, globals, senders, receivers, h.size_senders,
      h.size_receivers, h.rows_globals, h.sender_lt, h.receiver_lt⟩⟩

/-! ## New features on a graph -/

/-- An operation that gives states of the graph of `s` only. -/
def Keeps (s : State) (x : Outcome State) : Prop := ∀ t, x = .ok t → s.SameGraph t

theorem keeps_pure (same : s.SameGraph t) : s.Keeps (pure t) := by
  rintro u ⟨⟩
  exact same

theorem keeps_bind {α : Type} {x : Outcome α} {f : α → Outcome State}
    (h : ∀ a, s.Keeps (f a)) : s.Keeps (x >>= f) := by
  intro t run
  obtain ⟨a, -, run⟩ := Outcome.bind_eq_ok.1 run
  exact h a t run

theorem sameGraph_withFeatures (nodes : Buffer.Table s.nodes.rows)
    (edges : Buffer.Table s.edges.rows) (globals : Buffer.Table 1) :
    s.SameGraph (s.withFeatures nodes edges globals) :=
  ⟨nodes.property, edges.property, rfl, rfl⟩

theorem keeps_sliceFeatures (nodes edges globals : Nat × Nat) :
    s.Keeps (s.sliceFeatures nodes edges globals) :=
  keeps_bind fun _ => keeps_bind fun _ => keeps_bind fun _ =>
    keeps_pure (sameGraph_withFeatures _ _ _)

theorem sameGraph_of_split {cut : Widths} {head tail : State}
    (run : s.split cut = .ok (head, tail)) : s.SameGraph head ∧ s.SameGraph tail := by
  obtain ⟨h, slice, run⟩ := Outcome.bind_eq_ok.1 run
  obtain ⟨t, slice', run⟩ := Outcome.bind_eq_ok.1 run
  cases run
  exact ⟨keeps_sliceFeatures _ _ _ _ slice, keeps_sliceFeatures _ _ _ _ slice'⟩

end State

/-! ## Inference in place -/

namespace State

variable {s : State} {writes : List (State → Outcome State)}

/-- The writes in order, none of which may fail. -/
def allWrites (s : State) (writes : List (State → Outcome State)) : Outcome State :=
  writes.foldlM (fun s write => write s) s

theorem allWrites_eq_rewrite (s : State) (writes : List (State → Outcome State)) :
    s.allWrites writes = (s.rewrite writes).2.elim (.ok (s.rewrite writes).1) .error := by
  induction writes generalizing s with
  | nil => rfl
  | cons write rest ih =>
    rw [allWrites, List.foldlM_cons, rewrite]
    cases write s with
    | error failure => rfl
    | ok t => exact ih t

/-- Writes in place keep the graph, also those before one that fails. -/
theorem sameGraph_rewrite (keeps : ∀ write ∈ writes, ∀ t : State, t.Keeps (write t)) :
    s.SameGraph (s.rewrite writes).1 := by
  induction writes generalizing s with
  | nil => exact .refl s
  | cons write rest ih =>
    obtain ⟨first, others⟩ := List.forall_mem_cons.1 keeps
    rw [rewrite]
    cases run : write s with
    | error failure => exact .refl s
    | ok t => exact (first s t run).trans (ih others)

end State

namespace Block

open State (keeps_bind keeps_pure sameGraph_withFeatures)

variable {b : Block} {write : State → Outcome State}

theorem allWrites_eq (b : Block) (s : State) : s.allWrites b.writes = b.infer s := by
  cases b with
  | network n => simp [State.allWrites, writes, infer, Network.infer]
  | independent b =>
    simp only [State.allWrites, writes, infer, Independent.infer, List.foldlM_cons,
      List.foldlM_nil, Independent.updateEdges, Independent.updateNodes,
      Independent.updateGlobals, bind_assoc, pure_bind, bind_pure]
    rfl

theorem keeps_of_mem_writes (hw : write ∈ b.writes) (s : State) : s.Keeps (write s) := by
  cases b with
  | network n =>
    simp only [writes, List.mem_cons, List.not_mem_nil, or_false] at hw
    rcases hw with rfl | rfl | rfl
    · exact keeps_bind fun _ => keeps_bind fun _ => keeps_bind fun _ =>
        keeps_pure (sameGraph_withFeatures _ _ _)
    · exact keeps_bind fun _ => keeps_bind fun _ => keeps_bind fun _ => keeps_bind fun _ =>
        keeps_pure (sameGraph_withFeatures _ _ _)
    · exact keeps_bind fun _ => keeps_bind fun _ => keeps_bind fun _ => keeps_bind fun _ =>
        keeps_pure (sameGraph_withFeatures _ _ _)
  | independent b =>
    simp only [writes, List.mem_cons, List.not_mem_nil, or_false] at hw
    rcases hw with rfl | rfl | rfl
    all_goals exact keeps_bind fun _ => keeps_pure (sameGraph_withFeatures _ _ _)

end Block

namespace Component

variable {c : Component} {s : State}

theorem allWrites_eq (c : Component) (s : State) : s.allWrites c.writes = c.infer s := by
  cases c with
  | model m => exact m.block.allWrites_eq s
  | stack k =>
    obtain ⟨name, models⟩ := k
    show s.allWrites (models.flatMap fun m => m.block.writes) = models.foldlM _ s
    induction models generalizing s with
    | nil => rfl
    | cons m rest ih =>
      rw [List.flatMap_cons, State.allWrites, List.foldlM_append, List.foldlM_cons]
      show (s.allWrites m.block.writes >>= _) = _
      rw [m.block.allWrites_eq]
      exact Outcome.bind_congr fun t _ => ih t

theorem sameGraph_inferInPlace (c : Component) (s : State) :
    s.SameGraph (c.inferInPlace s).1 := by
  have keeps : ∀ write ∈ c.writes, ∀ t : State, t.Keeps (write t) := by
    intro write hw t
    cases c with
    | model m => exact Block.keeps_of_mem_writes hw t
    | stack k =>
      obtain ⟨m, -, hw⟩ := List.mem_flatMap.1 hw
      exact Block.keeps_of_mem_writes hw t
  rw [inferInPlace]
  split
  · exact State.sameGraph_rewrite keeps
  · exact .refl s

theorem tryInfer_eq_inPlace (c : Component) (s : State) :
    c.tryInfer s = (c.inferInPlace s).2.elim (.ok (c.inferInPlace s).1) .error := by
  rw [inferInPlace]
  split
  · rename_i widths
    rw [tryInfer_of_widths widths, ← c.allWrites_eq, State.allWrites_eq_rewrite]
  · rename_i other
    exact tryInfer_of_ne other

/-- A refusal comes before the first write. -/
theorem Built.inferInPlace_refused (built : c.Built) {e : Error}
    (refused : (c.inferInPlace s).2 = some (.refused e)) : (c.inferInPlace s).1 = s := by
  have run : c.tryInfer s = .error (.refused e) := by rw [tryInfer_eq_inPlace, refused]; rfl
  have other := built.tryInfer_refused.1 ⟨e, run⟩
  rw [inferInPlace, if_neg other]

end Component

/-! ## Derived states -/

namespace Derivation

variable {d : Derivation} {s : State} {made : List State}

/-- What is run was accepted. -/
def Sound : Derivation → Prop
  | run pipeline _ => pipeline.Made
  | _ => True

theorem Sound.sameGraph (sound : d.Sound) (run : d.states s = .ok made) :
    ∀ t ∈ made, s.SameGraph t := by
  cases d with
  | copy =>
    cases run
    exact List.forall_mem_singleton.2 (.refl s)
  | slice nodes edges globals =>
    obtain ⟨t, slice, run⟩ := Outcome.bind_eq_ok.1 run
    cases run
    exact List.forall_mem_singleton.2 (State.keeps_sliceFeatures _ _ _ _ slice)
  | split cut =>
    obtain ⟨⟨head, tail⟩, split, run⟩ := Outcome.bind_eq_ok.1 run
    cases run
    obtain ⟨first, second⟩ := State.sameGraph_of_split split
    exact List.forall_mem_cons.2 ⟨first, List.forall_mem_singleton.2 second⟩
  | run pipeline count =>
    intro t ht
    exact (Pipeline.Made.of_run sound run t ht).1

end Derivation

/-! ## Calls -/

namespace Call

variable {held : List State} {call : Call} {calls : List Call} {s t : State} {i : Nat}

/-- What is run was accepted. -/
def Sound : Call → Prop
  | derived d _ => d.Sound
  | infer c _ => c.Built
  | _ => True

/-- A state that a call gives: a constructed one, or one with the graph of every state that the
    call is about. -/
def Gives (call : Call) (held : List State) (t : State) : Prop :=
  (∃ source, call = .make source ∧ source.state = .ok t) ∨
    call.operands ≠ [] ∧ ∀ i ∈ call.operands, ∃ s, held[i]? = some s ∧ s.SameGraph t

/-- All that a call can do to the held states. -/
inductive Effect (call : Call) (held : List State) : List State × Option Failure → Prop
  | idle (failure : Option Failure) : Effect call held (held, failure)
  | made {made : List State} : (∀ t ∈ made, call.Gives held t) →
      Effect call held (held ++ made, none)
  | inPlace {c : Component} {i : Nat} {s : State} : call = .infer c i → held[i]? = some s →
      Effect call held (held.set i (c.inferInPlace s).1, (c.inferInPlace s).2)

theorem effect_hold {x : Outcome (List State)}
    (gives : ∀ made, x = .ok made → ∀ t ∈ made, call.Gives held t) :
    call.Effect held (hold held x) := by
  cases x with
  | error failure => exact .idle _
  | ok made => exact .made (gives made rfl)

theorem Sound.effect (sound : call.Sound) (held : List State) :
    call.Effect held (call.perform held) := by
  cases call with
  | make source =>
    refine effect_hold fun made run => ?_
    obtain ⟨t, state, run⟩ := Outcome.bind_eq_ok.1 run
    cases run
    exact List.forall_mem_singleton.2 (.inl ⟨source, rfl, state⟩)
  | derived d i =>
    rw [perform]
    split
    · rename_i s here
      refine effect_hold fun made run t ht => .inr ⟨List.cons_ne_nil _ _, ?_⟩
      exact List.forall_mem_singleton.2 ⟨s, here, Derivation.Sound.sameGraph sound run t ht⟩
    · exact .idle _
  | concatenate i j =>
    rw [perform]
    split
    · rename_i first second here there
      refine effect_hold fun made run => ?_
      obtain ⟨t, joined, run⟩ := Outcome.bind_eq_ok.1 run
      cases run
      obtain ⟨same, -, rfl⟩ := State.concatenate_eq_ok.1 joined
      have graph := State.sameGraph_beside same
      refine List.forall_mem_singleton.2 (.inr ⟨List.cons_ne_nil _ _, List.forall_mem_cons.2 ?_⟩)
      exact ⟨⟨first, here, graph⟩,
        List.forall_mem_singleton.2 ⟨second, there, same.symm.trans graph⟩⟩
    · exact .idle _
  | infer c i =>
    rw [perform]
    split
    · rename_i s here
      exact .inPlace rfl here
    · exact .idle _

namespace Effect

variable {after : List State × Option Failure}

theorem gives (effect : call.Effect held after) :
    ∀ t ∈ after.1.drop held.length, call.Gives held t := by
  intro t ht
  cases effect with
  | idle failure => simp at ht
  | made gives => exact gives t (by simpa using ht)
  | inPlace _ _ => simp [List.drop_eq_nil_of_le] at ht

/-- A held state keeps its graph, and stays as it is unless a model runs on it in place. -/
theorem kept (effect : call.Effect held after) (here : held[i]? = some s) :
    ∃ t, after.1[i]? = some t ∧ s.SameGraph t ∧
      (t = s ∨ ∃ c, call = .infer c i ∧ c.tryInfer s = after.2.elim (.ok t) .error) := by
  cases effect with
  | idle failure => exact ⟨s, here, .refl s, .inl rfl⟩
  | made gives =>
    have bound := (List.getElem?_eq_some_iff.1 here).1
    exact ⟨s, by rw [List.getElem?_append_left bound, here], .refl s, .inl rfl⟩
  | @inPlace c j u called there =>
    by_cases same : j = i
    · subst same
      obtain rfl : u = s := Option.some.inj (there.symm.trans here)
      have bound := (List.getElem?_eq_some_iff.1 here).1
      exact ⟨_, List.getElem?_set_self bound, c.sameGraph_inferInPlace u,
        .inr ⟨c, called, c.tryInfer_eq_inPlace u⟩⟩
    · exact ⟨s, by rw [List.getElem?_set_ne same, here], .refl s, .inl rfl⟩

theorem refused (effect : call.Effect held after) (sound : call.Sound) {e : Error}
    (failed : after.2 = some (.refused e)) : after.1 = held := by
  cases effect with
  | idle failure => rfl
  | made gives => cases failed
  | @inPlace c j u called there =>
    subst called
    -- what is written back is the state that was there
    have unchanged : (c.inferInPlace u).1 = u := Component.Built.inferInPlace_refused sound failed
    obtain ⟨bound, rfl⟩ := List.getElem?_eq_some_iff.1 there
    show held.set j (c.inferInPlace held[j]).1 = held
    rw [unchanged, List.set_getElem_self bound]

/-- What is held after a call is constructed by it, or has the graph of a state held before. -/
theorem rooted (effect : call.Effect held after) : ∀ t ∈ after.1,
    (∃ s ∈ held, s.SameGraph t) ∨ ∃ source, call = .make source ∧ source.state = .ok t := by
  intro t ht
  cases effect with
  | idle failure => exact .inl ⟨t, ht, .refl t⟩
  | made gives =>
    rcases List.mem_append.1 ht with ht | ht
    · exact .inl ⟨t, ht, .refl t⟩
    · -- a derived state has the graph of any state that it is made of
      obtain constructed | ⟨nonempty, graphs⟩ := gives t ht
      · exact .inr constructed
      · obtain ⟨i, hi⟩ := List.exists_mem_of_ne_nil _ nonempty
        obtain ⟨s, here, same⟩ := graphs i hi
        exact .inl ⟨s, List.mem_of_getElem? here, same⟩
  | @inPlace c j u _ there =>
    rcases List.mem_or_eq_of_mem_set ht with ht | rfl
    · exact .inl ⟨t, ht, .refl t⟩
    · exact .inl ⟨u, List.mem_of_getElem? there, c.sameGraph_inferInPlace u⟩

end Effect

theorem performAll_rooted (sound : ∀ call ∈ calls, call.Sound) : ∀ s ∈ performAll calls,
    ∃ source origin, .make source ∈ calls ∧ source.state = .ok origin ∧ origin.SameGraph s := by
  induction calls using List.reverseRecOn with
  | nil => simp [performAll]
  | append_singleton before last ih =>
    obtain ⟨earlier, now⟩ := List.forall_mem_append.1 sound
    rw [List.forall_mem_singleton] at now
    intro t ht
    rw [performAll, List.foldl_append] at ht
    rcases (now.effect (performAll before)).rooted t ht with ⟨s, hs, same⟩ | ⟨source, rfl, made⟩
    · obtain ⟨source, origin, called, made, graph⟩ := ih earlier s hs
      exact ⟨source, origin, List.mem_append_left _ called, made, graph.trans same⟩
    · exact ⟨source, t, by simp, made, .refl t⟩

/-- **What a session holds is well formed.**  Construction accepts exactly the data that make up
    a state.  Whatever is called, every held state is such data, and its graph is that of a
    constructed state.  A further call gives states with the graph of those that it is about;
    it keeps the graph of every held state, even if it fails, and changes none but the one that
    a model runs on; and a refused call changes nothing. -/
theorem held_coherent (sound : ∀ call ∈ calls, call.Sound) (session : held = performAll calls) :
    (∀ nodes edges globals senders receivers,
      (∃ s, State.ofParts nodes edges globals senders receivers = .ok s) ↔
        Coherent nodes edges globals senders receivers) ∧
      (∀ s ∈ held, Coherent s.nodes s.edges s.globals s.senders s.receivers ∧
        (∀ b ∈ [s.nodes, s.edges, s.globals], b.data.size = b.rows * b.cols) ∧
        ∃ source origin, .make source ∈ calls ∧ source.state = .ok origin ∧
          origin.SameGraph s) ∧
      ∀ next : Call, next.Sound →
        (∀ t ∈ (next.perform held).1.drop held.length, next.Gives held t) ∧
        (∀ (i : Nat) (s : State), held[i]? = some s → ∃ t,
          (next.perform held).1[i]? = some t ∧ s.SameGraph t ∧
          (t = s ∨ ∃ c, next = .infer c i ∧
            c.tryInfer s = (next.perform held).2.elim (.ok t) .error)) ∧
        ∀ e, (next.perform held).2 = some (.refused e) → (next.perform held).1 = held := by
  subst session
  refine ⟨fun _ _ _ _ _ => State.ofParts_answers, fun s hs => ⟨s.coherent, ?_, ?_⟩,
    fun next accepted => ?_⟩
  · exact fun b _ => b.size_data
  · exact performAll_rooted sound s hs
  · have effect := accepted.effect (performAll calls)
    exact ⟨effect.gives, fun _ _ here => effect.kept here, fun _ => effect.refused accepted⟩

/-- A state, a copy of it and a model that runs on the first; another model refuses the copy. -/
theorem held_coherent_adders : ∃ (m wide : Model) (source : Source) (held : List State)
    (cause : Error),
    (∀ call ∈ [make source, derived .copy 0, infer (.model m) 0], call.Sound) ∧
      held = performAll [make source, derived .copy 0, infer (.model m) 0] ∧
      held.length = 2 ∧ (∀ s ∈ held, State.selfLoop.SameGraph s) ∧
      (infer (.model wide) 1).perform held = (held, some (.refused cause)) := by
  obtain ⟨m, compiled, -⟩ := Model.exists_adder (.inl rfl)
  obtain ⟨wide, compiled', inputs', -⟩ := Model.exists_adder (.inr rfl)
  let first := State.selfLoop
  let source : Source :=
    .parts first.nodes first.edges first.globals first.senders first.receivers
  have state : source.state = .ok first := State.ofParts_self first
  let calls := [make source, derived .copy 0, infer (.model m) 0]
  have sound : ∀ call ∈ calls, call.Sound := by
    simp [calls, Sound, Derivation.Sound, Component.Built.model compiled]
  have held : performAll calls = [((Component.model m).inferInPlace first).1, first] := by
    have made : (make source).perform [] = ([first], none) := by
      rw [perform, state]
      rfl
    simp only [calls, performAll, List.foldl_cons, List.foldl_nil, made]
    rfl
  obtain ⟨-, coherent, further⟩ := held_coherent sound rfl
  obtain ⟨-, -, unchanged⟩ := further (infer (.model wide) 1) (.model compiled')
  have other : first.widths ≠ (Component.model wide).inputWidths := by
    rw [Component.inputWidths, inputs']
    decide
  have failed : ((infer (.model wide) 1).perform (performAll calls)).2 =
      some (.refused (.shape (.stateWidths wide.inputWidths first.widths))) := by
    rw [held]
    show ((Component.model wide).inferInPlace first).2 = _
    rw [Component.inferInPlace, if_neg other]
    rfl
  refine ⟨m, wide, source, _, _, sound, rfl, by rw [held]; rfl, fun s hs => ?_,
    Prod.ext (unchanged _ failed) failed⟩
  obtain ⟨-, -, source', origin, called, made, graph⟩ := coherent s hs
  obtain rfl : source' = source := by simpa [calls] using called
  obtain rfl : first = origin := Except.ok.inj (state.symm.trans made)
  exact graph

end Call

end MessagePassing
