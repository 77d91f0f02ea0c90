/-
  Message passing — compiled models on any state.

  Compiling settles all widths, so that a compiled model can be run on any state: other
  widths than those that it reads are refused, and otherwise the model gives a state of the
  same graph with the widths that its description tells.  Only the size of a table can
  stop it.

  * `Independent.infer_eq`: what a block gives that updates every entity from itself;
  * `Block.infer_eq`: what a compiled block of either architecture gives;
  * `Model.tryInfer_compiled`: the widths of a compiled model are those of its description,
    and no state of these widths is refused.
-/
import MessagePassing.Proofs.Round
import MessagePassing.Stack

namespace MessagePassing

open Buffer (Table tableOf)
open MessagePassing.Count (within limit)

/-! ## Independent blocks -/

namespace Independent

/-- The shapes of the tables that a round makes of a state. -/
def shapes (b : Independent) (s : State) : List (Nat × Nat) :=
  [(s.edges.rows, b.updates.edge.outputWidth), (s.nodes.rows, b.updates.node.outputWidth),
    (1, b.updates.global.outputWidth)]

/-- The number of values of every table of a round is a count. -/
def Fits (b : Independent) (s : State) : Prop :=
  ∀ shape ∈ b.shapes s, shape.1 * shape.2 < limit

instance (b : Independent) (s : State) : Decidable (b.Fits s) :=
  inferInstanceAs (Decidable (∀ shape ∈ b.shapes s, shape.1 * shape.2 < limit))

/-- An update function on every row of a table. -/
def rowwise (P : Perceptron) {rows : Nat} (b : Table rows) : Table rows :=
  tableOf rows P.outputWidth (fun i => P.forward (b.val.rowAt i)) fun _ _ => P.size_forward _

theorem apply_eq (P : Perceptron) {rows : Nat} (b : Table rows) :
    P.apply b = within (rows * P.outputWidth < limit) (rowwise P b) :=
  Buffer.mapRows_eq _ _ _ _

/-- The state after a round. -/
def round (b : Independent) (s : State) : State :=
  s.withFeatures (rowwise b.updates.node s.nodes.table) (rowwise b.updates.edge s.edges.table)
    (rowwise b.updates.global s.globalTable)

/-- **A round of an independent block** updates every row by itself. -/
theorem infer_eq (b : Independent) (s : State) : b.infer s = within (b.Fits s) (b.round s) := by
  rw [infer, apply_eq, apply_eq, apply_eq]
  refine Count.within_bind_congr (Count.within_bind_within Count.within_bind_pure) ?_ rfl
  simp [Fits, shapes]

end Independent

/-! ## Blocks -/

namespace Block

/-- The number of values of every table of a round is a count. -/
def Fits : Block → State → Prop
  | network n, s => n.Fits s
  | independent b, s => b.Fits s

instance : (b : Block) → (s : State) → Decidable (b.Fits s)
  | network n, s => inferInstanceAs (Decidable (n.Fits s))
  | independent b, s => inferInstanceAs (Decidable (b.Fits s))

/-- The state after a round. -/
def round : Block → State → State
  | network n, s => n.round s
  | independent b, s => b.round s

theorem sameGraph_round (b : Block) (s : State) : s.SameGraph (b.round s) := by
  cases b with
  | network n => exact ⟨rfl, rfl, rfl, rfl⟩
  | independent b => exact ⟨rfl, rfl, rfl, rfl⟩

theorem widths_round (b : Block) (s : State) : (b.round s).widths = b.outputWidths := by
  cases b with
  | network n => rfl
  | independent b => rfl

/-- Whether a round fits depends on the numbers of nodes and edges only. -/
theorem fits_congr (b : Block) {s t : State} (same : s.SameGraph t) : b.Fits t ↔ b.Fits s := by
  cases b with
  | network n => exact n.fits_congr same
  | independent b =>
    have nodes : t.nodes.rows = s.nodes.rows := same.nodeCount
    have edges : t.edges.rows = s.edges.rows := same.edgeCount
    rw [Fits, Fits, Independent.Fits, Independent.Fits, Independent.shapes, Independent.shapes,
      nodes, edges]

end Block

/-! ## Compiled models -/

namespace Model

variable {d : Description} {p : Parameters} {rename : Option String} {withProgram : Bool}
  {m : Model}

theorem infer_eq (compiled : d.compile p rename withProgram = .ok m) {s : State}
    (widths : s.widths = m.inputWidths) : m.infer s = within (m.block.Fits s) (m.block.round s) := by
  obtain ⟨name, block, program⟩ := m
  cases block with
  | network n => exact Network.infer_eq (Network.sound_of_compile compiled rfl) widths
  | independent b => exact b.infer_eq s

/-- A compiled model reads the widths that its description tells. -/
theorem inputWidths_eq (compiled : d.compile p rename withProgram = .ok m) :
    m.inputWidths = d.inputWidths := by
  obtain ⟨-, made, -⟩ := Description.compile_eq_ok compiled
  rw [inputWidths]
  cases architecture : d.architecture with
  | graphNetwork =>
    obtain ⟨n, network, -, -, -, inputs⟩ := made.network architecture
    rw [network]
    exact inputs
  | graphIndependent =>
    obtain ⟨b, independent, -⟩ := made.independent architecture
    have bound := made.updates
    have edge := bound.edge.inputWidth_eq
    have node := bound.node.inputWidth_eq
    have global := bound.global.inputWidth_eq
    simp only [Description.rowWidths, architecture] at edge node global
    rw [independent] at edge node global ⊢
    exact Widths.ext node edge global

/-- A compiled model gives the widths that its description tells. -/
theorem outputWidths_eq (compiled : d.compile p rename withProgram = .ok m) :
    m.outputWidths = d.outputWidths := by
  obtain ⟨-, made, -⟩ := Description.compile_eq_ok compiled
  have bound := made.updates
  exact Widths.ext bound.node.outputWidth_eq bound.edge.outputWidth_eq
    bound.global.outputWidth_eq

/-- The update functions of a compiled model read rows of the widths that its
    description tells. -/
theorem updateInputWidths_eq (compiled : d.compile p rename withProgram = .ok m) :
    d.updateInputWidths = .ok (m.block.updates.map Perceptron.inputWidth) := by
  obtain ⟨-, made, -⟩ := Description.compile_eq_ok compiled
  have bound := made.updates
  rw [Description.updateInputWidths_eq, Count.within_of_fits made.fit, PerUpdate.map,
    bound.edge.inputWidth_eq, bound.node.inputWidth_eq, bound.global.inputWidth_eq]

/-- **A compiled model runs on every state of its widths**, whatever the graph, and gives
    the same graph with the widths that its description tells.  Any other state is
    refused: the call gives no state, and the caller keeps its own. -/
theorem tryInfer_compiled (compiled : d.compile p rename withProgram = .ok m) :
    m.inputWidths = d.inputWidths ∧ m.outputWidths = d.outputWidths ∧
    d.updateInputWidths = .ok (m.block.updates.map Perceptron.inputWidth) ∧
    ∀ s : State,
      ((∃ cause, (Component.model m).tryInfer s = refuseShape cause) ↔
        s.widths ≠ m.inputWidths) ∧
      (s.widths ≠ m.inputWidths →
        (Component.model m).tryInfer s = refuseShape (.stateWidths m.inputWidths s.widths) ∧
        ((Component.model m).tryInfer s).toOption.getD s = s) ∧
      (s.widths = m.inputWidths → m.block.Fits s →
        ∃ t, (Component.model m).tryInfer s = .ok t ∧ s.SameGraph t ∧ t.globals.rows = 1 ∧
          t.widths = m.outputWidths) ∧
      (s.widths = m.inputWidths → ¬ m.block.Fits s →
        (Component.model m).tryInfer s = .error (.fault .countOverflow)) := by
  refine ⟨inputWidths_eq compiled, outputWidths_eq compiled, updateInputWidths_eq compiled,
    fun s => ?_⟩
  have other (h : s.widths ≠ m.inputWidths) :
      (Component.model m).tryInfer s = refuseShape (.stateWidths m.inputWidths s.widths) :=
    if_neg h
  have same (h : s.widths = m.inputWidths) :
      (Component.model m).tryInfer s = within (m.block.Fits s) (m.block.round s) :=
    (if_pos h).trans (infer_eq compiled h)
  refine ⟨⟨?_, fun h => ⟨_, other h⟩⟩, fun h => ⟨other h, ?_⟩, fun h fits => ?_,
    fun h unfit => ?_⟩
  · rintro ⟨cause, refused⟩ h
    rw [same h] at refused
    exact Count.within_ne_refused _ _ refused
  · rw [other h]
    rfl
  · refine ⟨m.block.round s, ?_, m.block.sameGraph_round s, State.rows_globals _,
      m.block.widths_round s⟩
    rw [same h, Count.within_of_fits fits]
  · rw [same h, Count.within_of_not_fits unfit]

theorem fits_block_selfLoop (compiled : Description.selfLoop.compile .selfLoop none true = .ok m) :
    m.block.Fits .selfLoop := by
  obtain ⟨-, made, -⟩ := Description.compile_eq_ok compiled
  obtain ⟨n, network, -⟩ := made.network rfl
  rw [network]
  exact Network.fits_round_selfLoop compiled network

/-- The self-loop runs on its state. -/
theorem tryInfer_selfLoop : ∃ (m : Model) (t : State),
    Description.selfLoop.compile .selfLoop none true = .ok m ∧
      (Component.model m).tryInfer .selfLoop = .ok t ∧ State.SameGraph .selfLoop t ∧
      t.widths = Description.selfLoop.outputWidths := by
  obtain ⟨m, compiled⟩ := compile_selfLoop
  obtain ⟨inputs, outputs, -, runs⟩ := tryInfer_compiled compiled
  have reads : State.selfLoop.widths = m.inputWidths := by rw [inputs]; rfl
  obtain ⟨t, run, same, -, widths⟩ := (runs .selfLoop).2.2.1 reads (fits_block_selfLoop compiled)
  exact ⟨m, t, compiled, run, same, widths.trans outputs⟩

end Model

end MessagePassing
