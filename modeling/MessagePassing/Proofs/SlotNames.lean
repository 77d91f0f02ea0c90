/-
  Message passing — the names of tensors.

  A slot is named after its module and its layer, and ends in its kind.  A module may be called
  anything, also like a slot; but the digits of the layer are what follows the last underscore,
  so that a name tells its parts.

  * `Parameters.slot_inj`: module and layer of a slot, of whatever kind;
  * `Parameters.biasSlot_ne_weightSlot`: a slot is of one kind;
  * `Parameters.slotName_inj`: all of it at once, for slots by module, layer and kind;
  * `Parameters.nodup_slotsFrom`: the slots of layers in a row have different names.
-/
import Mathlib.Data.List.Nodup
import Mathlib.Data.List.ProdSigma
import MessagePassing.Proofs.Modules

namespace MessagePassing.Parameters

/-- The letters of a slot in front of its kind. -/
def slotStem (module : String) (layer : Nat) : List Char :=
  (module.toList ++ ".linear".toList) ++ '_' :: Nat.toDigits 10 layer

theorem toList_slot (module : String) (layer : Nat) (kind : String) :
    (module ++ ".linear_" ++ layer.repr ++ kind).toList = slotStem module layer ++ kind.toList := by
  have mark : ".linear_".toList = ".linear".toList ++ ['_'] := by decide
  simp only [String.toList_append, Nat.toList_repr, mark, slotStem, List.append_assoc,
    List.cons_append, List.nil_append]

theorem toList_weightSlot (module : String) (layer : Nat) :
    (weightSlot module layer).toList = slotStem module layer ++ ".weight".toList :=
  toList_slot module layer ".weight"

theorem toList_biasSlot (module : String) (layer : Nat) :
    (biasSlot module layer).toList = slotStem module layer ++ ".bias".toList :=
  toList_slot module layer ".bias"

variable {m n : String} {i j : Nat}

theorem slotStem_inj (h : slotStem m i = slotStem n j) : m = n ∧ i = j := by
  obtain rfl : i = j := digits_inj (suffix_eq h (not_mem_digits rfl i) (not_mem_digits rfl j))
  exact ⟨String.toList_inj.1 (List.append_cancel_right (List.append_cancel_right h)), rfl⟩

/-- A slot of whatever kind tells its module and its layer. -/
theorem slot_inj {kind : String}
    (h : m ++ ".linear_" ++ i.repr ++ kind = n ++ ".linear_" ++ j.repr ++ kind) :
    m = n ∧ i = j := by
  have letters := congrArg String.toList h
  rw [toList_slot, toList_slot] at letters
  exact slotStem_inj (List.append_cancel_right letters)

theorem weightSlot_inj (h : weightSlot m i = weightSlot n j) : m = n ∧ i = j := slot_inj h

theorem biasSlot_inj (h : biasSlot m i = biasSlot n j) : m = n ∧ i = j := slot_inj h

/-- A slot for biases is none for weights: their last letters differ. -/
theorem biasSlot_ne_weightSlot : biasSlot m i ≠ weightSlot n j := by
  intro same
  have letters := congrArg (fun s => s.toList.getLast?) same
  simp only [toList_weightSlot, toList_biasSlot, List.getLast?_append] at letters
  have bias : ".bias".toList.getLast? = some 's' := by decide
  have weight : ".weight".toList.getLast? = some 't' := by decide
  rw [bias, weight, Option.some_or, Option.some_or] at letters
  revert letters
  decide

/-! ## Slots by layer and kind -/

/-- What the tensor of a slot is for. -/
inductive SlotKind where
  | weights
  | biases
  deriving DecidableEq, Repr

/-- The name of the slot of a layer for one kind of tensor. -/
def slotName (module : String) (layer : Nat) : SlotKind → String
  | .weights => weightSlot module layer
  | .biases => biasSlot module layer

/-- **A name tells its module, its layer and its kind.** -/
theorem slotName_inj {k l : SlotKind} :
    slotName m i k = slotName n j l ↔ m = n ∧ i = j ∧ k = l := by
  constructor
  · intro same
    cases k <;> cases l
    case weights.weights =>
      obtain ⟨rfl, rfl⟩ := weightSlot_inj same
      exact ⟨rfl, rfl, rfl⟩
    case weights.biases => exact absurd same.symm biasSlot_ne_weightSlot
    case biases.weights => exact absurd same biasSlot_ne_weightSlot
    case biases.biases =>
      obtain ⟨rfl, rfl⟩ := biasSlot_inj same
      exact ⟨rfl, rfl, rfl⟩
  · rintro ⟨rfl, rfl, rfl⟩
    rfl

/-- Layers and kinds, in the order in which slots are listed. -/
def slotPlaces (layers : Nat) : List (Nat × SlotKind) :=
  List.range layers ×ˢ [.weights, .biases]

theorem mem_slotPlaces {layers : Nat} {place : Nat × SlotKind} :
    place ∈ slotPlaces layers ↔ place.1 < layers := by
  obtain ⟨i, k⟩ := place
  rw [slotPlaces, List.mem_product, List.mem_range]
  cases k <;> simp

theorem length_slotPlaces (layers : Nat) : (slotPlaces layers).length = 2 * layers := by
  rw [slotPlaces, List.length_product, List.length_range, Nat.mul_comm]
  rfl

/-- The slots of layers `first`, `first + 1`, ..., weights before biases. -/
theorem flatMap_slots (m : String) (first layers : Nat) :
    ((List.range layers).flatMap fun i => [weightSlot m (first + i), biasSlot m (first + i)]) =
      (slotPlaces layers).map fun place => slotName m (first + place.1) place.2 := by
  have places : slotPlaces layers =
      (List.range layers).flatMap fun i => [(i, .weights), (i, .biases)] := rfl
  rw [places, List.map_flatMap]
  rfl

/-- No slot comes twice. -/
theorem nodup_slotsFrom (m : String) (first layers : Nat) :
    ((slotPlaces layers).map fun place => slotName m (first + place.1) place.2).Nodup := by
  have places : (slotPlaces layers).Nodup := List.nodup_range.product (by decide)
  refine places.map fun place other same => ?_
  obtain ⟨-, layer, kind⟩ := slotName_inj.1 same
  exact Prod.ext (Nat.add_left_cancel layer) kind

end MessagePassing.Parameters
