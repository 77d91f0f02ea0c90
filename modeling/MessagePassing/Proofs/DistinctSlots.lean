/-
  Message passing — slots of modules are told apart by their names.

  A layer has one slot for each kind of tensor.  A name belongs to one module, one layer and one
  kind, whatever the module is called: `x.linear_1` may be a module beside the second layer of
  `x`.  So the names of a module are distinct, and no two modules have one in common.

  * `Parameters.mem_slotNames`, `Parameters.length_slotNames`, `Parameters.nodup_slotNames`: the
    names of a module;
  * `Parameters.disjoint_slotNames`: the names of two modules;
  * `Parameters.slotNames_distinct`: what a name tells, and what follows for whole modules.
-/
import MessagePassing.Proofs.Consumption

namespace MessagePassing.Parameters

variable {m n name : String} {layers layers' : Nat}

theorem slotNames_eq_map (m : String) (layers : Nat) :
    slotNames m layers = (slotPlaces layers).map fun place => slotName m place.1 place.2 := by
  have listed := flatMap_slots m 0 layers
  simp only [Nat.zero_add] at listed
  rw [← listed, slotNames, slots, List.flatMap_map]

theorem mem_slotNames : name ∈ slotNames m layers ↔ ∃ i k, i < layers ∧ name = slotName m i k := by
  simp only [slotNames_eq_map, List.mem_map, mem_slotPlaces, Prod.exists, eq_comm]

theorem length_slotNames (m : String) (layers : Nat) : (slotNames m layers).length = 2 * layers := by
  rw [slotNames_eq_map, List.length_map, length_slotPlaces]

theorem nodup_slotNames (m : String) (layers : Nat) : (slotNames m layers).Nodup := by
  have distinct := nodup_slotsFrom m 0 layers
  simp only [Nat.zero_add] at distinct
  rwa [slotNames_eq_map]

/-- A name is one of a single module. -/
theorem disjoint_slotNames (apart : m ≠ n) :
    (slotNames m layers).Disjoint (slotNames n layers') := by
  intro name hm hn
  obtain ⟨i, k, -, rfl⟩ := mem_slotNames.1 hm
  obtain ⟨j, l, -, same⟩ := mem_slotNames.1 hn
  exact apart (slotName_inj.1 same).1

/-- **Names of slots are unambiguous.**

    * Two slots have one name iff their modules, layers and kinds are the same.
    * The names of a module are those of its layers, two for each, and no name comes twice.
    * Two modules have no name in common. -/
theorem slotNames_distinct (m n : String) (layers layers' : Nat) :
    (∀ i j k l, slotName m i k = slotName n j l ↔ m = n ∧ i = j ∧ k = l) ∧
      (∀ name, name ∈ slotNames m layers ↔ ∃ i k, i < layers ∧ name = slotName m i k) ∧
      (slotNames m layers).length = 2 * layers ∧ (slotNames m layers).Nodup ∧
      (m ≠ n → (slotNames m layers).Disjoint (slotNames n layers')) :=
  ⟨fun _ _ _ _ => slotName_inj, fun _ => mem_slotNames, length_slotNames m layers,
    nodup_slotNames m layers, disjoint_slotNames⟩

/-- A module that is called like a layer of another one, with slots like its second layer. -/
theorem slotNames_distinct_nested :
    "x" ≠ "x.linear_1" ∧ "x.linear_1.weight" ∈ slotNames "x" 2 ∧
      "x.linear_1.linear_1.weight" ∈ slotNames "x.linear_1" 2 ∧
      (slotNames "x" 2).Disjoint (slotNames "x.linear_1" 2) := by
  obtain ⟨-, inner, -, -, apart⟩ := slotNames_distinct "x" "x.linear_1" 2 2
  obtain ⟨-, outer, -⟩ := slotNames_distinct "x.linear_1" "x" 2 2
  have differ : "x" ≠ "x.linear_1" := by decide
  exact ⟨differ, (inner _).2 ⟨1, .weights, by decide, rfl⟩,
    (outer _).2 ⟨1, .weights, by decide, rfl⟩, apart differ⟩

end MessagePassing.Parameters
