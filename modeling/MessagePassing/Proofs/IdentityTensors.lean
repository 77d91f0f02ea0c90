/-
  Message passing — tensors of the identity.

  A square layer whose weights are one on the diagonal and whose biases are zero maps a row to
  itself.  `Parameters.identity` makes such tensors for the layers of one module, and the tensors
  of several modules are put together one after the other.

  * `Parameters.get?_insertAll_of_mem`, `get?_insertAll_of_not_mem`: what is put in is there, and
    nothing else changes;
  * `Parameters.getD_identityMatrix`: where the ones are;
  * `Parameters.HoldsIdentity`: the layers of a module hold the identity, also beside others;
  * `names_layerSlots_from`, `nodup_layerSlots`: the names of the slots of a module, of which none
    comes twice.
-/
import Mathlib.Data.List.Nodup
import MessagePassing.Proofs.Acceptance
import MessagePassing.Proofs.SlotNames

namespace MessagePassing

open MessagePassing.Count (limit)

namespace Parameters

variable {p q : Parameters} {module name : String} {width layers : Nat} {values : Array Scalar}

/-! ## Putting tensors in -/

theorem find?_insertEntry (name : String) (values : Array Scalar)
    (l : List (String × Array Scalar)) (other : String) :
    ((insertEntry name values l).find? (·.1 = other)).map (·.2) =
      if other = name then some values else (l.find? (·.1 = other)).map (·.2) := by
  induction l with
  | nil => by_cases same : name = other <;> simp [insertEntry, same, eq_comm]
  | cons e rest ih =>
    rw [insertEntry]
    split
    · by_cases same : name = other <;> simp [same, eq_comm]
    · split
      · rename_i here
        by_cases same : name = other
        · simp [same]
        · simp [same, ← here, Ne.symm same]
      · rename_i apart
        by_cases here : e.1 = other
        · have new : other ≠ name := fun same => apart (here.trans same).symm
          simp [here, new]
        · simpa [here] using ih

theorem get?_insert (p : Parameters) (name : String) (values : Array Scalar) (other : String) :
    (p.insert name values).get? other = if other = name then some values else p.get? other :=
  find?_insertEntry name values p.entries other

/-- Tensors of other names change nothing. -/
theorem get?_insertAll_of_not_mem {l : List (String × Array Scalar)} (p : Parameters)
    (others : ∀ e ∈ l, e.1 ≠ name) : (p.insertAll l).get? name = p.get? name := by
  induction l generalizing p with
  | nil => rfl
  | cons e rest ih =>
    obtain ⟨first, others⟩ := List.forall_mem_cons.1 others
    show ((p.insert e.1 e.2).insertAll rest).get? name = _
    rw [ih _ others, get?_insert, if_neg first.symm]

/-- A tensor is there afterwards, if no other of its name is put in. -/
theorem get?_insertAll_of_mem {l : List (String × Array Scalar)} (p : Parameters)
    (mem : (name, values) ∈ l) (only : ∀ e ∈ l, e.1 = name → e.2 = values) :
    (p.insertAll l).get? name = some values := by
  induction l generalizing p with
  | nil => cases mem
  | cons e rest ih =>
    obtain ⟨-, onlyLater⟩ := List.forall_mem_cons.1 only
    show ((p.insert e.1 e.2).insertAll rest).get? name = _
    by_cases later : (name, values) ∈ rest
    · exact ih _ later onlyLater
    · obtain rfl : (name, values) = e := (List.mem_cons.1 mem).resolve_right later
      rw [get?_insertAll_of_not_mem, get?_insert, if_pos rfl]
      rintro ⟨_, stored⟩ he rfl
      obtain rfl : stored = values := onlyLater _ he rfl
      exact later he

theorem mem_insertAll {l : List (String × Array Scalar)} {e : String × Array Scalar}
    (mem : e ∈ (p.insertAll l).entries) : e ∈ p.entries ∨ e ∈ l := by
  induction l generalizing p with
  | nil => exact .inl mem
  | cons d rest ih =>
    rcases ih (p := p.insert d.1 d.2) mem with here | later
    · rcases mem_insertEntry here with rfl | old
      · exact .inr List.mem_cons_self
      · exact .inl old
    · exact .inr (List.mem_cons_of_mem _ later)

theorem nodup_names (p : Parameters) : p.names.Nodup :=
  List.pairwise_map.2 (p.ascending.imp fun {a b} (less : a.1 < b.1) (same : a.1 = b.1) =>
    String.lt_irrefl b.1 (same ▸ less))

/-- Names tell the entries apart. -/
theorem eq_of_name {d e : String × Array Scalar} (hd : d ∈ p.entries) (he : e ∈ p.entries)
    (same : d.1 = e.1) : d = e :=
  List.inj_on_of_nodup_map p.nodup_names hd he same

/-- All tensors of `q`, and those of `p` that have other names. -/
def extend (p q : Parameters) : Parameters := p.insertAll q.entries

theorem get?_extend_of_some (p : Parameters) (there : q.get? name = some values) :
    (p.extend q).get? name = some values := by
  obtain ⟨⟨_, _⟩, found, rfl⟩ := Option.map_eq_some_iff.1 there
  obtain rfl : _ = name := by simpa using List.find?_some found
  have mem := List.mem_of_find?_eq_some found
  exact get?_insertAll_of_mem p mem fun e he same => congrArg Prod.snd (eq_of_name he mem same)

/-! ## Slots of a module -/

/-- The name is that of a slot of the module. -/
def SlotOf (module name : String) : Prop :=
  ∃ i, name = weightSlot module i ∨ name = biasSlot module i

theorem SlotOf.module_eq {m n : String} (hm : SlotOf m name) (hn : SlotOf n name) : m = n := by
  obtain ⟨i, rfl | rfl⟩ := hm <;> obtain ⟨j, same | same⟩ := hn
  · exact (weightSlot_inj same).1
  · exact absurd same.symm biasSlot_ne_weightSlot
  · exact absurd same biasSlot_ne_weightSlot
  · exact (biasSlot_inj same).1

/-- The tensors belong to the module. -/
def Under (p : Parameters) (module : String) : Prop := ∀ e ∈ p.entries, SlotOf module e.1

theorem get?_extend_of_under {m n : String} (p : Parameters) (under : q.Under n)
    (slot : SlotOf m name) (apart : m ≠ n) : (p.extend q).get? name = p.get? name := by
  refine get?_insertAll_of_not_mem p fun e he same => apart ?_
  exact slot.module_eq (same ▸ under e he)

/-! ## Identity tensors -/

/-- The places `i * width + j` that are multiples of `width + 1` are those with `i = j`. -/
theorem place_mod_eq_zero_iff {i j : Nat} (hi : i < width) (hj : j < width) :
    (i * width + j) % (width + 1) = 0 ↔ i = j := by
  rcases Nat.lt_or_ge j i with below | above
  · -- one row further up, the place is `width + 1 - (i - j)` behind the diagonal
    obtain ⟨k, rfl⟩ : ∃ k, i = k + 1 := ⟨i - 1, by omega⟩
    have place : (k + 1) * width + j = (width + 1) * k + (width + j - k) := by
      rw [Nat.succ_mul, Nat.succ_mul, Nat.mul_comm width k]
      omega
    rw [place, Nat.mul_add_mod, Nat.mod_eq_of_lt (by omega)]
    omega
  · have place : i * width + j = (width + 1) * i + (j - i) := by
      rw [Nat.succ_mul, Nat.mul_comm width i]
      omega
    rw [place, Nat.mul_add_mod, Nat.mod_eq_of_lt (by omega)]
    omega

@[simp]
theorem size_identityMatrix (width : Nat) : (identityMatrix width).size = width * width := by
  simp [identityMatrix]

/-- **The ones are exactly on the diagonal.** -/
theorem getD_identityMatrix {i j : Nat} (hi : i < width) (hj : j < width) :
    (identityMatrix width).getD (i * width + j) 0 = if i = j then 1 else 0 := by
  have inside : i * width + j < width * width := by
    have := Nat.mul_le_mul_right width (Nat.succ_le_of_lt hi)
    rw [Nat.succ_mul] at this
    omega
  simp [identityMatrix, Array.getD_eq_getD_getElem?, inside, place_mod_eq_zero_iff hi hj]

theorem finite_identityMatrix {x : Scalar} (mem : x ∈ identityMatrix width) :
    x.isFinite = true := by
  obtain ⟨k, rfl⟩ := Array.mem_ofFn.1 mem
  split <;> decide

theorem identity_eq_ok : identity module width layers = .ok p ↔ width * width < limit ∧
    ofList ((slots module layers).flatMap fun (weight, bias) =>
      [(weight, identityMatrix width), (bias, Array.replicate width 0)]) = p := by
  rw [identity, Count.check_bind_pure]
  exact Count.within_eq_ok

theorem mem_identityEntries {e : String × Array Scalar} :
    e ∈ (slots module layers).flatMap (fun (weight, bias) =>
      [(weight, identityMatrix width), (bias, Array.replicate width 0)]) ↔
    ∃ i < layers, e = (weightSlot module i, identityMatrix width) ∨
      e = (biasSlot module i, Array.replicate width 0) := by
  simp [slots]

/-- The layers of the module hold the identity. -/
def HoldsIdentity (p : Parameters) (module : String) (width layers : Nat) : Prop :=
  ∀ i < layers, p.get? (weightSlot module i) = some (identityMatrix width) ∧
    p.get? (biasSlot module i) = some (Array.replicate width 0)

theorem holdsIdentity_identity (made : identity module width layers = .ok p) :
    p.HoldsIdentity module width layers := by
  obtain ⟨-, rfl⟩ := identity_eq_ok.1 made
  intro i hi
  constructor
  · refine get?_insertAll_of_mem _ (mem_identityEntries.2 ⟨i, hi, .inl rfl⟩) fun e he same => ?_
    obtain ⟨j, -, rfl | rfl⟩ := mem_identityEntries.1 he
    · rfl
    · exact absurd same biasSlot_ne_weightSlot
  · refine get?_insertAll_of_mem _ (mem_identityEntries.2 ⟨i, hi, .inr rfl⟩) fun e he same => ?_
    obtain ⟨j, -, rfl | rfl⟩ := mem_identityEntries.1 he
    · exact absurd same.symm biasSlot_ne_weightSlot
    · rfl

theorem under_identity (made : identity module width layers = .ok p) : p.Under module := by
  obtain ⟨-, rfl⟩ := identity_eq_ok.1 made
  intro e he
  rcases mem_insertAll he with none | mem
  · cases none
  · obtain ⟨i, -, rfl | rfl⟩ := mem_identityEntries.1 mem
    · exact ⟨i, .inl rfl⟩
    · exact ⟨i, .inr rfl⟩

theorem HoldsIdentity.extend_right (h : q.HoldsIdentity module width layers) (p : Parameters) :
    (p.extend q).HoldsIdentity module width layers := fun i hi =>
  ⟨get?_extend_of_some p (h i hi).1, get?_extend_of_some p (h i hi).2⟩

/-- Tensors of another module leave the layers as they are. -/
theorem HoldsIdentity.extend_left {other : String} (h : p.HoldsIdentity module width layers)
    (under : q.Under other) (apart : module ≠ other) :
    (p.extend q).HoldsIdentity module width layers := by
  intro i hi
  rw [get?_extend_of_under p under ⟨i, .inl rfl⟩ apart,
    get?_extend_of_under p under ⟨i, .inr rfl⟩ apart]
  exact h i hi

end Parameters

/-! ## Slots of layers -/

open Parameters (weightSlot biasSlot SlotOf)

variable {module : String} {layer input : Nat} {sizes : List Nat}

theorem mem_layerSlots {s : Slot} (mem : s ∈ layerSlots module layer input sizes) :
    ∃ i a b, (input :: sizes)[i]? = some a ∧ sizes[i]? = some b ∧
      (s = ⟨weightSlot module (layer + i), a * b⟩ ∨ s = ⟨biasSlot module (layer + i), b⟩) := by
  induction sizes generalizing layer input with
  | nil => cases mem
  | cons output rest ih =>
    rw [layerSlots, List.mem_cons, List.mem_cons] at mem
    rcases mem with rfl | rfl | mem
    · exact ⟨0, input, output, rfl, rfl, .inl rfl⟩
    · exact ⟨0, input, output, rfl, rfl, .inr rfl⟩
    · obtain ⟨i, a, b, before, after, slot⟩ := ih mem
      rw [Nat.add_right_comm, Nat.add_assoc] at slot
      exact ⟨i + 1, a, b, before, after, slot⟩

theorem slotOf_layerSlots {s : Slot} (mem : s ∈ layerSlots module layer input sizes) :
    SlotOf module s.name := by
  obtain ⟨i, a, b, -, -, rfl | rfl⟩ := mem_layerSlots mem
  · exact ⟨layer + i, .inl rfl⟩
  · exact ⟨layer + i, .inr rfl⟩

theorem names_layerSlots_from (module : String) (layer input : Nat) (sizes : List Nat) :
    (layerSlots module layer input sizes).map (·.name) =
      (List.range sizes.length).flatMap fun i =>
        [Parameters.weightSlot module (layer + i), Parameters.biasSlot module (layer + i)] := by
  induction sizes generalizing layer input with
  | nil => rfl
  | cons output rest ih =>
    rw [layerSlots, List.map_cons, List.map_cons, ih, List.length_cons, List.range_succ_eq_map,
      List.flatMap_cons, List.flatMap_map]
    simp only [Nat.add_zero, Nat.succ_eq_add_one, Nat.add_assoc, Nat.add_comm 1,
      List.cons_append, List.nil_append]

/-- No slot of a module comes twice. -/
theorem nodup_layerSlots : ((layerSlots module layer input sizes).map (·.name)).Nodup := by
  rw [names_layerSlots_from, Parameters.flatMap_slots]
  exact Parameters.nodup_slotsFrom module layer sizes.length

/-- Slots of different modules have different names. -/
theorem disjoint_layerSlots {m n : String} {j i' j' : Nat} {sizes' : List Nat} (apart : m ≠ n) :
    ∀ a ∈ (layerSlots m layer j sizes).map (·.name),
      ∀ b ∈ (layerSlots n i' j' sizes').map (·.name), a ≠ b := by
  simp only [List.forall_mem_map]
  intro s hs t ht same
  exact apart ((slotOf_layerSlots hs).module_eq (same ▸ slotOf_layerSlots ht))

end MessagePassing
