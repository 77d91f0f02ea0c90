/-
  Message passing — records in any form.

  The fields of a record may come in any order and among other members, and a field that holds
  its default may be left out.  `WrittenAs fields v` says that the object `v` gives the fields in
  some such way.

  * `WrittenAs.fields?`: whatever the form, the fields come out in declared order;
  * `required_of_allows`, `optional_of_allows`: what is read from a field;
  * `writtenAs_record`: the object of all fields in declared order is one of the forms.
-/
import MessagePassing.Proofs.Storage

namespace MessagePassing.Json

/-! ## Fields -/

/-- A declared field: its name, whether it may be left out, and the values that stand for what
    it holds. -/
structure Field where
  name : String
  spare : Prop
  forms : Value → Prop

namespace Field

/-- The field may be left out, or be given as this value. -/
def Allows (f : Field) : Option Value → Prop
  | none => f.spare
  | some v => f.forms v

/-- A field that has to be given. -/
def needed (name : String) (forms : Value → Prop) : Field := ⟨name, False, forms⟩

/-- A field that holds `x`, and that may be left out where this is its default. -/
def defaulting {α : Type} (name : String) (default x : α) (forms : Value → Prop) : Field :=
  ⟨name, x = default, forms⟩

variable {α : Type} {name : String} {default x : α} {forms : Value → Prop} {decode : Decoder α}
  {field : Option Value}

@[simp]
theorem name_needed : (needed name forms).name = name := rfl

@[simp]
theorem name_defaulting : (defaulting name default x forms).name = name := rfl

theorem required_of_allows (allowed : (needed name forms).Allows field)
    (read : ∀ v, forms v → decode v = some x) : required decode field = some x := by
  cases field with
  | none => exact allowed.elim
  | some v => exact read v allowed

theorem optional_of_allows (allowed : (defaulting name default x forms).Allows field)
    (read : ∀ v, forms v → decode v = some x) : optional default decode field = some x := by
  cases field with
  | none => exact congrArg some allowed.symm
  | some v => exact read v allowed

end Field

/-! ## Forms of a record -/

/-- The members for those of the names that are given. -/
def given (written : String → Option Value) (names : List String) : List (String × Value) :=
  names.filterMap fun name => (written name).map (name, ·)

/-- An object that gives each field once, or leaves it out where it may be, in any order and among
    any members of other names. -/
inductive WrittenAs (fields : List Field) : Value → Prop
  | intro (written : String → Option Value) (others members : List (String × Value))
      (allowed : ∀ f ∈ fields, f.Allows (written f.name))
      (unknown : ∀ m ∈ others, ∀ f ∈ fields, m.1 ≠ f.name)
      (order : members.Perm (given written (fields.map (·.name)) ++ others)) :
      WrittenAs fields (.record members)

/-- A name that comes once is given once. -/
theorem filter_given (written : String → Option Value) {names : List String}
    (distinct : names.Nodup) {name : String} (mem : name ∈ names) :
    (given written names).filter (·.1 = name) = ((written name).map (name, ·)).toList := by
  have absent {names : List String} (none : name ∉ names) :
      (given written names).filter (·.1 = name) = [] := by
    rw [List.filter_eq_nil_iff]
    intro m hm same
    obtain ⟨other, hother, written⟩ := List.mem_filterMap.1 hm
    obtain ⟨v, -, rfl⟩ := Option.map_eq_some_iff.1 written
    exact none (of_decide_eq_true same ▸ hother)
  induction names with
  | nil => cases mem
  | cons first names ih =>
    obtain ⟨fresh, distinct⟩ := List.nodup_cons.1 distinct
    have split : given written (first :: names) =
        ((written first).map (first, ·)).toList ++ given written names := by
      cases h : written first <;> simp [given, h]
    rw [split, List.filter_append]
    rcases List.mem_cons.1 mem with rfl | mem
    · rw [absent fresh, List.append_nil]
      cases written name <;> simp
    · have other : first ≠ name := fun same => fresh (same ▸ mem)
      rw [ih distinct mem]
      cases written first <;> simp [other]

/-- The order of the members does not matter for a name that comes at most once. -/
theorem field?_of_perm {members : List (String × Value)} {name : String} {field : Option Value}
    (order : (members.filter (·.1 = name)).Perm (field.map (name, ·)).toList) :
    Value.field? members name = some field := by
  cases field with
  | none => rw [Value.field?, List.Perm.eq_nil order]
  | some v => rw [Value.field?, List.perm_singleton.1 order]

/-- **Whatever the form of a record, its fields come out in declared order.** -/
theorem WrittenAs.fields? {fields : List Field} {v : Value} (h : WrittenAs fields v)
    (distinct : (fields.map (·.name)).Nodup) : ∃ written : String → Option Value,
      v.fields? (fields.map (·.name)) = some ((fields.map (·.name)).map written) ∧
        ∀ f ∈ fields, f.Allows (written f.name) := by
  obtain ⟨written, others, members, allowed, unknown, order⟩ := h
  refine ⟨written, ?_, allowed⟩
  have each : ∀ name ∈ fields.map (·.name),
      Value.field? members name = some (written name) := by
    intro name mem
    apply field?_of_perm
    have rest : others.filter (·.1 = name) = [] := by
      rw [List.filter_eq_nil_iff]
      obtain ⟨f, hf, rfl⟩ := List.mem_map.1 mem
      intro m hm same
      exact unknown m hm f hf (of_decide_eq_true same)
    have same := order.filter fun m => decide (m.1 = name)
    rwa [List.filter_append, rest, List.append_nil, filter_given written distinct mem] at same
  have named := members?_record members
  rw [Value.record, Value.members?] at named
  rw [Value.record, Value.fields?, named]
  exact mapM_eq_some each

/-- The object of all fields, in declared order, is one of the forms. -/
theorem writtenAs_record {fields : List Field} {members : List (String × Value)}
    (each : List.Forall₂ (fun f m => f.name = m.1 ∧ f.forms m.2) fields members)
    (distinct : (fields.map (·.name)).Nodup) : WrittenAs fields (.record members) := by
  have names : fields.map (·.name) = members.map (·.1) := by
    clear distinct
    induction each with
    | nil => rfl
    | cons h _ ih => rw [List.map_cons, List.map_cons, h.1, ih]
  have known {m : String × Value} (mem : m ∈ members) : Value.field? members m.1 = some m.2 :=
    field?_eq (names ▸ distinct) mem
  have all : given (fun name => (Value.field? members name).join) (fields.map (·.name)) =
      members := by
    rw [names, given, List.filterMap_map]
    refine (List.filterMap_congr fun m hm => ?_).trans List.filterMap_some
    rw [Function.comp_apply, known hm]
    rfl
  refine .intro (fun name => (Value.field? members name).join) [] members ?_ (by simp) ?_
  · intro f hf
    obtain ⟨i, hi, rfl⟩ := List.getElem_of_mem hf
    have there : i < members.length := each.length_eq ▸ hi
    obtain ⟨name, form⟩ := each.get hi there
    show (fields[i]).Allows (Value.field? members fields[i].name).join
    rw [show fields[i].name = members[i].1 from name, known (List.getElem_mem there)]
    exact form
  · rw [all, List.append_nil]

end MessagePassing.Json
