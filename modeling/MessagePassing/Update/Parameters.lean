/-
  Message passing — trained tensors.

  `Parameters` maps tensor names to flat values, sorted by name.  Layer `i` of the
  update function declared under a module reads the weight and bias slots of
  `slots`; `take` removes a tensor and checks its length and its values.
-/
import MessagePassing.Count
import MessagePassing.Scalar
import MessagePassing.Json.Text
import MessagePassing.Tagged

namespace MessagePassing

/-! ## Weight layouts -/

/-- The order of the values of a weight tensor. -/
inductive WeightLayout where
  /-- One row per input. -/
  | inOut
  /-- One row per output. -/
  | outIn
  deriving DecidableEq, Repr

namespace WeightLayout

instance : Tagged WeightLayout where
  values := [inOut, outIn]
  tag
    | inOut => "in_out"
    | outIn => "out_in"

/-- The weights with one row per input. -/
def toInOut (layout : WeightLayout) (weight : Array Scalar) (input output : Nat) :
    Outcome (Array Scalar) :=
  match layout with
  | inOut => .ok weight
  | outIn =>
    if input * output ≤ weight.size then
      .ok (.ofFn (n := input * output) fun k =>
        weight.getD (k % output * input + k / output) 0)
    else .error (.fault .outOfRange)

end WeightLayout

/-! ## Tensors by name -/

/-- Tensors by name, with ascending names. -/
@[ext]
structure Parameters where
  entries : List (String × Array Scalar)
  ascending : entries.Pairwise fun a b => a.1 < b.1

namespace Parameters

/-- No tensors. -/
def empty : Parameters := ⟨[], .nil⟩

/-- Put a tensor into ascending entries, in place of one of the same name. -/
def insertEntry (name : String) (values : Array Scalar) :
    List (String × Array Scalar) → List (String × Array Scalar)
  | [] => [(name, values)]
  | e :: rest =>
    if name < e.1 then (name, values) :: e :: rest
    else if name = e.1 then (name, values) :: rest
    else e :: insertEntry name values rest

theorem mem_insertEntry {name : String} {values : Array Scalar}
    {l : List (String × Array Scalar)} {e : String × Array Scalar}
    (h : e ∈ insertEntry name values l) : e = (name, values) ∨ e ∈ l := by
  induction l with
  | nil => simpa [insertEntry] using h
  | cons d rest ih =>
    unfold insertEntry at h
    split at h
    · simpa using h
    · split at h
      · simp only [List.mem_cons] at h ⊢
        exact h.imp id Or.inr
      · simp only [List.mem_cons] at h ⊢
        rcases h with h | h
        · exact .inr (.inl h)
        · exact (ih h).imp id Or.inr

theorem ascending_insertEntry (name : String) (values : Array Scalar)
    {l : List (String × Array Scalar)} (h : l.Pairwise fun a b => a.1 < b.1) :
    (insertEntry name values l).Pairwise fun a b => a.1 < b.1 := by
  induction l with
  | nil => simp [insertEntry]
  | cons d rest ih =>
    obtain ⟨first, others⟩ := List.pairwise_cons.mp h
    unfold insertEntry
    split
    · rename_i less
      refine List.pairwise_cons.mpr ⟨fun e he => ?_, h⟩
      rcases List.mem_cons.mp he with rfl | he
      · exact less
      · exact String.lt_trans less (first e he)
    · split
      · rename_i same
        exact List.pairwise_cons.mpr ⟨fun e he => same ▸ first e he, others⟩
      · rename_i notLess different
        refine List.pairwise_cons.mpr ⟨fun e he => ?_, ih others⟩
        rcases mem_insertEntry he with rfl | he
        · have := String.not_lt.mp notLess
          grind
        · exact first e he

/-- Put a tensor in, in place of one of the same name. -/
def insert (p : Parameters) (name : String) (values : Array Scalar) : Parameters :=
  ⟨insertEntry name values p.entries, ascending_insertEntry name values p.ascending⟩

/-- Put tensors in, one after the other. -/
def insertAll (p : Parameters) (entries : List (String × Array Scalar)) : Parameters :=
  entries.foldl (fun p (name, values) => p.insert name values) p

/-- Tensors from a list; the last of equal names counts. -/
def ofList (entries : List (String × Array Scalar)) : Parameters := empty.insertAll entries

/-- The values of a tensor. -/
def get? (p : Parameters) (name : String) : Option (Array Scalar) :=
  (p.entries.find? (·.1 = name)).map (·.2)

/-- There is a tensor of this name. -/
def contains (p : Parameters) (name : String) : Bool := p.entries.any (·.1 = name)

/-- Take a tensor out. -/
def erase (p : Parameters) (name : String) : Parameters :=
  ⟨p.entries.filter (·.1 ≠ name), p.ascending.filter _⟩

/-- The number of tensors. -/
def size (p : Parameters) : Nat := p.entries.length

/-- The names, in ascending order. -/
def names (p : Parameters) : List String := p.entries.map (·.1)

/-- The values of a tensor that has to hold `length` finite values. -/
def checkTensor (name : String) (values : Array Scalar) (length : Nat) :
    Outcome (Array Scalar) :=
  if values.size ≠ length then refuseParameter (.length name values.size length)
  else match values.findIdx? fun x => !Scalar.isFinite x with
    | some position => refuseParameter (.notFinite name position)
    | none => .ok values

/-- Take a tensor out and check it; it stays out even if the check fails. -/
def take (p : Parameters) (name : String) (length : Nat) :
    Outcome (Array Scalar) × Parameters :=
  match p.get? name with
  | none => (refuseParameter (.missing name), p)
  | some values => (checkTensor name values length, p.erase name)

/-! ## Slots -/

/-- The name of the weights of a layer. -/
def weightSlot (module : String) (layer : Nat) : String := s!"{module}.linear_{layer}.weight"

/-- The name of the biases of a layer. -/
def biasSlot (module : String) (layer : Nat) : String := s!"{module}.linear_{layer}.bias"

/-- The names of the weights and biases of every layer of a module. -/
def slots (module : String) (layers : Nat) : List (String × String) :=
  (List.range layers).map fun i => (weightSlot module i, biasSlot module i)

/-- The identity matrix, flat. -/
def identityMatrix (width : Nat) : Array Scalar :=
  .ofFn (n := width * width) fun k => if k % (width + 1) = 0 then 1 else 0

/-- Tensors of square layers that map every row to itself. -/
def identity (module : String) (width layers : Nat) : Outcome Parameters := do
  Count.check (width * width)
  pure (ofList ((slots module layers).flatMap fun (weight, bias) =>
    [(weight, identityMatrix width), (bias, Array.replicate width 0)]))

/-! ## JSON -/

/-- The tensors as a JSON object. -/
def json (p : Parameters) : Json.Value :=
  .record (p.entries.map fun (name, values) => (name, .scalars values))

/-- Reads an object of flat lists; the last of equal names counts. -/
def ofJson? : Json.Decoder Parameters := fun v => do
  let members ← v.members?
  let entries ← members.mapM fun (name, value) => do pure (name, ← value.scalars?)
  pure (ofList entries)

end Parameters

end MessagePassing
