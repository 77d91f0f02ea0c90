/-
  Message passing — checks in order.

  A `Check` is a condition with the error that is raised where it fails, and `verdict`
  looks at checks up to the first that fails.  `DecidedBy x checks` says that an
  operation succeeds iff all checks hold and else raises the error of the first that
  fails; `DecidedBy.bind` puts the checks of a sequence one after the other, so that
  the order of the checks is the order of the code.

  * `verdict_eq_ok`, `verdict_eq_error`: the two ways in which a verdict ends;
  * `DecidedBy.ok_iff`, `DecidedBy.error_iff`: the same of an operation.
-/
import MessagePassing.Proofs.Outcome

namespace MessagePassing

variable {α β : Type}

/-! ## Verdicts -/

/-- A condition, and the error where it fails. -/
structure Check where
  holds : Prop
  [decidable : Decidable holds]
  error : Error

instance (c : Check) : Decidable c.holds := c.decidable

/-- Checks one after the other, up to the first that fails. -/
def verdict : List Check → Outcome Unit
  | [] => .ok ()
  | c :: rest => if c.holds then verdict rest else .error (.refused c.error)

/-- A check that fails after checks that hold, and the failure that it gives. -/
def FirstFailing (checks : List Check) (failure : Failure) : Prop :=
  ∃ before c after, checks = before ++ c :: after ∧ (∀ b ∈ before, b.holds) ∧ ¬ c.holds ∧
    failure = .refused c.error

theorem verdict_append (l k : List Check) :
    verdict (l ++ k) = (verdict l >>= fun _ => verdict k) := by
  induction l with
  | nil => rfl
  | cons c rest ih =>
    by_cases h : c.holds
    · simp only [List.cons_append, verdict, if_pos h, ih]
    · simp only [List.cons_append, verdict, if_neg h, Outcome.error_bind]

theorem verdict_eq_ok {l : List Check} : verdict l = .ok () ↔ ∀ c ∈ l, c.holds := by
  induction l with
  | nil => simp [verdict]
  | cons c rest ih =>
    by_cases h : c.holds
    · simp [verdict, h, ih]
    · simp [verdict, h]

theorem verdict_eq_error {l : List Check} {f : Failure} :
    verdict l = .error f ↔ FirstFailing l f := by
  constructor
  · intro h
    induction l with
    | nil => simp [verdict] at h
    | cons c rest ih =>
      by_cases hc : c.holds
      · rw [verdict, if_pos hc] at h
        obtain ⟨before, d, after, rfl, hold, fails, rfl⟩ := ih h
        refine ⟨c :: before, d, after, rfl, fun b hb => ?_, fails, rfl⟩
        rcases List.mem_cons.1 hb with rfl | hb
        · exact hc
        · exact hold b hb
      · rw [verdict, if_neg hc] at h
        cases h
        exact ⟨[], c, rest, rfl, by simp, hc, rfl⟩
  · rintro ⟨before, c, after, rfl, hold, fails, rfl⟩
    rw [verdict_append, verdict_eq_ok.2 hold, Outcome.ok_bind, verdict, if_neg fails]

/-- Checks of one form on the members of a list fail at the first bad member. -/
theorem verdict_map_of_find? {γ : Type} {check : γ → Check} (bad : γ → Bool) (l : List γ)
    (h : ∀ x, (check x).holds ↔ bad x = false) :
    verdict (l.map check) = match l.find? bad with
      | some x => .error (.refused (check x).error)
      | none => .ok () := by
  induction l with
  | nil => rfl
  | cons x rest ih =>
    cases hx : bad x with
    | true =>
      have fails : ¬ (check x).holds := by rw [h, hx]; simp
      rw [List.map_cons, verdict, if_neg fails, List.find?_cons_of_pos hx]
    | false =>
      rw [List.map_cons, verdict, if_pos ((h x).2 hx), ih,
        List.find?_cons_of_neg (by rw [hx]; simp)]

/-- Checks of one form on the positions of a list, whose errors tell the position,
    fail at the first bad one. -/
theorem verdict_map_zipIdx {γ : Type} {check : γ × Nat → Check} (error : Nat → Error)
    (bad : γ → Bool) (holds : ∀ p, (check p).holds ↔ bad p.1 = false)
    (tells : ∀ p, (check p).error = error p.2) (l : List γ) (n : Nat) :
    verdict ((l.zipIdx n).map check) = match l.findIdx? bad with
      | some i => .error (.refused (error (n + i)))
      | none => .ok () := by
  induction l generalizing n with
  | nil => rfl
  | cons x rest ih =>
    rw [List.zipIdx_cons, List.map_cons, verdict, List.findIdx?_cons]
    cases hx : bad x with
    | true =>
      have fails : ¬ (check (x, n)).holds := by rw [holds, hx]; simp
      rw [if_neg fails, tells, if_pos rfl]
      rfl
    | false =>
      rw [if_pos ((holds (x, n)).2 hx), ih, if_neg Bool.false_ne_true]
      cases rest.findIdx? bad with
      | none => rfl
      | some i => simp only [Option.map_some, Nat.add_assoc, Nat.add_comm 1 i]

/-! ## Operations decided by checks -/

/-- The operation succeeds iff the checks hold, and fails as their verdict does. -/
def DecidedBy (x : Outcome α) (checks : List Check) : Prop :=
  x.map (fun _ => ()) = verdict checks

namespace DecidedBy

variable {x : Outcome α} {cs ds : List Check}

theorem ok_iff (h : DecidedBy x cs) : (∃ a, x = .ok a) ↔ ∀ c ∈ cs, c.holds := by
  rw [← verdict_eq_ok, ← h]
  cases x with
  | error e => simp [Except.map]
  | ok a => simp [Except.map]

theorem error_iff (h : DecidedBy x cs) {f : Failure} : x = .error f ↔ FirstFailing cs f := by
  rw [← verdict_eq_error, ← h]
  cases x with
  | error e => simp [Except.map]
  | ok a => simp [Except.map]

/-- Success without a check. -/
theorem ok (a : α) : DecidedBy (.ok a) [] := rfl

/-- The checks of a sequence. -/
theorem bind {f : α → Outcome β} (hx : DecidedBy x cs)
    (hf : ∀ a, x = .ok a → DecidedBy (f a) ds) : DecidedBy (x >>= f) (cs ++ ds) := by
  cases x with
  | error e =>
    have failed : verdict cs = .error e := hx.symm
    show Except.error e = verdict (cs ++ ds)
    rw [verdict_append, failed, Outcome.error_bind]
  | ok a =>
    have passed : verdict cs = .ok () := hx.symm
    show (f a).map (fun _ => ()) = verdict (cs ++ ds)
    rw [verdict_append, passed, Outcome.ok_bind]
    exact hf a rfl

/-- A step that always succeeds adds no check. -/
theorem bind_ok {f : α → Outcome β} (hx : DecidedBy x cs) (hf : ∀ a, x = .ok a → ∃ b, f a = .ok b) :
    DecidedBy (x >>= f) cs := by
  have steps : DecidedBy (x >>= f) (cs ++ []) := hx.bind fun a ha => by
    obtain ⟨b, hb⟩ := hf a ha
    rw [hb]
    exact ok b
  rwa [List.append_nil] at steps

/-- A single check. -/
theorem single {c : Check} {a : α} (pass : c.holds → x = .ok a)
    (fail : ¬ c.holds → x = .error (.refused c.error)) : DecidedBy x [c] := by
  by_cases h : c.holds
  · rw [pass h]
    show Except.ok () = verdict [c]
    rw [verdict, if_pos h, verdict]
  · rw [fail h]
    show Except.error _ = verdict [c]
    rw [verdict, if_neg h]

end DecidedBy

end MessagePassing
