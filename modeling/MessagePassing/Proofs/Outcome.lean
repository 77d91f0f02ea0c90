/-
  Message passing — outcomes that only counts can spoil.

  An operation on features that fit each other fails at most because a count leaves
  the 64-bit range.  `within fits a` is the outcome of such an operation: the result
  `a` if `fits`, and the overflow fault otherwise.  Sequences of such operations have
  such an outcome again (`within_bind_within`, `mapM_within`), so that a whole round
  comes down to one condition and one result.
-/
import MessagePassing.Count

namespace MessagePassing

variable {α β : Type}

/-! ## Sequences -/

namespace Outcome

@[simp]
theorem ok_bind (a : α) (f : α → Outcome β) : ((.ok a : Outcome α) >>= f) = f a := rfl

@[simp]
theorem error_bind (e : Failure) (f : α → Outcome β) :
    ((.error e : Outcome α) >>= f) = .error e := rfl

/-- A sequence succeeds iff both of its parts do. -/
theorem bind_eq_ok {x : Outcome α} {f : α → Outcome β} {b : β} :
    (x >>= f) = .ok b ↔ ∃ a, x = .ok a ∧ f a = .ok b := by
  cases x with
  | error e => simp
  | ok a => simp

/-- What follows an operation matters at its result only. -/
theorem bind_congr {x : Outcome α} {f g : α → Outcome β} (h : ∀ a, x = .ok a → f a = g a) :
    (x >>= f) = (x >>= g) := by
  cases x with
  | error e => rfl
  | ok a => exact h a rfl

/-- A sequence is refused by one of its parts. -/
theorem bind_ne_refused {x : Outcome α} {f : α → Outcome β} {e : Error}
    (first : x ≠ .error (.refused e)) (next : ∀ a, f a ≠ .error (.refused e)) :
    (x >>= f) ≠ .error (.refused e) := by
  cases x with
  | error failure =>
    rintro ⟨⟩
    exact first rfl
  | ok a => exact next a

/-- A function on the result of an operation that succeeds. -/
theorem map_eq_ok {f : α → β} {x : Outcome α} {b : β} :
    f <$> x = .ok b ↔ ∃ a, x = .ok a ∧ f a = b := by
  cases x with
  | error e => simp [Functor.map, Except.map]
  | ok a => simp [Functor.map, Except.map]

theorem map_congr {f g : α → β} {x : Outcome α} (h : ∀ a, x = .ok a → f a = g a) :
    f <$> x = g <$> x := by
  cases x with
  | error e => rfl
  | ok a => exact congrArg Except.ok (h a rfl)

theorem exists_of_isOk {x : Outcome α} (h : x.isOk = true) : ∃ a, x = .ok a := by
  cases x with
  | ok a => exact ⟨a, rfl⟩
  | error e => cases h

/-- Operations that succeed, one after the other. -/
theorem mapM_eq_ok {f : α → Outcome β} {g : α → β} {l : List α}
    (h : ∀ x ∈ l, f x = .ok (g x)) : l.mapM f = .ok (l.map g) := by
  induction l with
  | nil => rfl
  | cons x rest ih =>
    rw [List.mapM_cons, h x List.mem_cons_self, ih fun y hy => h y (List.mem_cons_of_mem _ hy)]
    rfl

/-- A loop whose steps succeed. -/
theorem foldlM_eq_ok {f : β → α → Outcome β} {g : β → α → β} {l : List α}
    (h : ∀ b, ∀ x ∈ l, f b x = .ok (g b x)) (b : β) : l.foldlM f b = .ok (l.foldl g b) := by
  induction l generalizing b with
  | nil => rfl
  | cons x rest ih =>
    rw [List.foldlM_cons, h b x List.mem_cons_self, ok_bind]
    exact ih (fun c y hy => h c y (List.mem_cons_of_mem _ hy)) _

/-- A loop on one form of a value does what the loop on the other form does. -/
theorem foldlM_of_map {γ : Type} (φ : β → γ) (f : γ → α → Outcome γ) (g : β → α → Outcome β)
    (h : ∀ b x, f (φ b) x = φ <$> g b x) (l : List α) (b : β) :
    l.foldlM f (φ b) = φ <$> l.foldlM g b := by
  induction l generalizing b with
  | nil => rfl
  | cons x rest ih =>
    rw [List.foldlM_cons, List.foldlM_cons, h, bind_map_left, map_bind]
    exact bind_congr fun c _ => ih c

/-- Where operations succeed one after the other, each of them does. -/
theorem getElem?_of_mapM {f : α → Outcome β} {l : List α} {k : List β} (h : l.mapM f = .ok k) :
    k.length = l.length ∧
      ∀ (i : Nat) (x : α), l[i]? = some x → ∃ y, k[i]? = some y ∧ f x = .ok y := by
  induction l generalizing k with
  | nil =>
    cases h
    simp
  | cons x rest ih =>
    rw [List.mapM_cons] at h
    obtain ⟨y, first, h⟩ := bind_eq_ok.1 h
    obtain ⟨others, tail, h⟩ := bind_eq_ok.1 h
    cases h
    obtain ⟨length, each⟩ := ih tail
    refine ⟨by simp [length], fun i z hz => ?_⟩
    cases i with
    | zero =>
      obtain rfl : x = z := by simpa using hz
      exact ⟨y, rfl, first⟩
    | succ i => exact each i z (by simpa using hz)

theorem exists_of_mapM {f : α → Outcome β} {l : List α} {k : List β} (h : l.mapM f = .ok k)
    {x : α} (hx : x ∈ l) : ∃ y, f x = .ok y := by
  obtain ⟨i, hi⟩ := List.getElem?_of_mem hx
  obtain ⟨y, -, hy⟩ := (getElem?_of_mapM h).2 i x hi
  exact ⟨y, hy⟩

end Outcome

/-! ## Results within the range of counts -/

namespace Count

/-- The result of an operation whose counts fit, and a fault if they do not. -/
def within (fits : Prop) [Decidable fits] (a : α) : Outcome α :=
  if fits then .ok a else .error (.fault .countOverflow)

variable {p q : Prop} [Decidable p] [Decidable q]

theorem within_of_fits (h : p) (a : α) : within p a = .ok a := if_pos h

theorem within_of_not_fits (h : ¬ p) (a : α) :
    within p a = .error (.fault .countOverflow) := if_neg h

theorem within_eq_ok {a b : α} : within p a = .ok b ↔ p ∧ a = b := by
  unfold within
  split <;> simp_all

/-- What holds of the value within the range holds of the result. -/
theorem of_within {P : α → Prop} {x : Outcome α} {b : α} (h : ∃ a, x = within p a ∧ P a)
    (run : x = .ok b) : P b := by
  obtain ⟨a, rfl, ha⟩ := h
  obtain ⟨-, rfl⟩ := within_eq_ok.1 run
  exact ha

/-- An outcome within the range is never a refusal. -/
theorem within_ne_refused (a : α) (e : Error) : within p a ≠ .error (.refused e) := by
  unfold within
  split <;> simp

theorem within_congr (h : p ↔ q) {a b : α} (same : a = b) : within p a = within q b := by
  subst same
  by_cases hq : q
  · rw [within_of_fits hq, within_of_fits (h.2 hq)]
  · rw [within_of_not_fits hq, within_of_not_fits fun hp => hq (h.1 hp)]

theorem within_bind_within {a : α} {f : α → Outcome β} {b : β} (h : f a = within q b) :
    (within p a >>= f) = within (p ∧ q) b := by
  by_cases hp : p
  · rw [within_of_fits hp, Outcome.ok_bind, h]
    exact within_congr (by simp [hp]) rfl
  · rw [within_of_not_fits hp, Outcome.error_bind, within_of_not_fits fun hpq => hp hpq.1]

/-- Two steps within the range, with the conditions and the results in another form. -/
theorem within_bind_congr {r : Prop} [Decidable r] {a : α} {f : α → Outcome β} {b c : β}
    (h : f a = within q b) (fits : p ∧ q ↔ r) (same : b = c) :
    (within p a >>= f) = within r c := by
  rw [within_bind_within h]
  exact within_congr fits same

/-- A function on the result leaves the condition as it is. -/
theorem within_bind_pure {a : α} {f : α → β} :
    (within p a >>= fun x => (pure (f x) : Outcome β)) = within p (f a) := by
  by_cases hp : p
  · rw [within_of_fits hp, within_of_fits hp]; rfl
  · rw [within_of_not_fits hp, within_of_not_fits hp]; rfl

theorem map_within (f : α → β) (a : α) : f <$> within p a = within p (f a) := by
  unfold within
  split <;> rfl

theorem check_bind (n : Nat) (f : Unit → Outcome β) :
    (check n >>= f) = if n < limit then f () else .error (.fault .countOverflow) := by
  unfold check; split <;> rfl

theorem check_bind_pure (n : Nat) (b : β) :
    (check n >>= fun _ => (pure b : Outcome β)) = within (n < limit) b :=
  check_bind n _

theorem checked_ne_refused (n : Nat) (e : Error) : checked n ≠ .error (.refused e) := by
  rw [checked, check_bind_pure]
  exact within_ne_refused n e

theorem mul_eq_within (a b : Nat) : mul a b = within (a * b < limit) (a * b) := by
  show (check (a * b) >>= fun _ => pure (a * b)) = _
  exact check_bind_pure _ _

theorem sum_eq_within (l : List Nat) : sum l = within (total l < limit) (total l) := by
  show (check (total l) >>= fun _ => pure (total l)) = _
  exact check_bind_pure _ _

/-- Operations one after the other, each on its own item. -/
theorem mapM_within {γ : Type} {f : γ → Outcome β} {fits : γ → Prop} [DecidablePred fits]
    {g : γ → β} {l : List γ} (h : ∀ x ∈ l, f x = within (fits x) (g x)) :
    l.mapM f = within (∀ x ∈ l, fits x) (l.map g) := by
  induction l with
  | nil => exact (within_of_fits (by simp) _).symm
  | cons x rest ih =>
    have others := ih fun y hy => h y (List.mem_cons_of_mem _ hy)
    have both : (x :: rest).mapM f =
        within (fits x ∧ ∀ y ∈ rest, fits y) (g x :: rest.map g) := by
      rw [List.mapM_cons, h x List.mem_cons_self, others]
      exact within_bind_within within_bind_pure
    rw [both]
    exact within_congr List.forall_mem_cons.symm rfl

/-! ## Totals -/

@[simp]
theorem total_nil : total [] = 0 := rfl

@[simp]
theorem total_cons (n : Nat) (l : List Nat) : total (n :: l) = n + total l := rfl

theorem le_total {n : Nat} {l : List Nat} (h : n ∈ l) : n ≤ total l := by
  induction l with
  | nil => simp at h
  | cons m rest ih =>
    rcases List.mem_cons.1 h with rfl | h
    · exact Nat.le_add_right _ _
    · exact Nat.le_trans (ih h) (Nat.le_add_left _ _)

end Count

end MessagePassing
