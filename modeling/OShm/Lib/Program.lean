import Mathlib.Logic.Basic

/-! # Programs with state, errors and fuel

A program runs from a state and ends with a result or an error in a new state, or it has run
out of fuel. The rules say what holds when a program ends, and that it ends.
-/

namespace OShm.Lib

def Prog (σ ε α : Type) := σ → Option (Except ε α × σ)

namespace Prog

variable {σ ε α β : Type}

protected def pure (a : α) : Prog σ ε α := fun s => some (.ok a, s)

/-- The second program starts in the state the first one ends in, unless that one failed. -/
protected def bind (m : Prog σ ε α) (f : α → Prog σ ε β) : Prog σ ε β := fun s =>
  match m s with
  | none => none
  | some (.error e, s') => some (.error e, s')
  | some (.ok a, s') => f a s'

instance : Monad (Prog σ ε) := { pure := Prog.pure, bind := Prog.bind }

def fail (e : ε) : Prog σ ε α := fun s => some (.error e, s)

def get : Prog σ ε σ := fun s => some (.ok s, s)

def update (f : σ → σ) : Prog σ ε Unit := fun s => some (.ok (), f s)

/-- Out of fuel. -/
def diverge : Prog σ ε α := fun _ => none

/-- Hands the outcome on instead of failing. -/
def attempt (m : Prog σ ε α) : Prog σ ε (Except ε α) := fun s =>
  match m s with
  | none => none
  | some (r, s') => some (.ok r, s')

/-! ## Evaluation -/

theorem bind_of_ok {m : Prog σ ε α} {f : α → Prog σ ε β} {s s' : σ} {a : α}
    (h : m s = some (.ok a, s')) : (m >>= f) s = f a s' := by
  show Prog.bind m f s = f a s'
  simp [Prog.bind, h]

theorem bind_of_error {m : Prog σ ε α} {f : α → Prog σ ε β} {s s' : σ} {e : ε}
    (h : m s = some (.error e, s')) : (m >>= f) s = some (.error e, s') := by
  show Prog.bind m f s = some (.error e, s')
  simp [Prog.bind, h]

theorem bind_of_none {m : Prog σ ε α} {f : α → Prog σ ε β} {s : σ} (h : m s = none) :
    (m >>= f) s = none := by
  show Prog.bind m f s = none
  simp [Prog.bind, h]

@[simp] theorem get_bind {f : σ → Prog σ ε β} {s : σ} : (get >>= f) s = f s s := rfl

@[simp] theorem update_bind {g : σ → σ} {f : Unit → Prog σ ε β} {s : σ} :
    (update g >>= f) s = f () (g s) := rfl

@[simp] theorem pure_apply {a : α} {s : σ} : (pure a : Prog σ ε α) s = some (.ok a, s) := rfl

@[simp] theorem fail_apply {e : ε} {s : σ} : (fail e : Prog σ ε α) s = some (.error e, s) := rfl

@[simp] theorem update_apply {g : σ → σ} {s : σ} :
    (update g : Prog σ ε Unit) s = some (.ok (), g s) := rfl

theorem bind_assoc {γ : Type} (m : Prog σ ε α) (f : α → Prog σ ε β) (g : β → Prog σ ε γ) :
    (m >>= f) >>= g = m >>= fun a => f a >>= g := by
  funext s
  show Prog.bind (Prog.bind m f) g s = Prog.bind m (fun a => Prog.bind (f a) g) s
  unfold Prog.bind
  rcases m s with _ | ⟨_ | _, _⟩ <;> rfl

theorem attempt_ignored (m : Prog σ ε α) (s : σ) :
    (m.attempt >>= fun _ => pure ()) s = (m s).map fun p => (.ok (), p.2) := by
  show Prog.bind m.attempt (fun _ => Prog.pure ()) s = _
  unfold Prog.bind attempt
  cases m s <;> rfl

/-- Two sequences that agree wherever the first part succeeds. -/
theorem bind_congr_ok {m : Prog σ ε α} {f g : α → Prog σ ε β} {s : σ}
    (h : ∀ a t, m s = some (.ok a, t) → f a t = g a t) : (m >>= f) s = (m >>= g) s := by
  cases hm : m s with
  | none => rw [bind_of_none hm, bind_of_none hm]
  | some p =>
      obtain ⟨r, t⟩ := p
      cases r with
      | error e => rw [bind_of_error hm, bind_of_error hm]
      | ok a => rw [bind_of_ok hm, bind_of_ok hm, h a t hm]

theorem bind_eq_some {m : Prog σ ε α} {f : α → Prog σ ε β} {s s' : σ} {r : Except ε β}
    (h : (m >>= f) s = some (r, s')) :
    (∃ e, m s = some (.error e, s') ∧ r = .error e) ∨
      ∃ a t, m s = some (.ok a, t) ∧ f a t = some (r, s') := by
  cases hm : m s with
  | none => cases (bind_of_none hm).symm.trans h
  | some p =>
      obtain ⟨r', t⟩ := p
      cases r' with
      | error e =>
          have heq := (bind_of_error hm).symm.trans h
          simp only [Option.some.injEq, Prod.mk.injEq] at heq
          exact Or.inl ⟨e, by rw [heq.2], heq.1.symm⟩
      | ok a => exact Or.inr ⟨a, t, rfl, (bind_of_ok hm).symm.trans h⟩

/-! ## What holds when a program ends -/

/-- From a state with `P` the program can only end with `Q`. -/
def Ensures (P : σ → Prop) (m : Prog σ ε α) (Q : Except ε α → σ → Prop) : Prop :=
  ∀ s r s', P s → m s = some (r, s') → Q r s'

/-- The program keeps `P`, whether it fails or not. -/
abbrev Keeps (P : σ → Prop) (m : Prog σ ε α) : Prop := Ensures P m fun _ => P

section Rules

variable {P : σ → Prop} {m : Prog σ ε α} {f : α → Prog σ ε β}

theorem Ensures.bind {R : α → σ → Prop} {Q : Except ε β → σ → Prop}
    (hm : Ensures P m fun r s => match r with
      | .error e => Q (.error e) s
      | .ok a => R a s)
    (hf : ∀ a, Ensures (R a) (f a) Q) : Ensures P (m >>= f) Q := by
  intro s r s' hP h
  rcases bind_eq_some h with ⟨e, hms, rfl⟩ | ⟨a, t, hms, hft⟩
  · exact hm s _ s' hP hms
  · exact hf a t r s' (hm s _ t hP hms) hft

theorem Ensures.weaken {Q Q' : Except ε α → σ → Prop} (hm : Ensures P m Q)
    (h : ∀ r s, Q r s → Q' r s) : Ensures P m Q' :=
  fun s r s' hP hs => h r s' (hm s r s' hP hs)

/-- The first part keeps the condition, and a failure is fine whenever it holds. -/
theorem Keeps.andThen {Q : Except ε β → σ → Prop} (hm : Keeps P m)
    (hfail : ∀ e s, P s → Q (.error e) s) (hf : ∀ a, Ensures P (f a) Q) :
    Ensures P (m >>= f) Q := by
  refine Ensures.bind (R := fun _ => P) ?_ hf
  intro s r s' hP hs
  cases r with
  | error e => exact hfail e s' (hm s _ s' hP hs)
  | ok a => exact hm s _ s' hP hs

theorem Keeps.bind (hm : Keeps P m) (hf : ∀ a, Keeps P (f a)) : Keeps P (m >>= f) := by
  exact hm.andThen (fun _ _ hP => hP) hf

theorem Keeps.pure (a : α) : Keeps P (pure a : Prog σ ε α) := by
  intro s r s' hP h
  cases h
  exact hP

theorem Keeps.fail (e : ε) : Keeps P (Prog.fail e : Prog σ ε α) := by
  intro s r s' hP h
  cases h
  exact hP

theorem Keeps.get : Keeps P (Prog.get : Prog σ ε σ) := by
  intro s r s' hP h
  cases h
  exact hP

theorem Keeps.diverge : Keeps P (Prog.diverge : Prog σ ε α) := by
  intro s r s' _ h
  cases h

theorem Keeps.update {g : σ → σ} (h : ∀ s, P s → P (g s)) :
    Keeps P (Prog.update g : Prog σ ε Unit) := by
  intro s r s' hP hs
  cases hs
  exact h s hP

theorem Keeps.attempt (hm : Keeps P m) : Keeps P m.attempt := by
  intro s r s' hP h
  unfold Prog.attempt at h
  cases hms : m s with
  | none =>
      rw [hms] at h
      cases h
  | some p =>
      rw [hms] at h
      cases h
      exact hm s p.1 p.2 hP hms

end Rules

/-! ## That a program ends -/

/-- From `s` the program ends, with `Q`. -/
def Finishes (m : Prog σ ε α) (s : σ) (Q : Except ε α → σ → Prop) : Prop :=
  ∃ r s', m s = some (r, s') ∧ Q r s'

/-- The program ends from every state. -/
def Total (m : Prog σ ε α) : Prop := ∀ s, Finishes m s fun _ _ => True

section Ends

variable {m : Prog σ ε α} {f : α → Prog σ ε β} {s : σ}

theorem Finishes.bind {Q : Except ε β → σ → Prop}
    (hm : Finishes m s fun r t => match r with
      | .error e => Q (.error e) t
      | .ok a => Finishes (f a) t Q) : Finishes (m >>= f) s Q := by
  obtain ⟨r, t, h, hQ⟩ := hm
  cases r with
  | error e => exact ⟨_, _, bind_of_error h, hQ⟩
  | ok a =>
      obtain ⟨r', t', h', hQ'⟩ := hQ
      exact ⟨r', t', (bind_of_ok h).trans h', hQ'⟩

theorem Finishes.step {Q : Except ε β → σ → Prop} {a : α} {t : σ} (h : m s = some (.ok a, t))
    (hf : Finishes (f a) t Q) : Finishes (m >>= f) s Q :=
  Finishes.bind ⟨_, _, h, hf⟩

theorem Finishes.stop {Q : Except ε β → σ → Prop} {e : ε} {t : σ} (h : m s = some (.error e, t))
    (hQ : Q (.error e) t) : Finishes (m >>= f) s Q :=
  Finishes.bind ⟨_, _, h, hQ⟩

theorem Finishes.get {f : σ → Prog σ ε β} {Q : Except ε β → σ → Prop} (h : Finishes (f s) s Q) :
    Finishes (Prog.get >>= f) s Q := h

theorem Finishes.weaken {Q Q' : Except ε α → σ → Prop} (hm : Finishes m s Q)
    (h : ∀ r t, Q r t → Q' r t) : Finishes m s Q' := by
  obtain ⟨r, t, hr, hQ⟩ := hm
  exact ⟨r, t, hr, h r t hQ⟩

theorem Total.pure (a : α) : Total (pure a : Prog σ ε α) := fun s => ⟨_, s, rfl, trivial⟩

theorem Total.fail (e : ε) : Total (Prog.fail e : Prog σ ε α) := fun s => ⟨_, s, rfl, trivial⟩

theorem Total.get : Total (Prog.get : Prog σ ε σ) := fun s => ⟨_, s, rfl, trivial⟩

theorem Total.update (g : σ → σ) : Total (Prog.update g : Prog σ ε Unit) :=
  fun s => ⟨_, g s, rfl, trivial⟩

theorem Total.bind (hm : Total m) (hf : ∀ a, Total (f a)) : Total (m >>= f) := by
  intro s
  apply Finishes.bind
  apply (hm s).weaken
  intro r t _
  cases r with
  | error e => trivial
  | ok a => exact hf a t

theorem Total.attempt (hm : Total m) : Total m.attempt := by
  intro s
  obtain ⟨r, t, h, _⟩ := hm s
  exact ⟨.ok r, t, by simp [Prog.attempt, h], trivial⟩

end Ends

end Prog

end OShm.Lib
