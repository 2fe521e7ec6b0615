import Mathlib.Data.List.Forall2
import Mathlib.Data.List.Infix

/-! # Runs of labelled transition systems

A system takes one action at a time. An action that is not enabled has no
successor; an enabled one has a single successor and shows one event. Runs keep
every event in order, so statements about histories are statements about the
run itself. `Along` states a condition on each step of a run in the state before
that step, and `Throughout` states a property of each state a run passes.
-/

namespace OShm.Lib

structure System (S A E : Type*) where
  step : S → A → Option (S × E)

namespace System

variable {S A E : Type*} (M : System S A E)

def run : S → List A → Option (S × List E)
  | s, [] => some (s, [])
  | s, a :: as =>
      match M.step s a with
      | none => none
      | some (m, e) => (run m as).map fun r => (r.1, e :: r.2)

@[simp] theorem run_nil (s : S) : M.run s [] = some (s, []) := rfl

theorem run_cons_iff {s s' : S} {a : A} {as : List A} {tr : List E} :
    M.run s (a :: as) = some (s', tr) ↔
      ∃ m e rest, M.step s a = some (m, e) ∧ M.run m as = some (s', rest) ∧ tr = e :: rest := by
  cases h : M.step s a with
  | none => simp [run, h]
  | some p =>
      obtain ⟨m, e⟩ := p
      simp only [run, h, Option.map_eq_some_iff, Prod.mk.injEq, Prod.exists, Option.some.injEq]
      constructor
      · rintro ⟨x, rest, hr, rfl, rfl⟩
        exact ⟨m, e, rest, ⟨rfl, rfl⟩, hr, rfl⟩
      · rintro ⟨m', e', rest, ⟨rfl, rfl⟩, hr, rfl⟩
        exact ⟨s', rest, hr, rfl, rfl⟩

theorem run_append {s m s' : S} {as bs : List A} {tr tr' : List E}
    (h : M.run s as = some (m, tr)) (h' : M.run m bs = some (s', tr')) :
    M.run s (as ++ bs) = some (s', tr ++ tr') := by
  induction as generalizing s tr with
  | nil =>
      obtain ⟨rfl, rfl⟩ : s = m ∧ [] = tr := by simpa using h
      exact h'
  | cons a as ih =>
      obtain ⟨n, e, rest, hs, hrest, rfl⟩ := M.run_cons_iff.mp h
      exact M.run_cons_iff.mpr ⟨n, e, rest ++ tr', hs, ih hrest, rfl⟩

theorem exists_run_of_append {s s' : S} {as bs : List A} {tr : List E}
    (h : M.run s (as ++ bs) = some (s', tr)) :
    ∃ m tr₁ tr₂, M.run s as = some (m, tr₁) ∧ M.run m bs = some (s', tr₂) := by
  induction as generalizing s tr with
  | nil => exact ⟨s, [], tr, rfl, h⟩
  | cons a as ih =>
      obtain ⟨n, e, rest, hs, hrest, -⟩ := M.run_cons_iff.mp h
      obtain ⟨m, tr₁, tr₂, h₁, h₂⟩ := ih hrest
      exact ⟨m, e :: tr₁, tr₂, M.run_cons_iff.mpr ⟨n, e, tr₁, hs, h₁, rfl⟩, h₂⟩

theorem run_singleton {s s' : S} {a : A} {e : E} (h : M.step s a = some (s', e)) :
    M.run s [a] = some (s', [e]) :=
  M.run_cons_iff.mpr ⟨s', e, [], h, rfl, rfl⟩

/-! ## Invariants -/

/-- What one step keeps, a whole run keeps. -/
theorem run_invariant {Inv : S → Prop}
    (keep : ∀ {s a s' e}, Inv s → M.step s a = some (s', e) → Inv s')
    {s s' : S} {as : List A} {tr : List E} (hi : Inv s) (hr : M.run s as = some (s', tr)) :
    Inv s' := by
  induction as generalizing s tr with
  | nil =>
      obtain ⟨rfl, -⟩ : s = s' ∧ [] = tr := by simpa using hr
      exact hi
  | cons a as ih =>
      obtain ⟨m, e, rest, hs, hrest, -⟩ := M.run_cons_iff.mp hr
      exact ih (keep hi hs) hrest

/-- The same rule for a relation between the state and everything shown so far. -/
theorem run_history {R : S → List E → Prop}
    (keep : ∀ {s a s' e hist}, R s hist → M.step s a = some (s', e) → R s' (hist ++ [e]))
    {s s' : S} {as : List A} {tr hist : List E} (hi : R s hist)
    (hr : M.run s as = some (s', tr)) : R s' (hist ++ tr) := by
  induction as generalizing s tr hist with
  | nil =>
      obtain ⟨rfl, rfl⟩ : s = s' ∧ [] = tr := by simpa using hr
      simpa using hi
  | cons a as ih =>
      obtain ⟨m, e, rest, hs, hrest, rfl⟩ := M.run_cons_iff.mp hr
      simpa using ih (keep hi hs) hrest

/-! ## Conditions on the steps of a run -/

/-- Every step of the run meets `P` in the state it is taken from. -/
def Along (P : S → A → Prop) : S → List A → Prop
  | _, [] => True
  | s, a :: as => P s a ∧ ∀ m e, M.step s a = some (m, e) → Along P m as

theorem along_invariant {Inv : S → Prop} {P : S → A → Prop}
    (keep : ∀ {s a s' e}, Inv s → P s a → M.step s a = some (s', e) → Inv s')
    {s s' : S} {as : List A} {tr : List E} (hi : Inv s) (hp : M.Along P s as)
    (hr : M.run s as = some (s', tr)) : Inv s' := by
  induction as generalizing s tr with
  | nil =>
      obtain ⟨rfl, -⟩ : s = s' ∧ [] = tr := by simpa using hr
      exact hi
  | cons a as ih =>
      obtain ⟨m, e, rest, hs, hrest, -⟩ := M.run_cons_iff.mp hr
      exact ih (keep hi hp.1 hs) (hp.2 m e hs) hrest

theorem along_history {R : S → List E → Prop} {P : S → A → Prop}
    (keep : ∀ {s a s' e hist}, R s hist → P s a → M.step s a = some (s', e) → R s' (hist ++ [e]))
    {s s' : S} {as : List A} {tr hist : List E} (hi : R s hist) (hp : M.Along P s as)
    (hr : M.run s as = some (s', tr)) : R s' (hist ++ tr) := by
  induction as generalizing s tr hist with
  | nil =>
      obtain ⟨rfl, rfl⟩ : s = s' ∧ [] = tr := by simpa using hr
      simpa using hi
  | cons a as ih =>
      obtain ⟨m, e, rest, hs, hrest, rfl⟩ := M.run_cons_iff.mp hr
      simpa using ih (keep hi hp.1 hs) (hp.2 m e hs) hrest

theorem along_of_forall {P : A → Prop} {s : S} {as : List A} (h : ∀ a ∈ as, P a) :
    M.Along (fun _ a => P a) s as := by
  induction as generalizing s with
  | nil => trivial
  | cons a as ih =>
      obtain ⟨ha, has⟩ := List.forall_mem_cons.mp h
      exact ⟨ha, fun m e _ => ih has⟩

theorem Along.left {P : S → A → Prop} {s : S} {as bs : List A}
    (h : M.Along P s (as ++ bs)) : M.Along P s as := by
  induction as generalizing s with
  | nil => trivial
  | cons a as ih => exact ⟨h.1, fun m e hs => ih (h.2 m e hs)⟩

theorem Along.append {P : S → A → Prop} {s m : S} {as bs : List A} {tr : List E}
    (h : M.Along P s as) (hr : M.run s as = some (m, tr)) (h' : M.Along P m bs) :
    M.Along P s (as ++ bs) := by
  induction as generalizing s tr with
  | nil =>
      obtain ⟨rfl, -⟩ : s = m ∧ [] = tr := by simpa using hr
      exact h'
  | cons a as ih =>
      obtain ⟨s₁, e, rest, hs, hrest, -⟩ := M.run_cons_iff.mp hr
      refine ⟨h.1, fun s₂ e₂ hs₂ => ?_⟩
      obtain ⟨rfl, -⟩ : s₁ = s₂ ∧ e = e₂ := by simpa [hs] using hs₂
      exact ih (h.2 _ _ hs) hrest

theorem Along.mono {P Q : S → A → Prop} {s : S} {as : List A} (h : M.Along P s as)
    (hpq : ∀ s a, P s a → Q s a) : M.Along Q s as := by
  induction as generalizing s with
  | nil => trivial
  | cons a as ih => exact ⟨hpq s a h.1, fun m e hs => ih (h.2 m e hs)⟩

theorem along_cons_iff {P : S → A → Prop} {s m : S} {a : A} {e : E} {as : List A}
    (hs : M.step s a = some (m, e)) : M.Along P s (a :: as) ↔ P s a ∧ M.Along P m as := by
  refine and_congr_right fun _ => ⟨fun h => h m e hs, ?_⟩
  intro h m' e' hs'
  obtain ⟨rfl, rfl⟩ : m = m' ∧ e = e' := by simpa [hs] using hs'
  exact h

instance decidableAlong {P : S → A → Prop} [∀ s a, Decidable (P s a)] :
    ∀ s as, Decidable (M.Along P s as)
  | _, [] => isTrue trivial
  | s, a :: as =>
      match h : M.step s a with
      | none => decidable_of_iff (P s a) ⟨fun hp => ⟨hp, by simp [h]⟩, And.left⟩
      | some (m, _) =>
          have : Decidable (M.Along P m as) := decidableAlong m as
          decidable_of_iff _ (M.along_cons_iff h).symm

/-- `Q` holds in every state the run passes, its ends included. -/
def Throughout (Q : S → Prop) (s : S) (as : List A) : Prop :=
  ∀ pre, pre <+: as → ∀ m tr, M.run s pre = some (m, tr) → Q m

theorem throughout_cons_iff {Q : S → Prop} {s m : S} {a : A} {e : E} {as : List A}
    (hs : M.step s a = some (m, e)) :
    M.Throughout Q s (a :: as) ↔ Q s ∧ M.Throughout Q m as := by
  constructor
  · intro h
    refine ⟨h [] List.nil_prefix s [] rfl, ?_⟩
    intro pre hpre n tr hr
    exact h (a :: pre) ((List.cons_prefix_cons).mpr ⟨rfl, hpre⟩) n (e :: tr)
      (M.run_cons_iff.mpr ⟨m, e, tr, hs, hr, rfl⟩)
  · rintro ⟨hq, h⟩ pre hpre n tr hr
    cases pre with
    | nil =>
        obtain ⟨rfl, -⟩ : s = n ∧ [] = tr := by simpa using hr
        exact hq
    | cons b pre =>
        obtain ⟨rfl, hrestpre⟩ := List.cons_prefix_cons.mp hpre
        obtain ⟨m', e', rest, hs', hrest, -⟩ := M.run_cons_iff.mp hr
        obtain ⟨rfl, rfl⟩ : m = m' ∧ e = e' := by simpa [hs] using hs'
        exact h pre hrestpre n rest hrest

theorem throughout_nil_iff {Q : S → Prop} {s : S} : M.Throughout Q s [] ↔ Q s := by
  refine ⟨fun h => h [] List.nil_prefix s [] rfl, ?_⟩
  intro hq pre hpre m tr hm
  obtain rfl := List.prefix_nil.mp hpre
  obtain ⟨rfl, -⟩ : s = m ∧ [] = tr := by simpa using hm
  exact hq

/-- The states a run passes are those its steps are taken from, and its end. -/
theorem throughout_iff_starts {Q : S → Prop} {s s' : S} {as : List A} {tr : List E}
    (hr : M.run s as = some (s', tr)) :
    M.Throughout Q s as ↔ M.Along (fun s _ => Q s) s as ∧ Q s' := by
  induction as generalizing s tr with
  | nil =>
      obtain ⟨rfl, -⟩ : s = s' ∧ [] = tr := by simpa using hr
      rw [M.throughout_nil_iff]
      exact ⟨fun hq => ⟨trivial, hq⟩, And.right⟩
  | cons a as ih =>
      obtain ⟨m, e, rest, hs, hrest, -⟩ := M.run_cons_iff.mp hr
      rw [M.throughout_cons_iff hs, M.along_cons_iff hs, ih hrest, and_assoc]

/-- When each step keeps `Q` exactly under `P`, a run satisfies `Q` in all its
states exactly when all its steps satisfy `P`. -/
theorem throughout_iff_along {Inv Q : S → Prop} {P : S → A → Prop}
    (keep : ∀ {s a s' e}, Inv s → M.step s a = some (s', e) → Inv s')
    (exact_step : ∀ {s a s' e}, Inv s → Q s → M.step s a = some (s', e) → (Q s' ↔ P s a))
    {s s' : S} {as : List A} {tr : List E} (hi : Inv s) (hq : Q s)
    (hr : M.run s as = some (s', tr)) : M.Throughout Q s as ↔ M.Along P s as := by
  induction as generalizing s tr with
  | nil => exact ⟨fun _ => trivial, fun _ => M.throughout_nil_iff.mpr hq⟩
  | cons a as ih =>
      obtain ⟨m, e, rest, hs, hrest, -⟩ := M.run_cons_iff.mp hr
      rw [M.throughout_cons_iff hs]
      constructor
      · rintro ⟨-, h⟩
        have hqm : Q m := h [] List.nil_prefix m [] rfl
        refine ⟨(exact_step hi hq hs).mp hqm, ?_⟩
        intro m' e' hs'
        obtain ⟨rfl, rfl⟩ : m = m' ∧ e = e' := by simpa [hs] using hs'
        exact (ih (keep hi hs) hqm hrest).mp h
      · rintro ⟨hp, h⟩
        have hqm : Q m := (exact_step hi hq hs).mpr hp
        exact ⟨hq, (ih (keep hi hs) hqm hrest).mpr (h m e hs)⟩

/-! ## Forward simulation

A concrete step may be answered by no abstract step, by one or by several. What an observer sees
of the events is the same on both sides.
-/

/-- When every concrete step has an abstract answer, every concrete run has one. -/
theorem run_simulates {S' A' E' V : Type*} (N : System S' A' E') {R : S → S' → Prop}
    {view : E → Option V} {view' : E' → Option V}
    (answer : ∀ {s t a s' e}, R s t → M.step s a = some (s', e) →
      ∃ bs t' tr, N.run t bs = some (t', tr) ∧ R s' t' ∧ tr.filterMap view' = (view e).toList)
    {s s' : S} {t : S'} {as : List A} {tr : List E} (hi : R s t)
    (hr : M.run s as = some (s', tr)) :
    ∃ bs t' tr', N.run t bs = some (t', tr') ∧ R s' t' ∧
      tr'.filterMap view' = tr.filterMap view := by
  induction as generalizing s t tr with
  | nil =>
      obtain ⟨rfl, rfl⟩ : s = s' ∧ [] = tr := by simpa using hr
      exact ⟨[], t, [], rfl, hi, rfl⟩
  | cons a as ih =>
      obtain ⟨m, e, rest, hs, hrest, rfl⟩ := M.run_cons_iff.mp hr
      obtain ⟨bs, t₁, tr₁, hN, hR, hview⟩ := answer hi hs
      obtain ⟨bs', t₂, tr₂, hN', hR', hview'⟩ := ih hR hrest
      refine ⟨bs ++ bs', t₂, tr₁ ++ tr₂, N.run_append hN hN', hR', ?_⟩
      rw [List.filterMap_append, hview, hview']
      cases hv : view e <;> simp [hv]

/-! ## Runs with actions left out

Some actions of a run are kept and the others are left out. If a relation between the two
runs survives both, the second run exists and shows an observer what the first one shows.
-/

/-- The unwinding rule. `same` relates the kept actions of the first run to those of the
second one, and `view` is what the observer sees of an event. -/
theorem run_purge {V : Type*} {R : S → S → Prop} {same : A → A → Prop} {keep : A → Bool}
    {view : E → Option V}
    (hidden : ∀ {s t a s' e}, R s t → keep a = false → M.step s a = some (s', e) →
      R s' t ∧ view e = none)
    (shown : ∀ {s t a b s' e}, R s t → keep a = true → same a b → M.step s a = some (s', e) →
      ∃ t' f, M.step t b = some (t', f) ∧ R s' t' ∧ view f = view e)
    {s t s' : S} {as bs : List A} {tr : List E} (hi : R s t)
    (hsame : List.Forall₂ same (as.filter keep) bs) (hr : M.run s as = some (s', tr)) :
    ∃ t' tr', M.run t bs = some (t', tr') ∧ R s' t' ∧ tr'.filterMap view = tr.filterMap view := by
  induction as generalizing s t bs tr with
  | nil =>
      obtain ⟨rfl, rfl⟩ : s = s' ∧ [] = tr := by simpa using hr
      obtain rfl : bs = [] := by simpa using hsame
      exact ⟨t, [], rfl, hi, rfl⟩
  | cons a as ih =>
      obtain ⟨m, e, rest, hs, hrest, rfl⟩ := M.run_cons_iff.mp hr
      cases hk : keep a with
      | false =>
          obtain ⟨hm, hv⟩ := hidden hi hk hs
          rw [List.filter_cons_of_neg (by simp [hk])] at hsame
          obtain ⟨t', tr', hrun, hR, hview⟩ := ih hm hsame hrest
          exact ⟨t', tr', hrun, hR, by rw [hview, List.filterMap_cons_none hv]⟩
      | true =>
          rw [List.filter_cons_of_pos hk] at hsame
          obtain ⟨b, bs', hab, hbs, rfl⟩ := List.forall₂_cons_left_iff.mp hsame
          obtain ⟨n, f, ht, hn, hf⟩ := shown hi hk hab hs
          obtain ⟨t', tr', hrun, hR, hview⟩ := ih hn hbs hrest
          refine ⟨t', f :: tr', M.run_cons_iff.mpr ⟨n, f, tr', ht, hrun, rfl⟩, hR, ?_⟩
          rw [List.filterMap_cons, List.filterMap_cons, hf, hview]

end System

end OShm.Lib
