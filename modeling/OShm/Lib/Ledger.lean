import Mathlib.Data.List.Nodup
import Mathlib.Data.List.Perm.Basic

/-! # Ledgers of acquired and released resources

A setup takes resources stage by stage. A stage that fails jumps into a chain of releases.
The ledger is the list of everything that was taken and given back, in order.
-/

namespace OShm.Lib.Ledger

inductive Event (R : Type*) where
  | acquire (r : R)
  | release (r : R)
  deriving DecidableEq, Repr

variable {S R : Type*}

def Event.subject : Event R → R
  | .acquire r => r
  | .release r => r

def Event.map {R' : Type*} (f : R → R') : Event R → Event R'
  | .acquire r => .acquire (f r)
  | .release r => .release (f r)

/-- The stages of a setup: what a stage takes when it succeeds, what it does by itself when
it fails, and what is given back from the point on that its failure jumps to. -/
structure Setup (S R : Type*) where
  takes : S → List R
  attempt : S → List (Event R)
  undoes : S → List R

namespace Setup

variable (u : Setup S R) (live : R → Bool) (fails : S → Bool)

/-- A run through the stages. `live` says which resources this run takes at all; `after`
follows when every stage has succeeded. -/
def walk (after : List (Event R)) : List S → List (Event R)
  | [] => after
  | s :: rest =>
      if fails s then u.attempt s ++ ((u.undoes s).filter live).map .release
      else ((u.takes s).filter live).map .acquire ++ walk after rest

variable {u live fails}

theorem walk_append (after : List (Event R)) (stages more : List S) :
    u.walk live fails after (stages ++ more) =
      u.walk live fails (u.walk live fails after more) stages := by
  induction stages with
  | nil => rfl
  | cons s rest ih => rw [List.cons_append, walk, walk, ih]

/-- Leaving stages out is the same as passing them when they would take nothing. -/
theorem walk_filter {present : S → Bool} (after : List (Event R)) {stages : List S}
    (hskip : ∀ s ∈ stages, present s = false → (u.takes s).filter live = []) :
    u.walk live fails after (stages.filter present) =
      u.walk live (fun s => present s && fails s) after stages := by
  induction stages with
  | nil => rfl
  | cons s rest ih =>
      have hrest := ih fun x hx => hskip x (List.mem_cons_of_mem s hx)
      rw [walk]
      cases hp : present s with
      | false =>
          rw [List.filter_cons_of_neg (by simp [hp]), hrest, hskip s List.mem_cons_self hp]
          rfl
      | true =>
          rw [List.filter_cons_of_pos hp, walk, hrest, Bool.true_and]

/-- A run is only about what its stages take, give back or do by themselves. -/
theorem subject_of_mem_walk {after : List (Event R)} {stages : List S} {e : Event R}
    (he : e ∈ u.walk live fails after stages) :
    e ∈ after ∨ ∃ s ∈ stages, e ∈ u.attempt s ∨ e.subject ∈ u.takes s ∨ e.subject ∈ u.undoes s := by
  induction stages with
  | nil => exact Or.inl he
  | cons s rest ih =>
      rw [walk] at he
      cases hf : fails s with
      | true =>
          rw [hf, if_pos rfl] at he
          right
          refine ⟨s, List.mem_cons_self, ?_⟩
          rcases List.mem_append.mp he with he | he
          · exact Or.inl he
          · obtain ⟨r, hr, rfl⟩ := List.mem_map.mp he
            exact Or.inr (Or.inr (List.mem_filter.mp hr).1)
      | false =>
          rw [hf, if_neg (by simp)] at he
          rcases List.mem_append.mp he with he | he
          · obtain ⟨r, hr, rfl⟩ := List.mem_map.mp he
            exact Or.inr ⟨s, List.mem_cons_self, Or.inr (Or.inl (List.mem_filter.mp hr).1)⟩
          · rcases ih he with he | ⟨y, hy, hcase⟩
            · exact Or.inl he
            · exact Or.inr ⟨y, List.mem_cons_of_mem s hy, hcase⟩

theorem walk_of_failure {stages : List S} (after after' : List (Event R))
    (hfail : ∃ s ∈ stages, fails s = true) :
    u.walk live fails after stages = u.walk live fails after' stages := by
  induction stages with
  | nil =>
      obtain ⟨s, hs, _⟩ := hfail
      cases hs
  | cons s rest ih =>
      rw [walk, walk]
      cases hf : fails s with
      | true => rfl
      | false =>
          obtain ⟨x, hx, hfx⟩ := hfail
          rcases List.mem_cons.mp hx with rfl | hx
          · cases hf.symm.trans hfx
          · rw [ih ⟨x, hx, hfx⟩]

theorem walk_of_success {stages : List S} (after : List (Event R))
    (hok : ∀ s ∈ stages, fails s = false) :
    u.walk live fails after stages =
      ((stages.flatMap u.takes).filter live).map .acquire ++ after := by
  induction stages with
  | nil => rfl
  | cons s rest ih =>
      have hs : fails s = false := hok s List.mem_cons_self
      rw [walk, hs, if_neg (by simp), ih fun x hx => hok x (List.mem_cons_of_mem s hx)]
      simp

end Setup

/-! ## Settled ledgers -/

variable [DecidableEq R]

def history (t : List (Event R)) (r : R) : List (Event R) :=
  t.filter fun e => decide (e.subject = r)

/-- Every resource of the ledger was acquired, then released, and each of it once. -/
def Settled (t : List (Event R)) : Prop :=
  ∀ r, history t r = [] ∨ history t r = [.acquire r, .release r]

theorem history_append (t u : List (Event R)) (r : R) :
    history (t ++ u) r = history t r ++ history u r := List.filter_append t u

theorem history_eq_nil {t : List (Event R)} {r : R} (h : ∀ e ∈ t, e.subject ≠ r) :
    history t r = [] := by
  apply List.filter_eq_nil_iff.mpr
  intro e he
  simpa using h e he

theorem history_map {f : R → Event R} (hf : ∀ a, (f a).subject = a) (l : List R) (r : R) :
    history (l.map f) r = List.replicate (l.count r) (f r) := by
  induction l with
  | nil => rfl
  | cons a l ih =>
      rw [List.map_cons, history, List.filter_cons, ← history, ih, List.count_cons, hf]
      by_cases ha : a = r
      · subst ha
        simp [List.replicate_succ]
      · simp [ha]

theorem settled_of_perm {held given : List R} (hnodup : held.Nodup) (hperm : given.Perm held) :
    Settled (held.map .acquire ++ given.map .release) := by
  intro r
  rw [history_append, history_map fun _ => rfl, history_map fun _ => rfl, hperm.count_eq r]
  have hle : held.count r ≤ 1 := List.nodup_iff_count_le_one.mp hnodup r
  obtain h | h : held.count r = 0 ∨ held.count r = 1 := by omega
  · left
    rw [h]
    rfl
  · right
    rw [h]
    rfl

/-- A settled ledger may be inserted where none of its resources is in use. -/
theorem Settled.insert {t u v : List (Event R)} (htv : Settled (t ++ v)) (hu : Settled u)
    (hdisj : ∀ e ∈ u, ∀ f ∈ t ++ v, f.subject ≠ e.subject) : Settled (t ++ u ++ v) := by
  intro r
  rw [history_append, history_append]
  by_cases hr : ∃ e ∈ u, e.subject = r
  · obtain ⟨e, he, rfl⟩ := hr
    have ht : history t e.subject = [] :=
      history_eq_nil fun f hf => hdisj e he f (List.mem_append_left v hf)
    have hv : history v e.subject = [] :=
      history_eq_nil fun f hf => hdisj e he f (List.mem_append_right t hf)
    rw [ht, hv, List.nil_append, List.append_nil]
    exact hu e.subject
  · have hnone : history u r = [] := history_eq_nil fun e he heq => hr ⟨e, he, heq⟩
    rw [hnone, List.append_nil, ← history_append]
    exact htv r

theorem not_settled_of_unreleased {t : List (Event R)} {r : R} (hacq : .acquire r ∈ t)
    (hrel : .release r ∉ t) : ¬ Settled t := by
  intro h
  have hin : Event.acquire r ∈ history t r := List.mem_filter.mpr ⟨hacq, by simp [Event.subject]⟩
  have hsub : ∀ e ∈ history t r, e ∈ t := fun e he => (List.mem_filter.mp he).1
  rcases h r with h | h
  · rw [h] at hin
    cases hin
  · apply hrel
    apply hsub
    rw [h]
    simp

theorem not_settled_of_unacquired {t : List (Event R)} {r : R} (hrel : .release r ∈ t)
    (hacq : .acquire r ∉ t) : ¬ Settled t := by
  intro h
  have hin : Event.release r ∈ history t r := List.mem_filter.mpr ⟨hrel, by simp [Event.subject]⟩
  have hsub : ∀ e ∈ history t r, e ∈ t := fun e he => (List.mem_filter.mp he).1
  rcases h r with h | h
  · rw [h] at hin
    cases hin
  · apply hacq
    apply hsub
    rw [h]
    simp

/-! ## Failures of a setup -/

/-- A failure at any stage gives back what is held before that stage. -/
def Unwinds (takes undoes : S → List R) : List R → List S → Prop
  | _, [] => True
  | held, s :: rest => (undoes s).Perm held ∧ Unwinds takes undoes (held ++ takes s) rest

instance decidableUnwinds (takes undoes : S → List R) :
    ∀ (held : List R) (stages : List S), Decidable (Unwinds takes undoes held stages)
  | _, [] => isTrue trivial
  | held, s :: rest =>
      have := decidableUnwinds takes undoes (held ++ takes s) rest
      inferInstanceAs (Decidable (_ ∧ _))

namespace Setup

variable (u : Setup S R)

/-- By itself a failing stage settles what it touches, which is its own. -/
structure Local (s : S) : Prop where
  settled : Settled (u.attempt s)
  own : ∀ e ∈ u.attempt s, e.subject ∈ u.takes s

variable {u} {live : R → Bool} {fails : S → Bool}

theorem settled_failure {held : List R} {s : S} (hlocal : u.Local s)
    (hperm : (u.undoes s).Perm held) (hnodup : (held ++ u.takes s).Nodup) :
    Settled ((held.filter live).map .acquire ++
      (u.attempt s ++ ((u.undoes s).filter live).map .release)) := by
  rw [← List.append_assoc]
  apply Settled.insert _ hlocal.settled
  · intro e he f hf heq
    have hmem : f.subject ∈ held := by
      rcases List.mem_append.mp hf with hf | hf
      · obtain ⟨r, hr, rfl⟩ := List.mem_map.mp hf
        exact (List.mem_filter.mp hr).1
      · obtain ⟨r, hr, rfl⟩ := List.mem_map.mp hf
        exact hperm.mem_iff.mp (List.mem_filter.mp hr).1
    exact (List.nodup_append.mp hnodup).2.2 _ hmem _ (hlocal.own e he) heq
  · apply settled_of_perm
    · exact (List.nodup_append.mp hnodup).1.filter live
    · exact hperm.filter live

/-- The run rule: if some stage of the run fails, the ledger of the whole run is settled. -/
theorem walk_settled {stages : List S} (after : List (Event R)) (hlocal : ∀ s ∈ stages, u.Local s)
    {held : List R} (hunwinds : Unwinds u.takes u.undoes held stages)
    (hnodup : (held ++ stages.flatMap u.takes).Nodup) (hfail : ∃ s ∈ stages, fails s = true) :
    Settled ((held.filter live).map .acquire ++ u.walk live fails after stages) := by
  induction stages generalizing held with
  | nil =>
      obtain ⟨s, hs, _⟩ := hfail
      cases hs
  | cons s rest ih =>
      rw [List.flatMap_cons, ← List.append_assoc] at hnodup
      rw [walk]
      cases hf : fails s with
      | true =>
          rw [if_pos rfl]
          apply settled_failure (hlocal s List.mem_cons_self) hunwinds.1
          exact (List.nodup_append.mp hnodup).1
      | false =>
          have hlater : ∃ x ∈ rest, fails x = true := by
            obtain ⟨x, hx, hfx⟩ := hfail
            rcases List.mem_cons.mp hx with rfl | hx
            · cases hf.symm.trans hfx
            · exact ⟨x, hx, hfx⟩
          have hrest := ih (fun x hx => hlocal x (List.mem_cons_of_mem s hx)) hunwinds.2 hnodup
            hlater
          rw [List.filter_append, List.map_append, List.append_assoc] at hrest
          rw [if_neg (by simp)]
          exact hrest

/-- A stage that is itself a setup is local if the inner setup unwinds to nothing and is about
what the stage takes. `at₀` is the inner stage that fails. -/
theorem local_of_nested {S' : Type*} [DecidableEq S'] {v : Setup S' R} {stages : List S'} {at₀ : S'}
    {s : S} (hattempt : u.attempt s = v.walk live (fun a => decide (a = at₀)) [] stages)
    (hplain : ∀ a, v.attempt a = []) (hmem : at₀ ∈ stages)
    (hunwinds : Unwinds v.takes v.undoes [] stages) (hnodup : (stages.flatMap v.takes).Nodup)
    (hown : ∀ a ∈ stages, ∀ r ∈ v.takes a ++ v.undoes a, r ∈ u.takes s) : u.Local s where
  settled := by
    rw [hattempt]
    have hlocal : ∀ a ∈ stages, v.Local a := by
      intro a _
      constructor
      · rw [hplain a]
        exact fun _ => Or.inl rfl
      · rw [hplain a]
        exact fun _ he => by cases he
    exact walk_settled [] hlocal hunwinds hnodup ⟨at₀, hmem, decide_eq_true rfl⟩
  own := by
    intro e he
    rw [hattempt] at he
    rcases subject_of_mem_walk he with he | ⟨a, ha, he | he | he⟩
    · cases he
    · rw [hplain a] at he
      cases he
    · exact hown a ha _ (List.mem_append_left _ he)
    · exact hown a ha _ (List.mem_append_right _ he)

end Setup

end OShm.Lib.Ledger
