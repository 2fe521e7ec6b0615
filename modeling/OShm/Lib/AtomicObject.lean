import OShm.Lib.Transition
import Mathlib.Logic.Function.Basic

/-! # Atomic objects and linearizable histories

A sequential object says what one call does when it runs alone. The atomic object lets many
threads call it: a call is made, takes effect at one point, and its result is returned, with
steps of other threads anywhere in between. A history of calls and returns is linearizable
when points of effect can be put into it such that the effects, in their order, are a
sequential execution.
-/

namespace OShm.Lib

/-- `apply value thread op answer`: `answer` is what the environment contributes. -/
structure SeqObject (σ T O C R : Type*) where
  apply : σ → T → O → C → σ × R

inductive Status (O R : Type*) where
  | idle
  | pending (o : O)
  | answered (r : R)
  deriving DecidableEq, Repr

inductive CallEvent (T O R : Type*) where
  | call (t : T) (o : O)
  | ret (t : T) (r : R)
  deriving DecidableEq, Repr

inductive PointEvent (T O C R : Type*) where
  | call (t : T) (o : O)
  | effect (t : T) (o : O) (c : C) (r : R)
  | ret (t : T) (r : R)
  deriving DecidableEq, Repr

namespace PointEvent

variable {T O C R : Type*}

def thread : PointEvent T O C R → T
  | .call t _ => t
  | .effect t _ _ _ => t
  | .ret t _ => t

def visible : PointEvent T O C R → Option (CallEvent T O R)
  | .call t o => some (.call t o)
  | .effect _ _ _ _ => none
  | .ret t r => some (.ret t r)

def point : PointEvent T O C R → Option (T × O × C × R)
  | .effect t o c r => some (t, o, c, r)
  | _ => none

/-- The events of one thread, from a given status on: call, effect, return, again and again,
each effect of the operation that was called and each return with the result of the effect. -/
def Follows : Status O R → List (PointEvent T O C R) → Prop
  | _, [] => True
  | .idle, .call _ o :: rest => Follows (.pending o) rest
  | .pending o, .effect _ o' _ r :: rest => o' = o ∧ Follows (.answered r) rest
  | .answered r, .ret _ r' :: rest => r' = r ∧ Follows .idle rest
  | _, _ => False

end PointEvent

namespace SeqObject

variable {σ T O C R : Type*} (obj : SeqObject σ T O C R)

/-- The calls, one after another, lead from the first value to the second one, each with its
own result. -/
def Sequential : σ → List (T × O × C × R) → σ → Prop
  | s, [], s' => s' = s
  | s, (t, o, c, r) :: rest, s' =>
      (obj.apply s t o c).2 = r ∧ Sequential (obj.apply s t o c).1 rest s'

/-- The history, from one value of the object to another, has points of effect. -/
def Linearizable [DecidableEq T] (s s' : σ) (history : List (CallEvent T O R)) : Prop :=
  ∃ points : List (PointEvent T O C R),
    points.filterMap PointEvent.visible = history ∧
      obj.Sequential s (points.filterMap PointEvent.point) s' ∧
        ∀ t, PointEvent.Follows .idle (points.filter fun e => e.thread = t)

/-! ## The atomic object -/

structure AtomicState (σ T O R : Type*) where
  value : σ
  status : T → Status O R

inductive AtomicAction (T O C : Type*) where
  | call (t : T) (o : O)
  | effect (t : T) (c : C)
  | ret (t : T)

variable [DecidableEq T]

def atomicStep (a : AtomicState σ T O R) :
    AtomicAction T O C → Option (AtomicState σ T O R × PointEvent T O C R)
  | .call t o =>
      match a.status t with
      | .idle => some (⟨a.value, Function.update a.status t (.pending o)⟩, .call t o)
      | _ => none
  | .effect t c =>
      match a.status t with
      | .pending o =>
          let (value, r) := obj.apply a.value t o c
          some (⟨value, Function.update a.status t (.answered r)⟩, .effect t o c r)
      | _ => none
  | .ret t =>
      match a.status t with
      | .answered r => some (⟨a.value, Function.update a.status t .idle⟩, .ret t r)
      | _ => none

def atomic : System (AtomicState σ T O R) (AtomicAction T O C) (PointEvent T O C R) where
  step := obj.atomicStep

/-- The pending call `o` of thread `t` has taken effect. -/
def AtomicState.effect (a : AtomicState σ T O R) (t : T) (o : O) (c : C) : AtomicState σ T O R :=
  ⟨(obj.apply a.value t o c).1, Function.update a.status t (.answered (obj.apply a.value t o c).2)⟩

variable {obj}

theorem atomic_call {a : AtomicState σ T O R} {t : T} (h : a.status t = .idle) (o : O) :
    obj.atomic.run a [.call t o] =
      some (⟨a.value, Function.update a.status t (.pending o)⟩, [.call t o]) :=
  obj.atomic.run_singleton (by simp [atomic, atomicStep, h])

theorem atomic_effect {a : AtomicState σ T O R} {t : T} {o : O} (h : a.status t = .pending o)
    (c : C) :
    obj.atomic.run a [.effect t c] =
      some (a.effect obj t o c, [.effect t o c (obj.apply a.value t o c).2]) :=
  obj.atomic.run_singleton (by simp [atomic, atomicStep, h, AtomicState.effect])

theorem atomic_ret {a : AtomicState σ T O R} {t : T} {r : R} (h : a.status t = .answered r) :
    obj.atomic.run a [.ret t] =
      some (⟨a.value, Function.update a.status t .idle⟩, [.ret t r]) :=
  obj.atomic.run_singleton (by simp [atomic, atomicStep, h])

theorem atomicStep_cases {a a' : AtomicState σ T O R} {b : AtomicAction T O C}
    {e : PointEvent T O C R} (h : obj.atomic.step a b = some (a', e)) :
    (∃ t o, a.status t = .idle ∧ a' = ⟨a.value, Function.update a.status t (.pending o)⟩ ∧
      e = .call t o) ∨
    (∃ t o c r, a.status t = .pending o ∧ (obj.apply a.value t o c).2 = r ∧
      a' = ⟨(obj.apply a.value t o c).1, Function.update a.status t (.answered r)⟩ ∧
      e = .effect t o c r) ∨
    (∃ t r, a.status t = .answered r ∧ a' = ⟨a.value, Function.update a.status t .idle⟩ ∧
      e = .ret t r) := by
  cases b with
  | call t o =>
      cases hs : a.status t with
      | idle =>
          simp only [atomic, atomicStep, hs, Option.some.injEq, Prod.mk.injEq] at h
          exact Or.inl ⟨t, o, hs, h.1.symm, h.2.symm⟩
      | pending p => simp [atomic, atomicStep, hs] at h
      | answered r => simp [atomic, atomicStep, hs] at h
  | effect t c =>
      cases hs : a.status t with
      | idle => simp [atomic, atomicStep, hs] at h
      | pending o =>
          simp only [atomic, atomicStep, hs, Option.some.injEq, Prod.mk.injEq] at h
          exact Or.inr (Or.inl ⟨t, o, c, _, hs, rfl, h.1.symm, h.2.symm⟩)
      | answered r => simp [atomic, atomicStep, hs] at h
  | ret t =>
      cases hs : a.status t with
      | idle => simp [atomic, atomicStep, hs] at h
      | pending o => simp [atomic, atomicStep, hs] at h
      | answered r =>
          simp only [atomic, atomicStep, hs, Option.some.injEq, Prod.mk.injEq] at h
          exact Or.inr (Or.inr ⟨t, r, hs, h.1.symm, h.2.symm⟩)

/-- The effects of a run are a sequential execution. -/
theorem sequential_of_run {a a' : AtomicState σ T O R} {bs : List (AtomicAction T O C)}
    {tr : List (PointEvent T O C R)} (hr : obj.atomic.run a bs = some (a', tr)) :
    obj.Sequential a.value (tr.filterMap PointEvent.point) a'.value := by
  induction bs generalizing a tr with
  | nil =>
      obtain ⟨rfl, rfl⟩ : a = a' ∧ [] = tr := by simpa using hr
      rfl
  | cons b bs ih =>
      obtain ⟨m, e, rest, hs, hrest, rfl⟩ := obj.atomic.run_cons_iff.mp hr
      have hih := ih hrest
      rcases atomicStep_cases hs with
        ⟨t, o, _, rfl, rfl⟩ | ⟨t, o, c, r, _, happly, rfl, rfl⟩ | ⟨t, r, _, rfl, rfl⟩
      · exact hih
      · exact ⟨happly, hih⟩
      · exact hih

theorem follows_of_run {a a' : AtomicState σ T O R} {bs : List (AtomicAction T O C)}
    {tr : List (PointEvent T O C R)} (hr : obj.atomic.run a bs = some (a', tr)) (u : T) :
    PointEvent.Follows (a.status u) (tr.filter fun e => e.thread = u) := by
  induction bs generalizing a tr with
  | nil =>
      obtain ⟨rfl, rfl⟩ : a = a' ∧ [] = tr := by simpa using hr
      simp [PointEvent.Follows]
  | cons b bs ih =>
      obtain ⟨m, e, rest, hs, hrest, rfl⟩ := obj.atomic.run_cons_iff.mp hr
      have hih := ih hrest
      by_cases hu : e.thread = u
      · rw [List.filter_cons_of_pos (by simpa using hu)]
        rcases atomicStep_cases hs with
          ⟨t, o, hst, rfl, rfl⟩ | ⟨t, o, c, r, hst, _, rfl, rfl⟩ | ⟨t, r, hst, rfl, rfl⟩
        all_goals
          obtain rfl : t = u := hu
          simpa [hst, PointEvent.Follows] using hih
      · rw [List.filter_cons_of_neg (by simpa using hu)]
        rcases atomicStep_cases hs with
          ⟨t, o, _, rfl, rfl⟩ | ⟨t, o, c, r, _, _, rfl, rfl⟩ | ⟨t, r, _, rfl, rfl⟩
        all_goals
          have hne : u ≠ t := Ne.symm hu
          simpa [hne] using hih

/-- What the callers see of a run of the atomic object is linearizable. -/
theorem linearizable_of_run {a a' : AtomicState σ T O R} {bs : List (AtomicAction T O C)}
    {tr : List (PointEvent T O C R)} (hidle : ∀ t, a.status t = .idle)
    (hr : obj.atomic.run a bs = some (a', tr)) :
    obj.Linearizable a.value a'.value (tr.filterMap PointEvent.visible) :=
  ⟨tr, rfl, sequential_of_run hr, fun t => hidle t ▸ follows_of_run hr t⟩

end SeqObject

end OShm.Lib
