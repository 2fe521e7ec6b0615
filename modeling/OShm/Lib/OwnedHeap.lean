import Mathlib.Data.List.Nodup
import Mathlib.Logic.Function.Basic

/-! # Heaps whose objects have one owner each

Objects are allocated and freed by address. Places hold pointers to them. While every live
object is held by exactly one place, freeing what a place holds is safe, nothing leaks and no
pointer dangles.
-/

namespace OShm.Lib

structure Heap where
  live : List Nat
  /-- An object was freed or used that was not live. -/
  fault : Bool
  deriving DecidableEq, Repr

namespace Heap

def empty : Heap := ⟨[], false⟩

def alloc (h : Heap) (a : Nat) : Heap := { h with live := a :: h.live }

/-- `kfree`, which accepts a null pointer. -/
def free (h : Heap) : Option Nat → Heap
  | none => h
  | some a => if a ∈ h.live then { h with live := h.live.erase a } else { h with fault := true }

def use (h : Heap) : Option Nat → Heap
  | none => { h with fault := true }
  | some a => if a ∈ h.live then h else { h with fault := true }

variable {O : Type*}

/-- Every live object is held by exactly one place, and nothing went wrong so far. -/
structure Owned (h : Heap) (slot : O → Option Nat) : Prop where
  sound : h.fault = false
  nodup : h.live.Nodup
  live : ∀ {o a}, slot o = some a → a ∈ h.live
  once : ∀ {o o' a}, slot o = some a → slot o' = some a → o = o'
  covered : ∀ {a}, a ∈ h.live → ∃ o, slot o = some a

theorem owned_empty : empty.Owned (fun _ : O => none) where
  sound := rfl
  nodup := List.nodup_nil
  live h := by simp at h
  once h := by simp at h
  covered h := by simp [empty] at h

namespace Owned

variable {h : Heap} {slot slot' : O → Option Nat}

theorem use_eq (hO : h.Owned slot) {o : O} {a : Nat} (ho : slot o = some a) :
    h.use (some a) = h := by
  simp [use, hO.live ho]

variable [DecidableEq O]

theorem alloc (hO : h.Owned slot) {o : O} {a : Nat} (hempty : slot o = none) (hfresh : a ∉ h.live)
    (hslot : slot' = Function.update slot o (some a)) : (h.alloc a).Owned slot' := by
  subst hslot
  have old : ∀ {p x}, p ≠ o → Function.update slot o (some a) p = some x → slot p = some x := by
    intro p x hp hx
    rwa [Function.update_of_ne hp] at hx
  constructor
  · exact hO.sound
  · exact List.nodup_cons.mpr ⟨hfresh, hO.nodup⟩
  · intro p x hx
    by_cases hp : p = o
    · subst hp
      rw [Function.update_self, Option.some.injEq] at hx
      exact hx ▸ List.mem_cons_self
    · exact List.mem_cons_of_mem a (hO.live (old hp hx))
  · intro p q x hx hy
    by_cases hp : p = o <;> by_cases hq : q = o
    · rw [hp, hq]
    · rw [hp, Function.update_self, Option.some.injEq] at hx
      exact absurd (hx ▸ hO.live (old hq hy)) hfresh
    · rw [hq, Function.update_self, Option.some.injEq] at hy
      exact absurd (hy ▸ hO.live (old hp hx)) hfresh
    · exact hO.once (old hp hx) (old hq hy)
  · intro x hx
    rcases List.mem_cons.mp hx with rfl | hx
    · exact ⟨o, Function.update_self ..⟩
    · obtain ⟨p, hp⟩ := hO.covered hx
      refine ⟨p, ?_⟩
      rw [Function.update_of_ne ?_]
      · exact hp
      · rintro rfl
        simp [hempty] at hp

theorem free (hO : h.Owned slot) {o : O} {p : Option Nat} (ho : slot o = p)
    (hslot : slot' = Function.update slot o none) : (h.free p).Owned slot' := by
  subst hslot
  have old : ∀ {q x}, Function.update slot o none q = some x → q ≠ o ∧ slot q = some x := by
    intro q x hx
    by_cases hq : q = o
    · simp [hq] at hx
    · exact ⟨hq, by rwa [Function.update_of_ne hq] at hx⟩
  cases p with
  | none =>
      have hsame : Function.update slot o none = slot := by
        rw [← ho]
        exact Function.update_eq_self o slot
      rwa [hsame]
  | some a =>
      have ha := hO.live ho
      have hfree : h.free (some a) = { h with live := h.live.erase a } := by simp [Heap.free, ha]
      rw [hfree]
      constructor
      · exact hO.sound
      · exact hO.nodup.erase a
      · intro q x hx
        obtain ⟨hq, hx⟩ := old hx
        refine (List.mem_erase_of_ne ?_).mpr (hO.live hx)
        rintro rfl
        exact hq (hO.once hx ho)
      · intro q r x hx hy
        exact hO.once (old hx).2 (old hy).2
      · intro x hx
        obtain ⟨hne, hx⟩ := (hO.nodup.mem_erase_iff).mp hx
        obtain ⟨q, hq⟩ := hO.covered hx
        refine ⟨q, ?_⟩
        rw [Function.update_of_ne ?_]
        · exact hq
        · rintro rfl
          exact hne (Option.some.inj (hq.symm.trans ho))

theorem move (hO : h.Owned slot) {o o' : O} (hempty : slot o' = none) (hne : o ≠ o')
    (hslot : slot' = Function.update (Function.update slot o' (slot o)) o none) :
    h.Owned slot' := by
  subst hslot
  -- the new place of each pointer
  have old : ∀ {q x}, Function.update (Function.update slot o' (slot o)) o none q = some x →
      q = o' ∧ slot o = some x ∨ q ≠ o ∧ q ≠ o' ∧ slot q = some x := by
    intro q x hx
    by_cases hq : q = o
    · simp [hq] at hx
    · rw [Function.update_of_ne hq] at hx
      by_cases hq' : q = o'
      · exact Or.inl ⟨hq', by simpa [hq'] using hx⟩
      · exact Or.inr ⟨hq, hq', by rwa [Function.update_of_ne hq'] at hx⟩
  constructor
  · exact hO.sound
  · exact hO.nodup
  · intro q x hx
    rcases old hx with ⟨-, hx⟩ | ⟨-, -, hx⟩ <;> exact hO.live hx
  · intro q r x hx hy
    rcases old hx with ⟨hq, hqx⟩ | ⟨hq, -, hqx⟩ <;> rcases old hy with ⟨hr, hrx⟩ | ⟨hr, -, hrx⟩
    · exact hq.trans hr.symm
    · exact absurd (hO.once hrx hqx) hr
    · exact absurd (hO.once hqx hrx) hq
    · exact hO.once hqx hrx
  · intro x hx
    obtain ⟨q, hq⟩ := hO.covered hx
    by_cases hqo : q = o
    · refine ⟨o', ?_⟩
      rw [Function.update_of_ne (Ne.symm hne), Function.update_self, ← hqo]
      exact hq
    · refine ⟨q, ?_⟩
      rw [Function.update_of_ne hqo, Function.update_of_ne ?_]
      · exact hq
      · rintro rfl
        simp [hempty] at hq

end Owned

end Heap

end OShm.Lib
