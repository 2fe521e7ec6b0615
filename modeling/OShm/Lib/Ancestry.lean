import Mathlib.Logic.Function.Iterate
import Mathlib.Logic.Function.Basic

/-! # Trees by parent pointers

Every node has a parent, and the root is its own. Within some height all chains of parents end
at the root, which gives each node a path of names. Giving a node another parent keeps this
unless the node is above its new parent.
-/

namespace OShm.Lib.Ancestry

variable {α β : Type*} {parent : α → α} {root : α} {height : Nat}

/-- Every chain of parents is at the root after `height` steps. -/
def Rooted (parent : α → α) (root : α) (height : Nat) : Prop := ∀ x, parent^[height] x = root

theorem Rooted.parent_root (h : Rooted parent root height) : parent root = root := by
  have hswap : parent (parent^[height] root) = parent^[height] (parent root) :=
    (Function.Commute.refl parent).iterate_right height root
  rwa [h, h] at hswap

/-- What holds of the root and comes down from parents holds everywhere. -/
theorem Rooted.induction (h : Rooted parent root height) {P : α → Prop} (hroot : P root)
    (hdown : ∀ x, x ≠ root → P (parent x) → P x) (x : α) : P x := by
  have hchain : ∀ n y, parent^[n] y = root → P y := by
    intro n
    induction n with
    | zero =>
        rintro y rfl
        exact hroot
    | succ n ih =>
        intro y hy
        by_cases hyr : y = root
        · exact hyr ▸ hroot
        · exact hdown y hyr (ih _ hy)
  exact hchain height x (h x)

/-! ## Paths -/

section Path

variable [DecidableEq α] (parent root) (name : α → β)

/-- The names met on the way up from `x` in `n` steps, the highest first. -/
def climb : Nat → α → List β
  | 0, _ => []
  | n + 1, x => if x = root then [] else climb n (parent x) ++ [name x]

variable {parent root}

theorem climb_root (n : Nat) : climb parent root name n root = [] := by
  cases n <;> simp [climb]

theorem climb_succ {x : α} (hx : x ≠ root) (n : Nat) :
    climb parent root name (n + 1) x = climb parent root name n (parent x) ++ [name x] :=
  if_neg hx

theorem climb_enough {n : Nat} {x : α} (h : parent^[n] x = root) :
    climb parent root name (n + 1) x = climb parent root name n x := by
  induction n generalizing x with
  | zero =>
      obtain rfl : x = root := h
      exact climb_root name 1
  | succ n ih =>
      by_cases hx : x = root
      · rw [hx, climb_root, climb_root]
      · rw [climb_succ name hx, climb_succ name hx, ih h]

theorem Rooted.climb_eq (h : Rooted parent root height) {x : α} (hx : x ≠ root) :
    climb parent root name height x = climb parent root name height (parent x) ++ [name x] := by
  rw [← climb_enough name (h x), climb_succ name hx]

end Path

/-! ## Giving a node another parent -/

section Redirect

variable [DecidableEq α] {e p : α}

theorem iterate_redirect (n : Nat) (x : α) :
    (Function.update parent e p)^[n] x = parent^[n] x ∨
      ∃ k, k < n ∧ (Function.update parent e p)^[k] x = e := by
  induction n with
  | zero => exact Or.inl rfl
  | succ n ih =>
      rcases ih with hsame | ⟨k, hk, hmeets⟩
      · by_cases hmeets : parent^[n] x = e
        · exact Or.inr ⟨n, Nat.lt_succ_self n, hsame.trans hmeets⟩
        · left
          rw [Function.iterate_succ_apply', Function.iterate_succ_apply', hsame,
            Function.update_of_ne hmeets]
      · exact Or.inr ⟨k, Nat.lt_succ_of_lt hk, hmeets⟩

theorem iterate_redirect_above (h : ∀ n, parent^[n] p ≠ e) (n : Nat) :
    (Function.update parent e p)^[n] p = parent^[n] p := by
  induction n with
  | zero => rfl
  | succ n ih =>
      rw [Function.iterate_succ_apply', Function.iterate_succ_apply', ih,
        Function.update_of_ne (h n)]

theorem Rooted.redirect (h : Rooted parent root height) (he : e ≠ root)
    (hp : ∀ n, parent^[n] p ≠ e) :
    Rooted (Function.update parent e p) root (height + 1 + height) := by
  have hroot : ∀ n, (Function.update parent e p)^[n] root = root := by
    intro n
    apply Function.iterate_fixed
    rw [Function.update_of_ne he.symm, h.parent_root]
  intro x
  rcases @iterate_redirect α parent _ e p height x with hsame | ⟨k, hk, hmeets⟩
  · rw [Nat.add_comm, Function.iterate_add_apply, Function.iterate_succ_apply', hsame, h]
    rw [← Function.iterate_succ_apply, hroot]
  · -- up to the node, over to its new parent, and on to the root
    obtain ⟨m, rfl⟩ : ∃ m, height = k + m := ⟨height - k, by omega⟩
    have hcount : k + m + 1 + (k + m) = m + (k + m) + 1 + k := by omega
    rw [hcount, Function.iterate_add_apply, hmeets, Function.iterate_succ_apply,
      Function.update_self, Function.iterate_add_apply, iterate_redirect_above hp, h, hroot]

end Redirect

end OShm.Lib.Ancestry
