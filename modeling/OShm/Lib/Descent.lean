import Mathlib.Data.Fintype.Card
import Mathlib.Data.Set.Finite.Basic
import Mathlib.Logic.Relation

/-! # Recursion down a graph

A function that calls itself for every successor of a node ends exactly when no chain of
successors is infinite. In a graph with finitely many reachable nodes this means that no
node below the start is below itself.
-/

namespace OShm.Lib.Descent

open Relation

variable {α : Type*} (next : α → List α)

/-- The recursion from `a` ends within `n` nested calls. -/
def ends : Nat → α → Bool
  | 0, _ => false
  | n + 1, a => (next a).all (ends n)

/-- No node that is reached from `a` is reached from itself again. -/
def Acyclic (a : α) : Prop :=
  ∀ b, ReflTransGen (fun x y => y ∈ next x) a b → ¬ TransGen (fun x y => y ∈ next x) b b

variable {next}

theorem ends_mono {n k : Nat} {a : α} (hle : n ≤ k) (h : ends next n a = true) :
    ends next k a = true := by
  induction n generalizing k a with
  | zero => simp [ends] at h
  | succ n ih =>
      obtain ⟨j, rfl⟩ := Nat.exists_eq_add_of_le hle
      rw [Nat.succ_add, ends, List.all_eq_true] at *
      exact fun b hb => ih (Nat.le_add_right n j) (h b hb)

theorem acc_of_ends {n : Nat} {a : α} (h : ends next n a = true) :
    Acc (fun y x => y ∈ next x) a := by
  induction n generalizing a with
  | zero => simp [ends] at h
  | succ n ih =>
      rw [ends, List.all_eq_true] at h
      exact ⟨a, fun b hb => ih (h b hb)⟩

theorem exists_all_ends {as : List α} (h : ∀ a ∈ as, ∃ n, ends next n a = true) :
    ∃ n, as.all (ends next n) = true := by
  induction as with
  | nil => exact ⟨0, rfl⟩
  | cons a as ih =>
      obtain ⟨ha, has⟩ := List.forall_mem_cons.mp h
      obtain ⟨n, hn⟩ := ha
      obtain ⟨k, hk⟩ := ih has
      refine ⟨max n k, List.all_eq_true.mpr fun b hb => ?_⟩
      rcases List.mem_cons.mp hb with rfl | hb
      · exact ends_mono (Nat.le_max_left n k) hn
      · exact ends_mono (Nat.le_max_right n k) (List.all_eq_true.mp hk b hb)

theorem exists_ends_of_acc {a : α} (h : Acc (fun y x => y ∈ next x) a) :
    ∃ n, ends next n a = true := by
  induction h with
  | intro a _ ih =>
      obtain ⟨n, hn⟩ := exists_all_ends ih
      exact ⟨n + 1, hn⟩

theorem acyclic_of_acc {a : α} (h : Acc (fun y x => y ∈ next x) a) : Acyclic next a := by
  induction h with
  | intro a hacc ih =>
      intro b hb hcycle
      -- a cycle through `a` itself goes through one of its successors as well
      have hbelow : ∀ c, c ∈ next a → ∀ b, ReflTransGen (fun x y => y ∈ next x) c b →
          ¬ TransGen (fun x y => y ∈ next x) b b := fun c hc => ih c hc
      rcases ReflTransGen.cases_head hb with rfl | ⟨c, hc, hcb⟩
      · obtain ⟨c, hc, hca⟩ := TransGen.head'_iff.mp hcycle
        exact hbelow c hc a hca hcycle
      · exact hbelow c hc b hcb hcycle

theorem acc_of_acyclic {a : α} (hfin : {b | ReflTransGen (fun x y => y ∈ next x) a b}.Finite)
    (h : Acyclic next a) : Acc (fun y x => y ∈ next x) a := by
  let Below := {b // ReflTransGen (fun x y => y ∈ next x) a b}
  have : Finite Below := hfin.to_subtype
  let below : Below → Below → Prop := fun y x => TransGen (fun x y => y ∈ next x) x.1 y.1
  have : IsTrans Below below := ⟨fun _ _ _ hxy hyz => hyz.trans hxy⟩
  have : Std.Irrefl below := ⟨fun x => h x.1 x.2⟩
  have hwf := Finite.wellFounded_of_trans_of_irrefl below
  have hacc : ∀ x : Below, Acc (fun y x => y ∈ next x) x.1 := by
    intro x
    induction hwf.apply x with
    | intro x _ ih => exact ⟨x.1, fun y hy => ih ⟨y, x.2.tail hy⟩ (TransGen.single hy)⟩
  exact hacc ⟨a, ReflTransGen.refl⟩

/-- The recursion ends exactly from where no cycle is reached. -/
theorem exists_ends_iff {a : α}
    (hfin : {b | ReflTransGen (fun x y => y ∈ next x) a b}.Finite) :
    (∃ n, ends next n a = true) ↔ Acyclic next a := by
  constructor
  · rintro ⟨n, h⟩
    exact acyclic_of_acc (acc_of_ends h)
  · exact fun h => exists_ends_of_acc (acc_of_acyclic hfin h)

end OShm.Lib.Descent
