import Mathlib.Data.List.Perm.Basic
import Mathlib.Data.List.Count
import Mathlib.Logic.Function.Basic

/-! # Reference counts

Objects carry a number, holders own lists of objects. The two are balanced when each object's
number is the number of times it is owned. The references themselves are named in a list that is
no part of the state, so no sum over holders is ever taken: a step that changes what one or two
holders own has to change the numbers by the same amounts, and nothing else.
-/

namespace OShm.Lib.RefCount

variable {H O : Type*} [DecidableEq H] [DecidableEq O]

/-- The references behind the numbers. -/
structure Tokens (count : O → Nat) (owns : H → List O) (tokens : List (H × O)) : Prop where
  count : ∀ o, count o = tokens.countP fun x => x.2 = o
  owns : ∀ h o, tokens.count (h, o) = (owns h).count o

def Balanced (count : O → Nat) (owns : H → List O) : Prop :=
  ∃ tokens, Tokens count owns tokens

theorem balanced_empty : Balanced (fun _ : O => 0) (fun _ : H => []) :=
  ⟨[], fun _ => rfl, fun _ _ => rfl⟩

namespace Balanced

variable {count count' : O → Nat} {owns owns' : H → List O}

theorem pos (hb : Balanced count owns) {h : H} {o : O} (ho : o ∈ owns h) : 0 < count o := by
  obtain ⟨tokens, ht⟩ := hb
  have hmem : (h, o) ∈ tokens := by
    rw [← List.count_pos_iff, ht.owns]
    exact List.count_pos_iff.mpr ho
  rw [ht.count]
  exact List.countP_pos_iff.mpr ⟨(h, o), hmem, by simp⟩

theorem exists_owner (hb : Balanced count owns) {o : O} (ho : 0 < count o) :
    ∃ h, o ∈ owns h := by
  obtain ⟨tokens, ht⟩ := hb
  rw [ht.count] at ho
  obtain ⟨⟨h, o'⟩, hmem, heq⟩ := List.countP_pos_iff.mp ho
  obtain rfl : o' = o := by simpa using heq
  refine ⟨h, ?_⟩
  rw [← List.count_pos_iff, ← ht.owns]
  exact List.count_pos_iff.mpr hmem

theorem owner_unique (hb : Balanced count owns) {h h' : H} {o : O} (hone : count o ≤ 1)
    (ho : o ∈ owns h) (ho' : o ∈ owns h') : h = h' := by
  obtain ⟨tokens, ht⟩ := hb
  by_contra hne
  have hmem : ∀ {x}, o ∈ owns x → (x, o) ∈ tokens := by
    intro x hx
    rw [← List.count_pos_iff, ht.owns]
    exact List.count_pos_iff.mpr hx
  have hrest : (h', o) ∈ tokens.erase (h, o) := by
    refine (List.mem_erase_of_ne ?_).mpr (hmem ho')
    intro heq
    exact hne (congrArg Prod.fst heq).symm
  have htwo := List.perm_cons_erase (hmem ho)
  rw [ht.count, htwo.countP_eq, List.countP_cons_of_pos (by simp)] at hone
  have hpos : 0 < (tokens.erase (h, o)).countP fun x => x.2 = o :=
    List.countP_pos_iff.mpr ⟨_, hrest, by simp⟩
  omega

/-- References are given back and new ones taken; whatever is neither stays. -/
theorem change (hb : Balanced count owns) (taken given : List (H × O))
    (howns : ∀ h o, (owns' h).count o + given.count (h, o) =
      (owns h).count o + taken.count (h, o))
    (hcount : ∀ o, count' o + given.countP (fun x => x.2 = o) =
      count o + taken.countP fun x => x.2 = o) : Balanced count' owns' := by
  obtain ⟨tokens, ht⟩ := hb
  have hle : ∀ x ∈ given, given.count x ≤ (taken ++ tokens).count x := by
    rintro ⟨h, o⟩ -
    have hx := howns h o
    rw [List.count_append, ht.owns h o]
    omega
  have hperm := List.subperm_append_diff_self_of_count_le hle
  refine ⟨(taken ++ tokens).diff given, ?_, ?_⟩
  · intro o
    have hall := hperm.countP_eq fun x => x.2 = o
    rw [List.countP_append, List.countP_append] at hall
    have ho := hcount o
    rw [ht.count o] at ho
    omega
  · intro h o
    have hall := hperm.count_eq (h, o)
    rw [List.count_append, List.count_append, ht.owns h o] at hall
    have ho := howns h o
    omega

variable {h h₁ h₂ : H} {o : O} {l l₁ l₂ : List O}

theorem permute (hb : Balanced count owns) (hl : l.Perm (owns h)) :
    Balanced count (Function.update owns h l) := by
  refine hb.change [] [] ?_ fun _ => rfl
  intro x y
  by_cases hx : x = h
  · subst hx
    simpa using hl.count_eq y
  · simp [hx]

theorem take (hb : Balanced count owns) (hl : l.Perm (o :: owns h)) :
    Balanced (Function.update count o (count o + 1)) (Function.update owns h l) := by
  refine hb.change [(h, o)] [] ?_ ?_
  · intro x y
    by_cases hx : x = h
    · subst hx
      simp [hl.count_eq y, List.count_cons]
    · simp [hx, Ne.symm hx]
  · intro y
    by_cases hy : y = o
    · simp [hy]
    · simp [hy, Ne.symm hy]

theorem drop (hb : Balanced count owns) (hl : (owns h).Perm (o :: l)) :
    Balanced (Function.update count o (count o - 1)) (Function.update owns h l) := by
  have hpos : 0 < count o := hb.pos (hl.mem_iff.mpr List.mem_cons_self)
  refine hb.change [] [(h, o)] ?_ ?_
  · intro x y
    by_cases hx : x = h
    · subst hx
      simp [hl.count_eq y, List.count_cons]
    · simp [hx, Ne.symm hx]
  · intro y
    by_cases hy : y = o
    · subst hy
      simp
      omega
    · simp [hy, Ne.symm hy]

theorem pass (hb : Balanced count owns) (hne : h₁ ≠ h₂) (hl₁ : (owns h₁).Perm (o :: l₁))
    (hl₂ : l₂.Perm (o :: owns h₂)) :
    Balanced count (Function.update (Function.update owns h₁ l₁) h₂ l₂) := by
  refine hb.change [(h₂, o)] [(h₁, o)] ?_ fun y => by simp
  intro x y
  by_cases hx : x = h₂
  · subst hx
    simp [hl₂.count_eq y, List.count_cons, hne]
  · by_cases hy : x = h₁
    · subst hy
      simp [hx, hl₁.count_eq y, List.count_cons, Ne.symm hx]
    · simp [hx, hy, Ne.symm hx, Ne.symm hy]

end Balanced

end OShm.Lib.RefCount
