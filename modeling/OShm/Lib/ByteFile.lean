import Mathlib.Data.List.Basic

/-! # Positional reads and writes of a file

The content of a file is a list. A write past the end fills the gap. Copying a file
chunk by chunk at the position reached so far extends a prefix of the source.
-/

namespace OShm.Lib.ByteFile

variable {α : Type*}

def readAt (data : List α) (pos n : Nat) : List α := (data.drop pos).take n

def writeAt (zero : α) (data : List α) (pos : Nat) (buf : List α) : List α :=
  (data ++ List.replicate (pos - data.length) zero).take pos ++ buf ++
    data.drop (pos + buf.length)

theorem writeAt_ne_nil (zero : α) (data : List α) (pos : Nat) {buf : List α} (h : buf ≠ []) :
    writeAt zero data pos buf ≠ [] := by
  simp [writeAt, h]

theorem readAt_eq_nil_iff {data : List α} {pos n : Nat} (hn : 0 < n) :
    readAt data pos n = [] ↔ data.length ≤ pos := by
  rw [readAt, List.take_eq_nil_iff, List.drop_eq_nil_iff]
  constructor
  · rintro (rfl | h)
    · exact absurd hn (Nat.lt_irrefl 0)
    · exact h
  · exact Or.inr

theorem readAt_length_le (data : List α) (pos n : Nat) :
    pos ≤ data.length → pos + (readAt data pos n).length ≤ data.length := by
  intro h
  simp only [readAt, List.length_take, List.length_drop]
  omega

theorem take_append_readAt (data : List α) (pos n : Nat) :
    data.take pos ++ readAt data pos n = data.take (pos + (readAt data pos n).length) := by
  rw [List.take_add]
  congr 1
  simp only [readAt, List.length_take, List.length_drop]
  rcases Nat.le_total n (data.length - pos) with h | h
  · rw [Nat.min_eq_left h]
  · rw [Nat.min_eq_right h, List.take_of_length_le (by simpa using h),
      List.take_of_length_le (by simp)]

/-- Writing the chunk read at `pos` behind the prefix copied so far. -/
theorem writeAt_take (zero : α) (data : List α) (pos n : Nat) (h : pos ≤ data.length) :
    writeAt zero (data.take pos) pos (readAt data pos n) =
      data.take (pos + (readAt data pos n).length) := by
  have hlen : (data.take pos).length = pos := List.length_take_of_le h
  have hdrop : (data.take pos).drop (pos + (readAt data pos n).length) = [] := by
    refine List.drop_eq_nil_iff.mpr ?_
    omega
  rw [writeAt, hlen, Nat.sub_self, List.replicate_zero, List.append_nil, hdrop, List.append_nil,
    List.take_of_length_le (Nat.le_of_eq hlen), take_append_readAt]

theorem writeAt_length (zero : α) (data buf : List α) :
    writeAt zero data data.length buf = data ++ buf := by
  have hdrop : data.drop (data.length + buf.length) = [] := by
    refine List.drop_eq_nil_iff.mpr ?_
    omega
  rw [writeAt, Nat.sub_self, List.replicate_zero, List.append_nil, List.take_length, hdrop,
    List.append_nil]

/-! ## Copies of a file that changes -/

/-- Every element was at its place in one of the versions. -/
def Woven (versions : List (List α)) (copy : List α) : Prop :=
  ∀ (i : Nat) (a : α), copy[i]? = some a → ∃ v ∈ versions, v[i]? = some a

/-- The copy was read to the end of a version. -/
structure CopiedFrom (versions : List (List α)) (copy : List α) : Prop where
  woven : Woven versions copy
  ended : ∃ v ∈ versions, v.length ≤ copy.length

theorem woven_nil (versions : List (List α)) : Woven versions [] := by
  intro i a h
  simp at h

theorem Woven.mono {versions versions' : List (List α)} {copy : List α} (h : Woven versions copy)
    (hsub : versions ⊆ versions') : Woven versions' copy := by
  intro i a hi
  obtain ⟨v, hv, hvi⟩ := h i a hi
  exact ⟨v, hsub hv, hvi⟩

theorem CopiedFrom.mono {versions versions' : List (List α)} {copy : List α}
    (h : CopiedFrom versions copy) (hsub : versions ⊆ versions') : CopiedFrom versions' copy := by
  obtain ⟨v, hv, hlen⟩ := h.ended
  exact ⟨h.woven.mono hsub, v, hsub hv, hlen⟩

theorem Woven.append_readAt {versions : List (List α)} {copy v : List α}
    (h : Woven versions copy) (hv : v ∈ versions) (n : Nat) :
    Woven versions (copy ++ readAt v copy.length n) := by
  intro i a hi
  rw [List.getElem?_append] at hi
  split at hi
  · exact h i a hi
  · rename_i hlen
    refine ⟨v, hv, ?_⟩
    rw [readAt, List.getElem?_take] at hi
    split at hi
    · rw [List.getElem?_drop] at hi
      rwa [Nat.add_sub_cancel' (Nat.le_of_not_lt hlen)] at hi
    · cases hi

theorem CopiedFrom.eq {versions : List (List α)} {copy v : List α} (h : CopiedFrom versions copy)
    (hv : ∀ w ∈ versions, w = v) : copy = v := by
  obtain ⟨w, hw, hlen⟩ := h.ended
  rw [hv w hw] at hlen
  refine List.ext_getElem? fun i => ?_
  cases hi : copy[i]? with
  | some a =>
      obtain ⟨u, hu, hui⟩ := h.woven i a hi
      rw [← hui, hv u hu]
  | none =>
      rw [List.getElem?_eq_none_iff] at hi
      rw [List.getElem?_eq_none (Nat.le_trans hlen hi)]

end OShm.Lib.ByteFile
