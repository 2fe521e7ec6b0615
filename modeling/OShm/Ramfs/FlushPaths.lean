import OShm.Lib.Digits
import OShm.Ramfs.Vfs
import Mathlib.Data.List.TakeWhile

/-! # Where the two paths of a flush lead

Both paths are the bound string, a slash and a name, cut to the buffer. While at least one byte
of the name is left, both are looked up in the directory that the bound string leads to.
-/

namespace OShm.Ramfs

open OShm.Kernel OShm.Lib OShm.Lib.PathString OShm.Lib.PathWalk

/-! ## Names without a slash -/

theorem slash_not_mem_formatHex (n : Nat) : slash ∉ formatHex n :=
  Digits.not_mem_map (by decide) (by decide) n

theorem slash_not_mem_formatDecimal (n : Nat) : slash ∉ formatDecimal n :=
  Digits.not_mem_map (by decide) (by decide) n

theorem slash_not_mem_lastComponent (p : CString) : slash ∉ lastComponent p := by
  intro h
  have h := List.mem_takeWhile_imp (List.mem_reverse.mp h)
  simp at h

theorem lastComponent_join (s : CString) {c : CString} (hc : slash ∉ c) :
    lastComponent (s ++ slash :: c) = c := by
  have hall : ∀ x ∈ c.reverse, decide (x ≠ slash) = true := by
    intro x hx
    have hne : x ≠ slash := fun h => hc (h ▸ List.mem_reverse.mp hx)
    simpa using hne
  rw [lastComponent, List.reverse_append, List.reverse_cons, List.append_assoc,
    List.takeWhile_append_of_pos hall]
  simp

/-- The text after the slash of the temporary path, before it is cut. -/
def FlushArgs.tmpText (A : FlushArgs) : CString :=
  dot :: A.filename ++ [dot] ++ formatHex A.sec ++ [dot] ++ formatHex A.ns ++ [dot] ++
    formatDecimal A.pid ++ ascii ".tmp"

theorem slash_not_mem_tmpText (A : FlushArgs) : slash ∉ A.tmpText := by
  have hfile := slash_not_mem_lastComponent A.path
  have hsec := slash_not_mem_formatHex A.sec
  have hns := slash_not_mem_formatHex A.ns
  have hpid := slash_not_mem_formatDecimal A.pid
  have hdot : slash ≠ dot := by decide
  have htmp : slash ∉ ascii ".tmp" := by decide
  simp only [FlushArgs.tmpText, FlushArgs.filename, List.mem_append, List.mem_cons,
    List.not_mem_nil, or_false, not_or]
  refine ⟨⟨⟨⟨⟨⟨⟨⟨hdot, hfile⟩, hdot⟩, hsec⟩, hdot⟩, hns⟩, hdot⟩, hpid⟩, htmp⟩

/-! ## The cut paths -/

/-- How many bytes of the name fit behind the bound string and the slash. -/
def nameRoom (s : CString) : Nat := pathMax - 2 - s.length

theorem snprintf_join {s : CString} (hs : s.length + 2 ≤ pathMax) (x : CString) :
    snprintf (s ++ slash :: x) = s ++ slash :: x.take (nameRoom s) := by
  have hroom : pathMax - 1 - s.length = nameRoom s + 1 := by
    unfold nameRoom
    omega
  rw [snprintf, List.take_append, hroom, List.take_succ_cons, List.take_of_length_le (by omega)]

def FlushArgs.tmpName (A : FlushArgs) (s : CString) : CString := A.tmpText.take (nameRoom s)

theorem FlushArgs.tmpPath_eq {A : FlushArgs} {s : CString} (hA : A.syncDir = some s)
    (hs : s.length + 2 ≤ pathMax) : A.tmpPath = s ++ slash :: A.tmpName s := by
  rw [FlushArgs.tmpName, ← snprintf_join hs, FlushArgs.tmpPath, FlushArgs.tmpText, hA]
  simp

theorem FlushArgs.finalPath_eq {A : FlushArgs} {s : CString} (hA : A.syncDir = some s)
    (hs : s.length + 2 ≤ pathMax) : A.finalPath = s ++ slash :: A.filename.take (nameRoom s) := by
  rw [← snprintf_join hs, FlushArgs.finalPath, hA]
  simp

theorem tmpName_component (A : FlushArgs) {s : CString} (hs : 0 < nameRoom s) :
    Component slash (A.tmpName s) where
  ne_nil := by
    obtain ⟨n, hn⟩ := Nat.exists_eq_succ_of_ne_zero (Nat.ne_of_gt hs)
    rw [FlushArgs.tmpName, hn]
    exact List.cons_ne_nil _ _
  sep_not_mem := fun h => slash_not_mem_tmpText A (List.mem_of_mem_take h)

theorem take_component {c : CString} (hc : Component slash c) {s : CString} (hs : 0 < nameRoom s) :
    Component slash (c.take (nameRoom s)) where
  ne_nil := by
    obtain ⟨n, hn⟩ := Nat.exists_eq_succ_of_ne_zero (Nat.ne_of_gt hs)
    obtain ⟨x, c', rfl⟩ := List.exists_cons_of_ne_nil hc.ne_nil
    rw [hn]
    exact List.cons_ne_nil _ _
  sep_not_mem := fun h => hc.sep_not_mem (List.mem_of_mem_take h)

theorem dirName_join (s : CString) {c : CString} (hc : slash ∉ c) :
    World.dirName (s ++ slash :: c) = s := by
  have hdrop : (s ++ slash :: c).reverse.dropWhile (· ≠ slash) = slash :: s.reverse := by
    have hall : ∀ x ∈ c.reverse, decide (x ≠ slash) = true := by
      intro x hx
      have hne : x ≠ slash := fun h => hc (h ▸ List.mem_reverse.mp hx)
      simpa using hne
    rw [List.reverse_append, List.reverse_cons, List.append_assoc,
      List.dropWhile_append_of_pos hall]
    simp
  rw [World.dirName, hdrop]
  exact List.reverse_reverse s

/-! ## Lookup of directory and name -/

/-- The name of the target is still a name after the cut, if that of the temporary file is. -/
theorem target_isName {A : FlushArgs} {s : CString} (hfile : IsName A.filename)
    (hroom : 0 < nameRoom s) (htmp : Plain special (A.tmpName s)) :
    IsName (A.filename.take (nameRoom s)) := by
  refine ⟨take_component hfile.component hroom, ?_, ?_⟩
  · intro h
    have hlen := congrArg List.length h
    rw [List.length_take, List.length_singleton] at hlen
    by_cases hone : nameRoom s = 1
    · apply htmp.1
      rw [FlushArgs.tmpName, hone]
      rfl
    · rw [List.take_of_length_le (by omega)] at h
      exact hfile.plain.1 h
  · intro h
    have hlen := congrArg List.length h
    rw [List.length_take, List.length_cons, List.length_singleton] at hlen
    by_cases htwo : nameRoom s = 2
    · apply htmp.2
      obtain ⟨x, rest, hx⟩ := List.exists_cons_of_ne_nil hfile.component.ne_nil
      rw [htwo, hx, List.take_succ_cons] at h
      rw [FlushArgs.tmpName, htwo, FlushArgs.tmpText, hx, (List.cons.inj h).1]
      rfl
    · rw [List.take_of_length_le (by omega)] at h
      exact hfile.plain.2 h

namespace Store

variable {st : Store} {l : Loc}

@[simp] theorem tick_sights (st : Store) : st.tick.sights = st.sights := rfl

theorem sights_link {text : CString} :
    st.sights l = some (.link text) ↔ st.lookup l.1 l.2 = some (.link text) := by
  unfold sights
  rcases st.lookup l.1 l.2 with _ | (_ | _ | _) <;> simp

theorem sights_dir {d : Dir} :
    st.sights l = some (.dir d) ↔ st.lookup l.1 l.2 = some (.dir d) := by
  unfold sights
  rcases st.lookup l.1 l.2 with _ | (_ | _ | _) <;> simp

end Store

namespace World

variable {W : World} {st : Store} {s c : CString} {D : Dir}

theorem kernPathAny_dir {p : CString} {D : Dir} (h : W.kernPathAny st p = some (.inl D)) :
    p.length < pathMax ∧ W.kernPath st p = some D := by
  unfold kernPathAny at h
  split_ifs at h with hlen
  refine ⟨Nat.lt_of_not_le hlen, ?_⟩
  cases hk : W.kernPath st p with
  | some d =>
      simp only [hk, Option.some.injEq, Sum.inl.injEq] at h
      rw [h]
  | none =>
      simp only [hk] at h
      cases ho : W.openTarget st p with
      | none => simp [ho] at h
      | some l =>
          simp only [ho] at h
          split at h <;> cases h

theorem locate_join (hc : IsName c) :
    W.locate st (s ++ slash :: c) = (W.base st s).map (·, c) := W.namei.locate_join hc

theorem openTarget_join (hD : W.base st s = some D) (hc : IsName c)
    (hlink : ∀ text, st.lookup D c ≠ some (.link text)) :
    W.openTarget st (s ++ slash :: c) = some (D, c) := by
  apply W.namei.openTarget_plain
  · have hlocate : W.locate st (s ++ slash :: c) = some (D, c) := by
      rw [locate_join hc, hD]
      rfl
    exact hlocate
  · exact fun text h => hlink text (Store.sights_link.mp h)

theorem openTarget_missing (hD : W.base st s = none) (hc : IsName c) :
    W.openTarget st (s ++ slash :: c) = none := by
  apply W.namei.openTarget_missing
  have hlocate : W.locate st (s ++ slash :: c) = none := by
    rw [locate_join hc, hD]
    rfl
  exact hlocate

theorem openTarget_dots (hc : Component slash c) (hplain : ¬ Plain special c) :
    W.openTarget st (s ++ slash :: c) = none :=
  W.namei.openTarget_missing (W.namei.locate_dots hc hplain)

theorem openTarget_dir {p : CString} {l : Loc} (hD : W.kernPath st p = some D)
    (hl : W.openTarget st p = some l) : ∃ d, st.lookup l.1 l.2 = some (.dir d) := by
  obtain ⟨d, hd⟩ := W.namei.openTarget_dir hD hl
  exact ⟨d, Store.sights_dir.mp hd⟩

theorem kernPath_no_room {A : FlushArgs} (hA : A.syncDir = some s) (hD : W.kernPath st s = some D)
    (hroom : nameRoom s = 0) (hlen : s.length < pathMax) : W.kernPath st A.tmpPath = some D := by
  by_cases h : s.length + 2 ≤ pathMax
  · have hs : s ≠ [] := by
      rintro rfl
      cases hroom
    have hname : A.tmpName s = [] := by rw [FlushArgs.tmpName, hroom, List.take_zero]
    rw [FlushArgs.tmpPath_eq hA h, hname]
    exact W.namei.findDir_slash hs hD
  · have hcut : A.tmpPath = s := by
      have hlen' : pathMax - 1 = s.length := by omega
      rw [FlushArgs.tmpPath, hA, snprintf, hlen']
      simp
    rw [hcut, hD]

end World

/-- The first flush of `/r/x` into `/p`. -/
def firstFlush : FlushArgs := ⟨some (ascii "/p"), ascii "/r/x", 1, 2, 3⟩

end OShm.Ramfs
