import OShm.Ramfs.LinkedDisk

/-! # Replacing the persisted file

The copy goes to the temporary file and the rename installs all of it. In between the flush opens
the target with `O_CREAT`, which shows an empty file to everyone when there was none. A link under
the temporary name can lead the copy to the target itself.
-/

namespace OShm.Ramfs

open OShm.Kernel OShm.Lib.ByteFile OShm.Lib.PathWalk

/-- What was there before, or all of the source. -/
def Intact (before : Option Shown) (src : Bytes) (now : Option Shown) : Prop :=
  now = before ∨ now = some (.body (.file src))

section Statement

variable (N : Namei) (p : Process) (A : FlushArgs) (src : Bytes) (d : LinkedDisk)

def AtomicFlush : Prop := ∀ answers, Intact (d.look N p A.finalPath) src
  ((linkedRun N p A src d answers).disk.look N p A.finalPath)

/-- The target is the file that the flush copies to. -/
def Aliased (i : Nat) (d₁ : LinkedDisk) : Prop :=
  ∃ l, N.openTarget p d₁.sights A.finalPath = some l ∧ d₁.entry l = some (.inode i)

/-- The temporary name is a regular file, not a link to one, and the target is no directory. -/
structure Ordinary (i : Nat) (d₁ : LinkedDisk) : Prop where
  named : ∃ l, N.locate p d₁.sights A.tmpPath = some l ∧ d₁.entry l = some (.inode i)
  regular : ∃ data, d₁.body i = .file data
  notDir : d.look N p A.finalPath ≠ some .dir

/-- What a flush needs whose temporary file was opened as `i`. -/
structure ReplacesFrom (i : Nat) (d₁ : LinkedDisk) : Prop where
  /-- A copy that goes to the target itself does not change it on the way. -/
  apart : Aliased N p A i d₁ → src = [] ∨ d.look N p A.finalPath = some (.body .special) ∨
    d.look N p A.finalPath = some (.body (.file [])) ∧ src.length ≤ 1
  /-- The touch creates nothing, also not through a link that leads nowhere. -/
  present : d.look N p A.finalPath = none → (∃ x, d.openPath N p A.finalPath = .ok x) → src = []
  installs : Ordinary N p A d i d₁ ∨ ∀ d₂, Touches N p A (d₁.setData i src) d₂ →
    Intact (d.look N p A.finalPath) src
      ((d₂.rename N p A.tmpPath A.finalPath).1.look N p A.finalPath)

/-- The ramfs is not bound, or the temporary file cannot be opened, or replacing the target from
it is safe. -/
def Replaceable : Prop := A.syncDir = none ∨
  ∀ i d₁, d.openPath N p A.tmpPath = .ok (i, d₁) → ReplacesFrom N p A src d i d₁

end Statement

/-! ## What the target shows -/

namespace LinkedDisk

variable {N : Namei} {p : Process} {d d₁ : LinkedDisk} {l : Loc} {i : Nat} {path : CString}

theorem look_of_target (h : N.openTarget p d.sights path = some l) :
    d.look N p path = d.shown l := by
  rw [look, h, Option.bind_some]

theorem look_of_no_target (h : N.openTarget p d.sights path = none) : d.look N p path = none := by
  rw [look, h, Option.bind_none]

theorem shown_of_inode (h : d.entry l = some (.inode i)) : d.shown l = some (.body (d.body i)) := by
  simp only [shown, h]

theorem shown_of_sights_dir {e : Dir} (h : d.sights l = some (.dir e)) : d.shown l = some .dir := by
  unfold sights at h
  rcases he : d.entry l with _ | (e' | i)
  · simp [he] at h
  · simp only [shown, he]
  · rw [he] at h
    cases hb : d.body i <;> simp [hb, Body.sight] at h

theorem rename_effect {a : Loc} {old : CString} (ha : N.locate p d.sights old = some a)
    (hi : d.entry a = some (.inode i)) (new : CString) :
    (d.rename N p old new).1 = d ∨ ∃ b, N.locate p d.sights new = some b ∧ a ≠ b ∧
      (d.rename N p old new).1 = d.move a b := by
  unfold rename
  rw [ha]
  cases hb : N.locate p d.sights new with
  | none => exact Or.inl rfl
  | some b =>
      simp only [hi]
      split
      · exact Or.inl rfl
      · rename_i heq _
        cases heq
        split_ifs with hsame
        · exact Or.inl rfl
        · exact Or.inr ⟨b, rfl, fun hab => hsame (Or.inl hab), rfl⟩
      · rename_i heq
        cases heq
      · rename_i heq
        cases heq

theorem entry_of_shown_none (h : d.shown l = none) : d.entry l = none := by
  unfold shown at h
  rcases he : d.entry l with _ | (e | i)
  · rfl
  · simp [he] at h
  · simp [he] at h

/-- A regular file takes its name along, and nothing goes through its new name. -/
theorem sights_move {a b : Loc} (hab : a ≠ b) (ha : d.entry a = some (.inode i))
    (hfile : (d.body i).sight = none) :
    (d.move a b).sights = Function.update d.sights b none := by
  funext l
  by_cases hla : l = a
  · subst hla
    rw [sights_of_none move_entry_old, Function.update_of_ne hab, sights_of_inode ha, hfile]
  · by_cases hlb : l = b
    · subst hlb
      rw [sights_of_inode ((move_entry_new hab).trans ha), Function.update_self]
      exact hfile
    · have he : (d.move a b).entry l = d.entry l := move_entry_of_ne hla hlb
      have hbody : (d.move a b).body = d.body := rfl
      simp only [sights, Function.update_of_ne hlb, he, hbody]

end LinkedDisk

section Replaced

variable {N : Namei} {p : Process} {A : FlushArgs} {src : Bytes} {d d₁ d₂ : LinkedDisk} {i : Nat}

/-- The file that the flush copies to and the target share is new, or the target showed it. -/
theorem look_of_aliased (ho : d.openPath N p A.tmpPath = .ok (i, d₁)) (h : Aliased N p A i d₁) :
    (d.look N p A.finalPath = none ∧ d₁.body i = .file []) ∨
      d.look N p A.finalPath = some (.body (d₁.body i)) := by
  obtain ⟨f, hf, he⟩ := h
  obtain ⟨l, hl, heffect⟩ := LinkedDisk.openPath_ok ho
  rw [heffect.sights] at hf
  rw [LinkedDisk.look_of_target hf]
  by_cases hfl : f = l
  · subst hfl
    rcases heffect.effect with ⟨hd, rfl⟩ | ⟨hnone, rfl, rfl⟩
    · exact Or.inr (LinkedDisk.shown_of_inode hd)
    · refine Or.inl ⟨?_, Function.update_self _ _ _⟩
      simp only [LinkedDisk.shown, hnone]
  · obtain ⟨_, rfl⟩ := heffect.entry_inode hfl he
    exact Or.inr (LinkedDisk.shown_of_inode he)

theorem look_copying (ho : d.openPath N p A.tmpPath = .ok (i, d₁)) (data : Bytes) :
    (Aliased N p A i d₁ ∧
      (d₁.setData i data).look N p A.finalPath = some (.body ((d₁.body i).withData data))) ∨
    (¬ Aliased N p A i d₁ ∧
      (d₁.setData i data).look N p A.finalPath = d.look N p A.finalPath) := by
  obtain ⟨l, hl, heffect⟩ := LinkedDisk.openPath_ok ho
  have hsights : (d₁.setData i data).sights = d.sights := by
    rw [LinkedDisk.setData_sights, heffect.sights]
  cases hf : N.openTarget p d.sights A.finalPath with
  | none =>
      refine Or.inr ⟨?_, ?_⟩
      · rintro ⟨f, hf', -⟩
        rw [heffect.sights, hf] at hf'
        cases hf'
      · rw [LinkedDisk.look_of_no_target (hsights.symm ▸ hf), LinkedDisk.look_of_no_target hf]
  | some f =>
      rw [LinkedDisk.look_of_target (hsights.symm ▸ hf), LinkedDisk.look_of_target hf,
        LinkedDisk.shown_setData]
      by_cases he : d₁.entry f = some (.inode i)
      · exact Or.inl ⟨⟨f, heffect.sights.symm ▸ hf, he⟩, if_pos he⟩
      · refine Or.inr ⟨?_, ?_⟩
        · rintro ⟨f', hf', he'⟩
          rw [heffect.sights, hf] at hf'
          cases hf'
          exact he he'
        · rw [if_neg he, heffect.shown_of_ne he]

theorem ReplacesFrom.copying (ho : d.openPath N p A.tmpPath = .ok (i, d₁))
    (h : ReplacesFrom N p A src d i d₁) (n : Nat) :
    Intact (d.look N p A.finalPath) src
      ((d₁.setData i (src.take n)).look N p A.finalPath) := by
  rcases look_copying ho (src.take n) with ⟨halias, hlook⟩ | ⟨-, hlook⟩
  · rw [hlook]
    have hbefore := look_of_aliased ho halias
    obtain ⟨l, -, heffect⟩ := LinkedDisk.openPath_ok ho
    cases hbody : d₁.body i with
    | link text => exact absurd hbody (heffect.body_ne_link text)
    | special =>
        rw [hbody] at hbefore
        exact Or.inl (hbefore.resolve_left (by simp)).symm
    | file data =>
        rw [hbody] at hbefore
        rcases h.apart halias with rfl | hspecial | ⟨hempty, hlen⟩
        · exact Or.inr (by simp [Body.withData])
        · rw [hspecial] at hbefore
          simp at hbefore
        · rcases Nat.eq_zero_or_pos n with rfl | hn
          · exact Or.inl hempty.symm
          · rw [List.take_of_length_le (by omega)]
            exact Or.inr rfl
  · exact Or.inl hlook

theorem LinkedDisk.openPath_setData {data : Bytes} {path : CString} {j : Nat}
    (heffect : ∃ l, LinkedDisk.OpenEffect d l i d₁)
    (h : (d₁.setData i data).openPath N p path = .ok (j, d₂)) :
    d₂ = d₁.setData i data ∨
      (d.look N p path = none ∧ (∃ x, d.openPath N p path = .ok x) ∧
        d₂.look N p path = some (.body (.file []))) := by
  obtain ⟨l, heffect⟩ := heffect
  obtain ⟨f, hf, hopen⟩ := LinkedDisk.openPath_ok h
  have hsights₂ := hopen.sights
  rw [LinkedDisk.setData_sights, heffect.sights] at hf hsights₂
  rcases hopen.effect with ⟨-, hsame⟩ | ⟨hnone, rfl, rfl⟩
  · exact Or.inl hsame
  · rw [LinkedDisk.setData_entry] at hnone
    have hnone' := (heffect.entry_eq_none.mp hnone).2
    refine Or.inr ⟨?_, ?_, ?_⟩
    · rw [LinkedDisk.look_of_target hf, LinkedDisk.shown]
      simp only [hnone']
    · obtain ⟨j, d', hd'⟩ := LinkedDisk.openPath_of_target hf hopen.short (by simp [hnone'])
      exact ⟨_, hd'⟩
    · rw [LinkedDisk.look_of_target (hsights₂.symm ▸ hf),
        LinkedDisk.shown_of_inode hopen.entry_self]
      exact congrArg (some ∘ Shown.body) (Function.update_self _ _ _)

theorem ReplacesFrom.touched (ho : d.openPath N p A.tmpPath = .ok (i, d₁))
    (h : ReplacesFrom N p A src d i d₁) (ht : Touches N p A (d₁.setData i src) d₂) :
    Intact (d.look N p A.finalPath) src (d₂.look N p A.finalPath) := by
  have hcopied := h.copying ho src.length
  rw [List.take_length] at hcopied
  obtain ⟨l, -, heffect⟩ := LinkedDisk.openPath_ok ho
  rcases ht with rfl | ⟨j, hopen⟩
  · exact hcopied
  · rcases LinkedDisk.openPath_setData ⟨l, heffect⟩ hopen with rfl | ⟨hnone, hok, hlook⟩
    · exact hcopied
    · rw [h.present hnone hok]
      exact Or.inr hlook

/-- The rename of an ordinary flush brings the copy to the target, if it does anything. -/
theorem Ordinary.installs (ho : d.openPath N p A.tmpPath = .ok (i, d₁))
    (hord : Ordinary N p A d i d₁) (ht : Touches N p A (d₁.setData i src) d₂)
    (hi : Intact (d.look N p A.finalPath) src (d₂.look N p A.finalPath)) :
    Intact (d.look N p A.finalPath) src
      ((d₂.rename N p A.tmpPath A.finalPath).1.look N p A.finalPath) := by
  obtain ⟨a, ha, hentry⟩ := hord.named
  obtain ⟨data, hdata⟩ := hord.regular
  obtain ⟨l, -, heffect⟩ := LinkedDisk.openPath_ok ho
  have hcopied : (d₁.setData i src).body i = .file src := by
    rw [LinkedDisk.setData_body_self, hdata]
    rfl
  obtain ⟨hsights, hentry₂, hbody₂⟩ : d₂.sights = d₁.sights ∧ d₂.entry a = some (.inode i) ∧
      d₂.body i = .file src := by
    rcases ht with rfl | ⟨j, hopen⟩
    · exact ⟨LinkedDisk.setData_sights, hentry, hcopied⟩
    · obtain ⟨f, -, htouch⟩ := LinkedDisk.openPath_ok hopen
      have hkept : d₂.entry a = d₁.entry a := htouch.entry_of_some (by simp [hentry])
      exact ⟨htouch.sights.trans LinkedDisk.setData_sights, hkept.trans hentry,
        (htouch.body_of_entry hentry).trans hcopied⟩
  rw [← hsights] at ha
  rcases LinkedDisk.rename_effect ha hentry₂ A.finalPath with hsame | ⟨b, hb, hab, hmove⟩
  · rw [hsame]
    exact hi
  · rw [hmove]
    have hfile : (d₂.body i).sight = none := by rw [hbody₂]; rfl
    have hmoved := LinkedDisk.sights_move hab hentry₂ hfile
    have hat : N.locate p (d₂.move a b).sights A.finalPath = some b →
        Intact (d.look N p A.finalPath) src ((d₂.move a b).look N p A.finalPath) := by
      intro hloc
      have htarget := N.openTarget_plain hloc (by simp [hmoved])
      have hnew : (d₂.move a b).entry b = some (.inode i) :=
        (LinkedDisk.move_entry_new hab).trans hentry₂
      rw [LinkedDisk.look_of_target htarget, LinkedDisk.shown_of_inode hnew]
      exact Or.inr (congrArg (some ∘ Shown.body) hbody₂)
    rw [hmoved] at hat
    rcases N.locate_block p d₂.sights A.finalPath b with hnone | hloc
    · -- no walk goes through a target that was there
      rcases hbefore : d.look N p A.finalPath with _ | shown
      · exact Or.inl (LinkedDisk.look_of_no_target (N.openTarget_missing (hmoved ▸ hnone)))
      · exfalso
        obtain ⟨m, hm, hshown⟩ := Option.bind_eq_some_iff.mp hbefore
        have hdir : ∀ e, d₂.sights m ≠ some (.dir e) := by
          intro e he
          rw [hsights, heffect.sights] at he
          apply hord.notDir
          rw [hbefore, ← hshown]
          exact LinkedDisk.shown_of_sights_dir he
        rw [← heffect.sights, ← hsights] at hm
        cases hnone.symm.trans (N.locate_opened hb hm hdir)
    · exact hat (hloc.trans hb)

end Replaced

/-! ## When the target stays intact -/

section Main

variable {N : Namei} {p : Process} {A : FlushArgs} {src : Bytes} {d : LinkedDisk}

theorem ReplacesFrom.renamed {i : Nat} {d₁ d₂ : LinkedDisk}
    (ho : d.openPath N p A.tmpPath = .ok (i, d₁)) (h : ReplacesFrom N p A src d i d₁)
    (ht : Touches N p A (d₁.setData i src) d₂) :
    Intact (d.look N p A.finalPath) src
      ((d₂.rename N p A.tmpPath A.finalPath).1.look N p A.finalPath) := by
  rcases h.installs with hord | hinstalls
  · exact hord.installs ho ht (h.touched ho ht)
  · exact hinstalls d₂ ht

theorem visits_intact {st : FlushStage} {d' : LinkedDisk} (hv : Visits N p A src d st d')
    (h : ∀ i d₁, d.openPath N p A.tmpPath = .ok (i, d₁) → ReplacesFrom N p A src d i d₁) :
    Intact (d.look N p A.finalPath) src (d'.look N p A.finalPath) := by
  cases hv with
  | opening => exact Or.inl rfl
  | copying n ho => exact (h _ _ ho).copying ho n
  | installing ho ht => exact (h _ _ ho).touched ho ht

theorem atomic_of_replaceable (h : Replaceable N p A src d) : AtomicFlush N p A src d := by
  intro answers
  have hreached := @linkedRun_reached N p A src d answers
  generalize linkedRun N p A src d answers = s at hreached
  cases hreached with
  | unbound hsync => exact Or.inl rfl
  | opening hsync hpc => exact Or.inl rfl
  | copying hsync hpc ho hn => exact (h.resolve_left hsync _ _ ho).copying ho _
  | installing hsync hpc ho ht => exact (h.resolve_left hsync _ _ ho).touched ho ht
  | failed hsync hv => exact visits_intact hv (h.resolve_left hsync)
  | returned hsync hv hr =>
      cases hv with
      | installing ho ht =>
          have hrenamed := (h.resolve_left hsync _ _ ho).renamed ho ht
          rwa [hr] at hrenamed

/-! ## When it does not -/

/-- A copy to the target itself shows every prefix of the source. -/
theorem AtomicFlush.apart (h : AtomicFlush N p A src d) {dir : CString} {i : Nat}
    {d₁ : LinkedDisk} (hsync : A.syncDir = some dir)
    (ho : d.openPath N p A.tmpPath = .ok (i, d₁)) (halias : Aliased N p A i d₁) :
    src = [] ∨ d.look N p A.finalPath = some (.body .special) ∨
      d.look N p A.finalPath = some (.body (.file [])) ∧ src.length ≤ 1 := by
  have shows : ∀ data : Bytes, (d₁.setData i data).look N p A.finalPath =
      some (.body ((d₁.body i).withData data)) := by
    intro data
    rcases look_copying ho data with ⟨-, hlook⟩ | ⟨hno, -⟩
    · exact hlook
    · exact absurd halias hno
  have hopened := h (List.replicate 6 (.ok 0))
  rw [linkedRun_opened hsync ho, shows] at hopened
  obtain ⟨l, -, heffect⟩ := LinkedDisk.openPath_ok ho
  cases hbody : d₁.body i with
  | link text => exact absurd hbody (heffect.body_ne_link text)
  | special =>
      rw [hbody] at hopened
      exact Or.inr (Or.inl (hopened.resolve_right (by simp [Body.withData])).symm)
  | file data =>
      rw [hbody] at hopened
      rcases hopened with hempty | hsrc
      · by_cases hlen : src.length ≤ 1
        · exact Or.inr (Or.inr ⟨hempty.symm, hlen⟩)
        · exfalso
          have hbyte := h (List.replicate 6 (.ok 0) ++ [.ok 1, .ok 1])
          have hfirst := @linkedStep_byte N p A src 0 i d₁ (by omega)
          rw [List.take_zero] at hfirst
          rw [linkedRun_append, linkedRun_opened hsync ho, hfirst, shows, hbody, ← hempty] at hbyte
          rcases src with _ | ⟨b, _ | ⟨c, rest⟩⟩
          · simp at hlen
          · simp at hlen
          · simp [Intact, Body.withData] at hbyte
      · refine Or.inl ?_
        simp only [Body.withData, Option.some.injEq, Shown.body.injEq, Body.file.injEq] at hsrc
        exact hsrc.symm

/-- A target that is missing appears empty before it appears with its content. -/
theorem AtomicFlush.present (h : AtomicFlush N p A src d) {dir : CString} {i : Nat}
    {d₁ : LinkedDisk} (hsync : A.syncDir = some dir)
    (ho : d.openPath N p A.tmpPath = .ok (i, d₁)) (hmissing : d.look N p A.finalPath = none)
    (hopens : ∃ x, d.openPath N p A.finalPath = .ok x) : src = [] := by
  by_cases halias : Aliased N p A i d₁
  · rcases h.apart hsync ho halias with hsrc | hspecial | ⟨hempty, -⟩
    · exact hsrc
    · cases hmissing.symm.trans hspecial
    · cases hmissing.symm.trans hempty
  · obtain ⟨⟨j, dx⟩, hopen⟩ := hopens
    obtain ⟨f, hf, hfeffect⟩ := LinkedDisk.openPath_ok hopen
    obtain ⟨l, -, heffect⟩ := LinkedDisk.openPath_ok ho
    have hnone : d₁.entry f = none := by
      rw [LinkedDisk.look_of_target hf] at hmissing
      refine heffect.entry_eq_none.mpr ⟨?_, LinkedDisk.entry_of_shown_none hmissing⟩
      rintro rfl
      exact halias ⟨f, heffect.sights.symm ▸ hf, heffect.entry_self⟩
    have hsights : (d₁.setData i src).sights = d.sights :=
      LinkedDisk.setData_sights.trans heffect.sights
    obtain ⟨k, d₂, htouch⟩ := @LinkedDisk.openPath_of_target N p (d₁.setData i src) f A.finalPath
      (hsights.symm ▸ hf) hfeffect.short (by simp [hnone])
    have hlook : d₂.look N p A.finalPath = some (.body (.file [])) := by
      rcases LinkedDisk.openPath_setData ⟨l, heffect⟩ htouch with rfl | ⟨-, -, hlook⟩
      · obtain ⟨f', hf', heffect'⟩ := LinkedDisk.openPath_ok htouch
        rw [hsights, hf] at hf'
        cases hf'
        cases hnone.symm.trans heffect'.entry_self
      · exact hlook
    obtain ⟨answers, hrun⟩ := linkedRun_touched hsync ho (Or.inr ⟨k, htouch⟩)
    have htouched := h answers
    rw [hrun, hlook, hmissing] at htouched
    simpa [Intact, eq_comm] using htouched

end Main

/-- The target `/p/x` holds a byte, and the temporary name is a link to it. -/
def linkedEntries (l : Loc) : Option LinkedEntry :=
  if l = (1, ascii "x") then some (.inode 0)
  else if l = (1, firstFlush.tmpName (ascii "/p")) then some (.inode 1)
  else none

theorem linkedEntries_inode_lt (l : Loc) (i : Nat) (h : linkedEntries l = some (.inode i)) :
    i < 2 := by
  unfold linkedEntries at h
  split_ifs at h
  · cases h
    exact Nat.zero_lt_two
  · cases h
    exact Nat.one_lt_two

def linkedTmp : LinkedDisk :=
  ⟨withDir linkedEntries, fun i => if i = 0 then .file [111] else .link (ascii "x"), 2,
    fun _ _ => withDir_inode_lt linkedEntries_inode_lt⟩

-- the open of the temporary file truncates the target
example :
    ((linkedRun (treeNamei fun _ => 0) ⟨0, 0, 0, 1⟩ firstFlush [104, 105] linkedTmp
      (List.replicate 4 (.ok 0))).disk.look (treeNamei fun _ => 0) ⟨0, 0, 0, 1⟩
        firstFlush.finalPath) = some (.body (.file [])) := rfl

end OShm.Ramfs
