import OShm.Ramfs.FlushNames

/-! # What a flush leaves in the bound directory

A flush that returns 0 took its temporary file for its own. If the name was an entry
already, that entry is gone.
-/

namespace OShm.Ramfs

open OShm.Kernel OShm.Lib.ByteFile

/-- The target holds the source, the other entries are as before, and the temporary file
is not among them. -/
structure FlushedExactly (A : FlushArgs) (dir : CString) (src : Bytes) (d d' : Disk) : Prop where
  target : d' (entryPath dir A.filename) = some (.file src)
  others : ∀ name, name ≠ A.filename → d' (entryPath dir name) = d (entryPath dir name)
  noTmp : A.tmpPath ≠ entryPath dir A.filename → d' A.tmpPath = none

theorem FlushEffect.tmp_gone {A : FlushArgs} {src : Bytes} {d d' : Disk} {pc pc' : FlushPc}
    (he : FlushEffect A src d pc pc' d') (hne : A.tmpPath ≠ A.finalPath)
    (h : pc = .done (.ok ()) → d A.tmpPath = none) (hpc' : pc' = .done (.ok ())) :
    d' A.tmpPath = none := by
  cases he with
  | called =>
      rename_i c
      cases c <;> simp [FlushCall.next] at hpc'
  | renamed ht hf hne => exact Function.update_self _ _ _
  | renamedSelf ht heq => exact absurd heq hne
  | stopped => exact h hpc'
  | _ => simp at hpc'

theorem flushRun_tmp_gone {A : FlushArgs} {src : Bytes} {d : Disk}
    {answers : List (Except Errno Nat)} (hne : A.tmpPath ≠ A.finalPath)
    (h : (flushRun A src d answers).1 = .done (.ok ())) :
    (flushRun A src d answers).2 A.tmpPath = none := by
  have hinv := @flushRun_invariant A src d
    (fun pc d' => pc = .done (.ok ()) → d' A.tmpPath = none) ?_
    (fun hold he => he.tmp_gone hne hold) answers
  · exact hinv h
  · intro hstart
    rcases flushStart_cases A with h | h <;> rw [h] at hstart <;> cases hstart

theorem room_of_fits {dir name : CString} (hfits : (entryPath dir name).length < pathMax) :
    dir.length + 2 ≤ pathMax := by
  rw [entryPath_length] at hfits
  omega

section Returned

variable {A : FlushArgs} {dir : CString} {src : Bytes} {d : Disk}
  {answers : List (Except Errno Nat)}

theorem exact_of_free (hsync : A.syncDir = some dir)
    (hfits : (entryPath dir A.filename).length < pathMax)
    (hok : (flushRun A src d answers).1 = .done (.ok ()))
    (h : d A.tmpPath = none ∨ A.tmpPath = A.finalPath) :
    FlushedExactly A dir src d (flushRun A src d answers).2 := by
  have hfinal := finalPath_of_fits hsync hfits
  obtain ⟨htarget, hrest⟩ := flushRun_success hok
  have hgone : A.tmpPath ≠ A.finalPath → (flushRun A src d answers).2 A.tmpPath = none :=
    fun hne => flushRun_tmp_gone hne hok
  rw [hfinal] at htarget hrest hgone h
  refine ⟨htarget, ?_, hgone⟩
  intro name hname
  have hne : entryPath dir name ≠ entryPath dir A.filename := by rwa [Ne, entryPath_inj]
  by_cases heq : entryPath dir name = A.tmpPath
  · have hother : A.tmpPath ≠ entryPath dir A.filename := heq ▸ hne
    rw [heq, hgone hother, h.resolve_right hother]
  · exact hrest _ heq hne

theorem not_exact_of_taken (hsync : A.syncDir = some dir)
    (hfits : (entryPath dir A.filename).length < pathMax)
    (hok : (flushRun A src d answers).1 = .done (.ok ())) (htaken : d A.tmpPath ≠ none)
    (hne : A.tmpPath ≠ A.finalPath) :
    ¬ FlushedExactly A dir src d (flushRun A src d answers).2 := by
  have hfinal := finalPath_of_fits hsync hfits
  have htmp : A.tmpPath = entryPath dir (A.tmpName dir) :=
    FlushArgs.tmpPath_eq hsync (room_of_fits hfits)
  intro h
  have hname : A.tmpName dir ≠ A.filename := by
    intro hname
    exact hne (by rw [htmp, hfinal, hname])
  have hsame := h.others _ hname
  rw [← htmp, flushRun_tmp_gone hne hok] at hsame
  exact htaken hsame.symm

end Returned

theorem Disk.rename_ok {d : Disk} {old new : CString} {node : Node} (hold : d old = some node)
    (hnew : d new ≠ some .dir) : (d.rename old new).2 = .ok () := by
  unfold Disk.rename
  rw [hold]
  split
  · rename_i hnone
    cases hnone
  · rename_i hdir
    exact absurd hdir hnew
  · split <;> rfl

theorem flushRun_tmpAt (A : FlushArgs) (src : Bytes) (d : Disk)
    (answers : List (Except Errno Nat)) :
    TmpAt src (flushRun A src d answers).1 ((flushRun A src d answers).2 A.tmpPath) :=
  @flushRun_invariant A src d (fun pc d' => TmpAt src pc (d' A.tmpPath)) (tmpAt_start A src _)
    (fun h he => he.tmpAt h) answers

/-- The disk with the copy in the temporary file and everything else as before. -/
structure Copied (A : FlushArgs) (src : Bytes) (d d₁ : Disk) : Prop where
  tmp : d₁ A.tmpPath = some (.file src)
  others : ∀ p, p ≠ A.tmpPath → d₁ p = d p

/-- The copy is made whenever the flush comes to the touch. -/
theorem copied_of_touch {A : FlushArgs} {src : Bytes} {d d₁ : Disk}
    {answers : List (Except Errno Nat)} (hrun : flushRun A src d answers = (.touch, d₁)) :
    Copied A src d d₁ := by
  constructor
  · have htmpAt := flushRun_tmpAt A src d answers
    rw [hrun] at htmpAt
    exact htmpAt
  · intro p hp
    have hkept := @entry_untouched A src d p hp answers (by rw [hrun]; rfl)
    rwa [hrun] at hkept

/-- Unless one of its two names is a directory, a flush can come to its end. -/
theorem flush_can_succeed {A : FlushArgs} {src : Bytes} {d : Disk} {dir : CString}
    (hsync : A.syncDir = some dir) (htmp : d A.tmpPath ≠ some .dir)
    (hfinal : d A.finalPath ≠ some .dir) :
    ∃ answers, (flushRun A src d answers).1 = .done (.ok ()) := by
  obtain ⟨answers, d', hrun⟩ := @flushRun_touch A src d dir hsync htmp
  obtain ⟨hcopied, hothers⟩ := copied_of_touch hrun
  have hfree : d' A.finalPath ≠ some .dir := by
    by_cases heq : A.tmpPath = A.finalPath
    · simp [← heq, hcopied]
    · rwa [hothers _ (Ne.symm heq)]
  -- the failed touch is not noticed
  refine ⟨answers ++ [.error enoent, .ok 0, .ok 0, .ok 0], ?_⟩
  rw [flushRun_append, hrun]
  change FlushPc.done (d'.rename A.tmpPath A.finalPath).2 = _
  rw [Disk.rename_ok hcopied hfree]

def deepDir : CString := (List.replicate 2046 [slash, 100]).flatten

theorem deepDir_length : deepDir.length = 4092 := by
  rw [deepDir, List.length_flatten, List.map_replicate, List.sum_replicate_nat]
  rfl

def deepArgs : FlushArgs := ⟨some deepDir, ascii "/r/a", 1, 2, 3⟩

theorem deepArgs_tmpPath : deepArgs.tmpPath = entryPath deepDir (ascii ".a") := by
  have hroom : nameRoom deepDir = 2 := by
    rw [nameRoom, deepDir_length]
    rfl
  have hname : deepArgs.tmpName deepDir = ascii ".a" := by
    rw [FlushArgs.tmpName, hroom]
    decide
  rw [FlushArgs.tmpPath_eq rfl (by rw [deepDir_length]; decide), hname]
  rfl

theorem deepArgs_fits : (entryPath deepDir deepArgs.filename).length < pathMax := by
  have hname : deepArgs.filename.length = 1 := by decide
  simp only [entryPath, List.length_append, List.length_cons, deepDir_length, hname]
  decide

end OShm.Ramfs
