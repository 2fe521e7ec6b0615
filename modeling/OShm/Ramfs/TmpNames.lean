import OShm.Kernel.KvRefinement
import OShm.Ramfs.FlushNames
import OShm.Ramfs.WriteBack

/-! # Temporary names do not collide

A temporary name is read from the right: the numbers in it have no dot, whatever the name of
the file has. Live tasks differ in their numbers, so that the flushes they are in write to
different temporary files, as the writers of one file have to.
-/

namespace OShm.Ramfs

open OShm.Kernel OShm.Lib OShm.Lib.PathString

/-! ## Reading a name from the right -/

theorem dot_not_mem_formatHex (n : Nat) : dot ∉ formatHex n :=
  Digits.not_mem_map (by decide) (by decide) n

theorem dot_not_mem_formatDecimal (n : Nat) : dot ∉ formatDecimal n :=
  Digits.not_mem_map (by decide) (by decide) n

theorem formatHex_injective : Function.Injective formatHex :=
  Digits.map_toDigits_injective (by decide) (by decide)

theorem formatDecimal_injective : Function.Injective formatDecimal :=
  Digits.map_toDigits_injective (by decide) (by decide)

theorem FlushArgs.tmpText_fields (A : FlushArgs) :
    A.tmpText = ((((dot :: A.filename) ++ dot :: formatHex A.sec) ++ dot :: formatHex A.ns) ++
      dot :: formatDecimal A.pid) ++ ascii ".tmp" := by
  simp [FlushArgs.tmpText]

theorem tmpText_eq_iff (A B : FlushArgs) :
    A.tmpText = B.tmpText ↔
      A.filename = B.filename ∧ A.sec = B.sec ∧ A.ns = B.ns ∧ A.pid = B.pid := by
  rw [A.tmpText_fields, B.tmpText_fields, List.append_left_inj,
    append_sep_inj (dot_not_mem_formatDecimal _) (dot_not_mem_formatDecimal _),
    append_sep_inj (dot_not_mem_formatHex _) (dot_not_mem_formatHex _),
    append_sep_inj (dot_not_mem_formatHex _) (dot_not_mem_formatHex _),
    formatDecimal_injective.eq_iff, formatHex_injective.eq_iff, formatHex_injective.eq_iff,
    List.cons_inj_right, and_assoc, and_assoc]

def FlushArgs.TmpFits (A : FlushArgs) (dir : CString) : Prop :=
  (entryPath dir A.tmpText).length < pathMax

theorem tmpPath_of_fits {A : FlushArgs} {dir : CString} (hsync : A.syncDir = some dir)
    (hfits : A.TmpFits dir) : A.tmpPath = entryPath dir A.tmpText := by
  rw [FlushArgs.tmpPath_snprintf hsync]
  exact (snprintf_eq_iff _).mpr hfits

theorem tmpPath_eq_iff {A B : FlushArgs} {dir : CString} (hA : A.syncDir = some dir)
    (hB : B.syncDir = some dir) (hfitsA : A.TmpFits dir) (hfitsB : B.TmpFits dir) :
    A.tmpPath = B.tmpPath ↔
      A.filename = B.filename ∧ A.sec = B.sec ∧ A.ns = B.ns ∧ A.pid = B.pid := by
  rw [tmpPath_of_fits hA hfitsA, tmpPath_of_fits hB hfitsB, entryPath_inj, tmpText_eq_iff]

/-- Only a file that is named like a temporary file is installed over one. -/
theorem finalPath_eq_tmpPath_iff {A B : FlushArgs} {dir : CString} (hA : A.syncDir = some dir)
    (hB : B.syncDir = some dir) (hfitsA : (entryPath dir A.filename).length < pathMax)
    (hfitsB : B.TmpFits dir) : A.finalPath = B.tmpPath ↔ A.filename = B.tmpText := by
  rw [finalPath_of_fits hA hfitsA, tmpPath_of_fits hB hfitsB, entryPath_inj]

/-- Two temporary paths in one directory are equal only when all that goes into them is, and
never when two live tasks have formatted them. -/
theorem tmpPath_collision {A B : FlushArgs} {dir : CString} (hA : A.syncDir = some dir)
    (hB : B.syncDir = some dir) (hfitsA : A.TmpFits dir) (hfitsB : B.TmpFits dir) :
    (A.tmpPath = B.tmpPath ↔
      A.filename = B.filename ∧ A.sec = B.sec ∧ A.ns = B.ns ∧ A.pid = B.pid) ∧
    ∀ acts s tr, kernel.run boot acts = some (s, tr) →
      ∀ t ∈ s.tasks, ∀ u ∈ s.tasks, t.hashed → u.hashed → t.pid ≠ 0 → t ≠ u →
        A.pid = t.pid → B.pid = u.pid → A.tmpPath ≠ B.tmpPath := by
  refine ⟨tmpPath_eq_iff hA hB hfitsA hfitsB, ?_⟩
  intro acts s tr hr t ht u hu hlt hlu hpid hne hApid hBpid heq
  have hsame := ((tmpPath_eq_iff hA hB hfitsA hfitsB).mp heq).2.2.2
  rw [hApid, hBpid] at hsame
  exact hne (run_pidsUnique hr t ht u hu hlt hlu hpid hsame)

def flushBy (pid : Nat) : FlushArgs := flushArgsAt (ascii "/d") (ascii "/r/.a.1.2.3.tmp") 1 2 pid

theorem tmpPath_collision_twoThreads :
    ∃ s tr, kernel.run boot twoThreads = some (s, tr) ∧
      ∃ t ∈ s.tasks, ∃ u ∈ s.tasks, t.pid = 2 ∧ u.pid = 1 ∧
        (flushBy t.pid).tmpPath ≠ (flushBy u.pid).tmpPath := by
  refine ⟨_, _, rfl, _, List.mem_cons_self, _, List.mem_cons_of_mem _ List.mem_cons_self, rfl,
    rfl, ?_⟩
  have hfits : ∀ pid < 3, (flushBy pid).TmpFits (ascii "/d") := by
    unfold FlushArgs.TmpFits
    decide
  have hcollision := @tmpPath_collision (flushBy 2) (flushBy 1) (ascii "/d") rfl rfl
    (hfits 2 (by decide)) (hfits 1 (by decide))
  exact hcollision.2 twoThreads _ _ rfl _ List.mem_cons_self _
    (List.mem_cons_of_mem _ List.mem_cons_self) rfl rfl (by decide) (by decide) rfl rfl

/-! ## The writers of one file -/

theorem finalPath_fits_of_tmp {A : FlushArgs} {dir : CString} (hfits : A.TmpFits dir) :
    (entryPath dir A.filename).length < pathMax := by
  rw [FlushArgs.TmpFits, entryPath_length, A.tmpText_length] at hfits
  rw [entryPath_length]
  omega

theorem tmpPath_ne_finalPath {A : FlushArgs} {dir : CString} (hsync : A.syncDir = some dir)
    (hfits : A.TmpFits dir) : A.tmpPath ≠ A.finalPath := by
  intro heq
  have hname := (finalPath_eq_tmpPath_iff hsync hsync (finalPath_fits_of_tmp hfits) hfits).mp
    heq.symm
  have hlen := congrArg List.length hname
  rw [A.tmpText_length, FlushArgs.extraLength] at hlen
  omega

/-- Tasks with numbers of their own that write to one file, as the write-back of the file
takes them. -/
def Writers.ofPids {n : Nat} (dir path : CString) (clock : Fin n → Nat × Nat) (pid : Fin n → Nat)
    (hpid : Function.Injective pid)
    (hfits : ∀ i, (flushArgsAt dir path (clock i).1 (clock i).2 (pid i)).TmpFits dir) :
    Writers n where
  args i := flushArgsAt dir path (clock i).1 (clock i).2 (pid i)
  target := entryPath dir (lastComponent path)
  target_eq i := finalPath_of_fits rfl (finalPath_fits_of_tmp (hfits i))
  tmp_ne i := by
    have hne := tmpPath_ne_finalPath rfl (hfits i)
    rwa [finalPath_of_fits rfl (finalPath_fits_of_tmp (hfits i))] at hne
  tmp_inj i j hij heq := hij (hpid ((tmpPath_eq_iff rfl rfl (hfits i) (hfits j)).mp heq).2.2.2)

theorem pids_injective_of_run {acts : List Action} {s : State} {tr : List Event}
    (hr : kernel.run boot acts = some (s, tr)) {n : Nat} {task : Fin n → TaskStruct}
    (htask : Function.Injective task)
    (hlive : ∀ i, task i ∈ s.tasks ∧ (task i).hashed ∧ (task i).pid ≠ 0) :
    Function.Injective fun i => (task i).pid := by
  intro i j heq
  obtain ⟨hi, hli, hpid⟩ := hlive i
  obtain ⟨hj, hlj, _⟩ := hlive j
  exact htask (run_pidsUnique hr _ hi _ hj hli hlj hpid heq)

/-- What live tasks write to one file is in the target once their writes have returned, if the
last rename is of a flush that read the file as it was left. -/
theorem liveTasks_writeBack {acts : List Action} {s : State} {tr : List Event}
    (hr : kernel.run boot acts = some (s, tr)) {n : Nat} (hn : 0 < n) {task : Fin n → TaskStruct}
    (htask : Function.Injective task)
    (hlive : ∀ i, task i ∈ s.tasks ∧ (task i).hashed ∧ (task i).pid ≠ 0)
    {dir path : CString} {clock : Fin n → Nat × Nat}
    (hfits : ∀ i, (flushArgsAt dir path (clock i).1 (clock i).2 (task i).pid).TmpFits dir)
    {W : Writers n}
    (hW : W = Writers.ofPids dir path clock (fun i => (task i).pid)
      (pids_injective_of_run hr htask hlive) hfits)
    {w₀ w : WriteState n} {writes : List (WriteAction n)} {tr' : List Unit} (h₀ : w₀.Initial)
    (hfresh : (writeBack W).Along WriteState.LastRenameFresh w₀ writes)
    (hw : (writeBack W).run w₀ writes = some (w, tr')) (hall : ∀ i, w.Returned i) :
    w.disk (entryPath dir (lastComponent path)) = some (.file w.content) := by
  subst hW
  exact (h₀.tracked_run hn hfresh hw).persisted hall

end OShm.Ramfs
