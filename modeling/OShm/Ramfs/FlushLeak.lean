import OShm.Ramfs.FlushOutcome

/-! # What nested flushes leave behind

A flush to a ramfs flushes its own temporary file to the next directory, and so on. A flush only
succeeds if the last of them wrote to a disk, and what was written there stays: every entry that
is renamed away comes back under another name on the same disk.
-/

namespace OShm.Ramfs

open OShm.Kernel OShm.Lib OShm.Lib.PathString OShm.Lib.PathWalk

/-- No entry is lost and none is forgotten. -/
structure Store.Grown (st st' : Store) : Prop where
  touched : ∀ l ∈ st.touched, l ∈ st'.touched
  present : ∀ l : Loc, st.lookup l.1 l.2 ≠ none → st'.lookup l.1 l.2 ≠ none

namespace Store.Grown

variable (st : Store)

theorem tick : st.Grown st.tick := ⟨fun _ h => h, fun _ h => h⟩

theorem set (l : Loc) (e : DirEntry) : st.Grown (st.set l (some e)) where
  touched _ h := h
  present l' h := by
    by_cases heq : l' = l
    · subst heq
      rw [set_self]
      nofun
    · rw [set_of_ne _ heq]
      exact h

theorem touch (l : Loc) : st.Grown (st.touch l) :=
  ⟨fun _ h => List.mem_cons_of_mem _ h, fun _ h => h⟩

variable {st}

end Store.Grown

namespace World

variable {W : World}

def Leak (W : World) (st : Store) : Prop := ∃ l, (∃ sb, W.fs l.1 = .disk sb) ∧ Left st l

theorem Left.grown {st st' : Store} {l : Loc} (h : Left st l) (hg : st.Grown st') : Left st' l :=
  ⟨hg.touched l h.1, hg.present l h.2⟩

theorem Leak.grown {st st' : Store} (h : W.Leak st) (hg : st.Grown st') : W.Leak st' := by
  obtain ⟨l, hdisk, hleft⟩ := h
  exact ⟨l, hdisk, hleft.grown hg⟩

theorem Leak.moved {st : Store} {a b : Loc} (h : W.Leak st) (hfs : W.fs a.1 = W.fs b.1)
    (ha : st.lookup a.1 a.2 ≠ none) : W.Leak (st.moved a b) := by
  obtain ⟨l, ⟨sb, hsb⟩, htouched, hpresent⟩ := h
  obtain ⟨e, he⟩ := Option.ne_none_iff_exists'.mp ha
  unfold Store.moved
  split_ifs with hab
  · exact ⟨l, ⟨sb, hsb⟩, htouched, hpresent⟩
  · by_cases hla : l = a
    · subst hla
      refine ⟨b, ⟨sb, hfs.symm.trans hsb⟩, List.mem_cons_self, ?_⟩
      rw [Store.touch_lookup, Store.set_of_ne _ (Ne.symm hab), Store.set_self]
      exact hpresent
    · refine ⟨l, ⟨sb, hsb⟩, List.mem_cons_of_mem _ htouched, ?_⟩
      rw [Store.touch_lookup, Store.set_of_ne _ hla, he]
      exact (Store.Grown.set st b e).present l hpresent

/-! ## What the calls keep -/

/-- A property that new entries do not destroy. -/
def GrowthClosed (P : Store → Prop) : Prop := ∀ ⦃st st' : Store⦄, st.Grown st' → P st → P st'

theorem leak_growthClosed (W : World) : GrowthClosed W.Leak := fun _ _ hg h => h.grown hg

theorem left_growthClosed (l : Loc) : GrowthClosed fun st => Left st l :=
  fun _ _ hg h => Left.grown h hg

theorem GrowthClosed.changeClosed {P : Store → Prop} (hP : GrowthClosed P) : ChangeClosed P := by
  intro st st' h
  cases h with
  | tick => exact hP (.tick st)
  | file l data _ => exact hP (.set st l _)
  | touch l => exact hP (.touch st l)

theorem openTrunc_left {p : CString} {st st' : Store} {l : Loc}
    (h : W.openTrunc p st = some (.ok l, st')) : Left st' l := by
  rcases openTrunc_cases h with ⟨e, he, _⟩ | ⟨l', hl, _, _, _, _, rfl⟩
  · cases he
  · cases hl
    refine ⟨List.mem_cons_self, ?_⟩
    rw [Store.touch_lookup, Store.set_self]
    nofun

theorem rename_keeps_leak (old new : CString) : Prog.Keeps W.Leak (W.rename old new) := by
  intro st r st' h hrun
  rcases rename_cases hrun with ⟨e, _, rfl⟩ | ⟨a, b, _, _, _, hfs, ha, rfl⟩
  · exact h.grown (.tick st)
  · have htick : W.Leak st.tick := h.grown (.tick st)
    exact htick.moved hfs ha

theorem installTmp_keeps_leak (A : FlushArgs) : Prog.Keeps W.Leak (W.installTmp A) :=
  .bind (prepareRename_keeps (leak_growthClosed W).changeClosed A) fun _ => rename_keeps_leak _ _

/-! ## Whole flushes -/

/-- What a program leaves: `Leak` or `Q` is kept, and success means a leak. -/
def Leaks {α : Type} (W : World) (Q : Store → Prop) (r : Except Errno α) (st : Store) : Prop :=
  (W.Leak st ∨ Q st) ∧ ∀ a, r = .ok a → W.Leak st

section Flushes

variable {Q : Store → Prop}

theorem leaks_error {α : Type} {e : Errno} {st : Store} (h : W.Leak st ∨ Q st) :
    W.Leaks Q (.error e : Except Errno α) st := ⟨h, nofun⟩

theorem leakOr_growthClosed (hQ : GrowthClosed Q) : GrowthClosed fun st => W.Leak st ∨ Q st := by
  rintro st st' hg (h | h)
  · exact Or.inl (h.grown hg)
  · exact Or.inr (hQ hg h)

variable (hQ : GrowthClosed Q) {hook : Loc → Act Loc}
  (hhook : ∀ file, Prog.Ensures (fun st => W.Leak st ∨ Q st) (hook file) (W.Leaks Q))

include hQ hhook

theorem writeIter_keeps (file : Loc) (readable : Bool) (pos : Nat) (buf : Bytes) :
    Prog.Keeps (fun st => W.Leak st ∨ Q st) (W.writeIter hook file readable pos buf) := by
  have hP := (leakOr_growthClosed (W := W) hQ).changeClosed
  have hflush : Prog.Keeps (fun st => W.Leak st ∨ Q st) (hook file) :=
    (hhook file).weaken fun _ _ h => h.1
  have hsync : Prog.Keeps (fun st => W.Leak st ∨ Q st) (W.syncAfterWrite hook file readable) := by
    unfold syncAfterWrite
    split
    · exact .pure _
    · split_ifs
      · exact .bind hflush fun _ => .pure _
      · exact .bind (reopen_keeps hP _) fun _ => .bind hflush fun _ => .pure _
  apply Prog.Keeps.bind (call_keeps hP _)
  intro _
  apply Prog.Keeps.bind (pwrite_keeps hP file pos buf)
  intro _
  split_ifs
  · exact .pure _
  · exact .bind hsync.attempt fun _ => .pure _

theorem ramfsFsync_leaks (file : Loc) :
    Prog.Ensures (fun st => W.Leak st ∨ Q st) (W.ramfsFsync hook file) (W.Leaks Q) := by
  have hP := (leakOr_growthClosed (W := W) hQ).changeClosed
  refine Prog.Keeps.andThen (reopen_keeps hP file) (fun _ _ => leaks_error) ?_
  intro _ st r st' h hrun
  rcases Prog.bind_eq_some hrun with ⟨e, hflush, rfl⟩ | ⟨l, t, hflush, hrun⟩
  · exact ⟨(hhook file st _ st' h hflush).1, nofun⟩
  · cases hrun
    have hleak := (hhook file st _ st' h hflush).2 l rfl
    exact ⟨Or.inl hleak, fun _ _ => hleak⟩

/-- A copy that succeeds has reached a disk, now or in the flush of the temporary file. -/
theorem copyFileContent_leaks (n : Nat) (src dst : Loc) :
    Prog.Ensures (fun st => (W.Leak st ∨ Q st) ∧ ((∃ sb, W.fs dst.1 = .disk sb) → W.Leak st))
      (W.copyFileContent (W.fileIo hook) n src dst) (W.Leaks Q) := by
  have hP := (leakOr_growthClosed (W := W) hQ).changeClosed
  rintro st r st' ⟨h, hdst⟩ hrun
  cases hfs : W.fs dst.1 with
  | disk sb =>
      have hkeeps : Prog.Keeps W.Leak (W.copyFileContent W.plainIo n src dst) :=
        copyFileContent_keeps (leak_growthClosed W).changeClosed n src dst
      rw [copyFileContent_onDisk hfs] at hrun
      have hend := hkeeps st r st' (hdst ⟨sb, hfs⟩) hrun
      exact ⟨Or.inl hend, fun _ _ => hend⟩
  | ramfs sb =>
      have hwrite : ∀ pos buf, Prog.Keeps (fun st => W.Leak st ∨ Q st)
          ((W.fileIo hook).write dst pos buf) := by
        intro pos buf
        simp only [fileIo, hfs]
        exact writeIter_keeps hQ hhook dst false pos buf
      have hfsync : Prog.Ensures (fun st => W.Leak st ∨ Q st) ((W.fileIo hook).fsync dst)
          (W.Leaks Q) := by
        simp only [fileIo, hfs]
        exact ramfsFsync_leaks hQ hhook dst
      have hfail : ∀ e s, (W.Leak s ∨ Q s) → W.Leaks Q (.error e : Except Errno Unit) s :=
        fun _ _ => leaks_error
      have hcopy : Prog.Ensures (fun st => W.Leak st ∨ Q st)
          (W.copyFileContent (W.fileIo hook) n src dst) (W.Leaks Q) := by
        apply (call_keeps hP _).andThen hfail
        intro _
        apply (call_keeps hP _).andThen hfail
        intro _
        exact (copyLoop_keeps hP hwrite _ _ _).andThen hfail fun _ => hfsync
      exact hcopy st r st' h hrun

/-- From the open temporary file on. The rename comes last, when there is a leak already. -/
theorem afterOpen_leaks (n : Nat) (src dst : Loc) (A : FlushArgs) :
    Prog.Ensures (fun st => (W.Leak st ∨ Q st) ∧ ((∃ sb, W.fs dst.1 = .disk sb) → W.Leak st))
      (W.copyFileContent (W.fileIo hook) n src dst >>= fun _ => W.installTmp A) (W.Leaks Q) := by
  intro st r st' h hrun
  rcases Prog.bind_eq_some hrun with ⟨e, hcopy, rfl⟩ | ⟨a, t, hcopy, hrun⟩
  · exact ⟨(copyFileContent_leaks hQ hhook n src dst st _ st' h hcopy).1, nofun⟩
  · have hleak := (copyFileContent_leaks hQ hhook n src dst st _ t h hcopy).2 a rfl
    have hend := installTmp_keeps_leak A t r st' hleak hrun
    exact ⟨Or.inl hend, fun _ _ => hend⟩

theorem flushBody_leaks (n : Nat) (file : Loc) :
    Prog.Ensures (fun st => W.Leak st ∨ Q st) (W.flushBody (W.fileIo hook) n file)
      (W.Leaks Q) := by
  have hP := (leakOr_growthClosed (W := W) hQ).changeClosed
  have hfail : ∀ e s, (W.Leak s ∨ Q s) → W.Leaks Q (.error e : Except Errno Loc) s :=
    fun _ _ => leaks_error
  rw [flushBody_eq]
  cases W.boundTo file.1 with
  | none => exact fun st r st' h hrun => by cases hrun; exact hfail _ _ h
  | some s =>
      apply (call_keeps hP _).andThen hfail
      intro _
      cases W.dPath file with
      | none => exact fun st r st' h hrun => by cases hrun; exact hfail _ _ h
      | some path =>
          apply (call_keeps hP _).andThen hfail
          intro _
          apply Prog.Keeps.get.andThen hfail
          intro t st r st' h hrun
          rcases Prog.bind_eq_some hrun with ⟨e, hopen, rfl⟩ | ⟨dst, u, hopen, hrun⟩
          · exact hfail e st' (openTrunc_keeps hP _ st _ st' h hopen)
          · have hu := openTrunc_keeps hP _ st _ u h hopen
            refine afterOpen_leaks hQ hhook n file dst _ u r st' ⟨hu, fun hdisk => ?_⟩ hrun
            exact ⟨dst, hdisk, openTrunc_left hopen⟩

end Flushes

theorem flush_leaks {Q : Store → Prop} (hQ : GrowthClosed Q) (n : Nat) (file : Loc) :
    Prog.Ensures (fun st => W.Leak st ∨ Q st) (W.flush n file) (W.Leaks Q) := by
  induction n generalizing file with
  | zero =>
      intro st r st' _ hrun
      cases hrun
  | succ n ih => exact flushBody_leaks hQ ih n file

end World

end OShm.Ramfs
