import OShm.Lib.Transition
import OShm.Ramfs.Flush

/-! # The persisted directory

Writes and fsyncs of the files of one bound ramfs, one after the other. A flush cuts
the path of its file at the last slash, so files of the same name in different
directories have one target. Only flushes that return 0 are steps.
-/

namespace OShm.Ramfs

open OShm.Kernel OShm.Lib OShm.Lib.ByteFile

structure TreeState where
  syncDir : CString
  /-- The inode number behind each path of the tree. -/
  inode : CString → Option Nat
  data : Nat → Bytes
  disk : Disk

/-- What the environment decides about the flush of the file at `A.path`. -/
structure FlushTry where
  A : FlushArgs
  /-- The answer to reopening a file without `FMODE_READ` for reading. -/
  reopen : Option (Except Errno Unit)
  answers : List (Except Errno Nat)

inductive TreeAction where
  /-- `ramfs_file_write_iter`; `buf` is what the generic write took. -/
  | write (T : FlushTry) (pos : Nat) (buf : Bytes)
  /-- `ramfs_fsync`. -/
  | fsync (T : FlushTry)

/-- A flush that returned 0, with the content its file had. -/
structure Flushed where
  A : FlushArgs
  ino : Nat
  content : Bytes
  deriving DecidableEq

namespace TreeState

def writeFile (s : TreeState) (ino pos : Nat) (buf : Bytes) : TreeState :=
  { s with data := Function.update s.data ino (writeAt 0 (s.data ino) pos buf) }

/-- The flush at the end of a write or an fsync. A failed reopen leaves it out. -/
def flushFile (s : TreeState) (ino : Nat) (T : FlushTry) : Option (TreeState × Option Flushed) :=
  match T.reopen with
  | some (.error _) => some (s, none)
  | _ =>
      match flushRun T.A (s.data ino) s.disk T.answers with
      | (.done (.ok ()), d) => some ({ s with disk := d }, some ⟨T.A, ino, s.data ino⟩)
      | _ => none

def step (s : TreeState) : TreeAction → Option (TreeState × Option Flushed)
  | .write T pos buf =>
      match s.inode T.A.path with
      | none => none
      | some ino =>
          if T.A.syncDir ≠ some s.syncDir then none
          else if buf = [] then some (s, none)
          else (s.writeFile ino pos buf).flushFile ino T
  | .fsync T =>
      match s.inode T.A.path with
      | none => none
      | some ino => if T.A.syncDir ≠ some s.syncDir then none else s.flushFile ino T

end TreeState

def ramfsTree : System TreeState TreeAction (Option Flushed) := ⟨TreeState.step⟩

/-! ## What one call leaves on the disk -/

/-- The flush takes the path neither as its target nor as its temporary file. -/
def Flushed.Spares (y : Flushed) (p : CString) : Prop := p ≠ y.A.tmpPath ∧ p ≠ y.A.finalPath

instance (y : Flushed) (p : CString) : Decidable (y.Spares p) :=
  inferInstanceAs (Decidable (_ ∧ _))

inductive DiskEffect (d d' : Disk) : Option Flushed → Prop where
  | unflushed (same : d' = d) : DiskEffect d d' none
  | flushed {x : Flushed} (target : d' x.A.finalPath = some (.file x.content))
      (rest : ∀ p, x.Spares p → d' p = d p) : DiskEffect d d' (some x)

theorem DiskEffect.frame {d d' : Disk} {e : Option Flushed} (h : DiskEffect d d' e) {p : CString}
    (hp : ∀ y, e = some y → y.Spares p) : d' p = d p := by
  cases h with
  | unflushed same => rw [same]
  | flushed target rest => exact rest p (hp _ rfl)

namespace TreeState

theorem flushFile_effect {s s' : TreeState} {ino : Nat} {T : FlushTry} {e : Option Flushed}
    (h : s.flushFile ino T = some (s', e)) : DiskEffect s.disk s'.disk e := by
  unfold flushFile at h
  split at h
  · cases h
    exact .unflushed rfl
  · split at h
    · rename_i d hrun
      cases h
      have hspec := @flushRun_success T.A (s.data ino) s.disk T.answers (by rw [hrun])
      rw [hrun] at hspec
      exact .flushed hspec.1 fun p hp => hspec.2 p hp.1 hp.2
    · cases h

theorem step_effect {s s' : TreeState} {a : TreeAction} {e : Option Flushed}
    (h : ramfsTree.step s a = some (s', e)) : DiskEffect s.disk s'.disk e := by
  change s.step a = some (s', e) at h
  cases a with
  | write T pos buf =>
      simp only [step] at h
      split at h
      · cases h
      · rename_i ino hino
        split at h
        · cases h
        · split at h
          · cases h
            exact .unflushed rfl
          · exact @flushFile_effect (s.writeFile ino pos buf) s' ino T e h
  | fsync T =>
      simp only [step] at h
      split at h
      · cases h
      · split at h
        · cases h
        · exact flushFile_effect h

/-! ## Runs -/

theorem run_frame {s s' : TreeState} {acts : List TreeAction} {tr : List (Option Flushed)}
    (hr : ramfsTree.run s acts = some (s', tr)) {p : CString}
    (hp : ∀ y, some y ∈ tr → y.Spares p) : s'.disk p = s.disk p := by
  induction acts generalizing s tr with
  | nil =>
      cases hr
      rfl
  | cons a acts ih =>
      obtain ⟨m, e, rest, hstep, hrest, rfl⟩ := ramfsTree.run_cons_iff.mp hr
      have htail : s'.disk p = m.disk p := by
        apply ih hrest
        intro y hy
        exact hp y (List.mem_cons_of_mem _ hy)
      have hhead : m.disk p = s.disk p := by
        apply (step_effect hstep).frame
        intro y hy
        exact hp y (by simp [hy])
      exact htail.trans hhead

theorem run_target {s s' : TreeState} {acts : List TreeAction}
    {pre post : List (Option Flushed)} {x : Flushed}
    (hr : ramfsTree.run s acts = some (s', pre ++ some x :: post))
    (hpost : ∀ y, some y ∈ post → y.Spares x.A.finalPath) :
    s'.disk x.A.finalPath = some (.file x.content) := by
  induction pre generalizing s acts with
  | nil =>
      cases acts with
      | nil => cases hr
      | cons a acts =>
          obtain ⟨m, e, rest, hstep, hrest, htr⟩ := ramfsTree.run_cons_iff.mp hr
          obtain ⟨rfl, rfl⟩ := List.cons.inj htr
          rw [run_frame hrest hpost]
          cases step_effect hstep with
          | flushed target _ => exact target
  | cons e₀ pre ih =>
      cases acts with
      | nil => cases hr
      | cons a acts =>
          obtain ⟨m, e, rest, hstep, hrest, htr⟩ := ramfsTree.run_cons_iff.mp hr
          obtain ⟨-, rfl⟩ := List.cons.inj htr
          exact ih hrest

end TreeState

def threeFiles : TreeState where
  syncDir := ascii "/p"
  inode p :=
    if p = ascii "/r/a/x" then some 1
    else if p = ascii "/r/b/x" then some 2
    else if p = ascii "/r/b/y" then some 3
    else none
  data _ := []
  disk _ := none

def persistArgs (path : String) : FlushArgs := ⟨some (ascii "/p"), ascii path, 1, 2, 3⟩

def writeByte (path : String) (b : UInt8) : TreeAction :=
  .write ⟨persistArgs path, none, List.replicate 17 (.ok 1)⟩ 0 [b]

end OShm.Ramfs
