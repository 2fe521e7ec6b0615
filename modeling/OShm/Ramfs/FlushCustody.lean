import Mathlib.Tactic.Abel
import OShm.Lib.Custody
import OShm.Lib.Transition
import OShm.Ramfs.Proc

/-! # What a flush holds on to

Buffers, open files, paths, a dentry, a lock and file names are taken and given back by the
functions that write files back. Every way through them gives back what it took, once, and
uses nothing that is gone, with one exception: a flush that does not get its copy buffer
returns without its two path buffers. A persistent directory may lie on a ramfs, so that the
write to the temporary file is a write of the same kind. What is held is counted by its kind:
where flushes nest, the path buffers of one are not told apart from those of the other.
-/

namespace OShm.Ramfs

open OShm.Kernel OShm.Lib OShm.Lib.Custody

inductive FlushRes where
  /-- The open file of the caller. -/
  | callerFile
  /-- `path_buf` and `read_file` of `ramfs_fsync` and `ramfs_file_write_iter`. -/
  | reopenBuf
  | readFile
  /-- `kbuf` and `target_file` of `ramfs_proc_sync_write`. -/
  | kbuf
  | targetFile
  /-- Of `ramfs_file_flush`. -/
  | pathBuf
  | tmpPath
  | finalPath
  | destFile
  | oldPath
  | dirName
  | newDirPath
  | touchFile
  | newDentry
  | nlinkBuf
  | oldName
  | newName
  /-- The lock of the target directory. -/
  | dirLock
  /-- Of `copy_file_content`. -/
  | srcPathBuf
  | dstPathBuf
  | buf
  deriving DecidableEq, Repr

abbrev FlushCode (α : Type) := Code FlushRes Errno Nat α

namespace FlushCode

def check : FlushCode Bool := do
  match ← ask with
  | .ok n => pure (n ≠ 0)
  | .error _ => pure false

/-- `kmalloc` where a failure is the end of the function. -/
def kmalloc (r : FlushRes) : FlushCode Unit := do
  match ← acquire r with
  | .ok _ => pure ()
  | .error _ => Prog.fail enomem

/-- How the file system of a file writes to it and syncs it. -/
structure FileOps where
  write : FlushRes → FlushCode Nat
  fsync : FlushRes → FlushCode Unit

/-- A file system that keeps nothing of these. -/
def plainOps : FileOps where
  write file := do
    use file
    request
  fsync file := do
    use file
    let _ ← request
    pure ()

def copyLoop (ops : FileOps) (src dst : FlushRes) : Nat → FlushCode Unit
  | 0 => Prog.diverge
  | fuel + 1 => do
      use src
      use .buf
      let bytesRead ← request
      if bytesRead = 0 then pure ()
      else do
        let bytesWritten ← ops.write dst
        if bytesWritten < bytesRead then Prog.fail eio else copyLoop ops src dst fuel

def copyFileContent (ops : FileOps) (fuel : Nat) (src dst : FlushRes) : FlushCode Unit := do
  let srcBuf ← acquire .srcPathBuf
  let dstBuf ← acquire .dstPathBuf
  match srcBuf, dstBuf with
  | .ok _, .ok _ => do
      use src
      use dst
      match ← acquire .buf with
      | .error _ => Prog.fail enomem
      | .ok _ => do
          let ret ← Prog.attempt do
            copyLoop ops src dst fuel
            ops.fsync dst
          give .buf
          give .srcPathBuf
          give .dstPathBuf
          ofExcept ret
  | _, _ => do
      giveIf srcBuf .srcPathBuf
      giveIf dstBuf .dstPathBuf
      Prog.fail enomem

def warnUnlinked (r : FlushRes) : FlushCode Unit := do
  use r
  if ← check then
    match ← acquire .nlinkBuf with
    | .ok _ => do
        use r
        give .nlinkBuf
    | .error _ => pure ()
  else pure ()

def renameNames : FlushCode Unit := do
  let oldName ← acquire .oldName
  let newName ← acquire .newName
  match oldName, newName with
  | .ok _, .ok _ => do
      give .oldName
      give .newName
      let _ ← request
      pure ()
  | _, _ => do
      giveIf oldName .oldName
      giveIf newName .newName
      Prog.fail enomem

/-- `filp_open` with `O_CREAT` on the target. -/
def touchTarget : FlushCode Unit := do
  match ← acquire .touchFile with
  | .ok _ => give .touchFile
  | .error _ => pure ()

/-- From the lookup of the target directory on. -/
def installIn : FlushCode Unit := do
  touchTarget
  use .newDirPath
  take .dirLock
  let newDentry ← acquire .newDentry
  give .dirLock
  match newDentry with
  | .error e => do
      give .oldPath
      give .newDirPath
      Prog.fail e
  | .ok _ => do
      warnUnlinked .newDentry
      warnUnlinked .oldPath
      use .tmpPath
      use .finalPath
      let ret ← renameNames.attempt
      give .newDentry
      give .oldPath
      give .newDirPath
      ofExcept ret

/-- `ramfs_file_flush` after the copy. -/
def installTmp : FlushCode Unit := do
  use .tmpPath
  match ← acquire .oldPath with
  | .error e => Prog.fail e
  | .ok _ => do
      use .finalPath
      match ← acquire .dirName with
      | .error _ => do
          give .oldPath
          Prog.fail enomem
      | .ok _ => do
          use .dirName
          match ← acquire .newDirPath with
          | .error e => do
              give .oldPath
              give .dirName
              Prog.fail e
          | .ok _ => do
              give .dirName
              installIn

/-- `ramfs_file_flush` with both paths allocated. -/
def flushPaths (ops : FileOps) (fuel : Nat) (file : FlushRes) : FlushCode Unit := do
  use .tmpPath
  use .finalPath
  match ← acquire .destFile with
  | .error e => Prog.fail e
  | .ok _ => do
      let ret ← (copyFileContent ops fuel file .destFile).attempt
      give .destFile
      match ret with
      | .error e => Prog.fail e
      | .ok _ => installTmp

/-- `ramfs_file_flush` with a buffer for the path. -/
def flushBuffered (ops : FileOps) (fuel : Nat) (file : FlushRes) : FlushCode Unit := do
  use file
  use .pathBuf
  let _ ← request
  let tmpPath ← acquire .tmpPath
  let finalPath ← acquire .finalPath
  let ret ← Prog.attempt (match tmpPath, finalPath with
    | .ok _, .ok _ => flushPaths ops fuel file
    | _, _ => Prog.fail enomem)
  giveIf finalPath .finalPath
  giveIf tmpPath .tmpPath
  ofExcept ret

def ramfsFileFlush (ops : FileOps) (fuel : Nat) (file : FlushRes) : FlushCode Unit := do
  use file
  if ← check then do
    kmalloc .pathBuf
    let ret ← (flushBuffered ops fuel file).attempt
    give .pathBuf
    ofExcept ret
  else Prog.fail einval

/-- Opens the file again for reading and flushes that. -/
def flushReopened (ops : FileOps) (fuel : Nat) (file : FlushRes) : FlushCode Unit := do
  kmalloc .reopenBuf
  use file
  use .reopenBuf
  let path ← request.attempt
  match path with
  | .error e => do
      give .reopenBuf
      Prog.fail e
  | .ok _ => do
      let readFile ← acquire .readFile
      give .reopenBuf
      match readFile with
      | .error e => Prog.fail e
      | .ok _ => do
          let ret ← (ramfsFileFlush ops fuel .readFile).attempt
          give .readFile
          ofExcept ret

def ramfsFsync (ops : FileOps) (fuel : Nat) (file : FlushRes) : FlushCode Unit := do
  use file
  if ← check then ramfsFileFlush ops fuel file else flushReopened ops fuel file

/-- The result of the flush is not looked at. -/
def ramfsFileWriteIter (ops : FileOps) (fuel : Nat) (file : FlushRes) : FlushCode Nat := do
  use file
  let written ← request
  let bound ← check
  if written ≠ 0 ∧ bound then do
    if ← check then do
      let _ ← (ramfsFileFlush ops fuel file).attempt
      pure written
    else do
      let _ ← (flushReopened ops fuel file).attempt
      pure written
  else pure written

/-- A file on the disk or, with flushes nested up to `depth`, on a ramfs. -/
def fileOps (fuel : Nat) : Nat → FileOps
  | 0 => plainOps
  | depth + 1 =>
      { write := fun file => do
          if ← check then ramfsFileWriteIter (fileOps fuel depth) fuel file
          else plainOps.write file
        fsync := fun file => do
          if ← check then ramfsFsync (fileOps fuel depth) fuel file else plainOps.fsync file }

def ramfsProcSyncWrite (ops : FileOps) (fuel count : Nat) : FlushCode Nat := do
  kmalloc .kbuf
  use .kbuf
  match ← ask with
  | .error _ => do
      give .kbuf
      Prog.fail efault
  | .ok _ => do
      if ← check then
        if ← check then do
          let target ← acquire .targetFile
          match target with
          | .error e => do
              give .kbuf
              Prog.fail e
          | .ok _ => do
              let ret ← (ramfsFileFlush ops fuel .targetFile).attempt
              give .targetFile
              give .kbuf
              match ret with
              | .error e => Prog.fail e
              | .ok _ => pure count
        else do
          give .kbuf
          Prog.fail einval
      else do
        give .kbuf
        pure count

/-! ## What each function leaves -/

/-- A flush without a copy buffer loses these. -/
def pathBufs : Multiset FlushRes := {.srcPathBuf} + {.dstPathBuf}

def losses : AddSubmonoid (Multiset FlushRes) := AddSubmonoid.multiples pathBufs

theorem pathBufs_mem : pathBufs ∈ losses := AddSubmonoid.mem_multiples pathBufs

/-- What the function has in hand it has in the end. -/
abbrev Restores {α : Type} (H : Multiset FlushRes) (m : FlushCode α) : Prop := Turns losses H m H

structure FileOps.Sound (ops : FileOps) : Prop where
  write : ∀ file, Restores {file} (ops.write file)
  fsync : ∀ file, Restores {file} (ops.fsync file)

section Rules

variable {α β : Type} {H : Multiset FlushRes} {after : Except Errno β → Multiset FlushRes → Prop}

theorem check_bind {f : Bool → FlushCode β} (h : ∀ b, Triple losses H (f b) after) :
    Triple losses H (check >>= f) after := by
  have hcheck : Succeeds losses H check H := by
    refine .ask_bind fun q => ?_
    cases q with
    | error e => exact .pure ⟨⟨_, rfl⟩, rfl⟩
    | ok n => exact .pure ⟨⟨_, rfl⟩, rfl⟩
  exact Succeeds.bind hcheck h

theorem kmalloc_bind {r : FlushRes} {f : Unit → FlushCode β} (hnot : after (.error enomem) H)
    (h : Triple losses (H + {r}) (f ()) after) : Triple losses H (kmalloc r >>= f) after := by
  have hkmalloc : Triple losses H (kmalloc r) fun x K =>
      (x = .ok () ∧ K = H + {r}) ∨ (x = .error enomem ∧ K = H) := by
    refine .acquire_bind (fun v => ?_) fun e => ?_
    · exact .pure (Or.inl ⟨rfl, rfl⟩)
    · exact .fail (Or.inr ⟨rfl, rfl⟩)
  refine hkmalloc.bind ?_ ?_
  · rintro e K (⟨hx, -⟩ | ⟨hx, rfl⟩)
    · cases hx
    · cases hx
      exact hnot
  · rintro u K (⟨-, rfl⟩ | ⟨hx, -⟩)
    · exact h
    · cases hx

end Rules

theorem plainOps_sound : plainOps.Sound where
  write file := .use_bind (Multiset.mem_singleton_self file) (.of_request fun _ => rfl)
  fsync file := .use_bind (Multiset.mem_singleton_self file)
    (.request_bind (fun _ => rfl) fun _ => .pure rfl)

theorem copyLoop_restores {ops : FileOps} (hops : ops.Sound) (src dst : FlushRes) (fuel : Nat) :
    Restores ({src} + {.buf} + {dst}) (copyLoop ops src dst fuel) := by
  induction fuel with
  | zero => exact .diverge
  | succ fuel ih =>
      refine .use_bind (by simp) ?_
      refine .use_bind (by simp) ?_
      refine .request_bind (fun _ => rfl) fun n => ?_
      split
      · exact .pure rfl
      · have hwrite := (hops.write dst).frame ({src} + {.buf})
        refine Turns.bind hwrite ?_ fun w => ?_
        · exact fun _ => rfl
        split
        · exact .fail rfl
        · exact ih

theorem copyBody_restores {ops : FileOps} (hops : ops.Sound) (fuel : Nat) (src dst : FlushRes) :
    Restores ({src} + {dst} + {.srcPathBuf} + {.dstPathBuf} + {.buf})
      (do copyLoop ops src dst fuel; ops.fsync dst) := by
  have hloop := (copyLoop_restores hops src dst fuel).frame pathBufs
  have hfsync := (hops.fsync dst).frame ({src} + {.srcPathBuf} + {.dstPathBuf} + {.buf})
  have hloopHeld : pathBufs + ({src} + {.buf} + {dst}) =
      {src} + {dst} + {.srcPathBuf} + {.dstPathBuf} + {.buf} := by
    unfold pathBufs
    abel
  have hfsyncHeld : ({src} + {.srcPathBuf} + {.dstPathBuf} + {.buf} + {dst} :
      Multiset FlushRes) = {src} + {dst} + {.srcPathBuf} + {.dstPathBuf} + {.buf} := by abel
  rw [hloopHeld] at hloop
  rw [hfsyncHeld] at hfsync
  exact hloop.bind (fun _ => rfl) fun _ => hfsync

theorem copyFileContent_restores {ops : FileOps} (hops : ops.Sound) (fuel : Nat)
    (src dst : FlushRes) : Restores ({src} + {dst}) (copyFileContent ops fuel src dst) := by
  refine .acquire_bind (fun _ => ?_) fun _ => ?_
  · refine .acquire_bind (fun _ => ?_) fun _ => ?_
    · refine .use_bind (by simp) ?_
      refine .use_bind (by simp) ?_
      refine .acquire_bind (fun _ => ?_) fun _ => ?_
      · refine Turns.attempt_bind (copyBody_restores hops fuel src dst) fun ret => ?_
        refine .give_bind rfl ?_
        refine .give_bind (add_right_comm _ _ _) ?_
        refine .give_bind rfl ?_
        exact .rethrow rfl
      · -- the early return: the two path buffers are not given back
        have hlose : Triple losses ({src} + {dst} + pathBufs) (Prog.fail enomem : FlushCode Unit)
            fun _ K => K = {src} + {dst} := .lose pathBufs_mem (.fail rfl)
        rwa [pathBufs, ← add_assoc] at hlose
    · refine .give_bind rfl ?_
      exact .pure_bind (.fail rfl)
  · refine .acquire_bind (fun _ => ?_) fun _ => ?_
    · refine .pure_bind ?_
      refine .give_bind rfl ?_
      exact .fail rfl
    · refine .pure_bind ?_
      exact .pure_bind (.fail rfl)

theorem warnUnlinked_succeeds (H : Multiset FlushRes) {r : FlushRes} (hr : r ∈ H) :
    Succeeds losses H (warnUnlinked r) H := by
  refine .use_bind hr ?_
  refine check_bind fun b => ?_
  cases b with
  | false => exact .pure ⟨⟨_, rfl⟩, rfl⟩
  | true =>
      refine .acquire_bind (fun _ => ?_) fun _ => ?_
      · refine .use_bind (Multiset.mem_add.mpr (Or.inl hr)) ?_
        exact .give rfl ⟨⟨_, rfl⟩, rfl⟩
      · exact .pure ⟨⟨_, rfl⟩, rfl⟩

theorem touchTarget_succeeds (H : Multiset FlushRes) : Succeeds losses H touchTarget H := by
  refine .acquire_bind (fun _ => ?_) fun _ => ?_
  · exact .give rfl ⟨⟨_, rfl⟩, rfl⟩
  · exact .pure ⟨⟨_, rfl⟩, rfl⟩

theorem renameNames_restores (H : Multiset FlushRes) : Restores H renameNames := by
  refine .acquire_bind (fun _ => ?_) fun _ => ?_
  · refine .acquire_bind (fun _ => ?_) fun _ => ?_
    · refine .give_bind (add_right_comm _ _ _) ?_
      refine .give_bind rfl ?_
      exact .request_bind (fun _ => rfl) fun _ => .pure rfl
    · refine .give_bind rfl ?_
      exact .pure_bind (.fail rfl)
  · refine .acquire_bind (fun _ => ?_) fun _ => ?_
    · refine .pure_bind ?_
      refine .give_bind rfl ?_
      exact .fail rfl
    · refine .pure_bind ?_
      exact .pure_bind (.fail rfl)

def paths : Multiset FlushRes := {.tmpPath} + {.finalPath}

/-- The directory and the temporary file are given back on every way. -/
theorem installIn_turns : Turns losses (paths + {.oldPath} + {.newDirPath}) installIn paths := by
  refine Succeeds.bind (touchTarget_succeeds _) fun _ => ?_
  refine .use_bind (by simp) ?_
  refine .take_bind ?_
  refine .acquire_bind (fun _ => ?_) fun _ => ?_
  · refine .give_bind (add_right_comm _ _ _) ?_
    refine Succeeds.bind (warnUnlinked_succeeds _ (by simp)) fun _ => ?_
    refine Succeeds.bind (warnUnlinked_succeeds _ (by simp)) fun _ => ?_
    refine .use_bind (by simp [paths]) ?_
    refine .use_bind (by simp [paths]) ?_
    refine Turns.attempt_bind (renameNames_restores _) fun ret => ?_
    refine .give_bind rfl ?_
    refine .give_bind (add_right_comm _ _ _) ?_
    refine .give_bind rfl ?_
    exact .rethrow rfl
  · refine .give_bind rfl ?_
    refine .give_bind (add_right_comm _ _ _) ?_
    refine .give_bind rfl ?_
    exact .fail rfl

theorem installTmp_restores : Restores paths installTmp := by
  refine .use_bind (by simp [paths]) ?_
  refine .acquire_bind (fun _ => ?_) fun _ => ?_
  · refine .use_bind (by simp [paths]) ?_
    refine .acquire_bind (fun _ => ?_) fun _ => ?_
    · refine .use_bind (by simp) ?_
      refine .acquire_bind (fun _ => ?_) fun _ => ?_
      · refine .give_bind (add_right_comm _ _ _) ?_
        exact installIn_turns
      · refine .give_bind (add_right_comm _ _ _) ?_
        refine .give_bind rfl ?_
        exact .fail rfl
    · refine .give_bind rfl ?_
      exact .fail rfl
  · exact .fail rfl

section Flush

variable {ops : FileOps} (hops : ops.Sound) (fuel : Nat) (file : FlushRes)
include hops

theorem flushPaths_restores : Restores ({file} + paths) (flushPaths ops fuel file) := by
  refine .use_bind (by simp [paths]) ?_
  refine .use_bind (by simp [paths]) ?_
  refine .acquire_bind (fun _ => ?_) fun _ => ?_
  · have hcopy := (copyFileContent_restores hops fuel file .destFile).frame paths
    have hheld : paths + ({file} + {.destFile}) = {file} + paths + {.destFile} := by abel
    rw [hheld] at hcopy
    refine Turns.attempt_bind hcopy fun ret => ?_
    refine .give_bind rfl ?_
    cases ret with
    | error e => exact .fail rfl
    | ok _ => exact installTmp_restores.frame {file}
  · exact .fail rfl

theorem flushBuffered_restores :
    Restores ({file} + {.pathBuf}) (flushBuffered ops fuel file) := by
  refine .use_bind (by simp) ?_
  refine .use_bind (by simp) ?_
  refine .request_bind (fun _ => rfl) fun _ => ?_
  refine .acquire_bind (fun _ => ?_) fun _ => ?_
  · refine .acquire_bind (fun _ => ?_) fun _ => ?_
    · have hflush := (flushPaths_restores hops fuel file).frame {.pathBuf}
      have hheld : {.pathBuf} + ({file} + paths) =
          {file} + {.pathBuf} + {.tmpPath} + {.finalPath} := by
        unfold paths
        abel
      rw [hheld] at hflush
      refine Turns.attempt_bind hflush fun ret => ?_
      refine .give_bind rfl ?_
      refine .give_bind rfl ?_
      exact .rethrow rfl
    · refine Turns.attempt_bind (.fail rfl) fun ret => ?_
      refine .pure_bind ?_
      refine .give_bind rfl ?_
      exact .rethrow rfl
  · refine .acquire_bind (fun _ => ?_) fun _ => ?_
    · refine Turns.attempt_bind (.fail rfl) fun ret => ?_
      refine .give_bind rfl ?_
      exact .pure_bind (.rethrow rfl)
    · refine Turns.attempt_bind (.fail rfl) fun ret => ?_
      refine .pure_bind ?_
      exact .pure_bind (.rethrow rfl)

theorem ramfsFileFlush_restores : Restores {file} (ramfsFileFlush ops fuel file) := by
  refine .use_bind (by simp) ?_
  refine check_bind fun b => ?_
  cases b with
  | false => exact .fail rfl
  | true =>
      refine kmalloc_bind rfl ?_
      refine Turns.attempt_bind (flushBuffered_restores hops fuel file) fun ret => ?_
      refine .give_bind rfl ?_
      exact .rethrow rfl

theorem flushReopened_restores : Restores {file} (flushReopened ops fuel file) := by
  refine kmalloc_bind rfl ?_
  refine .use_bind (by simp) ?_
  refine .use_bind (by simp) ?_
  refine Turns.attempt_bind (.of_request fun _ => rfl) fun path => ?_
  cases path with
  | error e =>
      refine .give_bind rfl ?_
      exact .fail rfl
  | ok _ =>
      refine .acquire_bind (fun _ => ?_) fun _ => ?_
      · refine .give_bind (add_right_comm _ _ _) ?_
        have hflush := (ramfsFileFlush_restores hops fuel .readFile).frame {file}
        refine Turns.attempt_bind hflush fun ret => ?_
        refine .give_bind rfl ?_
        exact .rethrow rfl
      · refine .give_bind rfl ?_
        exact .fail rfl

theorem ramfsFsync_restores : Restores {file} (ramfsFsync ops fuel file) := by
  refine .use_bind (by simp) ?_
  refine check_bind fun b => ?_
  cases b with
  | false => exact flushReopened_restores hops fuel file
  | true => exact ramfsFileFlush_restores hops fuel file

theorem ramfsFileWriteIter_restores : Restores {file} (ramfsFileWriteIter ops fuel file) := by
  refine .use_bind (by simp) ?_
  refine .request_bind (fun _ => rfl) fun written => ?_
  refine check_bind fun bound => ?_
  split
  · refine check_bind fun readable => ?_
    cases readable with
    | false =>
        refine Turns.attempt_bind (flushReopened_restores hops fuel file) fun _ => ?_
        exact .pure rfl
    | true =>
        refine Turns.attempt_bind (ramfsFileFlush_restores hops fuel file) fun _ => ?_
        exact .pure rfl
  · exact .pure rfl

omit file in
theorem ramfsProcSyncWrite_restores (count : Nat) :
    Restores 0 (ramfsProcSyncWrite ops fuel count) := by
  refine kmalloc_bind rfl ?_
  refine .use_bind (by simp) ?_
  refine .ask_bind fun copied => ?_
  cases copied with
  | error e =>
      refine .give_bind rfl ?_
      exact .fail rfl
  | ok _ =>
      refine check_bind fun hasContent => ?_
      cases hasContent with
      | false =>
          refine .give_bind rfl ?_
          exact .pure rfl
      | true =>
          refine check_bind fun left => ?_
          cases left with
          | false =>
              refine .give_bind rfl ?_
              exact .fail rfl
          | true =>
              refine .acquire_bind (fun _ => ?_) fun _ => ?_
              · have hflush := (ramfsFileFlush_restores hops fuel .targetFile).frame (0 + {.kbuf})
                refine Turns.attempt_bind hflush fun ret => ?_
                refine .give_bind rfl ?_
                refine .give_bind rfl ?_
                cases ret with
                | error e => exact .fail rfl
                | ok _ => exact .pure rfl
              · refine .give_bind rfl ?_
                exact .fail rfl

end Flush

/-- However deep the bindings are nested. -/
theorem fileOps_sound (fuel depth : Nat) : (fileOps fuel depth).Sound := by
  induction depth with
  | zero => exact plainOps_sound
  | succ depth ih =>
      constructor
      · intro file
        refine check_bind fun b => ?_
        cases b with
        | false => exact plainOps_sound.write file
        | true => exact ramfsFileWriteIter_restores ih fuel file
      · intro file
        refine check_bind fun b => ?_
        cases b with
        | false => exact plainOps_sound.fsync file
        | true => exact ramfsFsync_restores ih fuel file

end FlushCode

/-! ## Runs of calls -/

inductive WriteBackCall where
  | writeIter
  | fsync
  | procSync (count : Nat)

/-- A call with the answers it gets, and bounds on the turns of its loops and on the nesting
of flushes that it stays below. -/
structure WriteBackAction where
  call : WriteBackCall
  answers : List (Except Errno Nat)
  fuel : Nat
  depth : Nat

namespace FlushCode

def perform (a : WriteBackAction) : FlushCode Unit :=
  match a.call with
  | .writeIter => do
      let _ ← ramfsFileWriteIter (fileOps a.fuel a.depth) a.fuel .callerFile
      pure ()
  | .fsync => ramfsFsync (fileOps a.fuel a.depth) a.fuel .callerFile
  | .procSync count => do
      let _ ← ramfsProcSyncWrite (fileOps a.fuel a.depth) a.fuel count
      pure ()

/-- Only calls that return are steps. -/
def step (b : Books FlushRes Errno Nat) (a : WriteBackAction) :
    Option (Books FlushRes Errno Nat × Except Errno Unit) :=
  (perform a { b with answers := a.answers }).map fun r => (r.2, r.1)

theorem perform_restores (a : WriteBackAction) : Restores {.callerFile} (perform a) := by
  have hops := fileOps_sound a.fuel a.depth
  unfold perform
  cases a.call with
  | writeIter =>
      refine Turns.bind (ramfsFileWriteIter_restores hops a.fuel .callerFile) (fun _ => rfl) ?_
      exact fun _ => .pure rfl
  | fsync => exact ramfsFsync_restores hops a.fuel .callerFile
  | procSync count =>
      have hsync := (ramfsProcSyncWrite_restores hops a.fuel count).frame {.callerFile}
      rw [add_zero] at hsync
      exact Turns.bind hsync (fun _ => rfl) fun _ => .pure rfl

end FlushCode

def writeBackCalls : System (Books FlushRes Errno Nat) WriteBackAction (Except Errno Unit) :=
  ⟨FlushCode.step⟩

/-- Nothing that was given back is used or given back again, and beyond the file of the caller
only pairs of path buffers are left. -/
def InCustody (b : Books FlushRes Errno Nat) : Prop :=
  b.fault = false ∧ ∃ k : Nat, b.held = {.callerFile} + k • FlushCode.pathBufs

theorem InCustody.added {b b' : Books FlushRes Errno Nat} {a : WriteBackAction}
    {e : Except Errno Unit} (h : InCustody b) (hs : writeBackCalls.step b a = some (b', e)) :
    b'.fault = false ∧ ∃ n : Nat, b'.held = b.held + n • FlushCode.pathBufs := by
  obtain ⟨hfault, k, hheld⟩ := h
  obtain ⟨⟨r, b''⟩, hrun, heq⟩ := Option.map_eq_some_iff.mp hs
  cases heq
  have hstart : Books.Holds { b with answers := a.answers }
      (k • FlushCode.pathBufs + {.callerFile}) := ⟨hheld.trans (add_comm _ _), hfault⟩
  obtain ⟨K, l, hl, rfl, hend, hfault'⟩ := FlushCode.perform_restores a _ _ _ _ hstart hrun
  obtain ⟨n, rfl⟩ := (AddSubmonoid.mem_multiples_iff _ _).mp hl
  refine ⟨hfault', n, ?_⟩
  rw [hend, hheld]
  abel

theorem InCustody.step {b b' : Books FlushRes Errno Nat} {a : WriteBackAction}
    {e : Except Errno Unit} (h : InCustody b) (hs : writeBackCalls.step b a = some (b', e)) :
    InCustody b' ∧ b.held ≤ b'.held := by
  obtain ⟨hfault, n, hadd⟩ := h.added hs
  obtain ⟨-, k, hheld⟩ := h
  refine ⟨⟨hfault, k + n, ?_⟩, ?_⟩
  · rw [hadd, hheld, add_nsmul, add_assoc]
  · rw [hadd]
    exact Multiset.le_add_right _ _

theorem InCustody.run {b b' : Books FlushRes Errno Nat} {acts : List WriteBackAction}
    {tr : List (Except Errno Unit)} (h : InCustody b)
    (hr : writeBackCalls.run b acts = some (b', tr)) : InCustody b' ∧ b.held ≤ b'.held := by
  have keep : ∀ {b₁ a b₂ e}, (InCustody b₁ ∧ b.held ≤ b₁.held) →
      writeBackCalls.step b₁ a = some (b₂, e) → InCustody b₂ ∧ b.held ≤ b₂.held := by
    rintro b₁ a b₂ e ⟨hb₁, hle⟩ hs
    obtain ⟨hb₂, hle₂⟩ := hb₁.step hs
    exact ⟨hb₂, hle.trans hle₂⟩
  exact writeBackCalls.run_invariant keep ⟨h, le_rfl⟩ hr

/-- Over any run of writes, syncs and writes to `/proc/fs/ramfs/sync`, with any answers and
flushes nested in flushes: no buffer, file, path, dentry, name or lock is given back twice or
used after that, and all that is left over are pairs of path buffers, which no later call gives
back. -/
theorem writeBack_custody {b : Books FlushRes Errno Nat} {acts : List WriteBackAction}
    {tr : List (Except Errno Unit)} {answers : List (Except Errno Nat)}
    (hr : writeBackCalls.run ⟨{.callerFile}, false, answers⟩ acts = some (b, tr)) :
    b.fault = false ∧ (∃ k : Nat, b.held = {.callerFile} + k • FlushCode.pathBufs) ∧
      writeBackCalls.Throughout (fun b₁ => b₁.held ≤ b.held) ⟨{.callerFile}, false, answers⟩
        acts := by
  have hstart : InCustody ⟨{.callerFile}, false, answers⟩ := ⟨rfl, 0, by simp⟩
  obtain ⟨⟨hfault, hheld⟩, -⟩ := hstart.run hr
  refine ⟨hfault, hheld, ?_⟩
  rintro pre ⟨post, rfl⟩ b₁ tr₁ hpre
  obtain ⟨m, tr₂, tr₃, hm, hpost⟩ := writeBackCalls.exists_run_of_append hr
  obtain ⟨rfl, -⟩ : m = b₁ ∧ tr₂ = tr₁ := by simpa [hm] using hpre
  exact ((hstart.run hm).1.run hpost).2

def starvedWrite : WriteBackAction where
  call := .writeIter
  answers := [.ok 5, .ok 1, .ok 1, .ok 1, .ok 0, .ok 0, .ok 0, .ok 0, .ok 0, .ok 0, .ok 0,
    .error enomem]
  fuel := 1
  depth := 0

theorem writeBack_custody_starved :
    ∃ b tr, writeBackCalls.run ⟨{.callerFile}, false, []⟩ [starvedWrite] = some (b, tr) ∧
      tr = [.ok ()] ∧ b.held = {.callerFile, .srcPathBuf, .dstPathBuf} ∧
      ∃ k : Nat, b.held = {.callerFile} + k • FlushCode.pathBufs := by
  have hrun : (writeBackCalls.run ⟨{.callerFile}, false, []⟩ [starvedWrite]).map
      (fun r => (r.2, r.1.held)) =
        some ([.ok ()], {.callerFile, .srcPathBuf, .dstPathBuf}) := by decide
  obtain ⟨⟨b, tr⟩, hr, heq⟩ := Option.map_eq_some_iff.mp hrun
  obtain ⟨htr, hheld⟩ := Prod.mk.inj heq
  exact ⟨b, tr, hr, htr, hheld, (writeBack_custody hr).2.1⟩

end OShm.Ramfs
