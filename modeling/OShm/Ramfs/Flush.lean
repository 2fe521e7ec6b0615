import OShm.Lib.ByteFile
import OShm.Ramfs.Path

/-! # `ramfs_file_flush`, one call at a time

A flush is a program counter over the calls it makes. Each call takes an answer: an
error, or success with a number that only reads and writes look at. Stopping after
any list of answers is an interruption at that point. Here every file has one name, and
there are no links.
-/

namespace OShm.Ramfs

open OShm.Kernel OShm.Lib.ByteFile

abbrev Bytes := List UInt8

inductive Node where
  | file (data : Bytes)
  | dir
  deriving DecidableEq, Repr

/-- The entries of the persistent file system that a flush can reach, by path. -/
abbrev Disk := CString → Option Node

/-- The calls that change no file. -/
inductive FlushCall where
  | allocPathBuf
  | dPath
  | allocPaths
  | copyPathBufs
  | copyBuf
  | fsync
  | lookupTmp
  | dupDir
  | lookupDir
  | lookupDentry
  | getnames
  deriving DecidableEq, Repr

inductive FlushPc where
  | call (c : FlushCall)
  | openTmp
  /-- The loop head of `copy_file_content`. -/
  | read (pos : Nat)
  | write (pos : Nat) (buf : Bytes)
  | touch
  | rename
  | done (r : Except Errno Unit)

def FlushCall.next : FlushCall → FlushPc
  | .allocPathBuf => .call .dPath
  | .dPath => .call .allocPaths
  | .allocPaths => .openTmp
  | .copyPathBufs => .call .copyBuf
  | .copyBuf => .read 0
  | .fsync => .call .lookupTmp
  | .lookupTmp => .call .dupDir
  | .dupDir => .call .lookupDir
  | .lookupDir => .touch
  | .lookupDentry => .call .getnames
  | .getnames => .rename

/-- Allocations fail with one error only. -/
def FlushCall.errno : FlushCall → Errno → Errno
  | .allocPathBuf, _ => enomem
  | .allocPaths, _ => enomem
  | .copyPathBufs, _ => enomem
  | .copyBuf, _ => enomem
  | .dupDir, _ => enomem
  | .getnames, _ => enomem
  | _, e => e

/-- `PAGE_SIZE * 4`. -/
def bufSize : Nat := 16384

/-- `kernel_read`: between one byte and the buffer, nothing only at the end. -/
def kernelRead (src : Bytes) (pos n : Nat) : Bytes := readAt src pos (max 1 (min n bufSize))

def Disk.pwrite (d : Disk) (path : CString) (pos : Nat) (buf : Bytes) : Disk :=
  match d path with
  | some (.file data) => Function.update d path (some (.file (writeAt 0 data pos buf)))
  | _ => d

/-- `do_renameat2` of a file without flags. -/
def Disk.rename (d : Disk) (old new : CString) : Disk × Except Errno Unit :=
  match d old, d new with
  | none, _ => (d, .error enoent)
  | some _, some .dir => (d, .error eisdir)
  | some node, _ =>
      if old = new then (d, .ok ())
      else (Function.update (Function.update d new (some node)) old none, .ok ())

def flushStart (A : FlushArgs) : FlushPc :=
  match A.syncDir with
  | none => .done (.error einval)
  | some _ => .call .allocPathBuf

theorem flushStart_cases (A : FlushArgs) :
    flushStart A = .done (.error einval) ∨ flushStart A = .call .allocPathBuf := by
  unfold flushStart
  cases A.syncDir with
  | none => exact Or.inl rfl
  | some dir => exact Or.inr rfl

/-- One call of the flush of a file that now holds `src`. -/
def flushStep (A : FlushArgs) (src : Bytes) : FlushPc × Disk → Except Errno Nat → FlushPc × Disk
  | (.call c, d), .ok _ => (c.next, d)
  | (.call c, d), .error e => (.done (.error (c.errno e)), d)
  | (.openTmp, d), .error e => (.done (.error e), d)
  | (.openTmp, d), .ok _ =>
      match d A.tmpPath with
      | some .dir => (.done (.error eisdir), d)
      | _ => (.call .copyPathBufs, Function.update d A.tmpPath (some (.file [])))
  | (.read _, d), .error e => (.done (.error e), d)
  | (.read pos, d), .ok n =>
      match kernelRead src pos n with
      | [] => (.call .fsync, d)
      | b :: buf => (.write pos (b :: buf), d)
  | (.write _ _, d), .error e => (.done (.error e), d)
  | (.write pos buf, d), .ok n =>
      if n < buf.length then (.done (.error eio), d.pwrite A.tmpPath pos (buf.take n))
      else (.read (pos + buf.length), d.pwrite A.tmpPath pos buf)
  | (.touch, d), .error _ => (.call .lookupDentry, d)
  | (.touch, d), .ok _ =>
      match d A.finalPath with
      | none => (.call .lookupDentry, Function.update d A.finalPath (some (.file [])))
      | some _ => (.call .lookupDentry, d)
  | (.rename, d), .error e => (.done (.error e), d)
  | (.rename, d), .ok _ =>
      match d.rename A.tmpPath A.finalPath with
      | (d, r) => (.done r, d)
  | (.done r, d), _ => (.done r, d)

def flushRun (A : FlushArgs) (src : Bytes) (d : Disk) (answers : List (Except Errno Nat)) :
    FlushPc × Disk :=
  answers.foldl (flushStep A src) (flushStart A, d)

/-! ## What a call can do -/

inductive FlushEffect (A : FlushArgs) (src : Bytes) (d : Disk) :
    FlushPc → FlushPc → Disk → Prop where
  | called {c : FlushCall} : FlushEffect A src d (.call c) c.next d
  | failed {pc : FlushPc} {e : Errno} : FlushEffect A src d pc (.done (.error e)) d
  | opened (h : d A.tmpPath ≠ some .dir) :
      FlushEffect A src d .openTmp (.call .copyPathBufs)
        (Function.update d A.tmpPath (some (.file [])))
  | ended {pos n : Nat} (h : kernelRead src pos n = []) :
      FlushEffect A src d (.read pos) (.call .fsync) d
  | didRead {pos n : Nat} (h : kernelRead src pos n ≠ []) :
      FlushEffect A src d (.read pos) (.write pos (kernelRead src pos n)) d
  | wroteShort {pos n : Nat} {buf : Bytes} :
      FlushEffect A src d (.write pos buf) (.done (.error eio))
        (d.pwrite A.tmpPath pos (buf.take n))
  | wrote {pos : Nat} {buf : Bytes} :
      FlushEffect A src d (.write pos buf) (.read (pos + buf.length)) (d.pwrite A.tmpPath pos buf)
  | touched (h : d A.finalPath = none) :
      FlushEffect A src d .touch (.call .lookupDentry)
        (Function.update d A.finalPath (some (.file [])))
  | untouched : FlushEffect A src d .touch (.call .lookupDentry) d
  | renamed {node : Node} (ht : d A.tmpPath = some node) (hf : d A.finalPath ≠ some .dir)
      (hne : A.tmpPath ≠ A.finalPath) :
      FlushEffect A src d .rename (.done (.ok ()))
        (Function.update (Function.update d A.finalPath (some node)) A.tmpPath none)
  | renamedSelf {node : Node} (ht : d A.tmpPath = some node) (heq : A.tmpPath = A.finalPath) :
      FlushEffect A src d .rename (.done (.ok ())) d
  | stopped {r : Except Errno Unit} : FlushEffect A src d (.done r) (.done r) d

theorem rename_effect (A : FlushArgs) (src : Bytes) (d : Disk) :
    FlushEffect A src d .rename (.done (d.rename A.tmpPath A.finalPath).2)
      (d.rename A.tmpPath A.finalPath).1 := by
  unfold Disk.rename
  split
  · exact .failed
  · exact .failed
  · rename_i node ht hdir
    split
    · rename_i heq
      exact .renamedSelf ht heq
    · rename_i hne
      exact .renamed ht hdir hne

theorem flushStep_effect (A : FlushArgs) (src : Bytes) (pc : FlushPc) (d : Disk)
    (ans : Except Errno Nat) :
    FlushEffect A src d pc (flushStep A src (pc, d) ans).1 (flushStep A src (pc, d) ans).2 := by
  cases pc with
  | call c =>
      cases ans with
      | error e => exact .failed
      | ok n => exact .called
  | openTmp =>
      cases ans with
      | error e => exact .failed
      | ok n =>
          simp only [flushStep]
          split
          · exact .failed
          · rename_i hdir
            exact .opened hdir
  | read pos =>
      cases ans with
      | error e => exact .failed
      | ok n =>
          simp only [flushStep]
          split
          · rename_i hnil
            exact .ended hnil
          · rename_i b buf hbuf
            rw [← hbuf]
            exact .didRead (by simp [hbuf])
  | write pos buf =>
      cases ans with
      | error e => exact .failed
      | ok n =>
          simp only [flushStep]
          split
          · exact .wroteShort
          · exact .wrote
  | touch =>
      cases ans with
      | error e => exact .untouched
      | ok n =>
          simp only [flushStep]
          split
          · rename_i hnone
            exact .touched hnone
          · exact .untouched
  | rename =>
      cases ans with
      | error e => exact .failed
      | ok n => exact rename_effect A src d
  | done r => exact .stopped

theorem Disk.pwrite_of_ne (d : Disk) {path p : CString} (h : p ≠ path) (pos : Nat) (buf : Bytes) :
    d.pwrite path pos buf p = d p := by
  unfold Disk.pwrite
  cases hd : d path with
  | none => rfl
  | some node =>
      cases node with
      | dir => rfl
      | file data => exact Function.update_of_ne h _ _

theorem Disk.pwrite_self {d : Disk} {path : CString} {data : Bytes} (h : d path = some (.file data))
    (pos : Nat) (buf : Bytes) :
    d.pwrite path pos buf path = some (.file (writeAt 0 data pos buf)) := by
  simp [Disk.pwrite, h]

/-- A flush touches its two paths only. -/
theorem FlushEffect.frame {A : FlushArgs} {src : Bytes} {d d' : Disk} {pc pc' : FlushPc}
    (he : FlushEffect A src d pc pc' d') {p : CString} (ht : p ≠ A.tmpPath)
    (hf : p ≠ A.finalPath) : d' p = d p := by
  cases he with
  | called => rfl
  | failed => rfl
  | opened h => exact Function.update_of_ne ht _ _
  | ended h => rfl
  | didRead h => rfl
  | wroteShort => exact d.pwrite_of_ne ht _ _
  | wrote => exact d.pwrite_of_ne ht _ _
  | touched h => exact Function.update_of_ne hf _ _
  | untouched => rfl
  | renamed htmp hdir hne => rw [Function.update_of_ne ht, Function.update_of_ne hf]
  | renamedSelf htmp heq => rfl
  | stopped => rfl

/-- A flush succeeds by its rename, which brings the temporary file to the target. -/
theorem FlushEffect.finished {A : FlushArgs} {src : Bytes} {d d' : Disk} {pc pc' : FlushPc}
    (he : FlushEffect A src d pc pc' d') (h : pc' = .done (.ok ())) :
    (pc = .done (.ok ()) ∧ d' = d) ∨ (pc = .rename ∧ d' A.finalPath = d A.tmpPath) := by
  cases he with
  | called =>
      rename_i c
      cases c <;> simp [FlushCall.next] at h
  | renamed ht hf hne =>
      refine Or.inr ⟨rfl, ?_⟩
      rw [Function.update_of_ne (Ne.symm hne), Function.update_self, ht]
  | renamedSelf ht heq => exact Or.inr ⟨rfl, by rw [heq]⟩
  | stopped => exact Or.inl ⟨h, rfl⟩
  | _ => simp at h

/-! ## The temporary file -/

inductive FlushPhase where
  | before
  | opened
  | copied
  deriving DecidableEq, Repr

def FlushCall.phase : FlushCall → FlushPhase
  | .allocPathBuf => .before
  | .dPath => .before
  | .allocPaths => .before
  | .copyPathBufs => .opened
  | .copyBuf => .opened
  | _ => .copied

/-- What the temporary file holds while a file that holds `src` is flushed. -/
def TmpAt (src : Bytes) : FlushPc → Option Node → Prop
  | .call c, node =>
      match c.phase with
      | .before => True
      | .opened => node = some (.file [])
      | .copied => node = some (.file src)
  | .openTmp, _ => True
  | .read pos, node => pos ≤ src.length ∧ node = some (.file (src.take pos))
  | .write pos buf, node =>
      pos ≤ src.length ∧ node = some (.file (src.take pos)) ∧ ∃ n, buf = readAt src pos n
  | .touch, node => node = some (.file src)
  | .rename, node => node = some (.file src)
  | .done _, _ => True

theorem tmpAt_start (A : FlushArgs) (src : Bytes) (node : Option Node) :
    TmpAt src (flushStart A) node := by
  rcases flushStart_cases A with h | h <;> rw [h] <;> trivial

theorem tmpAt_next {src : Bytes} {c : FlushCall} {node : Option Node}
    (h : TmpAt src (.call c) node) : TmpAt src c.next node := by
  cases c with
  | copyBuf => exact ⟨Nat.zero_le _, h⟩
  | _ => exact h

/-- The copy loop extends a prefix of the source, and the rest of the flush finds all
of it. -/
theorem FlushEffect.tmpAt {A : FlushArgs} {src : Bytes} {d d' : Disk} {pc pc' : FlushPc}
    (he : FlushEffect A src d pc pc' d') (h : TmpAt src pc (d A.tmpPath)) :
    TmpAt src pc' (d' A.tmpPath) := by
  cases he with
  | called => exact tmpAt_next h
  | failed => trivial
  | opened hdir => exact Function.update_self _ _ _
  | ended hnil =>
      obtain ⟨hpos, hnode⟩ := h
      have hend : src.length ≤ _ := (readAt_eq_nil_iff (by omega)).mp hnil
      rw [List.take_of_length_le hend] at hnode
      exact hnode
  | didRead hbuf => exact ⟨h.1, h.2, _, rfl⟩
  | wroteShort => trivial
  | wrote =>
      obtain ⟨hpos, hnode, n, rfl⟩ := h
      refine ⟨readAt_length_le src _ n hpos, ?_⟩
      rw [Disk.pwrite_self hnode, writeAt_take 0 src _ n hpos]
  | touched hnone =>
      have hne : A.tmpPath ≠ A.finalPath := by
        intro heq
        rw [← heq] at hnone
        cases hnone.symm.trans h
      exact (Function.update_of_ne hne _ _).trans h
  | untouched => exact h
  | renamed ht hdir hne => trivial
  | renamedSelf ht heq => trivial
  | stopped => trivial

/-! ## Whole flushes -/

theorem flushRun_invariant {A : FlushArgs} {src : Bytes} {d : Disk} {Inv : FlushPc → Disk → Prop}
    (start : Inv (flushStart A) d)
    (keep : ∀ {pc pc' d d'}, Inv pc d → FlushEffect A src d pc pc' d' → Inv pc' d')
    (answers : List (Except Errno Nat)) :
    Inv (flushRun A src d answers).1 (flushRun A src d answers).2 := by
  unfold flushRun
  generalize flushStart A = pc at start
  induction answers generalizing pc d with
  | nil => exact start
  | cons ans answers ih =>
      have hstep := keep start (flushStep_effect A src pc d ans)
      exact ih _ hstep

/-- A flush that returns 0 leaves the source in the target and no other path changed
but the temporary one. -/
theorem flushRun_success {A : FlushArgs} {src : Bytes} {d : Disk}
    {answers : List (Except Errno Nat)} (h : (flushRun A src d answers).1 = .done (.ok ())) :
    (flushRun A src d answers).2 A.finalPath = some (.file src) ∧
      ∀ p, p ≠ A.tmpPath → p ≠ A.finalPath → (flushRun A src d answers).2 p = d p := by
  have hinv := @flushRun_invariant A src d
    (fun pc d' => TmpAt src pc (d' A.tmpPath) ∧
      (pc = .done (.ok ()) → d' A.finalPath = some (.file src)) ∧
      ∀ p, p ≠ A.tmpPath → p ≠ A.finalPath → d' p = d p) ?_ ?_ answers
  · exact ⟨hinv.2.1 h, hinv.2.2⟩
  · refine ⟨tmpAt_start A src _, ?_, fun _ _ _ => rfl⟩
    intro hstart
    rcases flushStart_cases A with h | h <;> rw [h] at hstart <;> cases hstart
  · rintro pc pc' d₁ d₂ ⟨htmp, hdone, hrest⟩ he
    refine ⟨he.tmpAt htmp, ?_, ?_⟩
    · intro hpc'
      rcases he.finished hpc' with ⟨rfl, rfl⟩ | ⟨rfl, hinstall⟩
      · exact hdone rfl
      · exact hinstall.trans htmp
    · intro p ht hf
      exact (he.frame ht hf).trans (hrest p ht hf)

/-- A flush that cannot open its temporary file changes nothing. -/
theorem flushRun_refused {A : FlushArgs} {src : Bytes} {d : Disk}
    (h : A.syncDir = none ∨ d A.tmpPath = some .dir) (answers : List (Except Errno Nat)) :
    (flushRun A src d answers).2 = d := by
  have hinv := @flushRun_invariant A src d
    (fun pc d' => d' = d ∧ ((∃ c, pc = .call c ∧ c.phase = .before ∧ A.syncDir ≠ none) ∨
      (pc = .openTmp ∧ A.syncDir ≠ none) ∨ ∃ r, pc = .done r)) ?_ ?_ answers
  · exact hinv.1
  · refine ⟨rfl, ?_⟩
    unfold flushStart
    cases A.syncDir with
    | none => exact Or.inr (Or.inr ⟨_, rfl⟩)
    | some dir => exact Or.inl ⟨.allocPathBuf, rfl, rfl, by simp⟩
  · rintro pc pc' d₁ d₂ ⟨rfl, hpc⟩ he
    rcases hpc with ⟨c, rfl, hphase, hsync⟩ | ⟨rfl, hsync⟩ | ⟨r, rfl⟩
    · cases he with
      | called =>
          refine ⟨rfl, ?_⟩
          cases c <;> simp_all [FlushCall.phase, FlushCall.next]
      | failed => exact ⟨rfl, Or.inr (Or.inr ⟨_, rfl⟩)⟩
    · cases he with
      | failed => exact ⟨rfl, Or.inr (Or.inr ⟨_, rfl⟩)⟩
      | opened hdir => exact absurd (h.resolve_left hsync) hdir
    · cases he with
      | failed => exact ⟨rfl, Or.inr (Or.inr ⟨_, rfl⟩)⟩
      | stopped => exact ⟨rfl, Or.inr (Or.inr ⟨_, rfl⟩)⟩

/-! ## Runs of a flush -/

theorem flushRun_append (A : FlushArgs) (src : Bytes) (d : Disk)
    (answers rest : List (Except Errno Nat)) :
    flushRun A src d (answers ++ rest) =
      rest.foldl (flushStep A src) (flushRun A src d answers) :=
  List.foldl_append

theorem copy_completes (A : FlushArgs) (src : Bytes) (pos : Nat) (d : Disk) :
    ∃ (answers : List (Except Errno Nat)) (d' : Disk),
      answers.foldl (flushStep A src) (.read pos, d) = (.call .fsync, d') := by
  induction hk : src.length - pos generalizing pos d with
  | zero =>
      have hnil : kernelRead src pos 0 = [] := (readAt_eq_nil_iff (by omega)).mpr (by omega)
      exact ⟨[.ok 0], d, by simp [flushStep, hnil]⟩
  | succ k ih =>
      obtain ⟨answers, d', hrun⟩ := ih (pos + 1) (d.pwrite A.tmpPath pos (kernelRead src pos 1))
        (by omega)
      have hlen : (kernelRead src pos 1).length = 1 := by
        simp only [kernelRead, readAt, bufSize, List.length_take, List.length_drop]
        omega
      obtain ⟨b, hb⟩ := List.length_eq_one_iff.mp hlen
      refine ⟨.ok 1 :: .ok 1 :: answers, d', ?_⟩
      rw [hb] at hrun
      simpa [flushStep, hb] using hrun

theorem flushRun_opened {A : FlushArgs} {src : Bytes} {d : Disk} {dir : CString}
    (hsync : A.syncDir = some dir) (hdir : d A.tmpPath ≠ some .dir) :
    flushRun A src d (List.replicate 6 (.ok 0)) =
      (.read 0, Function.update d A.tmpPath (some (.file []))) := by
  have hopen : flushStep A src (.openTmp, d) (.ok 0) =
      (.call .copyPathBufs, Function.update d A.tmpPath (some (.file []))) := by
    cases hnode : d A.tmpPath with
    | none => simp [flushStep, hnode]
    | some node =>
        cases node with
        | dir => exact absurd hnode hdir
        | file data => simp [flushStep, hnode]
  simp only [flushRun, flushStart, hsync, List.replicate, List.foldl_cons, List.foldl_nil]
  change flushStep A src
    (flushStep A src (flushStep A src (.openTmp, d) (.ok 0)) (.ok 0)) (.ok 0) = _
  rw [hopen]
  rfl

theorem flushRun_touch {A : FlushArgs} {src : Bytes} {d : Disk} {dir : CString}
    (hsync : A.syncDir = some dir) (hdir : d A.tmpPath ≠ some .dir) :
    ∃ answers d', flushRun A src d answers = (.touch, d') := by
  obtain ⟨answers, d', hrun⟩ :=
    copy_completes A src 0 (Function.update d A.tmpPath (some (.file [])))
  refine ⟨List.replicate 6 (.ok 0) ++ answers ++ List.replicate 4 (.ok 0), d', ?_⟩
  rw [flushRun_append, flushRun_append, flushRun_opened hsync hdir, hrun]
  rfl

/-- The flush has not come to the call that touches the target. -/
def FlushPc.untouched : FlushPc → Bool
  | .call .lookupDentry => false
  | .call .getnames => false
  | .rename => false
  | .done _ => false
  | _ => true

theorem FlushEffect.untouched_before {A : FlushArgs} {src : Bytes} {d d' : Disk} {pc pc' : FlushPc}
    (he : FlushEffect A src d pc pc' d') (h : pc'.untouched = true) :
    pc.untouched = true ∧ pc ≠ .touch := by
  cases he with
  | called =>
      rename_i c
      cases c <;> simp_all [FlushCall.next, FlushPc.untouched]
  | opened hdir => exact ⟨rfl, by simp⟩
  | ended hnil => exact ⟨rfl, by simp⟩
  | didRead hbuf => exact ⟨rfl, by simp⟩
  | wrote => exact ⟨rfl, by simp⟩
  | _ => cases h

/-- Only the touch and the rename reach the target. -/
theorem FlushEffect.only_tmp {A : FlushArgs} {src : Bytes} {d d' : Disk} {pc pc' : FlushPc}
    (he : FlushEffect A src d pc pc' d') (htouch : pc ≠ .touch) (hrename : pc ≠ .rename)
    {p : CString} (hp : p ≠ A.tmpPath) : d' p = d p := by
  cases he with
  | opened hdir => exact Function.update_of_ne hp _ _
  | wroteShort => exact d.pwrite_of_ne hp _ _
  | wrote => exact d.pwrite_of_ne hp _ _
  | touched hnone => exact absurd rfl htouch
  | renamed ht hdir hne => exact absurd rfl hrename
  | _ => rfl

theorem entry_untouched {A : FlushArgs} {src : Bytes} {d : Disk} {p : CString}
    (hp : p ≠ A.tmpPath) (answers : List (Except Errno Nat))
    (hpc : (flushRun A src d answers).1.untouched = true) :
    (flushRun A src d answers).2 p = d p := by
  have hinv := @flushRun_invariant A src d
    (fun pc d' => pc.untouched = true → d' p = d p) (fun _ => rfl) ?_ answers
  · exact hinv hpc
  · intro pc pc' d₁ d₂ h he hpc'
    obtain ⟨hbefore, htouch⟩ := he.untouched_before hpc'
    have hrename : pc ≠ .rename := by
      rintro rfl
      cases hbefore
    exact (he.only_tmp htouch hrename hp).trans (h hbefore)

/-! ## Stages -/

/-- How far a flush has come: before its temporary file is opened, before the target is
touched, and after. -/
inductive FlushStage where
  | opening
  | copying
  | installing
  deriving DecidableEq, Repr

def FlushCall.stage : FlushCall → FlushStage
  | .allocPathBuf => .opening
  | .dPath => .opening
  | .allocPaths => .opening
  | .lookupDentry => .installing
  | .getnames => .installing
  | _ => .copying

def FlushPc.stage : FlushPc → Option FlushStage
  | .call c => some c.stage
  | .openTmp => some .opening
  | .read _ => some .copying
  | .write _ _ => some .copying
  | .touch => some .copying
  | .rename => some .installing
  | .done _ => none

theorem FlushCall.next_stage (c : FlushCall) : c.next.stage = some c.stage := by
  cases c <;> rfl

theorem flushStep_ended (A : FlushArgs) (src : Bytes) {x : FlushPc × Disk} (ans : Except Errno Nat)
    (h : x.1.stage = none) : flushStep A src x ans = x := by
  obtain ⟨pc, d⟩ := x
  cases pc with
  | done r => rfl
  | _ => cases h

end OShm.Ramfs
