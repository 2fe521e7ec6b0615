import Mathlib.Data.List.TakeWhile
import OShm.Lib.CLayout
import OShm.Ramfs.Flush

/-! # `/proc/fs/ramfs/sync`

A path written to this file is opened and flushed. Whether the buffer has a path in it
is kept in a variable that nothing initialises, and the flush takes the private data of
whatever super block the file is on for that of a ramfs.
-/

namespace OShm.Ramfs

open OShm.Kernel OShm.Lib.CLayout

/-! ## Buffers -/

def newline : UInt8 := 10
def carriageReturn : UInt8 := 13
def space : UInt8 := 32
def tab : UInt8 := 9

def isLineEnd (b : UInt8) : Bool := b = newline || b = carriageReturn

def isBlank (b : UInt8) : Bool := isLineEnd b || b = space || b = tab

/-- A buffer read up to its first NUL. -/
def cString (buf : Bytes) : CString := buf.takeWhile (· ≠ 0)

/-- The loop that takes line ends off the end of the buffer. -/
def stripLineEnds (buf : Bytes) : Bytes := (buf.reverse.dropWhile isLineEnd).reverse

theorem isBlank_of_isLineEnd {b : UInt8} (h : isLineEnd b = true) : isBlank b = true := by
  simp [isBlank, h]

theorem stripLineEnds_eq_nil_iff {buf : Bytes} :
    stripLineEnds buf = [] ↔ buf.all isLineEnd = true := by
  simp [stripLineEnds, List.dropWhile_eq_nil_iff]

theorem stripLineEnds_ne_nil {buf : Bytes} (h : buf.all isBlank = false) :
    stripLineEnds buf ≠ [] := by
  intro hnil
  have hends := List.all_eq_true.mp (stripLineEnds_eq_nil_iff.mp hnil)
  have hblank : buf.all isBlank = true :=
    List.all_eq_true.mpr fun b hb => isBlank_of_isLineEnd (hends b hb)
  cases hblank.symm.trans h

/-! ## The private data of a super block -/

def ramfsMagic : Nat := 0x858458f6

structure SuperBlock where
  /-- `s_magic`. -/
  magic : Nat
  /-- `s_fs_info`, `none` for a null pointer. -/
  fsInfo : Option Nat
  deriving DecidableEq, Repr

def modeSize : Nat := 2
def pointerSize : Nat := 8

theorem modeSize_pos : 0 < modeSize := by decide

theorem pointerSize_pos : 0 < pointerSize := by decide

/-- The members of `struct ramfs_fs_info`: the mount options, which are a mode, and the
pointer to the bound string. -/
def fsInfoMembers : List CType :=
  [struct .natural [scalar modeSize modeSize_pos], scalar pointerSize pointerSize_pos]

def syncDirOffset : Nat := 8

theorem syncDirOffset_eq : offsets .natural 0 fsInfoMembers = [0, syncDirOffset] := by decide

/-- The memory that a flush reads through `s_fs_info`. -/
structure KernelMemory where
  /-- The pointer stored at an address. -/
  pointer : Nat → Nat
  /-- The string at an address, `none` when reading it faults. -/
  text : Nat → Option CString

structure OpenFile where
  sb : SuperBlock
  /-- `d_path`. -/
  path : CString
  content : Bytes
  deriving DecidableEq, Repr

/-! ## The handler -/

/-- What the handler and the flush ask the kernel. -/
structure ProcEnv where
  memory : KernelMemory
  /-- Whether `kmalloc` succeeds. -/
  alloc : Bool
  /-- Whether `copy_from_user` succeeds. -/
  copied : Bool
  filpOpen : CString → Except Errno OpenFile
  disk : Disk
  sec : Nat
  ns : Nat
  pid : Nat
  /-- The answers to the calls of the flush. -/
  answers : List (Except Errno Nat)

inductive ProcCall where
  | kmalloc (size : Nat)
  | copyFromUser (count : Nat)
  | filpOpen (path : CString)
  /-- The member `sync_dir` of the structure at an address. -/
  | readSyncDir (fsInfo : Nat)
  | filpClose
  | kfree
  deriving DecidableEq, Repr

structure ProcRun where
  calls : List ProcCall
  /-- The value returned, `none` if the call does not come to that. -/
  ret : Option Int
  disk : Disk

def returnOf : FlushPc → Option Int
  | .done (.ok ()) => some 0
  | .done (.error e) => some (-(e : Int))
  | _ => none

/-- `ramfs_file_flush` of any file. -/
def ramfsFileFlush (E : ProcEnv) (f : OpenFile) : ProcRun :=
  match f.sb.fsInfo with
  | none => ⟨[], some (-(einval : Int)), E.disk⟩
  | some p =>
      let q := E.memory.pointer (p + syncDirOffset)
      if q = 0 then ⟨[.readSyncDir p], some (-(einval : Int)), E.disk⟩
      else
        match E.memory.text q with
        | none => ⟨[.readSyncDir p], none, E.disk⟩
        | some s =>
            let r := flushRun ⟨some s, f.path, E.sec, E.ns, E.pid⟩ f.content E.disk E.answers
            ⟨[.readSyncDir p], returnOf r.1, r.2⟩

/-- The handler from `filp_open` on. -/
def openAndFlush (E : ProcEnv) (count : Nat) (path : CString) : ProcRun :=
  match E.filpOpen path with
  | .error e => ⟨[.filpOpen path, .kfree], some (-(e : Int)), E.disk⟩
  | .ok f =>
      let r := ramfsFileFlush E f
      match r.ret with
      | none => ⟨.filpOpen path :: r.calls, none, r.disk⟩
      | some n =>
          ⟨.filpOpen path :: r.calls ++ [.filpClose, .kfree],
            some (if n = 0 then (count : Int) else n), r.disk⟩

/-- `ramfs_proc_sync_write`; `stack` is what `has_content` holds before the scan. -/
def ramfsProcSyncWrite (E : ProcEnv) (stack : Int) (buf : Bytes) : ProcRun :=
  let count := buf.length
  if E.alloc = false then ⟨[.kmalloc (count + 1)], some (-(enomem : Int)), E.disk⟩
  else
    let got : List ProcCall := [.kmalloc (count + 1), .copyFromUser count]
    if E.copied = false then ⟨got ++ [.kfree], some (-(efault : Int)), E.disk⟩
    else
      let hasContent : Int := if buf.any fun b => !isBlank b then 1 else stack
      if hasContent = 0 then ⟨got ++ [.kfree], some (count : Int), E.disk⟩
      else if stripLineEnds buf = [] then ⟨got ++ [.kfree], some (-(einval : Int)), E.disk⟩
      else
        let r := openAndFlush E count (cString (stripLineEnds buf))
        ⟨got ++ r.calls, r.ret, r.disk⟩

/-! ## Blank buffers -/

def bufferCalls (buf : Bytes) : List ProcCall :=
  [.kmalloc (buf.length + 1), .copyFromUser buf.length]

/-- The handler does not depend on its stack, ignores blank buffers and opens the path in
any other. -/
structure Determined (E : ProcEnv) (buf : Bytes) : Prop where
  stack : ∀ g₁ g₂, ramfsProcSyncWrite E g₁ buf = ramfsProcSyncWrite E g₂ buf
  blank : E.alloc = true → E.copied = true → buf.all isBlank = true →
    ∀ g, ramfsProcSyncWrite E g buf = ⟨bufferCalls buf ++ [.kfree], some buf.length, E.disk⟩
  path : E.alloc = true → E.copied = true → buf.all isBlank = false → ∀ g, ∃ rest,
    (ramfsProcSyncWrite E g buf).calls =
      bufferCalls buf ++ .filpOpen (cString (stripLineEnds buf)) :: rest

theorem openAndFlush_calls (E : ProcEnv) (count : Nat) (path : CString) :
    ∃ rest, (openAndFlush E count path).calls = .filpOpen path :: rest := by
  simp only [openAndFlush]
  split
  · exact ⟨_, rfl⟩
  · split <;> exact ⟨_, rfl⟩

section Buffer

variable {E : ProcEnv} {buf : Bytes}

theorem syncWrite_of_content (halloc : E.alloc = true) (hcopied : E.copied = true)
    (h : buf.all isBlank = false) (g : Int) :
    ramfsProcSyncWrite E g buf =
      let r := openAndFlush E buf.length (cString (stripLineEnds buf))
      ⟨bufferCalls buf ++ r.calls, r.ret, r.disk⟩ := by
  have hany : (buf.any fun b => !isBlank b) = true := by
    rw [List.any_eq_not_all_not]
    simpa using h
  simp only [ramfsProcSyncWrite, halloc, hcopied, hany, stripLineEnds_ne_nil h, bufferCalls]
  rfl

theorem syncWrite_of_blank (halloc : E.alloc = true) (hcopied : E.copied = true)
    (h : buf.all isBlank = true) (g : Int) :
    ramfsProcSyncWrite E g buf =
      if g = 0 then ⟨bufferCalls buf ++ [.kfree], some (buf.length : Int), E.disk⟩
      else if stripLineEnds buf = [] then
        ⟨bufferCalls buf ++ [.kfree], some (-(einval : Int)), E.disk⟩
      else
        let r := openAndFlush E buf.length (cString (stripLineEnds buf))
        ⟨bufferCalls buf ++ r.calls, r.ret, r.disk⟩ := by
  have hany : (buf.any fun b => !isBlank b) = false := by
    rw [List.any_eq_not_all_not]
    simpa using h
  simp only [ramfsProcSyncWrite, halloc, hcopied, hany, bufferCalls]
  rfl

theorem determined_of_failure (h : E.alloc = false ∨ E.copied = false) : Determined E buf := by
  constructor
  · intro g₁ g₂
    rcases h with h | h <;> simp [ramfsProcSyncWrite, h]
  · intro halloc hcopied
    simp [halloc, hcopied] at h
  · intro halloc hcopied
    simp [halloc, hcopied] at h

theorem not_determined_of_blank (halloc : E.alloc = true) (hcopied : E.copied = true)
    (hblank : buf.all isBlank = true) : ¬ Determined E buf := by
  intro h
  have hsame := h.stack 0 1
  rw [syncWrite_of_blank halloc hcopied hblank, syncWrite_of_blank halloc hcopied hblank] at hsame
  rw [if_pos rfl, if_neg (by decide)] at hsame
  split at hsame
  · have hret := congrArg ProcRun.ret hsame
    simp only [Option.some.injEq, einval] at hret
    omega
  · obtain ⟨rest, hrest⟩ := openAndFlush_calls E buf.length (cString (stripLineEnds buf))
    have hcalls := congrArg ProcRun.calls hsame
    simp [bufferCalls, hrest] at hcalls

end Buffer

/-- What the handler does is settled by its arguments exactly when it cannot get the buffer
or the buffer has a byte in it that is not blank. -/
theorem syncWrite_determined_iff (E : ProcEnv) (buf : Bytes) :
    Determined E buf ↔ E.alloc = false ∨ E.copied = false ∨ buf.all isBlank = false := by
  constructor
  · intro h
    by_contra hno
    simp only [not_or, Bool.not_eq_false] at hno
    exact not_determined_of_blank hno.1 hno.2.1 hno.2.2 h
  · intro h
    by_cases hgot : E.alloc = false ∨ E.copied = false
    · exact determined_of_failure hgot
    · simp only [not_or, Bool.not_eq_false] at hgot
      obtain ⟨halloc, hcopied⟩ := hgot
      have hcontent : buf.all isBlank = false := by simpa [halloc, hcopied] using h
      have hrun := syncWrite_of_content halloc hcopied hcontent
      constructor
      · intro g₁ g₂
        rw [hrun, hrun]
      · intro _ _ hblank
        cases hblank.symm.trans hcontent
      · intro _ _ _ g
        obtain ⟨rest, hrest⟩ := openAndFlush_calls E buf.length (cString (stripLineEnds buf))
        refine ⟨rest, ?_⟩
        rw [hrun]
        simp only [hrest]

def emptyEnv : ProcEnv where
  memory := ⟨fun _ => 0, fun _ => none⟩
  alloc := true
  copied := true
  filpOpen _ := .error enoent
  disk _ := none
  sec := 1
  ns := 2
  pid := 3
  answers := []

/-- A single newline is ignored or refused. -/
theorem newline_not_determined : ¬ ∀ E buf, Determined E buf := by
  intro h
  have hsame := congrArg ProcRun.ret ((h emptyEnv [newline]).stack 0 1)
  exact absurd hsame (by decide)

/-! ## Files that are not on a ramfs -/

def openedFile (E : ProcEnv) (stack : Int) (buf : Bytes) : Option OpenFile :=
  if E.alloc = true ∧ E.copied = true ∧ (buf.all isBlank = true → stack ≠ 0) ∧
      stripLineEnds buf ≠ [] then
    (E.filpOpen (cString (stripLineEnds buf))).toOption
  else none

/-- The handler returns an error, has not looked into the private data of the super block
and has changed nothing. -/
structure Untouched (E : ProcEnv) (r : ProcRun) : Prop where
  ret : ∃ e : Nat, 0 < e ∧ r.ret = some (-(e : Int))
  fsInfo : ∀ p, .readSyncDir p ∉ r.calls
  disk : r.disk = E.disk

/-- A file of another file system is left alone. -/
def ConfinedToRamfs (E : ProcEnv) (stack : Int) (buf : Bytes) : Prop :=
  ∀ f, openedFile E stack buf = some f → f.sb.magic ≠ ramfsMagic →
    Untouched E (ramfsProcSyncWrite E stack buf)

theorem syncWrite_of_opened {E : ProcEnv} {stack : Int} {buf : Bytes} {f : OpenFile}
    (h : openedFile E stack buf = some f) :
    E.filpOpen (cString (stripLineEnds buf)) = .ok f ∧
      ramfsProcSyncWrite E stack buf =
        let r := openAndFlush E buf.length (cString (stripLineEnds buf))
        ⟨bufferCalls buf ++ r.calls, r.ret, r.disk⟩ := by
  unfold openedFile at h
  split at h
  · rename_i hreach
    obtain ⟨halloc, hcopied, hstack, hpath⟩ := hreach
    refine ⟨?_, ?_⟩
    · cases hopen : E.filpOpen (cString (stripLineEnds buf)) with
      | error e => simp [hopen, Except.toOption] at h
      | ok g =>
          simp only [hopen, Except.toOption, Option.some.injEq] at h
          rw [h]
    · cases hblank : buf.all isBlank with
      | false => exact syncWrite_of_content halloc hcopied hblank stack
      | true =>
          rw [syncWrite_of_blank halloc hcopied hblank, if_neg (hstack hblank), if_neg hpath]
  · cases h

theorem flush_reads_fsInfo {E : ProcEnv} {f : OpenFile} {p : Nat} (h : f.sb.fsInfo = some p) :
    .readSyncDir p ∈ (ramfsFileFlush E f).calls := by
  simp only [ramfsFileFlush, h]
  split
  · exact List.mem_singleton_self _
  · split <;> exact List.mem_singleton_self _

theorem openAndFlush_reads {E : ProcEnv} {f : OpenFile} {path : CString} {p : Nat}
    (hopen : E.filpOpen path = .ok f) (h : f.sb.fsInfo = some p) (count : Nat) :
    .readSyncDir p ∈ (openAndFlush E count path).calls := by
  have hflush := @flush_reads_fsInfo E f p h
  simp only [openAndFlush, hopen]
  split
  · exact List.mem_cons_of_mem _ hflush
  · exact List.mem_append_left _ (List.mem_cons_of_mem _ hflush)

/-- The handler keeps to ramfs exactly when the other file system has no private data. -/
theorem syncWrite_confined_iff (E : ProcEnv) (stack : Int) (buf : Bytes) :
    ConfinedToRamfs E stack buf ↔
      ∀ f, openedFile E stack buf = some f → f.sb.magic ≠ ramfsMagic → f.sb.fsInfo = none := by
  constructor
  · intro h f hf hmagic
    obtain ⟨hopen, hrun⟩ := syncWrite_of_opened hf
    have huntouched := h f hf hmagic
    rw [hrun] at huntouched
    cases hinfo : f.sb.fsInfo with
    | none => rfl
    | some p =>
        have hread := openAndFlush_reads hopen hinfo buf.length
        exact absurd (List.mem_append_right _ hread) (huntouched.fsInfo p)
  · intro h f hf hmagic
    obtain ⟨hopen, hrun⟩ := syncWrite_of_opened hf
    have hflush : ramfsFileFlush E f = ⟨[], some (-(einval : Int)), E.disk⟩ := by
      simp only [ramfsFileFlush, h f hf hmagic]
    rw [hrun]
    simp only [openAndFlush, hopen, hflush]
    refine ⟨⟨einval, by decide, rfl⟩, ?_, rfl⟩
    intro p
    simp [bufferCalls]

/-- A file on a disk, where the word that a flush takes for `sync_dir` points to a text. -/
def diskEnv : ProcEnv :=
  { emptyEnv with
    memory := ⟨fun _ => 0x2000, fun _ => some (ascii "/p")⟩
    filpOpen := fun _ => .ok ⟨⟨0xEF53, some 0x1000⟩, ascii "/etc/x", [104]⟩
    answers := List.replicate 20 (.ok 1) }

/-- The file is copied to `/p` and the handler returns the count. -/
theorem disk_file_flushed : ¬ ∀ E stack buf, ConfinedToRamfs E stack buf := by
  intro h
  have huntouched := h diskEnv 0 (ascii "/etc/x") _ rfl (by decide)
  have hdisk := congrFun huntouched.disk (ascii "/p/x")
  exact absurd hdisk (by decide)

end OShm.Ramfs
