import OShm.Lib.Program
import OShm.Ramfs.Flush
import OShm.Ramfs.Namei

/-! # Binding and flushing over directories

`ramfs_bind` and `ramfs_file_flush` over directories with links and several mounted file systems.
Every path is looked up when it is used, by the process that runs the call. A file is the entry
of a directory.
-/

namespace OShm.Ramfs

open OShm.Kernel OShm.Lib OShm.Lib.ByteFile OShm.Lib.PathWalk

def exdev : Errno := 18
def enotdir : Errno := 20
def enametoolong : Errno := 36

abbrev DirEntry := Entry Dir UInt8 Bytes

def nameMax : Nat := 255

/-- The file system a directory lies on; a ramfs is known by its super block. -/
inductive Fs where
  | disk (sb : Nat)
  | ramfs (sb : Nat)
  deriving DecidableEq, Repr

/-- The directory entries, the number of calls made so far, and the entries that were opened as
temporary files or renamed to. -/
structure Store where
  lookup : Dir → CString → Option DirEntry
  calls : Nat
  touched : List Loc

inductive Request where
  /-- Opening an entry for writing, or making it. -/
  | write (l : Loc)
  | read (l : Loc)
  | lookup (d : Dir)
  | rename (a b : Loc)

/-- What a call does not change, and the answers of the kernel to it. -/
structure World where
  namei : Namei
  fs : Dir → Fs
  /-- `fsi->sync_dir` of a ramfs. -/
  syncDir : Nat → Option CString
  current : Process
  /-- `d_path` of a file, `none` when it does not fit in `PATH_MAX`. -/
  dPath : Loc → Option CString
  dPath_last : ∀ l p, dPath l = some p → lastComponent p = l.2
  /-- The error number of a call that fails for lack of resources, by the number of the call. -/
  fails : Nat → Option Errno
  /-- Permissions, read-only mounts and the like. -/
  refuses : Request → Option Errno
  /-- `ktime_get_real_seconds` and `ktime_get_ns`. -/
  clock : Nat → Nat × Nat
  /-- How many bytes a read returns. -/
  read : Nat → Nat

def World.withFails (W : World) (fails : Nat → Option Errno) : World := { W with fails := fails }

abbrev Act := Prog Store Errno

def Store.tick (st : Store) : Store := { st with calls := st.calls + 1 }

def Store.sights (st : Store) : Sights := fun l =>
  match st.lookup l.1 l.2 with
  | some (.dir d) => some (.dir d)
  | some (.link text) => some (.link text)
  | _ => none

namespace World

variable (W : World)

/-! ## Lookup -/

/-- `kern_path(path, LOOKUP_FOLLOW)` of a directory. -/
def kernPath (st : Store) (path : CString) : Option Dir :=
  W.namei.findDir W.current st.sights path

/-- `kern_path(path, 0)`. -/
def kernPathNoFollow (st : Store) (path : CString) : Option (Dir ⊕ Loc) :=
  W.namei.findNoFollow W.current st.sights path

def base (st : Store) (path : CString) : Option Dir := W.namei.base W.current st.sights path

def locate (st : Store) (path : CString) : Option Loc := W.namei.locate W.current st.sights path

def openTarget (st : Store) (path : CString) : Option Loc :=
  W.namei.openTarget W.current st.sights path

/-! ## Calls -/

/-- A call that can run out of resources; `errno` is what the caller makes of the error. -/
def call (errno : Errno → Errno) : Act Unit := fun st =>
  match W.fails st.calls with
  | some e => some (.error (errno e), st.tick)
  | none => some (.ok (), st.tick)

abbrev alloc : Act Unit := W.call fun _ => enomem

def permit (r : Request) : Act Unit :=
  match W.refuses r with
  | some e => Prog.fail e
  | none => pure ()

end World

namespace Store

def set (st : Store) (l : Loc) (e : Option DirEntry) : Store :=
  { st with lookup := Function.update st.lookup l.1 (Function.update (st.lookup l.1) l.2 e) }

def touch (st : Store) (l : Loc) : Store := { st with touched := l :: st.touched }

def moved (st : Store) (a b : Loc) : Store :=
  if a = b then st else ((st.set b (st.lookup a.1 a.2)).set a none).touch b

def isDir (st : Store) (l : Loc) : Bool :=
  match st.lookup l.1 l.2 with
  | some (.dir _) => true
  | _ => false

def content (st : Store) (l : Loc) : Bytes :=
  match st.lookup l.1 l.2 with
  | some (.file data) => data
  | _ => []

def pwrite (st : Store) (l : Loc) (pos : Nat) (buf : Bytes) : Store :=
  match st.lookup l.1 l.2 with
  | some (.file data) => st.set l (some (.file (writeAt 0 data pos buf)))
  | _ => st

end Store

namespace World

variable (W : World)

/-- `filp_open(path, O_WRONLY | O_CREAT | O_TRUNC, 0644)`. -/
def openTrunc (path : CString) : Act Loc := do
  W.call id
  let st ← Prog.get
  match W.openTarget st path with
  | none => Prog.fail enoent
  | some l =>
      if nameMax < l.2.length then Prog.fail enametoolong
      else if st.isDir l then Prog.fail eisdir
      else do
        W.permit (.write l)
        Prog.update fun st => (st.set l (some (.file []))).touch l
        pure l

/-- `filp_open(path, O_WRONLY | O_CREAT, 0644)` and `filp_close`. -/
def openClose (path : CString) : Act Unit := do
  W.call id
  let st ← Prog.get
  match W.openTarget st path with
  | none => Prog.fail enoent
  | some l =>
      if nameMax < l.2.length then Prog.fail enametoolong
      else if st.isDir l then Prog.fail eisdir
      else do
        W.permit (.write l)
        if st.lookup l.1 l.2 = none then Prog.update fun st => st.set l (some (.file []))
        else pure ()

/-- `kern_path(path, 0)` of the temporary file. -/
def lookupTmp (path : CString) : Act Unit := do
  W.call id
  let st ← Prog.get
  match W.locate st path with
  | none => Prog.fail enoent
  | some l => if st.lookup l.1 l.2 = none then Prog.fail enoent else pure ()

/-- `kern_path(dir_name, 0)`. -/
def lookupDir (path : CString) : Act (Dir ⊕ Loc) := do
  W.call id
  let st ← Prog.get
  match W.kernPathNoFollow st path with
  | none => Prog.fail enoent
  | some x => pure x

def lookupOneLen (dir : Dir ⊕ Loc) : Act Unit := do
  W.call id
  match dir with
  | .inl d => W.permit (.lookup d)
  -- a link has no names in it
  | .inr _ => Prog.fail enotdir

/-- `do_renameat2` of a file without flags, to the entry it returns. -/
def rename (old new : CString) : Act Loc := do
  W.call id
  let st ← Prog.get
  match W.locate st old, W.locate st new with
  | some a, some b =>
      if W.fs a.1 ≠ W.fs b.1 then Prog.fail exdev
      else if st.lookup a.1 a.2 = none then Prog.fail enoent
      else if st.isDir b then Prog.fail eisdir
      else do
        W.permit (.rename a b)
        Prog.update fun st => st.moved a b
        pure b
  | _, _ => Prog.fail enoent

/-! ## `ramfs_bind` -/

/-- `kern_path(path, LOOKUP_FOLLOW)` of a directory or a file. -/
def kernPathAny (st : Store) (path : CString) : Option (Dir ⊕ Loc) :=
  if pathMax ≤ path.length then none
  else
    match W.kernPath st path, W.openTarget st path with
    | some d, _ => some (.inl d)
    | none, some l =>
        match st.lookup l.1 l.2 with
        | some (.file _) => some (.inr l)
        | _ => none
    | none, none => none

def superBlock : Dir ⊕ Loc → Fs
  | .inl d => W.fs d
  | .inr l => W.fs l.1

/-- `ramfs_bind(ramfs_path, sync_dir)` frees the old string and keeps a copy of the new one.
`mem` is whether `kstrdup` succeeds. -/
def ramfsBind (st : Store) (ramfsPath syncDir : CString) (mem : Bool) : World × Except Errno Unit :=
  match W.kernPathAny st syncDir, W.kernPathAny st ramfsPath with
  | none, _ => (W, .error enoent)
  | some _, none => (W, .error enoent)
  | some dir, some mount =>
      match W.superBlock mount, dir with
      | .disk _, _ => (W, .error einval)
      | .ramfs _, .inr _ => (W, .error enotdir)
      | .ramfs sb, .inl _ =>
          if mem then ({ W with syncDir := Function.update W.syncDir sb (some syncDir) }, .ok ())
          else ({ W with syncDir := Function.update W.syncDir sb none }, .error enomem)

/-! ## `ramfs_file_flush` -/

/-- `fsi->sync_dir` of the file system that a directory lies on. -/
def boundTo (d : Dir) : Option CString :=
  match W.fs d with
  | .disk _ => none
  | .ramfs sb => W.syncDir sb

def flushArgs (n : Nat) (s path : CString) : FlushArgs :=
  ⟨some s, path, (W.clock n).1, (W.clock n).2, W.current.pid⟩

structure Io where
  write : Loc → Nat → Bytes → Act Unit
  fsync : Loc → Act Unit

def plainIo : Io where
  write l pos buf := do
    W.call id
    Prog.update fun st => st.pwrite l pos buf
  fsync _ := W.call id

def copyLoop (io : Io) (src dst : Loc) : Nat → Nat → Act Unit
  | 0, _ => Prog.diverge
  | n + 1, pos => do
      W.call id
      let st ← Prog.get
      match kernelRead (st.content src) pos (W.read st.calls) with
      | [] => pure ()
      | b :: buf => do
          io.write dst pos (b :: buf)
          copyLoop io src dst n (pos + (b :: buf).length)

def copyFileContent (io : Io) (n : Nat) (src dst : Loc) : Act Unit := do
  W.alloc
  W.alloc
  W.copyLoop io src dst n 0
  io.fsync dst

/-- What stands before the last slash, or the root. -/
def dirName (path : CString) : CString :=
  match path.reverse.dropWhile (· ≠ slash) with
  | [] => [slash]
  | _ :: rest => rest.reverse

/-- `ramfs_file_flush` up to the copy in the temporary file. At most `n` chunks are copied. -/
def copyToTmp (io : Io) (n : Nat) (file : Loc) : Act FlushArgs :=
  match W.boundTo file.1 with
  | none => Prog.fail einval
  | some s => do
      W.alloc
      match W.dPath file with
      | none => Prog.fail enametoolong
      | some path => do
          W.alloc
          let st ← Prog.get
          let A := W.flushArgs st.calls s path
          let dst ← W.openTrunc A.tmpPath
          W.copyFileContent io n file dst
          pure A

def prepareRename (A : FlushArgs) : Act Unit := do
  W.lookupTmp A.tmpPath
  W.alloc
  let dir ← W.lookupDir (dirName A.finalPath)
  let _ ← (W.openClose A.finalPath).attempt
  W.lookupOneLen dir
  -- the two `getname_kernel`
  W.alloc

def flushPrepare (io : Io) (n : Nat) (file : Loc) : Act FlushArgs := do
  let A ← W.copyToTmp io n file
  W.prepareRename A
  pure A

/-- `ramfs_file_flush`, to the entry it renames to. -/
def flushBody (io : Io) (n : Nat) (file : Loc) : Act Loc := do
  let A ← W.flushPrepare io n file
  W.rename A.tmpPath A.finalPath

/-! ## The file operations of ramfs -/

def reopen (file : Loc) : Act Unit := do
  W.alloc
  match W.dPath file with
  | none => Prog.fail enametoolong
  | some _ => do
      W.call id
      W.permit (.read file)

def ramfsFsync (flush : Loc → Act Loc) (file : Loc) : Act Unit := do
  W.reopen file
  let _ ← flush file
  pure ()

def syncAfterWrite (flush : Loc → Act Loc) (file : Loc) (readable : Bool) : Act Unit :=
  match W.boundTo file.1 with
  | none => pure ()
  | some _ =>
      if readable then do
        let _ ← flush file
        pure ()
      else do
        W.reopen file
        let _ ← flush file
        pure ()

/-- `ramfs_file_write_iter` of `buf`; `readable` is `FMODE_READ`. An error of the flush is only
printed. -/
def writeIter (flush : Loc → Act Loc) (file : Loc) (readable : Bool) (pos : Nat) (buf : Bytes) :
    Act Unit := do
  W.call id
  Prog.update fun st => st.pwrite file pos buf
  if buf = [] then pure ()
  else do
    let _ ← (W.syncAfterWrite flush file readable).attempt
    pure ()

def fileIo (flush : Loc → Act Loc) : Io where
  write l pos buf :=
    match W.fs l.1 with
    | .disk _ => W.plainIo.write l pos buf
    | .ramfs _ => W.writeIter flush l false pos buf
  fsync l :=
    match W.fs l.1 with
    | .disk _ => W.plainIo.fsync l
    | .ramfs _ => W.ramfsFsync flush l

/-- `ramfs_file_flush` with the flushes it causes, nested at most as deep as the fuel. -/
def flush : Nat → Loc → Act Loc
  | 0, _ => Prog.diverge
  | n + 1, file => W.flushBody (W.fileIo (flush n)) n file

end World

end OShm.Ramfs
