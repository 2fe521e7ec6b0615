import OShm.Ramfs.Mount

/-! # Inodes and names of a ramfs

`ramfs_mknod`, `ramfs_mkdir`, `ramfs_create`, `ramfs_symlink` and `ramfs_tmpfile` over
`ramfs_get_inode`. Nothing but the dentries holds the names, so each one is pinned by an extra
reference. What else changes names, `ramfs_dir_inode_operations` takes from the kernel's library.
-/

namespace OShm.Ramfs

open OShm.Kernel OShm.Lib

def enospc : Errno := 28

def sIfmt : Nat := 0o170000
def sIflnk : Nat := 0o120000
def sIfreg : Nat := 0o100000
def sIfdir : Nat := 0o040000

/-- `struct inode`, as far as names depend on it. -/
structure Inode where
  mode : Nat
  /-- `i_nlink`, an `unsigned int`. -/
  nlink : BitVec 32
  /-- `S_DEAD`: a directory that was removed. -/
  dead : Bool
  /-- `I_LINKABLE`: a temporary file that may still get a name. -/
  linkable : Bool
  /-- What `page_symlink` stored. -/
  target : CString
  deriving DecidableEq, Repr

def Inode.isDir (n : Inode) : Bool := n.mode &&& sIfmt == sIfdir

structure Named where
  dir : Nat
  name : CString
  ino : Nat
  deriving DecidableEq, Repr

def Named.key (e : Named) : Nat × CString := (e.dir, e.name)

structure RamTree where
  root : Nat
  inode : Nat → Option Inode
  entries : List Named
  /-- `d_parent` of a directory's dentry, which outlives the name. -/
  parent : Nat → Nat
  /-- No chain of parents is longer. -/
  height : Nat
  /-- The extra reference counts of dentries. -/
  pins : List (Nat × CString)
  /-- A `WARN_ON` about a link count. -/
  warned : Bool

namespace RamTree

/-! ## What the operations call -/

def lookup (s : RamTree) (dir : Nat) (name : CString) : Option Nat :=
  (s.entries.find? fun e => e.key = (dir, name)).map Named.ino

def isDir (s : RamTree) (i : Nat) : Bool := (s.inode i).any Inode.isDir

def setInode (s : RamTree) (i : Nat) (n : Inode) : RamTree :=
  { s with inode := Function.update s.inode i (some n) }

def incNlink (s : RamTree) (i : Nat) : RamTree :=
  match s.inode i with
  | none => { s with warned := true }
  | some n =>
      { s.setInode i { n with nlink := n.nlink + 1 } with
        warned := s.warned || (n.nlink == 0 && !n.linkable) }

def dropNlink (s : RamTree) (i : Nat) : RamTree :=
  match s.inode i with
  | none => { s with warned := true }
  | some n =>
      { s.setInode i { n with nlink := n.nlink - 1 } with warned := s.warned || n.nlink == 0 }

/-- `d_instantiate` of a hashed dentry, and `dget` of it. -/
def addName (s : RamTree) (e : Named) : RamTree :=
  { s with
    entries := e :: s.entries
    pins := e.key :: s.pins
    parent := if s.isDir e.ino then Function.update s.parent e.ino e.dir else s.parent
    height := if s.isDir e.ino then s.height + 1 + s.height else s.height }

/-- `dput` of the pin; the name itself goes with `d_delete`. -/
def removeName (s : RamTree) (e : Named) : RamTree :=
  { s with entries := s.entries.erase e, pins := s.pins.erase e.key }

/-! ## The operations of ramfs -/

/-- `ramfs_get_inode` with the inode that `new_inode` gave. -/
def ramfsGetInode (s : RamTree) (mode : Nat) : Option Nat → Option (RamTree × Nat)
  | none => none
  | some i =>
      -- a new inode has one link; the switch on the type counts "." as a second one
      some (s.setInode i ⟨mode, if mode &&& sIfmt = sIfdir then 2 else 1, false, false, []⟩, i)

def ramfsMknod (s : RamTree) (dir : Nat) (name : CString) (mode : Nat) (mem : Option Nat) :
    RamTree × Except Errno Unit :=
  match s.ramfsGetInode mode mem with
  | none => (s, .error enospc)
  | some (s, i) => (s.addName ⟨dir, name, i⟩, .ok ())

def ramfsMkdir (s : RamTree) (dir : Nat) (name : CString) (mode : Nat) (mem : Option Nat) :
    RamTree × Except Errno Unit :=
  match s.ramfsMknod dir name (mode ||| sIfdir) mem with
  | (s, .ok ()) => (s.incNlink dir, .ok ())
  | (s, .error e) => (s, .error e)

def ramfsCreate (s : RamTree) (dir : Nat) (name : CString) (mode : Nat) (mem : Option Nat) :
    RamTree × Except Errno Unit :=
  s.ramfsMknod dir name (mode ||| sIfreg) mem

/-- `ramfs_symlink`; `page` is what `page_symlink` returns. -/
def ramfsSymlink (s : RamTree) (dir : Nat) (name text : CString) (mem : Option Nat)
    (page : Except Errno Unit) : RamTree × Except Errno Unit :=
  match s.ramfsGetInode (sIflnk ||| 0o777) mem with
  | none => (s, .error enospc)
  | some (s', i) =>
      match page, s'.inode i with
      | .ok (), some n => ((s'.setInode i { n with target := text }).addName ⟨dir, name, i⟩, .ok ())
      -- `iput` of an inode that nothing else refers to
      | .error e, _ => (s, .error e)
      | .ok (), none => (s, .error enospc)

/-- `ramfs_tmpfile`; `d_tmpfile` takes the link of the new inode away. -/
def ramfsTmpfile (s : RamTree) (mode : Nat) (mem : Option Nat) :
    Except Errno (RamTree × Nat) :=
  match s.ramfsGetInode mode mem with
  | none => .error enospc
  | some (s, i) => .ok (s.dropNlink i, i)

/-- `ramfs_fill_super`: the root and nothing in it. -/
def mounted (root mode : Nat) : RamTree where
  root := root
  inode := Function.update (fun _ => none) root
    (some ⟨sIfdir ||| (mode &&& sIallugo), 2, false, false, []⟩)
  entries := []
  parent := fun _ => root
  height := 1
  pins := []
  warned := false

end RamTree

end OShm.Ramfs
