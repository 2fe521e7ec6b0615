import OShm.Kernel.Task

/-! # The paths a flush builds

C strings are lists of bytes without a terminator. `snprintf` cuts what it formats
to a buffer of `PATH_MAX` bytes.
-/

namespace OShm.Ramfs

open OShm.Kernel

abbrev CString := List UInt8

def pathMax : Nat := 4096
def slash : UInt8 := 47
def dot : UInt8 := 46

/-- ASCII text of a format string. -/
def ascii (s : String) : CString := s.toList.map fun c => c.toNat.toUInt8

def formatHex (n : Nat) : CString := (Nat.toDigits 16 n).map fun c => c.toNat.toUInt8

def formatDecimal (n : Nat) : CString := (Nat.toDigits 10 n).map fun c => c.toNat.toUInt8

def snprintf (text : CString) : CString := text.take (pathMax - 1)

def lastComponent (path : CString) : CString := (path.reverse.takeWhile (· ≠ slash)).reverse

/-- What `ramfs_file_flush` reads before it opens a file. -/
structure FlushArgs where
  /-- `fsi->sync_dir`. -/
  syncDir : Option CString
  /-- `d_path` of the file. -/
  path : CString
  /-- `ktime_get_real_seconds`. -/
  sec : Nat
  /-- `ktime_get_ns`. -/
  ns : Nat
  /-- `current->pid`. -/
  pid : Nat
  deriving DecidableEq, Repr

namespace FlushArgs

def filename (A : FlushArgs) : CString := lastComponent A.path

/-- `"%s/.%s.%lx.%lx.%d.tmp"`. -/
def tmpPath (A : FlushArgs) : CString :=
  snprintf (A.syncDir.getD [] ++ [slash, dot] ++ A.filename ++ [dot] ++ formatHex A.sec ++ [dot] ++
    formatHex A.ns ++ [dot] ++ formatDecimal A.pid ++ ascii ".tmp")

/-- `"%s/%s"`. -/
def finalPath (A : FlushArgs) : CString :=
  snprintf (A.syncDir.getD [] ++ [slash] ++ A.filename)

end FlushArgs

end OShm.Ramfs
