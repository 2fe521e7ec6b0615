import Mathlib.Data.List.Basic

/-! # Tasks and clone flags

The fields of `struct task_struct` that the extensions of this kernel read or
write, and the `u64` clone flags `copy_process` tests. Kernel functions return an
`int` or a `long`; an error is a negated error number.
-/

namespace OShm.Kernel

abbrev Addr := Nat
abbrev Errno := Nat

/-- A C `int`. -/
abbrev CInt := BitVec 32

def eperm : Errno := 1
def enoent : Errno := 2
def esrch : Errno := 3
def eintr : Errno := 4
def eio : Errno := 5
def ebadf : Errno := 9
def eagain : Errno := 11
def enomem : Errno := 12
def efault : Errno := 14
def eisdir : Errno := 21
def einval : Errno := 22
def enfile : Errno := 23
def emfile : Errno := 24
def enotsock : Errno := 88
def eafnosupport : Errno := 97
def econnaborted : Errno := 103
def erestartnointr : Errno := 513

structure TaskStruct where
  /-- The address of the structure itself. -/
  self : Addr
  pid : Nat
  tgid : Nat
  mm : Option Addr
  kvStore : Option Addr
  kvStoreLock : Option Addr
  maxSocketAllowed : Int
  socketCount : Int
  priorityLevel : Int
  uid : Nat
  euid : Nat
  /-- Still attached to its pid: the task is alive, or dead and not yet reaped. -/
  hashed : Bool
  deriving DecidableEq, Repr

abbrev CloneFlags := BitVec 64

def cloneVm : CloneFlags := 0x100
def cloneFs : CloneFlags := 0x200
def cloneSighand : CloneFlags := 0x800
def clonePidfd : CloneFlags := 0x1000
def cloneParent : CloneFlags := 0x8000
def cloneThread : CloneFlags := 0x10000
def cloneNewns : CloneFlags := 0x20000
def cloneDetached : CloneFlags := 0x400000
def cloneNewuser : CloneFlags := 0x10000000
def cloneNewpid : CloneFlags := 0x20000000

/-- `clone_flags & mask` as a C condition. -/
def CloneFlags.any (flags mask : CloneFlags) : Bool := flags &&& mask != 0

/-- `(clone_flags & mask) == mask`. -/
def CloneFlags.all (flags mask : CloneFlags) : Bool := flags &&& mask == mask

end OShm.Kernel
