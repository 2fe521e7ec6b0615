import OShm.Kernel.KvStore
import OShm.Lib.AtomicObject
import OShm.Lib.LinkedChain

/-! # The key-value calls, access by access

`write_kv` and `read_kv` as the threads of a machine run them: each access to shared memory is
a step of its own and any thread may run between two of them. `spin_lock` waits until the
bucket's lock is free. The chains lie in memory as linked `struct my_data`, and
`hlist_add_head` is its two stores that a walk can see. The call that is one step of the
sequential model is an effect somewhere between its call and its return here.
-/

namespace OShm.Kernel

open OShm.Lib OShm.Lib.ChainedTable

inductive KvCall where
  | write (k v : CInt)
  | read (k : CInt)
  deriving DecidableEq, Repr

def KvCall.key : KvCall → CInt
  | .write k _ => k
  | .read k => k

def KvCall.hash (c : KvCall) : Fin 1024 := kvHash c.key

inductive KvPc where
  | idle
  | lock (c : KvCall)
  /-- `hlist_empty` of `read_kv`. -/
  | empty (k : CInt)
  /-- `hlist_for_each_entry` loads the first pointer. -/
  | head (c : KvCall)
  /-- The loop's test for `NULL` and the comparison of the key. -/
  | test (c : KvCall) (pos : Option Addr)
  | next (c : KvCall) (pos : Addr)
  | found (c : KvCall) (pos : Addr)
  | alloc (k v : CInt)
  | setKey (k v : CInt) (n : Addr)
  | setValue (k v : CInt) (n : Addr)
  /-- `n->next = h->first` of `hlist_add_head`. -/
  | setNext (k v : CInt) (n : Addr)
  /-- `h->first = n` of `hlist_add_head`. -/
  | setFirst (k v : CInt) (n : Addr)
  | unlock (k : CInt) (ret : Int)
  | ret (ret : Int)
  deriving DecidableEq, Repr

/-- The memory the calls share: the `hlist_head`s and the locks of every array, by the address
of the bucket array, and the `struct my_data` objects. -/
structure KvMemory (T : Type) where
  live : List Addr
  first : Addr → Fin 1024 → Option Addr
  data : Addr → Cell CInt CInt
  lock : Addr → Fin 1024 → Option T

namespace KvMemory

variable {T : Type}

def setData (m : KvMemory T) (a : Addr) (c : Cell CInt CInt) : KvMemory T :=
  { m with data := Function.update m.data a c }

def setFirst (m : KvMemory T) (store : Addr) (b : Fin 1024) (p : Option Addr) : KvMemory T :=
  { m with first := Function.update m.first store (Function.update (m.first store) b p) }

def setLock (m : KvMemory T) (store : Addr) (b : Fin 1024) (holder : Option T) : KvMemory T :=
  { m with lock := Function.update m.lock store (Function.update (m.lock store) b holder) }

end KvMemory

/-- The next access of thread `t`, whose `kv_store` is `store`; `mem` is what the allocator
answers if it is asked, an object that is not in use. A thread that spins has no next access. -/
def kvStep {T : Type} (t : T) (store : Addr) (mem : Option Addr) (m : KvMemory T) :
    KvPc → Option (KvMemory T × KvPc)
  | .idle => none
  | .lock c =>
      match m.lock store c.hash with
      | some _ => none
      | none =>
          some (m.setLock store c.hash (some t),
            match c with
            | .write _ _ => .head c
            | .read k => .empty k)
  | .empty k =>
      some (m, match m.first store (kvHash k) with
        | none => .unlock k (-3)
        | some _ => .head (.read k))
  | .head c => some (m, .test c (m.first store c.hash))
  | .test (.write k v) none => some (m, .alloc k v)
  | .test (.read k) none => some (m, .unlock k (-2))
  | .test c (some a) => some (m, if (m.data a).key = c.key then .found c a else .next c a)
  | .next c a => some (m, .test c (m.data a).next)
  | .found (.write k v) a => some (m.setData a { m.data a with value := v }, .unlock k 0)
  | .found (.read k) a => some (m, .unlock k (m.data a).value.toInt)
  | .alloc k v =>
      match mem with
      | none => some (m, .unlock k (-(enomem : Int)))
      | some n => if n ∈ m.live then none else some ({ m with live := n :: m.live }, .setKey k v n)
  | .setKey k v n => some (m.setData n { m.data n with key := k }, .setValue k v n)
  | .setValue k v n => some (m.setData n { m.data n with value := v }, .setNext k v n)
  | .setNext k v n =>
      some (m.setData n { m.data n with next := m.first store (kvHash k) }, .setFirst k v n)
  | .setFirst k _ n => some (m.setFirst store (kvHash k) (some n), .unlock k 0)
  | .unlock k r => some (m.setLock store (kvHash k) none, .ret r)
  | .ret _ => none

structure KvThreads (T : Type) where
  mem : KvMemory T
  pc : T → KvPc

inductive KvAction (T : Type) where
  | call (t : T) (c : KvCall)
  | step (t : T) (mem : Option Addr)
  | ret (t : T)

section Machine

variable {T : Type} [DecidableEq T] (store : T → Addr)

/-- Any thread may make a call, take the next step of its call or return, in any order. -/
def kvThreadsStep (s : KvThreads T) :
    KvAction T → Option (KvThreads T × Option (CallEvent T KvCall Int))
  | .call t c =>
      match s.pc t with
      | .idle => some (⟨s.mem, Function.update s.pc t (.lock c)⟩, some (.call t c))
      | _ => none
  | .step t mem =>
      (kvStep t (store t) mem s.mem (s.pc t)).map fun (m, pc) =>
        (⟨m, Function.update s.pc t pc⟩, none)
  | .ret t =>
      match s.pc t with
      | .ret r => some (⟨s.mem, Function.update s.pc t .idle⟩, some (.ret t r))
      | _ => none

def kvThreads : System (KvThreads T) (KvAction T) (Option (CallEvent T KvCall Int)) where
  step := kvThreadsStep store

/-- The calls as single steps of the sequential model. -/
def kvObject : SeqObject KvHeap T KvCall (Option Addr) Int where
  apply h t
    | .write k v, mem => writeKv h (store t) k v mem
    | .read k, _ => (h, readKv h (store t) k)

end Machine

end OShm.Kernel
