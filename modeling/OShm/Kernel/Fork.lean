import OShm.Kernel.KvStore

/-! # `copy_process` and the release of a task

The fallible stages of `copy_process` are listed in source order; an outcome says
which of them fail and what the allocators answer. The child starts as a copy of
the parent and gets its own fields one block after the other, so until the
key-value block it still aliases the parent's arrays.
-/

namespace OShm.Kernel

/-- The arguments of `copy_process` and what it reads of `current`. -/
structure CloneArgs where
  flags : CloneFlags
  /-- The caller passed `&init_struct_pid`, as `fork_idle` does. -/
  initStructPid : Bool
  /-- `current->signal->flags & SIGNAL_UNKILLABLE`. -/
  signalUnkillable : Bool
  /-- `task_active_pid_ns(current) != nsp->pid_ns_for_children`. -/
  pidNsDiffers : Bool
  /-- `nsp->time_ns != nsp->time_ns_for_children`. -/
  timeNsDiffers : Bool
  deriving DecidableEq, Repr

inductive ForkStage where
  | taskSigpending
  | dupTaskStruct
  | copyCreds
  | rlimitNproc
  | maxThreads
  | mpolDup
  | schedFork
  | perfEventInitTask
  | auditAlloc
  | securityTaskAlloc
  | copySemundo
  | copyFiles
  | copyFs
  | copySighand
  | copySignal
  | copyMm
  | copyNamespaces
  | copyIo
  | copyThread
  | allocPid
  | pidfdUnusedFd
  | pidfdGetfile
  | pidfdPutUser
  | cgroupCanFork
  | pidNsDying
  | fatalSignal
  deriving DecidableEq, Repr

structure ForkOutcome where
  /-- The error number a stage reports, `none` when it succeeds. -/
  fails : ForkStage → Option Errno
  /-- The structure `dup_task_struct` allocates. -/
  task : Addr
  /-- The `mm_struct` that `dup_mm` allocates. -/
  mm : Addr
  /-- The number `alloc_pid` hands out. -/
  pid : Nat
  kvStore : Option Addr
  kvStoreLock : Option Addr

def ForkStage.errno : ForkStage → Errno → Errno
  | .taskSigpending, _ => erestartnointr
  | .dupTaskStruct, _ => enomem
  | .rlimitNproc, _ => eagain
  | .maxThreads, _ => eagain
  | .pidNsDying, _ => enomem
  | .fatalSignal, _ => eintr
  | _, e => e

/-- The flag checks before anything is allocated. -/
def cloneFlagsRefused (args : CloneArgs) : Bool :=
  args.flags.all (cloneNewns ||| cloneFs) ||
  args.flags.all (cloneNewuser ||| cloneFs) ||
  (args.flags.any cloneThread && !args.flags.any cloneSighand) ||
  (args.flags.any cloneSighand && !args.flags.any cloneVm) ||
  (args.flags.any cloneParent && args.signalUnkillable) ||
  (args.flags.any cloneThread &&
    (args.flags.any (cloneNewuser ||| cloneNewpid) || args.pidNsDiffers)) ||
  (args.flags.any (cloneThread ||| cloneVm) && args.timeNsDiffers) ||
  (args.flags.any clonePidfd && args.flags.any (cloneDetached ||| cloneThread))

def stagesBeforeKv (args : CloneArgs) : List ForkStage :=
  [.taskSigpending, .dupTaskStruct, .copyCreds, .rlimitNproc, .maxThreads, .mpolDup, .schedFork,
    .perfEventInitTask, .auditAlloc, .securityTaskAlloc, .copySemundo, .copyFiles, .copyFs,
    .copySighand, .copySignal, .copyMm, .copyNamespaces, .copyIo, .copyThread] ++
  (if args.initStructPid then [] else [.allocPid]) ++
  (if args.flags.any clonePidfd then [.pidfdUnusedFd, .pidfdGetfile, .pidfdPutUser] else [])

def stagesAfterKv : List ForkStage := [.cgroupCanFork, .pidNsDying, .fatalSignal]

def ForkOutcome.firstFailure (o : ForkOutcome) : List ForkStage → Option Errno
  | [] => none
  | stage :: rest =>
      match o.fails stage with
      | some e => some (stage.errno e)
      | none => o.firstFailure rest

/-- `copy_mm`: a task without an `mm` keeps none, `CLONE_VM` shares the caller's. -/
def copyMm (cur : TaskStruct) (flags : CloneFlags) (o : ForkOutcome) : Option Addr :=
  match cur.mm with
  | none => none
  | some oldmm => if flags.any cloneVm then some oldmm else some o.mm

/-- The child when the key-value block is reached: `dup_task_struct` copied the
parent, the socket attributes are reset, `mm`, `pid` and `tgid` are set. -/
def forkChild (cur : TaskStruct) (args : CloneArgs) (o : ForkOutcome) : TaskStruct :=
  let pid := if args.initStructPid then 0 else o.pid
  { cur with
    self := o.task
    maxSocketAllowed := 0
    socketCount := 0
    priorityLevel := 0
    mm := copyMm cur args.flags o
    pid := pid
    tgid := if args.flags.any cloneThread then cur.tgid else pid
    hashed := true }

def finishFork (h : KvHeap) (p : TaskStruct) (o : ForkOutcome) :
    KvHeap × Except Errno TaskStruct :=
  match o.firstFailure stagesAfterKv with
  | some e => (h, .error e)
  | none => (h, .ok p)

def copyProcess (h : KvHeap) (cur : TaskStruct) (args : CloneArgs) (o : ForkOutcome) :
    KvHeap × Except Errno TaskStruct :=
  if cloneFlagsRefused args then (h, .error einval)
  else
    match o.firstFailure (stagesBeforeKv args) with
    | some e => (h, .error e)
    | none =>
        let p := forkChild cur args o
        if args.flags.any cloneThread then
          finishFork h { p with kvStore := cur.kvStore, kvStoreLock := cur.kvStoreLock } o
        else
          let (h, store) := h.kmalloc .bucketArray o.kvStore
          let (h, lock) := h.kmalloc .lockArray o.kvStoreLock
          match store, lock with
          | some a, some b =>
              finishFork (h.initHlistHeads a) { p with kvStore := some a, kvStoreLock := some b } o
          | _, _ => (h, .error enomem)

/-- `release_task` detaches the pid of a dead task; the structure stays until the
last reference to it is dropped. -/
def releaseTask (tasks : List TaskStruct) (tsk : Addr) : List TaskStruct :=
  tasks.map fun t => if t.self = tsk then { t with hashed := false } else t

/-- `__put_task_struct` ends in `free_task`, which frees the stack and the task
structure. None of the functions it calls looks at `kv_store`. -/
def putTaskStruct (tasks : List TaskStruct) (tsk : Addr) : List TaskStruct :=
  tasks.filter fun t => t.self ≠ tsk

/-! ## The effects of a call -/

def KvHeap.withArrays (h : KvHeap) (store lock : Option Addr) : KvHeap :=
  ((h.kmalloc .bucketArray store).1.kmalloc .lockArray lock).1

def reachesKvBlock (args : CloneArgs) (o : ForkOutcome) : Prop :=
  cloneFlagsRefused args = false ∧ o.firstFailure (stagesBeforeKv args) = none

/-- Everything `copy_process` can do to the key-value store: nothing, with an
error; leave what it allocated, with an error; return a thread that shares the
arrays; return a process with empty arrays of its own. -/
inductive ForkEffect (h : KvHeap) (cur : TaskStruct) (args : CloneArgs) (o : ForkOutcome) :
    KvHeap → Except Errno TaskStruct → Prop where
  | refused (e : Errno) (hkv : ¬ reachesKvBlock args o ∨ args.flags.any cloneThread = true) :
      ForkEffect h cur args o h (.error e)
  | oneArray (hkv : reachesKvBlock args o) (hno : args.flags.any cloneThread = false)
      (hnull : o.kvStore = none ∨ o.kvStoreLock = none) :
      ForkEffect h cur args o (h.withArrays o.kvStore o.kvStoreLock) (.error enomem)
  | abandoned (e : Errno) (a b : Addr) (hkv : reachesKvBlock args o)
      (hno : args.flags.any cloneThread = false) (ha : o.kvStore = some a)
      (hb : o.kvStoreLock = some b) (hlate : o.firstFailure stagesAfterKv = some e) :
      ForkEffect h cur args o ((h.withArrays (some a) (some b)).initHlistHeads a) (.error e)
  | thread (hyes : args.flags.any cloneThread = true) :
      ForkEffect h cur args o h
        (.ok { forkChild cur args o with kvStore := cur.kvStore, kvStoreLock := cur.kvStoreLock })
  | process (a b : Addr) (hno : args.flags.any cloneThread = false)
      (ha : o.kvStore = some a) (hb : o.kvStoreLock = some b)
      (hlate : o.firstFailure stagesAfterKv = none) :
      ForkEffect h cur args o ((h.withArrays (some a) (some b)).initHlistHeads a)
        (.ok { forkChild cur args o with kvStore := some a, kvStoreLock := some b })

theorem copyProcess_effect (h : KvHeap) (cur : TaskStruct) (args : CloneArgs) (o : ForkOutcome) :
    ForkEffect h cur args o (copyProcess h cur args o).1 (copyProcess h cur args o).2 := by
  unfold copyProcess
  by_cases hf : cloneFlagsRefused args
  · rw [if_pos hf]
    exact .refused einval (Or.inl fun h => absurd hf (by simp [h.1]))
  rw [if_neg hf]
  cases hb : o.firstFailure (stagesBeforeKv args) with
  | some e => exact .refused e (Or.inl fun h => by cases hb.symm.trans h.2)
  | none =>
      have hkv : reachesKvBlock args o := ⟨by simpa using hf, hb⟩
      cases ht : args.flags.any cloneThread with
      | true =>
          simp only [if_true, finishFork]
          cases o.firstFailure stagesAfterKv with
          | some e => exact .refused e (Or.inr ht)
          | none => exact .thread ht
      | false =>
          cases hs : o.kvStore with
          | none =>
              simpa [KvHeap.kmalloc, KvHeap.withArrays, hs] using
                @ForkEffect.oneArray h cur args o hkv ht (Or.inl hs)
          | some a =>
              cases hl : o.kvStoreLock with
              | none =>
                  simpa [KvHeap.kmalloc, KvHeap.withArrays, hs, hl] using
                    @ForkEffect.oneArray h cur args o hkv ht (Or.inr hl)
              | some b =>
                  simp only [KvHeap.kmalloc, Bool.false_eq_true, if_false, finishFork]
                  cases hlate : o.firstFailure stagesAfterKv with
                  | some e => exact .abandoned e a b hkv ht hs hl hlate
                  | none => exact .process a b ht hs hl hlate

theorem ForkEffect.child {h h' : KvHeap} {cur p : TaskStruct} {args : CloneArgs} {o : ForkOutcome}
    (he : ForkEffect h cur args o h' (.ok p)) :
    p.self = o.task ∧ p.mm = copyMm cur args.flags o ∧ p.hashed = true := by
  cases he <;> exact ⟨rfl, rfl, rfl⟩

/-- The objects of `h` are still allocated and its bucket arrays hold the same chains. -/
structure KvHeap.Extends (h h' : KvHeap) : Prop where
  live : ∀ x ∈ h.live, x ∈ h'.live
  table : ∀ a ∈ h.addrs, h'.table a = h.table a

theorem KvHeap.Extends.refl (h : KvHeap) : h.Extends h := ⟨fun _ hx => hx, fun _ _ => rfl⟩

theorem KvHeap.mem_withArrays (h : KvHeap) (store lock : Option Addr) (x : KvKind × Addr) :
    x ∈ (h.withArrays store lock).live ↔
      (x.1 = .bucketArray ∧ store = some x.2) ∨ (x.1 = .lockArray ∧ lock = some x.2) ∨
        x ∈ h.live := by
  obtain ⟨kind, a⟩ := x
  cases store <;> cases lock <;>
    simp only [KvHeap.withArrays, KvHeap.kmalloc, List.mem_cons, Prod.mk.injEq, Option.some.injEq,
      reduceCtorEq, and_false, false_or] <;>
    grind

theorem KvHeap.withArrays_table (h : KvHeap) (store lock : Option Addr) :
    (h.withArrays store lock).table = h.table := by
  cases store <;> cases lock <;> rfl

/-- No call frees an array or changes the chains of one it did not allocate. -/
theorem ForkEffect.extends {h h' : KvHeap} {cur : TaskStruct} {args : CloneArgs}
    {o : ForkOutcome} {r : Except Errno TaskStruct} (he : ForkEffect h cur args o h' r)
    (hfresh : ∀ a ∈ o.kvStore, a ∉ h.addrs) : h.Extends h' := by
  have init : ∀ a b, o.kvStore = some a →
      h.Extends ((h.withArrays (some a) (some b)).initHlistHeads a) := by
    intro a b ha
    refine ⟨fun x hx => (h.mem_withArrays _ _ x).mpr (Or.inr (Or.inr hx)), ?_⟩
    intro c hc
    have hne : c ≠ a := by
      rintro rfl
      exact hfresh c ha hc
    simp [KvHeap.initHlistHeads, hne, h.withArrays_table]
  cases he with
  | refused e _ => exact .refl h
  | oneArray _ _ _ =>
      refine ⟨fun x hx => (h.mem_withArrays _ _ x).mpr (Or.inr (Or.inr hx)), ?_⟩
      intro c _
      rw [h.withArrays_table]
  | abandoned e a b _ _ ha _ _ => exact init a b ha
  | thread _ => exact .refl h
  | process a b _ ha _ _ => exact init a b ha

end OShm.Kernel
