import OShm.Lib.Ledger
import OShm.Kernel.Fork

/-! # What a failed `copy_process` leaves behind

`copy_process` takes one resource after the other. A stage that fails jumps to a label, and
from there every label of the rest of the function gives back what one stage took. The
key-value block stands in the middle: it returns without a jump when an array cannot be
allocated, and no label frees the arrays. Locks that are taken and dropped between two
fallible stages are not resources here.
-/

namespace OShm.Kernel

open OShm.Lib.Ledger

def cloneIo : CloneFlags := 0x80000000

/-- What `copy_process` takes, the arrays of the key-value store apart. A reference to a shared
object and an object of the child's own are the same resource. -/
inductive ForkResource where
  | delayedNode
  | taskStruct
  | taskStack
  | shadowCallStack
  | userCpus
  | creds
  | nprocCount
  | delayacct
  | mempolicy
  | perfEvents
  | auditContext
  | security
  | semundo
  | files
  | fs
  | sighand
  | signal
  | mm
  | pgd
  | mmContext
  | mmUserNs
  | binfmtModule
  | namespaces
  | ioContext
  | thread
  | pid
  | unusedFd
  | pidfile
  | cgroup
  | tasklistLock
  | schedCore
  | siglock
  deriving DecidableEq, Repr

inductive DupTaskStage where
  | allocTaskStruct
  | allocThreadStack
  | memcgCharge
  | archDupTaskStruct
  | scsPrepare
  deriving DecidableEq, Repr

/-- The stages of `dup_mm` that can fail; the second and third are those of `mm_init`. -/
inductive DupMmStage where
  | allocateMm
  | mmAllocPgd
  | initNewContext
  | dupMmap
  | tryModuleGet
  deriving DecidableEq, Repr

/-- What else decides which resources a call takes. -/
structure ForkContext where
  /-- `current->files != NULL`. -/
  files : Bool
  /-- `current->io_context != NULL`. -/
  ioContext : Bool
  /-- `ioprio_valid(current->io_context->ioprio)`. -/
  ioprioValid : Bool
  /-- `current->mm->binfmt != NULL`. -/
  binfmt : Bool
  /-- Whether a function outside `fork.c` takes something for the child. Its counterpart in
  the label chain gives back exactly that. -/
  foreign : ForkResource → Bool
  /-- Where `dup_task_struct` fails if it does. -/
  dupTaskStructAt : DupTaskStage
  /-- Where `dup_mm` fails if it does. -/
  dupMmAt : DupMmStage

/-- `p->io_context` after `copy_io`: linked to the parent's, or one of its own to hold a valid
priority. -/
def copyIo (flags : CloneFlags) (x : ForkContext) : Bool :=
  x.ioContext && (flags.any cloneIo || x.ioprioValid)

/-- The resources a call takes if it gets that far. Where the release stands under a condition,
the condition reads the same flag or pointer. -/
def ForkResource.taken (cur : TaskStruct) (args : CloneArgs) (o : ForkOutcome) (x : ForkContext) :
    ForkResource → Bool
  | .delayedNode | .signal => !args.flags.any cloneThread
  | .taskStruct | .taskStack | .creds | .nprocCount | .fs | .sighand => true
  | .files => x.files
  | .mm => (copyMm cur args.flags o).isSome
  | .pgd | .mmContext | .mmUserNs => cur.mm.isSome && !args.flags.any cloneVm
  | .binfmtModule => cur.mm.isSome && !args.flags.any cloneVm && x.binfmt
  | .ioContext => copyIo args.flags x
  | .pid => !args.initStructPid
  | .unusedFd | .pidfile => args.flags.any clonePidfd
  | .tasklistLock | .siglock => true
  | r => x.foreign r

/-! ## `dup_task_struct` and `dup_mm` -/

def dupTaskStages : List DupTaskStage :=
  [.allocTaskStruct, .allocThreadStack, .memcgCharge, .archDupTaskStruct, .scsPrepare]

def dupTaskSetup : Setup DupTaskStage ForkResource where
  takes
    | .allocTaskStruct => [.taskStruct]
    | .allocThreadStack => [.taskStack]
    | .memcgCharge | .archDupTaskStruct => []
    | .scsPrepare => [.shadowCallStack]
  attempt _ := []
  undoes
    | .allocTaskStruct => []
    -- `free_tsk`
    | .allocThreadStack => [.taskStruct]
    -- `free_stack`
    | _ => [.taskStack, .taskStruct]

def dupMmStages : List DupMmStage :=
  [.allocateMm, .mmAllocPgd, .initNewContext, .dupMmap, .tryModuleGet]

def dupMmSetup : Setup DupMmStage ForkResource where
  takes
    | .allocateMm => [.mm]
    | .mmAllocPgd => [.pgd]
    | .initNewContext => [.mmContext, .mmUserNs]
    | .dupMmap => []
    | .tryModuleGet => [.binfmtModule]
  attempt _ := []
  undoes
    | .allocateMm => []
    -- `fail_nopgd` and `fail_nocontext` of `mm_init`
    | .mmAllocPgd => [.mm]
    | .initNewContext => [.pgd, .mm]
    -- `free_pt`: `binfmt` is cleared and `mmput` drops the only reference
    | _ => [.pgd, .mmContext, .mmUserNs, .mm]

/-! ## The label chain of `copy_process` -/

inductive ForkLabel where
  | badForkCancelCgroup
  | badForkPutPidfd
  | badForkFreePid
  | badForkCleanupThread
  | badForkCleanupIo
  | badForkCleanupNamespaces
  | badForkCleanupMm
  | badForkCleanupSignal
  | badForkCleanupSighand
  | badForkCleanupFs
  | badForkCleanupFiles
  | badForkCleanupSemundo
  | badForkCleanupSecurity
  | badForkCleanupAudit
  | badForkCleanupPerf
  | badForkCleanupPolicy
  | badForkCleanupThreadgroupLock
  | badForkCleanupCount
  | badForkFree
  | forkOut
  deriving DecidableEq, Repr

def forkLabels : List ForkLabel :=
  [.badForkCancelCgroup, .badForkPutPidfd, .badForkFreePid, .badForkCleanupThread,
    .badForkCleanupIo, .badForkCleanupNamespaces, .badForkCleanupMm, .badForkCleanupSignal,
    .badForkCleanupSighand, .badForkCleanupFs, .badForkCleanupFiles, .badForkCleanupSemundo,
    .badForkCleanupSecurity, .badForkCleanupAudit, .badForkCleanupPerf, .badForkCleanupPolicy,
    .badForkCleanupThreadgroupLock, .badForkCleanupCount, .badForkFree, .forkOut]

/-- What the statements between a label and the next one give back. -/
def ForkLabel.releases : ForkLabel → List ForkResource
  | .badForkCancelCgroup => [.schedCore, .siglock, .tasklistLock, .cgroup]
  | .badForkPutPidfd => [.pidfile, .unusedFd]
  | .badForkFreePid => [.pid]
  | .badForkCleanupThread => [.thread]
  | .badForkCleanupIo => [.ioContext]
  | .badForkCleanupNamespaces => [.namespaces]
  -- `mmput` also ends what only a new `mm` holds
  | .badForkCleanupMm => [.binfmtModule, .pgd, .mmContext, .mmUserNs, .mm]
  | .badForkCleanupSignal => [.signal]
  | .badForkCleanupSighand => [.sighand]
  | .badForkCleanupFs => [.fs]
  | .badForkCleanupFiles => [.files]
  | .badForkCleanupSemundo => [.semundo]
  | .badForkCleanupSecurity => [.security]
  | .badForkCleanupAudit => [.auditContext]
  | .badForkCleanupPerf => [.perfEvents]
  | .badForkCleanupPolicy => [.mempolicy]
  | .badForkCleanupThreadgroupLock => [.delayacct]
  | .badForkCleanupCount => [.nprocCount, .creds]
  -- `put_task_stack`, then `free_task`
  | .badForkFree => [.taskStack, .userCpus, .shadowCallStack, .taskStruct]
  | .forkOut => [.delayedNode]

/-- Each label falls through to the next one. -/
def ForkLabel.unwind (l : ForkLabel) : List ForkResource :=
  (forkLabels.dropWhile fun k => decide (k ≠ l)).flatMap ForkLabel.releases

def ForkStage.goto : ForkStage → ForkLabel
  | .taskSigpending | .dupTaskStruct => .forkOut
  | .copyCreds => .badForkFree
  | .rlimitNproc | .maxThreads => .badForkCleanupCount
  | .mpolDup => .badForkCleanupThreadgroupLock
  | .schedFork | .perfEventInitTask => .badForkCleanupPolicy
  | .auditAlloc => .badForkCleanupPerf
  | .securityTaskAlloc => .badForkCleanupAudit
  | .copySemundo => .badForkCleanupSecurity
  | .copyFiles => .badForkCleanupSemundo
  | .copyFs => .badForkCleanupFiles
  | .copySighand => .badForkCleanupFs
  | .copySignal => .badForkCleanupSighand
  | .copyMm => .badForkCleanupSignal
  | .copyNamespaces => .badForkCleanupMm
  | .copyIo => .badForkCleanupNamespaces
  | .copyThread => .badForkCleanupIo
  | .allocPid => .badForkCleanupThread
  | .pidfdUnusedFd | .pidfdGetfile => .badForkFreePid
  | .pidfdPutUser | .cgroupCanFork => .badForkPutPidfd
  | .pidNsDying | .fatalSignal => .badForkCancelCgroup

/-- What is taken between a stage that succeeds and the next one. -/
def ForkStage.takes : ForkStage → List ForkResource
  | .dupTaskStruct => [.taskStruct, .taskStack, .shadowCallStack, .userCpus]
  | .copyCreds => [.creds, .nprocCount]
  -- `delayacct_tsk_init` follows the test and cannot fail
  | .maxThreads => [.delayacct]
  | .mpolDup => [.mempolicy]
  | .perfEventInitTask => [.perfEvents]
  | .auditAlloc => [.auditContext]
  | .securityTaskAlloc => [.security]
  | .copySemundo => [.semundo]
  | .copyFiles => [.files]
  | .copyFs => [.fs]
  | .copySighand => [.sighand]
  | .copySignal => [.signal]
  | .copyMm => [.mm, .pgd, .mmContext, .mmUserNs, .binfmtModule]
  | .copyNamespaces => [.namespaces]
  | .copyIo => [.ioContext]
  | .copyThread => [.thread]
  | .allocPid => [.pid]
  | .pidfdUnusedFd => [.unusedFd]
  -- the file holds the reference of `get_pid`
  | .pidfdGetfile => [.pidfile]
  | .cgroupCanFork => [.cgroup, .tasklistLock, .schedCore, .siglock]
  | .taskSigpending | .rlimitNproc | .schedFork | .pidfdPutUser | .pidNsDying | .fatalSignal => []

/-- What a failing stage gives back. One of them returns the descriptor before it jumps. -/
def ForkStage.undoes : ForkStage → List ForkResource
  | .pidfdGetfile => .unusedFd :: ForkStage.pidfdGetfile.goto.unwind
  | s => s.goto.unwind

section Call

variable (cur : TaskStruct) (args : CloneArgs) (o : ForkOutcome) (x : ForkContext)

def forkSetup : Setup ForkStage ForkResource where
  takes := ForkStage.takes
  attempt
    | .dupTaskStruct =>
        dupTaskSetup.walk (ForkResource.taken cur args o x)
          (fun s => decide (s = x.dupTaskStructAt)) [] dupTaskStages
    | .copyMm =>
        dupMmSetup.walk (ForkResource.taken cur args o x) (fun s => decide (s = x.dupMmAt))
          [] dupMmStages
    | _ => []
  undoes := ForkStage.undoes

def acquireAll (rs : List ForkResource) : List (Event ForkResource) :=
  (rs.filter (ForkResource.taken cur args o x)).map .acquire

def releaseAll (rs : List ForkResource) : List (Event ForkResource) :=
  (rs.filter (ForkResource.taken cur args o x)).map .release

def runStages (after : List (Event ForkResource)) (stages : List ForkStage) :
    List (Event ForkResource) :=
  (forkSetup cur args o x).walk (ForkResource.taken cur args o x) (fun s => (o.fails s).isSome)
    after stages

/-- The stages after the key-value block. A call that succeeds drops the locks and the node and
leaves everything else to the child. -/
def finishForkLedger : List (Event ForkResource) :=
  runStages cur args o x
    (releaseAll cur args o x [.delayedNode, .siglock, .tasklistLock, .cgroup]) stagesAfterKv

/-- The key-value block returns without a jump when an allocation fails. -/
def kvBlockLedger : List (Event ForkResource) :=
  if args.flags.any cloneThread then finishForkLedger cur args o x
  else
    match o.kvStore, o.kvStoreLock with
    | some _, some _ => finishForkLedger cur args o x
    | _, _ => []

def copyProcessLedger : List (Event ForkResource) :=
  if cloneFlagsRefused args then []
  else
    acquireAll cur args o x [.delayedNode] ++
      runStages cur args o x (kvBlockLedger cur args o x) (stagesBeforeKv args)

/-- Nothing is left of a failed call: what it took was given back once, none of its arrays is
still allocated, and the arrays from before the call are as they were. -/
structure LeavesNothing (h : KvHeap) : Prop where
  settled : Settled (copyProcessLedger cur args o x)
  noArray : ∀ y ∈ (copyProcess h cur args o).1.live, y ∈ h.live
  untouched : h.Extends (copyProcess h cur args o).1

end Call

/-! ## The chain undoes what the stages took -/

section Chain

variable {cur : TaskStruct} {args : CloneArgs} {o : ForkOutcome} {x : ForkContext}

def forkStages : List ForkStage :=
  [.taskSigpending, .dupTaskStruct, .copyCreds, .rlimitNproc, .maxThreads, .mpolDup, .schedFork,
    .perfEventInitTask, .auditAlloc, .securityTaskAlloc, .copySemundo, .copyFiles, .copyFs,
    .copySighand, .copySignal, .copyMm, .copyNamespaces, .copyIo, .copyThread, .allocPid,
    .pidfdUnusedFd, .pidfdGetfile, .pidfdPutUser, .cgroupCanFork, .pidNsDying, .fatalSignal]

def ForkStage.present (args : CloneArgs) : ForkStage → Bool
  | .allocPid => !args.initStructPid
  | .pidfdUnusedFd | .pidfdGetfile | .pidfdPutUser => args.flags.any clonePidfd
  | _ => true

theorem forkStages_filter_present (args : CloneArgs) :
    forkStages.filter (ForkStage.present args) = stagesBeforeKv args ++ stagesAfterKv := by
  unfold stagesBeforeKv
  cases hp : args.initStructPid <;> cases hf : args.flags.any clonePidfd <;>
    simp [forkStages, List.filter, ForkStage.present, stagesAfterKv, hp, hf]

theorem forkSetup_local (s : ForkStage) : (forkSetup cur args o x).Local s := by
  cases s with
  | dupTaskStruct =>
      have hown : ∀ a ∈ dupTaskStages, ∀ r ∈ dupTaskSetup.takes a ++ dupTaskSetup.undoes a,
          r ∈ ForkStage.dupTaskStruct.takes := by decide
      apply Setup.local_of_nested rfl (fun _ => rfl) _ (by decide) (by decide) hown
      cases x.dupTaskStructAt <;> decide
  | copyMm =>
      have hown : ∀ a ∈ dupMmStages, ∀ r ∈ dupMmSetup.takes a ++ dupMmSetup.undoes a,
          r ∈ ForkStage.copyMm.takes := by decide
      apply Setup.local_of_nested rfl (fun _ => rfl) _ (by decide) (by decide) hown
      cases x.dupMmAt <;> decide
  | _ => exact ⟨fun _ => Or.inl rfl, fun _ he => by cases he⟩

/-- Every label gives back what the stages before its jumps took, whatever the flags are. -/
theorem forkStages_unwind :
    Unwinds ForkStage.takes ForkStage.undoes [.delayedNode] forkStages := by
  decide

theorem forkStages_takes_nodup :
    (ForkResource.delayedNode :: forkStages.flatMap ForkStage.takes).Nodup := by
  decide

theorem takes_of_absent {s : ForkStage} (hs : s.present args = false) :
    s.takes.filter (ForkResource.taken cur args o x) = [] := by
  cases s <;> simp_all [ForkStage.present, ForkStage.takes, ForkResource.taken]

theorem runStages_settled (after : List (Event ForkResource))
    (hfail : ∃ s ∈ stagesBeforeKv args ++ stagesAfterKv, (o.fails s).isSome = true) :
    Settled (acquireAll cur args o x [.delayedNode] ++
      runStages cur args o x after (stagesBeforeKv args ++ stagesAfterKv)) := by
  unfold runStages acquireAll
  rw [← forkStages_filter_present] at hfail ⊢
  rw [Setup.walk_filter after fun s _ hs => takes_of_absent hs]
  apply Setup.walk_settled after (fun s _ => forkSetup_local s) forkStages_unwind
    forkStages_takes_nodup
  obtain ⟨s, hs, hf⟩ := hfail
  obtain ⟨hmem, hpresent⟩ := List.mem_filter.mp hs
  exact ⟨s, hmem, by rw [hpresent, hf]; rfl⟩

/-! ## Every way to fail -/

theorem firstFailure_eq_none_iff {stages : List ForkStage} :
    o.firstFailure stages = none ↔ ∀ s ∈ stages, (o.fails s).isSome = false := by
  induction stages with
  | nil => simp [ForkOutcome.firstFailure]
  | cons s rest ih =>
      rw [ForkOutcome.firstFailure]
      cases hs : o.fails s <;> simp [hs, ih]

theorem exists_failure {stages : List ForkStage} (h : o.firstFailure stages ≠ none) :
    ∃ s ∈ stages, (o.fails s).isSome = true := by
  by_contra hno
  apply h
  apply firstFailure_eq_none_iff.mpr
  intro s hs
  exact Bool.eq_false_iff.mpr fun hf => hno ⟨s, hs, hf⟩

/-- A failure before the key-value block goes down the whole chain. -/
theorem settled_of_early_failure (hflags : cloneFlagsRefused args = false)
    (hearly : o.firstFailure (stagesBeforeKv args) ≠ none) :
    Settled (copyProcessLedger cur args o x) := by
  obtain ⟨s, hs, hf⟩ := exists_failure hearly
  have h : Settled (acquireAll cur args o x [.delayedNode] ++
      runStages cur args o x [] (stagesBeforeKv args ++ stagesAfterKv)) :=
    runStages_settled [] ⟨s, List.mem_append_left _ hs, hf⟩
  unfold runStages at h
  rw [Setup.walk_append, Setup.walk_of_failure _ (kvBlockLedger cur args o x) ⟨s, hs, hf⟩] at h
  rw [copyProcessLedger, hflags, if_neg (by simp)]
  exact h

theorem settled_of_late_failure (hflags : cloneFlagsRefused args = false)
    (hlate : o.firstFailure stagesAfterKv ≠ none)
    (hkv : kvBlockLedger cur args o x = finishForkLedger cur args o x) :
    Settled (copyProcessLedger cur args o x) := by
  obtain ⟨s, hs, hf⟩ := exists_failure hlate
  have h : Settled (acquireAll cur args o x [.delayedNode] ++ runStages cur args o x
      (releaseAll cur args o x [.delayedNode, .siglock, .tasklistLock, .cgroup])
      (stagesBeforeKv args ++ stagesAfterKv)) :=
    runStages_settled _ ⟨s, List.mem_append_right _ hs, hf⟩
  unfold runStages at h
  rw [Setup.walk_append] at h
  rw [copyProcessLedger, hflags, if_neg (by simp), hkv]
  exact h

/-- A failed allocation of the block skips the chain: the task structure is among what stays. -/
theorem not_settled_of_kv_failure (hkv : reachesKvBlock args o)
    (hno : args.flags.any cloneThread = false)
    (hnull : o.kvStore = none ∨ o.kvStoreLock = none) :
    ¬ Settled (copyProcessLedger cur args o x) := by
  have hblock : kvBlockLedger cur args o x = [] := by
    rw [kvBlockLedger, hno, if_neg (by simp)]
    rcases hnull with h | h
    · rw [h]
    · rw [h]
      cases o.kvStore <;> rfl
  have hledger : copyProcessLedger cur args o x = acquireAll cur args o x
      (.delayedNode :: (stagesBeforeKv args).flatMap ForkStage.takes) := by
    rw [copyProcessLedger, hkv.1, if_neg (by simp), hblock, runStages,
      Setup.walk_of_success [] (firstFailure_eq_none_iff.mp hkv.2), acquireAll, acquireAll,
      List.append_nil, ← List.map_append, ← List.filter_append]
    rfl
  rw [hledger]
  apply not_settled_of_unreleased (r := .taskStruct)
  · apply List.mem_map_of_mem
    apply List.mem_filter.mpr
    exact ⟨by simp [stagesBeforeKv, ForkStage.takes], rfl⟩
  · simp [acquireAll]

theorem stage_fails_of_thread_error {h : KvHeap} {e : Errno}
    (hflags : cloneFlagsRefused args = false) (hthread : args.flags.any cloneThread = true)
    (herr : (copyProcess h cur args o).2 = .error e) :
    o.firstFailure (stagesBeforeKv args) ≠ none ∨ o.firstFailure stagesAfterKv ≠ none := by
  by_contra hno
  rw [not_or, not_not, not_not] at hno
  rw [copyProcess, hflags, if_neg (by simp), hno.1] at herr
  simp only [hthread, if_true, finishFork, hno.2] at herr
  cases herr

end Chain

/-- A failed call leaves nothing behind exactly when it fails before the key-value block or was
to create a thread. -/
theorem failedFork_leavesNothing_iff (h : KvHeap) (cur : TaskStruct) (args : CloneArgs)
    (o : ForkOutcome) (x : ForkContext) (e : Errno) (hflags : cloneFlagsRefused args = false)
    (hfresh : ∀ a ∈ o.kvStore, a ∉ h.addrs) (herr : (copyProcess h cur args o).2 = .error e) :
    LeavesNothing cur args o x h ↔
      o.firstFailure (stagesBeforeKv args) ≠ none ∨ args.flags.any cloneThread = true := by
  have heffect := copyProcess_effect h cur args o
  rw [herr] at heffect
  constructor
  · intro hclean
    by_contra hno
    rw [not_or, not_not, Bool.not_eq_true] at hno
    have hkv : reachesKvBlock args o := ⟨hflags, hno.1⟩
    generalize hheap : (copyProcess h cur args o).1 = h' at heffect
    cases heffect with
    | refused _ hcase =>
        rcases hcase with hcase | hcase
        · exact hcase hkv
        · cases hno.2.symm.trans hcase
    | oneArray _ _ hnull => exact not_settled_of_kv_failure hkv hno.2 hnull hclean.settled
    | abandoned _ a b _ _ ha _ _ =>
        have hnew : (KvKind.bucketArray, a) ∈ (h.withArrays (some a) (some b)).live :=
          (h.mem_withArrays _ _ _).mpr (Or.inl ⟨rfl, rfl⟩)
        have hold : (KvKind.bucketArray, a) ∈ h.live := by
          apply hclean.noArray
          rw [hheap]
          exact hnew
        exact hfresh a ha (List.mem_map_of_mem hold)
  · intro hcase
    have hsame : (copyProcess h cur args o).1 = h := by
      generalize (copyProcess h cur args o).1 = h' at heffect
      cases heffect with
      | refused _ _ => rfl
      | oneArray hkv hno _ => exact absurd hcase (by simp [hkv.2, hno])
      | abandoned _ _ _ hkv hno _ _ _ => exact absurd hcase (by simp [hkv.2, hno])
    refine ⟨?_, fun y hy => hsame ▸ hy, ?_⟩
    · by_cases hearly : o.firstFailure (stagesBeforeKv args) = none
      · have hthread := hcase.resolve_left (not_not.mpr hearly)
        have hlate := (stage_fails_of_thread_error hflags hthread herr).resolve_left
          (not_not.mpr hearly)
        apply settled_of_late_failure hflags hlate
        rw [kvBlockLedger, hthread, if_pos rfl]
      · exact settled_of_early_failure hflags hearly
    · rw [hsame]
      exact .refl h

/-! ## A process that forks -/

def forkingTask : TaskStruct :=
  ⟨1, 1, 1, some 5, some 10, some 11, 0, 0, 0, 0, 0, true⟩

def forkingHeap : KvHeap := ⟨[(.bucketArray, 10), (.lockArray, 11)], fun _ _ => []⟩

def forkingContext : ForkContext :=
  ⟨true, false, false, true, fun _ => true, .scsPrepare, .dupMmap⟩

def forkOutcome (failing : List ForkStage) (store lock : Option Addr) : ForkOutcome :=
  ⟨fun s => if s ∈ failing then some eintr else none, 2, 6, 2, store, lock⟩

/-- A new thread that a fatal signal stops. -/
theorem failedFork_leavesNothing_iff_killedThread :
    (copyProcess forkingHeap forkingTask ⟨0x10900, false, false, false, false⟩
      (forkOutcome [.fatalSignal] none none)).2 = .error eintr ∧
    LeavesNothing forkingTask ⟨0x10900, false, false, false, false⟩
      (forkOutcome [.fatalSignal] none none) forkingContext forkingHeap := by
  refine ⟨rfl, ?_⟩
  apply (failedFork_leavesNothing_iff forkingHeap forkingTask _ _ forkingContext eintr
    (by decide) (fun a ha => by cases ha) rfl).mpr
  right
  decide

/-- The first array of a new process cannot be allocated: the node stays on the list of delayed
signals and the task structure stays allocated. A fatal signal after both allocations: the chain
is complete but the arrays stay. -/
theorem failedFork_leaves_arrays :
    (let args : CloneArgs := ⟨0, false, false, false, false⟩
     let o := forkOutcome [] none (some 21)
     cloneFlagsRefused args = false ∧
     (copyProcess forkingHeap forkingTask args o).2 = .error enomem ∧
     history (copyProcessLedger forkingTask args o forkingContext) .delayedNode =
       [.acquire .delayedNode] ∧
     ¬ LeavesNothing forkingTask args o forkingContext forkingHeap) ∧
    (let args : CloneArgs := ⟨0, false, false, false, false⟩
     let o := forkOutcome [.fatalSignal] (some 20) (some 21)
     cloneFlagsRefused args = false ∧
     (copyProcess forkingHeap forkingTask args o).2 = .error eintr ∧
     (copyProcess forkingHeap forkingTask args o).1.live =
       [(.lockArray, 21), (.bucketArray, 20), (.bucketArray, 10), (.lockArray, 11)] ∧
     ¬ LeavesNothing forkingTask args o forkingContext forkingHeap) := by
  constructor
  · refine ⟨by decide, rfl, by decide, fun h => ?_⟩
    exact not_settled_of_kv_failure ⟨by decide, by decide⟩ (by decide) (Or.inl rfl) h.settled
  · refine ⟨by decide, rfl, rfl, fun h => ?_⟩
    have hold : (KvKind.bucketArray, 20) ∈ forkingHeap.live := by
      apply h.noArray
      decide
    revert hold
    decide

end OShm.Kernel
