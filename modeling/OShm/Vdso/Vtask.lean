import OShm.Kernel.Task

/-! # The vtask mapping

Six pages in front of the vvar pages show a task structure to user space: five
frames of physical memory, filled from `current` by `vtask_fault`, and a metadata
page with the offset of the structure inside its first frame. Addresses of task
structures are physical ones, as `virt_to_phys` gives them.
-/

namespace OShm.Vdso

open OShm.Kernel

def pageSize : Nat := 4096
def vvarTaskStructNrPages : Nat := 6
def vtaskSize : Nat := pageSize * vvarTaskStructNrPages
def metadataPgoff : Nat := vtaskSize / pageSize - 1
def taskMagic : Nat := 0x54534B4D

/-- What the build decides about `struct task_struct`. The number of pages of the
mapping is chosen so that a structure at any offset ends before the metadata page. -/
structure TaskLayout where
  /-- `sizeof(struct task_struct)`. -/
  size : Nat
  /-- `offsetof(struct task_struct, pid)`. -/
  pid : Nat
  pid_le : pid + 4 ≤ size
  size_le : size ≤ 4 * pageSize

structure TaskMetadata where
  magic : Nat
  taskOffset : Nat
  taskSize : Nat
  deriving DecidableEq, Repr

/-- What a present page of the mapping shows. -/
inductive Page where
  | metadata (md : TaskMetadata)
  | frame (pfn : Nat)
  deriving DecidableEq, Repr

inductive VmFault where
  /-- Return value 0 with `vmf->page` set. -/
  | page (md : TaskMetadata)
  /-- `VM_FAULT_NOPAGE`: the frame number was inserted. -/
  | nopage (pfn : Nat)
  | oom
  | sigbus
  deriving DecidableEq, Repr

def VmFault.installed : VmFault → Option Page
  | .page md => some (.metadata md)
  | .nopage pfn => some (.frame pfn)
  | .oom => none
  | .sigbus => none

/-- `vtask_fault` for a task of `taskSize` bytes at `taskPhysAddr`; `mem` is whether
`alloc_page` or the insertion of the entry finds memory. -/
def vtaskFaultSized (taskSize : Nat) (taskPhysAddr : Addr) (pgoff : Nat) (mem : Bool) : VmFault :=
  let pfn := taskPhysAddr / pageSize
  let taskOffset := taskPhysAddr % pageSize
  if pgoff = metadataPgoff then
    if mem then .page ⟨taskMagic, taskOffset, taskSize⟩ else .oom
  else if vtaskSize / pageSize ≤ pgoff then .sigbus
  else if mem then .nopage (pfn + pgoff) else .oom

def vtaskFault (L : TaskLayout) (taskPhysAddr : Addr) (pgoff : Nat) (mem : Bool) : VmFault :=
  vtaskFaultSized L.size taskPhysAddr pgoff mem

def taskPage (L : TaskLayout) (taskPhysAddr : Addr) (pgoff : Nat) : Option Page :=
  (vtaskFault L taskPhysAddr pgoff true).installed

theorem vtaskFault_installed {L : TaskLayout} {a : Addr} {pgoff : Nat} {mem : Bool} {pg : Page}
    (h : (vtaskFault L a pgoff mem).installed = some pg) : taskPage L a pgoff = some pg := by
  cases mem with
  | true => exact h
  | false =>
      unfold vtaskFault vtaskFaultSized at h
      split at h
      · simp [VmFault.installed] at h
      · split at h <;> simp [VmFault.installed] at h

theorem taskPage_metadata (L : TaskLayout) (a : Addr) :
    taskPage L a metadataPgoff = some (.metadata ⟨taskMagic, a % pageSize, L.size⟩) := by
  simp [taskPage, vtaskFault, vtaskFaultSized, VmFault.installed]

theorem taskPage_frame (L : TaskLayout) (a : Addr) {pgoff : Nat} (h : pgoff < metadataPgoff) :
    taskPage L a pgoff = some (.frame (a / pageSize + pgoff)) := by
  have hne : pgoff ≠ metadataPgoff := by omega
  have hlt : ¬ vtaskSize / pageSize ≤ pgoff := by
    unfold metadataPgoff at h
    omega
  simp [taskPage, vtaskFault, vtaskFaultSized, VmFault.installed, hne, hlt]

/-! ## The user side -/

structure TaskInfo where
  pid : Nat
  taskStructPtr : BitVec 64
  deriving DecidableEq, Repr

/-- `vtask_base`, six pages below the page of `vdso_data`. -/
def vtaskBase (vdata : BitVec 64) : BitVec 64 :=
  (vdata >>> 12 <<< 12) - BitVec.ofNat 64 (vvarTaskStructNrPages * pageSize)

/-- The offset in the mapping that `__vdso_get_task_struct_info` reads the pid from. -/
def pidOffset (L : TaskLayout) (taskOffset : Nat) : Nat := taskOffset + L.pid

/-- The physical address behind an offset that falls into a frame. -/
def frameAddr (pfn offset : Nat) : Nat := pfn * pageSize + offset % pageSize

theorem pidOffset_page (L : TaskLayout) (a : Addr) :
    pidOffset L (a % pageSize) / pageSize < metadataPgoff := by
  have hpid := L.pid_le
  have hsize := L.size_le
  simp only [pidOffset, metadataPgoff, vtaskSize, vvarTaskStructNrPages, pageSize] at *
  omega

/-- Read through the frames and the offset of one task, the pid is that task's. -/
theorem frameAddr_pid (L : TaskLayout) (a : Nat) :
    frameAddr (a / pageSize + pidOffset L (a % pageSize) / pageSize) (pidOffset L (a % pageSize)) =
      a + L.pid := by
  simp only [frameAddr, pidOffset, pageSize]
  omega

end OShm.Vdso
