import OShm.Vdso.CallerIdentity
import OShm.Vdso.MapVdso

/-! # The vvar pages and time namespaces

What a page of the vvar mapping shows depends on the time namespace of the task that faults it
in. The pages stay in the page table of the `mm`, so `vdso_join_timens` removes them when a task
enters another namespace, and `copy_process` refuses a child that would share the `mm` from
another namespace. A fault holds the `mmap` lock for reading and inserts one page after the other;
whoever maps, moves or copies areas holds it for writing.
-/

namespace OShm.Vdso

open OShm.Lib OShm.Kernel

/-- A `struct time_namespace`. Number 0 is `init_time_ns`, which has no `vvar_page`. -/
abbrev TimeNs := Nat

def cloneNewtime : CloneFlags := 0x80

/-- The physical page behind an entry of the vvar mapping. -/
inductive VvarFrame where
  /-- `__vvar_page`. -/
  | vvar
  /-- `time_ns->vvar_page`. -/
  | timens (ns : TimeNs)
  | pvclock
  | hvclock
  deriving DecidableEq, Repr

/-! The symbols of the linker script, relative to the image. -/

def VdsoImage.symVvarPage (image : VdsoImage) : Int := image.symVvarStart.toInt
def VdsoImage.symPvclockPage (image : VdsoImage) : Int := image.symVvarStart.toInt + pageSize
def VdsoImage.symHvclockPage (image : VdsoImage) : Int := image.symVvarStart.toInt + 2 * pageSize
def VdsoImage.symTimensPage (image : VdsoImage) : Int := image.symVvarStart.toInt + 3 * pageSize

structure Clocks where
  pvclock : Bool
  hvclock : Bool
  deriving DecidableEq, Repr

/-- `find_timens_vvar_page`; an access from another `mm` finds none. -/
def findTimensVvarPage (remote : Bool) (ns : TimeNs) : Option VvarFrame :=
  if remote then none
  else if ns = 0 then none
  else some (.timens ns)

/-- `vvar_fault`: the pages it inserts, in order, by their offset in the mapping. There is none
when it returns `VM_FAULT_SIGBUS`. -/
def vvarFault (image : Option VdsoImage) (remote : Bool) (ns : TimeNs) (clocks : Clocks)
    (pgoff : Nat) : Option (List (Nat × VvarFrame)) :=
  match image with
  | none => none
  | some image =>
      let symOffset : Int := pgoff * pageSize + image.symVvarStart.toInt
      if symOffset = 0 then none
      else if symOffset = image.symVvarPage then
        match findTimensVvarPage remote ns with
        | some page =>
            let addr : Int := pgoff * pageSize + (image.symTimensPage - symOffset)
            some [(addr.toNat / pageSize, .vvar), (pgoff, page)]
        | none => some [(pgoff, .vvar)]
      else if symOffset = image.symPvclockPage then
        if clocks.pvclock then some [(pgoff, .pvclock)] else none
      else if symOffset = image.symHvclockPage then
        if clocks.hvclock then some [(pgoff, .hvclock)] else none
      else if symOffset = image.symTimensPage then
        match findTimensVvarPage remote ns with
        | some _ => some [(pgoff, .vvar)]
        | none => none
      else none

def prescribed (ns : TimeNs) : Nat → Option VvarFrame
  | 0 => some (if ns = 0 then .vvar else .timens ns)
  | 1 => some .pvclock
  | 2 => some .hvclock
  | 3 => if ns = 0 then none else some .vvar
  | _ => none

theorem VdsoImage.symVvarStart_toInt (image : VdsoImage) :
    image.symVvarStart.toInt = -16384 := by
  rw [image.vvar_start]
  rfl

/-- A local fault inserts what the namespace prescribes, also where it inserts ahead. -/
theorem vvarFault_prescribed {image : Option VdsoImage} {ns : TimeNs} {clocks : Clocks}
    {pgoff : Nat} {inserts : List (Nat × VvarFrame)}
    (h : vvarFault image false ns clocks pgoff = some inserts) :
    ∀ x ∈ inserts, prescribed ns x.1 = some x.2 := by
  cases image with
  | none => cases h
  | some image =>
      simp only [vvarFault, VdsoImage.symVvarPage, VdsoImage.symPvclockPage,
        VdsoImage.symHvclockPage, VdsoImage.symTimensPage, image.symVvarStart_toInt, pageSize,
        findTimensVvarPage, Bool.false_eq_true, if_false] at h
      split at h
      · cases h
      split at h
      · obtain rfl : pgoff = 0 := by omega
        by_cases hns : ns = 0
        · rw [if_pos hns] at h
          cases h
          simp [prescribed, hns]
        · rw [if_neg hns] at h
          cases h
          simp [prescribed, hns]
      split at h
      · obtain rfl : pgoff = 1 := by omega
        split at h <;> cases h
        simp [prescribed]
      split at h
      · obtain rfl : pgoff = 2 := by omega
        split at h <;> cases h
        simp [prescribed]
      split at h
      · obtain rfl : pgoff = 3 := by omega
        by_cases hns : ns = 0
        · rw [if_pos hns] at h
          cases h
        · rw [if_neg hns] at h
          cases h
          simp [prescribed, hns]
      · cases h

/-! ## The system -/

structure VvarArea where
  start : Nat
  pages : Nat → Option VvarFrame

namespace VvarArea

/-- `vmf_insert_pfn` leaves a present entry alone. -/
def insertPfn (a : VvarArea) (pgoff : Nat) (f : VvarFrame) : VvarArea :=
  match a.pages pgoff with
  | some _ => a
  | none => { a with pages := Function.update a.pages pgoff (some f) }

def zap (a : VvarArea) : VvarArea := { a with pages := fun _ => none }

end VvarArea

structure VvarFaulting where
  mm : Addr
  start : Nat
  inserts : List (Nat × VvarFrame)
  deriving DecidableEq, Repr

structure TimensState where
  kernel : State
  /-- `nsproxy->time_ns` of each task. -/
  timeNs : Addr → TimeNs
  /-- `nsproxy->time_ns_for_children`. -/
  timeNsForChildren : Addr → TimeNs
  /-- `context.vdso_image` of each `mm`. -/
  vdsoImage : Addr → Option VdsoImage
  vvars : Addr → List VvarArea
  /-- The fault each task is in. -/
  faulting : Addr → Option VvarFaulting

inductive TimensAction where
  | kernel (a : Action)
  /-- A `copy_process` with the namespace that `CLONE_NEWTIME` creates. -/
  | fork (cur : Addr) (args : CloneArgs) (o : ForkOutcome) (new : TimeNs)
  | unshareTime (cur : Addr) (new : TimeNs)
  /-- `setns` to a time namespace. -/
  | setnsTime (cur : Addr) (ns : TimeNs)
  | exec (cur : Addr) (mm : Addr) (start : Nat) (image : VdsoImage)
  | exit (cur : Addr)
  | mapVdso (cur : Addr) (start : Nat) (image : VdsoImage)
  | munmap (cur : Addr) (start : Nat)
  | mremap (cur : Addr) (start dest : Nat)
  /-- An access to a page that is not present, up to the first insertion. -/
  | fault (cur : Addr) (start pgoff : Nat) (clocks : Clocks)
  /-- The next insertion of the fault; `mem` is whether it finds memory. -/
  | insertPfn (cur : Addr) (mem : Bool)

inductive TimensEvent where
  | kernel (e : Event)
  | done
  | faulting
  | sigbus
  | oom
  | nopage
  deriving DecidableEq, Repr

namespace TimensState

def mm? (s : TimensState) (cur : Addr) : Option Addr :=
  (s.kernel.task? cur).bind TaskStruct.mm

/-- The `mmap` lock of the `mm` can be taken for writing. -/
def unlocked (s : TimensState) (m : Addr) : Bool :=
  s.kernel.tasks.all fun t => (s.faulting t.self).all fun f => f.mm ≠ m

def setVvars (s : TimensState) (m : Addr) (areas : List VvarArea) : TimensState :=
  { s with vvars := Function.update s.vvars m areas }

/-- `vdso_join_timens` for a task that runs in `m`. -/
def vdsoJoinTimens (s : TimensState) (m : Addr) : TimensState :=
  s.setVvars m ((s.vvars m).map VvarArea.zap)

def setMm (s : TimensState) (cur : Addr) (mm : Option Addr) : TimensState :=
  { s with
    kernel := { s.kernel with
      tasks := s.kernel.tasks.map fun t => if t.self = cur then { t with mm := mm } else t } }

def setFaulting (s : TimensState) (cur : Addr) (f : Option VvarFaulting) : TimensState :=
  { s with faulting := Function.update s.faulting cur f }

def childNs (s : TimensState) (cur : Addr) (args : CloneArgs) (new : TimeNs) : TimeNs :=
  if args.flags.any cloneNewtime then new else s.timeNsForChildren cur

/-- The areas of a child's `mm`: those of the parent with `CLONE_VM`, else what `dup_mmap` copies,
entries of the page table included. -/
def dupMmap (s : TimensState) (cur : Addr) (args : CloneArgs) (o : ForkOutcome) : TimensState :=
  match s.mm? cur with
  | none => s
  | some oldmm =>
      if args.flags.any cloneVm then s
      else { s.setVvars o.mm (s.vvars oldmm) with
        vdsoImage := Function.update s.vdsoImage o.mm (s.vdsoImage oldmm) }

/-- `copy_namespaces` with `timens_on_fork` for the child `p`. -/
def copyNamespaces (s : TimensState) (cur : Addr) (args : CloneArgs) (new : TimeNs)
    (p : TaskStruct) : TimensState :=
  let ns := s.childNs cur args new
  let t := { s with
    timeNs := Function.update s.timeNs p.self ns
    timeNsForChildren := Function.update s.timeNsForChildren p.self ns
    faulting := Function.update s.faulting p.self none }
  if ns = s.timeNs cur then t
  else
    match p.mm with
    | none => t
    | some m => t.vdsoJoinTimens m

/-- A system call comes from a task that is in no fault, and only a task that has exited is
released. -/
def mayEnter (s : TimensState) : Action → Bool
  | .copyProcess _ _ _ => false
  | .writeKv cur _ _ _ => (s.faulting cur).isNone
  | .readKv cur _ => (s.faulting cur).isNone
  | .releaseTask tsk => ((s.kernel.task? tsk).bind TaskStruct.mm).isNone
  | .putTaskStruct _ => true

/-- What `copy_process` is told about the namespaces of its caller is true, and `dup_mmap` gets
the lock of the old `mm`. -/
def mayFork (s : TimensState) (cur : Addr) (args : CloneArgs) : Bool :=
  (s.faulting cur).isNone &&
    args.timeNsDiffers == (s.timeNs cur != s.timeNsForChildren cur) &&
    (args.flags.any cloneVm || (s.mm? cur).all s.unlocked)

def step (s : TimensState) : TimensAction → Option (TimensState × TimensEvent)
  | .kernel a =>
      if s.mayEnter a then
        match s.kernel.step a with
        | none => none
        | some (k, e) => some ({ s with kernel := k }, .kernel e)
      else none
  | .fork cur args o new =>
      if s.mayFork cur args then
        match s.kernel.task? cur with
        | none => none
        | some t =>
            if s.kernel.Supplies o then
              match copyProcess s.kernel.heap t args o with
              | (h, .error e) =>
                  some ({ s with kernel := ⟨s.kernel.tasks, h⟩ }, .kernel (.forkFailed e))
              | (h, .ok p) =>
                  let forked := (s.dupMmap cur args o).copyNamespaces cur args new p
                  some ({ forked with kernel := ⟨p :: s.kernel.tasks, h⟩ },
                    .kernel (.forked p.tgid (!args.flags.any cloneThread)))
            else none
      else none
  | .unshareTime cur new =>
      if (s.kernel.task? cur).isSome ∧ (s.faulting cur).isNone then
        some ({ s with timeNsForChildren := Function.update s.timeNsForChildren cur new }, .done)
      else none
  | .setnsTime cur ns =>
      match s.mm? cur with
      | none => none
      | some m =>
          -- `timens_install` refuses when `current_is_single_threaded` does
          if (s.faulting cur).isNone ∧
              ∀ t ∈ s.kernel.tasks, t.mm = some m → t.self = cur then
            some ({ s.vdsoJoinTimens m with
              timeNs := Function.update s.timeNs cur ns
              timeNsForChildren := Function.update s.timeNsForChildren cur ns }, .done)
          else none
  | .exec cur mm start image =>
      if (s.kernel.task? cur).isSome ∧ (s.faulting cur).isNone ∧
          ∀ t ∈ s.kernel.tasks, t.mm ≠ some mm then
        some ({ (s.setMm cur (some mm)).setVvars mm [⟨start, fun _ => none⟩] with
          vdsoImage := Function.update s.vdsoImage mm (some image) }, .done)
      else none
  | .exit cur =>
      if (s.mm? cur).isSome ∧ (s.faulting cur).isNone then some (s.setMm cur none, .done)
      else none
  | .mapVdso cur start image =>
      match s.mm? cur with
      | none => none
      | some m =>
          if s.unlocked m ∧ ∀ a ∈ s.vvars m, a.start ≠ start then
            some ({ s.setVvars m (⟨start, fun _ => none⟩ :: s.vvars m) with
              vdsoImage := Function.update s.vdsoImage m (some image) }, .done)
          else none
  | .munmap cur start =>
      match s.mm? cur with
      | none => none
      | some m =>
          if s.unlocked m then
            some (s.setVvars m ((s.vvars m).filter fun a => a.start ≠ start), .done)
          else none
  | .mremap cur start dest =>
      match s.mm? cur with
      | none => none
      | some m =>
          if s.unlocked m ∧ ∀ a ∈ s.vvars m, a.start ≠ dest then
            some (s.setVvars m ((s.vvars m).map fun a =>
              if a.start = start then { a with start := dest } else a), .done)
          else none
  | .fault cur start pgoff clocks =>
      match s.mm? cur, s.faulting cur with
      | some m, none =>
          if ∃ a ∈ s.vvars m, a.start = start ∧ a.pages pgoff = none then
            match vvarFault (s.vdsoImage m) false (s.timeNs cur) clocks pgoff with
            | none => some (s, .sigbus)
            | some inserts => some (s.setFaulting cur (some ⟨m, start, inserts⟩), .faulting)
          else none
      | _, _ => none
  | .insertPfn cur mem =>
      match s.mm? cur, s.faulting cur with
      | some _, some ⟨m, start, (pgoff, f) :: rest⟩ =>
          if mem then
            let s := s.setVvars m ((s.vvars m).map fun a =>
              if a.start = start then a.insertPfn pgoff f else a)
            if rest.isEmpty then some (s.setFaulting cur none, .nopage)
            else some (s.setFaulting cur (some ⟨m, start, rest⟩), .faulting)
          else some (s.setFaulting cur none, .oom)
      | _, _ => none

end TimensState

def timens : System TimensState TimensAction TimensEvent := ⟨TimensState.step⟩

end OShm.Vdso
