import OShm.Kernel.System
import OShm.Vdso.Vtask

/-! # Tasks that share an `mm` and its vtask pages

The pages of the mapping are kept per `mm`, so every task that runs in the `mm`
sees the pages whichever of them faulted in first. A call of
`__vdso_get_task_struct_info` runs in user mode in two loads, and the other tasks
go on in between.
-/

namespace OShm.Vdso

open OShm.Lib OShm.Kernel

/-- A present page, and the task that was `current` when it was faulted in. -/
structure Mapped where
  page : Page
  faultedBy : Addr
  deriving DecidableEq, Repr

structure VdsoState where
  kernel : State
  /-- The vtask part of the page table of each `mm`. -/
  pages : Addr → Nat → Option Mapped
  /-- The user address of `vdso_data` in each `mm`. -/
  vdata : Addr → BitVec 64
  /-- The calls in progress: the task and the `task_offset` it has loaded. -/
  calls : Addr → Option Nat

inductive VdsoAction where
  | kernel (a : Action)
  /-- An access to a page that is not present. -/
  | fault (cur : Addr) (pgoff : Nat) (mem : Bool)
  /-- A call up to the load of `task_offset`. -/
  | loadMetadata (cur : Addr) (infoNull : Bool)
  /-- The rest of the call; `junk` is what is read where no task structure is. -/
  | loadPid (cur : Addr) (junk : Nat)
  | exit (cur : Addr)

inductive VdsoEvent where
  | kernel (e : Event)
  | faulted (r : VmFault)
  | loaded
  | returned (cur : Addr) (ret : Int) (info : Option TaskInfo)
  | exited
  deriving DecidableEq, Repr

namespace VdsoState

/-- A task that makes a system call is outside the vDSO, and only a task that has
exited is released. -/
def mayEnter (s : VdsoState) : Action → Bool
  | .copyProcess cur _ _ => (s.calls cur).isNone
  | .writeKv cur _ _ _ => (s.calls cur).isNone
  | .readKv cur _ => (s.calls cur).isNone
  | .releaseTask tsk => ((s.kernel.task? tsk).bind TaskStruct.mm).isNone
  | .putTaskStruct _ => true

/-- `dup_mmap`: a forked `mm` gets the same addresses and, with `VM_WIPEONFORK`, no
page of the mapping. -/
def afterKernel (s : VdsoState) (k : State) : Action → Event → VdsoState
  | .copyProcess cur args o, .forked _ _ =>
      { kernel := k
        pages := if args.flags.any cloneVm then s.pages
          else Function.update s.pages o.mm fun _ => none
        vdata := match (s.kernel.task? cur).bind TaskStruct.mm with
          | none => s.vdata
          | some oldmm => Function.update s.vdata o.mm (s.vdata oldmm)
        calls := Function.update s.calls o.task none }
  | _, _ => { s with kernel := k }

def insertPage (s : VdsoState) (m : Addr) (pgoff : Nat) (pg : Mapped) : VdsoState :=
  { s with pages := Function.update s.pages m (Function.update (s.pages m) pgoff (some pg)) }

def setCall (s : VdsoState) (cur : Addr) (call : Option Nat) : VdsoState :=
  { s with calls := Function.update s.calls cur call }

/-- `exit_mm` in `do_exit`; a dead task never returns from its call. -/
def exitMm (s : VdsoState) (cur : Addr) : VdsoState :=
  { s with
    kernel := { s.kernel with
      tasks := s.kernel.tasks.map fun t => if t.self = cur then { t with mm := none } else t }
    calls := Function.update s.calls cur none }

/-- The four bytes at a physical address, when a task structure has its pid there. -/
def readPid (s : VdsoState) (L : TaskLayout) (a : Nat) (junk : Nat) : Nat :=
  match s.kernel.tasks.find? fun t => t.self + L.pid = a with
  | some t => t.pid
  | none => junk

def step (L : TaskLayout) (s : VdsoState) : VdsoAction → Option (VdsoState × VdsoEvent)
  | .kernel a =>
      if s.mayEnter a then
        match s.kernel.step a with
        | none => none
        | some (k, e) => some (s.afterKernel k a e, .kernel e)
      else none
  | .fault cur pgoff mem =>
      match (s.kernel.task? cur).bind TaskStruct.mm with
      | none => none
      | some m =>
          match s.pages m pgoff with
          | some _ => none
          | none =>
              let r := vtaskFault L cur pgoff mem
              match r.installed with
              | none => some (s, .faulted r)
              | some pg => some (s.insertPage m pgoff ⟨pg, cur⟩, .faulted r)
  | .loadMetadata cur infoNull =>
      match (s.kernel.task? cur).bind TaskStruct.mm, s.calls cur with
      | some m, none =>
          if infoNull then some (s, .returned cur (-einval) none)
          else if vtaskBase (s.vdata m) = 0 then some (s, .returned cur (-einval) none)
          else
            match s.pages m metadataPgoff with
            | some ⟨.metadata md, _⟩ =>
                if md.magic ≠ taskMagic then some (s, .returned cur (-einval) none)
                else some (s.setCall cur (some md.taskOffset), .loaded)
            | _ => none
      | _, _ => none
  | .loadPid cur junk =>
      match (s.kernel.task? cur).bind TaskStruct.mm, s.calls cur with
      | some m, some off =>
          let ptr := vtaskBase (s.vdata m) + BitVec.ofNat 64 off
          match s.pages m (pidOffset L off / pageSize) with
          | none => none
          | some ⟨.metadata _, _⟩ =>
              some (s.setCall cur none, .returned cur 0 (some ⟨junk, ptr⟩))
          | some ⟨.frame pfn, _⟩ =>
              let pid := s.readPid L (frameAddr pfn (pidOffset L off)) junk
              some (s.setCall cur none, .returned cur 0 (some ⟨pid, ptr⟩))
      | _, _ => none
  | .exit cur =>
      match (s.kernel.task? cur).bind TaskStruct.mm with
      | none => none
      | some _ => some (s.exitMm cur, .exited)

end VdsoState

def vdso (L : TaskLayout) : System VdsoState VdsoAction VdsoEvent := ⟨VdsoState.step L⟩

/-! ## What a step can do -/

/-- The caller is attached, has the structure `t` and runs in `m`. -/
structure RunsIn (k : State) (t : TaskStruct) (m : Addr) : Prop where
  mem : t ∈ k.tasks
  hashed : t.hashed = true
  mm : t.mm = some m

theorem runsIn_congr {k k' : State} (h : k'.tasks = k.tasks) (t : TaskStruct) (m : Addr) :
    RunsIn k' t m ↔ RunsIn k t m := by
  constructor
  · intro hr
    exact ⟨h ▸ hr.mem, hr.hashed, hr.mm⟩
  · intro hr
    exact ⟨h ▸ hr.mem, hr.hashed, hr.mm⟩

theorem runsIn_of_task? {k : State} {cur m : Addr}
    (h : (k.task? cur).bind TaskStruct.mm = some m) :
    ∃ t, RunsIn k t m ∧ t.self = cur := by
  obtain ⟨t, ht, hm⟩ := Option.bind_eq_some_iff.mp h
  obtain ⟨hmem, hl, hself⟩ := State.task?_mem ht
  exact ⟨t, ⟨hmem, hl, hm⟩, hself⟩

theorem RunsIn.task? {k : State} {t : TaskStruct} {m : Addr} (hd : k.Distinct)
    (h : RunsIn k t m) : k.task? t.self = some t := by
  cases hf : k.task? t.self with
  | none =>
      have hno := List.find?_eq_none.mp hf t h.mem
      simp [h.hashed] at hno
  | some u =>
      obtain ⟨hu, -, hself⟩ := State.task?_mem hf
      rw [hd u hu t h.mem hself]

inductive VdsoState.Steps (L : TaskLayout) (s : VdsoState) :
    VdsoAction → VdsoState → VdsoEvent → Prop where
  | kernel {a : Action} {k : State} {e : Event} (henter : s.mayEnter a = true)
      (hk : Kernel.kernel.step s.kernel a = some (k, e)) :
      Steps L s (.kernel a) (s.afterKernel k a e) (.kernel e)
  | faultFailed {t : TaskStruct} {m : Addr} {pgoff : Nat} {mem : Bool} (ht : RunsIn s.kernel t m)
      (hnone : (vtaskFault L t.self pgoff mem).installed = none) :
      Steps L s (.fault t.self pgoff mem) s (.faulted (vtaskFault L t.self pgoff mem))
  | faulted {t : TaskStruct} {m : Addr} {pgoff : Nat} {mem : Bool} {pg : Page}
      (ht : RunsIn s.kernel t m) (habs : s.pages m pgoff = none)
      (hpg : (vtaskFault L t.self pgoff mem).installed = some pg) :
      Steps L s (.fault t.self pgoff mem) (s.insertPage m pgoff ⟨pg, t.self⟩)
        (.faulted (vtaskFault L t.self pgoff mem))
  | refused {t : TaskStruct} {m : Addr} {infoNull : Bool} (ht : RunsIn s.kernel t m)
      (hidle : s.calls t.self = none) :
      Steps L s (.loadMetadata t.self infoNull) s (.returned t.self (-einval) none)
  | loaded {t : TaskStruct} {m : Addr} {infoNull : Bool} {md : TaskMetadata} {who : Addr}
      (ht : RunsIn s.kernel t m) (hidle : s.calls t.self = none)
      (hmd : s.pages m metadataPgoff = some ⟨.metadata md, who⟩) :
      Steps L s (.loadMetadata t.self infoNull) (s.setCall t.self (some md.taskOffset)) .loaded
  | answered {t : TaskStruct} {m : Addr} {off junk pid : Nat} {mp : Mapped}
      (ht : RunsIn s.kernel t m) (hcall : s.calls t.self = some off)
      (hpage : s.pages m (pidOffset L off / pageSize) = some mp)
      (hpid : ∀ pfn, mp.page = .frame pfn →
        pid = s.readPid L (frameAddr pfn (pidOffset L off)) junk) :
      Steps L s (.loadPid t.self junk) (s.setCall t.self none)
        (.returned t.self 0 (some ⟨pid, vtaskBase (s.vdata m) + BitVec.ofNat 64 off⟩))
  | exited {t : TaskStruct} {m : Addr} (ht : RunsIn s.kernel t m) :
      Steps L s (.exit t.self) (s.exitMm t.self) .exited

theorem VdsoState.step_cases {L : TaskLayout} {s s' : VdsoState} {a : VdsoAction} {e : VdsoEvent}
    (h : (vdso L).step s a = some (s', e)) : s.Steps L a s' e := by
  change s.step L a = some (s', e) at h
  cases a with
  | kernel a =>
      simp only [VdsoState.step] at h
      split at h
      · rename_i henter
        cases hk : s.kernel.step a with
        | none => simp [hk] at h
        | some r =>
            simp only [hk, Option.some.injEq, Prod.mk.injEq] at h
            obtain ⟨rfl, rfl⟩ := h
            exact .kernel henter hk
      · simp at h
  | fault cur pgoff mem =>
      cases hm : (s.kernel.task? cur).bind TaskStruct.mm with
      | none => simp [VdsoState.step, hm] at h
      | some m =>
          obtain ⟨t, ht, rfl⟩ := runsIn_of_task? hm
          cases habs : s.pages m pgoff with
          | some pg => simp [VdsoState.step, hm, habs] at h
          | none =>
              simp only [VdsoState.step, hm, habs] at h
              cases hpg : (vtaskFault L t.self pgoff mem).installed with
              | none =>
                  obtain ⟨rfl, rfl⟩ : s = s' ∧ _ = e := by simpa [hpg] using h
                  exact .faultFailed ht hpg
              | some pg =>
                  obtain ⟨rfl, rfl⟩ : _ = s' ∧ _ = e := by simpa [hpg] using h
                  exact .faulted ht habs hpg
  | loadMetadata cur infoNull =>
      cases hm : (s.kernel.task? cur).bind TaskStruct.mm with
      | none => simp [VdsoState.step, hm] at h
      | some m =>
          obtain ⟨t, ht, rfl⟩ := runsIn_of_task? hm
          cases hidle : s.calls t.self with
          | some off => simp [VdsoState.step, hm, hidle] at h
          | none =>
              simp only [VdsoState.step, hm, hidle] at h
              split at h
              · obtain ⟨rfl, rfl⟩ : s = s' ∧ _ = e := by simpa using h
                exact .refused ht hidle
              · split at h
                · obtain ⟨rfl, rfl⟩ : s = s' ∧ _ = e := by simpa using h
                  exact .refused ht hidle
                · split at h
                  · rename_i md who hmd
                    split at h
                    · obtain ⟨rfl, rfl⟩ : s = s' ∧ _ = e := by simpa using h
                      exact .refused ht hidle
                    · obtain ⟨rfl, rfl⟩ : _ = s' ∧ _ = e := by simpa using h
                      exact .loaded ht hidle hmd
                  · simp at h
  | loadPid cur junk =>
      cases hm : (s.kernel.task? cur).bind TaskStruct.mm with
      | none => simp [VdsoState.step, hm] at h
      | some m =>
          obtain ⟨t, ht, rfl⟩ := runsIn_of_task? hm
          cases hcall : s.calls t.self with
          | none => simp [VdsoState.step, hm, hcall] at h
          | some off =>
              simp only [VdsoState.step, hm, hcall] at h
              split at h
              · simp at h
              · rename_i md who hpage
                obtain ⟨rfl, rfl⟩ : _ = s' ∧ _ = e := by simpa using h
                exact .answered ht hcall hpage (by simp)
              · rename_i pfn who hpage
                obtain ⟨rfl, rfl⟩ : _ = s' ∧ _ = e := by simpa using h
                refine .answered ht hcall hpage ?_
                intro n hn
                obtain rfl : pfn = n := by simpa using hn
                rfl
  | exit cur =>
      cases hm : (s.kernel.task? cur).bind TaskStruct.mm with
      | none => simp [VdsoState.step, hm] at h
      | some m =>
          obtain ⟨t, ht, rfl⟩ := runsIn_of_task? hm
          obtain ⟨rfl, rfl⟩ : _ = s' ∧ _ = e := by simpa [VdsoState.step, hm] using h
          exact .exited ht

end OShm.Vdso
