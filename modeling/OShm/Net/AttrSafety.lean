import OShm.Kernel.System
import OShm.Net.Attrs
import OShm.Net.Socket

/-! # Who sets socket attributes, and to what

All tasks of the kernel at once: they fork, end, create sockets, change their user ids and
call `set_thread_socket_attrs` on each other, in any order.
-/

namespace OShm.Net

open OShm.Lib OShm.Kernel

structure AttrState where
  kernel : Kernel.State
  /-- The sockets of each task, by the address of its structure. -/
  socks : Addr → List Sock

inductive AttrAction where
  | kernel (a : Kernel.Action)
  | setThreadSocketAttrs (cur : Addr) (capSysResource : Bool) (pid maxSockets priorityLevel : Int)
      (flags : Nat)
  | sockCreate (cur : Addr) (family type : Int) (kern : Bool) (o : CreateOutcome)
  /-- The credentials of a task are replaced. -/
  | commitCreds (tsk : Addr) (uid euid : Nat)

namespace AttrState

def withTask (s : AttrState) (tsk : Addr) (f : TaskStruct → TaskStruct) : AttrState :=
  { s with kernel := ⟨s.kernel.tasks.map fun t => if t.self = tsk then f t else t, s.kernel.heap⟩ }

def step (s : AttrState) : AttrAction → Option (AttrState × Option Int)
  | .kernel a => (s.kernel.step a).map fun r => ({ s with kernel := r.1 }, none)
  | .setThreadSocketAttrs cur cap pid maxSockets priorityLevel flags =>
      match s.kernel.task? cur with
      | none => none
      | some c =>
          let r := Net.setThreadSocketAttrs s.kernel.tasks c cap pid maxSockets priorityLevel flags
          some ({ s with kernel := ⟨r.1, s.kernel.heap⟩ }, some r.2)
  | .sockCreate cur family type kern o =>
      match s.kernel.task? cur with
      | none => none
      | some c =>
          let others := s.kernel.tasks.filter fun t => t.self ≠ cur
          let r := Net.sockCreate ⟨c, others, s.socks cur⟩ family type kern o
          some ({ s.withTask cur fun _ => r.1.task with
            socks := Function.update s.socks cur r.1.socks }, none)
  | .commitCreds tsk uid euid =>
      some (s.withTask tsk fun t => { t with uid := uid, euid := euid }, none)

end AttrState

def attrSystem : System AttrState AttrAction (Option Int) := ⟨AttrState.step⟩

def attrBoot : AttrState := ⟨boot, fun _ => []⟩

/-! ## What the property says -/

structure InRange (t : TaskStruct) : Prop where
  limit : -1 ≤ t.maxSocketAllowed
  level_nonneg : 0 ≤ t.priorityLevel
  level_le : t.priorityLevel ≤ 100

def SameAttrs (t t' : TaskStruct) : Prop :=
  t'.maxSocketAllowed = t.maxSocketAllowed ∧ t'.priorityLevel = t.priorityLevel

/-- The step is a call of `set_thread_socket_attrs` by a task that may change `t`. -/
def AuthorisedFor (s : AttrState) (a : AttrAction) (t : TaskStruct) : Prop :=
  ∃ c ∈ s.kernel.tasks, ∃ cap pid maxSockets priorityLevel flags,
    a = .setThreadSocketAttrs c.self cap pid maxSockets priorityLevel flags ∧
      (cap = true ∨ c.euid = t.euid ∨ c.euid = t.uid)

/-- New tasks start at zero, and the attributes of the others change with authority only. -/
structure GuardedStep (s : AttrState) (a : AttrAction) (s' : AttrState) : Prop where
  new : ∀ t' ∈ s'.kernel.tasks, (∀ t ∈ s.kernel.tasks, t.self ≠ t'.self) →
    t'.maxSocketAllowed = 0 ∧ t'.priorityLevel = 0
  old : ∀ t ∈ s.kernel.tasks, ∀ t' ∈ s'.kernel.tasks, t'.self = t.self →
    ¬ SameAttrs t t' → AuthorisedFor s a t

/-! ## Steps that leave attributes alone -/

/-- Every task is one from before with its attributes, or new and at zero. -/
def Inherits (s s' : AttrState) : Prop :=
  ∀ t' ∈ s'.kernel.tasks,
    (∃ t ∈ s.kernel.tasks, t'.self = t.self ∧ SameAttrs t t') ∨
      ((∀ t ∈ s.kernel.tasks, t.self ≠ t'.self) ∧ t'.maxSocketAllowed = 0 ∧ t'.priorityLevel = 0)

theorem Inherits.guarded {s s' : AttrState} (h : Inherits s s') (hd : s.kernel.Distinct)
    (a : AttrAction) : GuardedStep s a s' where
  new t' ht' hnew := by
    rcases h t' ht' with ⟨t, ht, hself, -⟩ | ⟨-, hzero⟩
    · exact absurd hself.symm (hnew t ht)
    · exact hzero
  old t ht t' ht' hself hne := by
    rcases h t' ht' with ⟨u, hu, hself', hsame⟩ | ⟨hnew, -⟩
    · obtain rfl : t = u := hd t ht u hu (hself.symm.trans hself')
      exact absurd hsame hne
    · exact absurd hself.symm (hnew t ht)

theorem Inherits.inRange {s s' : AttrState} (h : Inherits s s')
    (hr : ∀ t ∈ s.kernel.tasks, InRange t) : ∀ t ∈ s'.kernel.tasks, InRange t := by
  intro t' ht'
  rcases h t' ht' with ⟨t, ht, -, hlimit, hlevel⟩ | ⟨-, hlimit, hlevel⟩
  · have hin := hr t ht
    constructor
    · exact hlimit ▸ hin.limit
    · exact hlevel ▸ hin.level_nonneg
    · exact hlevel ▸ hin.level_le
  · constructor <;> omega

theorem Inherits.of_map {s s' : AttrState} {f : TaskStruct → TaskStruct}
    (hs : s'.kernel.tasks = s.kernel.tasks.map f)
    (hf : ∀ t ∈ s.kernel.tasks, (f t).self = t.self ∧ SameAttrs t (f t)) : Inherits s s' := by
  intro t' ht'
  rw [hs] at ht'
  obtain ⟨t, ht, rfl⟩ := List.mem_map.mp ht'
  exact .inl ⟨t, ht, hf t ht⟩

/-- A child comes out of `copy_process` with both attributes reset. -/
theorem forkEffect_attrs {h h' : KvHeap} {cur p : TaskStruct} {args : CloneArgs}
    {o : ForkOutcome} (he : ForkEffect h cur args o h' (.ok p)) :
    p.maxSocketAllowed = 0 ∧ p.priorityLevel = 0 := by
  cases he <;> exact ⟨rfl, rfl⟩

theorem inherits_kernel {s : AttrState} {k' : Kernel.State} {a : Kernel.Action} {e : Kernel.Event}
    (h : Kernel.kernel.step s.kernel a = some (k', e)) : Inherits s { s with kernel := k' } := by
  have hsame : ∀ heap, Inherits s { s with kernel := ⟨s.kernel.tasks, heap⟩ } := by
    intro heap
    exact .of_map (List.map_id _).symm fun t _ => ⟨rfl, rfl, rfl⟩
  cases State.step_cases h with
  | forkFailed ht hl hs he => exact hsame _
  | forked ht hl hs he =>
      intro t' ht'
      rcases List.mem_cons.mp ht' with rfl | hold
      · refine .inr ⟨?_, forkEffect_attrs he⟩
        intro u hu heq
        exact hs.1 u hu (heq.trans he.child.1)
      · exact .inl ⟨t', hold, rfl, rfl, rfl⟩
  | wrote ht hl hst hg hm => exact hsame _
  | didRead ht hl hst hg => exact hsame _
  | reaped ht hl =>
      refine .of_map rfl ?_
      intro u hu
      split <;> exact ⟨rfl, rfl, rfl⟩
  | freed ht hdead =>
      intro t' ht'
      exact .inl ⟨t', List.mem_of_mem_filter ht', rfl, rfl, rfl⟩

theorem sockCreate_task (s : NetState) (family type : Int) (kern : Bool) (o : CreateOutcome) :
    ∃ n, (sockCreate s family type kern o).1.task = { s.task with socketCount := n } := by
  have hkeep : ∃ n, s.task = { s.task with socketCount := n } := ⟨s.task.socketCount, rfl⟩
  simp only [sockCreate]
  repeat' split
  all_goals first
    | exact hkeep
    | exact ⟨incr s.task.socketCount, rfl⟩

/-! ## The system call -/

theorem mem_setThreadSocketAttrs {k : Kernel.State} (hd : k.Distinct) {c : TaskStruct}
    (hc : c ∈ k.tasks) (cap : Bool) (pid maxSockets priorityLevel : Int) (flags : Nat)
    {t' : TaskStruct} (ht' : t' ∈ (Net.setThreadSocketAttrs k.tasks c cap pid maxSockets
      priorityLevel flags).1) :
    ∃ t ∈ k.tasks, AttrsChange t t' ∧ (t' = t ∨ mayChange c t cap = true) := by
  by_cases hrefused : Refused k.tasks c cap pid flags
  · rw [(setThreadSocketAttrs_of_refused hrefused).2] at ht'
    exact ⟨t', ht', .refl t', .inl rfl⟩
  · obtain ⟨hflags, task, htask, hmay⟩ := exists_target_of_not_refused hrefused
    rw [setThreadSocketAttrs_of_accepted hflags htask hmay] at ht'
    obtain ⟨t, ht, rfl⟩ := List.mem_map.mp ht'
    refine ⟨t, ht, ?_⟩
    split
    · next hself =>
        obtain rfl : t = task := hd t ht task (target_mem hc htask) hself
        exact ⟨assignAttrs_change t _ _, .inr hmay⟩
    · exact ⟨.refl t, .inl rfl⟩

theorem AttrsChange.self_eq {t t' : TaskStruct} (h : AttrsChange t t') : t'.self = t.self := by
  have hself := congrArg TaskStruct.self h.keeps
  exact hself

theorem AttrsChange.inRange {t t' : TaskStruct} (h : AttrsChange t t') (hr : InRange t) :
    InRange t' where
  limit := by
    have hlimit := hr.limit
    rcases h.limit with heq | hge <;> omega
  level_nonneg := by
    have hlevel := hr.level_nonneg
    rcases h.level with heq | hin <;> omega
  level_le := by
    have hlevel := hr.level_le
    rcases h.level with heq | hin <;> omega

/-- What holds in every state: one task per structure, attributes in range. -/
structure AttrInv (s : AttrState) : Prop where
  distinct : s.kernel.Distinct
  inRange : ∀ t ∈ s.kernel.tasks, InRange t

theorem attrInv_boot : AttrInv attrBoot where
  distinct t ht u hu _ := by
    obtain rfl := List.mem_singleton.mp ht
    obtain rfl := List.mem_singleton.mp hu
    rfl
  inRange t ht := by
    obtain rfl := List.mem_singleton.mp ht
    constructor <;> decide

theorem withTask_distinct {s : AttrState} (hd : s.kernel.Distinct) {tsk : Addr}
    {f : TaskStruct → TaskStruct} (hf : ∀ t, t.self = tsk → (f t).self = t.self) :
    (s.withTask tsk f).kernel.Distinct := by
  apply hd.map
  intro t
  split
  · next h => exact hf t h
  · rfl

theorem attrSystem_step {s s' : AttrState} {a : AttrAction} {e : Option Int} (hi : AttrInv s)
    (h : attrSystem.step s a = some (s', e)) : AttrInv s' ∧ GuardedStep s a s' := by
  change s.step a = some (s', e) at h
  cases a with
  | kernel a =>
      obtain ⟨⟨k', e'⟩, hk, hs⟩ := Option.map_eq_some_iff.mp h
      obtain ⟨rfl, -⟩ : { s with kernel := k' } = s' ∧ none = e := by simpa using hs
      have hin := inherits_kernel hk
      exact ⟨⟨hi.distinct.step hk, hin.inRange hi.inRange⟩, hin.guarded hi.distinct _⟩
  | setThreadSocketAttrs cur cap pid maxSockets priorityLevel flags =>
      cases hc : s.kernel.task? cur with
      | none => simp [AttrState.step, hc] at h
      | some c =>
          obtain ⟨hmem, -, rfl⟩ := State.task?_mem hc
          simp only [AttrState.step, hc, Option.some.injEq, Prod.mk.injEq] at h
          obtain ⟨rfl, -⟩ := h
          have hcall : ∀ t' ∈ (Net.setThreadSocketAttrs s.kernel.tasks c cap pid maxSockets
              priorityLevel flags).1, _ := fun t' ht' =>
            mem_setThreadSocketAttrs hi.distinct hmem cap pid maxSockets priorityLevel flags ht'
          refine ⟨⟨?_, ?_⟩, ⟨?_, ?_⟩⟩
          · obtain ⟨f, hf, hmap⟩ := setThreadSocketAttrs_map s.kernel.tasks c cap pid maxSockets
              priorityLevel flags
            simp only [hmap]
            exact hi.distinct.map (fun t => (hf t).self_eq) s.kernel.heap
          · intro t' ht'
            obtain ⟨t, ht, hchange, -⟩ := hcall t' ht'
            exact hchange.inRange (hi.inRange t ht)
          · intro t' ht' hnew
            obtain ⟨t, ht, hchange, -⟩ := hcall t' ht'
            exact absurd hchange.self_eq.symm (hnew t ht)
          · intro t ht t' ht' hself hne
            obtain ⟨u, hu, hchange, hwhy⟩ := hcall t' ht'
            obtain rfl : t = u := hi.distinct t ht u hu (hself.symm.trans hchange.self_eq)
            rcases hwhy with rfl | hmay
            · exact absurd ⟨rfl, rfl⟩ hne
            · refine ⟨c, hmem, cap, pid, maxSockets, priorityLevel, flags, rfl, ?_⟩
              simpa [mayChange, or_assoc] using hmay
  | sockCreate cur family type kern o =>
      cases hc : s.kernel.task? cur with
      | none => simp [AttrState.step, hc] at h
      | some c =>
          obtain ⟨hmem, -, rfl⟩ := State.task?_mem hc
          simp only [AttrState.step, hc, Option.some.injEq, Prod.mk.injEq] at h
          obtain ⟨rfl, -⟩ := h
          obtain ⟨n, hn⟩ := sockCreate_task ⟨c, s.kernel.tasks.filter fun t => t.self ≠ c.self,
            s.socks c.self⟩ family type kern o
          rw [hn]
          have hin : ∀ socks, Inherits s
              { s.withTask c.self fun _ => { c with socketCount := n } with socks := socks } := by
            intro socks
            refine .of_map rfl ?_
            intro t ht
            split
            · next hself =>
                obtain rfl := hi.distinct t ht c hmem hself
                exact ⟨rfl, rfl, rfl⟩
            · exact ⟨rfl, rfl, rfl⟩
          exact ⟨⟨withTask_distinct hi.distinct fun t ht => ht.symm,
            (hin _).inRange hi.inRange⟩, (hin _).guarded hi.distinct _⟩
  | commitCreds tsk uid euid =>
      simp only [AttrState.step, Option.some.injEq, Prod.mk.injEq] at h
      obtain ⟨rfl, -⟩ := h
      have hin : Inherits s (s.withTask tsk fun t => { t with uid := uid, euid := euid }) := by
        refine .of_map rfl ?_
        intro t _
        split <;> exact ⟨rfl, rfl, rfl⟩
      exact ⟨⟨withTask_distinct hi.distinct fun _ _ => rfl, hin.inRange hi.inRange⟩,
        hin.guarded hi.distinct _⟩

/-- In every reachable state all attributes are in range, and from there new tasks start at
zero and attributes change in authorised calls only. -/
theorem socketAttrs_safe {acts : List AttrAction} {s : AttrState} {tr : List (Option Int)}
    (h : attrSystem.run attrBoot acts = some (s, tr)) :
    (∀ t ∈ s.kernel.tasks, InRange t) ∧
      ∀ a s' e, attrSystem.step s a = some (s', e) → GuardedStep s a s' := by
  have hinv : AttrInv s :=
    attrSystem.run_invariant (fun hi hs => (attrSystem_step hi hs).1) attrInv_boot h
  exact ⟨hinv.inRange, fun a s' e hs => (attrSystem_step hinv hs).2⟩

def limitingChild : List AttrAction :=
  let outcome (task pid store lock : Nat) : ForkOutcome :=
    ⟨fun _ => none, task, task + 1, pid, some store, some lock⟩
  [.kernel (.copyProcess 0 ⟨0, false, false, false, false⟩ (outcome 10 1 100 101)),
    .commitCreds 10 5 5,
    .kernel (.copyProcess 10 ⟨0, false, false, false, false⟩ (outcome 20 2 200 201)),
    .setThreadSocketAttrs 20 false 0 3 50 0, .setThreadSocketAttrs 20 false 1 (-1) 101 0]

theorem socketAttrs_safe_limitingChild : ∃ s tr,
    attrSystem.run attrBoot limitingChild = some (s, tr) ∧ tr = [none, none, none, some 0, some 0] ∧
      (∀ t ∈ s.kernel.tasks, InRange t) ∧
      ∀ a s' e, attrSystem.step s a = some (s', e) → GuardedStep s a s' := by
  have hrun : (attrSystem.run attrBoot limitingChild).map (·.2) =
      some [none, none, none, some 0, some 0] := by decide
  obtain ⟨⟨s, tr⟩, h, htr⟩ := Option.map_eq_some_iff.mp hrun
  exact ⟨s, tr, h, htr, socketAttrs_safe h⟩

end OShm.Net
