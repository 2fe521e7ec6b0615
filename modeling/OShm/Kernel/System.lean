import OShm.Kernel.Fork
import OShm.Lib.Transition

/-! # Task trees and their key-value stores as one system

Any task may fork, use the store, be reaped and then be freed, in any order. The
allocators answer through the actions; an action is enabled only when the memory
and the pid it hands out are not in use. System calls come from tasks outside
thread group 0, which holds the swapper and the idle tasks only.
-/

namespace OShm.Kernel

open OShm.Lib OShm.Lib.ChainedTable

structure State where
  /-- The tasks whose structure has not been freed. -/
  tasks : List TaskStruct
  heap : KvHeap

namespace State

/-- The task that runs with the given structure as `current`, or is to be reaped. -/
def task? (s : State) (a : Addr) : Option TaskStruct :=
  s.tasks.find? fun t => t.self = a ∧ t.hashed

theorem task?_mem {s : State} {a : Addr} {t : TaskStruct} (h : s.task? a = some t) :
    t ∈ s.tasks ∧ t.hashed ∧ t.self = a := by
  have hp : t.self = a ∧ t.hashed := by simpa using List.find?_some h
  exact ⟨List.mem_of_find?_eq_some h, hp.2, hp.1⟩

/-- What the allocators promise about one `copy_process` call. -/
structure Supplies (s : State) (o : ForkOutcome) : Prop where
  task_new : ∀ t ∈ s.tasks, t.self ≠ o.task
  mm_new : ∀ t ∈ s.tasks, t.mm ≠ some o.mm
  pid_ne_zero : o.pid ≠ 0
  pid_new : ∀ t ∈ s.tasks, t.hashed → t.pid ≠ o.pid ∧ t.tgid ≠ o.pid
  store_new : ∀ a ∈ o.kvStore, a ∉ s.heap.addrs
  lock_new : ∀ b ∈ o.kvStoreLock, b ∉ s.heap.addrs ∧ o.kvStore ≠ some b

theorem supplies_iff {s : State} {o : ForkOutcome} :
    ((∀ t ∈ s.tasks, t.self ≠ o.task) ∧ (∀ t ∈ s.tasks, t.mm ≠ some o.mm) ∧ o.pid ≠ 0 ∧
      (∀ t ∈ s.tasks, t.hashed → t.pid ≠ o.pid ∧ t.tgid ≠ o.pid) ∧
      (∀ a ∈ o.kvStore, a ∉ s.heap.addrs) ∧
      ∀ b ∈ o.kvStoreLock, b ∉ s.heap.addrs ∧ o.kvStore ≠ some b) ↔ s.Supplies o := by
  constructor
  · rintro ⟨htask, hmm, hzero, hpid, hstore, hlock⟩
    exact ⟨htask, hmm, hzero, hpid, hstore, hlock⟩
  · intro h
    exact ⟨h.task_new, h.mm_new, h.pid_ne_zero, h.pid_new, h.store_new, h.lock_new⟩

instance (s : State) (o : ForkOutcome) : Decidable (s.Supplies o) :=
  decidable_of_iff _ supplies_iff

end State

inductive Action where
  | copyProcess (cur : Addr) (args : CloneArgs) (o : ForkOutcome)
  | writeKv (cur : Addr) (k v : CInt) (mem : Option Addr)
  | readKv (cur : Addr) (k : CInt)
  | releaseTask (tsk : Addr)
  | putTaskStruct (tsk : Addr)

inductive Event where
  /-- A successful `copy_process`, with the thread group of the child. -/
  | forked (tgid : Nat) (newGroup : Bool)
  | forkFailed (e : Errno)
  | wroteKv (tgid : Nat) (k v : CInt) (ret : Int)
  | didReadKv (tgid : Nat) (k : CInt) (ret : Int)
  | reaped (tgid : Nat)
  | freed
  deriving DecidableEq, Repr

def State.step (s : State) : Action → Option (State × Event)
  | .copyProcess cur args o =>
      match s.task? cur with
      | none => none
      | some t =>
          if s.Supplies o then
            match copyProcess s.heap t args o with
            | (h, .error e) => some (⟨s.tasks, h⟩, .forkFailed e)
            | (h, .ok p) => some (⟨p :: s.tasks, h⟩, .forked p.tgid (!args.flags.any cloneThread))
          else none
  | .writeKv cur k v mem =>
      match s.task? cur with
      | none => none
      | some t =>
          match t.kvStore with
          | none => none
          | some store =>
              if t.tgid ≠ 0 ∧ ∀ a ∈ mem, a ∉ s.heap.addrs then
                let r := writeKv s.heap store k v mem
                some (⟨s.tasks, r.1⟩, .wroteKv t.tgid k v r.2)
              else none
  | .readKv cur k =>
      match s.task? cur with
      | none => none
      | some t =>
          match t.kvStore with
          | none => none
          | some store =>
              if t.tgid ≠ 0 then some (s, .didReadKv t.tgid k (readKv s.heap store k)) else none
  | .releaseTask tsk =>
      match s.task? tsk with
      | none => none
      | some t => some (⟨releaseTask s.tasks tsk, s.heap⟩, .reaped t.tgid)
  | .putTaskStruct tsk =>
      if ∃ t ∈ s.tasks, t.self = tsk ∧ ¬ t.hashed then
        some (⟨putTaskStruct s.tasks tsk, s.heap⟩, .freed)
      else none

def kernel : System State Action Event := ⟨State.step⟩

/-- `init_task`: pid 0, no `mm`, and the zero pointers of static storage. -/
def initTask : TaskStruct :=
  ⟨0, 0, 0, none, none, none, 0, 0, 0, 0, 0, true⟩

def boot : State := ⟨[initTask], ⟨[], fun _ _ => []⟩⟩

/-! ## What a step can do -/

inductive State.Steps (s : State) : Action → State → Event → Prop where
  | forkFailed {t : TaskStruct} {args : CloneArgs} {o : ForkOutcome} {h : KvHeap} {e : Errno}
      (ht : t ∈ s.tasks) (hl : t.hashed) (hs : s.Supplies o)
      (he : ForkEffect s.heap t args o h (.error e)) :
      Steps s (.copyProcess t.self args o) ⟨s.tasks, h⟩ (.forkFailed e)
  | forked {t p : TaskStruct} {args : CloneArgs} {o : ForkOutcome} {h : KvHeap}
      (ht : t ∈ s.tasks) (hl : t.hashed) (hs : s.Supplies o)
      (he : ForkEffect s.heap t args o h (.ok p)) :
      Steps s (.copyProcess t.self args o) ⟨p :: s.tasks, h⟩
        (.forked p.tgid (!args.flags.any cloneThread))
  | wrote {t : TaskStruct} {store : Addr} {k v : CInt} {mem : Option Addr}
      (ht : t ∈ s.tasks) (hl : t.hashed) (hst : t.kvStore = some store) (hg : t.tgid ≠ 0)
      (hm : ∀ a ∈ mem, a ∉ s.heap.addrs) :
      Steps s (.writeKv t.self k v mem) ⟨s.tasks, (writeKv s.heap store k v mem).1⟩
        (.wroteKv t.tgid k v (writeKv s.heap store k v mem).2)
  | didRead {t : TaskStruct} {store : Addr} {k : CInt}
      (ht : t ∈ s.tasks) (hl : t.hashed) (hst : t.kvStore = some store) (hg : t.tgid ≠ 0) :
      Steps s (.readKv t.self k) s (.didReadKv t.tgid k (readKv s.heap store k))
  | reaped {t : TaskStruct} (ht : t ∈ s.tasks) (hl : t.hashed) :
      Steps s (.releaseTask t.self) ⟨releaseTask s.tasks t.self, s.heap⟩ (.reaped t.tgid)
  | freed {t : TaskStruct} (ht : t ∈ s.tasks) (hd : ¬ t.hashed) :
      Steps s (.putTaskStruct t.self) ⟨putTaskStruct s.tasks t.self, s.heap⟩ .freed

theorem State.step_cases {s s' : State} {a : Action} {e : Event}
    (h : kernel.step s a = some (s', e)) : s.Steps a s' e := by
  change s.step a = some (s', e) at h
  cases a with
  | copyProcess cur args o =>
      cases ht : s.task? cur with
      | none => simp [State.step, ht] at h
      | some t =>
          obtain ⟨hmem, hl, rfl⟩ := task?_mem ht
          by_cases hs : s.Supplies o
          · have heff := copyProcess_effect s.heap t args o
            simp only [State.step, ht, if_pos hs] at h
            cases hc : copyProcess s.heap t args o with
            | mk h' r =>
                simp only [hc] at h heff
                cases r with
                | error err =>
                    obtain ⟨rfl, rfl⟩ : _ = s' ∧ _ = e := by simpa using h
                    exact .forkFailed hmem hl hs heff
                | ok p =>
                    obtain ⟨rfl, rfl⟩ : _ = s' ∧ _ = e := by simpa using h
                    exact .forked hmem hl hs heff
          · simp [State.step, ht, if_neg hs] at h
  | writeKv cur k v mem =>
      cases ht : s.task? cur with
      | none => simp [State.step, ht] at h
      | some t =>
          obtain ⟨hmem, hl, rfl⟩ := task?_mem ht
          cases hst : t.kvStore with
          | none => simp [State.step, ht, hst] at h
          | some store =>
              simp only [State.step, ht, hst] at h
              split at h
              · rename_i hg
                obtain ⟨rfl, rfl⟩ : _ = s' ∧ _ = e := by simpa using h
                exact .wrote hmem hl hst hg.1 hg.2
              · simp at h
  | readKv cur k =>
      cases ht : s.task? cur with
      | none => simp [State.step, ht] at h
      | some t =>
          obtain ⟨hmem, hl, rfl⟩ := task?_mem ht
          cases hst : t.kvStore with
          | none => simp [State.step, ht, hst] at h
          | some store =>
              simp only [State.step, ht, hst] at h
              split at h
              · rename_i hg
                obtain ⟨rfl, rfl⟩ : s = s' ∧ _ = e := by simpa using h
                exact .didRead hmem hl hst hg
              · simp at h
  | releaseTask tsk =>
      cases ht : s.task? tsk with
      | none => simp [State.step, ht] at h
      | some t =>
          obtain ⟨hmem, hl, rfl⟩ := task?_mem ht
          simp only [State.step, ht, Option.some.injEq, Prod.mk.injEq] at h
          obtain ⟨rfl, rfl⟩ := h
          exact .reaped hmem hl
  | putTaskStruct tsk =>
      simp only [State.step] at h
      split at h
      · rename_i hd
        obtain ⟨t, hmem, rfl, hdead⟩ := hd
        obtain ⟨rfl, rfl⟩ : _ = s' ∧ _ = e := by simpa using h
        exact .freed hmem hdead
      · simp at h

/-- What does not depend on `hashed` is kept when a task is reaped. -/
theorem forall_releaseTask {P : TaskStruct → Prop} {tasks : List TaskStruct} {tsk : Addr}
    (hP : ∀ t, P t → P { t with hashed := false }) (h : ∀ t ∈ tasks, P t) :
    ∀ t ∈ releaseTask tasks tsk, P t := by
  intro u hu
  obtain ⟨t, ht, rfl⟩ := List.mem_map.mp hu
  split
  · exact hP t (h t ht)
  · exact h t ht

theorem mem_of_mem_releaseTask {tasks : List TaskStruct} {tsk : Addr} {u : TaskStruct}
    (hu : u ∈ releaseTask tasks tsk) (hl : u.hashed) : u ∈ tasks := by
  obtain ⟨t, ht, rfl⟩ := List.mem_map.mp hu
  by_cases he : t.self = tsk
  · simp [he] at hl
  · rwa [if_neg he]

def State.Distinct (s : State) : Prop :=
  ∀ t ∈ s.tasks, ∀ u ∈ s.tasks, t.self = u.self → t = u

theorem State.Distinct.map {s : State} (hd : s.Distinct) {f : TaskStruct → TaskStruct}
    (hf : ∀ t, (f t).self = t.self) (h : KvHeap) : State.Distinct ⟨s.tasks.map f, h⟩ := by
  intro u hu v hv heq
  obtain ⟨t, ht, rfl⟩ := List.mem_map.mp hu
  obtain ⟨t', ht', rfl⟩ := List.mem_map.mp hv
  rw [hf, hf] at heq
  rw [hd t ht t' ht' heq]

theorem State.Distinct.step {s s' : State} {a : Action} {e : Event} (hd : s.Distinct)
    (h : kernel.step s a = some (s', e)) : s'.Distinct := by
  cases State.step_cases h with
  | forkFailed ht hl hs he => exact hd
  | forked ht hl hs he =>
      intro t ht u hu heq
      rcases List.mem_cons.mp ht with rfl | ht' <;> rcases List.mem_cons.mp hu with rfl | hu'
      · rfl
      · exact absurd (heq.symm.trans he.child.1) (hs.task_new u hu')
      · exact absurd (heq.trans he.child.1) (hs.task_new t ht')
      · exact hd t ht' u hu' heq
  | wrote ht hl hst hg hm => exact hd
  | didRead ht hl hst hg => exact hd
  | reaped ht hl => exact hd.map (fun t => by split <;> rfl) s.heap
  | freed ht hdead =>
      intro t ht u hu
      exact hd t (List.mem_of_mem_filter ht) u (List.mem_of_mem_filter hu)

/-! ## Numbers of tasks -/

/-- A live task has its number for itself. The swapper and the idle tasks all have 0. -/
def State.PidsUnique (s : State) : Prop :=
  ∀ t ∈ s.tasks, ∀ u ∈ s.tasks, t.hashed → u.hashed → t.pid ≠ 0 → t.pid = u.pid → t = u

theorem ForkEffect.pid {h h' : KvHeap} {cur p : TaskStruct} {args : CloneArgs} {o : ForkOutcome}
    (he : ForkEffect h cur args o h' (.ok p)) (hpid : p.pid ≠ 0) : p.pid = o.pid := by
  have hchild : p.pid = if args.initStructPid then 0 else o.pid := by
    cases he <;> rfl
  split_ifs at hchild
  · exact absurd hchild hpid
  · exact hchild

theorem State.PidsUnique.step {s s' : State} {a : Action} {e : Event} (hu : s.PidsUnique)
    (h : kernel.step s a = some (s', e)) : s'.PidsUnique := by
  cases State.step_cases h with
  | forkFailed ht hl hs he => exact hu
  | forked ht hl hs he =>
      intro t ht u hu' hlt hlu hpid heq
      rcases List.mem_cons.mp ht with rfl | ht' <;> rcases List.mem_cons.mp hu' with rfl | hu''
      · rfl
      · exact absurd (heq.symm.trans (he.pid hpid)) (hs.pid_new u hu'' hlu).1
      · exact absurd (heq.trans (he.pid (heq ▸ hpid))) (hs.pid_new t ht' hlt).1
      · exact hu t ht' u hu'' hlt hlu hpid heq
  | wrote ht hl hst hg hm => exact hu
  | didRead ht hl hst hg => exact hu
  | reaped ht hl =>
      intro t ht u hu' hlt hlu
      exact hu t (mem_of_mem_releaseTask ht hlt) u (mem_of_mem_releaseTask hu' hlu) hlt hlu
  | freed ht hdead =>
      intro t ht u hu'
      exact hu t (List.mem_of_mem_filter ht) u (List.mem_of_mem_filter hu')

theorem run_pidsUnique {acts : List Action} {s : State} {tr : List Event}
    (hr : kernel.run boot acts = some (s, tr)) : s.PidsUnique := by
  have start : boot.PidsUnique := by
    intro t ht u hu _ _ _ _
    rw [List.mem_singleton.mp ht, List.mem_singleton.mp hu]
  exact kernel.run_invariant (fun hu h => hu.step h) start hr

end OShm.Kernel
