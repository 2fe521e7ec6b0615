import OShm.Kernel.System

/-! # Sharing of stores follows thread groups

The invariant of every task tree: outside group 0 a task points to allocated
arrays, and two live tasks point to the same arrays exactly when they are in one
thread group. Isolation between groups is a consequence of that invariant alone.
-/

namespace OShm.Kernel

open OShm.Lib OShm.Lib.ChainedTable

def SameArrays (t u : TaskStruct) : Prop :=
  t.kvStore = u.kvStore ∧ t.kvStoreLock = u.kvStoreLock

instance (t u : TaskStruct) : Decidable (SameArrays t u) :=
  inferInstanceAs (Decidable (t.kvStore = u.kvStore ∧ t.kvStoreLock = u.kvStoreLock))

/-- Outside group 0, `f` takes equal values exactly on the live tasks of one group. -/
def GroupsBy (f : TaskStruct → Option Addr) (tasks : List TaskStruct) : Prop :=
  ∀ t ∈ tasks, ∀ u ∈ tasks, t.hashed → u.hashed → t.tgid ≠ 0 → (f t = f u ↔ t.tgid = u.tgid)

theorem GroupsBy.cons {f : TaskStruct → Option Addr} {tasks : List TaskStruct} {p : TaskStruct}
    (h : GroupsBy f tasks)
    (hp : ∀ u ∈ tasks, u.hashed → u.tgid ≠ 0 ∨ p.tgid ≠ 0 → (f u = f p ↔ u.tgid = p.tgid)) :
    GroupsBy f (p :: tasks) := by
  intro t ht u hu hlt hlu hg
  rcases List.mem_cons.mp ht with rfl | ht' <;> rcases List.mem_cons.mp hu with rfl | hu'
  · exact ⟨fun _ => rfl, fun _ => rfl⟩
  · exact eq_comm.trans ((hp u hu' hlu (Or.inr hg)).trans eq_comm)
  · exact hp t ht' hlt (Or.inl hg)
  · exact h t ht' u hu' hlt hlu hg

theorem GroupsBy.join {f : TaskStruct → Option Addr} {tasks : List TaskStruct}
    {cur p : TaskStruct} (h : GroupsBy f tasks) (hcur : cur ∈ tasks) (hl : cur.hashed)
    (hgroup : p.tgid = cur.tgid) (hf : f p = f cur) : GroupsBy f (p :: tasks) := by
  refine h.cons ?_
  rw [hgroup, hf]
  rintro u hu hlu (hg | hg)
  · exact h u hu cur hcur hlu hl hg
  · exact eq_comm.trans ((h cur hcur u hu hl hlu hg).trans eq_comm)

theorem GroupsBy.found {f : TaskStruct → Option Addr} {tasks : List TaskStruct} {p : TaskStruct}
    (h : GroupsBy f tasks)
    (hgroup : ∀ t ∈ tasks, t.hashed → t.tgid ≠ 0 ∨ p.tgid ≠ 0 → t.tgid ≠ p.tgid)
    (hf : ∀ t ∈ tasks, f t ≠ f p) : GroupsBy f (p :: tasks) :=
  h.cons fun u hu hl hg => iff_of_false (hf u hu) (hgroup u hu hl hg)

structure State.WellFormed (s : State) : Prop where
  store_live : ∀ t ∈ s.tasks, ∀ a, t.kvStore = some a → (.bucketArray, a) ∈ s.heap.live
  lock_live : ∀ t ∈ s.tasks, ∀ b, t.kvStoreLock = some b → (.lockArray, b) ∈ s.heap.live
  store_some : ∀ t ∈ s.tasks, t.tgid ≠ 0 → ∃ a, t.kvStore = some a
  lock_some : ∀ t ∈ s.tasks, t.tgid ≠ 0 → ∃ b, t.kvStoreLock = some b
  group_store : GroupsBy TaskStruct.kvStore s.tasks
  group_lock : GroupsBy TaskStruct.kvStoreLock s.tasks
  placed : ∀ t ∈ s.tasks, ∀ a, t.kvStore = some a → Placed kvHash (s.heap.table a)

theorem KvHeap.mem_addrs {h : KvHeap} {kind : KvKind} {a : Addr} (hm : (kind, a) ∈ h.live) :
    a ∈ h.addrs := List.mem_map.mpr ⟨(kind, a), hm, rfl⟩

theorem boot_wellFormed : boot.WellFormed := by
  have only : ∀ t ∈ boot.tasks, t = initTask := by
    intro t ht
    simpa [boot] using ht
  constructor
  all_goals
    intro t ht
    rw [only t ht]
    simp [initTask]

namespace State.WellFormed

/-- The invariant survives any change of the heap that keeps what tasks point to. -/
theorem heap {s : State} {h : KvHeap} (hw : s.WellFormed)
    (hlive : ∀ x ∈ s.heap.live, x ∈ h.live)
    (hplaced : ∀ t ∈ s.tasks, ∀ a, t.kvStore = some a → Placed kvHash (h.table a)) :
    State.WellFormed ⟨s.tasks, h⟩ where
  store_live t ht a ha := hlive _ (hw.store_live t ht a ha)
  lock_live t ht b hb := hlive _ (hw.lock_live t ht b hb)
  store_some := hw.store_some
  lock_some := hw.lock_some
  group_store := hw.group_store
  group_lock := hw.group_lock
  placed := hplaced

theorem extend {s : State} {h : KvHeap} (hw : s.WellFormed) (hx : s.heap.Extends h) :
    State.WellFormed ⟨s.tasks, h⟩ := by
  refine hw.heap hx.live ?_
  intro t ht a ha
  rw [hx.table a (KvHeap.mem_addrs (hw.store_live t ht a ha))]
  exact hw.placed t ht a ha

theorem free {s : State} (hw : s.WellFormed) (tsk : Addr) :
    State.WellFormed ⟨putTaskStruct s.tasks tsk, s.heap⟩ := by
  have sub : ∀ t ∈ putTaskStruct s.tasks tsk, t ∈ s.tasks := fun t ht => List.mem_of_mem_filter ht
  exact
    { store_live := fun t ht => hw.store_live t (sub t ht)
      lock_live := fun t ht => hw.lock_live t (sub t ht)
      store_some := fun t ht => hw.store_some t (sub t ht)
      lock_some := fun t ht => hw.lock_some t (sub t ht)
      group_store := fun t ht u hu => hw.group_store t (sub t ht) u (sub u hu)
      group_lock := fun t ht u hu => hw.group_lock t (sub t ht) u (sub u hu)
      placed := fun t ht => hw.placed t (sub t ht) }

theorem reap {s : State} (hw : s.WellFormed) (tsk : Addr) :
    State.WellFormed ⟨releaseTask s.tasks tsk, s.heap⟩ where
  store_live := forall_releaseTask (P := fun t => ∀ a, t.kvStore = some a → _)
    (fun _ => id) hw.store_live
  lock_live := forall_releaseTask (P := fun t => ∀ b, t.kvStoreLock = some b → _)
    (fun _ => id) hw.lock_live
  store_some := forall_releaseTask (P := fun t => t.tgid ≠ 0 → ∃ a, t.kvStore = some a)
    (fun _ => id) hw.store_some
  lock_some := forall_releaseTask (P := fun t => t.tgid ≠ 0 → ∃ b, t.kvStoreLock = some b)
    (fun _ => id) hw.lock_some
  group_store t ht u hu hlt hlu :=
    hw.group_store t (mem_of_mem_releaseTask ht hlt) u (mem_of_mem_releaseTask hu hlu) hlt hlu
  group_lock t ht u hu hlt hlu :=
    hw.group_lock t (mem_of_mem_releaseTask ht hlt) u (mem_of_mem_releaseTask hu hlu) hlt hlu
  placed := forall_releaseTask (P := fun t => ∀ a, t.kvStore = some a → Placed kvHash _)
    (fun _ => id) hw.placed

theorem spawn {s : State} {p : TaskStruct} (hw : s.WellFormed)
    (hlive : ∀ a, p.kvStore = some a →
      (.bucketArray, a) ∈ s.heap.live ∧ Placed kvHash (s.heap.table a))
    (hlock : ∀ b, p.kvStoreLock = some b → (.lockArray, b) ∈ s.heap.live)
    (hsome : p.tgid ≠ 0 → (∃ a, p.kvStore = some a) ∧ ∃ b, p.kvStoreLock = some b)
    (hgs : GroupsBy TaskStruct.kvStore (p :: s.tasks))
    (hgl : GroupsBy TaskStruct.kvStoreLock (p :: s.tasks)) :
    State.WellFormed ⟨p :: s.tasks, s.heap⟩ where
  store_live := List.forall_mem_cons.mpr ⟨fun a ha => (hlive a ha).1, hw.store_live⟩
  lock_live := List.forall_mem_cons.mpr ⟨hlock, hw.lock_live⟩
  store_some := List.forall_mem_cons.mpr ⟨fun h => (hsome h).1, hw.store_some⟩
  lock_some := List.forall_mem_cons.mpr ⟨fun h => (hsome h).2, hw.lock_some⟩
  group_store := hgs
  group_lock := hgl
  placed := List.forall_mem_cons.mpr ⟨fun a ha => (hlive a ha).2, hw.placed⟩

theorem spawn_thread {s : State} {cur p : TaskStruct} (hw : s.WellFormed) (hcur : cur ∈ s.tasks)
    (hl : cur.hashed) (hgroup : p.tgid = cur.tgid)
    (hstore : p.kvStore = cur.kvStore) (hlock : p.kvStoreLock = cur.kvStoreLock) :
    State.WellFormed ⟨p :: s.tasks, s.heap⟩ := by
  refine hw.spawn ?_ ?_ ?_ (hw.group_store.join hcur hl hgroup hstore)
    (hw.group_lock.join hcur hl hgroup hlock)
  · rw [hstore]
    exact fun a ha => ⟨hw.store_live cur hcur a ha, hw.placed cur hcur a ha⟩
  · rw [hlock]
    exact hw.lock_live cur hcur
  · rw [hgroup, hstore, hlock]
    exact fun h => ⟨hw.store_some cur hcur h, hw.lock_some cur hcur h⟩

/-- Without `CLONE_THREAD`: a group number no task has, or 0 for an idle task, and
arrays that were not allocated before. -/
theorem spawn_process {s : State} {p : TaskStruct} {h : KvHeap} {a b : Addr} (hw : s.WellFormed)
    (hx : s.heap.Extends h)
    (hgroup : ∀ t ∈ s.tasks, t.hashed → t.tgid ≠ 0 ∨ p.tgid ≠ 0 → t.tgid ≠ p.tgid)
    (hstore : p.kvStore = some a) (hlock : p.kvStoreLock = some b)
    (ha : a ∉ s.heap.addrs) (hb : b ∉ s.heap.addrs)
    (hal : (.bucketArray, a) ∈ h.live) (hbl : (.lockArray, b) ∈ h.live)
    (hempty : h.table a = fun _ => []) : State.WellFormed ⟨p :: s.tasks, h⟩ := by
  refine (hw.extend hx).spawn ?_ ?_ (fun _ => ⟨⟨a, hstore⟩, b, hlock⟩)
    (hw.group_store.found hgroup ?_) (hw.group_lock.found hgroup ?_)
  · intro a' ha'
    obtain rfl : a = a' := by simpa [hstore] using ha'
    refine ⟨hal, ?_⟩
    change Placed kvHash (h.table a)
    rw [hempty]
    exact placed_empty kvHash
  · intro b' hb'
    obtain rfl : b = b' := by simpa [hlock] using hb'
    exact hbl
  · intro u hu he
    exact ha (KvHeap.mem_addrs (hw.store_live u hu a (he.trans hstore)))
  · intro u hu he
    exact hb (KvHeap.mem_addrs (hw.lock_live u hu b (he.trans hlock)))

theorem step {s s' : State} {a : Action} {e : Event} (hw : s.WellFormed)
    (h : kernel.step s a = some (s', e)) : s'.WellFormed := by
  cases State.step_cases h with
  | forkFailed ht hl hs he => exact hw.extend (he.extends hs.store_new)
  | forked ht hl hs he =>
      have hx := he.extends hs.store_new
      cases he with
      | thread hyes =>
          exact hw.spawn_thread ht hl (by simp [forkChild, hyes]) rfl rfl
      | process a b hno ha hb hlate =>
          refine hw.spawn_process hx ?_ rfl rfl (hs.store_new a ha) (hs.lock_new b hb).1
            ?_ ?_ (by simp [KvHeap.initHlistHeads])
          · rename_i t args o
            intro u hu hlu hg
            have hfresh := (hs.pid_new u hu hlu).2
            cases hi : args.initStructPid with
            | true => simpa [forkChild, hno, hi] using hg
            | false => simpa [forkChild, hno, hi] using hfresh
          · exact (KvHeap.mem_withArrays _ _ _ _).mpr (Or.inl ⟨rfl, rfl⟩)
          · exact (KvHeap.mem_withArrays _ _ _ _).mpr (Or.inr (Or.inl ⟨rfl, rfl⟩))
  | wrote ht hl hst hg hm =>
      refine hw.heap ?_ (fun t ht a ha => writeKv_placed _ _ _ (hw.placed t ht a ha))
      intro x hx
      rename_i t store k v mem
      rcases writeKv_cases s.heap store k v mem with ⟨_, _, he⟩ | ⟨_, _, _, he⟩ | ⟨_, _, he⟩ <;>
        rw [he] <;> simp [KvHeap.setBucket, hx]
  | didRead ht hl hst hg => exact hw
  | reaped ht hl => exact hw.reap _
  | freed ht hd => exact hw.free _

end State.WellFormed

theorem run_wellFormed {acts : List Action} {s : State} {tr : List Event}
    (hr : kernel.run boot acts = some (s, tr)) : s.WellFormed :=
  kernel.run_invariant (fun hw h => hw.step h) boot_wellFormed hr

/-! ## Isolation of thread groups -/

theorem State.WellFormed.sameArrays_iff {s : State} (hw : s.WellFormed) {t u : TaskStruct}
    (ht : t ∈ s.tasks) (hu : u ∈ s.tasks) (hlt : t.hashed) (hlu : u.hashed)
    (hg : t.tgid ≠ 0 ∨ u.tgid ≠ 0) : SameArrays t u ↔ t.tgid = u.tgid := by
  constructor
  · rintro ⟨hs, -⟩
    rcases hg with hg | hg
    · exact (hw.group_store t ht u hu hlt hlu hg).mp hs
    · exact ((hw.group_store u hu t ht hlu hlt hg).mp hs.symm).symm
  · intro he
    have hgt : t.tgid ≠ 0 := hg.elim id fun h => he ▸ h
    exact ⟨(hw.group_store t ht u hu hlt hlu hgt).mpr he,
      (hw.group_lock t ht u hu hlt hlu hgt).mpr he⟩

/-- Tasks of different groups use different bucket arrays, so the chains one of
them walks are out of reach of the other's writes. -/
theorem State.WellFormed.write_frame {s : State} (hw : s.WellFormed) {t u : TaskStruct}
    (ht : t ∈ s.tasks) (hu : u ∈ s.tasks) (hlt : t.hashed) (hlu : u.hashed)
    (hg : t.tgid ≠ u.tgid) {store store' : Addr}
    (hst : t.kvStore = some store) (hsu : u.kvStore = some store') (k v : CInt)
    (mem : Option Addr) (k' : CInt) :
    readKv (writeKv s.heap store k v mem).1 store' k' = readKv s.heap store' k' := by
  have hne : store' ≠ store := by
    rintro rfl
    by_cases h0 : t.tgid = 0
    · have hu0 : u.tgid ≠ 0 := fun e => hg (h0.trans e.symm)
      exact hg ((hw.group_store u hu t ht hlu hlt hu0).mp (hsu.trans hst.symm)).symm
    · exact hg ((hw.group_store t ht u hu hlt hlu h0).mp (hst.trans hsu.symm))
  exact readKv_congr (writeKv_table_of_ne s.heap k v mem hne) k'

theorem forked_empty {s s' : State} {cur : Addr} {args : CloneArgs} {o : ForkOutcome} {e : Event}
    {p : TaskStruct} (h : kernel.step s (.copyProcess cur args o) = some (s', e))
    (hp : s'.tasks = p :: s.tasks) (hno : args.flags.any cloneThread = false) :
    ∃ a, p.kvStore = some a ∧ ∀ b, s'.heap.table a b = [] := by
  cases State.step_cases h with
  | forkFailed ht hl hs he => exact absurd (congrArg List.length hp) (by simp)
  | forked ht hl hs he =>
      obtain ⟨rfl, -⟩ := List.cons.inj hp
      cases he with
      | thread hyes => simp [hno] at hyes
      | process a b _ ha hb hlate => exact ⟨a, rfl, fun b => by simp [KvHeap.initHlistHeads]⟩

/-- Isolation along every task tree, for all tasks but pairs inside group 0. -/
theorem kv_isolation {acts : List Action} {s : State} {tr : List Event}
    (hr : kernel.run boot acts = some (s, tr)) :
    (∀ t ∈ s.tasks, ∀ u ∈ s.tasks, t.hashed → u.hashed → t.tgid ≠ 0 ∨ u.tgid ≠ 0 →
      (SameArrays t u ↔ t.tgid = u.tgid)) ∧
    (∀ cur args o s' e p, kernel.step s (.copyProcess cur args o) = some (s', e) →
      s'.tasks = p :: s.tasks → args.flags.any cloneThread = false →
      ∃ a, p.kvStore = some a ∧ ∀ b, s'.heap.table a b = []) ∧
    (∀ t ∈ s.tasks, ∀ u ∈ s.tasks, t.hashed → u.hashed → t.tgid ≠ u.tgid → ∀ store store',
      t.kvStore = some store → u.kvStore = some store' → ∀ k v mem k',
      readKv (writeKv s.heap store k v mem).1 store' k' = readKv s.heap store' k') := by
  have hw := run_wellFormed hr
  refine ⟨?_, ?_, ?_⟩
  · intro t ht u hu hlt hlu hg
    exact hw.sameArrays_iff ht hu hlt hlu hg
  · intro cur args o s' e p h hp hno
    exact forked_empty h hp hno
  · intro t ht u hu hlt hlu hg store store' hst hsu k v mem k'
    exact hw.write_frame ht hu hlt hlu hg hst hsu k v mem k'

def cleanFork (task pid : Nat) (store lock : Addr) : ForkOutcome :=
  ⟨fun _ => none, task, task + 1, pid, some store, some lock⟩

def plainArgs (flags : CloneFlags) : CloneArgs := ⟨flags, false, false, false, false⟩

def forkTree : List Action :=
  [.copyProcess 0 (plainArgs 0) (cleanFork 16 1 100 101),
   .copyProcess 16 (plainArgs 0) (cleanFork 32 2 200 201),
   .copyProcess 32 (plainArgs (cloneVm ||| cloneSighand ||| cloneThread))
     (cleanFork 48 3 300 301),
   .writeKv 48 7 42 (some 400)]

theorem kv_isolation_forkTree :
    ∃ s tr, kernel.run boot forkTree = some (s, tr) ∧ s.tasks.map TaskStruct.tgid = [2, 2, 1, 0] ∧
      ∀ t ∈ s.tasks, ∀ u ∈ s.tasks, t.hashed → u.hashed → t.tgid ≠ 0 ∨ u.tgid ≠ 0 →
        (SameArrays t u ↔ t.tgid = u.tgid) :=
  ⟨_, _, rfl, rfl, (@kv_isolation forkTree _ _ rfl).1⟩

def idleTree : List Action :=
  [.copyProcess 0 (plainArgs cloneVm) (cleanFork 16 1 100 101),
   .copyProcess 16 { plainArgs cloneVm with initStructPid := true } (cleanFork 32 2 200 201),
   .copyProcess 16 { plainArgs cloneVm with initStructPid := true } (cleanFork 48 3 300 301)]

/-- Idle tasks all have pid and tgid 0, and each has arrays of its own. -/
theorem idle_tasks_not_sharing :
    ¬ ∀ acts s tr, kernel.run boot acts = some (s, tr) → ∀ t ∈ s.tasks, ∀ u ∈ s.tasks,
      t.hashed → u.hashed → (SameArrays t u ↔ t.tgid = u.tgid) := by
  intro h
  have hrun := h idleTree _ _ rfl
  have hpair := hrun _ (List.mem_cons_self) _ (List.mem_cons_of_mem _ List.mem_cons_self) rfl rfl
  exact absurd hpair (by decide)

end OShm.Kernel
