import OShm.Kernel.KvIsolation

/-! # What stays allocated

A bucket array, a lock array or a node belongs to a task that points to it. Every
object a task points to is allocated in every run. The other direction, that every
allocated object belongs to a task whose structure is not freed, is kept exactly
by the steps that `Retains` describes: `copy_process` must not fail once it has
one of its arrays, and the last task of a store must not be freed, because
nothing frees the objects of a store.
-/

namespace OShm.Kernel

open OShm.Lib OShm.Lib.ChainedTable

def Owns (h : KvHeap) (t : TaskStruct) : KvKind × Addr → Prop
  | (.bucketArray, a) => t.kvStore = some a
  | (.lockArray, a) => t.kvStoreLock = some a
  | (.myData, a) => ∃ store, t.kvStore = some store ∧ Links (h.table store) a

theorem owns_of_sameArrays {h : KvHeap} {t u : TaskStruct} (hs : SameArrays t u)
    (x : KvKind × Addr) : Owns h t x ↔ Owns h u x := by
  obtain ⟨kind, a⟩ := x
  cases kind <;> simp [Owns, hs.1, hs.2]

/-- The objects still allocated are exactly those of unreleased tasks. -/
def State.Exact (s : State) : Prop := ∀ x, x ∈ s.heap.live ↔ ∃ t ∈ s.tasks, Owns s.heap t x

structure State.Owning (s : State) : Prop where
  owned_live : ∀ t ∈ s.tasks, ∀ x, Owns s.heap t x → x ∈ s.heap.live
  /-- The bucket array of a task determines its lock array. -/
  paired : ∀ t ∈ s.tasks, ∀ u ∈ s.tasks, ∀ a, t.kvStore = some a → u.kvStore = some a →
    SameArrays t u
  null_lock : ∀ t ∈ s.tasks, t.kvStore = none → t.kvStoreLock = none

theorem State.Owning.store_mem {s : State} (ho : s.Owning) {t : TaskStruct} (ht : t ∈ s.tasks)
    {a : Addr} (ha : t.kvStore = some a) : a ∈ s.heap.addrs :=
  KvHeap.mem_addrs (ho.owned_live t ht (.bucketArray, a) ha)

theorem boot_owning : boot.Owning := by
  have only : ∀ t ∈ boot.tasks, t = initTask := by
    intro t ht
    simpa [boot] using ht
  refine ⟨?_, ?_, ?_⟩
  · rintro t ht ⟨kind, a⟩ hx
    rw [only t ht] at hx
    cases kind <;> simp [Owns, initTask] at hx
  · intro t ht u hu a ha
    rw [only t ht] at ha
    simp [initTask] at ha
  · intro t ht _
    rw [only t ht]
    rfl

theorem boot_exact : boot.Exact := by
  intro x
  constructor
  · intro hx
    simp [boot] at hx
  · rintro ⟨t, ht, hx⟩
    exact boot_owning.owned_live t ht x hx

/-! ## Ownership across heap changes -/

theorem KvHeap.Extends.owns_iff {h h' : KvHeap} (hx : h.Extends h') {t : TaskStruct}
    (hst : ∀ a, t.kvStore = some a → a ∈ h.addrs) (x : KvKind × Addr) :
    Owns h' t x ↔ Owns h t x := by
  obtain ⟨kind, a⟩ := x
  cases kind with
  | bucketArray => exact Iff.rfl
  | lockArray => exact Iff.rfl
  | myData =>
      constructor
      · rintro ⟨store, hs, hl⟩
        exact ⟨store, hs, by rwa [← hx.table store (hst store hs)]⟩
      · rintro ⟨store, hs, hl⟩
        exact ⟨store, hs, by rwa [hx.table store (hst store hs)]⟩

theorem State.Owning.extend {s : State} {h : KvHeap} (ho : s.Owning) (hx : s.heap.Extends h) :
    State.Owning ⟨s.tasks, h⟩ where
  owned_live := by
    intro t ht x hown
    have hold := (hx.owns_iff (fun a ha => ho.store_mem ht ha) x).mp hown
    exact hx.live x (ho.owned_live t ht x hold)
  paired := ho.paired
  null_lock := ho.null_lock

theorem State.Owning.extend_owned_iff {s : State} {h : KvHeap} (ho : s.Owning)
    (hx : s.heap.Extends h) (x : KvKind × Addr) :
    (∃ t ∈ s.tasks, Owns h t x) ↔ ∃ t ∈ s.tasks, Owns s.heap t x := by
  constructor
  · rintro ⟨t, ht, hown⟩
    exact ⟨t, ht, (hx.owns_iff (fun a ha => ho.store_mem ht ha) x).mp hown⟩
  · rintro ⟨t, ht, hown⟩
    exact ⟨t, ht, (hx.owns_iff (fun a ha => ho.store_mem ht ha) x).mpr hown⟩

/-- The links of any store after a write: the node of a fresh insertion, if there
was one, belongs to the written store. -/
theorem writeKv_links (h : KvHeap) (store other : Addr) (k v : CInt) (mem : Option Addr)
    (n : Addr) :
    Links ((writeKv h store k v mem).1.table other) n ↔
      Links (h.table other) n ∨
        (other = store ∧ mem = some n ∧ find k (h.table store (kvHash k)) = none) := by
  by_cases ho : other = store
  · subst ho
    rcases writeKv_cases h other k v mem with ⟨chain, ha, he⟩ | ⟨a, hm, hf, he⟩ | ⟨hm, hf, he⟩
    · have hsome : find k (h.table other (kvHash k)) ≠ none := fun hn => by
        simp [assign_eq_none_iff.mpr hn] at ha
      rw [he]
      simp only [KvHeap.setBucket, Function.update_self, hsome, and_false, or_false]
      exact links_update_of_addrs (assign_map (fun _ _ => rfl) ha) n
    · rw [he]
      simp only [KvHeap.setBucket, Function.update_self, hm, hf, and_true, true_and,
        Option.some.injEq]
      rw [links_update_cons, or_comm, eq_comm]
    · rw [he]
      simp [hm]
  · rw [writeKv_table_of_ne h k v mem ho]
    simp [ho]

theorem writeKv_live (h : KvHeap) (store : Addr) (k v : CInt) (mem : Option Addr)
    (x : KvKind × Addr) :
    x ∈ (writeKv h store k v mem).1.live ↔
      x ∈ h.live ∨ (x.1 = .myData ∧ mem = some x.2 ∧ find k (h.table store (kvHash k)) = none) := by
  obtain ⟨kind, n⟩ := x
  rcases writeKv_cases h store k v mem with ⟨chain, ha, he⟩ | ⟨a, hm, hf, he⟩ | ⟨hm, hf, he⟩
  · have hsome : find k (h.table store (kvHash k)) ≠ none := fun hn => by
      simp [assign_eq_none_iff.mpr hn] at ha
    rw [he]
    simp [KvHeap.setBucket, hsome]
  · rw [he]
    simp only [KvHeap.setBucket, List.mem_cons, Prod.mk.injEq, hm, hf, Option.some.injEq,
      and_true]
    rw [or_comm, eq_comm (a := n)]
  · rw [he]
    simp [hm]

theorem owns_writeKv_iff (h : KvHeap) (store : Addr) (k v : CInt) (mem : Option Addr)
    (t : TaskStruct) (x : KvKind × Addr) :
    Owns (writeKv h store k v mem).1 t x ↔
      Owns h t x ∨ (t.kvStore = some store ∧ x.1 = .myData ∧ mem = some x.2 ∧
        find k (h.table store (kvHash k)) = none) := by
  obtain ⟨kind, n⟩ := x
  cases kind with
  | bucketArray => simp [Owns]
  | lockArray => simp [Owns]
  | myData =>
      simp only [Owns, writeKv_links]
      constructor
      · rintro ⟨other, hst, hl | ⟨rfl, hm, hf⟩⟩
        · exact Or.inl ⟨other, hst, hl⟩
        · exact Or.inr ⟨hst, trivial, hm, hf⟩
      · rintro (⟨other, hst, hl⟩ | ⟨hst, -, hm, hf⟩)
        · exact ⟨other, hst, Or.inl hl⟩
        · exact ⟨store, hst, Or.inr ⟨rfl, hm, hf⟩⟩

/-! ## What every step keeps -/

namespace State.Owning

theorem cons {s : State} {p : TaskStruct} (ho : s.Owning)
    (hlive : ∀ x, Owns s.heap p x → x ∈ s.heap.live)
    (hpair : ∀ u ∈ s.tasks, ∀ a, p.kvStore = some a → u.kvStore = some a → SameArrays p u)
    (hnull : p.kvStore = none → p.kvStoreLock = none) :
    State.Owning ⟨p :: s.tasks, s.heap⟩ where
  owned_live := List.forall_mem_cons.mpr ⟨hlive, ho.owned_live⟩
  paired := by
    intro t ht u hu a hta hua
    rcases List.mem_cons.mp ht with rfl | ht' <;> rcases List.mem_cons.mp hu with rfl | hu'
    · exact ⟨rfl, rfl⟩
    · exact hpair u hu' a hta hua
    · exact ⟨(hpair t ht' a hua hta).1.symm, (hpair t ht' a hua hta).2.symm⟩
    · exact ho.paired t ht' u hu' a hta hua
  null_lock := List.forall_mem_cons.mpr ⟨hnull, ho.null_lock⟩

theorem free {s : State} (ho : s.Owning) (tsk : Addr) :
    State.Owning ⟨putTaskStruct s.tasks tsk, s.heap⟩ where
  owned_live t ht := ho.owned_live t (List.mem_of_mem_filter ht)
  paired t ht u hu := ho.paired t (List.mem_of_mem_filter ht) u (List.mem_of_mem_filter hu)
  null_lock t ht := ho.null_lock t (List.mem_of_mem_filter ht)

theorem reap {s : State} (ho : s.Owning) (tsk : Addr) :
    State.Owning ⟨releaseTask s.tasks tsk, s.heap⟩ where
  owned_live := forall_releaseTask
    (fun _ h x hx => h x ((owns_of_sameArrays ⟨rfl, rfl⟩ x).mp hx)) ho.owned_live
  paired := forall_releaseTask
    (P := fun t => ∀ u ∈ releaseTask s.tasks tsk, ∀ a, t.kvStore = some a → u.kvStore = some a →
      SameArrays t u) (fun _ => id)
    fun t ht => forall_releaseTask (P := fun u => ∀ a, t.kvStore = some a → u.kvStore = some a →
      SameArrays t u) (fun _ => id) (ho.paired t ht)
  null_lock := forall_releaseTask (P := fun t => t.kvStore = none → t.kvStoreLock = none)
    (fun _ => id) ho.null_lock

theorem write {s : State} (ho : s.Owning) (store : Addr) (k v : CInt) (mem : Option Addr) :
    State.Owning ⟨s.tasks, (writeKv s.heap store k v mem).1⟩ where
  owned_live := by
    intro t ht x hx
    rw [writeKv_live]
    rcases (owns_writeKv_iff _ _ _ _ _ t x).mp hx with hx | ⟨-, hnew⟩
    · exact Or.inl (ho.owned_live t ht x hx)
    · exact Or.inr hnew
  paired := ho.paired
  null_lock := ho.null_lock

theorem thread {s : State} {cur p : TaskStruct} (ho : s.Owning) (hcur : cur ∈ s.tasks)
    (hp : SameArrays p cur) : State.Owning ⟨p :: s.tasks, s.heap⟩ := by
  refine ho.cons ?_ ?_ ?_
  · intro x hx
    exact ho.owned_live cur hcur x ((owns_of_sameArrays hp x).mp hx)
  · intro u hu a hpa hua
    obtain ⟨hs, hl⟩ := ho.paired cur hcur u hu a (hp.1.symm.trans hpa) hua
    exact ⟨hp.1.trans hs, hp.2.trans hl⟩
  · rw [hp.1, hp.2]
    exact ho.null_lock cur hcur

end State.Owning

theorem owns_process_iff {h : KvHeap} {p : TaskStruct} {a b : Addr} (hs : p.kvStore = some a)
    (hl : p.kvStoreLock = some b) (x : KvKind × Addr) :
    Owns ((h.withArrays (some a) (some b)).initHlistHeads a) p x ↔
      x = (.bucketArray, a) ∨ x = (.lockArray, b) := by
  obtain ⟨kind, n⟩ := x
  cases kind with
  | bucketArray => simp [Owns, hs, eq_comm]
  | lockArray => simp [Owns, hl, eq_comm]
  | myData => simp [Owns, hs, KvHeap.initHlistHeads, links_empty]

theorem mem_process_live (h : KvHeap) (a b : Addr) (x : KvKind × Addr) :
    x ∈ ((h.withArrays (some a) (some b)).initHlistHeads a).live ↔
      (x = (.bucketArray, a) ∨ x = (.lockArray, b)) ∨ x ∈ h.live := by
  obtain ⟨kind, n⟩ := x
  have hmem := h.mem_withArrays (some a) (some b) (kind, n)
  simp only [KvHeap.initHlistHeads, hmem, Prod.mk.injEq, Option.some.injEq, or_assoc,
    eq_comm (a := a), eq_comm (a := b)]

theorem State.Owning.process {s : State} {p : TaskStruct} {a b : Addr} (ho : s.Owning)
    (hx : s.heap.Extends ((s.heap.withArrays (some a) (some b)).initHlistHeads a))
    (ha : a ∉ s.heap.addrs) (hs : p.kvStore = some a) (hl : p.kvStoreLock = some b) :
    State.Owning ⟨p :: s.tasks, (s.heap.withArrays (some a) (some b)).initHlistHeads a⟩ := by
  refine (ho.extend hx).cons ?_ ?_ ?_
  · intro x hown
    exact (mem_process_live s.heap a b x).mpr (Or.inl ((owns_process_iff hs hl x).mp hown))
  · intro u hu c hpc huc
    obtain rfl : a = c := by simpa [hs] using hpc
    exact absurd (ho.store_mem hu huc) ha
  · intro hnone
    simp [hs] at hnone

theorem State.Owning.step {s s' : State} {a : Action} {e : Event} (ho : s.Owning)
    (h : kernel.step s a = some (s', e)) : s'.Owning := by
  cases State.step_cases h with
  | forkFailed ht hl hs he => exact ho.extend (he.extends hs.store_new)
  | forked ht hl hs he =>
      have hx := he.extends hs.store_new
      cases he with
      | thread hyes => exact ho.thread ht ⟨rfl, rfl⟩
      | process a b hno ha hb hlate => exact ho.process hx (hs.store_new a ha) rfl rfl
  | wrote ht hl hst hg hm => exact ho.write _ _ _ _
  | didRead ht hl hst hg => exact ho
  | reaped ht hl => exact ho.reap _
  | freed ht hd => exact ho.free _

/-! ## The steps that keep the two sets equal -/

/-- `copy_process` does not return an error with one of its arrays allocated. -/
def ForkKeeps (args : CloneArgs) (o : ForkOutcome) : Prop :=
  args.flags.any cloneThread = true ∨ ¬ reachesKvBlock args o ∨
    (o.kvStore = none ∧ o.kvStoreLock = none) ∨
    (o.kvStore ≠ none ∧ o.kvStoreLock ≠ none ∧ o.firstFailure stagesAfterKv = none)

/-- The step is no failing `copy_process` that holds an array, and does not free the
last task of a store. -/
def State.Retains (s : State) : Action → Prop
  | .copyProcess _ args o => ForkKeeps args o
  | .putTaskStruct tsk => ∀ t ∈ s.tasks, t.self = tsk →
      t.kvStore = none ∨ ∃ u ∈ s.tasks, u.self ≠ tsk ∧ SameArrays u t
  | _ => True

theorem State.Owning.exact_extend_iff {s : State} {h : KvHeap} (ho : s.Owning) (hq : s.Exact)
    (hx : s.heap.Extends h) : State.Exact ⟨s.tasks, h⟩ ↔ ∀ x ∈ h.live, x ∈ s.heap.live := by
  constructor
  · intro hq' x hxl
    exact (hq x).mpr ((ho.extend_owned_iff hx x).mp ((hq' x).mp hxl))
  · intro hsub x
    rw [ho.extend_owned_iff hx x, ← hq x]
    exact ⟨hsub x, hx.live x⟩

theorem exact_withArrays_iff {s : State} {o : ForkOutcome} (ho : s.Owning) (hq : s.Exact)
    (hs : s.Supplies o) {h : KvHeap} (hx : s.heap.Extends h)
    (hlive : h.live = (s.heap.withArrays o.kvStore o.kvStoreLock).live) :
    State.Exact ⟨s.tasks, h⟩ ↔ o.kvStore = none ∧ o.kvStoreLock = none := by
  rw [ho.exact_extend_iff hq hx, hlive]
  constructor
  · intro hsub
    refine ⟨Option.eq_none_iff_forall_not_mem.mpr ?_, Option.eq_none_iff_forall_not_mem.mpr ?_⟩
    · intro a ha
      have hnew := hsub (.bucketArray, a) ((s.heap.mem_withArrays _ _ _).mpr (Or.inl ⟨rfl, ha⟩))
      exact hs.store_new a ha (KvHeap.mem_addrs hnew)
    · intro b hb
      have hnew := hsub (.lockArray, b)
        ((s.heap.mem_withArrays _ _ _).mpr (Or.inr (Or.inl ⟨rfl, hb⟩)))
      exact (hs.lock_new b hb).1 (KvHeap.mem_addrs hnew)
  · rintro ⟨ha, hb⟩ x hxl
    rcases (s.heap.mem_withArrays _ _ x).mp hxl with ⟨-, hc⟩ | ⟨-, hc⟩ | hold
    · simp [ha] at hc
    · simp [hb] at hc
    · exact hold

theorem State.Exact.thread {s : State} {cur p : TaskStruct} (hq : s.Exact) (hcur : cur ∈ s.tasks)
    (hp : SameArrays p cur) : State.Exact ⟨p :: s.tasks, s.heap⟩ := by
  intro x
  rw [hq x]
  constructor
  · rintro ⟨t, ht, hx⟩
    exact ⟨t, List.mem_cons_of_mem _ ht, hx⟩
  · rintro ⟨t, ht, hx⟩
    rcases List.mem_cons.mp ht with rfl | ht'
    · exact ⟨cur, hcur, (owns_of_sameArrays hp x).mp hx⟩
    · exact ⟨t, ht', hx⟩

theorem State.Exact.process {s : State} {p : TaskStruct} {a b : Addr} (hq : s.Exact)
    (ho : s.Owning) (hx : s.heap.Extends ((s.heap.withArrays (some a) (some b)).initHlistHeads a))
    (hs : p.kvStore = some a) (hl : p.kvStoreLock = some b) :
    State.Exact ⟨p :: s.tasks, (s.heap.withArrays (some a) (some b)).initHlistHeads a⟩ := by
  intro x
  rw [mem_process_live, hq x, ← ho.extend_owned_iff hx x, ← @owns_process_iff s.heap p a b hs hl x]
  simp

theorem State.Exact.write {s : State} {t : TaskStruct} {store : Addr} (hq : s.Exact)
    (ht : t ∈ s.tasks) (hst : t.kvStore = some store) (k v : CInt) (mem : Option Addr) :
    State.Exact ⟨s.tasks, (writeKv s.heap store k v mem).1⟩ := by
  intro x
  simp only [writeKv_live, owns_writeKv_iff]
  constructor
  · rintro (hold | hnew)
    · obtain ⟨u, hu, hx⟩ := (hq x).mp hold
      exact ⟨u, hu, Or.inl hx⟩
    · exact ⟨t, ht, Or.inr ⟨hst, hnew⟩⟩
  · rintro ⟨u, hu, hx | ⟨-, hnew⟩⟩
    · exact Or.inl ((hq x).mpr ⟨u, hu, hx⟩)
    · exact Or.inr hnew

theorem State.Exact.reap {s : State} (hq : s.Exact) (ho : s.Owning) (tsk : Addr) :
    State.Exact ⟨releaseTask s.tasks tsk, s.heap⟩ := by
  intro x
  constructor
  · intro hx
    obtain ⟨t, ht, hown⟩ := (hq x).mp hx
    refine ⟨_, List.mem_map_of_mem ht, ?_⟩
    split
    · exact (owns_of_sameArrays ⟨rfl, rfl⟩ x).mp hown
    · exact hown
  · rintro ⟨t, ht, hown⟩
    exact (ho.reap tsk).owned_live t ht x hown

theorem not_owns_of_null {s : State} (ho : s.Owning) {t : TaskStruct} (ht : t ∈ s.tasks)
    (hnone : t.kvStore = none) (x : KvKind × Addr) : ¬ Owns s.heap t x := by
  obtain ⟨kind, a⟩ := x
  cases kind <;> simp [Owns, hnone, ho.null_lock t ht hnone]

theorem State.Exact.free_iff {s : State} (hq : s.Exact) (ho : s.Owning) (tsk : Addr) :
    State.Exact ⟨putTaskStruct s.tasks tsk, s.heap⟩ ↔ s.Retains (.putTaskStruct tsk) := by
  have keep : ∀ u, u ∈ putTaskStruct s.tasks tsk ↔ u ∈ s.tasks ∧ u.self ≠ tsk := by
    simp [putTaskStruct]
  constructor
  · intro hq' t ht hself
    cases hst : t.kvStore with
    | none => exact Or.inl rfl
    | some a =>
        have hlive := ho.owned_live t ht (.bucketArray, a) hst
        obtain ⟨u, hu, hown⟩ := (hq' _).mp hlive
        obtain ⟨hmem, hne⟩ := (keep u).mp hu
        exact Or.inr ⟨u, hmem, hne, ho.paired u hmem t ht a hown hst⟩
  · intro hret x
    constructor
    · intro hx
      obtain ⟨t, ht, hown⟩ := (hq x).mp hx
      by_cases hself : t.self = tsk
      · rcases hret t ht hself with hnone | ⟨u, hu, hne, hsame⟩
        · exact absurd hown (not_owns_of_null ho ht hnone x)
        · exact ⟨u, (keep u).mpr ⟨hu, hne⟩, (owns_of_sameArrays hsame x).mpr hown⟩
      · exact ⟨t, (keep t).mpr ⟨ht, hself⟩, hown⟩
    · rintro ⟨t, ht, hown⟩
      exact (ho.free tsk).owned_live t ht x hown

theorem exact_step {s s' : State} {a : Action} {e : Event} (ho : s.Owning) (hq : s.Exact)
    (h : kernel.step s a = some (s', e)) : s'.Exact ↔ s.Retains a := by
  cases State.step_cases h with
  | forkFailed ht hl hs he =>
      have hx := he.extends hs.store_new
      cases he with
      | refused e hkv =>
          refine iff_of_true hq ?_
          exact hkv.elim (fun h => Or.inr (Or.inl h)) Or.inl
      | oneArray hkv hno hnull =>
          rw [exact_withArrays_iff ho hq hs hx rfl]
          simp only [State.Retains, ForkKeeps, hno, hkv]
          rcases hnull with hn | hn <;> simp [hn]
      | abandoned e a b hkv hno ha hb hlate =>
          rw [exact_withArrays_iff ho hq hs hx (by rw [ha, hb]; rfl)]
          simp [State.Retains, ForkKeeps, hno, hkv, ha, hlate]
  | forked ht hl hs he =>
      have hx := he.extends hs.store_new
      cases he with
      | thread hyes => exact iff_of_true (hq.thread ht ⟨rfl, rfl⟩) (Or.inl hyes)
      | process a b hno ha hb hlate =>
          refine iff_of_true (hq.process ho hx rfl rfl) (Or.inr (Or.inr (Or.inr ?_)))
          exact ⟨by simp [ha], by simp [hb], hlate⟩
  | wrote ht hl hst hg hm => exact iff_of_true (hq.write ht hst _ _ _) trivial
  | didRead ht hl hst hg => exact iff_of_true hq trivial
  | reaped ht hl => exact iff_of_true (hq.reap ho _) trivial
  | freed ht hd => exact hq.free_iff ho _

/-- Every object of an unreleased task is allocated in every run. The converse holds
in all states of a run exactly when all its steps retain. -/
theorem kv_lifecycle {acts : List Action} {s : State} {tr : List Event}
    (hr : kernel.run boot acts = some (s, tr)) :
    (kernel.Throughout State.Exact boot acts ↔ kernel.Along State.Retains boot acts) ∧
      ∀ t ∈ s.tasks, ∀ x, Owns s.heap t x → x ∈ s.heap.live := by
  refine ⟨?_, ?_⟩
  · exact kernel.throughout_iff_along (fun ho h => State.Owning.step ho h) exact_step
      boot_owning boot_exact hr
  · exact (kernel.run_invariant (fun ho h => State.Owning.step ho h) boot_owning hr).owned_live

def threadStays : List Action :=
  [.copyProcess 0 (plainArgs 0) (cleanFork 16 1 100 101),
   .copyProcess 16 (plainArgs (cloneVm ||| cloneSighand ||| cloneThread)) (cleanFork 32 2 200 201),
   .writeKv 16 7 42 (some 400),
   .releaseTask 16,
   .putTaskStruct 16]

theorem threadStays_retains : kernel.Along State.Retains boot threadStays := by
  refine ⟨Or.inr (Or.inr (Or.inr ⟨by decide, by decide, rfl⟩)), ?_⟩
  rintro _ _ ⟨⟩
  refine ⟨Or.inl (by decide), ?_⟩
  rintro _ _ ⟨⟩
  refine ⟨trivial, ?_⟩
  rintro _ _ ⟨⟩
  refine ⟨trivial, ?_⟩
  rintro _ _ ⟨⟩
  refine ⟨?_, fun _ _ _ => trivial⟩
  intro t ht hself
  refine Or.inr ⟨_, List.mem_cons_self, by decide, ?_⟩
  revert t
  decide

theorem kv_lifecycle_threadStays :
    ∃ s tr, kernel.run boot threadStays = some (s, tr) ∧
      kernel.Throughout State.Exact boot threadStays ∧
      (∀ t ∈ s.tasks, ∀ x, Owns s.heap t x → x ∈ s.heap.live) :=
  ⟨_, _, rfl, (@kv_lifecycle threadStays _ _ rfl).1.mpr threadStays_retains,
    (@kv_lifecycle threadStays _ _ rfl).2⟩

def lastTaskFreed : List Action :=
  [.copyProcess 0 (plainArgs 0) (cleanFork 16 1 100 101), .releaseTask 16, .putTaskStruct 16]

/-- The arrays of a process outlive its last task. -/
theorem arrays_outlive_lastTask :
    ¬ ∀ acts s tr, kernel.run boot acts = some (s, tr) → s.Exact := by
  intro h
  have hq := h lastTaskFreed _ _ rfl
  obtain ⟨t, ht, hown⟩ := (hq (.bucketArray, 100)).mp (by decide)
  change t.kvStore = some 100 at hown
  revert t
  decide

end OShm.Kernel
