import OShm.Kernel.KvIsolation
import OShm.Vdso.SharedMm

/-! # Whose pid a call stores

A mapping that one task alone touches shows that task, and a call answers with its
pid. The invariant records for every page of the mapping which task faulted it in,
and holds in every run in which no task touches pages of another and no task exits
while its pages stay in use.
-/

namespace OShm.Vdso

open OShm.Lib OShm.Kernel

/-- Every present page of the mapping shows the task `u`. -/
def VdsoState.Shows (L : TaskLayout) (s : VdsoState) (m : Addr) (u : TaskStruct) : Prop :=
  ∀ i mp, s.pages m i = some mp → taskPage L u.self i = some mp.page

/-- The metadata page and the frames of each `mm` belong to one live task of it. -/
def VdsoState.Coherent (L : TaskLayout) (s : VdsoState) : Prop :=
  ∀ t m, RunsIn s.kernel t m → ∃ u, RunsIn s.kernel u m ∧ s.Shows L m u

/-- A call that returns 0 in this state stores the pid of its caller, which is the
task the mapping shows. -/
def VdsoState.Answers (L : TaskLayout) (s : VdsoState) : Prop :=
  ∀ a s' cur info, (vdso L).step s a = some (s', .returned cur 0 (some info)) →
    ∃ t m, RunsIn s.kernel t m ∧ t.self = cur ∧ info.pid = t.pid ∧ s.Shows L m t

/-- No page of the mapping was faulted in by a task other than `cur`. -/
def VdsoState.Alone (s : VdsoState) (cur : Addr) : Prop :=
  ∀ t m, RunsIn s.kernel t m → t.self = cur → ∀ i mp, s.pages m i = some mp → mp.faultedBy = cur

/-- The step touches no page another task faulted in, and no task exits while one of
its pages is in the `mm` of another. -/
def VdsoState.Solo (s : VdsoState) : VdsoAction → Prop
  | .fault cur _ _ => s.Alone cur
  | .loadMetadata cur _ => s.Alone cur
  | .exit cur => ∀ t m, RunsIn s.kernel t m → t.self ≠ cur →
      ∀ i mp, s.pages m i = some mp → mp.faultedBy ≠ cur
  | _ => True

/-- No page of any mapping is present and no call is in progress. -/
structure VdsoState.Untouched (s : VdsoState) : Prop where
  distinct : s.kernel.Distinct
  pages : ∀ m i, s.pages m i = none
  calls : ∀ a, s.calls a = none

structure VdsoState.Identified (L : TaskLayout) (s : VdsoState) : Prop where
  distinct : s.kernel.Distinct
  /-- A page shows the task that faulted it in, and that task still runs in the `mm`. -/
  filled : ∀ t m, RunsIn s.kernel t m → ∀ i mp, s.pages m i = some mp →
    taskPage L mp.faultedBy i = some mp.page ∧
      ∃ u, RunsIn s.kernel u m ∧ u.self = mp.faultedBy
  single : ∀ t m, RunsIn s.kernel t m → ∀ i j mp mp', s.pages m i = some mp →
    s.pages m j = some mp' → mp.faultedBy = mp'.faultedBy
  /-- A task in the middle of a call read the offset from a page of its own. -/
  call : ∀ t m, RunsIn s.kernel t m → ∀ off, s.calls t.self = some off →
    off = t.self % pageSize ∧
      ∃ mp, s.pages m metadataPgoff = some mp ∧ mp.faultedBy = t.self

theorem VdsoState.Untouched.identified {s : VdsoState} (L : TaskLayout) (hu : s.Untouched) :
    s.Identified L where
  distinct := hu.distinct
  filled t m _ i mp h := by simp [hu.pages] at h
  single t m _ i j mp mp' h := by simp [hu.pages] at h
  call t m _ off h := by simp [hu.calls] at h

theorem VdsoState.insertPage_cases {s : VdsoState} {m m' : Addr} {pgoff i : Nat}
    {new mp : Mapped} (h : (s.insertPage m pgoff new).pages m' i = some mp) :
    (m' = m ∧ i = pgoff ∧ mp = new) ∨ s.pages m' i = some mp := by
  by_cases hm : m' = m
  · subst hm
    by_cases hp : i = pgoff
    · subst hp
      left
      refine ⟨rfl, rfl, ?_⟩
      simpa [VdsoState.insertPage, eq_comm] using h
    · right
      simpa [VdsoState.insertPage, hp] using h
  · right
    simpa [VdsoState.insertPage, hm] using h

/-! ## Who runs where -/

theorem runsIn_exitMm_iff {s : VdsoState} {cur : Addr} {t : TaskStruct} {m : Addr} :
    RunsIn (s.exitMm cur).kernel t m ↔ RunsIn s.kernel t m ∧ t.self ≠ cur := by
  constructor
  · intro h
    obtain ⟨u, hu, rfl⟩ := List.mem_map.mp h.mem
    by_cases hc : u.self = cur
    · have hmm := h.mm
      simp [hc] at hmm
    · rw [if_neg hc] at h ⊢
      exact ⟨⟨hu, h.hashed, h.mm⟩, hc⟩
  · rintro ⟨h, hc⟩
    exact ⟨List.mem_map.mpr ⟨t, h.mem, if_neg hc⟩, h.hashed, h.mm⟩

theorem runsIn_cons_iff {tasks : List TaskStruct} {heap heap' : KvHeap} {p : TaskStruct}
    (hlive : p.hashed = true) {u : TaskStruct} {m : Addr} :
    RunsIn ⟨p :: tasks, heap'⟩ u m ↔ (u = p ∧ p.mm = some m) ∨ RunsIn ⟨tasks, heap⟩ u m := by
  constructor
  · intro hu
    rcases List.mem_cons.mp hu.mem with rfl | hu'
    · exact Or.inl ⟨rfl, hu.mm⟩
    · exact Or.inr ⟨hu', hu.hashed, hu.mm⟩
  · rintro (⟨rfl, hm⟩ | hu)
    · exact ⟨List.mem_cons_self, hlive, hm⟩
    · exact ⟨List.mem_cons_of_mem _ hu.mem, hu.hashed, hu.mm⟩

theorem afterKernel_pages {s : VdsoState} {k : State} {cur : Addr} {args : CloneArgs}
    {o : ForkOutcome} (hs : s.kernel.Supplies o) {g : Nat} {b : Bool} {u : TaskStruct} {m : Addr}
    (hu : RunsIn s.kernel u m) :
    (s.afterKernel k (.copyProcess cur args o) (.forked g b)).pages m = s.pages m := by
  have hne : m ≠ o.mm := by
    rintro rfl
    exact hs.mm_new u hu.mem hu.mm
  by_cases hvm : args.flags.any cloneVm = true <;> simp [VdsoState.afterKernel, hvm, hne]

theorem afterKernel_pages_back {s : VdsoState} {h : KvHeap} {t p : TaskStruct} {args : CloneArgs}
    {o : ForkOutcome} {g : Nat} {b : Bool} (ht : t ∈ s.kernel.tasks) (hl : t.hashed)
    (hs : s.kernel.Supplies o) (he : ForkEffect s.kernel.heap t args o h (.ok p))
    {u : TaskStruct} {m : Addr} (hu : RunsIn ⟨p :: s.kernel.tasks, h⟩ u m) {i : Nat} {mp : Mapped}
    (hp : (s.afterKernel ⟨p :: s.kernel.tasks, h⟩ (.copyProcess t.self args o)
      (.forked g b)).pages m i = some mp) :
    ∃ v, RunsIn s.kernel v m ∧ s.pages m i = some mp := by
  obtain ⟨-, hmm, hlive⟩ := he.child
  rcases (@runsIn_cons_iff s.kernel.tasks s.kernel.heap h p hlive u m).mp hu with ⟨rfl, hm⟩ | hu'
  · rw [hmm, copyMm] at hm
    cases hold : t.mm with
    | none => simp [hold] at hm
    | some oldmm =>
        by_cases hvm : args.flags.any cloneVm = true
        · obtain rfl : oldmm = m := by simpa [hold, hvm] using hm
          have hrt : RunsIn s.kernel t oldmm := ⟨ht, hl, hold⟩
          rw [afterKernel_pages hs hrt] at hp
          exact ⟨t, hrt, hp⟩
        · obtain rfl : o.mm = m := by simpa [hold, hvm] using hm
          simp [VdsoState.afterKernel, hvm] at hp
  · rw [afterKernel_pages hs hu'] at hp
    exact ⟨u, hu', hp⟩

namespace VdsoState.Identified

variable {L : TaskLayout} {s : VdsoState}

theorem shows (hi : s.Identified L) {t u : TaskStruct} {m : Addr} (ht : RunsIn s.kernel t m)
    {i : Nat} {mp : Mapped} (hp : s.pages m i = some mp) (hu : mp.faultedBy = u.self) :
    s.Shows L m u := by
  intro j mp' hp'
  have hby : mp'.faultedBy = u.self := (hi.single t m ht j i mp' mp hp' hp).trans hu
  rw [← hby]
  exact (hi.filled t m ht j mp' hp').1

theorem coherent (hi : s.Identified L) : s.Coherent L := by
  intro t m ht
  by_cases hp : ∃ i mp, s.pages m i = some mp
  · obtain ⟨i, mp, hp⟩ := hp
    obtain ⟨-, u, hu, hself⟩ := hi.filled t m ht i mp hp
    exact ⟨u, hu, hi.shows ht hp hself.symm⟩
  · refine ⟨t, ht, ?_⟩
    intro i mp h
    exact absurd ⟨i, mp, h⟩ hp

theorem readPid_self (hi : s.Identified L) {t : TaskStruct} (ht : t ∈ s.kernel.tasks)
    (junk : Nat) : s.readPid L (t.self + L.pid) junk = t.pid := by
  unfold VdsoState.readPid
  cases hf : s.kernel.tasks.find? fun u => u.self + L.pid = t.self + L.pid with
  | none =>
      have hno := List.find?_eq_none.mp hf t ht
      simp at hno
  | some u =>
      have hself : u.self = t.self := by simpa using List.find?_some hf
      rw [hi.distinct u (List.mem_of_find?_eq_some hf) t ht hself]

theorem answers (hi : s.Identified L) : s.Answers L := by
  intro a s' cur info h
  cases VdsoState.step_cases h with
  | answered ht hcall hpage hpid =>
      rename_i t m off junk pid mp
      obtain ⟨rfl, mp₀, hmeta, hby₀⟩ := hi.call t m ht off hcall
      have hshows : s.Shows L m t := hi.shows ht hmeta hby₀
      have hframe := hshows _ _ hpage
      rw [taskPage_frame L t.self (pidOffset_page L t.self)] at hframe
      refine ⟨t, m, ht, rfl, ?_, hshows⟩
      rw [hpid _ (Option.some.inj hframe).symm, frameAddr_pid]
      exact hi.readPid_self ht.mem junk

/-! ## What every step keeps -/

theorem insertPage (hi : s.Identified L) {t : TaskStruct} {m : Addr} (ht : RunsIn s.kernel t m)
    {pgoff : Nat} {pg : Page} (habs : s.pages m pgoff = none)
    (hpg : taskPage L t.self pgoff = some pg) (halone : s.Alone t.self) :
    (s.insertPage m pgoff ⟨pg, t.self⟩).Identified L := by
  have hby : ∀ {i mp}, (s.insertPage m pgoff ⟨pg, t.self⟩).pages m i = some mp →
      mp.faultedBy = t.self := by
    intro i mp h
    rcases VdsoState.insertPage_cases h with ⟨-, -, rfl⟩ | h
    · rfl
    · exact halone t m ht rfl i mp h
  refine ⟨hi.distinct, ?_, ?_, ?_⟩
  · intro u m' hu i mp h
    rcases VdsoState.insertPage_cases h with ⟨rfl, rfl, rfl⟩ | h
    · exact ⟨hpg, t, ht, rfl⟩
    · exact hi.filled u m' hu i mp h
  · intro u m' hu i j mp mp' h h'
    by_cases hm : m' = m
    · subst hm
      rw [hby h, hby h']
    · rcases VdsoState.insertPage_cases h with ⟨rfl, -⟩ | h
      · exact absurd rfl hm
      · rcases VdsoState.insertPage_cases h' with ⟨rfl, -⟩ | h'
        · exact absurd rfl hm
        · exact hi.single u m' hu i j mp mp' h h'
  · intro u m' hu off hcall
    obtain ⟨hoff, mp, hp, hby'⟩ := hi.call u m' hu off hcall
    refine ⟨hoff, mp, ?_, hby'⟩
    by_cases hm : m' = m
    · subst hm
      have hne : metadataPgoff ≠ pgoff := by
        rintro rfl
        simp [habs] at hp
      simpa [VdsoState.insertPage, hne] using hp
    · simpa [VdsoState.insertPage, hm] using hp

theorem setCall (hi : s.Identified L) {cur : Addr} {call : Option Nat}
    (hcall : ∀ t m, RunsIn s.kernel t m → t.self = cur → ∀ off, call = some off →
      off = t.self % pageSize ∧ ∃ mp, s.pages m metadataPgoff = some mp ∧ mp.faultedBy = t.self) :
    (s.setCall cur call).Identified L where
  distinct := hi.distinct
  filled := hi.filled
  single := hi.single
  call := by
    intro t m ht off h
    by_cases hc : t.self = cur
    · exact hcall t m ht hc off (by simpa [VdsoState.setCall, hc] using h)
    · exact hi.call t m ht off (by simpa [VdsoState.setCall, hc] using h)

theorem load (hi : s.Identified L) {t : TaskStruct} {m : Addr} (ht : RunsIn s.kernel t m)
    {md : TaskMetadata} {who : Addr} (hmd : s.pages m metadataPgoff = some ⟨.metadata md, who⟩)
    (halone : s.Alone t.self) : (s.setCall t.self (some md.taskOffset)).Identified L := by
  refine hi.setCall ?_
  intro u m' hu hself off hoff
  obtain rfl : u = t := hi.distinct u hu.mem t ht.mem hself
  obtain rfl : m' = m := Option.some.inj (hu.mm.symm.trans ht.mm)
  have hwho : who = u.self := halone u m' ht rfl metadataPgoff _ hmd
  have hpage := (hi.filled u m' ht metadataPgoff _ hmd).1
  rw [taskPage_metadata] at hpage
  simp only [Option.some.injEq, Page.metadata.injEq] at hpage hoff
  refine ⟨?_, _, hmd, hwho⟩
  rw [← hoff, ← hpage, hwho]

theorem kernel_same (hi : s.Identified L) {k : State} (hd : k.Distinct)
    (hrun : ∀ t m, RunsIn k t m ↔ RunsIn s.kernel t m) : { s with kernel := k }.Identified L where
  distinct := hd
  filled := by
    intro t m ht i mp hp
    obtain ⟨hpage, u, hu, hself⟩ := hi.filled t m ((hrun t m).mp ht) i mp hp
    exact ⟨hpage, u, (hrun u m).mpr hu, hself⟩
  single t m ht := hi.single t m ((hrun t m).mp ht)
  call t m ht := hi.call t m ((hrun t m).mp ht)

/-- `exit_mm` removes one task from its `mm`; its pages must not stay behind. -/
theorem exitMm (hi : s.Identified L) (cur : Addr)
    (hleave : ∀ t m, RunsIn s.kernel t m → t.self ≠ cur →
      ∀ i mp, s.pages m i = some mp → mp.faultedBy ≠ cur) : (s.exitMm cur).Identified L := by
  have hrun := @runsIn_exitMm_iff s cur
  refine ⟨?_, ?_, ?_, ?_⟩
  · exact hi.distinct.map (fun t => by split <;> rfl) s.kernel.heap
  · intro t m ht i mp hp
    obtain ⟨ht', hc⟩ := hrun.mp ht
    obtain ⟨hpage, u, hu, hself⟩ := hi.filled t m ht' i mp hp
    refine ⟨hpage, u, hrun.mpr ⟨hu, ?_⟩, hself⟩
    rw [hself]
    exact hleave t m ht' hc i mp hp
  · intro t m ht
    exact hi.single t m (hrun.mp ht).1
  · intro t m ht off hcall
    obtain ⟨ht', hc⟩ := hrun.mp ht
    exact hi.call t m ht' off (by simpa [VdsoState.exitMm, hc] using hcall)

/-- A child either joins its parent's `mm` or starts with an empty mapping. -/
theorem fork (hi : s.Identified L) {k : State} {t p : TaskStruct} {args : CloneArgs}
    {o : ForkOutcome} {h : KvHeap} {g : Nat} {b : Bool} (ht : t ∈ s.kernel.tasks)
    (hl : t.hashed) (hs : s.kernel.Supplies o) (he : ForkEffect s.kernel.heap t args o h (.ok p))
    (hk : k = ⟨p :: s.kernel.tasks, h⟩) (hd : k.Distinct) :
    (s.afterKernel k (.copyProcess t.self args o) (.forked g b)).Identified L := by
  obtain ⟨hself, -, hlive⟩ := he.child
  subst hk
  have hrun := @runsIn_cons_iff s.kernel.tasks s.kernel.heap h p hlive
  have hkeep := @afterKernel_pages s ⟨p :: s.kernel.tasks, h⟩ t.self args o hs g b
  have hback := @afterKernel_pages_back s h t p args o g b ht hl hs he
  refine ⟨hd, ?_, ?_, ?_⟩
  · intro u m hu i mp hp
    obtain ⟨v, hv, hp'⟩ := hback hu hp
    obtain ⟨hpage, w, hw, hwself⟩ := hi.filled v m hv i mp hp'
    exact ⟨hpage, w, hrun.mpr (Or.inr hw), hwself⟩
  · intro u m hu i j mp mp' hp hp'
    obtain ⟨v, hv, hold⟩ := hback hu hp
    obtain ⟨v', -, hold'⟩ := hback hu hp'
    exact hi.single v m hv i j mp mp' hold hold'
  · intro u m hu off hcall
    have hne : u.self ≠ o.task := by
      intro hc
      simp [VdsoState.afterKernel, hc] at hcall
    rcases hrun.mp hu with ⟨rfl, -⟩ | hu'
    · exact absurd hself hne
    · rw [hkeep hu']
      exact hi.call u m hu' off (by simpa [VdsoState.afterKernel, hne] using hcall)

theorem kernel_step (hi : s.Identified L) {a : Action} {k : State} {e : Event}
    (henter : s.mayEnter a = true) (hk : Kernel.kernel.step s.kernel a = some (k, e)) :
    (s.afterKernel k a e).Identified L := by
  have hd := hi.distinct.step hk
  cases State.step_cases hk with
  | forkFailed ht hl hs he => exact hi.kernel_same hd (runsIn_congr rfl)
  | forked ht hl hs he => exact hi.fork ht hl hs he rfl hd
  | wrote ht hl hst hg hm => exact hi.kernel_same hd (runsIn_congr rfl)
  | didRead ht hl hst hg => exact hi
  | reaped ht hl =>
      rename_i tsk
      refine hi.kernel_same hd ?_
      intro u m
      constructor
      · intro hu
        exact ⟨mem_of_mem_releaseTask hu.mem hu.hashed, hu.hashed, hu.mm⟩
      · intro hu
        have hne : u.self ≠ tsk.self := by
          intro hc
          simp [VdsoState.mayEnter, ← hc, hu.task? hi.distinct, hu.mm] at henter
        exact ⟨List.mem_map.mpr ⟨u, hu.mem, if_neg hne⟩, hu.hashed, hu.mm⟩
  | freed ht hdead =>
      rename_i tsk
      refine hi.kernel_same hd ?_
      intro u m
      constructor
      · intro hu
        exact ⟨List.mem_of_mem_filter hu.mem, hu.hashed, hu.mm⟩
      · intro hu
        have hne : u.self ≠ tsk.self := by
          intro hc
          rw [← hi.distinct u hu.mem tsk ht hc] at hdead
          exact hdead hu.hashed
        exact ⟨List.mem_filter.mpr ⟨hu.mem, by simpa using hne⟩, hu.hashed, hu.mm⟩

theorem step (hi : s.Identified L) {a : VdsoAction} {s' : VdsoState} {e : VdsoEvent}
    (hsolo : s.Solo a) (h : (vdso L).step s a = some (s', e)) : s'.Identified L := by
  cases VdsoState.step_cases h with
  | kernel henter hk => exact hi.kernel_step henter hk
  | faultFailed ht hnone => exact hi
  | faulted ht habs hpg => exact hi.insertPage ht habs (vtaskFault_installed hpg) hsolo
  | refused ht hidle => exact hi
  | loaded ht hidle hmd => exact hi.load ht hmd hsolo
  | answered ht hcall hpage hpid => exact hi.setCall (by simp)
  | exited ht => exact hi.exitMm _ hsolo

end VdsoState.Identified

/-- In a run where every task keeps to a mapping of its own, each call stores its
caller's pid and the pages of each `mm` belong to one live task, in every state. -/
theorem vdso_caller_identity (L : TaskLayout) {s₀ : VdsoState} {acts : List VdsoAction}
    (h₀ : s₀.Untouched) (hsolo : (vdso L).Along VdsoState.Solo s₀ acts) :
    (vdso L).Throughout (fun m => m.Coherent L ∧ m.Answers L) s₀ acts := by
  intro pre hpre m tr' hm
  obtain ⟨post, rfl⟩ := hpre
  have hi : m.Identified L :=
    (vdso L).along_invariant (fun hi hs h => VdsoState.Identified.step hi hs h)
      (h₀.identified L) (hsolo.left) hm
  exact ⟨hi.coherent, hi.answers⟩

def buildLayout : TaskLayout := ⟨9600, 2512, by decide, by decide⟩

def userStart : VdsoState where
  kernel := ⟨[⟨20544, 1, 1, some 7, some 100, some 101, 0, 0, 0, 0, 0, true⟩],
    ⟨[(.bucketArray, 100), (.lockArray, 101)], fun _ _ => []⟩⟩
  pages _ _ := none
  vdata _ := 0x7fff00006000
  calls _ := none

theorem userStart_untouched : userStart.Untouched := by
  refine ⟨?_, fun _ _ => rfl, fun _ => rfl⟩
  intro t ht u hu _
  rw [List.mem_singleton.mp ht, List.mem_singleton.mp hu]

def forkThenCall : List VdsoAction :=
  [.fault 20544 5 true, .fault 20544 0 true,
   .kernel (.copyProcess 20544 (plainArgs 0) (cleanFork 40960 2 200 201)),
   .loadMetadata 20544 false, .loadPid 20544 0]

/-- Every page of every mapping was faulted in by `cur`. -/
def VdsoState.AllBy (s : VdsoState) (cur : Addr) : Prop :=
  ∀ m i mp, s.pages m i = some mp → mp.faultedBy = cur

theorem VdsoState.AllBy.alone {s : VdsoState} {cur : Addr} (h : s.AllBy cur) : s.Alone cur :=
  fun _ m _ _ i mp hp => h m i mp hp

theorem VdsoState.AllBy.insertPage {s : VdsoState} {cur : Addr} (h : s.AllBy cur) (m : Addr)
    (pgoff : Nat) (pg : Page) : (s.insertPage m pgoff ⟨pg, cur⟩).AllBy cur := by
  intro m' i mp hp
  rcases insertPage_cases hp with ⟨-, -, rfl⟩ | hp
  · rfl
  · exact h m' i mp hp

theorem forkThenCall_solo : (vdso buildLayout).Along VdsoState.Solo userStart forkThenCall := by
  have h₀ : userStart.AllBy 20544 := by
    intro m i mp h
    simp [userStart] at h
  have h₁ := h₀.insertPage 7 5 (.metadata ⟨taskMagic, 64, 9600⟩)
  have h₂ := h₁.insertPage 7 0 (.frame 5)
  refine ⟨h₀.alone, ?_⟩
  rintro _ _ ⟨⟩
  refine ⟨h₁.alone, ?_⟩
  rintro _ _ ⟨⟩
  refine ⟨trivial, ?_⟩
  rintro _ _ ⟨⟩
  refine ⟨VdsoState.AllBy.alone ?_, ?_⟩
  · intro m i mp h
    by_cases hm : m = 40961
    · subst hm
      cases h
    · exact h₂ m i mp ((congrFun (Function.update_of_ne hm _ _) i).symm.trans h)
  rintro _ _ ⟨⟩
  exact ⟨trivial, fun _ _ _ => trivial⟩

theorem vdso_caller_identity_forkThenCall :
    (∃ s tr, (vdso buildLayout).run userStart forkThenCall = some (s, tr) ∧
      tr.getLast? = some (.returned 20544 0 (some ⟨1, 0x7fff00000040⟩))) ∧
    (vdso buildLayout).Throughout (fun m => m.Coherent buildLayout ∧ m.Answers buildLayout)
      userStart forkThenCall :=
  ⟨⟨_, _, rfl, rfl⟩,
    vdso_caller_identity buildLayout userStart_untouched forkThenCall_solo⟩

/-- The process starts a thread and touches its mapping; then the thread calls. -/
def threadCalls : List VdsoAction :=
  [.kernel (.copyProcess 20544 (plainArgs (cloneVm ||| cloneSighand ||| cloneThread))
     (cleanFork 40960 2 200 201)),
   .fault 20544 5 true, .fault 20544 0 true, .loadMetadata 40960 false]

/-- The thread with pid 2 is told that its pid is 1. -/
theorem thread_reads_pid_of_process :
    ¬ ∀ L s₀ acts, VdsoState.Untouched s₀ →
      (vdso L).Throughout (fun m => m.Coherent L ∧ m.Answers L) s₀ acts := by
  intro h
  have hanswers := (h buildLayout userStart threadCalls userStart_untouched threadCalls
    List.prefix_rfl _ _ rfl).2
  obtain ⟨t, m, ht, hself, hpid, -⟩ := hanswers (.loadPid 40960 0) _ _ _ rfl
  have hpids : ∀ u ∈ [⟨40960, 2, 1, some 7, some 100, some 101, 0, 0, 0, 0, 0, true⟩,
      (⟨20544, 1, 1, some 7, some 100, some 101, 0, 0, 0, 0, 0, true⟩ : TaskStruct)],
      u.self = 40960 → u.pid = 2 := by decide
  exact absurd (hpid.trans (hpids t ht.mem hself)) (by decide)

end OShm.Vdso
