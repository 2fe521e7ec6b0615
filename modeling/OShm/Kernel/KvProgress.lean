import OShm.Kernel.KvLinearizable

/-! # The key-value calls never wait for each other in a circle

A call holds one lock at a time and its section always comes to an end by itself. So whatever
the threads have done, a call that is running can be brought to its return by running only its
own thread and, before it, the holder of the lock it waits for.
-/

namespace OShm.Kernel

open OShm.Lib OShm.Lib.ChainedTable

variable {T : Type}

def KvAction.thread : KvAction T → T
  | .call t _ => t
  | .step t _ => t
  | .ret t => t

/-- What `kmalloc` answers in a state: nothing, or an object that is not in use. -/
structure KvAllocator (T : Type) where
  answer : T → KvMemory T → Option Addr
  unused : ∀ {t m n}, answer t m = some n → n ∉ m.live

def KvAllocator.Answers (A : KvAllocator T) (s : KvThreads T) : KvAction T → Prop
  | .step t mem => mem = A.answer t s.mem
  | _ => True

variable [DecidableEq T] {store : T → Addr} {A : KvAllocator T} {s s' s'' : KvThreads T} {t u : T}

namespace KvThreads

/-- The machine comes from one state to the other by steps of the threads in `who` alone. -/
def Leads (store : T → Addr) (A : KvAllocator T) (who : T → Prop) (s s' : KvThreads T) : Prop :=
  ∃ acts tr, (kvThreads store).run s acts = some (s', tr) ∧
    (kvThreads store).Along (fun s a => who a.thread ∧ A.Answers s a) s acts

theorem Leads.trans {who : T → Prop} (h : Leads store A who s s')
    (h' : Leads store A who s' s'') : Leads store A who s s'' := by
  obtain ⟨acts, tr, hr, hw⟩ := h
  obtain ⟨acts', tr', hr', hw'⟩ := h'
  exact ⟨acts ++ acts', tr ++ tr', (kvThreads store).run_append hr hr', hw.append _ hr hw'⟩

theorem Leads.mono {who who' : T → Prop} (h : Leads store A who s s')
    (hw : ∀ t, who t → who' t) : Leads store A who' s s' := by
  obtain ⟨acts, tr, hr, hin⟩ := h
  exact ⟨acts, tr, hr, hin.mono _ fun _ _ ha => ⟨hw _ ha.1, ha.2⟩⟩

theorem leads_action {act : KvAction T} {e : Option (CallEvent T KvCall Int)}
    (h : (kvThreads store).step s act = some (s', e)) (ha : A.Answers s act) :
    Leads store A (· = act.thread) s s' :=
  ⟨[act], [e], (kvThreads store).run_singleton h, ⟨rfl, ha⟩, fun _ _ _ => trivial⟩

theorem leads_step {m : KvMemory T} {pc pc' : KvPc} (hpc : s.pc t = pc)
    (h : kvStep t (store t) (A.answer t s.mem) s.mem pc = some (m, pc')) :
    Leads store A (· = t) s ⟨m, Function.update s.pc t pc'⟩ := by
  refine @leads_action T _ store A s _ (.step t (A.answer t s.mem)) none ?_ rfl
  simp [kvThreads, kvThreadsStep, hpc, h]

theorem step_pc_of_ne {act : KvAction T} {e : Option (CallEvent T KvCall Int)}
    (h : (kvThreads store).step s act = some (s', e)) (hu : u ≠ act.thread) :
    s'.pc u = s.pc u := by
  cases act with
  | call t c =>
      simp only [kvThreads, kvThreadsStep] at h
      split at h
      · obtain ⟨rfl, -⟩ : _ = s' ∧ _ = e := by simpa using h
        exact Function.update_of_ne hu _ _
      · simp at h
  | step t mem =>
      simp only [kvThreads, kvThreadsStep, Option.map_eq_some_iff, Prod.mk.injEq] at h
      obtain ⟨⟨m, pc⟩, -, rfl, -⟩ := h
      exact Function.update_of_ne hu _ _
  | ret t =>
      simp only [kvThreads, kvThreadsStep] at h
      split at h
      · obtain ⟨rfl, -⟩ : _ = s' ∧ _ = e := by simpa using h
        exact Function.update_of_ne hu _ _
      · simp at h

theorem Leads.pc_of_not {who : T → Prop} (h : Leads store A who s s') (hu : ¬ who u) :
    s'.pc u = s.pc u := by
  obtain ⟨acts, tr, hr, hw⟩ := h
  have keep : ∀ {s₁ a s₂ e}, s₁.pc u = s.pc u → who a.thread ∧ A.Answers s₁ a →
      (kvThreads store).step s₁ a = some (s₂, e) → s₂.pc u = s.pc u := by
    intro s₁ a s₂ e hs₁ ha hstep
    have hne : u ≠ a.thread := by
      rintro rfl
      exact hu ha.1
    rw [step_pc_of_ne hstep hne, hs₁]
  exact (kvThreads store).along_invariant keep rfl hw hr

/-! ## Running one thread to its return -/

/-- Thread `t` alone can come to its return. -/
def Returns (store : T → Addr) (A : KvAllocator T) (t : T) (s : KvThreads T) : Prop :=
  ∃ s', Leads store A (· = t) s s' ∧ s'.pc t = .idle

theorem Returns.of_step {m : KvMemory T} {pc pc' : KvPc} (hpc : s.pc t = pc)
    (h : kvStep t (store t) (A.answer t s.mem) s.mem pc = some (m, pc'))
    (hr : Returns store A t ⟨m, Function.update s.pc t pc'⟩) : Returns store A t s := by
  obtain ⟨s', hl, hidle⟩ := hr
  exact ⟨s', (leads_step hpc h).trans hl, hidle⟩

theorem returns_ret {r : Int} (hpc : s.pc t = .ret r) : Returns store A t s := by
  refine ⟨⟨s.mem, Function.update s.pc t .idle⟩, ?_, Function.update_self ..⟩
  refine @leads_action T _ store A s _ (.ret t) (some (.ret t r)) ?_ trivial
  simp [kvThreads, kvThreadsStep, hpc]

theorem returns_unlock {k : CInt} {r : Int} (hpc : s.pc t = .unlock k r) : Returns store A t s :=
  Returns.of_step hpc rfl (returns_ret (Function.update_self ..))

theorem returns_setFirst {k v : CInt} {n : Addr} (hpc : s.pc t = .setFirst k v n) :
    Returns store A t s :=
  Returns.of_step hpc rfl (returns_unlock (Function.update_self ..))

theorem returns_setNext {k v : CInt} {n : Addr} (hpc : s.pc t = .setNext k v n) :
    Returns store A t s :=
  Returns.of_step hpc rfl (returns_setFirst (Function.update_self ..))

theorem returns_setValue {k v : CInt} {n : Addr} (hpc : s.pc t = .setValue k v n) :
    Returns store A t s :=
  Returns.of_step hpc rfl (returns_setNext (Function.update_self ..))

theorem returns_setKey {k v : CInt} {n : Addr} (hpc : s.pc t = .setKey k v n) :
    Returns store A t s :=
  Returns.of_step hpc rfl (returns_setValue (Function.update_self ..))

theorem returns_alloc {k v : CInt} (hpc : s.pc t = .alloc k v) : Returns store A t s := by
  cases hmem : A.answer t s.mem with
  | none =>
      have hstep : kvStep t (store t) (A.answer t s.mem) s.mem (.alloc k v) =
          some (s.mem, .unlock k (-(enomem : Int))) := by rw [hmem]; rfl
      exact Returns.of_step hpc hstep (returns_unlock (Function.update_self ..))
  | some n =>
      have hstep : kvStep t (store t) (A.answer t s.mem) s.mem (.alloc k v) =
          some ({ s.mem with live := n :: s.mem.live }, .setKey k v n) := by
        rw [hmem]
        exact if_neg (A.unused hmem)
      exact Returns.of_step hpc hstep (returns_setKey (Function.update_self ..))

theorem returns_found {c : KvCall} {p : Addr} (hpc : s.pc t = .found c p) :
    Returns store A t s := by
  cases c with
  | write k v =>
      exact Returns.of_step hpc rfl (returns_unlock (Function.update_self ..))
  | read k =>
      exact Returns.of_step hpc rfl (returns_unlock (Function.update_self ..))

theorem returns_test {c : KvCall} {pos : Option Addr} {suf : List MyData}
    (hpc : s.pc t = .test c pos) (hchain : Chain s.mem.data pos suf) : Returns store A t s := by
  induction suf generalizing s pos with
  | nil =>
      obtain rfl : pos = none := hchain
      cases c with
      | write k v =>
          exact Returns.of_step hpc rfl (returns_alloc (Function.update_self ..))
      | read k =>
          exact Returns.of_step hpc rfl (returns_unlock (Function.update_self ..))
  | cons n suf ih =>
      obtain ⟨rfl, hcell, hrest⟩ := hchain
      by_cases hk : (s.mem.data n.addr).key = c.key
      · have hstep : kvStep t (store t) (A.answer t s.mem) s.mem (.test c (some n.addr)) =
            some (s.mem, .found c n.addr) := by simp [kvStep, hk]
        exact Returns.of_step hpc hstep (returns_found (Function.update_self ..))
      · have hstep : kvStep t (store t) (A.answer t s.mem) s.mem (.test c (some n.addr)) =
            some (s.mem, .next c n.addr) := by simp [kvStep, hk]
        refine Returns.of_step hpc hstep ?_
        refine Returns.of_step (Function.update_self ..) rfl (ih (Function.update_self ..) ?_)
        rwa [hcell]

theorem returns_head {c : KvCall} {chain : List MyData} (hpc : s.pc t = .head c)
    (hchain : Chain s.mem.data (s.mem.first (store t) c.hash) chain) : Returns store A t s :=
  Returns.of_step hpc rfl (returns_test (Function.update_self ..) hchain)

theorem returns_empty {k : CInt} {chain : List MyData} (hpc : s.pc t = .empty k)
    (hchain : Chain s.mem.data (s.mem.first (store t) (kvHash k)) chain) : Returns store A t s := by
  refine Returns.of_step hpc rfl ?_
  cases hf : s.mem.first (store t) (kvHash k) with
  | none => exact returns_unlock (Function.update_self ..)
  | some p => exact returns_head (c := .read k) (Function.update_self ..) hchain

/-- A thread that holds a lock needs no other thread. -/
theorem Refines.returns {a : SeqObject.AtomicState KvHeap T KvCall Int} (hR : s.Refines store a)
    {b : Fin 1024} (hb : (s.pc t).bucket = some b) : Returns store A t s := by
  have hst := hR.holds t
  cases hpc : s.pc t with
  | idle | lock | ret => simp [hpc, KvPc.bucket] at hb
  | empty k => exact returns_empty hpc (hR.stores.linked (store t) (kvHash k))
  | head c => exact returns_head hpc (hR.stores.linked (store t) c.hash)
  | test c pos =>
      rw [hpc] at hst
      obtain ⟨-, pre, suf, hp, rfl⟩ := hst
      have hl := hR.stores.linked (store t) c.hash
      rw [hp.split] at hl
      exact returns_test hpc hl.tail
  | next c p =>
      rw [hpc] at hst
      obtain ⟨-, pre, n, suf, hp, rfl, -⟩ := hst
      have hl := hR.stores.linked (store t) c.hash
      rw [hp.split] at hl
      have hrest : Chain s.mem.data (s.mem.data n.addr).next suf := by
        rw [hl.cell]
        exact hl.tail.2.2
      exact Returns.of_step hpc rfl (returns_test (Function.update_self ..) hrest)
  | found c p => exact returns_found hpc
  | alloc k v => exact returns_alloc hpc
  | setKey k v n => exact returns_setKey hpc
  | setValue k v n => exact returns_setValue hpc
  | setNext k v n => exact returns_setNext hpc
  | setFirst k v n => exact returns_setFirst hpc
  | unlock k r => exact returns_unlock hpc

theorem Refines.returns_lock {a : SeqObject.AtomicState KvHeap T KvCall Int}
    (hR : s.Refines store a) {c : KvCall} (hpc : s.pc t = .lock c)
    (hfree : s.mem.lock (store t) c.hash = none) : Returns store A t s := by
  have hstep : ∃ m pc, kvStep t (store t) (A.answer t s.mem) s.mem (.lock c) = some (m, pc) ∧
      pc.bucket = some c.hash := by
    cases c with
    | write k v => exact ⟨_, _, by rw [kvStep, hfree], rfl⟩
    | read k => exact ⟨_, _, by rw [kvStep, hfree], rfl⟩
  obtain ⟨m, pc, hstep, hb⟩ := hstep
  have hR' := hR.answer_lock hpc hstep
  exact Returns.of_step hpc hstep (hR'.returns (b := c.hash) (by simpa using hb))

theorem Refines.run {a : SeqObject.AtomicState KvHeap T KvCall Int} {acts : List (KvAction T)}
    {tr : List (Option (CallEvent T KvCall Int))} (hR : s.Refines store a)
    (hr : (kvThreads store).run s acts = some (s', tr)) : ∃ a', s'.Refines store a' := by
  have keep : ∀ {s₁ act s₂ e}, (∃ a, s₁.Refines store a) →
      (kvThreads store).step s₁ act = some (s₂, e) → ∃ a, s₂.Refines store a := by
    rintro s₁ act s₂ e ⟨a₁, h₁⟩ hs
    obtain ⟨-, a₂, -, -, h₂, -⟩ := h₁.answer hs
    exact ⟨a₂, h₂⟩
  exact (kvThreads store).run_invariant keep ⟨a, hR⟩ hr

theorem Refines.leads {a : SeqObject.AtomicState KvHeap T KvCall Int} {who : T → Prop}
    (hR : s.Refines store a) (hl : Leads store A who s s') : ∃ a', s'.Refines store a' := by
  obtain ⟨acts, tr, hr, -⟩ := hl
  exact hR.run hr

theorem Refines.free_after {a a' : SeqObject.AtomicState KvHeap T KvCall Int}
    (hR : s.Refines store a) (hR' : s'.Refines store a') {st : Addr} {b : Fin 1024}
    (hheld : s.mem.lock st b = some u) (hl : Leads store A (· = u) s s') (hidle : s'.pc u = .idle) :
    s'.mem.lock st b = none := by
  cases hlock : s'.mem.lock st b with
  | none => rfl
  | some w =>
      obtain ⟨hw, hbw⟩ := (hR'.locks st b w).mp hlock
      have hne : w ≠ u := by
        rintro rfl
        simp [hidle, KvPc.bucket] at hbw
      rw [hl.pc_of_not hne] at hbw
      obtain ⟨hu, hbu⟩ := (hR.locks st b u).mp hheld
      exact absurd (hR.exclusive hbw hbu (hw.trans hu.symm)) hne

/-- A running call can be brought to its return, with at most one other thread's help. -/
theorem Refines.completes {a : SeqObject.AtomicState KvHeap T KvCall Int}
    (hR : s.Refines store a) (A : KvAllocator T) (t : T) :
    ∃ u s', Leads store A (fun w => w = t ∨ w = u) s s' ∧ s'.pc t = .idle := by
  have alone : Returns store A t s →
      ∃ u s', Leads store A (fun w => w = t ∨ w = u) s s' ∧ s'.pc t = .idle := by
    rintro ⟨s', hl, hidle⟩
    exact ⟨t, s', hl.mono fun w hw => Or.inl hw, hidle⟩
  cases hb : (s.pc t).bucket with
  | some b => exact alone (hR.returns hb)
  | none =>
      cases hpc : s.pc t with
      | idle => exact ⟨t, s, ⟨[], [], rfl, trivial⟩, hpc⟩
      | ret r => exact alone (returns_ret hpc)
      | lock c =>
          cases hlock : s.mem.lock (store t) c.hash with
          | none => exact alone (hR.returns_lock hpc hlock)
          | some u =>
              have hu := ((hR.locks _ _ _).mp hlock).2
              have hne : t ≠ u := by
                rintro rfl
                simp [hb] at hu
              obtain ⟨s₁, hl₁, hidle₁⟩ : Returns store A u s := hR.returns hu
              obtain ⟨a₁, hR₁⟩ := hR.leads hl₁
              have hpc₁ : s₁.pc t = .lock c := (hl₁.pc_of_not hne).trans hpc
              obtain ⟨s₂, hl₂, hidle₂⟩ :=
                hR₁.returns_lock hpc₁ (hR.free_after hR₁ hlock hl₁ hidle₁)
              exact ⟨u, s₂, (hl₁.mono fun w hw => Or.inr hw).trans
                (hl₂.mono fun w hw => Or.inl hw), hidle₂⟩
      | _ => simp [hpc, KvPc.bucket] at hb

end KvThreads

/-- In every state a run can come to, no two threads are in the section of one lock, and every
running call can still return, with the help of at most one other thread and whatever the
allocator answers. -/
theorem kvThreads_deadlockFree {h : KvHeap} {acts : List (KvAction T)}
    {tr : List (Option (CallEvent T KvCall Int))} (hq : s.Quiet h)
    (hr : (kvThreads store).run s acts = some (s', tr)) :
    (∀ t u b, (s'.pc t).bucket = some b → (s'.pc u).bucket = some b → store t = store u →
      t = u) ∧
    ∀ (A : KvAllocator T) t, ∃ u s'',
      KvThreads.Leads store A (fun w => w = t ∨ w = u) s' s'' ∧ s''.pc t = .idle := by
  obtain ⟨a, hR⟩ := KvThreads.Refines.run hq.refines hr
  exact ⟨fun t u b ht hu hst => hR.exclusive ht hu hst, hR.completes⟩

/-- The reader spins on the lock the writer holds. -/
theorem kvThreads_deadlockFree_overlapping :
    ∃ s' tr, (kvThreads fun _ => 0).run ⟨emptyKvMemory, fun _ => .idle⟩
        (overlappingCalls.take 4) = some (s', tr) ∧
      s'.pc false = .lock (.read 1025) ∧ s'.mem.lock 0 1 = some true ∧
      ∀ A, ∃ u s'', KvThreads.Leads (fun _ => 0) A (fun w => w = false ∨ w = u) s' s'' ∧
        s''.pc false = .idle := by
  have hrun : ((kvThreads fun _ => 0).run ⟨emptyKvMemory, fun _ => .idle⟩
      (overlappingCalls.take 4)).map (fun r => (r.1.pc false, r.1.mem.lock 0 1)) =
        some (.lock (.read 1025), some true) := by decide
  obtain ⟨⟨s', tr⟩, hr, heq⟩ := Option.map_eq_some_iff.mp hrun
  obtain ⟨hpc, hlock⟩ := Prod.mk.inj heq
  have hfree := kvThreads_deadlockFree (emptyKvMemory_quiet ⟨[], fun _ _ => []⟩ rfl) hr
  exact ⟨s', tr, hr, hpc, hlock, fun A => hfree.2 A false⟩

end OShm.Kernel
