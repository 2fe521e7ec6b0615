import OShm.Vdso.Vvar

/-! # Every task sees the clocks of its own time namespace

Tasks that share an `mm` are in one time namespace, and every present page of their vvar mappings
shows what that namespace prescribes. Three things keep this so: `vmf_insert_pfn` never replaces
an entry, `vdso_join_timens` removes all entries before a task changes its namespace, and
`copy_process` lets a child of another namespace have a copy of the `mm` only.
-/

namespace OShm.Vdso

open OShm.Lib OShm.Kernel

/-- Every present page of the areas is one the namespace prescribes. -/
def Shows (ns : TimeNs) (areas : List VvarArea) : Prop :=
  ∀ a ∈ areas, ∀ k f, a.pages k = some f → prescribed ns k = some f

namespace Shows

variable {ns : TimeNs} {areas : List VvarArea}

theorem map (h : Shows ns areas) {g : VvarArea → VvarArea}
    (hg : ∀ a k f, (g a).pages k = some f → a.pages k = some f ∨ prescribed ns k = some f) :
    Shows ns (areas.map g) := by
  intro b hb k f hf
  obtain ⟨a, ha, rfl⟩ := List.mem_map.mp hb
  rcases hg a k f hf with hf | hf
  · exact h a ha k f hf
  · exact hf

theorem zap (ns : TimeNs) (areas : List VvarArea) : Shows ns (areas.map VvarArea.zap) := by
  intro b hb k f hf
  obtain ⟨a, -, rfl⟩ := List.mem_map.mp hb
  cases hf

theorem cons_empty (h : Shows ns areas) (start : Nat) :
    Shows ns (⟨start, fun _ => none⟩ :: areas) := by
  intro a ha k f hf
  rcases List.mem_cons.mp ha with rfl | ha
  · cases hf
  · exact h a ha k f hf

theorem filter (h : Shows ns areas) (p : VvarArea → Bool) : Shows ns (areas.filter p) :=
  fun a ha => h a (List.mem_of_mem_filter ha)

theorem insertPfn (h : Shows ns areas) {pgoff : Nat} {f : VvarFrame}
    (hf : prescribed ns pgoff = some f) (start : Nat) :
    Shows ns (areas.map fun a => if a.start = start then a.insertPfn pgoff f else a) := by
  refine h.map ?_
  intro a k g hg
  split at hg
  · unfold VvarArea.insertPfn at hg
    split at hg
    · exact Or.inl hg
    · by_cases hk : k = pgoff
      · subst hk
        obtain rfl : f = g := by simpa using hg
        exact Or.inr hf
      · left
        simpa [hk] using hg
  · exact Or.inl hg

end Shows

namespace TimensState

structure Sound (s : TimensState) : Prop where
  distinct : s.kernel.Distinct
  same : ∀ t u m, RunsIn s.kernel t m → RunsIn s.kernel u m →
    s.timeNs t.self = s.timeNs u.self
  shown : ∀ t m, RunsIn s.kernel t m → Shows (s.timeNs t.self) (s.vvars m)
  /-- What a fault is still to insert is prescribed as well. -/
  planned : ∀ t m, RunsIn s.kernel t m → ∀ f, s.faulting t.self = some f →
    f.mm = m ∧ ∀ x ∈ f.inserts, prescribed (s.timeNs t.self) x.1 = some x.2

variable {s : TimensState}

theorem runsIn_of_mm? {cur m : Addr} (h : s.mm? cur = some m) :
    ∃ t, RunsIn s.kernel t m ∧ t.self = cur := runsIn_of_task? h

/-! ## Tasks that come and go -/

/-- A step of the kernel after which nobody runs where nobody ran before. -/
theorem Sound.restrict (hs : s.Sound) {k : State} (hd : k.Distinct)
    (hrun : ∀ t m, RunsIn k t m → RunsIn s.kernel t m) : { s with kernel := k }.Sound where
  distinct := hd
  same t u m ht hu := hs.same t u m (hrun t m ht) (hrun u m hu)
  shown t m ht := hs.shown t m (hrun t m ht)
  planned t m ht := hs.planned t m (hrun t m ht)

theorem Sound.kernel (hs : s.Sound) {a : Action} {k : State} {e : Event}
    (henter : s.mayEnter a = true) (hk : Kernel.kernel.step s.kernel a = some (k, e)) :
    { s with kernel := k }.Sound := by
  have hd := hs.distinct.step hk
  cases State.step_cases hk with
  | forkFailed => cases henter
  | forked => cases henter
  | wrote => exact hs.restrict hd fun t m ht => ⟨ht.mem, ht.hashed, ht.mm⟩
  | didRead => exact hs
  | reaped =>
      refine hs.restrict hd fun t m ht => ?_
      exact ⟨mem_of_mem_releaseTask ht.mem ht.hashed, ht.hashed, ht.mm⟩
  | freed =>
      refine hs.restrict hd fun t m ht => ?_
      exact ⟨List.mem_of_mem_filter ht.mem, ht.hashed, ht.mm⟩

theorem runsIn_setMm {cur m : Addr} {mm : Option Addr} {t : TaskStruct}
    (h : RunsIn (s.setMm cur mm).kernel t m) :
    (t.self ≠ cur ∧ RunsIn s.kernel t m) ∨ (t.self = cur ∧ mm = some m) := by
  obtain ⟨u, hu, rfl⟩ := List.mem_map.mp h.mem
  by_cases hc : u.self = cur
  · right
    have hm := h.mm
    rw [if_pos hc] at hm ⊢
    exact ⟨hc, hm⟩
  · left
    rw [if_neg hc] at h ⊢
    exact ⟨hc, hu, h.hashed, h.mm⟩

theorem Sound.distinct_setMm (hs : s.Sound) (cur : Addr) (mm : Option Addr) :
    (s.setMm cur mm).kernel.Distinct :=
  hs.distinct.map (fun t => by split <;> rfl) s.kernel.heap

theorem Sound.exit (hs : s.Sound) (cur : Addr) : (s.setMm cur none).Sound := by
  refine hs.restrict (hs.distinct_setMm cur none) fun t m ht => ?_
  rcases runsIn_setMm ht with ⟨-, ht⟩ | ⟨-, hm⟩
  · exact ht
  · cases hm

theorem Sound.exec (hs : s.Sound) {cur mm : Addr} (start : Nat) (image : VdsoImage)
    (hidle : s.faulting cur = none) (hfree : ∀ t ∈ s.kernel.tasks, t.mm ≠ some mm) :
    { (s.setMm cur (some mm)).setVvars mm [⟨start, fun _ => none⟩] with
      vdsoImage := Function.update s.vdsoImage mm (some image) }.Sound := by
  have hold : ∀ t m, RunsIn (s.setMm cur (some mm)).kernel t m → m ≠ mm →
      t.self ≠ cur ∧ RunsIn s.kernel t m := by
    intro t m ht hm
    rcases runsIn_setMm ht with h | ⟨-, heq⟩
    · exact h
    · exact absurd (Option.some.inj heq).symm hm
  have hnew : ∀ t, RunsIn (s.setMm cur (some mm)).kernel t mm → t.self = cur := by
    intro t ht
    rcases runsIn_setMm ht with ⟨-, h⟩ | ⟨h, -⟩
    · exact absurd h.mm (hfree t h.mem)
    · exact h
  refine ⟨hs.distinct_setMm cur (some mm), ?_, ?_, ?_⟩
  · intro t u m ht hu
    by_cases hm : m = mm
    · subst hm
      change s.timeNs t.self = s.timeNs u.self
      rw [hnew t ht, hnew u hu]
    · exact hs.same t u m (hold t m ht hm).2 (hold u m hu hm).2
  · intro t m ht
    by_cases hm : m = mm
    · subst hm
      have hempty : Shows (s.timeNs t.self) [] := by
        intro a ha
        cases ha
      simpa [setVvars, setMm] using hempty.cons_empty start
    · simpa [setVvars, setMm, hm] using hs.shown t m (hold t m ht hm).2
  · intro t m ht f hf
    by_cases hm : m = mm
    · subst hm
      have hnone : s.faulting t.self = none := by rw [hnew t ht, hidle]
      cases hf.symm.trans hnone
    · exact hs.planned t m (hold t m ht hm).2 f hf

/-! ## Areas and faults -/

/-- The areas of one `mm` change and still show what its tasks are to see. -/
theorem Sound.setVvars (hs : s.Sound) {m : Addr} {areas : List VvarArea}
    (h : ∀ t, RunsIn s.kernel t m → Shows (s.timeNs t.self) areas) :
    (s.setVvars m areas).Sound := by
  refine ⟨hs.distinct, hs.same, ?_, hs.planned⟩
  intro t m' ht
  by_cases hm : m' = m
  · subst hm
    simpa [TimensState.setVvars] using h t ht
  · simpa [TimensState.setVvars, hm] using hs.shown t m' ht

theorem Sound.setImage (hs : s.Sound) (f : Addr → Option VdsoImage) :
    { s with vdsoImage := f }.Sound := ⟨hs.distinct, hs.same, hs.shown, hs.planned⟩

theorem Sound.setChildren (hs : s.Sound) (f : Addr → TimeNs) :
    { s with timeNsForChildren := f }.Sound := ⟨hs.distinct, hs.same, hs.shown, hs.planned⟩

theorem Sound.setFaulting (hs : s.Sound) {cur : Addr} {f : Option VvarFaulting}
    (h : ∀ t m, RunsIn s.kernel t m → t.self = cur → ∀ x, f = some x →
      x.mm = m ∧ ∀ y ∈ x.inserts, prescribed (s.timeNs t.self) y.1 = some y.2) :
    (s.setFaulting cur f).Sound := by
  refine ⟨hs.distinct, hs.same, hs.shown, ?_⟩
  intro t m ht x hx
  by_cases hc : t.self = cur
  · exact h t m ht hc x (by simpa [TimensState.setFaulting, hc] using hx)
  · exact hs.planned t m ht x (by simpa [TimensState.setFaulting, hc] using hx)

/-- The one task of the `mm` changes its namespace after its pages were removed. -/
theorem Sound.setns (hs : s.Sound) {cur m : Addr} {ns : TimeNs} (hidle : s.faulting cur = none)
    (hcur : s.mm? cur = some m) (halone : ∀ t ∈ s.kernel.tasks, t.mm = some m → t.self = cur) :
    { s.vdsoJoinTimens m with timeNs := Function.update s.timeNs cur ns }.Sound := by
  obtain ⟨c, hc, hself⟩ := runsIn_of_mm? hcur
  have hother : ∀ t m', RunsIn s.kernel t m' → m' ≠ m → t.self ≠ cur := by
    intro t m' ht hm heq
    obtain rfl := hs.distinct t ht.mem c hc.mem (heq.trans hself.symm)
    exact hm (Option.some.inj (ht.mm.symm.trans hc.mm))
  refine ⟨hs.distinct, ?_, ?_, ?_⟩
  · intro t u m' ht hu
    by_cases hm : m' = m
    · subst hm
      have heq : t.self = u.self := (halone t ht.mem ht.mm).trans (halone u hu.mem hu.mm).symm
      rw [heq]
    · simpa [hother t m' ht hm, hother u m' hu hm] using hs.same t u m' ht hu
  · intro t m' ht
    by_cases hm : m' = m
    · subst hm
      simpa [vdsoJoinTimens, TimensState.setVvars] using Shows.zap _ (s.vvars m')
    · simpa [vdsoJoinTimens, TimensState.setVvars, hm, hother t m' ht hm] using hs.shown t m' ht
  · intro t m' ht f hf
    have hc : t.self ≠ cur := by
      intro heq
      cases hf.symm.trans (heq ▸ hidle)
    simpa [hc] using hs.planned t m' ht f hf

/-! ## Forks -/

section Fork

variable {cur : Addr} {args : CloneArgs} {o : ForkOutcome} {new : TimeNs} {p : TaskStruct}

@[simp] theorem dupMmap_timeNs : (s.dupMmap cur args o).timeNs = s.timeNs := by
  unfold dupMmap
  split
  · rfl
  · split <;> rfl

@[simp] theorem dupMmap_faulting : (s.dupMmap cur args o).faulting = s.faulting := by
  unfold dupMmap
  split
  · rfl
  · split <;> rfl

@[simp] theorem dupMmap_childNs :
    (s.dupMmap cur args o).childNs cur args new = s.childNs cur args new := by
  unfold childNs dupMmap
  split
  · rfl
  · split
    · rfl
    · split <;> rfl

theorem dupMmap_vvars {m : Addr} (h : args.flags.any cloneVm = true ∨ m ≠ o.mm) :
    (s.dupMmap cur args o).vvars m = s.vvars m := by
  unfold dupMmap
  split
  · rfl
  · split
    · rfl
    · rename_i hvm
      have hm : m ≠ o.mm := h.resolve_left hvm
      simp [setVvars, hm]

theorem dupMmap_vvars_new {oldmm : Addr} (hcur : s.mm? cur = some oldmm)
    (hvm : args.flags.any cloneVm = false) :
    (s.dupMmap cur args o).vvars o.mm = s.vvars oldmm := by
  simp [dupMmap, hcur, hvm, setVvars]

@[simp] theorem copyNamespaces_timeNs : (s.copyNamespaces cur args new p).timeNs =
    Function.update s.timeNs p.self (s.childNs cur args new) := by
  simp only [copyNamespaces]
  split
  · rfl
  · split <;> rfl

@[simp] theorem copyNamespaces_faulting : (s.copyNamespaces cur args new p).faulting =
    Function.update s.faulting p.self none := by
  simp only [copyNamespaces]
  split
  · rfl
  · split <;> rfl

theorem copyNamespaces_vvars {m : Addr}
    (h : s.childNs cur args new = s.timeNs cur ∨ p.mm ≠ some m) :
    (s.copyNamespaces cur args new p).vvars m = s.vvars m := by
  simp only [copyNamespaces]
  split
  · rfl
  · rename_i hns
    have hm := h.resolve_left hns
    split
    · rfl
    · rename_i m' hm'
      have hne : m ≠ m' := fun heq => hm (heq ▸ hm')
      simp [vdsoJoinTimens, setVvars, hne]

theorem copyNamespaces_vvars_zapped {m : Addr} (hns : s.childNs cur args new ≠ s.timeNs cur)
    (hm : p.mm = some m) :
    (s.copyNamespaces cur args new p).vvars m = (s.vvars m).map VvarArea.zap := by
  simp [copyNamespaces, hns, hm, vdsoJoinTimens, setVvars]

end Fork

/-- A child that shares the `mm` was not refused, so its parent has no other namespace ready for
its children. -/
theorem timeNsDiffers_of_shared {h : KvHeap} {t p : TaskStruct} {args : CloneArgs}
    {o : ForkOutcome} (hp : (copyProcess h t args o).2 = .ok p)
    (hvm : args.flags.any cloneVm = true) : args.timeNsDiffers = false := by
  have hpass : cloneFlagsRefused args = false := by
    cases hf : cloneFlagsRefused args with
    | false => rfl
    | true =>
        rw [copyProcess, if_pos hf] at hp
        cases hp
  have hboth : args.flags.any (cloneThread ||| cloneVm) = true := by
    have hsub : args.flags &&& cloneVm =
        args.flags &&& (cloneThread ||| cloneVm) &&& cloneVm := by
      rw [BitVec.and_assoc]
      rfl
    simp only [CloneFlags.any, bne_iff_ne] at hvm ⊢
    intro hzero
    apply hvm
    rw [hsub, hzero]
    exact BitVec.zero_and
  simp only [cloneFlagsRefused, hboth, Bool.true_and, Bool.or_eq_false_iff] at hpass
  exact hpass.1.2

theorem childNs_of_shared {t : TaskStruct} {args : CloneArgs} (new : TimeNs)
    (hmay : s.mayFork t.self args = true) (hdiffers : args.timeNsDiffers = false)
    (hnew : args.flags.any cloneNewtime = false) :
    s.childNs t.self args new = s.timeNs t.self := by
  simp only [mayFork, hdiffers, Bool.and_eq_true, beq_iff_eq] at hmay
  have hns : s.timeNs t.self = s.timeNsForChildren t.self := by simpa using hmay.1.2.symm
  simp [childNs, hnew, hns]

theorem Sound.fork (hs : s.Sound) {t p : TaskStruct} {args : CloneArgs} {o : ForkOutcome}
    {h : KvHeap} (new : TimeNs) (ht : s.kernel.task? t.self = some t)
    (hmay : s.mayFork t.self args = true)
    (hshare : args.flags.any cloneVm = true → args.flags.any cloneNewtime = false)
    (hsup : s.kernel.Supplies o) (hp : copyProcess s.kernel.heap t args o = (h, .ok p)) :
    { (s.dupMmap t.self args o).copyNamespaces t.self args new p with
      kernel := ⟨p :: s.kernel.tasks, h⟩ }.Sound := by
  obtain ⟨htmem, hthash, -⟩ := State.task?_mem ht
  have heff := copyProcess_effect s.kernel.heap t args o
  rw [hp] at heff
  obtain ⟨hself, hmm, hlive⟩ := heff.child
  have hrun := @runsIn_cons_iff s.kernel.tasks s.kernel.heap h p hlive
  have hold : ∀ u m, RunsIn s.kernel u m → u.self ≠ p.self ∧ m ≠ o.mm := by
    intro u m hu
    refine ⟨hself ▸ hsup.task_new u hu.mem, ?_⟩
    rintro rfl
    exact hsup.mm_new u hu.mem hu.mm
  -- either the `mm` is shared and the namespace with it, or the `mm` is new
  have hchild : ∀ m, p.mm = some m →
      (RunsIn s.kernel t m ∧ s.childNs t.self args new = s.timeNs t.self) ∨
      (m = o.mm ∧ args.flags.any cloneVm = false ∧ ∃ oldmm, t.mm = some oldmm) := by
    intro m hm
    rw [hmm, copyMm] at hm
    cases hmold : t.mm with
    | none => simp [hmold] at hm
    | some oldmm =>
        cases hvm : args.flags.any cloneVm with
        | true =>
            obtain rfl : oldmm = m := by simpa [hmold, hvm] using hm
            have hd := timeNsDiffers_of_shared (congrArg Prod.snd hp) hvm
            exact Or.inl ⟨⟨htmem, hthash, hmold⟩, childNs_of_shared new hmay hd (hshare hvm)⟩
        | false =>
            obtain rfl : o.mm = m := by simpa [hmold, hvm] using hm
            exact Or.inr ⟨rfl, rfl, oldmm, rfl⟩
  have hvvars : ∀ u m, RunsIn s.kernel u m →
      ((s.dupMmap t.self args o).copyNamespaces t.self args new p).vvars m = s.vvars m := by
    intro u m hu
    obtain ⟨-, hne⟩ := hold u m hu
    rw [copyNamespaces_vvars, dupMmap_vvars (Or.inr hne)]
    by_cases hm : p.mm = some m
    · rcases hchild m hm with ⟨-, hns⟩ | ⟨rfl, -⟩
      · exact Or.inl (by simpa using hns)
      · exact absurd rfl hne
    · exact Or.inr hm
  refine ⟨?_, ?_, ?_, ?_⟩
  · intro u hu v hv heq
    rcases List.mem_cons.mp hu with rfl | hu' <;> rcases List.mem_cons.mp hv with rfl | hv'
    · rfl
    · exact absurd (heq.symm.trans hself) (hsup.task_new v hv')
    · exact absurd (heq.trans hself) (hsup.task_new u hu')
    · exact hs.distinct u hu' v hv' heq
  · -- a task beside the child runs in a shared `mm` only
    have hbeside : ∀ u m, RunsIn s.kernel u m → p.mm = some m →
        s.childNs t.self args new = s.timeNs u.self := by
      intro u m hu hm
      rcases hchild m hm with ⟨ht, hns⟩ | ⟨rfl, -⟩
      · exact hns.trans (hs.same t u m ht hu)
      · exact absurd rfl (hold u o.mm hu).2
    intro u v m hu hv
    rcases hrun.mp hu with ⟨rfl, hm⟩ | hu' <;> rcases hrun.mp hv with ⟨rfl, hm'⟩ | hv'
    · rfl
    · simpa [(hold v m hv').1] using hbeside v m hv' hm
    · simpa [(hold u m hu').1] using (hbeside u m hu' hm').symm
    · simpa [(hold u m hu').1, (hold v m hv').1] using hs.same u v m hu' hv'
  · intro u m hu
    rcases hrun.mp hu with ⟨rfl, hm⟩ | hu
    · simp only [copyNamespaces_timeNs, dupMmap_childNs, Function.update_self]
      rcases hchild m hm with ⟨ht, hns⟩ | ⟨rfl, hvm, oldmm, hmold⟩
      · rw [hvvars t m ht, hns]
        exact hs.shown t m ht
      · by_cases hns : s.childNs t.self args new = s.timeNs t.self
        · have hcur : s.mm? t.self = some oldmm := by simp [mm?, ht, hmold]
          rw [copyNamespaces_vvars (Or.inl (by simpa using hns)), dupMmap_vvars_new hcur hvm, hns]
          exact hs.shown t oldmm ⟨htmem, hthash, hmold⟩
        · rw [copyNamespaces_vvars_zapped (by simpa using hns) hm]
          exact Shows.zap _ _
    · simpa [(hold u m hu).1, hvvars u m hu] using hs.shown u m hu
  · intro u m hu f hf
    rcases hrun.mp hu with ⟨rfl, -⟩ | hu
    · simp at hf
    · have hne := (hold u m hu).1
      simpa [hne] using hs.planned u m hu f (by simpa [hne] using hf)

/-! ## Whole runs -/

/-- No child that shares the `mm` gets a new time namespace. -/
def KeepsTime : TimensAction → Prop
  | .fork _ args _ _ => args.flags.any cloneVm = true → args.flags.any cloneNewtime = false
  | _ => True

instance : DecidablePred KeepsTime := fun a =>
  match a with
  | .fork .. => inferInstanceAs (Decidable (_ → _))
  | .kernel _ | .unshareTime .. | .setnsTime .. | .exec .. | .exit _ | .mapVdso .. | .munmap ..
  | .mremap .. | .fault .. | .insertPfn .. => isTrue trivial

theorem Sound.step (hs : s.Sound) {a : TimensAction} {s' : TimensState} {e : TimensEvent}
    (hkeep : KeepsTime a) (h : timens.step s a = some (s', e)) : s'.Sound := by
  change s.step a = some (s', e) at h
  cases a with
  | kernel a =>
      simp only [TimensState.step] at h
      split at h
      · rename_i henter
        split at h
        · cases h
        · rename_i k ev hk
          cases h
          exact hs.kernel henter hk
      · cases h
  | fork cur args o new =>
      simp only [TimensState.step] at h
      split at h
      · rename_i hmay
        split at h
        · cases h
        · rename_i t ht
          obtain ⟨-, -, rfl⟩ := State.task?_mem ht
          split at h
          · rename_i hsup
            split at h
            · cases h
              exact hs.restrict hs.distinct fun t m ht => ⟨ht.mem, ht.hashed, ht.mm⟩
            · rename_i hp
              cases h
              exact hs.fork new ht hmay hkeep hsup hp
          · cases h
      · cases h
  | unshareTime cur new =>
      simp only [TimensState.step] at h
      split at h <;> cases h
      exact hs.setChildren _
  | setnsTime cur ns =>
      simp only [TimensState.step] at h
      split at h
      · cases h
      · rename_i m hm
        split at h
        · rename_i hguard
          cases h
          exact (hs.setns (Option.isNone_iff_eq_none.mp hguard.1) hm hguard.2).setChildren _
        · cases h
  | exec cur mm start image =>
      simp only [TimensState.step] at h
      split at h
      · rename_i hguard
        cases h
        exact hs.exec start image (Option.isNone_iff_eq_none.mp hguard.2.1) hguard.2.2
      · cases h
  | exit cur =>
      simp only [TimensState.step] at h
      split at h <;> cases h
      exact hs.exit cur
  | mapVdso cur start image =>
      simp only [TimensState.step] at h
      split at h
      · cases h
      · split at h <;> cases h
        exact (hs.setVvars fun t ht => (hs.shown t _ ht).cons_empty start).setImage _
  | munmap cur start =>
      simp only [TimensState.step] at h
      split at h
      · cases h
      · split at h <;> cases h
        exact hs.setVvars fun t ht => (hs.shown t _ ht).filter _
  | mremap cur start dest =>
      simp only [TimensState.step] at h
      split at h
      · cases h
      · split at h <;> cases h
        refine hs.setVvars fun t ht => (hs.shown t _ ht).map fun a k f hf => Or.inl ?_
        split at hf <;> exact hf
  | fault cur start pgoff clocks =>
      simp only [TimensState.step] at h
      split at h
      · rename_i m hm hidle
        split at h
        · split at h
          · cases h
            exact hs
          · rename_i inserts hplan
            cases h
            refine hs.setFaulting fun t m' ht hself x hx => ?_
            obtain rfl := Option.some.inj hx
            obtain ⟨c, hc, hcself⟩ := runsIn_of_mm? hm
            obtain rfl := hs.distinct t ht.mem c hc.mem (hself.trans hcself.symm)
            subst hself
            exact ⟨Option.some.inj (hc.mm.symm.trans ht.mm), vvarFault_prescribed hplan⟩
        · cases h
      · cases h
  | insertPfn cur mem =>
      simp only [TimensState.step] at h
      split at h
      · rename_i m m' start pgoff f rest hm hf
        obtain ⟨t, ht, rfl⟩ := runsIn_of_mm? hm
        obtain ⟨hmm, hplan⟩ := hs.planned t m ht _ hf
        obtain rfl : m' = m := hmm
        have hin : (s.setVvars m' ((s.vvars m').map fun a =>
            if a.start = start then a.insertPfn pgoff f else a)).Sound := by
          refine hs.setVvars fun u hu => (hs.shown u m' hu).insertPfn ?_ start
          rw [hs.same u t m' hu ht]
          exact hplan (pgoff, f) List.mem_cons_self
        split at h
        · split at h <;> cases h
          · exact hin.setFaulting fun _ _ _ _ x hx => by cases hx
          · refine hin.setFaulting fun u m hu hself x hx => ?_
            obtain rfl := Option.some.inj hx
            obtain rfl := hs.distinct u hu.mem t ht.mem hself
            refine ⟨Option.some.inj (ht.mm.symm.trans hu.mm), fun y hy => ?_⟩
            exact hplan y (List.mem_cons_of_mem _ hy)
        · cases h
          exact hs.setFaulting fun _ _ _ _ x hx => by cases hx
      · cases h

theorem Sound.of_run (hs : s.Sound) {acts : List TimensAction} {s' : TimensState}
    {tr : List TimensEvent} (hkeep : ∀ a ∈ acts, KeepsTime a)
    (hr : timens.run s acts = some (s', tr)) : s'.Sound :=
  timens.along_invariant (fun hs hk h => Sound.step hs hk h) hs
    (timens.along_of_forall hkeep) hr

/-! ## A page that is missing can be had -/

/-- With both clocks in use a fault inserts the page it was taken for last. -/
theorem vvarFault_of_prescribed (image : VdsoImage) {ns : TimeNs} {pgoff : Nat} {f : VvarFrame}
    (h : prescribed ns pgoff = some f) :
    ∃ inserts, vvarFault (some image) false ns ⟨true, true⟩ pgoff = some inserts ∧
      (pgoff, f) ∈ inserts := by
  have hstart := image.symVvarStart_toInt
  by_cases hns : ns = 0
  · match pgoff, h with
    | 0, h | 1, h | 2, h =>
      simp_all [prescribed, vvarFault, VdsoImage.symVvarPage, VdsoImage.symPvclockPage,
        VdsoImage.symHvclockPage, findTimensVvarPage, pageSize]
    | 3, h => simp [prescribed, hns] at h
  · match pgoff, h with
    | 0, h | 1, h | 2, h | 3, h =>
      simp_all [prescribed, vvarFault, VdsoImage.symVvarPage, VdsoImage.symPvclockPage,
        VdsoImage.symHvclockPage, VdsoImage.symTimensPage, findTimensVvarPage, pageSize]

theorem foldl_insertPfn_start (l : List (Nat × VvarFrame)) (a : VvarArea) :
    (l.foldl (fun a x => a.insertPfn x.1 x.2) a).start = a.start := by
  induction l generalizing a with
  | nil => rfl
  | cons x l ih =>
      rw [List.foldl_cons, ih]
      unfold VvarArea.insertPfn
      split <;> rfl

theorem foldl_insertPfn_pages {ns : TimeNs} {k : Nat} {f : VvarFrame}
    (hk : prescribed ns k = some f) {l : List (Nat × VvarFrame)}
    (hl : ∀ x ∈ l, prescribed ns x.1 = some x.2) (a : VvarArea)
    (ha : a.pages k = some f ∨ (a.pages k = none ∧ (k, f) ∈ l)) :
    (l.foldl (fun a x => a.insertPfn x.1 x.2) a).pages k = some f := by
  induction l generalizing a with
  | nil => simpa using ha
  | cons x l ih =>
      obtain ⟨hx, hrest⟩ := List.forall_mem_cons.mp hl
      refine ih hrest (a.insertPfn x.1 x.2) ?_
      have hsame : x.1 = k → x.2 = f := fun heq => Option.some.inj (hx.symm.trans (heq ▸ hk))
      unfold VvarArea.insertPfn
      rcases ha with ha | ⟨ha, hmem⟩
      · left
        split
        · exact ha
        · rename_i hnone
          have hne : k ≠ x.1 := by
            rintro rfl
            cases ha.symm.trans hnone
          simpa [hne] using ha
      · by_cases heq : x.1 = k
        · left
          simp [heq, ha, hsame heq]
        · right
          have hmem' : (k, f) ∈ l := by
            rcases List.mem_cons.mp hmem with h | h
            · exact absurd (congrArg Prod.fst h).symm heq
            · exact h
          split
          · exact ⟨ha, hmem'⟩
          · exact ⟨by simpa [Ne.symm heq] using ha, hmem'⟩

theorem run_insertPfn {cur m : Addr} {start : Nat} {l : List (Nat × VvarFrame)} (hl : l ≠ [])
    (hrun : (s.mm? cur).isSome) (hf : s.faulting cur = some ⟨m, start, l⟩) :
    ∃ s' tr, timens.run s (List.replicate l.length (.insertPfn cur true)) = some (s', tr) ∧
      s'.vvars m = (s.vvars m).map fun a =>
        if a.start = start then l.foldl (fun a x => a.insertPfn x.1 x.2) a else a := by
  induction l generalizing s with
  | nil => exact absurd rfl hl
  | cons x rest ih =>
      obtain ⟨m', hm'⟩ := Option.isSome_iff_exists.mp hrun
      let one := s.setVvars m ((s.vvars m).map fun a =>
        if a.start = start then a.insertPfn x.1 x.2 else a)
      cases rest with
      | nil =>
          refine ⟨one.setFaulting cur none, [.nopage], ?_, ?_⟩
          · simp [System.run, timens, TimensState.step, hm', hf, one]
          · simp [one, TimensState.setVvars, TimensState.setFaulting]
      | cons y rest =>
          have hstep : timens.step s (.insertPfn cur true) =
              some (one.setFaulting cur (some ⟨m, start, y :: rest⟩), .faulting) := by
            simp [timens, TimensState.step, hm', hf, one]
          obtain ⟨s', tr, hr, hv⟩ := ih (by simp) hrun
            (s := one.setFaulting cur (some ⟨m, start, y :: rest⟩))
            (by simp [TimensState.setFaulting])
          refine ⟨s', .faulting :: tr, timens.run_cons_iff.mpr ⟨_, _, _, hstep, hr, rfl⟩, ?_⟩
          rw [hv]
          simp only [one, TimensState.setFaulting, TimensState.setVvars, Function.update_self,
            List.map_map]
          refine List.map_congr_left fun a _ => ?_
          by_cases ha : a.start = start
          · have hstart : (a.insertPfn x.1 x.2).start = start :=
              (foldl_insertPfn_start [x] a).trans ha
            simp [ha, hstart]
          · simp [ha]

theorem Sound.page_fault (hs : s.Sound) {t : TaskStruct} {m : Addr} (ht : RunsIn s.kernel t m)
    (hidle : s.faulting t.self = none) {image : VdsoImage} (himage : s.vdsoImage m = some image)
    {a : VvarArea} (ha : a ∈ s.vvars m) {k : Nat} {f : VvarFrame}
    (hk : prescribed (s.timeNs t.self) k = some f) (habs : a.pages k = none) :
    ∃ n s' tr, timens.run s (.fault t.self a.start k ⟨true, true⟩ ::
        List.replicate n (.insertPfn t.self true)) = some (s', tr) ∧
      ∃ b ∈ s'.vvars m, b.start = a.start ∧ b.pages k = some f := by
  have hmm : s.mm? t.self = some m := by simp [mm?, ht.task? hs.distinct, ht.mm]
  obtain ⟨inserts, hplan, hmem⟩ := vvarFault_of_prescribed image hk
  have hstep : timens.step s (.fault t.self a.start k ⟨true, true⟩) =
      some (s.setFaulting t.self (some ⟨m, a.start, inserts⟩), .faulting) := by
    have hguard : ∃ b ∈ s.vvars m, b.start = a.start ∧ b.pages k = none := ⟨a, ha, rfl, habs⟩
    simp only [timens, TimensState.step, hmm, hidle, if_pos hguard, himage, hplan]
  have hfault : (s.setFaulting t.self (some ⟨m, a.start, inserts⟩)).faulting t.self =
      some ⟨m, a.start, inserts⟩ := Function.update_self ..
  have hruns : ((s.setFaulting t.self (some ⟨m, a.start, inserts⟩)).mm? t.self).isSome :=
    Option.isSome_iff_exists.mpr ⟨m, hmm⟩
  obtain ⟨s', tr, hr, hv⟩ := run_insertPfn (List.ne_nil_of_mem hmem) hruns hfault
  refine ⟨inserts.length, s', .faulting :: tr,
    timens.run_cons_iff.mpr ⟨_, _, _, hstep, hr, rfl⟩, ?_⟩
  refine ⟨inserts.foldl (fun a x => a.insertPfn x.1 x.2) a, ?_,
    foldl_insertPfn_start inserts a, ?_⟩
  · rw [hv]
    exact List.mem_map.mpr ⟨a, ha, if_pos rfl⟩
  · exact foldl_insertPfn_pages hk (vvarFault_prescribed hplan) a (Or.inr ⟨habs, hmem⟩)

/-- Nothing is mapped yet, and tasks that share an `mm` are in one namespace. -/
structure Unmapped (s : TimensState) : Prop where
  distinct : s.kernel.Distinct
  same : ∀ t u m, RunsIn s.kernel t m → RunsIn s.kernel u m →
    s.timeNs t.self = s.timeNs u.self
  vvars : ∀ m, s.vvars m = []
  faulting : ∀ cur, s.faulting cur = none

theorem Unmapped.sound (h : s.Unmapped) : s.Sound := by
  refine ⟨h.distinct, h.same, ?_, ?_⟩
  · intro t m _ a ha
    rw [h.vvars] at ha
    cases ha
  · intro t m _ f hf
    cases hf.symm.trans (h.faulting t.self)

end TimensState

/-- After any interleaving of forks, exits, execs, changes of the time namespace, of the mappings
and of the insertions of page faults: the vvar pages a task finds present are those its own time
namespace prescribes, and each page that is prescribed and missing can be faulted in. -/
theorem vvar_own_namespace {s s' : TimensState} {acts : List TimensAction}
    {tr : List TimensEvent} (h₀ : s.Unmapped) (hkeep : ∀ a ∈ acts, TimensState.KeepsTime a)
    (hr : timens.run s acts = some (s', tr)) {t : TaskStruct} {m : Addr}
    (ht : RunsIn s'.kernel t m) {a : VvarArea} (ha : a ∈ s'.vvars m) (k : Nat) :
    (∀ f, a.pages k = some f → prescribed (s'.timeNs t.self) k = some f) ∧
      (∀ f, prescribed (s'.timeNs t.self) k = some f → a.pages k = none →
        s'.faulting t.self = none → (s'.vdsoImage m).isSome →
        ∃ n s'' tr', timens.run s' (.fault t.self a.start k ⟨true, true⟩ ::
            List.replicate n (.insertPfn t.self true)) = some (s'', tr') ∧
          ∃ b ∈ s''.vvars m, b.start = a.start ∧ b.pages k = some f) := by
  have hs : s'.Sound := h₀.sound.of_run hkeep hr
  refine ⟨hs.shown t m ht a ha k, ?_⟩
  intro f hk habs hidle himage
  obtain ⟨image, himage⟩ := Option.isSome_iff_exists.mp himage
  exact hs.page_fault ht hidle himage ha hk habs

def timensStart : TimensState where
  kernel := userStart.kernel
  timeNs _ := 0
  timeNsForChildren _ := 0
  vdsoImage _ := none
  vvars _ := []
  faulting _ := none

theorem timensStart_unmapped : timensStart.Unmapped where
  distinct := userStart_untouched.distinct
  same _ _ _ _ _ := rfl
  vvars _ := rfl
  faulting _ := rfl

def forkIntoNamespace : List TimensAction :=
  [.mapVdso 20544 0x1000 onePage, .fault 20544 0x1000 0 ⟨true, true⟩, .insertPfn 20544 true,
    .unshareTime 20544 5,
    .fork 20544 ⟨0, false, false, false, true⟩ (cleanFork 40960 2 200 201) 0,
    .fault 40960 0x1000 0 ⟨true, true⟩, .insertPfn 40960 true, .insertPfn 40960 true]

/-- The page the parent faulted in does not reach the child. -/
theorem vvar_own_namespace_fork :
    ∃ s tr, timens.run timensStart forkIntoNamespace = some (s, tr) ∧
      ∃ t ∈ s.kernel.tasks, t.self = 40960 ∧ ∃ a ∈ s.vvars 40961,
        a.pages 0 = some (.timens 5) ∧ a.pages 3 = some .vvar ∧
          prescribed (s.timeNs t.self) 0 = some (.timens 5) := by
  have hkeep : ∀ a ∈ forkIntoNamespace, TimensState.KeepsTime a := by decide
  refine ⟨_, _, rfl, _, List.mem_cons_self, rfl, _, List.mem_cons_self, rfl, rfl, ?_⟩
  exact (vvar_own_namespace timensStart_unmapped hkeep rfl
    ⟨List.mem_cons_self, rfl, rfl⟩ List.mem_cons_self 0).1 _ rfl

end OShm.Vdso
