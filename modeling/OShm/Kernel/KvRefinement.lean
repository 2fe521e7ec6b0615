import OShm.Kernel.KvIsolation

/-! # The store of a thread group is a finite map

The abstract side reads a run's own events: the map of a group takes a key to the
value of the latest successful write of that key since the group was created.
Every bucket array a live task points to stands for the map of the task's group,
at every point of every run, so every result in the run is the map's answer.
-/

namespace OShm.Kernel

open OShm.Lib OShm.Lib.ChainedTable

/-- The latest write of `k` by group `g` that returned 0, over events listed newest
first. The creation of a group under the number `g` starts it afresh. -/
def latestWrite (g : Nat) (k : CInt) : List Event → Option CInt
  | [] => none
  | .wroteKv g' k' v ret :: older =>
      if g' = g ∧ k' = k ∧ ret = 0 then some v else latestWrite g k older
  | .forked g' true :: older => if g' = g then none else latestWrite g k older
  | _ :: older => latestWrite g k older

def groupMap (g : Nat) (tr : List Event) : CInt → Option CInt :=
  fun k => latestWrite g k tr.reverse

/-- What `read_kv(k)` has to return over the map `m`. -/
structure ReadSpec (m : CInt → Option CInt) (k : CInt) (ret : Int) : Prop where
  found : ∀ v, m k = some v → ret = v.toInt
  unused : (∀ k', k'.toInt % 1024 = k.toInt % 1024 → m k' = none) → ret = -3
  absent : ∀ k' v, k'.toInt % 1024 = k.toInt % 1024 → m k' = some v → m k = none → ret = -2

/-- Every result of the run is the one the group's map prescribes at that point. -/
def Conforms : List Event → Prop
  | [] => True
  | e :: older =>
      Conforms older ∧
        match e with
        | .didReadKv g k ret => ReadSpec (fun k => latestWrite g k older) k ret
        | .wroteKv _ _ _ ret => ret = 0 ∨ ret = -(enomem : Int)
        | _ => True

/-! ## One table against one map -/

theorem readKv_spec {h : KvHeap} {store : Addr} (hp : Placed kvHash (h.table store)) (k : CInt) :
    ReadSpec (h.map store) k (readKv h store k) where
  found v hv := readKv_of_some hv
  unused hnone := by
    have hk : h.map store k = none := hnone k rfl
    have hb : h.table store (kvHash k) = [] :=
      (hp.bucket_eq_nil_iff _).mpr fun k' hk' => hnone k' ((kvHash_eq_iff k' k).mp hk')
    rw [readKv_of_none hk, if_pos hb]
  absent k' v hk' hv hk := by
    have hb : h.table store (kvHash k) ≠ [] := by
      intro hb
      have hnone := (hp.bucket_eq_nil_iff _).mp hb k' ((kvHash_eq_iff k' k).mpr hk')
      have hsome : lookup kvHash (h.table store) k' = some v := hv
      simp [hnone] at hsome
    rw [readKv_of_none hk, if_neg hb]

theorem writeKv_map {h : KvHeap} {store other : Addr} (k v : CInt) (mem : Option Addr) :
    (writeKv h store k v mem).1.map other =
      if other = store ∧ (writeKv h store k v mem).2 = 0 then
        Function.update (h.map other) k (some v)
      else h.map other := by
  by_cases ho : other = store
  · subst ho
    by_cases hr : (writeKv h other k v mem).2 = 0
    · simp [hr, writeKv_map_of_ok hr]
    · simp [hr, writeKv_heap_of_fail hr]
  · simp [ho, KvHeap.map, writeKv_table_of_ne h k v mem ho]

/-! ## The events of one step -/

theorem groupMap_snoc_wrote (g g' : Nat) (k v : CInt) (ret : Int) (tr : List Event) :
    groupMap g (tr ++ [.wroteKv g' k v ret]) =
      if g' = g ∧ ret = 0 then Function.update (groupMap g tr) k (some v) else groupMap g tr := by
  funext x
  unfold groupMap
  rw [List.reverse_append, List.reverse_singleton, List.singleton_append, latestWrite]
  by_cases hk : k = x
  · subst hk
    by_cases hg : g' = g ∧ ret = 0
    · simp [hg]
    · simp only [true_and, hg, if_false]
  · have hx : x ≠ k := fun e => hk e.symm
    split <;> split <;> simp_all

theorem groupMap_snoc_newGroup (g g' : Nat) (tr : List Event) :
    groupMap g (tr ++ [.forked g' true]) = if g' = g then fun _ => none else groupMap g tr := by
  funext x
  unfold groupMap
  rw [List.reverse_append, List.reverse_singleton, List.singleton_append, latestWrite]
  split <;> rfl

theorem groupMap_snoc_thread (g g' : Nat) (tr : List Event) :
    groupMap g (tr ++ [.forked g' false]) = groupMap g tr := by
  funext x
  simp [groupMap, latestWrite]

/-! ## Simulation -/

/-- The state stands for the maps of its groups. -/
def State.Simulates (s : State) (tr : List Event) : Prop :=
  ∀ t ∈ s.tasks, t.hashed → t.tgid ≠ 0 → ∀ store, t.kvStore = some store →
    s.heap.map store = groupMap t.tgid tr

theorem State.Simulates.of_map {s : State} {tr tr' : List Event} (hs : s.Simulates tr)
    {h : KvHeap} (hmap : ∀ t ∈ s.tasks, t.hashed → t.tgid ≠ 0 → ∀ store, t.kvStore = some store →
      h.map store = s.heap.map store ∧ groupMap t.tgid tr' = groupMap t.tgid tr) :
    State.Simulates ⟨s.tasks, h⟩ tr' := by
  intro t ht hl hg store hst
  obtain ⟨hm, hg'⟩ := hmap t ht hl hg store hst
  exact (hm.trans (hs t ht hl hg store hst)).trans hg'.symm

theorem State.WellFormed.map_extends {s : State} {h : KvHeap} (hw : s.WellFormed)
    (hx : s.heap.Extends h) {t : TaskStruct} (ht : t ∈ s.tasks) {store : Addr}
    (hst : t.kvStore = some store) : h.map store = s.heap.map store := by
  simp only [KvHeap.map, hx.table store (KvHeap.mem_addrs (hw.store_live t ht store hst))]

theorem State.Simulates.step {s s' : State} {a : Action} {e : Event} {tr : List Event}
    (hw : s.WellFormed) (hs : s.Simulates tr) (h : kernel.step s a = some (s', e)) :
    s'.Simulates (tr ++ [e]) := by
  cases State.step_cases h with
  | forkFailed ht hl hsup he =>
      refine hs.of_map fun t ht _ _ store hst => ⟨?_, by funext x; simp [groupMap, latestWrite]⟩
      exact hw.map_extends (he.extends hsup.store_new) ht hst
  | forked ht hl hsup he =>
      have hx := he.extends hsup.store_new
      cases he with
      | thread hyes =>
          rename_i cur args o
          have hgroup : (forkChild cur args o).tgid = cur.tgid := by simp [forkChild, hyes]
          simp only [hyes, Bool.not_true]
          intro t htask hlt hg store hst
          rw [groupMap_snoc_thread]
          rcases List.mem_cons.mp htask with rfl | htask
          · change s.heap.map store = groupMap (forkChild cur args o).tgid tr
            rw [hgroup]
            exact hs cur ht hl (hgroup ▸ hg) store hst
          · exact hs t htask hlt hg store hst
      | process a b hno ha hb hlate =>
          rename_i cur args o
          have hgroup : (forkChild cur args o).tgid = if args.initStructPid then 0 else o.pid := by
            simp [forkChild, hno]
          simp only [hno, Bool.not_false]
          intro t htask hlt hg store hst
          rw [groupMap_snoc_newGroup]
          rcases List.mem_cons.mp htask with rfl | htask
          · obtain rfl : a = store := by simpa using hst
            funext x
            simp [KvHeap.map, KvHeap.initHlistHeads]
          · have hne : (forkChild cur args o).tgid ≠ t.tgid := by
              rw [hgroup]
              split
              · exact fun e => hg e.symm
              · exact fun e => (hsup.pid_new t htask hlt).2 e.symm
            rw [if_neg hne]
            exact (hw.map_extends hx htask hst).trans (hs t htask hlt hg store hst)
  | wrote ht hl hst hg hm =>
      rename_i t store k v mem
      intro u hu hlu hgu store' hsu
      have hiff := hw.group_store t ht u hu hl hlu hg
      rw [hst, hsu] at hiff
      have hgroups : store' = store ↔ t.tgid = u.tgid := by
        rw [← hiff, Option.some.injEq]
        exact eq_comm
      change (writeKv s.heap store k v mem).1.map store' = _
      rw [writeKv_map, groupMap_snoc_wrote, hs u hu hlu hgu store' hsu]
      simp only [hgroups]
  | didRead ht hl hst hg =>
      refine hs.of_map fun t _ _ _ store _ => ⟨rfl, ?_⟩
      funext x
      simp [groupMap, latestWrite]
  | reaped ht hl =>
      intro t htask hlt hg store hst
      have hev : ∀ g g', groupMap g (tr ++ [.reaped g']) = groupMap g tr := by
        intro g g'
        funext x
        simp [groupMap, latestWrite]
      rw [hev]
      exact hs t (mem_of_mem_releaseTask htask hlt) hlt hg store hst
  | freed ht hd =>
      intro t htask hlt hg store hst
      have hev : ∀ g, groupMap g (tr ++ [.freed]) = groupMap g tr := by
        intro g
        funext x
        simp [groupMap, latestWrite]
      rw [hev]
      exact hs t (List.mem_of_mem_filter htask) hlt hg store hst

theorem conforms_step {s s' : State} {a : Action} {e : Event} {tr : List Event}
    (hw : s.WellFormed) (hs : s.Simulates tr) (hc : Conforms tr.reverse)
    (h : kernel.step s a = some (s', e)) : Conforms (tr ++ [e]).reverse := by
  rw [List.reverse_append, List.reverse_singleton, List.singleton_append]
  cases State.step_cases h with
  | wrote ht hl hst hg hm => exact ⟨hc, writeKv_ret _ _ _ _ _⟩
  | didRead ht hl hst hg =>
      rename_i t store k
      refine ⟨hc, ?_⟩
      have hspec := readKv_spec (hw.placed t ht store hst) k
      rw [hs t ht hl hg store hst] at hspec
      exact hspec
  | forkFailed ht hl hsup he => exact ⟨hc, trivial⟩
  | forked ht hl hsup he => exact ⟨hc, trivial⟩
  | reaped ht hl => exact ⟨hc, trivial⟩
  | freed ht hd => exact ⟨hc, trivial⟩

theorem run_simulates {acts : List Action} {s : State} {tr : List Event}
    (hr : kernel.run boot acts = some (s, tr)) :
    s.WellFormed ∧ s.Simulates tr ∧ Conforms tr.reverse := by
  have start : boot.WellFormed ∧ boot.Simulates [] ∧ Conforms [].reverse := by
    refine ⟨boot_wellFormed, ?_, trivial⟩
    intro t ht _ hg
    have h0 : t = initTask := by simpa [boot] using ht
    exact absurd rfl (h0 ▸ hg)
  have keep := kernel.run_history
    (R := fun s tr => s.WellFormed ∧ s.Simulates tr ∧ Conforms tr.reverse)
    (fun hi h => ⟨hi.1.step h, hi.2.1.step hi.1 h, conforms_step hi.1 hi.2.1 hi.2.2 h⟩) start hr
  simpa using keep

/-- The store of every thread group behaves as one finite map: each result of the
run conforms, each read in the state reached answers from the map of the group,
and a write either updates that map for the whole group and returns 0, or returns
`-ENOMEM` and leaves every read of every task as it was. -/
theorem kvStore_refines_map {acts : List Action} {s : State} {tr : List Event}
    (hr : kernel.run boot acts = some (s, tr)) :
    Conforms tr.reverse ∧
    ∀ t ∈ s.tasks, t.hashed → t.tgid ≠ 0 → ∃ store, t.kvStore = some store ∧
      (∀ k, ReadSpec (groupMap t.tgid tr) k (readKv s.heap store k)) ∧
      ∀ k v mem,
        ((writeKv s.heap store k v mem).2 = 0 ∧
          ∀ u ∈ s.tasks, u.hashed → u.tgid = t.tgid → ∀ store', u.kvStore = some store' →
            ∀ k', ReadSpec (Function.update (groupMap t.tgid tr) k (some v)) k'
              (readKv (writeKv s.heap store k v mem).1 store' k')) ∨
        ((writeKv s.heap store k v mem).2 = -(enomem : Int) ∧
          ∀ u ∈ s.tasks, ∀ store', u.kvStore = some store' →
            ∀ k', readKv (writeKv s.heap store k v mem).1 store' k' =
              readKv s.heap store' k') := by
  obtain ⟨hw, hs, hc⟩ := run_simulates hr
  refine ⟨hc, ?_⟩
  intro t ht hl hg
  obtain ⟨store, hst⟩ := hw.store_some t ht hg
  refine ⟨store, hst, ?_, ?_⟩
  · intro k
    rw [← hs t ht hl hg store hst]
    exact readKv_spec (hw.placed t ht store hst) k
  · intro k v mem
    rcases writeKv_ret s.heap store k v mem with hok | hfail
    · refine Or.inl ⟨hok, ?_⟩
      intro u hu hlu hgu store' hsu k'
      have hsame : u.kvStore = t.kvStore :=
        ((hw.group_store t ht u hu hl hlu hg).mpr hgu.symm).symm
      obtain rfl : store' = store := by simpa [hsu, hst] using hsame
      rw [← hs t ht hl hg store' hst, ← writeKv_map_of_ok hok]
      exact readKv_spec (writeKv_placed k v mem (hw.placed t ht store' hst)) k'
    · refine Or.inr ⟨hfail, ?_⟩
      intro u hu store' hsu k'
      have hne : (writeKv s.heap store k v mem).2 ≠ 0 := by
        rw [hfail]
        decide
      rw [writeKv_heap_of_fail hne]

/-- A process and one more thread of it: a write of key -1, the reads of keys -1,
1023 and 0, and a write that gets no memory. -/
def twoThreads : List Action :=
  [.copyProcess 0 (plainArgs 0) (cleanFork 16 1 100 101),
   .copyProcess 16 (plainArgs (cloneVm ||| cloneSighand ||| cloneThread))
     (cleanFork 32 2 200 201),
   .writeKv 32 (BitVec.ofInt 32 (-1)) 5 (some 300),
   .readKv 16 (BitVec.ofInt 32 (-1)),
   .readKv 16 1023,
   .readKv 32 0,
   .writeKv 16 1023 8 none]

theorem kvStore_refines_map_twoThreads :
    ∃ s tr, kernel.run boot twoThreads = some (s, tr) ∧
      tr = [.forked 1 true, .forked 1 false, .wroteKv 1 (BitVec.ofInt 32 (-1)) 5 0,
        .didReadKv 1 (BitVec.ofInt 32 (-1)) 5, .didReadKv 1 1023 (-2), .didReadKv 1 0 (-3),
        .wroteKv 1 1023 8 (-12)] ∧
      Conforms tr.reverse :=
  ⟨_, _, rfl, by decide, (@kvStore_refines_map twoThreads _ _ rfl).1⟩

/-! ## Absence in the result -/

/-- The result of a read is `c` exactly if the group has not written the key. -/
def TellsAbsence (c : Int) (m : CInt → Option CInt) (k : CInt) (ret : Int) : Prop :=
  ret = c ↔ m k = none

/-- `c` is the code of the branch a read of `k` takes, and is not the value stored. -/
structure AbsenceCode (m : CInt → Option CInt) (k : CInt) (c : Int) : Prop where
  stored : ∀ v, m k = some v → v.toInt ≠ c
  unused : (∀ k', k'.toInt % 1024 = k.toInt % 1024 → m k' = none) → c = -3
  absent : ∀ k' v, k'.toInt % 1024 = k.toInt % 1024 → m k' = some v → m k = none → c = -2

theorem ReadSpec.tellsAbsence_iff {m : CInt → Option CInt} {k : CInt} {ret : Int}
    (h : ReadSpec m k ret) (c : Int) : TellsAbsence c m k ret ↔ AbsenceCode m k c := by
  constructor
  · intro ht
    refine ⟨fun v hv hc => ?_, fun hnone => ?_, fun k' v hk' hv hk => ?_⟩
    · have hnone : m k = none := ht.mp ((h.found v hv).trans hc)
      simp [hnone] at hv
    · exact (ht.mpr (hnone k rfl)).symm.trans (h.unused hnone)
    · exact (ht.mpr hk).symm.trans (h.absent k' v hk' hv hk)
  · intro hc
    cases hk : m k with
    | some v =>
        have hne := hc.stored v hk
        rw [TellsAbsence, h.found v hk, hk]
        simp [hne]
    | none =>
        have hret : ret = c := by
          by_cases hnone : ∀ k', k'.toInt % 1024 = k.toInt % 1024 → m k' = none
          · rw [h.unused hnone, hc.unused hnone]
          · simp only [not_forall] at hnone
            obtain ⟨k', hk', hsome⟩ := hnone
            obtain ⟨v, hv⟩ := Option.ne_none_iff_exists'.mp hsome
            rw [h.absent k' v hk' hv hk, hc.absent k' v hk' hv hk]
        simp [TellsAbsence, hret, hk]

theorem read_tellsAbsence_iff {acts : List Action} {s s' : State} {tr : List Event}
    (hr : kernel.run boot acts = some (s, tr)) {cur : Addr} {k : CInt} {g : Nat} {ret : Int}
    (hstep : kernel.step s (.readKv cur k) = some (s', .didReadKv g k ret)) (c : Int) :
    TellsAbsence c (groupMap g tr) k ret ↔ AbsenceCode (groupMap g tr) k c := by
  obtain ⟨hw, hs, hc⟩ := run_simulates hr
  have hspec := conforms_step hw hs hc hstep
  rw [List.reverse_append, List.reverse_singleton, List.singleton_append] at hspec
  exact hspec.2.tellsAbsence_iff c

/-- No code tells absence in every read of every run: the bucket of the key may be empty or
hold another key, and each of the two has a code of its own. -/
theorem no_code_tells_absence (c : Int) :
    ¬ ∀ acts s tr, kernel.run boot acts = some (s, tr) →
      ∀ cur k s' g ret, kernel.step s (.readKv cur k) = some (s', .didReadKv g k ret) →
        TellsAbsence c (groupMap g tr) k ret := by
  intro h
  have hempty := h [.copyProcess 0 (plainArgs 0) (cleanFork 16 1 100 101)] _ _ rfl
    16 0 _ _ _ rfl
  have hother := h [.copyProcess 0 (plainArgs 0) (cleanFork 16 1 100 101),
    .writeKv 16 1024 5 (some 300)] _ _ rfl 16 0 _ _ _ rfl
  have h3 : c = -3 := (hempty.mpr (by decide)).symm
  have h2 : c = -2 := (hother.mpr (by decide)).symm
  omega

/-- A process that stored -2 under one key reads from it what it reads from a key of the
same bucket that it never wrote. -/
theorem stored_value_reads_absent :
    ∃ s tr, kernel.run boot
        [.copyProcess 0 (plainArgs 0) (cleanFork 16 1 100 101),
          .writeKv 16 1024 (BitVec.ofInt 32 (-2)) (some 300)] = some (s, tr) ∧
      kernel.step s (.readKv 16 1024) = some (s, .didReadKv 1 1024 (-2)) ∧
      kernel.step s (.readKv 16 0) = some (s, .didReadKv 1 0 (-2)) ∧
      groupMap 1 tr 1024 = some (BitVec.ofInt 32 (-2)) ∧ groupMap 1 tr 0 = none :=
  ⟨_, _, rfl, rfl, rfl, by decide, by decide⟩

end OShm.Kernel
