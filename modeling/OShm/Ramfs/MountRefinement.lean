import OShm.Lib.Transition
import OShm.Ramfs.Mount

/-! # A ramfs that was bound stays

`ramfs_bind` keeps its reference to the ramfs when it succeeds, and nobody can give it back. So
a ramfs that was bound once is never shut down, and the strings its contexts and super blocks
point to are, over every run, the bindings of the sequential model of `ramfs_bind`.
-/

namespace OShm.Ramfs

open OShm.Kernel OShm.Lib OShm.Lib.Ledger

namespace Mounts

variable {s s' : Mounts} {n : Nat} {e : MountEvent}

/-- The super block has a reference that nobody can give back. -/
def Held (s : Mounts) (n : Nat) : Prop := ∃ b, s.sb n = some b ∧ 0 < b.lost

/-- Only such a super block has a string. -/
def Pinned (s : Mounts) : Prop :=
  ∀ n b, s.sb n = some b → b.lost = 0 → s.slot (.dir n) = none

/-! ## References -/

theorem killSb_sb (s : Mounts) (n : Nat) (b : MountedSb) :
    (s.killSb n b).sb = Function.update s.sb n none := by
  unfold killSb
  split <;> rfl

theorem killSb_text (s : Mounts) (n : Nat) (b : MountedSb) : (s.killSb n b).text = s.text := by
  unfold killSb
  split <;> rfl

theorem Held.drop {m : Nat} {b b' : MountedSb} (h : s.Held m) (hb : s.sb n = some b)
    (hlost : b'.lost = b.lost) : (s.drop n b').Held m := by
  obtain ⟨c, hc, hpos⟩ := h
  unfold Mounts.drop
  by_cases hm : m = n
  · subst hm
    obtain rfl : b = c := Option.some.inj (hb.symm.trans hc)
    rw [if_neg (by omega)]
    exact ⟨b', by simp, by omega⟩
  · split
    · exact ⟨c, by rw [killSb_sb, Function.update_of_ne hm, hc], hpos⟩
    · exact ⟨c, by simpa [hm] using hc, hpos⟩

theorem Held.lose {m : Nat} (h : s.Held m) (count : Nat → Nat) : (s.lose count).Held m := by
  obtain ⟨b, hb, hpos⟩ := h
  exact ⟨{ b with lost := b.lost + count m }, by simp [Mounts.lose, hb], by simp; omega⟩

theorem setSyncDir_sb (s : Mounts) (fsi : Addr) (dir : CString) (mem : Option Addr) :
    (s.setSyncDir fsi dir mem).sb = s.sb := by
  cases mem <;> rfl

theorem Effect.held (h : s.Effect s' e) {m : Nat} (hm : s.Held m) : s'.Held m := by
  cases h with
  | nothing => exact hm
  | opened hfc ha => exact hm
  | parsed hfc p => cases p <;> exact hm
  | tree hfc hn root =>
      rename_i fc n fsi
      obtain ⟨b, hb, hpos⟩ := hm
      have hne : m ≠ n := by
        rintro rfl
        simp [hn] at hb
      have hsb : (s.getTree fc n fsi root).1.sb m = s.sb m := by
        cases root with
        | true => simp [getTree, fillSuper, hne]
        | false => simp [getTree, killSb, fillSuper, hne]
      exact ⟨b, by rw [hsb, hb], hpos⟩
  | closed hc =>
      rename_i fc c
      have hroot : (s.putRoot c).Held m := by
        rcases s.putRoot_cases c with h | ⟨n, b, hb, h⟩
        · rwa [h]
        · rw [h]
          exact hm.drop hb rfl
      exact hroot
  | got hb =>
      rename_i n b
      obtain ⟨c, hc, hpos⟩ := hm
      by_cases hne : m = n
      · subst hne
        obtain rfl : b = c := Option.some.inj (hb.symm.trans hc)
        exact ⟨{ b with users := b.users + 1 }, by simp, hpos⟩
      · exact ⟨c, by simpa [hne] using hc, hpos⟩
  | dropped hb => exact hm.drop hb rfl
  | refused hc => exact hm.lose _
  | bound hc hmem hn hdir ha =>
      refine Held.lose ?_ _
      rwa [Held, setSyncDir_sb]
  | unbound hc hmem hn =>
      refine Held.lose ?_ _
      rwa [Held, setSyncDir_sb]

theorem leaks_pos {c : BindCall} (hc : c.check = .ok n) : 0 < c.leaks lookupRefs n := by
  have hplace : c.place .ramfsMount = some (.ramfs n) := by
    simp only [BindCall.check] at hc
    split at hc
    · cases hc
    split at hc
    · cases hc
    split at hc
    · cases hc
    rename_i m hm
    split at hc
    · rename_i sb hsb
      split at hc
      · cases hc
      split at hc
      · cases hc
      split at hc
      · cases hc
      · cases hc
        simp [BindCall.place, hm, hsb, Except.toOption]
    · cases hc
  have hkept : keptRefs lookupRefs = [.firstSync, .ramfsMount, .secondSync] := by decide
  rw [BindCall.leaks, hkept]
  refine List.length_pos_of_mem (List.mem_filter.mpr ⟨?_, by simpa using hplace⟩)
  simp

theorem held_of_bound {c : BindCall} {fsi a : Addr} {dir : CString} (hc : c.check = .ok n)
    (hn : s.sbInfo n = some fsi) :
    ((s.setSyncDir fsi dir (some a)).lose (c.leaks lookupRefs)).Held n := by
  cases hb : s.sb n with
  | none => simp [sbInfo, hb] at hn
  | some b =>
      have hpos := leaks_pos hc
      refine ⟨{ b with lost := b.lost + c.leaks lookupRefs n }, ?_, by simp; omega⟩
      simp [lose, setSyncDir_sb, hb]

/-! ## Strings only with a reference that stays -/

theorem Pinned.of_dir (hp : s.Pinned) (hsb : ∀ m b', s'.sb m = some b' → b'.lost = 0 →
      s'.slot (.dir m) = none ∨ ∃ b, s.sb m = some b ∧ b.lost = 0)
    (hslot : ∀ m, s'.slot (.dir m) = s.slot (.dir m) ∨ s'.slot (.dir m) = none) : s'.Pinned := by
  intro m b' hb' hlost
  rcases hsb m b' hb' hlost with h | ⟨b, hb, hb0⟩
  · exact h
  · rcases hslot m with h | h
    · rw [h]
      exact hp m b hb hb0
    · exact h

theorem drop_slot_dir {b : MountedSb} (hb : s.sbInfo n = b.fsInfo) (m : Nat) :
    (s.drop n b).slot (.dir m) = s.slot (.dir m) ∨ (s.drop n b).slot (.dir m) = none := by
  unfold drop
  split
  · rw [killSb_slot]
    by_cases hm : m = n
    · exact Or.inr (by simp [hm])
    · exact Or.inl (by simp [hm])
  · exact Or.inl (by rw [recount_slot hb])

theorem Pinned.drop {b b' : MountedSb} (hp : s.Pinned) (hb : s.sb n = some b)
    (hinfo : b'.fsInfo = b.fsInfo) (hlost : b'.lost = b.lost) : (s.drop n b').Pinned := by
  refine hp.of_dir ?_ (drop_slot_dir (by simp [sbInfo, hb, hinfo]))
  intro m c hc hc0
  right
  unfold Mounts.drop at hc
  by_cases hm : m = n
  · subst hm
    split at hc
    · simp [killSb_sb] at hc
    · obtain rfl : b' = c := by simpa using hc
      exact ⟨b, hb, by omega⟩
  · refine ⟨c, ?_, hc0⟩
    split at hc
    · simpa [killSb_sb, hm] using hc
    · simpa [hm] using hc

theorem Pinned.lose (hp : s.Pinned) (count : Nat → Nat) : (s.lose count).Pinned := by
  refine hp.of_dir (fun m b' hb' h0 => Or.inr ?_) fun m => Or.inl (by rw [lose_slot])
  obtain ⟨b, hb, rfl⟩ := Option.map_eq_some_iff.mp hb'
  exact ⟨b, hb, Nat.eq_zero_of_add_eq_zero_right h0⟩

theorem Pinned.setSyncDir {fsi : Addr} {dir : CString} {mem : Option Addr} {count : Nat → Nat}
    (hp : s.Pinned) (hs : s.Safe) (hn : s.sbInfo n = some fsi)
    (hpos : mem = none ∨ 0 < count n) : ((s.setSyncDir fsi dir mem).lose count).Pinned := by
  intro m b' hb' h0
  obtain ⟨b, hb, rfl⟩ := Option.map_eq_some_iff.mp hb'
  rw [setSyncDir_sb] at hb
  have hzero : b.lost + count m = 0 := h0
  rw [lose_slot, hs.setSyncDir_slot hn]
  by_cases hm : m = n
  · subst hm
    rcases hpos with rfl | hpos
    · simp
    · omega
  · rw [Function.update_of_ne (by simp [hm])]
    exact hp m b hb (by omega)

theorem Effect.pinned (h : s.Effect s' e) (hs : s.Safe) (hp : s.Pinned) : s'.Pinned := by
  cases h with
  | nothing => exact hp
  | opened hfc ha =>
      refine hp.of_dir (fun m b hb h0 => Or.inr ⟨b, hb, h0⟩) fun m => Or.inl ?_
      rw [hs.initFsContext_slot ha]
      simp
  | parsed hfc p =>
      refine hp.of_dir (fun m b hb h0 => Or.inr ⟨b, ?_, h0⟩) fun m => Or.inl ?_
      · cases p <;> exact hb
      · rw [hs.parseParam_slot hfc p]
  | tree hfc hn root =>
      rename_i fc n fsi
      have hfill := hs.fillSuper_slot hfc hn
      have hdir : ∀ m, (s.getTree fc n fsi root).1.slot (.dir m) = s.slot (.dir m) ∨
          (s.getTree fc n fsi root).1.slot (.dir m) = none := by
        intro m
        cases root with
        | true => exact Or.inl (by simp [getTree, hfill])
        | false =>
            rw [getTree_failed_slot, killSb_slot, hfill]
            by_cases hm : m = n
            · exact Or.inr (by simp [hm])
            · exact Or.inl (by simp [hm])
      refine hp.of_dir (fun m b hb h0 => ?_) hdir
      by_cases hm : m = n
      · left
        have hnone : s.slot (.dir n) = none := by simp [slot, sbInfo, hn]
        rcases hdir m with h | h
        · rw [h, hm, hnone]
        · exact h
      · refine Or.inr ⟨b, ?_, h0⟩
        cases root with
        | true => simpa [getTree, fillSuper, hm] using hb
        | false => simpa [getTree, killSb, fillSuper, hm] using hb
  | closed hc =>
      rename_i fc c
      have hroot : (s.putRoot c).Pinned := by
        rcases s.putRoot_cases c with h | ⟨n, b, hb, h⟩
        · rwa [h]
        · rw [h]
          exact hp.drop hb rfl rfl
      exact hroot.of_dir (fun m b hb h0 => Or.inr ⟨b, hb, h0⟩) fun m =>
        Or.inl (by simp [putFsContext, freeFc_slot])
  | got hb =>
      rename_i n b
      refine hp.of_dir (fun m c hc h0 => Or.inr ?_) fun m => Or.inl ?_
      · by_cases hm : m = n
        · subst hm
          obtain rfl : { b with users := b.users + 1 } = c := by simpa using hc
          exact ⟨b, hb, h0⟩
        · exact ⟨c, by simpa [hm] using hc, h0⟩
      · rw [recount_slot (by simp [sbInfo, hb])]
  | dropped hb => exact hp.drop hb rfl rfl
  | refused hc => exact hp.lose _
  | bound hc hmem hn hdir ha => exact hp.setSyncDir hs hn (Or.inr (leaks_pos hc))
  | unbound hc hmem hn => exact hp.setSyncDir hs hn (Or.inl rfl)

/-! ## The bindings -/

theorem bound_of_slot (htext : s'.text = s.text)
    (hslot : ∀ m, s'.slot (.dir m) = s.slot (.dir m)) : s'.bound = s.bound := by
  funext m
  rw [bound, bound, hslot, htext]

theorem drop_bound {b b' : MountedSb} (hp : s.Pinned) (hb : s.sb n = some b)
    (hinfo : b'.fsInfo = b.fsInfo) (hlost : b'.lost = b.lost) : (s.drop n b').bound = s.bound := by
  unfold drop
  split
  · rename_i hlast
    have hnone := hp n b hb (by omega)
    refine bound_of_slot (killSb_text s n b') fun m => ?_
    rw [killSb_slot]
    by_cases hm : m = n
    · simp [hm, hnone]
    · simp [hm]
  · refine bound_of_slot rfl fun m => ?_
    rw [recount_slot (by simp [sbInfo, hb, hinfo])]

theorem lose_bound (s : Mounts) (count : Nat → Nat) : (s.lose count).bound = s.bound :=
  bound_of_slot rfl fun m => by rw [lose_slot]

theorem Safe.setSyncDir_bound {fsi : Addr} {dir : CString} {mem : Option Addr} (hs : s.Safe)
    (hn : s.sbInfo n = some fsi)
    (hmem : Answers ((s.heap.use (some fsi)).free (s.info fsi).syncDir) mem) :
    (s.setSyncDir fsi dir mem).bound = Function.update s.bound n (mem.map fun _ => dir) := by
  have hsafe := hs.setSyncDir hn dir hmem
  have hslot := hs.setSyncDir_slot hn dir mem
  funext m
  by_cases hm : m = n
  · subst hm
    cases mem with
    | none => simp [bound, hslot]
    | some a =>
        have htext : (s.setSyncDir fsi dir (some a)).text = Function.update s.text a dir := rfl
        simp [bound, hslot, htext]
  · have hdir : (s.setSyncDir fsi dir mem).slot (.dir m) = s.slot (.dir m) := by
      rw [hslot, Function.update_of_ne (by simp [hm])]
    rw [Function.update_of_ne hm, bound, bound, hdir]
    cases hx : s.slot (.dir m) with
    | none => rfl
    | some x =>
        cases mem with
        | none => rfl
        | some a =>
            -- the new string is at an address that no other string has
            have hne : x ≠ a := by
              rintro rfl
              have hself : (s.setSyncDir fsi dir (some x)).slot (.dir n) = some x := by simp [hslot]
              have hsame : Owner.dir m = Owner.dir n := hsafe.once (hdir.trans hx) hself
              simp [hm] at hsame
            simp [Mounts.setSyncDir, hne]

/-- Only `ramfs_bind` changes the bindings, as its sequential model does, with its result. -/
def Replays (b b' : Bindings) : MountEvent → Prop
  | .did _ => b' = b
  | .bind c ret => b' = (c.run b).bound ∧ ret = (c.run b).ret

theorem Effect.replays (h : s.Effect s' e) (hs : s.Safe) (hp : s.Pinned) :
    Replays s.bound s'.bound e := by
  cases h with
  | nothing => rfl
  | opened hfc ha =>
      refine bound_of_slot rfl fun m => ?_
      rw [hs.initFsContext_slot ha]
      simp
  | parsed hfc p =>
      refine bound_of_slot (by cases p <;> rfl) fun m => ?_
      rw [hs.parseParam_slot hfc p]
  | tree hfc hn root =>
      rename_i fc n fsi
      have hnone : s.slot (.dir n) = none := by simp [slot, sbInfo, hn]
      cases root with
      | true => exact bound_of_slot rfl fun m => by simp [getTree, hs.fillSuper_slot hfc hn]
      | false =>
          refine bound_of_slot rfl fun m => ?_
          rw [getTree_failed_slot, killSb_slot, hs.fillSuper_slot hfc hn]
          by_cases hm : m = n
          · simp [hm, hnone]
          · simp [hm]
  | closed hc =>
      rename_i fc c
      have hfree : (s.putFsContext fc c).bound = (s.putRoot c).bound :=
        bound_of_slot rfl fun m => by simp [putFsContext, freeFc_slot]
      refine hfree.trans ?_
      rcases s.putRoot_cases c with h | ⟨n, b, hb, h⟩
      · rw [h]
      · rw [h]
        exact drop_bound hp hb rfl rfl
  | got hb => exact bound_of_slot rfl fun m => by rw [recount_slot (by simp [sbInfo, hb])]
  | dropped hb => exact drop_bound hp hb rfl rfl
  | refused hc =>
      rename_i c e refs
      have hrun := @BindCall.run_refused c s.bound e refs hc
      exact ⟨by rw [hrun, lose_bound], by rw [hrun]⟩
  | bound hc hmem hn hdir ha =>
      rename_i c n fsi a dir
      have hrun := @BindCall.run_replaced c s.bound n hc hmem
      refine ⟨?_, by rw [hrun]⟩
      rw [hrun, lose_bound, hs.setSyncDir_bound hn ha, hdir]
      rfl
  | unbound hc hmem hn =>
      rename_i c n fsi dir
      have hrun := @BindCall.run_lost c s.bound n hc hmem
      refine ⟨?_, by rw [hrun]⟩
      rw [hrun, lose_bound, hs.setSyncDir_bound hn (by simp [Answers])]
      rfl

end Mounts

/-! ## Whole runs -/

namespace MountEvent

def call : MountEvent → Option (BindCall × Except Errno Unit)
  | .did _ => none
  | .bind c ret => some (c, ret)

end MountEvent

/-- What a run has shown so far agrees with the sequential model. -/
structure Mounts.Agrees (s : Mounts) (tr : List MountEvent) : Prop where
  safe : s.Safe
  pinned : s.Pinned
  replayed : ∃ results,
    rebinding.run (fun _ => none) ((tr.filterMap MountEvent.call).map Prod.fst) =
      some (s.bound, results) ∧
    results.map BindResult.ret = (tr.filterMap MountEvent.call).map Prod.snd
  held : ∀ c n, .bind c (.ok ()) ∈ tr → c.check = .ok n → s.Held n

theorem Mounts.agrees_initial : Mounts.initial.Agrees [] where
  safe := safe_initial
  pinned n b hb := by simp [initial] at hb
  replayed := ⟨[], rfl, rfl⟩
  held c n h := by simp at h

theorem Mounts.Agrees.step {s s' : Mounts} {tr : List MountEvent} {e : MountEvent}
    (h : s.Agrees tr) (heff : s.Effect s' e) : s'.Agrees (tr ++ [e]) where
  safe := heff.safe h.safe
  pinned := heff.pinned h.safe h.pinned
  replayed := by
    obtain ⟨results, hrun, hret⟩ := h.replayed
    have hrep := heff.replays h.safe h.pinned
    rw [List.filterMap_append, List.map_append, List.map_append]
    cases e with
    | did ret =>
        have hsame : s'.bound = s.bound := hrep
        have hnil : [MountEvent.did ret].filterMap MountEvent.call = [] := rfl
        rw [hnil, List.map_nil, List.map_nil, List.append_nil, List.append_nil, hsame]
        exact ⟨results, hrun, hret⟩
    | bind c ret =>
        obtain ⟨hbound, hr⟩ := hrep
        refine ⟨results ++ [c.run s.bound], ?_, ?_⟩
        · refine rebinding.run_append hrun (rebinding.run_singleton ?_)
          rw [hbound]
          rfl
        · simp [MountEvent.call, hret, hr]
  held c n hin hc := by
    rcases List.mem_append.mp hin with hin | hin
    · exact heff.held (h.held c n hin hc)
    · obtain rfl := List.mem_singleton.mp hin
      cases heff with
      | bound hc' hmem hn hdir ha =>
          obtain rfl := Except.ok.inj (hc'.symm.trans hc)
          exact held_of_bound hc hn

theorem Mounts.agrees_of_run {s : Mounts} {acts : List MountAction} {tr : List MountEvent}
    (hunset : ∀ a ∈ acts, a.Unset) (hr : mounts.run .initial acts = some (s, tr)) :
    s.Agrees tr := by
  have keep : ∀ {s a s' e hist}, s.Agrees hist → a.Unset → mounts.step s a = some (s', e) →
      s'.Agrees (hist ++ [e]) := fun h ha hstep => h.step (effect_of_step ha hstep)
  simpa using mounts.along_history keep agrees_initial (mounts.along_of_forall hunset) hr

/-- Over every run from boot, what each super block's private data points to is the binding that
the sequential model of `ramfs_bind` computes from the calls of the run, with the same results.
Mounting, remounting options, failing mounts and shutting down never change a binding. -/
theorem mounts_refine_rebinding {s : Mounts} {acts : List MountAction} {tr : List MountEvent}
    (hunset : ∀ a ∈ acts, a.Unset) (hr : mounts.run .initial acts = some (s, tr)) :
    ∃ results, rebinding.run (fun _ => none) ((tr.filterMap MountEvent.call).map Prod.fst) =
        some (s.bound, results) ∧
      results.map BindResult.ret = (tr.filterMap MountEvent.call).map Prod.snd :=
  (Mounts.agrees_of_run hunset hr).replayed

theorem mounts_refine_rebinding_twice :
    ∃ s tr results, mounts.run .initial mountTwice = some (s, tr) ∧
      rebinding.run (fun _ => none) [bindTo "/p" true, bindTo "/q" true, bindNowhere] =
        some (s.bound, results) := by
  have hrun : (mounts.run .initial mountTwice).map
      (fun r => (r.2.filterMap MountEvent.call).map Prod.fst) =
        some [bindTo "/p" true, bindTo "/q" true, bindNowhere] := rfl
  obtain ⟨⟨s, tr⟩, hr, hcalls⟩ := Option.map_eq_some_iff.mp hrun
  obtain ⟨results, hres, -⟩ := mounts_refine_rebinding (by decide) hr
  have hcalls' : (tr.filterMap MountEvent.call).map Prod.fst =
      [bindTo "/p" true, bindTo "/q" true, bindNowhere] := hcalls
  rw [hcalls'] at hres
  exact ⟨s, tr, results, hr, hres⟩

/-- Once `ramfs_bind` has returned 0 for a ramfs, no later step shuts it down: its private data
and its string stay for good. -/
theorem bound_ramfs_stays {s : Mounts} {acts : List MountAction} {tr : List MountEvent}
    (hunset : ∀ a ∈ acts, a.Unset) (hr : mounts.run .initial acts = some (s, tr))
    {c : BindCall} {n : Nat}
    (hin : .bind c (.ok ()) ∈ tr) (hc : c.check = .ok n) :
    ∃ b, s.sb n = some b ∧ 0 < b.lost :=
  (Mounts.agrees_of_run hunset hr).held c n hin hc

/-- The last reference that a holder can give back is given back, and the ramfs is still there. -/
theorem bound_ramfs_stays_twice :
    ∃ s tr, mounts.run .initial mountTwice = some (s, tr) ∧
      (s.sb 1).map (·.users) = some 0 ∧ ∃ b, s.sb 1 = some b ∧ 0 < b.lost := by
  have hrun : (mounts.run .initial mountTwice).map (fun r => (r.1.sb 1).map (·.users)) =
      some (some 0) := by decide
  have hbind : (mounts.run .initial mountTwice).map (fun r => r.2[9]?) =
      some (some (.bind (bindTo "/q" true) (.ok ()))) := rfl
  obtain ⟨⟨s, tr⟩, hr, husers⟩ := Option.map_eq_some_iff.mp hrun
  rw [hr, Option.map_some, Option.some.injEq] at hbind
  exact ⟨s, tr, hr, husers,
    bound_ramfs_stays (by decide) hr (List.mem_of_getElem? hbind) rfl⟩

/-- The reference that keeps a bound ramfs can be the one that a later call gives back without
holding it. -/
theorem stale_path_shuts_down :
    ∃ s tr, mounts.run .initial [.initFsContext 0 (some 10), .getTree 0 1 true true, .get 1,
        .putFsContext 0, .bind (bindTo "/p" true) (some 20) none, .put 1,
        .bind bindNowhere none (some 1)] = some (s, tr) ∧
      .bind (bindTo "/p" true) (.ok ()) ∈ tr ∧ s.sb 1 = none :=
  ⟨_, _, rfl, by simp, rfl⟩

end OShm.Ramfs

