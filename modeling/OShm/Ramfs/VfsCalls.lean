import OShm.Ramfs.FlushPaths

/-! # What the calls of a flush do

One lemma for each call says how it can end and in which store. Calls that fail change nothing.
-/

namespace OShm.Ramfs

open OShm.Kernel OShm.Lib OShm.Lib.ByteFile OShm.Lib.PathWalk

namespace Store

variable (st : Store) (l : Loc) (e : Option DirEntry)

@[simp] theorem tick_lookup : st.tick.lookup = st.lookup := rfl

@[simp] theorem touch_lookup : (st.touch l).lookup = st.lookup := rfl

@[simp] theorem set_self : (st.set l e).lookup l.1 l.2 = e := by
  simp [set]

theorem set_of_ne {l l' : Loc} (h : l' ≠ l) (e : Option DirEntry) :
    (st.set l e).lookup l'.1 l'.2 = st.lookup l'.1 l'.2 := by
  unfold set
  by_cases hd : l'.1 = l.1
  · have hc : l'.2 ≠ l.2 := fun hc => h (Prod.ext hd hc)
    simp [hd, hc]
  · simp [hd]

end Store

namespace World

variable {W : World} {st st' : Store} {g : Errno → Errno}

/-- No call fails for lack of resources. -/
def Calm (W : World) : Prop := ∀ n, W.fails n = none

theorem call_calm (hW : W.Calm) : W.call g st = some (.ok (), st.tick) := by
  rw [call, hW]

theorem call_store {r : Except Errno Unit} (h : W.call g st = some (r, st')) : st' = st.tick := by
  cases hf : W.fails st.calls <;> simp only [call, hf, Option.some.injEq, Prod.mk.injEq] at h <;>
    exact h.2.symm

/-- After a call: either it failed, or the rest runs in the store with one call more. -/
theorem call_bind {α : Type} {f : Unit → Act α} {r : Except Errno α}
    (h : (W.call g >>= f) st = some (r, st')) :
    (∃ e, r = .error e ∧ st' = st.tick) ∨ f () st.tick = some (r, st') := by
  rcases Prog.bind_eq_some h with ⟨e, hc, rfl⟩ | ⟨a, t, hc, hf⟩
  · exact Or.inl ⟨e, rfl, call_store hc⟩
  · obtain rfl := call_store hc
    exact Or.inr hf

theorem permit_bind {α : Type} {q : Request} {f : Unit → Act α} {r : Except Errno α}
    (h : (W.permit q >>= f) st = some (r, st')) :
    (∃ e, r = .error e ∧ st' = st) ∨ W.refuses q = none ∧ f () st = some (r, st') := by
  unfold permit at h
  cases hq : W.refuses q with
  | some e =>
      simp only [hq] at h
      cases h
      exact Or.inl ⟨e, rfl, rfl⟩
  | none =>
      simp only [hq] at h
      exact Or.inr ⟨rfl, h⟩

theorem permit_granted {q : Request} (h : W.refuses q = none) : W.permit q = pure () := by
  rw [permit, h]

theorem permit_refused {q : Request} (h : W.refuses q ≠ none) :
    ∃ e, W.permit q = Prog.fail e := by
  obtain ⟨e, he⟩ := Option.ne_none_iff_exists'.mp h
  exact ⟨e, by rw [permit, he]⟩

theorem openTrunc_cases {p : CString} {r : Except Errno Loc}
    (h : W.openTrunc p st = some (r, st')) :
    (∃ e, r = .error e ∧ st' = st.tick) ∨
      ∃ l, r = .ok l ∧ W.openTarget st p = some l ∧ l.2.length ≤ nameMax ∧ st.isDir l = false ∧
        W.refuses (.write l) = none ∧ st' = (st.tick.set l (some (.file []))).touch l := by
  rcases call_bind h with h | h
  · exact Or.inl h
  rw [Prog.get_bind] at h
  cases hl : W.openTarget st.tick p with
  | none =>
      simp only [hl, Prog.fail_apply, Option.some.injEq, Prod.mk.injEq] at h
      exact Or.inl ⟨_, h.1.symm, h.2.symm⟩
  | some l =>
      simp only [hl] at h
      split_ifs at h with hlen hdir
      · cases h
        exact Or.inl ⟨_, rfl, rfl⟩
      · cases h
        exact Or.inl ⟨_, rfl, rfl⟩
      · rcases permit_bind h with h | ⟨hq, h⟩
        · exact Or.inl h
        · cases h
          exact Or.inr ⟨l, rfl, hl, Nat.le_of_not_lt hlen, Bool.eq_false_iff.mpr hdir, hq, rfl⟩

/-- Why an open for writing fails where resources do not run out. -/
def Refused (W : World) (st : Store) (path : CString) : Prop :=
  ∀ l, W.openTarget st path = some l →
    nameMax < l.2.length ∨ st.isDir l = true ∨ W.refuses (.write l) ≠ none

theorem openTrunc_calm (hW : W.Calm) {p : CString} {l : Loc} (hl : W.openTarget st p = some l)
    (hlen : l.2.length ≤ nameMax) (hdir : st.isDir l = false) (hq : W.refuses (.write l) = none) :
    W.openTrunc p st = some (.ok l, (st.tick.set l (some (.file []))).touch l) := by
  have hl' : W.openTarget st.tick p = some l := hl
  have hdir' : st.tick.isDir l = false := hdir
  rw [openTrunc, Prog.bind_of_ok (call_calm hW), Prog.get_bind, hl']
  simp only [Nat.not_lt.mpr hlen, hdir', if_false, Bool.false_eq_true, permit_granted hq]
  rfl

theorem openTrunc_refused (hW : W.Calm) {p : CString} (h : W.Refused st p) :
    ∃ e, W.openTrunc p st = some (.error e, st.tick) := by
  rw [openTrunc, Prog.bind_of_ok (call_calm hW), Prog.get_bind]
  cases hl : W.openTarget st.tick p with
  | none => exact ⟨_, rfl⟩
  | some l =>
      simp only
      split_ifs with hlen hdir
      · exact ⟨_, rfl⟩
      · exact ⟨_, rfl⟩
      · rcases h l hl with h | h | h
        · exact absurd h hlen
        · exact absurd h hdir
        · obtain ⟨e, he⟩ := permit_refused h
          rw [he]
          exact ⟨e, rfl⟩

theorem openClose_cases {p : CString} {r : Except Errno Unit}
    (h : W.openClose p st = some (r, st')) :
    st' = st.tick ∨ ∃ l, W.openTarget st p = some l ∧ st.lookup l.1 l.2 = none ∧
      st' = st.tick.set l (some (.file [])) := by
  rcases call_bind h with h | h
  · exact Or.inl h.choose_spec.2
  rw [Prog.get_bind] at h
  cases hl : W.openTarget st.tick p with
  | none =>
      simp only [hl, Prog.fail_apply, Option.some.injEq, Prod.mk.injEq] at h
      exact Or.inl h.2.symm
  | some l =>
      simp only [hl] at h
      split_ifs at h with hlen hdir hnone
      · cases h
        exact Or.inl rfl
      · cases h
        exact Or.inl rfl
      · rcases permit_bind h with h | ⟨_, h⟩
        · exact Or.inl h.choose_spec.2
        · cases h
          exact Or.inr ⟨l, hl, hnone, rfl⟩
      · rcases permit_bind h with h | ⟨_, h⟩
        · exact Or.inl h.choose_spec.2
        · cases h
          exact Or.inl rfl

theorem lookupTmp_cases {p : CString} {r : Except Errno Unit}
    (h : W.lookupTmp p st = some (r, st')) : st' = st.tick := by
  rcases call_bind h with h | h
  · exact h.choose_spec.2
  rw [Prog.get_bind] at h
  cases hl : W.locate st.tick p with
  | none =>
      simp only [hl, Prog.fail_apply, Option.some.injEq, Prod.mk.injEq] at h
      exact h.2.symm
  | some l =>
      simp only [hl] at h
      split_ifs at h <;> cases h <;> rfl

theorem lookupTmp_calm (hW : W.Calm) {p : CString} {l : Loc} (hl : W.locate st p = some l)
    (hsome : st.lookup l.1 l.2 ≠ none) : W.lookupTmp p st = some (.ok (), st.tick) := by
  have hl' : W.locate st.tick p = some l := hl
  have hsome' : st.tick.lookup l.1 l.2 ≠ none := hsome
  rw [lookupTmp, Prog.bind_of_ok (call_calm hW), Prog.get_bind, hl']
  simp only [hsome', if_false]
  rfl

theorem lookupDir_cases {p : CString} {r : Except Errno (Dir ⊕ Loc)}
    (h : W.lookupDir p st = some (r, st')) : st' = st.tick := by
  rcases call_bind h with ⟨e, rfl, rfl⟩ | h
  · rfl
  rw [Prog.get_bind] at h
  cases hd : W.kernPathNoFollow st.tick p with
  | none =>
      simp only [hd, Prog.fail_apply, Option.some.injEq, Prod.mk.injEq] at h
      exact h.2.symm
  | some x =>
      simp only [hd, Prog.pure_apply, Option.some.injEq, Prod.mk.injEq] at h
      exact h.2.symm

theorem lookupDir_calm (hW : W.Calm) {p : CString} {x : Dir ⊕ Loc}
    (hx : W.kernPathNoFollow st p = some x) : W.lookupDir p st = some (.ok x, st.tick) := by
  have hx' : W.kernPathNoFollow st.tick p = some x := hx
  rw [lookupDir, Prog.bind_of_ok (call_calm hW), Prog.get_bind, hx']
  rfl

theorem lookupDir_missing (hW : W.Calm) {p : CString} (hx : W.kernPathNoFollow st p = none) :
    ∃ e, W.lookupDir p st = some (.error e, st.tick) := by
  have hx' : W.kernPathNoFollow st.tick p = none := hx
  rw [lookupDir, Prog.bind_of_ok (call_calm hW), Prog.get_bind, hx']
  exact ⟨_, rfl⟩

theorem lookupOneLen_cases {x : Dir ⊕ Loc} {r : Except Errno Unit}
    (h : W.lookupOneLen x st = some (r, st')) : st' = st.tick := by
  rcases call_bind h with ⟨e, rfl, rfl⟩ | h
  · rfl
  cases x with
  | inr l =>
      cases h
      rfl
  | inl d =>
      unfold permit at h
      cases hq : W.refuses (.lookup d) <;> simp only [hq] at h <;> cases h <;> rfl

/-- Names can be looked up in what was found. -/
def Searchable (W : World) : Option (Dir ⊕ Loc) → Prop
  | some (.inl d) => W.refuses (.lookup d) = none
  | _ => False

theorem lookupOneLen_calm (hW : W.Calm) {x : Dir ⊕ Loc} (h : W.Searchable (some x)) :
    W.lookupOneLen x st = some (.ok (), st.tick) := by
  unfold lookupOneLen
  rw [Prog.bind_of_ok (call_calm hW)]
  cases x with
  | inr l => exact absurd h id
  | inl d =>
      have hq : W.refuses (.lookup d) = none := h
      simp only [permit_granted hq]
      rfl

theorem lookupOneLen_refused (hW : W.Calm) {x : Dir ⊕ Loc} (h : ¬ W.Searchable (some x)) :
    ∃ e, W.lookupOneLen x st = some (.error e, st.tick) := by
  unfold lookupOneLen
  rw [Prog.bind_of_ok (call_calm hW)]
  cases x with
  | inr l => exact ⟨_, rfl⟩
  | inl d =>
      have hq : W.refuses (.lookup d) ≠ none := h
      obtain ⟨e, he⟩ := permit_refused hq
      simp only [he]
      exact ⟨e, rfl⟩

theorem rename_cases {old new : CString} {r : Except Errno Loc}
    (h : W.rename old new st = some (r, st')) :
    (∃ e, r = .error e ∧ st' = st.tick) ∨
      ∃ a b, r = .ok b ∧ W.locate st old = some a ∧ W.locate st new = some b ∧
        W.fs a.1 = W.fs b.1 ∧ st.lookup a.1 a.2 ≠ none ∧ st' = st.tick.moved a b := by
  rcases call_bind h with h | h
  · exact Or.inl h
  rw [Prog.get_bind] at h
  cases ha : W.locate st.tick old with
  | none =>
      simp only [ha, Prog.fail_apply, Option.some.injEq, Prod.mk.injEq] at h
      exact Or.inl ⟨_, h.1.symm, h.2.symm⟩
  | some a =>
      cases hb : W.locate st.tick new with
      | none =>
          simp only [ha, hb, Prog.fail_apply, Option.some.injEq, Prod.mk.injEq] at h
          exact Or.inl ⟨_, h.1.symm, h.2.symm⟩
      | some b =>
          simp only [ha, hb] at h
          split_ifs at h with hfs hsome hdir
          · cases h
            exact Or.inl ⟨_, rfl, rfl⟩
          · cases h
            exact Or.inl ⟨_, rfl, rfl⟩
          · cases h
            exact Or.inl ⟨_, rfl, rfl⟩
          · rcases permit_bind h with h | ⟨_, h⟩
            · exact Or.inl h
            · cases h
              exact Or.inr ⟨a, b, rfl, ha, hb, not_not.mp hfs, hsome, rfl⟩

section Rename

variable {old new : CString} {a b : Loc} (hW : W.Calm) (ha : W.locate st old = some a)
  (hb : W.locate st new = some b) (hfs : W.fs a.1 = W.fs b.1) (hsome : st.lookup a.1 a.2 ≠ none)

include hW ha hb hfs hsome

theorem rename_calm (hdir : st.isDir b = false) (hq : W.refuses (.rename a b) = none) :
    W.rename old new st = some (.ok b, st.tick.moved a b) := by
  have ha' : W.locate st.tick old = some a := ha
  have hb' : W.locate st.tick new = some b := hb
  have hdir' : st.tick.isDir b = false := hdir
  rw [rename, Prog.bind_of_ok (call_calm hW), Prog.get_bind, ha', hb']
  simp only [hfs, hsome, hdir', ne_eq, not_true_eq_false, if_false, Store.tick_lookup,
    Bool.false_eq_true, permit_granted hq]
  rfl

theorem rename_refused (h : st.isDir b = true ∨ W.refuses (.rename a b) ≠ none) :
    ∃ e, W.rename old new st = some (.error e, st.tick) := by
  have ha' : W.locate st.tick old = some a := ha
  have hb' : W.locate st.tick new = some b := hb
  rw [rename, Prog.bind_of_ok (call_calm hW), Prog.get_bind, ha', hb']
  simp only [hfs, hsome, ne_eq, not_true_eq_false, if_false, Store.tick_lookup]
  split_ifs with hdir
  · exact ⟨_, rfl⟩
  · have hdir' : ¬ st.isDir b = true := hdir
    obtain ⟨e, he⟩ := permit_refused (h.resolve_left hdir')
    rw [he]
    exact ⟨e, rfl⟩

end Rename

theorem call_bind_ok {α : Type} {f : Unit → Act α} {a : α}
    (h : (W.call g >>= f) st = some (.ok a, st')) : f () st.tick = some (.ok a, st') := by
  rcases call_bind h with ⟨e, he, _⟩ | h
  · cases he
  · exact h

/-- As `call_bind`, with the reason of a failure. -/
theorem call_bind_calm {α : Type} {f : Unit → Act α} {r : Except Errno α}
    (h : (W.call g >>= f) st = some (r, st')) :
    (¬ W.Calm ∧ ∃ e, r = .error e) ∨ f () st.tick = some (r, st') := by
  by_cases hW : W.Calm
  · right
    rw [Prog.bind_of_ok (call_calm hW)] at h
    exact h
  · rcases call_bind h with ⟨e, he, _⟩ | h
    · exact Or.inl ⟨hW, e, he⟩
    · exact Or.inr h

theorem call_finishes {Q : Except Errno Unit → Store → Prop}
    (hfail : ∀ e, ¬ W.Calm → Q (.error e) st.tick) (hok : Q (.ok ()) st.tick) :
    Prog.Finishes (W.call g) st Q := by
  cases hf : W.fails st.calls with
  | none => exact ⟨.ok (), st.tick, by rw [call, hf], hok⟩
  | some e =>
      have hW : ¬ W.Calm := fun hW => by
        rw [hW] at hf
        cases hf
      exact ⟨.error (g e), st.tick, by rw [call, hf], hfail _ hW⟩

/-! ## Copying to a file system without a flush of its own -/

theorem set_lookup_congr {u : Store} (h : u.lookup = st.lookup) (l : Loc) (e : Option DirEntry) :
    (u.set l e).lookup = (st.set l e).lookup := by
  simp [Store.set, h]

theorem set_set (l : Loc) (e e' : Option DirEntry) :
    ((st.set l e).set l e').lookup = (st.set l e').lookup := by
  simp [Store.set]

theorem set_eq_self {l : Loc} {e : Option DirEntry} (h : st.lookup l.1 l.2 = e) :
    (st.set l e).lookup = st.lookup := by
  simp [Store.set, ← h]

theorem content_of_file {l : Loc} {data : Bytes} (h : st.lookup l.1 l.2 = some (.file data)) :
    st.content l = data := by
  rw [Store.content, h]

/-- How far the loop is: the target holds what was read so far, and the source is not the
target unless it is empty. -/
structure Copying (st : Store) (src dst : Loc) (data : Bytes) (pos : Nat) : Prop where
  source : st.content src = data
  copied : st.lookup dst.1 dst.2 = some (.file (data.take pos))
  inside : pos ≤ data.length
  apart : src ≠ dst ∨ data = []

theorem Copying.tick {src dst : Loc} {data : Bytes} {pos : Nat} (h : Copying st src dst data pos) :
    Copying st.tick src dst data pos := ⟨h.source, h.copied, h.inside, h.apart⟩

theorem Copying.write {src dst : Loc} {data : Bytes} {pos n : Nat}
    (h : Copying st src dst data pos) (hread : readAt data pos n ≠ []) :
    Copying (st.pwrite dst pos (readAt data pos n)) src dst data
        (pos + (readAt data pos n).length) ∧
      (st.pwrite dst pos (readAt data pos n)).lookup =
        (st.set dst (some (.file (data.take (pos + (readAt data pos n).length))))).lookup ∧
      (st.pwrite dst pos (readAt data pos n)).touched = st.touched := by
  have hwrite : st.pwrite dst pos (readAt data pos n) =
      st.set dst (some (.file (data.take (pos + (readAt data pos n).length)))) := by
    rw [Store.pwrite, h.copied]
    simp only [writeAt_take 0 data pos n h.inside]
  have hne : src ≠ dst := by
    rcases h.apart with h | rfl
    · exact h
    · exact absurd (by simp [readAt]) hread
  rw [hwrite]
  refine ⟨⟨?_, Store.set_self st dst _, readAt_length_le data pos n h.inside, Or.inl hne⟩, rfl, rfl⟩
  rw [← h.source, Store.content, Store.content, Store.set_of_ne st hne]

/-- An empty target is a copy of nothing so far. A source that is the target is empty. -/
theorem copying_start {src dst : Loc} (hdst : st.lookup dst.1 dst.2 = some (.file [])) :
    Copying st src dst (st.content src) 0 where
  source := rfl
  copied := hdst
  inside := Nat.zero_le _
  apart := by
    by_cases h : src = dst
    · right
      rw [h, content_of_file hdst]
    · exact Or.inl h

theorem kernelRead_eq (data : Bytes) (pos n : Nat) :
    kernelRead data pos n = readAt data pos (max 1 (min n bufSize)) := rfl

/-- A loop that ends has copied everything, unless a call failed. -/
theorem copyLoop_cases {src dst : Loc} {data : Bytes} {n pos : Nat} {r : Except Errno Unit}
    (hc : Copying st src dst data pos)
    (h : W.copyLoop W.plainIo src dst n pos st = some (r, st')) :
    (r = .ok () ∧ st'.lookup = (st.set dst (some (.file data))).lookup ∧
      st'.touched = st.touched) ∨ ¬ W.Calm ∧ ∃ e, r = .error e := by
  induction n generalizing st pos with
  | zero => cases h
  | succ n ih =>
      rcases call_bind_calm h with h | h
      · exact Or.inr h
      rw [Prog.get_bind, hc.tick.source] at h
      cases hr : kernelRead data pos (W.read st.tick.calls) with
      | nil =>
          simp only [hr] at h
          cases h
          rw [kernelRead_eq, readAt_eq_nil_iff (by omega)] at hr
          have hcopied := hc.copied
          rw [List.take_of_length_le hr] at hcopied
          exact Or.inl ⟨rfl, (set_eq_self hcopied).symm, rfl⟩
      | cons b buf =>
          simp only [hr] at h
          rcases Prog.bind_eq_some h with ⟨e, hw, rfl⟩ | ⟨_, t, hw, hrest⟩
          · rcases call_bind_calm hw with hw | hw
            · exact Or.inr ⟨hw.1, e, rfl⟩
            · cases hw
          have hw := call_bind_ok hw
          cases hw
          have hne : kernelRead data pos (W.read st.tick.calls) ≠ [] := by simp [hr]
          obtain ⟨hnext, hlook, htouch⟩ := hc.tick.tick.write hne
          rw [← kernelRead_eq, hr] at hnext hlook htouch
          rcases ih hnext hrest with ⟨rfl, hl, ht⟩ | hfail
          · refine Or.inl ⟨rfl, ?_, ht.trans htouch⟩
            rw [hl, set_lookup_congr hlook, set_set]
            rfl
          · exact Or.inr hfail

theorem copyLoop_finishes {src dst : Loc} {data : Bytes} {n pos : Nat}
    (hc : Copying st src dst data pos) (hn : data.length < pos + n) :
    Prog.Finishes (W.copyLoop W.plainIo src dst n pos) st fun r _ => W.Calm → r = .ok () := by
  induction n generalizing st pos with
  | zero => exact absurd hc.inside (by omega)
  | succ n ih =>
      apply Prog.Finishes.bind
      apply call_finishes fun e hno hW => absurd hW hno
      apply Prog.Finishes.get
      rw [hc.tick.source]
      cases hr : kernelRead data pos (W.read st.tick.calls) with
      | nil => exact ⟨_, _, rfl, fun _ => rfl⟩
      | cons b buf =>
          apply Prog.Finishes.bind
          apply Prog.Finishes.bind
          apply call_finishes fun e hno hW => absurd hW hno
          refine ⟨_, _, rfl, ?_⟩
          have hne : kernelRead data pos (W.read st.tick.calls) ≠ [] := by simp [hr]
          obtain ⟨hnext, _, _⟩ := hc.tick.tick.write hne
          rw [← kernelRead_eq, hr] at hnext
          apply ih hnext
          rw [List.length_cons]
          omega

theorem copyFileContent_cases {src dst : Loc} {n : Nat} {r : Except Errno Unit}
    (hdst : st.lookup dst.1 dst.2 = some (.file []))
    (h : W.copyFileContent W.plainIo n src dst st = some (r, st')) :
    (r = .ok () ∧ st'.lookup = (st.set dst (some (.file (st.content src)))).lookup ∧
      st'.touched = st.touched) ∨ ¬ W.Calm ∧ ∃ e, r = .error e := by
  rcases call_bind_calm h with h | h
  · exact Or.inr h
  rcases call_bind_calm h with h | h
  · exact Or.inr h
  have hstart : Copying st.tick.tick src dst (st.content src) 0 := (copying_start hdst).tick.tick
  rcases Prog.bind_eq_some h with ⟨e, hloop, rfl⟩ | ⟨_, t, hloop, hsync⟩
  · rcases copyLoop_cases hstart hloop with ⟨hr, _⟩ | hfail
    · cases hr
    · exact Or.inr ⟨hfail.1, e, rfl⟩
  · rcases copyLoop_cases hstart hloop with ⟨_, hl, ht⟩ | ⟨_, e, he⟩
    · obtain rfl := call_store hsync
      by_cases hW : W.Calm
      · left
        have hok : some (Except.ok (), t.tick) = some (r, t.tick) := (call_calm hW).symm.trans hsync
        cases hok
        exact ⟨rfl, hl, ht⟩
      · cases r with
        | ok a => exact Or.inl ⟨rfl, hl, ht⟩
        | error e => exact Or.inr ⟨hW, e, rfl⟩
    · cases he

theorem copyFileContent_finishes {src dst : Loc} {n : Nat}
    (hdst : st.lookup dst.1 dst.2 = some (.file [])) (hn : (st.content src).length < n) :
    Prog.Finishes (W.copyFileContent W.plainIo n src dst) st fun r _ => W.Calm → r = .ok () := by
  apply Prog.Finishes.bind
  apply call_finishes fun e hno hW => absurd hW hno
  apply Prog.Finishes.bind
  apply call_finishes fun e hno hW => absurd hW hno
  apply Prog.Finishes.bind
  apply (copyLoop_finishes (copying_start hdst).tick.tick (by omega)).weaken
  intro r t hr
  cases r with
  | error e => exact hr
  | ok a => exact call_finishes (fun e hno hW => absurd hW hno) fun _ => rfl

end World

end OShm.Ramfs
