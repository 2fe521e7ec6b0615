import OShm.Ramfs.FlushPlain

/-! # The outcome of a flush to a disk

A flush that opens its temporary file on a disk causes no further flush. Where resources do not
run out it either stops before the temporary file exists, or leaves the temporary file behind, or
installs it.
-/

namespace OShm.Ramfs

open OShm.Kernel OShm.Lib OShm.Lib.PathString OShm.Lib.PathWalk

namespace Store

variable (st : Store) (a b : Loc)

theorem moved_target : (st.moved a b).lookup b.1 b.2 = st.lookup a.1 a.2 := by
  unfold moved
  split_ifs with h
  · rw [h]
  · have hb : b ≠ a := Ne.symm h
    rw [touch_lookup, set_of_ne _ hb, set_self]

theorem moved_source (h : a ≠ b) : (st.moved a b).lookup a.1 a.2 = none := by
  rw [moved, if_neg h, touch_lookup, set_self]

theorem mem_moved_touched {a b L : Loc} (ha : a ∈ st.touched) :
    L ∈ (st.moved a b).touched ↔ L = b ∨ L ∈ st.touched := by
  unfold moved
  split_ifs with h
  · subst h
    constructor
    · exact Or.inr
    · rintro (rfl | hL)
      · exact ha
      · exact hL
  · exact List.mem_cons

end Store

namespace World

variable {W : World} {st : Store} {n : Nat} {file dst : Loc} {s path : CString}

/-! ## On a disk no flush is nested -/

theorem copyLoop_congr {io io' : Io} (h : io.write dst = io'.write dst) (src : Loc) (n pos : Nat) :
    W.copyLoop io src dst n pos = W.copyLoop io' src dst n pos := by
  induction n generalizing pos with
  | zero => rfl
  | succ n ih =>
      unfold copyLoop
      rw [h]
      simp only [ih]

theorem copyFileContent_onDisk {sb : Nat} (h : W.fs dst.1 = .disk sb) (hook : Loc → Act Loc)
    (n : Nat) (src : Loc) :
    W.copyFileContent (W.fileIo hook) n src dst = W.copyFileContent W.plainIo n src dst := by
  have hwrite : (W.fileIo hook).write dst = W.plainIo.write dst := by
    funext pos buf
    simp only [fileIo, h]
  have hfsync : (W.fileIo hook).fsync dst = W.plainIo.fsync dst := by
    simp only [fileIo, h]
  rw [copyFileContent, copyFileContent, copyLoop_congr hwrite, hfsync]

theorem flush_onDisk (hbound : W.boundTo file.1 = some s) (hpath : W.dPath file = some path)
    (hdisk : ∀ l, W.openTarget st (W.flushArgs (st.calls + 2) s path).tmpPath = some l →
      ∃ sb, W.fs l.1 = .disk sb) :
    W.flush (n + 1) file st = W.flushBody W.plainIo n file st := by
  rw [flush, flushBody_eq, flushBody_eq, hbound, hpath]
  apply Prog.bind_congr_ok
  intro _ t₁ h₁
  obtain rfl := call_store h₁
  apply Prog.bind_congr_ok
  intro _ t₂ h₂
  obtain rfl := call_store h₂
  rw [Prog.get_bind, Prog.get_bind]
  apply Prog.bind_congr_ok
  intro dst t₃ h₃
  rcases openTrunc_cases h₃ with ⟨e, he, _⟩ | ⟨l, hl, htarget, _⟩
  · cases he
  · cases hl
    obtain ⟨sb, hsb⟩ := hdisk dst htarget
    rw [copyFileContent_onDisk hsb]

/-! ## A flush to a disk ends -/

theorem call_total (g : Errno → Errno) : Prog.Total (W.call g) :=
  fun _ => call_finishes (fun _ _ => trivial) trivial

theorem permit_total (q : Request) : Prog.Total (W.permit q) := by
  unfold permit
  cases W.refuses q with
  | some e => exact .fail e
  | none => exact .pure ()

theorem openTrunc_total (p : CString) : Prog.Total (W.openTrunc p) := by
  apply Prog.Total.bind (call_total _)
  intro _
  apply Prog.Total.bind .get
  intro st
  split
  · exact .fail _
  · split_ifs
    · exact .fail _
    · exact .fail _
    · exact .bind (permit_total _) fun _ => .bind (.update _) fun _ => .pure _

theorem openClose_total (p : CString) : Prog.Total (W.openClose p) := by
  apply Prog.Total.bind (call_total _)
  intro _
  apply Prog.Total.bind .get
  intro st
  split
  · exact .fail _
  · split_ifs
    · exact .fail _
    · exact .fail _
    · exact .bind (permit_total _) fun _ => .update _
    · exact .bind (permit_total _) fun _ => .pure _

theorem lookupTmp_total (p : CString) : Prog.Total (W.lookupTmp p) := by
  apply Prog.Total.bind (call_total _)
  intro _
  apply Prog.Total.bind .get
  intro st
  split
  · exact .fail _
  · split_ifs
    · exact .fail _
    · exact .pure _

theorem lookupDir_total (p : CString) : Prog.Total (W.lookupDir p) := by
  apply Prog.Total.bind (call_total _)
  intro _
  apply Prog.Total.bind .get
  intro st
  split
  · exact .fail _
  · exact .pure _

theorem lookupOneLen_total (x : Dir ⊕ Loc) : Prog.Total (W.lookupOneLen x) := by
  apply Prog.Total.bind (call_total _)
  intro _
  cases x with
  | inl d => exact permit_total _
  | inr l => exact .fail _

theorem rename_total (old new : CString) : Prog.Total (W.rename old new) := by
  apply Prog.Total.bind (call_total _)
  intro _
  apply Prog.Total.bind .get
  intro st
  split
  · split_ifs
    · exact .fail _
    · exact .fail _
    · exact .fail _
    · exact .bind (permit_total _) fun _ => .bind (.update _) fun _ => .pure _
  · exact .fail _

theorem prepareRename_total (A : FlushArgs) : Prog.Total (W.prepareRename A) := by
  apply Prog.Total.bind (lookupTmp_total _)
  intro _
  apply Prog.Total.bind (call_total _)
  intro _
  apply Prog.Total.bind (lookupDir_total _)
  intro dir
  apply Prog.Total.bind (openClose_total _).attempt
  intro _
  apply Prog.Total.bind (lookupOneLen_total dir)
  intro _
  exact call_total _

theorem installTmp_total (A : FlushArgs) : Prog.Total (W.installTmp A) :=
  .bind (prepareRename_total A) fun _ => rename_total _ _

/-- Whatever fails, the flush ends after as many chunks as the file has bytes. -/
theorem flushBody_ends (W : World) {st : Store} (hn : (st.content file).length < n) :
    Prog.Finishes (W.flushBody W.plainIo n file) st fun _ _ => True := by
  rw [flushBody_eq]
  cases W.boundTo file.1 with
  | none => exact Prog.Total.fail _ st
  | some s =>
      apply Prog.Finishes.bind
      apply call_finishes fun _ _ => trivial
      cases W.dPath file with
      | none => exact Prog.Total.fail _ _
      | some path =>
          apply Prog.Finishes.bind
          apply call_finishes fun _ _ => trivial
          apply Prog.Finishes.get
          apply Prog.Finishes.bind
          obtain ⟨r, t, hopen, _⟩ := openTrunc_total (W := W)
            (W.flushArgs st.tick.tick.calls s path).tmpPath st.tick.tick
          refine ⟨r, t, hopen, ?_⟩
          rcases openTrunc_cases hopen with ⟨e, rfl, _⟩ | ⟨l, rfl, _, _, _, _, rfl⟩
          · trivial
          · apply Prog.Finishes.bind
            have hlen := Nat.lt_of_le_of_lt (st.tick.tick.tick.content_truncated_le file l) hn
            have hempty : ((st.tick.tick.tick.set l (some (.file []))).touch l).lookup l.1 l.2 =
                some (.file []) := Store.set_self _ l _
            apply (copyFileContent_finishes hempty hlen).weaken
            intro r t _
            cases r with
            | error e => trivial
            | ok a => exact installTmp_total _ t

/-! ## Stopping before the temporary file is open -/

def tmpOf (W : World) (st : Store) (s path : CString) : CString :=
  (W.flushArgs (st.calls + 2) s path).tmpName s

theorem flushBody_noPath (hW : W.Calm) (hbound : W.boundTo file.1 = some s)
    (hpath : W.dPath file = none) (io : Io) :
    W.flushBody io n file st = some (.error enametoolong, st.tick) := by
  rw [flushBody_eq, hbound]
  simp only
  rw [Prog.bind_of_ok (call_calm hW), hpath]
  rfl

theorem refused_of_none {p : CString} (h : W.openTarget st p = none) : W.Refused st p := by
  intro l hl
  rw [h] at hl
  cases hl

theorem refused_no_room {D : Dir} (hD : W.kernPath st s = some D) (hlen : s.length < pathMax)
    (hroom : nameRoom s = 0) : W.Refused st (W.flushArgs (st.calls + 2) s path).tmpPath := by
  have hdir : W.kernPath st (W.flushArgs (st.calls + 2) s path).tmpPath = some D :=
    kernPath_no_room rfl hD hroom hlen
  intro l hl
  obtain ⟨d, hd⟩ := openTarget_dir hdir hl
  refine Or.inr (Or.inl ?_)
  rw [Store.isDir, hd]

theorem flushArgs_tmpPath (hroom : 0 < nameRoom s) : (W.flushArgs (st.calls + 2) s path).tmpPath =
    s ++ slash :: W.tmpOf st s path := by
  apply FlushArgs.tmpPath_eq rfl
  unfold nameRoom at hroom
  omega

theorem opens_of_not_refused (hroom : 0 < nameRoom s)
    (h : ¬ W.Refused st (W.flushArgs (st.calls + 2) s path).tmpPath) :
    IsName (W.tmpOf st s path) ∧ ∃ D, W.base st s = some D := by
  rw [flushArgs_tmpPath hroom] at h
  have hcomp : Component slash (W.tmpOf st s path) := tmpName_component _ hroom
  have hname : IsName (W.tmpOf st s path) := by
    refine ⟨hcomp, ?_⟩
    by_contra hplain
    exact h (refused_of_none (openTarget_dots hcomp hplain))
  refine ⟨hname, ?_⟩
  cases hD : W.base st s with
  | none => exact absurd (refused_of_none (openTarget_missing hD hname)) h
  | some D => exact ⟨D, rfl⟩

/-! ## After the temporary file is open -/

def targetOf (s : CString) (file : Loc) (D : Dir) : Loc := (D, file.2.take (nameRoom s))

/-- What is read of the source after the temporary file `a` was truncated. -/
def sourceAfter (st : Store) (file a : Loc) : Bytes :=
  ((st.set a (some (.file []))).touch a).content file

/-- The temporary file can be made: its name is possible, no directory or link has it, and the
process may write it. -/
structure TmpUsable (W : World) (st : Store) (s path : CString) (D : Dir) : Prop where
  plain : Plain special (W.tmpOf st s path)
  short : (W.tmpOf st s path).length ≤ nameMax
  free : st.sights (D, W.tmpOf st s path) = none
  permitted : W.refuses (.write (D, W.tmpOf st s path)) = none

/-- The target holds `data`, and the flush has left no other entry behind. -/
structure Installed (st st' : Store) (b : Loc) (data : Bytes) : Prop where
  target : st'.lookup b.1 b.2 = some (.file data)
  touched : b ∈ st'.touched
  clean : ∀ l ∈ st'.touched, l ∈ st.touched ∨ l = b ∨ st'.lookup l.1 l.2 = none

/-- The entry `l` was made by the flush and is still there. -/
def Left (st' : Store) (l : Loc) : Prop := l ∈ st'.touched ∧ st'.lookup l.1 l.2 ≠ none

theorem isDir_of_sights {l : Loc} (h : st.sights l = none) : st.isDir l = false := by
  rw [Bool.eq_false_iff, Ne, isDir_iff, h]
  rintro ⟨d, hd⟩
  cases hd

namespace TmpUsable

variable {D : Dir} (htmp : W.TmpUsable st s path D)

include htmp

theorem isName (hroom : 0 < nameRoom s) : IsName (W.tmpOf st s path) :=
  ⟨tmpName_component _ hroom, htmp.plain⟩

theorem sights {t : Store} (ht : (copied st file (D, W.tmpOf st s path)).Alike t) :
    t.sights = st.sights := by
  apply sights_set (l := (D, W.tmpOf st s path)) _ htmp.free
  · exact sourceAfter st file (D, W.tmpOf st s path)
  · rw [ht.1]
    exact set_set _ _ _

theorem opens (hroom : 0 < nameRoom s) (hD : W.base st s = some D) :
    W.openTarget st (W.flushArgs (st.calls + 2) s path).tmpPath =
      some (D, W.tmpOf st s path) := by
  rw [flushArgs_tmpPath hroom]
  refine openTarget_join hD (htmp.isName hroom) fun text hlink => ?_
  have hsight : st.sights (D, W.tmpOf st s path) = some (.link text) :=
    Store.sights_link.mpr hlink
  rw [htmp.free] at hsight
  cases hsight

/-- A flush whose temporary file is made on a disk nests no other one. -/
theorem flush_plain (hroom : 0 < nameRoom s) (hD : W.base st s = some D)
    (hdisk : ∃ sb, W.fs D = .disk sb) (hbound : W.boundTo file.1 = some s)
    (hpath : W.dPath file = some path) (n : Nat) :
    W.flush (n + 1) file st = W.flushBody W.plainIo n file st := by
  apply flush_onDisk hbound hpath
  intro l hl
  rw [htmp.opens hroom hD] at hl
  cases hl
  exact hdisk

end TmpUsable

/-- The temporary file can be made wherever the open is not refused and does not follow a link. -/
theorem tmpUsable_of_opens {D : Dir} (hroom : 0 < nameRoom s) (hD : W.base st s = some D)
    (hopen : ¬ W.Refused st (W.flushArgs (st.calls + 2) s path).tmpPath)
    (hlink : ∀ text, st.lookup D (W.tmpOf st s path) ≠ some (.link text)) :
    W.TmpUsable st s path D := by
  have hname := (opens_of_not_refused hroom hopen).1
  have htarget := openTarget_join hD hname hlink
  unfold Refused at hopen
  rw [flushArgs_tmpPath hroom, htarget] at hopen
  simp only [Option.some.injEq, forall_eq', not_or, not_lt, not_not] at hopen
  obtain ⟨hshort, hdir, hq⟩ := hopen
  refine ⟨hname.plain, hshort, ?_, hq⟩
  rcases hl : st.sights (D, W.tmpOf st s path) with _ | (d | text)
  · rfl
  · exact absurd (isDir_iff.mpr ⟨d, hl⟩) hdir
  · exact absurd (Store.sights_link.mp hl) (hlink text)

theorem flushArgs_finalPath (hpath : W.dPath file = some path) (hroom : 0 < nameRoom s) :
    (W.flushArgs (st.calls + 2) s path).finalPath =
      s ++ slash :: file.2.take (nameRoom s) := by
  rw [← W.dPath_last file path hpath]
  apply FlushArgs.finalPath_eq rfl
  unfold nameRoom at hroom
  omega

/-- Nothing keeps a flush to `D` from its rename once the copy is made. -/
structure CanInstall (W : World) (st : Store) (s path : CString) (file : Loc) (D : Dir) : Prop where
  searchable : W.Searchable (W.kernPathNoFollow st s)
  target : st.isDir (targetOf s file D) = false
  permitted : W.refuses (.rename (D, W.tmpOf st s path) (targetOf s file D)) = none

section Opened

variable {D : Dir} {t : Store} {r : Except Errno Loc} {st' : Store} (hW : W.Calm)
  (hpath : W.dPath file = some path) (hfile : IsName file.2) (hroom : 0 < nameRoom s)
  (htmp : W.TmpUsable st s path D)

include hpath hfile hroom htmp

theorem locates_paths (hD : W.base st s = some D)
    (ht : (copied st file (D, W.tmpOf st s path)).Alike t) :
    W.locate t (W.flushArgs (st.calls + 2) s path).tmpPath = some (D, W.tmpOf st s path) ∧
      W.locate t (W.flushArgs (st.calls + 2) s path).finalPath = some (targetOf s file D) := by
  have hD' : W.base t s = some D := by
    rw [base, htmp.sights ht]
    exact hD
  have htarget : IsName (file.2.take (nameRoom s)) := by
    have hname : (W.flushArgs (st.calls + 2) s path).filename = file.2 :=
      W.dPath_last file path hpath
    rw [← hname] at hfile ⊢
    exact target_isName hfile hroom htmp.plain
  constructor
  · rw [flushArgs_tmpPath hroom, locate_join (htmp.isName hroom), hD']
    rfl
  · rw [flushArgs_finalPath hpath hroom, locate_join htarget, hD']
    rfl

theorem installs_result (ht : (copied st file (D, W.tmpOf st s path)).Alike t)
    (h : Installs W (W.flushArgs (st.calls + 2) s path) t (D, W.tmpOf st s path)
      (targetOf s file D) r st') :
    (CanInstall W st s path file D ∧ r = .ok (targetOf s file D) ∧
        Installed st st' (targetOf s file D) (sourceAfter st file (D, W.tmpOf st s path))) ∨
      ¬ CanInstall W st s path file D ∧ (∃ e, r = .error e) ∧
        Left st' (D, W.tmpOf st s path) := by
  have hsame := htmp.sights ht
  have hdirName : W.kernPathNoFollow t (dirName (W.flushArgs (st.calls + 2) s path).finalPath) =
      W.kernPathNoFollow st s := by
    have hslash : slash ∉ file.2.take (nameRoom s) := fun h =>
      hfile.component.sep_not_mem (List.mem_of_mem_take h)
    rw [flushArgs_finalPath hpath hroom, dirName_join _ hslash, kernPathNoFollow, hsame,
      kernPathNoFollow]
  have hready : InstallReady W (W.flushArgs (st.calls + 2) s path) t (D, W.tmpOf st s path)
      (targetOf s file D) ↔ CanInstall W st s path file D := by
    constructor
    · rintro ⟨hsearch, htarget, hq⟩
      rw [hdirName] at hsearch
      exact ⟨hsearch, (isDir_same hsame _).symm.trans htarget, hq⟩
    · rintro ⟨hsearch, htarget, hq⟩
      rw [← hdirName] at hsearch
      exact ⟨hsearch, (isDir_same hsame _).trans htarget, hq⟩
  have htouched : t.touched = (D, W.tmpOf st s path) :: st.touched := ht.2
  have hcopy : t.lookup D (W.tmpOf st s path) =
      some (.file (sourceAfter st file (D, W.tmpOf st s path))) := by
    rw [ht.1]
    exact Store.set_self _ _ _
  have hsome : t.lookup D (W.tmpOf st s path) ≠ none := by
    rw [hcopy]
    nofun
  have hkept := W.afterTouch_lookup t (W.flushArgs (st.calls + 2) s path).finalPath
    (l := (D, W.tmpOf st s path)) hsome
  have htouch : (W.afterTouch t (W.flushArgs (st.calls + 2) s path).finalPath).touched =
      (D, W.tmpOf st s path) :: st.touched := by
    rw [afterTouch_touched, htouched]
  cases h with
  | left hno halike =>
      refine Or.inr ⟨fun h => hno (hready.mpr h), ⟨_, rfl⟩, ?_⟩
      rcases halike with halike | halike
      · refine ⟨?_, ?_⟩
        · rw [halike.2, htouched]
          exact List.mem_cons_self
        · rw [halike.1]
          exact hsome
      · refine ⟨?_, ?_⟩
        · rw [halike.2, htouch]
          exact List.mem_cons_self
        · rw [halike.1, hkept]
          exact hsome
  | done h halike =>
      refine Or.inl ⟨hready.mp h, rfl, ?_, ?_, ?_⟩
      · rw [halike.1, Store.moved_target, hkept]
        exact hcopy
      · rw [halike.2, Store.mem_moved_touched _ (by rw [htouch]; exact List.mem_cons_self)]
        exact Or.inl rfl
      · intro l hl
        rw [halike.2, Store.mem_moved_touched _ (by rw [htouch]; exact List.mem_cons_self),
          htouch, List.mem_cons] at hl
        rcases hl with hl | hl | hl
        · exact Or.inr (Or.inl hl)
        · by_cases heq : (D, W.tmpOf st s path) = targetOf s file D
          · exact Or.inr (Or.inl (hl.trans heq))
          · subst hl
            rw [halike.1]
            exact Or.inr (Or.inr (Store.moved_source _ _ _ heq))
        · exact Or.inl hl

variable (hbound : W.boundTo file.1 = some s)

include hW hbound

/-- A flush that opens its temporary file and can copy installs it or leaves it. -/
theorem flushBody_result (hD : W.base st s = some D)
    (h : W.flushBody W.plainIo n file st = some (r, st')) :
    (CanInstall W st s path file D ∧ r = .ok (targetOf s file D) ∧
        Installed st st' (targetOf s file D) (sourceAfter st file (D, W.tmpOf st s path))) ∨
      ¬ CanInstall W st s path file D ∧ (∃ e, r = .error e) ∧
        Left st' (D, W.tmpOf st s path) := by
  obtain ⟨t, ht, hrun⟩ := flushBody_copies hW hbound hpath (htmp.opens hroom hD) htmp.short
    (isDir_of_sights htmp.free) htmp.permitted h
  obtain ⟨ha, hb⟩ := locates_paths hpath hfile hroom htmp hD ht
  have hsome : t.lookup D (W.tmpOf st s path) ≠ none := by
    have hcopy := Store.set_self ((st.set (D, W.tmpOf st s path) (some (.file []))).touch
      (D, W.tmpOf st s path)) (D, W.tmpOf st s path)
      (some (.file (sourceAfter st file (D, W.tmpOf st s path))))
    rw [ht.1]
    exact fun hnone => by cases hcopy.symm.trans hnone
  obtain ⟨r', t', hrun', hinst⟩ := installTmp_calm hW ha hb rfl hsome
  rw [hrun] at hrun'
  cases hrun'
  exact installs_result hpath hfile hroom htmp ht hinst

end Opened

end World

/-! ## When a file is persisted -/

/-- What a flush needs to put a file into the directory `D` it goes to. -/
structure TargetReady (W : World) (st : Store) (s : CString) (file : Loc) (D : Dir) : Prop where
  /-- The path of the target is not cut. -/
  whole : s.length + 1 + file.2.length < pathMax
  tmp : ∃ path, W.dPath file = some path ∧ W.TmpUsable st s path D ∧
    W.CanInstall st s path file D ∧ ((D, W.tmpOf st s path) ≠ file ∨ st.content file = [])

/-- What a flush to `D` needs where resources do not run out. The process that flushes is led to
`D`. -/
structure CanPersist (W : World) (st : Store) (s : CString) (file : Loc) (D : Dir) : Prop
    extends TargetReady W st s file D where
  found : W.base st s = some D

namespace CanPersist

variable {W : World} {st : Store} {s : CString} {file : Loc} {D : Dir}

theorem withFails (h : CanPersist W st s file D) (fails : Nat → Option Errno) :
    CanPersist (W.withFails fails) st s file D := by
  obtain ⟨path, hpath, htmp, hinst, hapart⟩ := h.tmp
  refine ⟨⟨h.whole, path, hpath, ?_, ?_, hapart⟩, h.found⟩
  · exact ⟨htmp.plain, htmp.short, htmp.free, htmp.permitted⟩
  · exact ⟨hinst.searchable, hinst.target, hinst.permitted⟩

end CanPersist

theorem targetOf_whole {s : CString} {file : Loc} (h : s.length + 1 + file.2.length < pathMax)
    (D : Dir) : World.targetOf s file D = (D, file.2) := by
  have hroom : file.2.length ≤ nameRoom s := by
    unfold nameRoom
    omega
  rw [World.targetOf, List.take_of_length_le hroom]

theorem whole_of_targetOf {s : CString} {file : Loc} {D D' : Dir} (hfile : IsName file.2)
    (h : World.targetOf s file D = (D', file.2)) : s.length + 1 + file.2.length < pathMax := by
  have hlen := congrArg (fun l : Loc => l.2.length) h
  have hpos := List.length_pos_iff.mpr hfile.component.ne_nil
  simp only [World.targetOf, List.length_take, nameRoom] at hlen
  omega

theorem nameRoom_pos {s : CString} {file : Loc} (h : s.length + 1 + file.2.length < pathMax)
    (hfile : IsName file.2) : 0 < nameRoom s := by
  have hpos := List.length_pos_iff.mpr hfile.component.ne_nil
  unfold nameRoom
  omega

theorem sourceAfter_eq {st : Store} {file a : Loc} (h : a ≠ file ∨ st.content file = []) :
    World.sourceAfter st file a = st.content file := by
  by_cases ha : a = file
  · subst ha
    have hself : ((st.set a (some (.file []))).touch a).lookup a.1 a.2 = some (.file []) :=
      Store.set_self _ _ _
    rw [World.sourceAfter, Store.content, hself, h.resolve_left (not_not.mpr rfl)]
  · have hsame : ((st.set a (some (.file []))).touch a).lookup file.1 file.2 =
        st.lookup file.1 file.2 := st.set_of_ne (Ne.symm ha) _
    rw [World.sourceAfter, Store.content, hsame, Store.content]

theorem World.flush_persists {W : World} {st : Store} {s : CString} {file : Loc} {D : Dir}
    (hW : W.Calm) (hbound : W.boundTo file.1 = some s) (hfile : IsName file.2) {sb : Nat}
    (hdisk : W.fs D = .disk sb) (h : CanPersist W st s file D) :
    ∃ n st', W.flush n file st = some (.ok (D, file.2), st') ∧
      Installed st st' (D, file.2) (st.content file) := by
  obtain ⟨path, hpath, htmp, hready, hapart⟩ := h.tmp
  have hroom := nameRoom_pos h.whole hfile
  have hplain := htmp.flush_plain hroom h.found ⟨sb, hdisk⟩ hbound hpath
    ((st.content file).length + 1)
  obtain ⟨r, st', hrun, _⟩ := flushBody_ends W (Nat.lt_succ_self (st.content file).length)
  rcases flushBody_result hW hpath hfile hroom htmp hbound h.found hrun with
    ⟨_, hr, hinst⟩ | ⟨hno, _⟩
  · rw [targetOf_whole h.whole] at hr hinst
    rw [sourceAfter_eq hapart] at hinst
    subst hr
    exact ⟨_, st', hplain.trans hrun, hinst⟩
  · exact absurd hready hno

end OShm.Ramfs
