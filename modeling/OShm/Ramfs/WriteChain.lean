import OShm.Ramfs.FlushLeak
import OShm.Ramfs.Binding

/-! # Write-back over any accepted binding

A write to a bound ramfs flushes the file. When the sync directory lies on a ramfs itself, the
flush writes and syncs a temporary file there, which may be flushed in turn.
-/

namespace OShm.Ramfs

open OShm.Kernel OShm.Lib OShm.Lib.PathString OShm.Lib.PathWalk

namespace World

variable {W : World} {st : Store} {file : Loc} {readable : Bool} {pos : Nat} {buf : Bytes}

def afterWrite (st : Store) (file : Loc) (readable : Bool) (pos : Nat) (buf : Bytes) : Store :=
  if readable then st.tick.pwrite file pos buf else (st.tick.pwrite file pos buf).tick.tick

theorem afterWrite_alike (st : Store) (file : Loc) (readable : Bool) (pos : Nat) (buf : Bytes) :
    (st.tick.pwrite file pos buf).Alike (afterWrite st file readable pos buf) := by
  cases readable
  · exact ⟨rfl, rfl⟩
  · exact ⟨rfl, rfl⟩

/-! ## From the write to the flush -/

theorem writeIter_ends_of_sync {hook : Loc → Act Loc}
    (h : Prog.Finishes (W.syncAfterWrite hook file readable) (st.tick.pwrite file pos buf)
      fun _ _ => True) :
    Prog.Finishes (W.writeIter hook file readable pos buf) st fun _ _ => True := by
  apply Prog.Finishes.bind
  apply call_finishes fun _ _ => trivial
  rw [Prog.Finishes, Prog.update_bind]
  split_ifs
  · exact ⟨_, _, rfl, trivial⟩
  · obtain ⟨r, t, hrun, _⟩ := h
    refine ⟨.ok (), t, ?_, trivial⟩
    rw [Prog.attempt_ignored, hrun]
    rfl

theorem writeIter_ends {hook : Loc → Act Loc}
    (h : Prog.Finishes (hook file) (afterWrite st file readable pos buf) fun _ _ => True) :
    Prog.Finishes (W.writeIter hook file readable pos buf) st fun _ _ => True := by
  have hflush : Prog.Finishes (do let _ ← hook file; pure ())
      (afterWrite st file readable pos buf) fun (_ : Except Errno Unit) _ => True := by
    apply Prog.Finishes.bind
    apply h.weaken
    intro r t _
    cases r with
    | error e => trivial
    | ok a => exact Prog.Total.pure _ t
  apply writeIter_ends_of_sync
  unfold syncAfterWrite
  cases W.boundTo file.1 with
  | none => exact Prog.Total.pure _ _
  | some s =>
      cases readable with
      | true => exact hflush
      | false =>
          apply Prog.Finishes.bind
          apply Prog.Finishes.bind
          apply call_finishes fun _ _ => trivial
          cases W.dPath file with
          | none => exact ⟨_, _, rfl, trivial⟩
          | some path =>
              apply Prog.Finishes.bind
              apply call_finishes fun _ _ => trivial
              unfold permit
              cases W.refuses (.read file) with
              | some e => exact ⟨_, _, rfl, trivial⟩
              | none => exact ⟨_, _, rfl, hflush⟩

/-- A write through a file that is open for writing only cannot open it again to read it, so that
it is not flushed at all. -/
def NotReopened (W : World) (file : Loc) (readable : Bool) : Prop :=
  readable = false ∧ (W.dPath file = none ∨ W.refuses (.read file) ≠ none)

theorem reopen_calm (hW : W.Calm) {path : CString} (hpath : W.dPath file = some path)
    (hq : W.refuses (.read file) = none) : W.reopen file st = some (.ok (), st.tick.tick) := by
  rw [reopen, Prog.bind_of_ok (call_calm hW), hpath]
  simp only
  rw [Prog.bind_of_ok (call_calm hW), permit_granted hq]
  rfl

theorem reopen_refused (h : W.dPath file = none ∨ W.refuses (.read file) ≠ none) (st : Store) :
    ∃ e t, W.reopen file st = some (.error e, t) ∧ st.Alike t := by
  have hend : Prog.Finishes (W.reopen file) st fun r t => (∃ e, r = .error e) ∧ st.Alike t := by
    apply Prog.Finishes.bind
    apply call_finishes fun e _ => ⟨⟨e, rfl⟩, rfl, rfl⟩
    cases hpath : W.dPath file with
    | none => exact ⟨_, _, rfl, ⟨_, rfl⟩, rfl, rfl⟩
    | some path =>
        obtain ⟨e, he⟩ := permit_refused (h.resolve_left (by simp [hpath]))
        apply Prog.Finishes.bind
        apply call_finishes fun e _ => ⟨⟨e, rfl⟩, rfl, rfl⟩
        rw [he]
        exact ⟨_, _, rfl, ⟨e, rfl⟩, rfl, rfl⟩
  obtain ⟨r, t, hrun, ⟨e, rfl⟩, halike⟩ := hend
  exact ⟨e, t, hrun, halike⟩

section Calm

variable (hW : W.Calm) (hbuf : buf ≠ []) {s : CString} (hbound : W.boundTo file.1 = some s)

include hW hbuf

theorem writeIter_written (hook : Loc → Act Loc) :
    W.writeIter hook file readable pos buf st =
      (W.syncAfterWrite hook file readable (st.tick.pwrite file pos buf)).map
        fun p => (.ok (), p.2) := by
  rw [writeIter, Prog.bind_of_ok (call_calm hW), Prog.update_bind, if_neg hbuf,
    Prog.attempt_ignored]

include hbound

/-- Without failures the write ends as the flush does, if the file can be opened to be read. -/
theorem writeIter_flushes (hook : Loc → Act Loc) (hopen : ¬ W.NotReopened file readable) :
    W.writeIter hook file readable pos buf st =
      (hook file (afterWrite st file readable pos buf)).map fun p => (.ok (), p.2) := by
  have hignored : ∀ u, ((do let _ ← hook file; pure () : Act Unit) u).map
      (fun p => ((.ok () : Except Errno Unit), p.2)) =
      (hook file u).map fun p => (.ok (), p.2) := by
    intro u
    show (Prog.bind (hook file) (fun _ => Prog.pure ()) u).map _ = _
    unfold Prog.bind
    rcases hook file u with _ | ⟨_ | _, _⟩ <;> rfl
  rw [writeIter_written hW hbuf, syncAfterWrite, hbound]
  cases readable with
  | true => exact hignored _
  | false =>
      have hno : ¬ (W.dPath file = none ∨ W.refuses (.read file) ≠ none) := fun h => hopen ⟨rfl, h⟩
      rw [not_or, not_not] at hno
      obtain ⟨path, hpath⟩ := Option.ne_none_iff_exists'.mp hno.1
      simp only [Bool.false_eq_true, if_false]
      rw [Prog.bind_of_ok (reopen_calm hW hpath hno.2)]
      exact hignored _

theorem writeIter_notReopened (hook : Loc → Act Loc) (h : W.NotReopened file readable) :
    ∃ t, W.writeIter hook file readable pos buf st = some (.ok (), t) ∧
      (st.tick.pwrite file pos buf).Alike t := by
  obtain ⟨rfl, hno⟩ := h
  obtain ⟨e, t, hreopen, halike⟩ := reopen_refused hno (st.tick.pwrite file pos buf)
  rw [writeIter_written hW hbuf, syncAfterWrite, hbound]
  simp only [Bool.false_eq_true, if_false]
  rw [Prog.bind_of_error hreopen]
  exact ⟨t, rfl, halike⟩

end Calm

/-! ## Flushes that stop early -/

/-- The flush stops before its temporary file is open. -/
def StopsEarly (W : World) (st : Store) (s : CString) (file : Loc) : Prop :=
  ∀ path, W.dPath file = some path → W.Refused st (W.flushArgs (st.calls + 2) s path).tmpPath

theorem flushBody_stops (hW : W.Calm) {s : CString} (hbound : W.boundTo file.1 = some s)
    (h : W.StopsEarly st s file) (io : Io) (n : Nat) :
    ∃ e t, W.flushBody io n file st = some (.error e, t) ∧ st.Alike t := by
  cases hpath : W.dPath file with
  | none => exact ⟨_, _, flushBody_noPath hW hbound hpath io, rfl, rfl⟩
  | some path => exact flushBody_refused hW hbound hpath io (h path hpath)

theorem flushBody_stops_ends {s : CString} (hbound : W.boundTo file.1 = some s)
    (h : W.StopsEarly st s file) (io : Io) (n : Nat) :
    Prog.Finishes (W.flushBody io n file) st fun _ _ => True := by
  rw [flushBody_eq, hbound]
  apply Prog.Finishes.bind
  apply call_finishes fun _ _ => trivial
  cases hpath : W.dPath file with
  | none => exact Prog.Total.fail _ _
  | some path =>
      apply Prog.Finishes.bind
      apply call_finishes fun _ _ => trivial
      apply Prog.Finishes.get
      apply Prog.Finishes.bind
      obtain ⟨r, t, hopen, _⟩ := openTrunc_total (W := W)
        (W.flushArgs st.tick.tick.calls s path).tmpPath st.tick.tick
      refine ⟨r, t, hopen, ?_⟩
      rcases openTrunc_cases hopen with ⟨e, rfl, _⟩ | ⟨l, rfl, htarget, hlen, hdir, hq, _⟩
      · trivial
      · exfalso
        rcases h path hpath l htarget with hlong | hisDir | hrefused
        · exact Nat.not_lt.mpr hlen hlong
        · exact Bool.false_ne_true (hdir.symm.trans hisDir)
        · exact hrefused hq

/-- The write does not come to an open temporary file. -/
def Unflushed (W : World) (st : Store) (s : CString) (file : Loc) (readable : Bool) : Prop :=
  W.NotReopened file readable ∨ W.StopsEarly st s file

theorem writeIter_unflushed (hW : W.Calm) (hbuf : buf ≠ []) {s : CString}
    (hbound : W.boundTo file.1 = some s)
    (h : W.Unflushed (afterWrite st file readable pos buf) s file readable) {n : Nat}
    {r : Except Errno Unit} {st' : Store}
    (hrun : W.writeIter (W.flush n) file readable pos buf st = some (r, st')) :
    (afterWrite st file readable pos buf).Alike st' := by
  by_cases hopen : W.NotReopened file readable
  · obtain ⟨t, ht, halike⟩ := writeIter_notReopened hW hbuf hbound (W.flush n) hopen
    rw [ht] at hrun
    cases hrun
    have hafter := afterWrite_alike st file readable pos buf
    exact ⟨halike.1.trans hafter.1.symm, halike.2.trans hafter.2.symm⟩
  · rw [writeIter_flushes hW hbuf hbound _ hopen] at hrun
    cases n with
    | zero => cases hrun
    | succ n =>
        obtain ⟨e, t, hflush, halike⟩ :=
          flushBody_stops hW hbound (h.resolve_left hopen) (W.fileIo (W.flush n)) n
        rw [flush, hflush] at hrun
        cases hrun
        exact halike

end World

/-! ## Write-back -/

/-- `ramfs_bind` accepts the string: it is a directory for the running process. -/
def Accepted (W : World) (st : Store) (s : CString) : Prop :=
  ∃ d, W.kernPathAny st s = some (.inl d)

/-- The write ends whatever runs out, and if nothing does it ends with the content of the file
under its name behind the string and no temporary file left. -/
structure WritesBack (W : World) (st : Store) (s : CString) (file : Loc) (readable : Bool)
    (pos : Nat) (buf : Bytes) : Prop where
  ends : ∀ fails, ∃ n r st', (W.withFails fails).writeIter ((W.withFails fails).flush n) file
    readable pos buf st = some (r, st')
  persists : ∃ D n st', W.base st s = some D ∧
    W.writeIter (W.flush n) file readable pos buf st = some (.ok (), st') ∧
    st'.lookup D file.2 = some (.file ((st.pwrite file pos buf).content file)) ∧
    ∀ l ∈ st'.touched, l ≠ (D, file.2) → st'.lookup l.1 l.2 = none

namespace World

section WriteBack

variable {W : World} {st : Store} {file : Loc} {readable : Bool} {pos : Nat} {buf : Bytes}

theorem afterWrite_sights :
    (afterWrite st file readable pos buf).sights = st.sights := by
  rw [sights_alike (afterWrite_alike st file readable pos buf), Store.pwrite]
  split
  · rename_i data hdata
    have hdata : st.lookup file.1 file.2 = some (.file data) := hdata
    have hfile : st.tick.sights file = none := by rw [Store.tick_sights, Store.sights, hdata]
    exact sights_set rfl hfile
  · rfl

theorem afterWrite_content :
    (afterWrite st file readable pos buf).content file = (st.pwrite file pos buf).content file := by
  have hlook : (afterWrite st file readable pos buf).lookup =
      (st.pwrite file pos buf).lookup := by
    rw [(afterWrite_alike st file readable pos buf).1, Store.pwrite, Store.pwrite,
      Store.tick_lookup]
    split <;> rfl
  rw [Store.content, hlook, Store.content]

theorem afterWrite_touched :
    (afterWrite st file readable pos buf).touched = st.touched := by
  rw [(afterWrite_alike st file readable pos buf).2, Store.pwrite]
  split <;> rfl

variable {s : CString} {D : Dir} {u st' : Store} {n : Nat} {r : Except Errno Loc} {path : CString}
  (hW : W.Calm) (hbound : W.boundTo file.1 = some s) (hpath : W.dPath file = some path)
  (hfile : IsName file.2) (hroom : 0 < nameRoom s) (hD : W.base u s = some D)
  (htmp : W.TmpUsable u s path D)

include hW hbound hpath hroom hD htmp

/-- A flush to a ramfs leaves its temporary file or something on a disk. -/
theorem flush_toRamfs_leaves {sb : Nat} (hfs : W.fs D = .ramfs sb)
    (h : W.flush n file u = some (r, st')) :
    W.Leak st' ∨ Left st' (D, W.tmpOf u s path) := by
  cases n with
  | zero => cases h
  | succ n =>
      have hdir : u.isDir (D, W.tmpOf u s path) = false := isDir_of_sights htmp.free
      have hopen : W.openTrunc (W.flushArgs (u.calls + 2) s path).tmpPath u.tick.tick =
          some (.ok (D, W.tmpOf u s path), _) :=
        openTrunc_calm hW (htmp.opens hroom hD) htmp.short hdir htmp.permitted
      rw [flush, flushBody_opens hW hbound hpath, Prog.bind_of_ok hopen] at h
      have hleft := left_growthClosed (D, W.tmpOf u s path)
      refine (afterOpen_leaks hleft (flush_leaks hleft n) n file _ _ _ r st' ⟨?_, ?_⟩ h).1
      · exact Or.inr (openTrunc_left hopen)
      · rintro ⟨sb', hsb'⟩
        rw [hfs] at hsb'
        cases hsb'

include hfile

/-- A flush that opened its temporary file and left nothing but the target went to a disk, and
everything it needs was there. -/
theorem canPersist_of_clean (hne : W.tmpOf u s path ≠ file.2)
    (hclean : ∀ l ∈ st'.touched, l ≠ (D, file.2) → st'.lookup l.1 l.2 = none)
    (h : W.flush n file u = some (r, st')) :
    (∃ sb, W.fs D = .disk sb) ∧ CanPersist W u s file D := by
  have htmpClean : ¬ Left st' (D, W.tmpOf u s path) := fun hleft =>
    hleft.2 (hclean _ hleft.1 fun heq => hne (congrArg Prod.snd heq))
  cases hfs : W.fs D with
  | ramfs sb =>
      exfalso
      rcases flush_toRamfs_leaves hW hbound hpath hroom hD htmp hfs h with
        ⟨l, ⟨sb', hl⟩, hleft⟩ | hleft
      · refine hleft.2 (hclean l hleft.1 ?_)
        rintro rfl
        rw [hfs] at hl
        cases hl
      · exact htmpClean hleft
  | disk sb =>
      refine ⟨⟨sb, rfl⟩, ?_⟩
      cases n with
      | zero => cases h
      | succ n =>
          rw [htmp.flush_plain hroom hD ⟨sb, hfs⟩ hbound hpath] at h
          rcases flushBody_result hW hpath hfile hroom htmp hbound hD h with
            ⟨hinstall, _, hinst⟩ | ⟨_, _, hleft⟩
          · -- a target whose name was cut would be left behind
            have htarget : targetOf s file D = (D, file.2) := by
              by_contra hcut
              have hnone := hclean _ hinst.touched hcut
              rw [hinst.target] at hnone
              cases hnone
            have hapart : (D, W.tmpOf u s path) ≠ file := by
              rintro rfl
              rw [boundTo, hfs] at hbound
              cases hbound
            exact ⟨⟨whole_of_targetOf hfile htarget, path, hpath, htmp, hinstall, Or.inl hapart⟩,
              hD⟩
          · exact absurd hleft htmpClean

end WriteBack

section Ends

variable {W : World} {st : Store} {file : Loc} {readable : Bool} {pos : Nat} {buf : Bytes}
  {s : CString} {D : Dir} (hbound : W.boundTo file.1 = some s)

include hbound

theorem writeIter_ends_onDisk (hfile : IsName file.2) {sb : Nat} (hdisk : W.fs D = .disk sb)
    (h : CanPersist W (afterWrite st file readable pos buf) s file D) :
    ∃ n r st', W.writeIter (W.flush n) file readable pos buf st = some (r, st') := by
  obtain ⟨path, hpath, htmp, _⟩ := h.tmp
  have hplain := htmp.flush_plain (nameRoom_pos h.whole hfile) h.found ⟨sb, hdisk⟩ hbound hpath
  obtain ⟨r, t, hrun, _⟩ := flushBody_ends W (Nat.lt_succ_self
    ((afterWrite st file readable pos buf).content file).length)
  obtain ⟨r, st', hwrite, _⟩ := writeIter_ends (W := W) ⟨r, t, (hplain _).trans hrun, trivial⟩
  exact ⟨_, r, st', hwrite⟩

theorem writeIter_ends_unflushed
    (h : W.Unflushed (afterWrite st file readable pos buf) s file readable) :
    ∃ n r st', W.writeIter (W.flush n) file readable pos buf st = some (r, st') := by
  have hend : Prog.Finishes (W.writeIter (W.flush 1) file readable pos buf) st
      fun _ _ => True := by
    rcases h with ⟨rfl, hno⟩ | hstop
    · apply writeIter_ends_of_sync
      obtain ⟨e, t, hreopen, _⟩ := reopen_refused hno (st.tick.pwrite file pos buf)
      rw [syncAfterWrite, hbound]
      simp only [Bool.false_eq_true, if_false]
      exact Prog.Finishes.stop hreopen trivial
    · exact writeIter_ends (flushBody_stops_ends hbound hstop _ 0)
  obtain ⟨r, st', hrun, _⟩ := hend
  exact ⟨1, r, st', hrun⟩

end Ends

end World

open World

/-- The temporary file has a name of its own. -/
def FreshTmp (W : World) (st : Store) (s : CString) (file : Loc) : Prop :=
  ∀ D path, W.base st s = some D → W.dPath file = some path →
    st.lookup D (W.tmpOf st s path) = none ∧ W.tmpOf st s path ≠ file.2

/-- What write-back needs: the sync directory lies on a disk and is ready for the file, or the
flush does nothing at all and the target holds the content already. -/
def ReadyForWrite (W : World) (st : Store) (s : CString) (file : Loc) (readable : Bool) : Prop :=
  ∃ D, W.base st s = some D ∧
    ((∃ sb, W.fs D = .disk sb) ∧ CanPersist W st s file D ∧ ¬ W.NotReopened file readable ∨
      W.Unflushed st s file readable ∧ st.lookup D file.2 = some (.file (st.content file)))

section Main

variable {W : World} {st : Store} {file : Loc} {readable : Bool} {pos : Nat} {buf : Bytes}
  {s : CString} {D : Dir} (hW : W.Calm) (hbuf : buf ≠ [])
  (hbound : W.boundTo file.1 = some s)

include hW hbuf hbound

theorem writesBack_of_canPersist (hfile : IsName file.2) (hstart : st.touched = [])
    (hdisk : ∃ sb, W.fs D = .disk sb)
    (hcan : CanPersist W (afterWrite st file readable pos buf) s file D)
    (hopen : ¬ W.NotReopened file readable) :
    WritesBack W st s file readable pos buf := by
  obtain ⟨sb, hsb⟩ := hdisk
  obtain ⟨n, st', hflush, hinst⟩ := flush_persists hW hbound hfile hsb hcan
  constructor
  · intro fails
    exact writeIter_ends_onDisk (W := W.withFails fails) hbound hfile hsb (hcan.withFails fails)
  · refine ⟨D, n, st', ?_, ?_, ?_, ?_⟩
    · have hfound := hcan.found
      rwa [base, afterWrite_sights] at hfound
    · rw [writeIter_flushes hW hbuf hbound _ hopen, hflush]
      rfl
    · rw [hinst.target, afterWrite_content]
    · intro l hl hne
      have hl := hinst.clean l hl
      rw [afterWrite_touched, hstart] at hl
      rcases hl with hl | hl | hl
      · cases hl
      · exact absurd hl hne
      · exact hl

theorem writesBack_of_unflushed (hD : W.base st s = some D) (hstart : st.touched = [])
    (hno : W.Unflushed (afterWrite st file readable pos buf) s file readable)
    (hcontent : (afterWrite st file readable pos buf).lookup D file.2 =
      some (.file ((afterWrite st file readable pos buf).content file))) :
    WritesBack W st s file readable pos buf := by
  constructor
  · intro fails
    exact writeIter_ends_unflushed (W := W.withFails fails) hbound hno
  · obtain ⟨n, r, st', hrun⟩ := writeIter_ends_unflushed hbound hno
    have halike := writeIter_unflushed hW hbuf hbound hno hrun
    have hok : r = .ok () := by
      rw [writeIter_written hW hbuf] at hrun
      obtain ⟨_, _, hr⟩ := Option.map_eq_some_iff.mp hrun
      exact (congrArg Prod.fst hr).symm
    subst hok
    refine ⟨D, n, st', hD, hrun, ?_, ?_⟩
    · rw [halike.1, hcontent, afterWrite_content]
    · intro l hl
      rw [halike.2, afterWrite_touched, hstart] at hl
      cases hl

theorem readyForWrite_of_writesBack (hfile : IsName file.2) (haccept : Accepted W st s)
    (hfresh : FreshTmp W (afterWrite st file readable pos buf) s file)
    (h : WritesBack W st s file readable pos buf) :
    ReadyForWrite W (afterWrite st file readable pos buf) s file readable := by
  obtain ⟨d, hd⟩ := haccept
  obtain ⟨hlen, hd⟩ := kernPathAny_dir hd
  have hd' : W.kernPath (afterWrite st file readable pos buf) s = some d := by
    rw [kernPath, afterWrite_sights]
    exact hd
  obtain ⟨D, n, st', hD, hrun, hcontent, hclean⟩ := h.persists
  have hD' : W.base (afterWrite st file readable pos buf) s = some D := by
    rw [base, afterWrite_sights]
    exact hD
  refine ⟨D, hD', ?_⟩
  by_cases hno : W.Unflushed (afterWrite st file readable pos buf) s file readable
  · refine Or.inr ⟨hno, ?_⟩
    rw [← (writeIter_unflushed hW hbuf hbound hno hrun).1, afterWrite_content]
    exact hcontent
  · left
    obtain ⟨hopen, hstop⟩ := not_or.mp hno
    simp only [StopsEarly, not_forall] at hstop
    obtain ⟨path, hpath, hopens⟩ := hstop
    rw [writeIter_flushes hW hbuf hbound _ hopen] at hrun
    obtain ⟨⟨r, t⟩, hflush, ht⟩ := Option.map_eq_some_iff.mp hrun
    cases ht
    have hroom : 0 < nameRoom s := by
      apply Nat.pos_of_ne_zero
      exact fun hroom => hopens (refused_no_room hd' hlen hroom)
    have htmp := tmpUsable_of_opens hroom hD' hopens fun text hlink => by
      rw [(hfresh D path hD' hpath).1] at hlink
      cases hlink
    obtain ⟨hdisk, hcan⟩ := canPersist_of_clean hW hbound hpath hfile hroom hD' htmp
      (hfresh D path hD' hpath).2 hclean hflush
    exact ⟨hdisk, hcan, hopen⟩

end Main

theorem copyLoop_of_empty {W : World} (hW : W.Calm) (io : Io) {src : Loc} (dst : Loc) (n : Nat)
    {t : Store} (hempty : t.lookup src.1 src.2 = some (.file [])) :
    W.copyLoop io src dst (n + 1) 0 t = some (.ok (), t.tick) := by
  have hcontent : t.tick.content src = [] := content_of_file hempty
  have hread : kernelRead [] 0 (W.read t.tick.calls) = [] := by
    simp [kernelRead_eq, ByteFile.readAt]
  rw [copyLoop, Prog.bind_of_ok (call_calm hW), Prog.get_bind, hcontent, hread]
  rfl

/-- When the cut name of the temporary file is the name of the file, and the sync directory is its
directory, the flush truncates the file, and the `fsync` of it flushes it again. -/
theorem flush_self_diverges {W : World} {file : Loc} {s path : CString} (hW : W.Calm)
    (hfree : ∀ q, W.refuses q = none) (hbound : W.boundTo file.1 = some s)
    (hpath : W.dPath file = some path) (hroom : 0 < nameRoom s)
    (hname : ∀ k, (W.flushArgs k s path).tmpName s = file.2) (hfile : IsName file.2)
    (hshort : file.2.length ≤ nameMax) (n : Nat) {st : Store} {data : Bytes}
    (hD : W.base st s = some file.1)
    (hreg : st.lookup file.1 file.2 = some (.file data)) : W.flush n file st = none := by
  induction n generalizing st data with
  | zero => rfl
  | succ n ih =>
      have hsight : st.sights file = none := by rw [Store.sights, hreg]
      have htmpName : W.tmpOf st s path = file.2 := hname _
      have htmp : W.TmpUsable st s path file.1 := by
        constructor <;> rw [htmpName]
        · exact hfile.plain
        · exact hshort
        · exact hsight
        · exact hfree _
      have hopens := htmp.opens hroom hD
      rw [htmpName] at hopens
      have hopen : W.openTrunc (W.flushArgs (st.calls + 2) s path).tmpPath st.tick.tick =
          some (.ok file, (st.tick.tick.tick.set file (some (.file []))).touch file) :=
        openTrunc_calm hW hopens hshort (isDir_of_sights hsight) (hfree _)
      have hempty : (st.set file (some (.file []))).lookup file.1 file.2 = some (.file []) :=
        Store.set_self _ _ _
      have hsame : W.base (st.set file (some (.file []))) s = some file.1 := by
        rw [base, sights_set rfl hsight]
        exact hD
      obtain ⟨sb, hfs⟩ : ∃ sb, W.fs file.1 = .ramfs sb := by
        cases hfs : W.fs file.1 with
        | disk sb => simp [boundTo, hfs] at hbound
        | ramfs sb => exact ⟨sb, rfl⟩
      rw [flush, flushBody_opens hW hbound hpath, Prog.bind_of_ok hopen]
      apply Prog.bind_of_none
      rw [copyFileContent, Prog.bind_of_ok (call_calm hW), Prog.bind_of_ok (call_calm hW)]
      cases n with
      | zero => exact Prog.bind_of_none rfl
      | succ n =>
          have hcopied := copyLoop_of_empty hW (W.fileIo (W.flush (n + 1))) file n
            (show ((st.tick.tick.tick.set file (some (.file []))).touch file).tick.tick.lookup
              file.1 file.2 = some (.file []) from hempty)
          rw [Prog.bind_of_ok hcopied]
          simp only [fileIo, hfs]
          rw [ramfsFsync, Prog.bind_of_ok (reopen_calm hW hpath (hfree _))]
          apply Prog.bind_of_none
          exact ih hsame hempty

/-! ## A ramfs bound to itself -/

theorem lastComponent_onRamfs (l : Loc) (p : CString)
    (h : (if l.1 = 5 ∧ slash ∉ l.2 then some (ascii "/r/" ++ l.2) else none) = some p) :
    lastComponent p = l.2 := by
  split_ifs at h with hl
  cases h
  exact lastComponent_join (ascii "/r") hl.2

def onlyRamfs : World where
  namei := treeNamei fun _ => 0
  fs d := if d = 5 then .ramfs 1 else .disk 0
  syncDir _ := none
  current := ⟨0, 0, 0, 1⟩
  dPath l := if l.1 = 5 ∧ slash ∉ l.2 then some (ascii "/r/" ++ l.2) else none
  dPath_last := lastComponent_onRamfs
  fails _ := none
  refuses _ := none
  clock n := (n, n)
  read _ := 1

def selfBound (s : CString) : World :=
  { onlyRamfs with syncDir := Function.update (fun _ => none) 1 (some s) }

def oneFile (name : CString) : Store where
  lookup d c :=
    match d with
    | 0 => if c = ascii "r" then some (.dir 5) else none
    | 5 => if c = name then some (.file [7]) else none
    | _ => none
  calls := 0
  touched := []

/-- Another way to write `/r`, so long that three bytes are left for a name. -/
def slashes : CString := List.replicate 4090 slash ++ ascii "r"

theorem slashes_length : slashes.length = 4091 := by
  rw [slashes, List.length_append, List.length_replicate]
  rfl

theorem nameRoom_slashes : nameRoom slashes = 3 := by
  rw [nameRoom, slashes_length]
  rfl

theorem names_slashes (k : Nat) :
    names special (List.replicate k slash ++ ascii "r") = [ascii "r"] := by
  induction k with
  | zero => rfl
  | succ k ih =>
      have h : names special ([] ++ special.sep :: (List.replicate k slash ++ ascii "r")) =
          names special [] ++ names special (List.replicate k slash ++ ascii "r") :=
        names_append _ _
      rw [ih] at h
      exact h

/-- For a process that works in its root every path starts there. -/
theorem treeNamei_in_root {parent : Dir → Dir} {p : Process} (h : p.cwd = p.root) (t : Sights)
    (s : CString) :
    (treeNamei parent).base p t s =
        ((t.tree parent).walk special p.root maxSymlinks p.root (names special s)).map Prod.fst ∧
      (treeNamei parent).findDir p t s = (treeNamei parent).base p t s := by
  have hbase : (treeNamei parent).base p t s =
      ((t.tree parent).walk special p.root maxSymlinks p.root (names special s)).map Prod.fst := by
    show (walkBase parent p t s).map Prod.fst = _
    rw [walkBase, start, h, ite_self]
  refine ⟨hbase, ?_⟩
  rw [hbase]
  show (walkDir parent p t s).map Prod.fst = _
  rw [walkDir, start, h, ite_self, Tree.walk_components]

theorem base_slashes {t : Sights} (hr : t (0, ascii "r") = some (.dir 5)) :
    (treeNamei fun _ => 0).base ⟨0, 0, 0, 1⟩ t slashes = some 5 := by
  have hlook : (t.tree fun _ => 0).lookup 0 (ascii "r") = some (.dir 5) := Sights.tree_dir.mpr hr
  rw [(treeNamei_in_root rfl t slashes).1, slashes, names_slashes, Tree.walk_cons,
    if_neg (by decide), if_neg (by decide), hlook]
  simp

theorem isName_dots : IsName (ascii "...") := ⟨⟨by decide, by decide⟩, by decide⟩

theorem dots_tmpName (k : Nat) :
    ((selfBound slashes).flushArgs k slashes (ascii "/r/...")).tmpName slashes = ascii "..." := by
  rw [FlushArgs.tmpName, nameRoom_slashes]
  rfl

/-- A write to the file `...` on a ramfs that is bound to itself never ends. -/
theorem dots_write_diverges (n : Nat) :
    (selfBound slashes).writeIter ((selfBound slashes).flush n) (5, ascii "...") true 0 [8]
      (oneFile (ascii "...")) = none := by
  have hcalm : (selfBound slashes).Calm := fun _ => rfl
  have hbound : (selfBound slashes).boundTo 5 = some slashes := rfl
  have hbase : (selfBound slashes).base
      (afterWrite (oneFile (ascii "...")) (5, ascii "...") true 0 [8]) slashes = some 5 := by
    rw [base, afterWrite_sights]
    exact base_slashes rfl
  rw [writeIter_flushes hcalm (by decide) hbound _ (fun h => by cases h.1),
    flush_self_diverges hcalm (fun _ => rfl) hbound rfl (by rw [nameRoom_slashes]; decide)
      dots_tmpName isName_dots (by decide) n hbase rfl]
  rfl

end OShm.Ramfs
