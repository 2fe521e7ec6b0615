import OShm.Ramfs.VfsCalls

/-! # A flush whose calls do not fail

When no call fails for lack of resources and the file system of the temporary file just takes the
data, the outcome of a flush is decided by the directory entries and by what the process may do.
-/

namespace OShm.Ramfs

open OShm.Kernel OShm.Lib OShm.Lib.PathString OShm.Lib.PathWalk

/-- The same entries, touched alike. -/
def Store.Alike (st u : Store) : Prop := u.lookup = st.lookup ∧ u.touched = st.touched

theorem Store.Alike.trans {st u v : Store} (h : st.Alike u) (h' : u.Alike v) : st.Alike v :=
  ⟨h'.1.trans h.1, h'.2.trans h.2⟩

theorem Store.Alike.moved {st u : Store} (h : st.Alike u) (a b : Loc) :
    (st.moved a b).Alike (u.moved a b) := by
  unfold Store.moved
  split_ifs
  · exact h
  · simp [Store.Alike, Store.set, Store.touch, h.1, h.2]

theorem Store.content_truncated_le (st : Store) (file dst : Loc) :
    (((st.set dst (some (.file []))).touch dst).content file).length ≤
      (st.content file).length := by
  by_cases h : file = dst
  · subst h
    have hempty : ((st.set file (some (.file []))).touch file).lookup file.1 file.2 =
        some (.file []) := st.set_self file _
    rw [Store.content, hempty]
    exact Nat.zero_le _
  · have hsame : ((st.set dst (some (.file []))).touch dst).lookup file.1 file.2 =
        st.lookup file.1 file.2 := st.set_of_ne h _
    rw [Store.content, hsame, Store.content]

namespace World

variable {W : World} {st u : Store}

/-! ## Stores with the same directories and links -/

theorem sights_set {l : Loc} {data : Bytes} (h : u.lookup = (st.set l (some (.file data))).lookup)
    (hl : st.sights l = none) : u.sights = st.sights := by
  funext l'
  by_cases hl' : l' = l
  · subst hl'
    rw [hl, Store.sights, h, Store.set_self]
  · rw [Store.sights, h, Store.set_of_ne st hl', Store.sights]

theorem sights_alike (h : st.Alike u) : u.sights = st.sights := by
  funext l
  rw [Store.sights, h.1, Store.sights]

theorem sights_of_missing {l : Loc} (h : st.lookup l.1 l.2 = none) : st.sights l = none := by
  rw [Store.sights, h]

theorem isDir_iff {l : Loc} : st.isDir l = true ↔ ∃ d, st.sights l = some (.dir d) := by
  unfold Store.isDir Store.sights
  rcases st.lookup l.1 l.2 with _ | (_ | _ | _) <;> simp

theorem isDir_same (h : u.sights = st.sights) (l : Loc) : u.isDir l = st.isDir l := by
  rw [Bool.eq_iff_iff, isDir_iff, isDir_iff, h]

/-! ## What the calls before the rename can do -/

/-- One change that a flush makes before its rename: a call more, or the data of a file that is
there or is made. -/
inductive Change : Store → Store → Prop where
  | tick (st : Store) : Change st st.tick
  | file (st : Store) (l : Loc) (data : Bytes) (h : st.sights l = none) :
      Change st (st.set l (some (.file data)))
  | touch (st : Store) (l : Loc) : Change st (st.touch l)

def ChangeClosed (P : Store → Prop) : Prop := ∀ ⦃st st' : Store⦄, Change st st' → P st → P st'

theorem sights_changeClosed (t : Sights) : ChangeClosed fun st => st.sights = t := by
  rintro st st' h rfl
  cases h with
  | tick => rfl
  | file l data hl => exact sights_set rfl hl
  | touch l => rfl

section Keeps

variable {P : Store → Prop} (hP : ChangeClosed P)

include hP

theorem call_keeps (g : Errno → Errno) : Prog.Keeps P (W.call g) := by
  intro st r st' h hrun
  rw [call_store hrun]
  exact hP (.tick st) h

omit hP in
theorem permit_keeps (q : Request) : Prog.Keeps P (W.permit q) := by
  unfold permit
  cases W.refuses q with
  | some e => exact .fail e
  | none => exact .pure ()

theorem openTrunc_keeps (p : CString) : Prog.Keeps P (W.openTrunc p) := by
  intro st r st' h hrun
  rcases openTrunc_cases hrun with ⟨e, _, rfl⟩ | ⟨l, _, hl, _, hdir, _, rfl⟩
  · exact hP (.tick st) h
  · have hfree : st.tick.sights l = none := by
      rcases hsight : st.sights l with _ | (d | text)
      · exact hsight
      · exact absurd (isDir_iff.mpr ⟨d, hsight⟩) (by simp [hdir])
      · exact absurd hsight (W.namei.openTarget_not_link hl)
    exact hP (.touch _ l) (hP (.file _ l [] hfree) (hP (.tick st) h))

theorem openClose_keeps (p : CString) : Prog.Keeps P (W.openClose p) := by
  intro st r st' h hrun
  rcases openClose_cases hrun with rfl | ⟨l, _, hnone, rfl⟩
  · exact hP (.tick st) h
  · have hfree : st.tick.sights l = none := sights_of_missing hnone
    exact hP (.file _ l [] hfree) (hP (.tick st) h)

theorem lookupTmp_keeps (p : CString) : Prog.Keeps P (W.lookupTmp p) := by
  intro st r st' h hrun
  rw [lookupTmp_cases hrun]
  exact hP (.tick st) h

theorem lookupDir_keeps (p : CString) : Prog.Keeps P (W.lookupDir p) := by
  intro st r st' h hrun
  rw [lookupDir_cases hrun]
  exact hP (.tick st) h

theorem lookupOneLen_keeps (x : Dir ⊕ Loc) : Prog.Keeps P (W.lookupOneLen x) := by
  intro st r st' h hrun
  rw [lookupOneLen_cases hrun]
  exact hP (.tick st) h

theorem reopen_keeps (file : Loc) : Prog.Keeps P (W.reopen file) := by
  apply Prog.Keeps.bind (call_keeps hP _)
  intro _
  cases W.dPath file with
  | none => exact .fail _
  | some path => exact .bind (call_keeps hP _) fun _ => permit_keeps _

theorem pwrite_keeps (l : Loc) (pos : Nat) (buf : Bytes) :
    Prog.Keeps P (Prog.update (fun st => st.pwrite l pos buf) : Act Unit) := by
  apply Prog.Keeps.update
  intro st h
  unfold Store.pwrite
  split
  · rename_i data hl
    exact hP (.file st l _ (by rw [Store.sights, hl])) h
  · exact h

theorem copyLoop_keeps {io : Io} {dst : Loc} (hio : ∀ pos buf, Prog.Keeps P (io.write dst pos buf))
    (src : Loc) (n pos : Nat) : Prog.Keeps P (W.copyLoop io src dst n pos) := by
  induction n generalizing pos with
  | zero => exact .diverge
  | succ n ih =>
      apply Prog.Keeps.bind (call_keeps hP _)
      intro _
      apply Prog.Keeps.bind .get
      intro st
      split
      · exact .pure _
      · exact .bind (hio _ _) fun _ => ih _

theorem copyFileContent_keeps (n : Nat) (src dst : Loc) :
    Prog.Keeps P (W.copyFileContent W.plainIo n src dst) := by
  have hwrite : ∀ pos buf, Prog.Keeps P (W.plainIo.write dst pos buf) := fun pos buf =>
    .bind (call_keeps hP _) fun _ => pwrite_keeps hP dst pos buf
  apply Prog.Keeps.bind (call_keeps hP _)
  intro _
  apply Prog.Keeps.bind (call_keeps hP _)
  intro _
  exact .bind (copyLoop_keeps hP hwrite _ _ _) fun _ => call_keeps hP _

theorem prepareRename_keeps (A : FlushArgs) : Prog.Keeps P (W.prepareRename A) := by
  apply Prog.Keeps.bind (lookupTmp_keeps hP _)
  intro _
  apply Prog.Keeps.bind (call_keeps hP _)
  intro _
  apply Prog.Keeps.bind (lookupDir_keeps hP _)
  intro dir
  apply Prog.Keeps.bind (openClose_keeps hP _).attempt
  intro _
  apply Prog.Keeps.bind (lookupOneLen_keeps hP dir)
  intro _
  exact call_keeps hP _

end Keeps

/-! ## Touching the target -/

/-- The store after `filp_open(path, O_WRONLY | O_CREAT)`. -/
def afterTouch (W : World) (st : Store) (path : CString) : Store :=
  match W.openTarget st path with
  | none => st
  | some l =>
      if nameMax < l.2.length ∨ st.lookup l.1 l.2 ≠ none ∨ W.refuses (.write l) ≠ none then st
      else st.set l (some (.file []))

theorem afterTouch_cases (W : World) (st : Store) (path : CString) :
    W.afterTouch st path = st ∨ ∃ l, W.openTarget st path = some l ∧ st.lookup l.1 l.2 = none ∧
      W.afterTouch st path = st.set l (some (.file [])) := by
  unfold afterTouch
  cases hl : W.openTarget st path with
  | none => exact Or.inl rfl
  | some l =>
      simp only
      split_ifs with h
      · exact Or.inl rfl
      · rw [not_or, not_or, not_not] at h
        exact Or.inr ⟨l, rfl, h.2.1, rfl⟩

@[simp] theorem afterTouch_touched (W : World) (st : Store) (path : CString) :
    (W.afterTouch st path).touched = st.touched := by
  rcases W.afterTouch_cases st path with h | ⟨l, _, _, h⟩ <;> rw [h]
  rfl

theorem afterTouch_sights (W : World) (st : Store) (path : CString) :
    (W.afterTouch st path).sights = st.sights := by
  rcases W.afterTouch_cases st path with h | ⟨l, _, hnone, h⟩
  · rw [h]
  · rw [h]
    exact sights_set rfl (sights_of_missing hnone)

theorem afterTouch_alike (h : st.Alike u) (path : CString) :
    (W.afterTouch st path).Alike (W.afterTouch u path) := by
  have hopen : W.openTarget u path = W.openTarget st path := by
    rw [openTarget, openTarget, sights_alike h]
  unfold afterTouch
  rw [hopen, h.1]
  cases W.openTarget st path with
  | none => exact h
  | some l =>
      simp only
      split_ifs
      · exact h
      · simp [Store.Alike, Store.set, h.1, h.2]

theorem afterTouch_lookup (W : World) (st : Store) (path : CString) {l : Loc}
    (hl : st.lookup l.1 l.2 ≠ none) :
    (W.afterTouch st path).lookup l.1 l.2 = st.lookup l.1 l.2 := by
  rcases W.afterTouch_cases st path with h | ⟨l', _, hnone, h⟩
  · rw [h]
  · rw [h]
    apply Store.set_of_ne
    rintro rfl
    exact hl hnone

theorem openClose_attempt (hW : W.Calm) (path : CString) :
    ∃ r t, (W.openClose path).attempt st = some (.ok r, t) ∧ (W.afterTouch st path).Alike t := by
  have hrun : ∃ r t, W.openClose path st = some (r, t) ∧ (W.afterTouch st path).Alike t := by
    rw [openClose, Prog.bind_of_ok (call_calm hW), Prog.get_bind, afterTouch]
    have htick : W.openTarget st.tick path = W.openTarget st path := rfl
    rw [htick]
    cases W.openTarget st path with
    | none => exact ⟨_, _, rfl, rfl, rfl⟩
    | some l =>
        simp only
        by_cases hlen : nameMax < l.2.length
        · rw [if_pos hlen, if_pos (Or.inl hlen)]
          exact ⟨_, _, rfl, rfl, rfl⟩
        rw [if_neg hlen]
        by_cases hq : W.refuses (.write l) = none
        · rw [permit_granted hq]
          by_cases hnone : st.lookup l.1 l.2 = none
          · have hdir : ¬ st.tick.isDir l = true := by simp [Store.isDir, hnone]
            have hnone' : st.tick.lookup l.1 l.2 = none := hnone
            have hcreate : ¬ (nameMax < l.2.length ∨ st.lookup l.1 l.2 ≠ none ∨
                W.refuses (.write l) ≠ none) :=
              not_or.mpr ⟨hlen, not_or.mpr ⟨not_not.mpr hnone, not_not.mpr hq⟩⟩
            rw [if_neg hdir, if_pos hnone', if_neg hcreate]
            exact ⟨_, _, rfl, rfl, rfl⟩
          · have hnone' : ¬ st.tick.lookup l.1 l.2 = none := hnone
            rw [if_pos (Or.inr (Or.inl hnone))]
            by_cases hdir : st.tick.isDir l = true
            · rw [if_pos hdir]
              exact ⟨_, _, rfl, rfl, rfl⟩
            · rw [if_neg hdir, if_neg hnone']
              exact ⟨_, _, rfl, rfl, rfl⟩
        · obtain ⟨e, he⟩ := permit_refused hq
          rw [he, if_pos (Or.inr (Or.inr hq))]
          by_cases hdir : st.tick.isDir l = true
          · rw [if_pos hdir]
            exact ⟨_, _, rfl, rfl, rfl⟩
          · rw [if_neg hdir]
            exact ⟨_, _, rfl, rfl, rfl⟩
  obtain ⟨r, t, h, halike⟩ := hrun
  exact ⟨r, t, by simp [Prog.attempt, h], halike⟩

/-! ## The second half -/

/-- The second half of `ramfs_file_flush`: the temporary file becomes the target. -/
def installTmp (W : World) (A : FlushArgs) : Act Loc := do
  W.prepareRename A
  W.rename A.tmpPath A.finalPath

/-- Nothing keeps the temporary file `a` from becoming `b`. -/
structure InstallReady (W : World) (A : FlushArgs) (t : Store) (a b : Loc) : Prop where
  searchable : W.Searchable (W.kernPathNoFollow t (dirName A.finalPath))
  target : t.isDir b = false
  permitted : W.refuses (.rename a b) = none

/-- How the temporary file becomes the target, or does not. -/
inductive Installs (W : World) (A : FlushArgs) (t : Store) (a b : Loc) :
    Except Errno Loc → Store → Prop where
  | left {e : Errno} {t' : Store} (h : ¬ InstallReady W A t a b)
      (halike : t.Alike t' ∨ (W.afterTouch t A.finalPath).Alike t') :
      Installs W A t a b (.error e) t'
  | done {t' : Store} (h : InstallReady W A t a b)
      (halike : ((W.afterTouch t A.finalPath).moved a b).Alike t') :
      Installs W A t a b (.ok b) t'

theorem installTmp_calm (hW : W.Calm) {A : FlushArgs} {t : Store} {a b : Loc}
    (ha : W.locate t A.tmpPath = some a) (hb : W.locate t A.finalPath = some b)
    (hfs : W.fs a.1 = W.fs b.1) (hsome : t.lookup a.1 a.2 ≠ none) :
    Prog.Finishes (W.installTmp A) t (Installs W A t a b) := by
  unfold installTmp prepareRename
  rw [Prog.bind_assoc]
  apply Prog.Finishes.step (lookupTmp_calm hW ha hsome)
  rw [Prog.bind_assoc]
  apply Prog.Finishes.step (call_calm hW)
  rw [Prog.bind_assoc]
  cases hd : W.kernPathNoFollow t (dirName A.finalPath) with
  | none =>
      have hmissing : ∃ e, W.lookupDir (dirName A.finalPath) t.tick.tick =
          some (.error e, t.tick.tick.tick) := lookupDir_missing hW hd
      obtain ⟨e, he⟩ := hmissing
      refine Prog.Finishes.stop he (.left (fun h => ?_) (Or.inl ⟨rfl, rfl⟩))
      have hsearch := h.searchable
      rw [hd] at hsearch
      exact hsearch
  | some x =>
      have hd' : W.kernPathNoFollow t.tick.tick (dirName A.finalPath) = some x := hd
      apply Prog.Finishes.step (lookupDir_calm hW hd')
      rw [Prog.bind_assoc]
      have hopen : ∃ r t₃, (W.openClose A.finalPath).attempt t.tick.tick.tick = some (.ok r, t₃) ∧
          (W.afterTouch t.tick.tick.tick A.finalPath).Alike t₃ := openClose_attempt hW A.finalPath
      obtain ⟨r, t₃, hclose, halike⟩ := hopen
      apply Prog.Finishes.step hclose
      rw [Prog.bind_assoc]
      -- the directories are as before the touch, and the temporary file is still there
      have hticks : t.Alike t.tick.tick.tick := ⟨rfl, rfl⟩
      have htouch : (W.afterTouch t A.finalPath).Alike t₃ :=
        (afterTouch_alike hticks _).trans halike
      have hsame : t₃.tick.tick.sights = t.sights :=
        (sights_alike htouch).trans (W.afterTouch_sights t A.finalPath)
      have hkept : t₃.tick.tick.lookup a.1 a.2 = t.lookup a.1 a.2 := by
        show t₃.lookup a.1 a.2 = t.lookup a.1 a.2
        rw [htouch.1, W.afterTouch_lookup t _ hsome]
      have hsome₃ : t₃.tick.tick.lookup a.1 a.2 ≠ none := by
        rw [hkept]
        exact hsome
      have ha₃ : W.locate t₃.tick.tick A.tmpPath = some a := by
        rw [locate, hsame]
        exact ha
      have hb₃ : W.locate t₃.tick.tick A.finalPath = some b := by
        rw [locate, hsame]
        exact hb
      by_cases hsearch : W.Searchable (some x)
      · apply Prog.Finishes.step (lookupOneLen_calm hW hsearch)
        apply Prog.Finishes.step (call_calm hW)
        by_cases hready : t.isDir b = false ∧ W.refuses (.rename a b) = none
        · have hdir₃ : t₃.tick.tick.isDir b = false := (isDir_same hsame b).trans hready.1
          have hren := rename_calm hW ha₃ hb₃ hfs hsome₃ hdir₃ hready.2
          have hticks₃ : (W.afterTouch t A.finalPath).Alike t₃.tick.tick.tick := htouch
          have hsearch' : W.Searchable (W.kernPathNoFollow t (dirName A.finalPath)) := by
            rw [hd]
            exact hsearch
          exact ⟨_, _, hren, .done ⟨hsearch', hready.1, hready.2⟩ (hticks₃.moved a b)⟩
        · have hbad : t₃.tick.tick.isDir b = true ∨ W.refuses (.rename a b) ≠ none := by
            rw [isDir_same hsame b]
            by_cases hdir : t.isDir b = true
            · exact Or.inl hdir
            · exact Or.inr fun hq => hready ⟨Bool.eq_false_iff.mpr hdir, hq⟩
          obtain ⟨e, hren⟩ := rename_refused hW ha₃ hb₃ hfs hsome₃ hbad
          exact ⟨_, _, hren, .left (fun h => hready ⟨h.target, h.permitted⟩) (Or.inr htouch)⟩
      · obtain ⟨e, he⟩ := @lookupOneLen_refused W t₃ hW _ hsearch
        refine Prog.Finishes.stop he (.left (fun h => hsearch ?_) (Or.inr htouch))
        have hsearch' := h.searchable
        rwa [hd] at hsearch'

/-! ## The first half -/

def copied (st : Store) (file dst : Loc) : Store :=
  let t := (st.set dst (some (.file []))).touch dst
  t.set dst (some (.file (t.content file)))

/-- A flush as one sequence of calls. -/
theorem flushBody_eq (W : World) (io : Io) (n : Nat) (file : Loc) :
    W.flushBody io n file =
      (match W.boundTo file.1 with
      | none => Prog.fail einval
      | some s => do
          W.alloc
          match W.dPath file with
          | none => Prog.fail enametoolong
          | some path => do
              W.alloc
              let st ← Prog.get
              let dst ← W.openTrunc (W.flushArgs st.calls s path).tmpPath
              W.copyFileContent io n file dst
              W.installTmp (W.flushArgs st.calls s path)) := by
  have hrest : W.flushBody io n file = W.copyToTmp io n file >>= W.installTmp := by
    rw [flushBody, flushPrepare, Prog.bind_assoc]
    congr 1
    funext A
    rw [Prog.bind_assoc]
    rfl
  rw [hrest, copyToTmp]
  cases W.boundTo file.1 with
  | none => rfl
  | some s =>
      simp only [Prog.bind_assoc]
      cases W.dPath file with
      | none => rfl
      | some path =>
          simp only [Prog.bind_assoc]
          rfl

section First

variable {n : Nat} {file dst : Loc} {s path : CString} (hW : W.Calm)
  (hbound : W.boundTo file.1 = some s) (hpath : W.dPath file = some path)

include hW hbound hpath

theorem flushBody_opens (io : Io) :
    W.flushBody io n file st =
      (W.openTrunc (W.flushArgs (st.calls + 2) s path).tmpPath >>= fun dst =>
        W.copyFileContent io n file dst >>= fun _ =>
          W.installTmp (W.flushArgs (st.calls + 2) s path)) st.tick.tick := by
  rw [flushBody_eq, hbound]
  simp only
  rw [Prog.bind_of_ok (call_calm hW), hpath]
  simp only
  rw [Prog.bind_of_ok (call_calm hW), Prog.get_bind]
  rfl

theorem flushBody_refused (io : Io)
    (hopen : W.Refused st (W.flushArgs (st.calls + 2) s path).tmpPath) :
    ∃ e t, W.flushBody io n file st = some (.error e, t) ∧ st.Alike t := by
  have hrefused : ∃ e, W.openTrunc (W.flushArgs (st.calls + 2) s path).tmpPath st.tick.tick =
      some (.error e, st.tick.tick.tick) := openTrunc_refused hW hopen
  obtain ⟨e, he⟩ := hrefused
  rw [flushBody_opens hW hbound hpath, Prog.bind_of_error he]
  exact ⟨e, _, rfl, rfl, rfl⟩

variable (hopen : W.openTarget st (W.flushArgs (st.calls + 2) s path).tmpPath = some dst)
  (hlen : dst.2.length ≤ nameMax) (hdir : st.isDir dst = false)
  (hq : W.refuses (.write dst) = none)

include hopen hlen hdir hq

theorem flushBody_copies {r : Except Errno Loc} {st' : Store}
    (h : W.flushBody W.plainIo n file st = some (r, st')) :
    ∃ t, (copied st file dst).Alike t ∧
      W.installTmp (W.flushArgs (st.calls + 2) s path) t = some (r, st') := by
  have hopened : W.openTrunc (W.flushArgs (st.calls + 2) s path).tmpPath st.tick.tick =
      some (.ok dst, (st.tick.tick.tick.set dst (some (.file []))).touch dst) :=
    openTrunc_calm hW hopen hlen hdir hq
  rw [flushBody_opens hW hbound hpath, Prog.bind_of_ok hopened] at h
  have hempty : ((st.tick.tick.tick.set dst (some (.file []))).touch dst).lookup dst.1 dst.2 =
      some (.file []) := Store.set_self _ _ _
  rcases Prog.bind_eq_some h with ⟨e, hcopy, _⟩ | ⟨_, t, hcopy, hrest⟩
  · rcases copyFileContent_cases hempty hcopy with ⟨hr, _⟩ | ⟨hno, _⟩
    · cases hr
    · exact absurd hW hno
  · rcases copyFileContent_cases hempty hcopy with ⟨_, hl, ht⟩ | ⟨hno, _⟩
    · exact ⟨t, ⟨hl, ht⟩, hrest⟩
    · exact absurd hW hno

end First

end World

end OShm.Ramfs
