import OShm.Ramfs.FlushClean

/-! # Two flushes under the same answers

A flush depends on its file through four things: whether there is a binding, the two paths,
and the content. Whether two flushes have the same effect wherever they stop can be read off
these and the disk they start from.
-/

namespace OShm.Ramfs

open OShm.Kernel OShm.Lib.ByteFile

/-- The rename leaves the temporary file where it is. -/
def Blocked (A : FlushArgs) (d : Disk) : Prop :=
  A.tmpPath = A.finalPath ∨ d A.finalPath = some .dir

/-- The rename changes nothing but the temporary file. -/
def Settles (A : FlushArgs) (src : Bytes) (d : Disk) : Prop :=
  A.tmpPath ≠ A.finalPath ∧ d A.finalPath = some (.file src)

/-- Installing the same copy under the two targets comes to the same. Targets differ
while the temporary paths agree only where names are cut. -/
def SameTarget (A A' : FlushArgs) (src : Bytes) (d : Disk) : Prop :=
  A.finalPath = A'.finalPath ∨ Blocked A d ∧ Blocked A' d ∨ Settles A src d ∧ Settles A' src d

/-! ## Reading byte by byte -/

/-- The flush gets its buffers, then reads and writes `k` times. -/
def chunkAnswers (k : Nat) : List (Except Errno Nat) :=
  List.replicate 6 (.ok 0) ++ (List.replicate k [.ok 1, .ok 1]).flatten

theorem chunkAnswers_succ (k : Nat) : chunkAnswers (k + 1) = chunkAnswers k ++ [.ok 1, .ok 1] := by
  simp [chunkAnswers, List.replicate_succ']

section Chunks

variable {A : FlushArgs} {src : Bytes} {d : Disk} {dir : CString}
  (hsync : A.syncDir = some dir) (hdir : d A.tmpPath ≠ some .dir)

include hsync hdir

theorem flushRun_chunks {k : Nat} (hk : k ≤ src.length) :
    (flushRun A src d (chunkAnswers k)).1 = .read k := by
  induction k with
  | zero =>
      rw [chunkAnswers, List.replicate_zero, List.flatten_nil, List.append_nil,
        flushRun_opened hsync hdir]
  | succ k ih =>
      have hpc := ih (by omega)
      have hlen : (kernelRead src k 1).length = 1 := by
        simp only [kernelRead, readAt, bufSize, List.length_take, List.length_drop]
        omega
      obtain ⟨b, hb⟩ := List.length_eq_one_iff.mp hlen
      rw [chunkAnswers_succ, flushRun_append]
      generalize flushRun A src d (chunkAnswers k) = x at hpc
      obtain ⟨pc, d₁⟩ := x
      obtain rfl : pc = .read k := hpc
      simp [flushStep, hb]

theorem flushRun_chunks_end :
    (flushRun A src d (chunkAnswers (src.length + 1))).1 = .call .lookupTmp := by
  have hpc := flushRun_chunks hsync hdir (Nat.le_refl src.length)
  have hnil : kernelRead src src.length 1 = [] := (readAt_eq_nil_iff (by omega)).mpr (Nat.le_refl _)
  rw [chunkAnswers_succ, flushRun_append]
  generalize flushRun A src d (chunkAnswers src.length) = x at hpc
  obtain ⟨pc, d₁⟩ := x
  obtain rfl : pc = .read src.length := hpc
  simp [flushStep, hnil, FlushCall.next]

theorem chunks_untouched {k : Nat} (hk : k ≤ src.length + 1) :
    (flushRun A src d (chunkAnswers k)).1.untouched = true := by
  rcases Nat.lt_or_eq_of_le hk with hlt | rfl
  · rw [flushRun_chunks hsync hdir (by omega)]
    rfl
  · rw [flushRun_chunks_end hsync hdir]
    rfl

theorem tmp_after_chunks {k : Nat} (hk : k ≤ src.length + 1) :
    (flushRun A src d (chunkAnswers k)).2 A.tmpPath = some (.file (src.take k)) := by
  have htmp := flushRun_tmpAt A src d (chunkAnswers k)
  rcases Nat.lt_or_eq_of_le hk with hlt | rfl
  · rw [flushRun_chunks hsync hdir (by omega)] at htmp
    exact htmp.2
  · rw [flushRun_chunks_end hsync hdir] at htmp
    rw [List.take_of_length_le (by omega)]
    exact htmp

/-- The first chunk of a file that is not empty shows in the temporary file. -/
theorem first_chunk_shows (hsrc : src ≠ []) :
    (flushRun A src d (chunkAnswers 0)).2 A.tmpPath ≠
      (flushRun A src d (chunkAnswers 1)).2 A.tmpPath := by
  rw [tmp_after_chunks hsync hdir (by omega), tmp_after_chunks hsync hdir (by omega)]
  obtain ⟨b, rest, rfl⟩ := List.exists_cons_of_ne_nil hsrc
  simp

end Chunks

/-! ## What the same effect forces -/

section Forced

variable {A A' : FlushArgs} {src src' : Bytes} {d : Disk} {dir dir' : CString}

theorem same_tmp_of_same_effect (hsync : A.syncDir = some dir) (hdir : d A.tmpPath ≠ some .dir)
    (hsrc : src ≠ [])
    (h : ∀ answers, (flushRun A src d answers).2 = (flushRun A' src' d answers).2) :
    A'.syncDir ≠ none ∧ A.tmpPath = A'.tmpPath := by
  have hshows := first_chunk_shows hsync hdir hsrc
  rw [h, h] at hshows
  by_cases hrefused : A'.syncDir = none ∨ d A'.tmpPath = some .dir
  · rw [flushRun_refused hrefused, flushRun_refused hrefused] at hshows
    exact absurd rfl hshows
  · obtain ⟨hsync', hdir'⟩ := not_or.mp hrefused
    obtain ⟨dir', hdir'name⟩ := Option.ne_none_iff_exists'.mp hsync'
    refine ⟨hsync', ?_⟩
    by_contra hne
    rw [entry_untouched hne _ (chunks_untouched hdir'name hdir' (by omega)),
      entry_untouched hne _ (chunks_untouched hdir'name hdir' (by omega))] at hshows
    exact hshows rfl

theorem same_content_of_same_effect (hsync : A.syncDir = some dir)
    (hsync' : A'.syncDir = some dir') (hdir : d A.tmpPath ≠ some .dir)
    (htmp : A.tmpPath = A'.tmpPath)
    (h : ∀ answers, (flushRun A src d answers).2 = (flushRun A' src' d answers).2) :
    src = src' := by
  have hdir' : d A'.tmpPath ≠ some .dir := htmp ▸ hdir
  have htake : ∀ k, k ≤ src.length + 1 → k ≤ src'.length + 1 → src.take k = src'.take k := by
    intro k hk hk'
    have hnode := @tmp_after_chunks A src d dir hsync hdir k hk
    rw [h, htmp, tmp_after_chunks hsync' hdir' hk'] at hnode
    simpa using hnode.symm
  -- one more than the shorter length tells the lengths apart
  rcases Nat.lt_or_ge src'.length src.length with hlt | hge
  · have hlen := congrArg List.length (htake (src'.length + 1) (by omega) (by omega))
    simp only [List.length_take] at hlen
    omega
  · have heq := htake (src.length + 1) (by omega) (by omega)
    have hlen := congrArg List.length heq
    simp only [List.length_take] at hlen
    rwa [List.take_of_length_le (by omega), List.take_of_length_le (by omega)] at heq

end Forced

/-! ## The same temporary path -/

section Lockstep

variable {A A' : FlushArgs} {src : Bytes} {d : Disk} {dir dir' : CString}

/-- Only the touch and the rename look at the target. -/
theorem flushStep_congr (htmp : A.tmpPath = A'.tmpPath) {pc : FlushPc} (htouch : pc ≠ .touch)
    (hrename : pc ≠ .rename) (d : Disk) (ans : Except Errno Nat) :
    flushStep A src (pc, d) ans = flushStep A' src (pc, d) ans := by
  cases pc with
  | touch => exact absurd rfl htouch
  | rename => exact absurd rfl hrename
  | _ => cases ans <;> simp only [flushStep, htmp]

theorem flushStart_congr (hsync : A.syncDir = some dir) (hsync' : A'.syncDir = some dir') :
    flushStart A = flushStart A' := by
  rw [flushStart, flushStart, hsync, hsync']

/-- Until the touch the two flushes are one. -/
theorem lockstep_untouched (hsync : A.syncDir = some dir) (hsync' : A'.syncDir = some dir')
    (htmp : A.tmpPath = A'.tmpPath) (answers : List (Except Errno Nat))
    (hpc : (flushRun A src d answers).1.untouched = true) :
    flushRun A' src d answers = flushRun A src d answers := by
  induction answers using List.reverseRecOn with
  | nil => rw [flushRun, flushRun, List.foldl_nil, List.foldl_nil, flushStart_congr hsync hsync']
  | append_singleton answers ans ih =>
      rw [flushRun_append, List.foldl_cons, List.foldl_nil] at hpc
      obtain ⟨hbefore, htouch⟩ :=
        (flushStep_effect A src (flushRun A src d answers).1 (flushRun A src d answers).2
          ans).untouched_before hpc
      have hrename : (flushRun A src d answers).1 ≠ .rename := by
        intro heq
        rw [heq] at hbefore
        cases hbefore
      rw [flushRun_append, flushRun_append, ih hbefore, List.foldl_cons, List.foldl_nil,
        List.foldl_cons, List.foldl_nil]
      exact (flushStep_congr htmp htouch hrename _ _).symm

/-! ## The touch and the rename -/

theorem Copied.congr {d₁ : Disk} (h : Copied A src d d₁) (htmp : A.tmpPath = A'.tmpPath) :
    Copied A' src d d₁ :=
  ⟨htmp ▸ h.tmp, htmp ▸ h.others⟩

theorem rename_blocked {d₁ : Disk} (h : Copied A src d d₁) (hb : Blocked A d) :
    (d₁.rename A.tmpPath A.finalPath).1 = d₁ := by
  have hcase : A.tmpPath = A.finalPath ∨ d₁ A.finalPath = some .dir := by
    by_cases heq : A.tmpPath = A.finalPath
    · exact Or.inl heq
    · exact Or.inr ((h.others _ (Ne.symm heq)).trans (hb.resolve_left heq))
  rcases hcase with heq | hfinal
  · simp [Disk.rename, ← heq, h.tmp]
  · simp [Disk.rename, h.tmp, hfinal]

theorem rename_moves {d₁ : Disk} (h : Copied A src d d₁) (hb : ¬ Blocked A d) :
    (d₁.rename A.tmpPath A.finalPath).1 =
      Function.update (Function.update d₁ A.finalPath (some (.file src))) A.tmpPath none := by
  obtain ⟨hne, hfinal⟩ := not_or.mp hb
  rw [← h.others _ (Ne.symm hne)] at hfinal
  unfold Disk.rename
  rw [h.tmp]
  split
  · rename_i hnone
    cases hnone
  · rename_i hdir
    exact absurd hdir hfinal
  · rename_i node hnode hnot
    obtain rfl : Node.file src = node := Option.some.inj hnode
    rw [if_neg hne]

theorem rename_settles {d₁ : Disk} (h : Copied A src d d₁) (hs : Settles A src d) :
    (d₁.rename A.tmpPath A.finalPath).1 = Function.update d₁ A.tmpPath none := by
  have hfinal : d₁ A.finalPath = some (.file src) := (h.others _ (Ne.symm hs.1)).trans hs.2
  have hfree : ¬ Blocked A d := by
    rintro (heq | hd)
    · exact hs.1 heq
    · simp [hs.2] at hd
  rw [rename_moves h hfree, ← hfinal, Function.update_eq_self]

theorem rename_same (htmp : A.tmpPath = A'.tmpPath) {d₁ : Disk} (h : Copied A src d d₁)
    (hsame : SameTarget A A' src d) :
    (d₁.rename A.tmpPath A.finalPath).1 = (d₁.rename A'.tmpPath A'.finalPath).1 := by
  rcases hsame with heq | ⟨hb, hb'⟩ | ⟨hs, hs'⟩
  · rw [htmp, heq]
  · rw [rename_blocked h hb, rename_blocked (h.congr htmp) hb']
  · rw [rename_settles h hs, rename_settles (h.congr htmp) hs', htmp]

/-- Renames with the same effect are to the same target, or both change nothing, or both only
take the temporary file away. -/
theorem sameTarget_of_rename (htmp : A.tmpPath = A'.tmpPath) {d₁ : Disk} (h : Copied A src d d₁)
    (hsame : (d₁.rename A.tmpPath A.finalPath).1 = (d₁.rename A'.tmpPath A'.finalPath).1) :
    SameTarget A A' src d := by
  have h' := h.congr htmp
  by_cases heq : A.finalPath = A'.finalPath
  · exact Or.inl heq
  by_cases hb : Blocked A d <;> by_cases hb' : Blocked A' d
  · exact Or.inr (Or.inl ⟨hb, hb'⟩)
  · -- the temporary file stays in one and goes in the other
    rw [rename_blocked h hb, rename_moves h' hb'] at hsame
    have hgone := congrFun hsame A'.tmpPath
    rw [Function.update_self, h'.tmp] at hgone
    cases hgone
  · rw [rename_moves h hb, rename_blocked h' hb'] at hsame
    have hgone := congrFun hsame A.tmpPath
    rw [Function.update_self, h.tmp] at hgone
    cases hgone
  · obtain ⟨hne, -⟩ := not_or.mp hb
    obtain ⟨hne', -⟩ := not_or.mp hb'
    rw [rename_moves h hb, rename_moves h' hb'] at hsame
    have hfinal := congrFun hsame A.finalPath
    have hfinal' := congrFun hsame A'.finalPath
    rw [Function.update_of_ne (Ne.symm hne), Function.update_self,
      Function.update_of_ne (htmp ▸ Ne.symm hne), Function.update_of_ne heq,
      h.others _ (Ne.symm hne)] at hfinal
    rw [Function.update_of_ne (htmp ▸ Ne.symm hne'), Function.update_of_ne (Ne.symm heq),
      Function.update_of_ne (Ne.symm hne'), Function.update_self,
      h.others _ (htmp ▸ Ne.symm hne')] at hfinal'
    exact Or.inr (Or.inr ⟨⟨hne, hfinal.symm⟩, ⟨hne', hfinal'⟩⟩)

theorem sameTarget_of_same_effect (hsync : A.syncDir = some dir) (hsync' : A'.syncDir = some dir')
    (hdir : d A.tmpPath ≠ some .dir) (htmp : A.tmpPath = A'.tmpPath)
    (h : ∀ answers, (flushRun A src d answers).2 = (flushRun A' src d answers).2) :
    SameTarget A A' src d := by
  obtain ⟨answers, d₁, hrun⟩ := @flushRun_touch A src d dir hsync hdir
  have hrun' : flushRun A' src d answers = (.touch, d₁) :=
    (lockstep_untouched hsync hsync' htmp answers (by rw [hrun]; rfl)).trans hrun
  -- the touch may fail, and then the rename is the only call that matters
  have hsame := h (answers ++ [.error enoent, .ok 0, .ok 0, .ok 0])
  rw [flushRun_append, flushRun_append, hrun, hrun'] at hsame
  exact sameTarget_of_rename htmp (copied_of_touch hrun) hsame

theorem touch_present {d₁ : Disk} (h : d₁ A.finalPath ≠ none) (ans : Except Errno Nat) :
    flushStep A src (.touch, d₁) ans = (.call .lookupDentry, d₁) := by
  cases ans with
  | error e => rfl
  | ok n =>
      obtain ⟨node, hnode⟩ := Option.ne_none_iff_exists'.mp h
      simp [flushStep, hnode]

theorem Copied.final_present {d₁ : Disk} (h : Copied A src d d₁)
    (hfinal : Blocked A d ∨ Settles A src d) : d₁ A.finalPath ≠ none := by
  by_cases heq : A.tmpPath = A.finalPath
  · simp [← heq, h.tmp]
  · rw [h.others _ (Ne.symm heq)]
    rcases hfinal with hb | hs
    · simp [hb.resolve_left heq]
    · simp [hs.2]

/-- The two flushes are at the same point and have changed the temporary file only, or both
have ended. -/
def InStep (A : FlushArgs) (d : Disk) (x x' : FlushPc × Disk) : Prop :=
  x.2 = x'.2 ∧ (x.1.stage = none ∧ x'.1.stage = none ∨
    x.1 = x'.1 ∧ ∀ p, p ≠ A.tmpPath → x.2 p = d p)

theorem InStep.step (htmp : A.tmpPath = A'.tmpPath) (hfinal : Blocked A d ∨ Settles A src d)
    (hfinal' : Blocked A' d ∨ Settles A' src d) (hsame : SameTarget A A' src d)
    {x x' : FlushPc × Disk} (hx : TmpAt src x.1 (x.2 A.tmpPath)) (h : InStep A d x x')
    (ans : Except Errno Nat) :
    InStep A d (flushStep A src x ans) (flushStep A' src x' ans) := by
  obtain ⟨hdisk, ⟨hend, hend'⟩ | ⟨hpc, hothers⟩⟩ := h
  · rw [flushStep_ended A src ans hend, flushStep_ended A' src ans hend']
    exact ⟨hdisk, Or.inl ⟨hend, hend'⟩⟩
  obtain ⟨pc, d₁⟩ := x
  obtain rfl : (pc, d₁) = x' := Prod.ext hpc hdisk
  by_cases htouch : pc = .touch
  · subst htouch
    have hcopied : Copied A src d d₁ := ⟨hx, hothers⟩
    rw [touch_present (hcopied.final_present hfinal),
      touch_present ((hcopied.congr htmp).final_present hfinal')]
    exact ⟨rfl, Or.inr ⟨rfl, hothers⟩⟩
  by_cases hrename : pc = .rename
  · subst hrename
    cases ans with
    | error e => exact ⟨rfl, Or.inl ⟨rfl, rfl⟩⟩
    | ok n => exact ⟨rename_same htmp ⟨hx, hothers⟩ hsame, Or.inl ⟨rfl, rfl⟩⟩
  · rw [← flushStep_congr htmp htouch hrename]
    refine ⟨rfl, Or.inr ⟨rfl, ?_⟩⟩
    intro p hp
    exact ((flushStep_effect A src pc d₁ ans).only_tmp htouch hrename hp).trans (hothers p hp)

theorem inStep_run (hsync : A.syncDir = some dir) (hsync' : A'.syncDir = some dir')
    (htmp : A.tmpPath = A'.tmpPath) (hfinal : Blocked A d ∨ Settles A src d)
    (hfinal' : Blocked A' d ∨ Settles A' src d) (hsame : SameTarget A A' src d)
    (answers : List (Except Errno Nat)) :
    InStep A d (flushRun A src d answers) (flushRun A' src d answers) := by
  induction answers using List.reverseRecOn with
  | nil => exact ⟨rfl, Or.inr ⟨flushStart_congr hsync hsync', fun _ _ => rfl⟩⟩
  | append_singleton answers ans ih =>
      rw [flushRun_append, flushRun_append]
      exact InStep.step htmp hfinal hfinal' hsame (flushRun_tmpAt A src d answers) ih ans

theorem flushRun_congr (hsync : A.syncDir = some dir) (hsync' : A'.syncDir = some dir')
    (htmp : A.tmpPath = A'.tmpPath) (hfinal : A.finalPath = A'.finalPath)
    (answers : List (Except Errno Nat)) :
    flushRun A src d answers = flushRun A' src d answers := by
  have hstep : flushStep A src = flushStep A' src := by
    funext x ans
    obtain ⟨pc, d₁⟩ := x
    cases pc <;> cases ans <;> simp only [flushStep, htmp, hfinal]
  rw [flushRun, flushRun, hstep, flushStart_congr hsync hsync']

theorem same_effect_of_sameTarget (hsync : A.syncDir = some dir) (hsync' : A'.syncDir = some dir')
    (htmp : A.tmpPath = A'.tmpPath) (hsame : SameTarget A A' src d)
    (answers : List (Except Errno Nat)) :
    (flushRun A src d answers).2 = (flushRun A' src d answers).2 := by
  rcases hsame with hfinal | ⟨hb, hb'⟩ | ⟨hs, hs'⟩
  · rw [flushRun_congr hsync hsync' htmp hfinal]
  · exact (inStep_run hsync hsync' htmp (Or.inl hb) (Or.inl hb')
      (Or.inr (Or.inl ⟨hb, hb'⟩)) answers).1
  · exact (inStep_run hsync hsync' htmp (Or.inr hs) (Or.inr hs')
      (Or.inr (Or.inr ⟨hs, hs'⟩)) answers).1

end Lockstep

/-- A flush of a file that is not empty has the effect of another exactly when that one copies
the same bytes through the same temporary path to a target that makes no difference. -/
theorem same_effect_iff {A A' : FlushArgs} {src src' : Bytes} {d : Disk}
    (hsync : A.syncDir ≠ none) (hdir : d A.tmpPath ≠ some .dir) (hsrc : src ≠ []) :
    (∀ answers, (flushRun A src d answers).2 = (flushRun A' src' d answers).2) ↔
      A'.syncDir ≠ none ∧ A.tmpPath = A'.tmpPath ∧ src' = src ∧ SameTarget A A' src d := by
  obtain ⟨dir, hdirname⟩ := Option.ne_none_iff_exists'.mp hsync
  constructor
  · intro h
    obtain ⟨hsync', htmp⟩ := same_tmp_of_same_effect hdirname hdir hsrc h
    obtain ⟨dir', hdirname'⟩ := Option.ne_none_iff_exists'.mp hsync'
    obtain rfl := same_content_of_same_effect hdirname hdirname' hdir htmp h
    exact ⟨hsync', htmp, rfl, sameTarget_of_same_effect hdirname hdirname' hdir htmp h⟩
  · rintro ⟨hsync', htmp, rfl, hsame⟩ answers
    obtain ⟨dir', hdirname'⟩ := Option.ne_none_iff_exists'.mp hsync'
    exact same_effect_of_sameTarget hdirname hdirname' htmp hsame answers

/-! ## A flush without effect -/

/-- The flush is refused, or finds the empty copy of its empty file and cannot move it. -/
def Idle (A : FlushArgs) (src : Bytes) (d : Disk) : Prop :=
  A.syncDir = none ∨ d A.tmpPath = some .dir ∨
    d A.tmpPath = some (.file []) ∧ src = [] ∧ Blocked A d

/-- With the copy in place from the start a blocked flush of an empty file keeps the disk. -/
theorem FlushEffect.idle {A : FlushArgs} {d d' : Disk} {pc pc' : FlushPc}
    (he : FlushEffect A [] d pc pc' d') (hcopy : Copied A [] d d) (hb : Blocked A d)
    (hread : ∀ pos buf, pc ≠ .write pos buf) :
    d' = d ∧ ∀ pos buf, pc' ≠ .write pos buf := by
  cases he with
  | called =>
      rename_i c
      exact ⟨rfl, by cases c <;> simp [FlushCall.next]⟩
  | opened hdir => exact ⟨by rw [← hcopy.tmp, Function.update_eq_self], by simp⟩
  | didRead hbuf => simp [kernelRead, readAt] at hbuf
  | wroteShort => exact absurd rfl (hread _ _)
  | wrote => exact absurd rfl (hread _ _)
  | touched hnone => exact absurd hnone (hcopy.final_present (Or.inl hb))
  | renamed ht hfree hne => exact absurd (hb.resolve_left hne) hfree
  | stopped => exact ⟨rfl, hread⟩
  | _ => exact ⟨rfl, by simp⟩

theorem no_effect_of_idle {A : FlushArgs} {src : Bytes} {d : Disk} (h : Idle A src d)
    (answers : List (Except Errno Nat)) : (flushRun A src d answers).2 = d := by
  rcases h with hsync | hdir | ⟨htmp, rfl, hb⟩
  · exact flushRun_refused (Or.inl hsync) answers
  · exact flushRun_refused (Or.inr hdir) answers
  · have hinv := @flushRun_invariant A [] d
      (fun pc d' => d' = d ∧ ∀ pos buf, pc ≠ .write pos buf) ?_ ?_ answers
    · exact hinv.1
    · refine ⟨rfl, ?_⟩
      rcases flushStart_cases A with hstart | hstart <;> simp [hstart]
    · rintro pc pc' d₁ d₂ ⟨rfl, hread⟩ he
      exact he.idle ⟨htmp, fun _ _ => rfl⟩ hb hread

/-- An open temporary file was there before and empty, if nothing is to change. -/
theorem tmp_empty_of_no_effect {A : FlushArgs} {src : Bytes} {d : Disk} {dir : CString}
    (hsync : A.syncDir = some dir) (hdir : d A.tmpPath ≠ some .dir)
    (h : (flushRun A src d (List.replicate 6 (.ok 0))).2 = d) :
    d A.tmpPath = some (.file []) := by
  rw [flushRun_opened hsync hdir] at h
  have htmp : Function.update d A.tmpPath (some (.file [])) A.tmpPath = d A.tmpPath :=
    congrFun h A.tmpPath
  rw [Function.update_self] at htmp
  exact htmp.symm

theorem no_effect_iff {A : FlushArgs} {src : Bytes} {d : Disk} :
    (∀ answers, (flushRun A src d answers).2 = d) ↔ Idle A src d := by
  constructor
  · intro h
    by_contra hno
    simp only [Idle, not_or] at hno
    obtain ⟨hsync, hdir, hmoves⟩ := hno
    obtain ⟨dir, hdirname⟩ := Option.ne_none_iff_exists'.mp hsync
    have htmp := tmp_empty_of_no_effect hdirname hdir (h _)
    have hsrc : src = [] := by
      by_contra hsrc
      have hshows := first_chunk_shows hdirname hdir hsrc
      rw [h, h] at hshows
      exact hshows rfl
    refine hmoves ⟨htmp, hsrc, ?_⟩
    by_contra hb
    -- the rename would take the temporary file away
    obtain ⟨answers, d₁, hrun⟩ := @flushRun_touch A src d dir hdirname hdir
    have hmoved := h (answers ++ [.error enoent, .ok 0, .ok 0, .ok 0])
    rw [flushRun_append, hrun] at hmoved
    change (d₁.rename A.tmpPath A.finalPath).1 = d at hmoved
    rw [rename_moves (copied_of_touch hrun) hb] at hmoved
    have hgone := congrFun hmoved A.tmpPath
    rw [Function.update_self, htmp] at hgone
    cases hgone
  · exact no_effect_of_idle

/-! ## A flush that cannot read -/

/-- The answers to a flush of a directory: `kernel_read` refuses it. -/
def failRead (answers : List (Except Errno Nat)) : List (Except Errno Nat) :=
  answers.take 6 ++ if 6 < answers.length then [.error einval] else []

/-- Its copy stays empty, so it never has the effect of the flush of a file with content. -/
theorem effect_ne_of_failRead {A : FlushArgs} {src : Bytes} {d : Disk} (hsync : A.syncDir ≠ none)
    (hdir : d A.tmpPath ≠ some .dir) (hsrc : src ≠ []) (A' : FlushArgs) :
    ¬ ∀ answers, (flushRun A src d answers).2 = (flushRun A' [] d (failRead answers)).2 := by
  intro h
  obtain ⟨dir, hdirname⟩ := Option.ne_none_iff_exists'.mp hsync
  have hshows := first_chunk_shows hdirname hdir hsrc
  rw [h, h] at hshows
  have hsame : (flushRun A' [] d (failRead (chunkAnswers 0))).2 =
      (flushRun A' [] d (failRead (chunkAnswers 1))).2 := by
    have hlast : failRead (chunkAnswers 1) = failRead (chunkAnswers 0) ++ [.error einval] := by
      decide
    by_cases hrefused : A'.syncDir = none ∨ d A'.tmpPath = some .dir
    · rw [flushRun_refused hrefused, flushRun_refused hrefused]
    · obtain ⟨hsync', hdir'⟩ := not_or.mp hrefused
      obtain ⟨dir', hdirname'⟩ := Option.ne_none_iff_exists'.mp hsync'
      have hopened : flushRun A' [] d (failRead (chunkAnswers 0)) =
          (.read 0, Function.update d A'.tmpPath (some (.file []))) :=
        flushRun_opened hdirname' hdir'
      rw [hlast, flushRun_append, hopened]
      rfl
  exact hshows (by rw [hsame])

def FlushPc.taken : FlushPc → Nat
  | .call .allocPathBuf => 0
  | .call .dPath => 1
  | .call .allocPaths => 2
  | .openTmp => 3
  | .call .copyPathBufs => 4
  | .call .copyBuf => 5
  | .done _ => 0
  | _ => 6

/-- Before its first read a flush can only empty the temporary file. -/
theorem FlushEffect.before_read {A : FlushArgs} {src : Bytes} {d d' : Disk} {pc pc' : FlushPc}
    (he : FlushEffect A src d pc pc' d') (hempty : d A.tmpPath = some (.file []))
    (hpc : pc.taken < 6) : d' = d ∧ pc'.taken ≤ pc.taken + 1 := by
  cases he with
  | called =>
      rename_i c
      exact ⟨rfl, by cases c <;> simp [FlushCall.next, FlushPc.taken]⟩
  | failed => exact ⟨rfl, Nat.zero_le _⟩
  | opened hdir => exact ⟨by rw [← hempty, Function.update_eq_self], Nat.le_refl 4⟩
  | stopped => exact ⟨rfl, Nat.zero_le _⟩
  | _ => exact absurd hpc (Nat.lt_irrefl 6)

theorem flushRun_before_read {A : FlushArgs} {src : Bytes} {d : Disk}
    (hempty : d A.tmpPath = some (.file [])) {answers : List (Except Errno Nat)}
    (hlen : answers.length ≤ 6) :
    (flushRun A src d answers).2 = d ∧ (flushRun A src d answers).1.taken ≤ answers.length := by
  induction answers using List.reverseRecOn with
  | nil =>
      refine ⟨rfl, ?_⟩
      rcases flushStart_cases A with h | h
      · exact Nat.le_of_eq (congrArg FlushPc.taken h)
      · exact Nat.le_of_eq (congrArg FlushPc.taken h)
  | append_singleton answers ans ih =>
      rw [List.length_append, List.length_singleton] at hlen ⊢
      obtain ⟨hdisk, htaken⟩ := ih (by omega)
      have he :=
        flushStep_effect A src (flushRun A src d answers).1 (flushRun A src d answers).2 ans
      obtain ⟨hdisk', htaken'⟩ := he.before_read (by rw [hdisk]; exact hempty) (by omega)
      rw [flushRun_append]
      exact ⟨hdisk'.trans hdisk, Nat.le_trans htaken' (Nat.succ_le_succ htaken)⟩

theorem flushStep_error (A : FlushArgs) (src : Bytes) (x : FlushPc × Disk) (e : Errno) :
    (flushStep A src x (.error e)).2 = x.2 := by
  obtain ⟨pc, d⟩ := x
  cases pc <;> rfl

theorem failRead_no_effect_iff {A : FlushArgs} {d : Disk} :
    (∀ answers, (flushRun A [] d (failRead answers)).2 = d) ↔
      A.syncDir = none ∨ d A.tmpPath = some .dir ∨ d A.tmpPath = some (.file []) := by
  constructor
  · intro h
    by_contra hno
    simp only [not_or] at hno
    obtain ⟨hsync, hdir, hempty⟩ := hno
    obtain ⟨dir, hdirname⟩ := Option.ne_none_iff_exists'.mp hsync
    exact hempty (tmp_empty_of_no_effect hdirname hdir (h (List.replicate 6 (.ok 0))))
  · rintro (hsync | hdir | hempty) answers
    · exact flushRun_refused (Or.inl hsync) _
    · exact flushRun_refused (Or.inr hdir) _
    · have hbefore := (@flushRun_before_read A [] d hempty (answers.take 6)
        (List.length_take_le 6 answers)).1
      rw [failRead, flushRun_append]
      split_ifs
      · exact (flushStep_error A [] _ einval).trans hbefore
      · exact hbefore

end OShm.Ramfs
