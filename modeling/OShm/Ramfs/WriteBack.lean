import OShm.Lib.Transition
import OShm.Ramfs.Flush

/-! # Several writers of one file

`ramfs_file_write_iter` writes under the inode lock and flushes after it has let the
lock go. The flushes of several writers then interleave call by call with each other
and with later writes. What the target holds at the end is what the last rename
brought, so that rename has to bring a copy that was read after the last write.
-/

namespace OShm.Ramfs

open OShm.Kernel OShm.Lib OShm.Lib.ByteFile

/-- The writers of one file: each has a temporary file of its own. -/
structure Writers (n : Nat) where
  args : Fin n → FlushArgs
  target : CString
  target_eq : ∀ i, (args i).finalPath = target
  tmp_ne : ∀ i, (args i).tmpPath ≠ target
  tmp_inj : ∀ i j, i ≠ j → (args i).tmpPath ≠ (args j).tmpPath

structure WriterState where
  /-- Where its flush is, once it has written. -/
  pc : Option FlushPc
  /-- The number of writes to the file when the flush began to read. -/
  readFrom : Nat

structure WriteState (n : Nat) where
  content : Bytes
  /-- How many writes the file has seen. -/
  writes : Nat
  disk : Disk
  writer : Fin n → WriterState

inductive WriteAction (n : Nat) where
  /-- `generic_file_write_iter` of some bytes. -/
  | write (i : Fin n) (pos : Nat) (buf : Bytes)
  /-- One call of the flush. -/
  | flush (i : Fin n) (ans : Except Errno Nat)

def FlushPc.early : FlushPc → Bool
  | .call c => c.phase != .copied
  | .openTmp => true
  | .read pos => pos = 0
  | _ => false

namespace WriteState

variable {n : Nat}

def Returned (s : WriteState n) (i : Fin n) : Prop := (s.writer i).pc = some (.done (.ok ()))

def step (W : Writers n) (s : WriteState n) : WriteAction n → Option (WriteState n × Unit)
  | .write i pos buf =>
      match (s.writer i).pc, buf with
      | none, _ :: _ =>
          some ({ s with
            content := writeAt 0 s.content pos buf
            writes := s.writes + 1
            writer := Function.update s.writer i
              ⟨some (flushStart (W.args i)), (s.writer i).readFrom⟩ }, ())
      | _, _ => none
  | .flush i ans =>
      match (s.writer i).pc with
      | none => none
      | some (.done _) => none
      | some pc =>
          let r := flushStep (W.args i) s.content (pc, s.disk) ans
          some ({ s with
            disk := r.2
            writer := Function.update s.writer i
              ⟨some r.1, if pc.early then s.writes else (s.writer i).readFrom⟩ }, ())

end WriteState

def writeBack {n : Nat} (W : Writers n) : System (WriteState n) (WriteAction n) Unit :=
  ⟨WriteState.step W⟩

namespace WriteState

variable {n : Nat}

structure Initial (s : WriteState n) : Prop where
  pc : ∀ i, (s.writer i).pc = none
  readFrom : ∀ i, (s.writer i).readFrom ≤ s.writes

/-- Once all writers have returned, the target holds the file. -/
def Persisted (W : Writers n) (s : WriteState n) : Prop :=
  (∀ i, s.Returned i) → s.disk W.target = some (.file s.content)

/-- A rename that no other can follow is of a flush that began to read after the last
write. -/
def LastRenameFresh (s : WriteState n) : WriteAction n → Prop
  | .flush i _ => (s.writer i).pc = some .rename → (∀ j, j ≠ i → s.Returned j) →
      (s.writer i).readFrom = s.writes
  | _ => True

/-! ## What a step can do -/

inductive Steps (W : Writers n) (s : WriteState n) : WriteAction n → WriteState n → Prop where
  | wrote {i : Fin n} {pos : Nat} {buf : Bytes} (hpc : (s.writer i).pc = none) :
      Steps W s (.write i pos buf)
        ⟨writeAt 0 s.content pos buf, s.writes + 1, s.disk, Function.update s.writer i
          ⟨some (flushStart (W.args i)), (s.writer i).readFrom⟩⟩
  | flushed {i : Fin n} {ans : Except Errno Nat} {pc pc' : FlushPc} {d : Disk}
      (hpc : (s.writer i).pc = some pc) (hrun : ∀ r, pc ≠ .done r)
      (he : FlushEffect (W.args i) s.content s.disk pc pc' d) :
      Steps W s (.flush i ans)
        ⟨s.content, s.writes, d, Function.update s.writer i
          ⟨some pc', if pc.early then s.writes else (s.writer i).readFrom⟩⟩

theorem step_cases {W : Writers n} {s s' : WriteState n} {a : WriteAction n} {e : Unit}
    (h : (writeBack W).step s a = some (s', e)) : s.Steps W a s' := by
  change s.step W a = some (s', e) at h
  cases a with
  | write i pos buf =>
      cases hpc : (s.writer i).pc with
      | some pc => simp [WriteState.step, hpc] at h
      | none =>
          cases buf with
          | nil => simp [WriteState.step, hpc] at h
          | cons b buf =>
              obtain rfl : _ = s' := by simpa [WriteState.step, hpc] using h
              exact .wrote hpc
  | flush i ans =>
      cases hpc : (s.writer i).pc with
      | none => simp [WriteState.step, hpc] at h
      | some pc =>
          by_cases hrun : ∃ r, pc = .done r
          · obtain ⟨r, rfl⟩ := hrun
            simp [WriteState.step, hpc] at h
          · have hdone : ∀ r, pc ≠ .done r := fun r hr => hrun ⟨r, hr⟩
            have he := flushStep_effect (W.args i) s.content pc s.disk ans
            have hstep : s.step W (.flush i ans) =
                some (⟨s.content, s.writes, (flushStep (W.args i) s.content (pc, s.disk) ans).2,
                  Function.update s.writer i
                    ⟨some (flushStep (W.args i) s.content (pc, s.disk) ans).1,
                      if pc.early then s.writes else (s.writer i).readFrom⟩⟩, ()) := by
              cases pc with
              | done r => exact absurd rfl (hdone r)
              | _ => simp [WriteState.step, hpc]
            rw [hstep] at h
            obtain rfl : _ = s' := congrArg Prod.fst (Option.some.inj h)
            exact .flushed hpc hdone he

/-! ## What every step keeps -/

theorem tmpAt_of_early {src src' : Bytes} {pc : FlushPc} {node : Option Node}
    (hearly : pc.early = true) (h : TmpAt src pc node) : TmpAt src' pc node := by
  cases pc with
  | call c => cases c <;> simp_all [FlushPc.early, FlushCall.phase, TmpAt]
  | openTmp => trivial
  | read pos =>
      obtain rfl : pos = 0 := by simpa [FlushPc.early] using hearly
      exact ⟨Nat.zero_le _, h.2⟩
  | write pos buf => cases hearly
  | touch => cases hearly
  | rename => cases hearly
  | done r => cases hearly

theorem late_of_late {A : FlushArgs} {src : Bytes} {d d' : Disk} {pc pc' : FlushPc}
    (he : FlushEffect A src d pc pc' d') (hlate : pc.early = false)
    (hbuf : ∀ pos buf, pc = .write pos buf → buf ≠ []) : pc'.early = false := by
  cases he with
  | called =>
      rename_i c
      cases c <;> simp_all [FlushPc.early, FlushCall.phase, FlushCall.next]
  | opened hdir => cases hlate
  | wrote =>
      rename_i pos buf
      have hlen : buf.length ≠ 0 := fun h => hbuf pos buf rfl (List.eq_nil_of_length_eq_zero h)
      exact decide_eq_false (by omega)
  | _ => rfl

theorem buf_ne_nil {A : FlushArgs} {src : Bytes} {d d' : Disk} {pc pc' : FlushPc}
    (he : FlushEffect A src d pc pc' d') {pos : Nat} {buf : Bytes} (h : pc' = .write pos buf) :
    buf ≠ [] := by
  cases he with
  | called =>
      rename_i c
      cases c <;> simp [FlushCall.next] at h
  | didRead hbuf =>
      obtain ⟨rfl, rfl⟩ : _ = pos ∧ _ = buf := by simpa using h
      exact hbuf
  | _ => cases h

structure Tracked (W : Writers n) (s : WriteState n) : Prop where
  bound : ∀ i, (s.writer i).readFrom ≤ s.writes
  buf : ∀ i pos buf, (s.writer i).pc = some (.write pos buf) → buf ≠ []
  /-- A flush that has read since the last write copies the file as it is now. -/
  tmp : ∀ i pc, (s.writer i).pc = some pc →
    pc.early = true ∨ (s.writer i).readFrom = s.writes →
    TmpAt s.content pc (s.disk (W.args i).tmpPath)
  persisted : s.Persisted W

theorem Initial.tracked {W : Writers n} {s : WriteState n} (hn : 0 < n) (h : s.Initial) :
    s.Tracked W where
  bound := h.readFrom
  buf i pos buf hpc := by simp [h.pc] at hpc
  tmp i pc hpc := by simp [h.pc] at hpc
  persisted hall := by
    have hret := hall ⟨0, hn⟩
    simp [Returned, h.pc] at hret

/-- A write makes the copies of all flushes that have read stale. -/
theorem Tracked.write {W : Writers n} {s : WriteState n} (ht : s.Tracked W) {i : Fin n}
    (pos : Nat) (buf : Bytes) (hpc : (s.writer i).pc = none) :
    Tracked W ⟨writeAt 0 s.content pos buf, s.writes + 1, s.disk, Function.update s.writer i
      ⟨some (flushStart (W.args i)), (s.writer i).readFrom⟩⟩ := by
  have hbound := ht.bound
  refine ⟨?_, ?_, ?_, ?_⟩
  · intro j
    by_cases hj : j = i
    · subst hj
      simpa using Nat.le_succ_of_le (hbound j)
    · simpa [hj] using Nat.le_succ_of_le (hbound j)
  · intro j p b hp
    by_cases hj : j = i
    · subst hj
      simp only [Function.update_self, Option.some.injEq] at hp
      rcases flushStart_cases (W.args j) with h | h <;> rw [h] at hp <;> cases hp
    · exact ht.buf j p b (by simpa [hj] using hp)
  · intro j pc hp hcond
    by_cases hj : j = i
    · subst hj
      obtain rfl : flushStart (W.args j) = pc := by simpa using hp
      exact tmpAt_start _ _ _
    · simp only [Function.update_of_ne hj] at hp hcond
      have hearly : pc.early = true := by
        refine hcond.resolve_right ?_
        have := hbound j
        omega
      exact tmpAt_of_early hearly (ht.tmp j pc hp (Or.inl hearly))
  · intro hall
    have hret := hall i
    simp only [Returned, Function.update_self, Option.some.injEq] at hret
    rcases flushStart_cases (W.args i) with h | h <;> rw [h] at hret <;> cases hret

theorem Tracked.flush {W : Writers n} {s : WriteState n} (ht : s.Tracked W) {i : Fin n}
    {ans : Except Errno Nat} {pc pc' : FlushPc} {d : Disk} (hpc : (s.writer i).pc = some pc)
    (hrun : ∀ r, pc ≠ .done r) (he : FlushEffect (W.args i) s.content s.disk pc pc' d)
    (hfresh : s.LastRenameFresh (.flush i ans)) :
    Tracked W ⟨s.content, s.writes, d, Function.update s.writer i
      ⟨some pc', if pc.early then s.writes else (s.writer i).readFrom⟩⟩ := by
  have hbound := ht.bound
  have hown : pc.early = true ∨ (s.writer i).readFrom = s.writes →
      TmpAt s.content pc' (d (W.args i).tmpPath) := fun hcond => he.tmpAt (ht.tmp i pc hpc hcond)
  refine ⟨?_, ?_, ?_, ?_⟩
  · intro j
    by_cases hj : j = i
    · subst hj
      by_cases hearly : pc.early = true
      · simp [hearly]
      · simpa [hearly] using hbound j
    · simpa [hj] using hbound j
  · intro j p b hp
    by_cases hj : j = i
    · subst hj
      exact buf_ne_nil he (by simpa using hp)
    · exact ht.buf j p b (by simpa [hj] using hp)
  · intro j q hq hcond
    by_cases hj : j = i
    · subst hj
      obtain rfl : pc' = q := by simpa using hq
      by_cases hearly : pc.early = true
      · exact hown (Or.inl hearly)
      · have hlate : pc'.early = false :=
          late_of_late he (by simpa using hearly) fun p b h => ht.buf j p b (by rw [hpc, h])
        refine hown (Or.inr ?_)
        simpa [hlate, hearly] using hcond
    · simp only [Function.update_of_ne hj] at hq hcond
      have hframe : d (W.args j).tmpPath = s.disk (W.args j).tmpPath :=
        he.frame (W.tmp_inj j i hj) (by rw [W.target_eq]; exact W.tmp_ne j)
      change TmpAt s.content q (d (W.args j).tmpPath)
      rw [hframe]
      exact ht.tmp j q hq hcond
  · intro hall
    have hpc' : pc' = .done (.ok ()) := by
      have hret := hall i
      simpa [Returned] using hret
    have hothers : ∀ j, j ≠ i → s.Returned j := by
      intro j hj
      have hret := hall j
      simpa [Returned, hj] using hret
    rcases he.finished hpc' with ⟨rfl, -⟩ | ⟨rfl, hinstall⟩
    · exact absurd rfl (hrun _)
    · have hcopy := ht.tmp i .rename hpc (Or.inr (hfresh hpc hothers))
      rw [W.target_eq] at hinstall
      exact hinstall.trans hcopy

theorem Tracked.step {W : Writers n} {s s' : WriteState n} {a : WriteAction n} {e : Unit}
    (ht : s.Tracked W) (hfresh : s.LastRenameFresh a)
    (h : (writeBack W).step s a = some (s', e)) : s'.Tracked W := by
  cases step_cases h with
  | wrote hpc => exact ht.write _ _ hpc
  | flushed hpc hrun he => exact ht.flush hpc hrun he hfresh

theorem Initial.tracked_run {W : Writers n} (hn : 0 < n) {s₀ s : WriteState n}
    {acts : List (WriteAction n)} {tr : List Unit} (h₀ : s₀.Initial)
    (hfresh : (writeBack W).Along LastRenameFresh s₀ acts)
    (hr : (writeBack W).run s₀ acts = some (s, tr)) : s.Tracked W :=
  (writeBack W).along_invariant (fun ht hp h => Tracked.step ht hp h) (h₀.tracked hn) hfresh hr

end WriteState

/-- Along every run whose last rename is fresh, the target holds the final content of
the file once all writers have returned. -/
theorem no_lost_writeBack {n : Nat} (W : Writers n) (hn : 0 < n) {s₀ : WriteState n}
    {acts : List (WriteAction n)} (h₀ : s₀.Initial)
    (hfresh : (writeBack W).Along WriteState.LastRenameFresh s₀ acts) :
    (writeBack W).Throughout (WriteState.Persisted W) s₀ acts := by
  intro pre hpre s tr hr
  obtain ⟨post, rfl⟩ := hpre
  exact (h₀.tracked_run hn hfresh.left hr).persisted

def twoWriters : Writers 2 where
  args i := ⟨some (ascii "/p"), ascii "/r/x", 1, 2, 3 + i⟩
  target := ascii "/p/x"
  target_eq := by decide
  tmp_ne := by decide
  tmp_inj := by decide

def emptyFile : WriteState 2 := ⟨[], 0, fun _ => none, fun _ => ⟨none, 0⟩⟩

def calls (i : Fin 2) (k : Nat) : List (WriteAction 2) := List.replicate k (.flush i (.ok 1))

def oneByOne : List (WriteAction 2) :=
  .write 0 0 [1] :: (calls 0 17 ++ .write 1 0 [2] :: calls 1 17)

theorem oneByOne_fresh :
    (writeBack twoWriters).Along WriteState.LastRenameFresh emptyFile oneByOne := by
  refine ⟨trivial, ?_⟩
  rintro _ _ ⟨⟩
  iterate 16
    refine ⟨nofun, ?_⟩
    rintro _ _ ⟨⟩
  refine ⟨fun _ _ => rfl, ?_⟩
  rintro _ _ ⟨⟩
  refine ⟨trivial, ?_⟩
  rintro _ _ ⟨⟩
  iterate 16
    refine ⟨nofun, ?_⟩
    rintro _ _ ⟨⟩
  exact ⟨fun _ _ => rfl, fun _ _ _ => trivial⟩

theorem no_lost_writeBack_oneByOne :
    (∃ s tr, (writeBack twoWriters).run emptyFile oneByOne = some (s, tr) ∧ s.content = [2] ∧
      ∀ i, s.Returned i) ∧
    (writeBack twoWriters).Throughout (WriteState.Persisted twoWriters) emptyFile oneByOne :=
  ⟨⟨_, _, rfl, rfl, fun i => match i with | 0 => rfl | 1 => rfl⟩,
    no_lost_writeBack twoWriters (by decide) ⟨fun _ => rfl, fun _ => le_rfl⟩ oneByOne_fresh⟩

/-- The first writer stops before its rename until the second has returned. -/
def staleRename : List (WriteAction 2) :=
  .write 0 0 [1] :: (calls 0 16 ++ .write 1 0 [2] :: (calls 1 17 ++ calls 0 1))

/-- The file holds `[2]` and the target `[1]`. -/
theorem stale_rename_loses_write :
    ¬ ∀ (n : Nat) (W : Writers n) (s₀ : WriteState n) (acts : List (WriteAction n)), 0 < n →
      s₀.Initial → (writeBack W).Throughout (WriteState.Persisted W) s₀ acts := by
  intro h
  have hp := h 2 twoWriters emptyFile staleRename (by decide) ⟨fun _ => rfl, fun _ => le_rfl⟩
    staleRename List.prefix_rfl _ _ rfl
  have hfinal := hp fun i => match i with | 0 => rfl | 1 => rfl
  exact absurd hfinal (by decide)

end OShm.Ramfs
