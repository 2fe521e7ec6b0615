import OShm.Ramfs.Flush

/-! # `copy_file_content`

The loop keeps one position for each file and trusts that they stay equal. Each turn is given
what `kernel_read` and `kernel_write` answer in it; the source does not change meanwhile and
the destination was opened with `O_TRUNC`.
-/

namespace OShm.Ramfs.CopyContent

open OShm.Kernel OShm.Lib.ByteFile

/-- The error number of a call that failed. -/
abbrev Failure := { e : Errno // 0 < e }

def Failure.ret (e : Failure) : Int := -(e.val : Int)

theorem Failure.ret_neg (e : Failure) : e.ret < 0 :=
  Int.neg_neg_of_pos (Int.natCast_pos.mpr e.property)

/-- The answers of one turn: how many bytes the read and the write may move. -/
structure TurnAnswers where
  read : Except Failure Nat
  write : Except Failure Nat

structure CopyState where
  srcPos : Nat
  dstPos : Nat
  dst : Bytes
  deriving DecidableEq, Repr

inductive Turn where
  | again (st : CopyState)
  /-- `break` with `ret`. -/
  | leave (ret : Int) (st : CopyState)
  deriving DecidableEq, Repr

/-- `kernel_write` of at most `n` bytes of the buffer. -/
def CopyState.write (st : CopyState) (buf : Bytes) (n : Nat) : CopyState :=
  { st with
    dstPos := st.dstPos + (buf.take n).length
    dst := writeAt 0 st.dst st.dstPos (buf.take n) }

def copyTurn (src : Bytes) (a : TurnAnswers) (st : CopyState) : Turn :=
  match a.read with
  | .error e => .leave e.ret st
  | .ok n =>
      let buf := kernelRead src st.srcPos n
      if buf.length = 0 then .leave 0 st
      else
        let st := { st with srcPos := st.srcPos + buf.length }
        match a.write with
        | .error e => .leave e.ret st
        | .ok n =>
            if (buf.take n).length < buf.length then .leave (-(eio : Int)) (st.write buf n)
            else .again (st.write buf n)

/-- The loop from turn `i` on; `none` when the fuel does not last. -/
def copyLoop (src : Bytes) (turns : Nat → TurnAnswers) : Nat → Nat → CopyState →
    Option (Int × Bytes)
  | 0, _, _ => none
  | fuel + 1, i, st =>
      match copyTurn src (turns i) st with
      | .leave ret st => some (ret, st.dst)
      | .again st => copyLoop src turns fuel (i + 1) st

inductive Buffer where
  | srcPath
  | dstPath
  | copy
  deriving DecidableEq, Repr

/-- The answers of the kernel to one call of `copy_file_content`. -/
structure Answers where
  allocated : Buffer → Bool
  turns : Nat → TurnAnswers
  fsync : Except Failure Unit

structure Outcome where
  ret : Int
  dst : Bytes
  /-- The buffers that nobody frees. -/
  leaked : List Buffer
  deriving DecidableEq, Repr

def finishCopy (A : Answers) (ret : Int) (dst : Bytes) : Outcome :=
  if ret = 0 then
    match A.fsync with
    | .error e => ⟨e.ret, dst, []⟩
    | .ok () => ⟨0, dst, []⟩
  else ⟨ret, dst, []⟩

/-- `copy_file_content` to an empty file. `d_path` is only asked for the log. -/
def copyFileContent (fuel : Nat) (src : Bytes) (A : Answers) : Option Outcome :=
  if !A.allocated .srcPath || !A.allocated .dstPath then some ⟨-(enomem : Int), [], []⟩
  else if !A.allocated .copy then
    -- the only `return` that does not pass `cleanup_paths`
    some ⟨-(enomem : Int), [], [.srcPath, .dstPath]⟩
  else
    (copyLoop src A.turns fuel 0 ⟨0, 0, []⟩).map fun (ret, dst) => finishCopy A ret dst

/-! ## What a turn can do -/

inductive TurnEffect (src : Bytes) (a : TurnAnswers) (st : CopyState) : Turn → Prop where
  | readFailed {e : Failure} (hr : a.read = .error e) : TurnEffect src a st (.leave e.ret st)
  | ended {n : Nat} (hr : a.read = .ok n) (hnil : kernelRead src st.srcPos n = []) :
      TurnEffect src a st (.leave 0 st)
  | writeFailed {n : Nat} {e : Failure} (hr : a.read = .ok n)
      (hbuf : kernelRead src st.srcPos n ≠ []) (hw : a.write = .error e) :
      TurnEffect src a st
        (.leave e.ret { st with srcPos := st.srcPos + (kernelRead src st.srcPos n).length })
  | wroteShort {n w : Nat} {st' : CopyState} (hr : a.read = .ok n) (hw : a.write = .ok w)
      (hshort : w < (kernelRead src st.srcPos n).length) :
      TurnEffect src a st (.leave (-(eio : Int)) st')
  | wrote {n w : Nat} (hr : a.read = .ok n) (hw : a.write = .ok w)
      (hbuf : kernelRead src st.srcPos n ≠ [])
      (hall : (kernelRead src st.srcPos n).length ≤ w) :
      TurnEffect src a st
        (.again ⟨st.srcPos + (kernelRead src st.srcPos n).length,
          st.dstPos + (kernelRead src st.srcPos n).length,
          writeAt 0 st.dst st.dstPos (kernelRead src st.srcPos n)⟩)

theorem copyTurn_effect (src : Bytes) (a : TurnAnswers) (st : CopyState) :
    TurnEffect src a st (copyTurn src a st) := by
  unfold copyTurn
  cases hr : a.read with
  | error e => exact .readFailed hr
  | ok n =>
      simp only
      split_ifs with hlen
      · exact .ended hr (List.length_eq_zero_iff.mp hlen)
      · have hbuf : kernelRead src st.srcPos n ≠ [] := fun h => hlen (by rw [h]; rfl)
        cases hw : a.write with
        | error e => exact .writeFailed hr hbuf hw
        | ok w =>
            simp only
            split_ifs with hshort
            · refine .wroteShort hr hw ?_
              rw [List.length_take] at hshort
              omega
            · have hall : (kernelRead src st.srcPos n).length ≤ w := by
                rw [List.length_take] at hshort
                omega
              have heffect := TurnEffect.wrote hr hw hbuf hall
              rwa [CopyState.write, List.take_of_length_le hall]

/-! ## Loop heads -/

inductive Head (src : Bytes) (turns : Nat → TurnAnswers) : Nat → CopyState → Prop where
  | start : Head src turns 0 ⟨0, 0, []⟩
  | next {i : Nat} {st st' : CopyState} (h : Head src turns i st)
      (hturn : copyTurn src (turns i) st = .again st') : Head src turns (i + 1) st'

/-- Both files are at one position and the destination is the source up to there. -/
structure Synced (src : Bytes) (st : CopyState) : Prop where
  positions : st.dstPos = st.srcPos
  bound : st.srcPos ≤ src.length
  content : st.dst = src.take st.srcPos

theorem Synced.again {src : Bytes} {a : TurnAnswers} {st st' : CopyState} (hs : Synced src st)
    (h : copyTurn src a st = .again st') : Synced src st' ∧ st.srcPos < st'.srcPos := by
  have he := copyTurn_effect src a st
  rw [h] at he
  cases he with
  | wrote hr hw hbuf hall =>
      rename_i n w
      have hpos := List.length_pos_iff.mpr hbuf
      refine ⟨⟨?_, readAt_length_le src _ _ hs.bound, ?_⟩, Nat.lt_add_of_pos_right hpos⟩
      · rw [hs.positions]
      · rw [hs.content, hs.positions]
        exact writeAt_take 0 src st.srcPos _ hs.bound

theorem Head.synced {src : Bytes} {turns : Nat → TurnAnswers} {i : Nat} {st : CopyState}
    (h : Head src turns i st) : Synced src st ∧ i ≤ st.srcPos := by
  induction h with
  | start => exact ⟨⟨rfl, Nat.zero_le _, rfl⟩, Nat.le_refl 0⟩
  | next h hturn ih =>
      obtain ⟨hs, hlt⟩ := ih.1.again hturn
      exact ⟨hs, by omega⟩

/-- The loop leaves from a head, and more fuel than there are bytes to go is enough. -/
theorem copyLoop_leaves {src : Bytes} {turns : Nat → TurnAnswers} {i : Nat} {st : CopyState}
    (h : Head src turns i st) :
    ∃ j head ret st', Head src turns j head ∧ copyTurn src (turns j) head = .leave ret st' ∧
      ∀ fuel, src.length < i + fuel → copyLoop src turns fuel i st = some (ret, st'.dst) := by
  generalize hleft : src.length - i = left
  induction left using Nat.strongRecOn generalizing i st with
  | ind left ih =>
      obtain ⟨hs, hi⟩ := h.synced
      have hbound := hs.bound
      cases hturn : copyTurn src (turns i) st with
      | leave ret st' =>
          refine ⟨i, st, ret, st', h, hturn, ?_⟩
          intro fuel hfuel
          obtain ⟨fuel, rfl⟩ := Nat.exists_eq_succ_of_ne_zero (n := fuel) (by omega)
          simp only [copyLoop, hturn]
      | again st' =>
          have hnext := h.next hturn
          have hi' := hnext.synced.2
          have hbound' := hnext.synced.1.bound
          obtain ⟨j, head, ret, stop, hhead, hleave, hloop⟩ :=
            ih (src.length - (i + 1)) (by omega) hnext rfl
          refine ⟨j, head, ret, stop, hhead, hleave, ?_⟩
          intro fuel hfuel
          obtain ⟨fuel, rfl⟩ := Nat.exists_eq_succ_of_ne_zero (n := fuel) (by omega)
          simp only [copyLoop, hturn]
          exact hloop fuel (by omega)

/-! ## The result -/

/-- All three allocations succeed, so that the loop is entered. -/
def Answers.Enters (A : Answers) : Prop := ∀ b, A.allocated b = true

/-- Turn `i` is taken from the state `st` and its read is not refused. -/
structure Reads (src : Bytes) (A : Answers) (i n : Nat) (st : CopyState) : Prop where
  enters : A.Enters
  head : Head src A.turns i st
  read : (A.turns i).read = .ok n

/-- The call that was made and failed, and what the function makes of it. -/
inductive FailedCall (src : Bytes) (A : Answers) : Int → Prop where
  | alloc {b : Buffer} (h : A.allocated b = false) : FailedCall src A (-(enomem : Int))
  | read {i : Nat} {st : CopyState} {e : Failure} (ha : A.Enters) (hd : Head src A.turns i st)
      (h : (A.turns i).read = .error e) : FailedCall src A e.ret
  | write {i n : Nat} {st : CopyState} {e : Failure} (hr : Reads src A i n st)
      (hbuf : kernelRead src st.srcPos n ≠ []) (h : (A.turns i).write = .error e) :
      FailedCall src A e.ret
  | shortWrite {i n w : Nat} {st : CopyState} (hr : Reads src A i n st)
      (h : (A.turns i).write = .ok w) (hshort : w < (kernelRead src st.srcPos n).length) :
      FailedCall src A (-(eio : Int))
  | fsync {i n : Nat} {st : CopyState} {e : Failure} (hr : Reads src A i n st)
      (hend : kernelRead src st.srcPos n = []) (h : A.fsync = .error e) : FailedCall src A e.ret

theorem FailedCall.neg {src : Bytes} {A : Answers} {ret : Int} (h : FailedCall src A ret) :
    ret < 0 := by
  cases h with
  | alloc h => decide
  | read ha hd h => exact Failure.ret_neg _
  | write hr hbuf h => exact Failure.ret_neg _
  | shortWrite hr h hshort => decide
  | fsync hr hend h => exact Failure.ret_neg _

/-- The loop found the end of the source with all of it copied. -/
def Completes (src : Bytes) (A : Answers) (dst : Bytes) : Prop :=
  dst = src ∧ ∃ i n st, Reads src A i n st ∧ kernelRead src st.srcPos n = []

theorem leave_result {src : Bytes} {A : Answers} {i : Nat} {st st' : CopyState} {ret : Int}
    (ha : A.Enters) (hd : Head src A.turns i st)
    (h : copyTurn src (A.turns i) st = .leave ret st') :
    (ret = 0 ∧ Completes src A st'.dst) ∨ FailedCall src A ret := by
  have he := copyTurn_effect src (A.turns i) st
  rw [h] at he
  cases he with
  | readFailed hr => exact Or.inr (.read ha hd hr)
  | ended hr hnil =>
      have hs := hd.synced.1
      have hend : src.length ≤ st.srcPos := (readAt_eq_nil_iff (by omega)).mp hnil
      refine Or.inl ⟨rfl, ?_, i, _, st, ⟨ha, hd, hr⟩, hnil⟩
      rw [hs.content, List.take_of_length_le hend]
  | writeFailed hr hbuf hw => exact Or.inr (.write ⟨ha, hd, hr⟩ hbuf hw)
  | wroteShort hr hw hshort => exact Or.inr (.shortWrite ⟨ha, hd, hr⟩ hw hshort)

theorem finishCopy_result {src dst : Bytes} {A : Answers} {ret : Int}
    (h : (ret = 0 ∧ Completes src A dst) ∨ FailedCall src A ret) :
    ((finishCopy A ret dst).ret = 0 ∧ (finishCopy A ret dst).dst = src ∧ A.fsync = .ok ()) ∨
      FailedCall src A (finishCopy A ret dst).ret := by
  rcases h with ⟨rfl, rfl, i, n, st, hr, hend⟩ | hfailed
  · rw [finishCopy, if_pos rfl]
    cases hsync : A.fsync with
    | error e => exact Or.inr (.fsync hr hend hsync)
    | ok u => exact Or.inl ⟨rfl, rfl, rfl⟩
  · rw [finishCopy, if_neg (Int.ne_of_lt hfailed.neg)]
    exact Or.inr hfailed

theorem copyFileContent_ends (src : Bytes) (A : Answers) :
    ∃ out, (∀ fuel, src.length < fuel → copyFileContent fuel src A = some out) ∧
      ((out.ret = 0 ∧ out.dst = src ∧ A.fsync = .ok ()) ∨ FailedCall src A out.ret) := by
  unfold copyFileContent
  split_ifs with hpaths hcopy
  · refine ⟨_, fun _ _ => rfl, Or.inr ?_⟩
    rw [Bool.or_eq_true, Bool.not_eq_true', Bool.not_eq_true'] at hpaths
    rcases hpaths with h | h
    · exact .alloc h
    · exact .alloc h
  · refine ⟨_, fun _ _ => rfl, Or.inr ?_⟩
    exact .alloc ((Bool.not_eq_true' _).mp hcopy)
  · have hstart : Head src A.turns 0 ⟨0, 0, []⟩ := .start
    have henters : A.Enters := by
      intro b
      cases b <;> simp_all
    obtain ⟨j, head, ret, st, hd, hleave, hloop⟩ := copyLoop_leaves hstart
    refine ⟨finishCopy A ret st.dst, ?_, finishCopy_result (leave_result henters hd hleave)⟩
    intro fuel hfuel
    rw [hloop fuel (by omega)]
    rfl

/-- Whatever the calls answer, the function returns. At every loop head the destination is
the part of the source that was read; the result is 0 only for a whole copy that was synced,
and otherwise the error of the call that failed, `-EIO` for a short write. -/
theorem copyFileContent_copies (src : Bytes) (A : Answers) :
    (∀ i st, Head src A.turns i st → st.srcPos = st.dstPos ∧ st.dst <+: src) ∧
      ∃ out, (∀ fuel, src.length < fuel → copyFileContent fuel src A = some out) ∧
        (out.ret = 0 → out.dst = src ∧ A.fsync = .ok ()) ∧
        (out.ret ≠ 0 → out.ret < 0 ∧ FailedCall src A out.ret) := by
  constructor
  · intro i st hd
    have hs := hd.synced.1
    refine ⟨hs.positions.symm, ?_⟩
    rw [hs.content]
    exact List.take_prefix _ _
  · obtain ⟨out, hends, hout⟩ := copyFileContent_ends src A
    refine ⟨out, hends, ?_, ?_⟩
    · intro hzero
      rcases hout with hok | hfailed
      · exact hok.2
      · exact absurd hzero (Int.ne_of_lt hfailed.neg)
    · intro hne
      rcases hout with hok | hfailed
      · exact absurd hok.1 hne
      · exact ⟨hfailed.neg, hfailed⟩

theorem finishCopy_leaked (A : Answers) (ret : Int) (dst : Bytes) :
    (finishCopy A ret dst).leaked = [] := by
  unfold finishCopy
  split_ifs
  · cases A.fsync <;> rfl
  · rfl

/-- Both path buffers stay allocated when there is no memory for the third one, and in no
other case. -/
theorem copyFileContent_leaks_iff {fuel : Nat} {src : Bytes} {A : Answers} {out : Outcome}
    (h : copyFileContent fuel src A = some out) :
    out.leaked ≠ [] ↔
      A.allocated .srcPath ∧ A.allocated .dstPath ∧ A.allocated .copy = false := by
  unfold copyFileContent at h
  split_ifs at h with hpaths hcopy
  · cases h
    cases hs : A.allocated .srcPath <;> cases hd : A.allocated .dstPath <;> simp_all
  · cases h
    simp_all
  · obtain ⟨r, _, rfl⟩ := Option.map_eq_some_iff.mp h
    simp_all [finishCopy_leaked]

/-! ## The loop inside the flush -/

def errnoOf (a : Except Failure Nat) : Except Errno Nat := a.mapError Subtype.val

/-- A turn that goes on is a read and a write of the flush, whose one position stands for
both. -/
theorem flushStep_of_again {F : FlushArgs} {src : Bytes} {d : Disk} {a : TurnAnswers}
    {st st' : CopyState} (hs : Synced src st) (hfile : d F.tmpPath = some (.file st.dst))
    (h : copyTurn src a st = .again st') :
    ∃ d', [errnoOf a.read, errnoOf a.write].foldl (flushStep F src) (.read st.srcPos, d) =
        (.read st'.srcPos, d') ∧ d' F.tmpPath = some (.file st'.dst) := by
  have he := copyTurn_effect src a st
  rw [h] at he
  cases he with
  | wrote hr hw hbuf hall =>
      rename_i n w
      refine ⟨d.pwrite F.tmpPath st.srcPos (kernelRead src st.srcPos n), ?_, ?_⟩
      · obtain ⟨b, buf, hcons⟩ := List.exists_cons_of_ne_nil hbuf
        have hnot : ¬ w < (b :: buf).length := by
          rw [← hcons]
          omega
        simp only [List.foldl, hr, hw, errnoOf, Except.mapError, flushStep, hcons, if_neg hnot]
      · rw [Disk.pwrite_self hfile, hs.positions]

def answersOf (turns : Nat → TurnAnswers) (i : Nat) : List (Except Errno Nat) :=
  (List.range i).flatMap fun j => [errnoOf (turns j).read, errnoOf (turns j).write]

/-- The flush is at the same position with the same contents at every loop head. -/
theorem flush_at_head {F : FlushArgs} {src : Bytes} {d : Disk} {turns : Nat → TurnAnswers}
    {i : Nat} {st : CopyState} (hfile : d F.tmpPath = some (.file []))
    (h : Head src turns i st) :
    ∃ d', (answersOf turns i).foldl (flushStep F src) (.read 0, d) = (.read st.srcPos, d') ∧
      d' F.tmpPath = some (.file st.dst) := by
  induction h with
  | start => exact ⟨d, rfl, hfile⟩
  | next hd hturn ih =>
      obtain ⟨d₁, hrun, hfile₁⟩ := ih
      obtain ⟨d₂, hstep, hfile₂⟩ := flushStep_of_again hd.synced.1 hfile₁ hturn
      refine ⟨d₂, ?_, hfile₂⟩
      rw [answersOf, List.range_succ, List.flatMap_append, List.foldl_append,
        List.flatMap_singleton, ← answersOf, hrun]
      exact hstep

end OShm.Ramfs.CopyContent
