import OShm.Lib.OwnedHeap
import OShm.Lib.Transition
import OShm.Ramfs.Path

/-! # Binding while files are flushed

`ramfs_bind` frees and replaces `fsi->sync_dir`, and `ramfs_file_flush` loads it three times: for
its check and for each of its two paths. No lock is held. Here every load and store of that
pointer, every `kfree` and every read of the string is a step of its own, by any number of
threads. The rest of the two functions does not touch the pointer.
-/

namespace OShm.Ramfs

open OShm.Kernel OShm.Lib

/-- Where a thread is between its first and its last access to the pointer. -/
inductive RacePc where
  | idle
  /-- `if (fsi->sync_dir)` of `ramfs_bind`. -/
  | test (dir : CString)
  | free (dir : CString)
  | clear (dir : CString)
  | dup (dir : CString)
  | save (dir : CString) (p : Option Addr)
  /-- `if (!fsi->sync_dir)` after `kstrdup`. -/
  | recheck (dir : CString)
  /-- `ramfs_file_flush` loads the pointer for the temporary path and reads the string. -/
  | tmp
  | readTmp (p : Option Addr)
  | final (tmpDir : CString)
  | readFinal (tmpDir : CString) (p : Option Addr)
  deriving DecidableEq, Repr

structure SyncDir where
  /-- `fsi->sync_dir`. -/
  ptr : Option Addr
  heap : Heap
  text : Addr → CString

inductive RaceEvent where
  | silent
  | bound (dir : CString) (ok : Bool)
  /-- The flush returned `-EINVAL`. -/
  | refused
  /-- The flush returned an error of one of its allocations or of `d_path`. -/
  | failed (e : Errno)
  | built (tmpDir finalDir : CString)
  deriving DecidableEq, Repr

namespace SyncDir

def print (m : SyncDir) : Option Addr → CString
  | none => ascii "(null)"
  | some a => m.text a

/-- The memory after the string was read; `vsnprintf` looks at no string for a null pointer. -/
def touch (m : SyncDir) : Option Addr → SyncDir
  | none => m
  | some a => { m with heap := m.heap.use (some a) }

end SyncDir

def raceStep (mem : Option Addr) (m : SyncDir) : RacePc → Option (SyncDir × RacePc × RaceEvent)
  | .idle => none
  | .test dir =>
      match m.ptr with
      | none => some (m, .dup dir, .silent)
      | some _ => some (m, .free dir, .silent)
  | .free dir => some ({ m with heap := m.heap.free m.ptr }, .clear dir, .silent)
  | .clear dir => some ({ m with ptr := none }, .dup dir, .silent)
  | .dup dir =>
      match mem with
      | none => some (m, .save dir none, .silent)
      | some a =>
          if a ∈ m.heap.live then none
          else
            some ({ m with heap := m.heap.alloc a, text := Function.update m.text a dir },
              .save dir (some a), .silent)
  | .save dir p => some ({ m with ptr := p }, .recheck dir, .silent)
  | .recheck dir => some (m, .idle, .bound dir m.ptr.isSome)
  | .tmp => some (m, .readTmp m.ptr, .silent)
  | .readTmp p => some (m.touch p, .final (m.print p), .silent)
  | .final tmpDir => some (m, .readFinal tmpDir m.ptr, .silent)
  | .readFinal tmpDir p => some (m.touch p, .idle, .built tmpDir (m.print p))

structure RaceState (T : Type) where
  mem : SyncDir
  pc : T → RacePc

inductive RaceAction (T : Type) where
  | bind (t : T) (dir : CString)
  /-- The check of `ramfs_file_flush`. -/
  | flush (t : T)
  /-- An exit of `ramfs_file_flush` after its check and before its first path. -/
  | fail (t : T) (e : Errno)
  | step (t : T) (mem : Option Addr)

section Machine

variable {T : Type} [DecidableEq T]

def raceAct (s : RaceState T) : RaceAction T → Option (RaceState T × RaceEvent)
  | .bind t dir =>
      match s.pc t with
      | .idle => some (⟨s.mem, Function.update s.pc t (.test dir)⟩, .silent)
      | _ => none
  | .flush t =>
      match s.pc t, s.mem.ptr with
      | .idle, none => some (s, .refused)
      | .idle, some _ => some (⟨s.mem, Function.update s.pc t .tmp⟩, .silent)
      | _, _ => none
  | .fail t e =>
      match s.pc t with
      | .tmp => some (⟨s.mem, Function.update s.pc t .idle⟩, .failed e)
      | _ => none
  | .step t mem =>
      (raceStep mem s.mem (s.pc t)).map fun (m, pc, e) => (⟨m, Function.update s.pc t pc⟩, e)

def race : System (RaceState T) (RaceAction T) RaceEvent := ⟨raceAct⟩

def raceInitial : RaceState T := ⟨⟨none, .empty, fun _ => []⟩, fun _ => .idle⟩

end Machine

/-! ## What callers would have to guarantee -/

def RacePc.Writes : RacePc → Prop
  | .test _ | .free _ | .clear _ | .dup _ | .save _ _ | .recheck _ => True
  | _ => False

instance : DecidablePred RacePc.Writes
  | .idle | .tmp | .readTmp _ | .final _ | .readFinal _ _ => isFalse id
  | .test _ | .free _ | .clear _ | .dup _ | .save _ _ | .recheck _ => isTrue trivial

/-- A bind begins only while nothing else runs, a flush only while no bind runs. -/
def Exclusive {T : Type} (s : RaceState T) : RaceAction T → Prop
  | .bind _ _ => ∀ u, s.pc u = .idle
  | .flush _ => ∀ u, ¬ (s.pc u).Writes
  | .fail _ _ => True
  | .step _ _ => True

instance (s : RaceState Bool) : DecidablePred (Exclusive s)
  | .bind _ _ => inferInstanceAs (Decidable (∀ u, s.pc u = .idle))
  | .flush _ => inferInstanceAs (Decidable (∀ u, ¬ (s.pc u).Writes))
  | .fail _ _ => isTrue trivial
  | .step _ _ => isTrue trivial

/-- The directory of the last bind to return, over events listed newest first; a bind that fails
leaves none. -/
def lastDir : List RaceEvent → Option CString
  | [] => none
  | .bound dir ok :: _ => if ok then some dir else none
  | .silent :: older => lastDir older
  | .refused :: older => lastDir older
  | .failed _ :: older => lastDir older
  | .built _ _ :: older => lastDir older

/-- Both paths of every flush are in the directory of the last bind before it, and flushes are
refused exactly while there is none. -/
def Coherent : List RaceEvent → Prop
  | [] => True
  | .built d d' :: older => lastDir older = some d ∧ d' = d ∧ Coherent older
  | .refused :: older => lastDir older = none ∧ Coherent older
  | .silent :: older => Coherent older
  | .failed _ :: older => Coherent older
  | .bound _ _ :: older => Coherent older

/-! ## One invariant for each place -/

/-- The string the pointer leads to is the only one, and it is the last that was bound. -/
structure SyncDir.Settled (m : SyncDir) (last : Option CString) : Prop where
  owned : m.heap.Owned fun _ : Unit => m.ptr
  current : m.ptr.map m.text = last

def RacePc.Holds (m : SyncDir) (last : Option CString) : RacePc → Prop
  | .idle => True
  | .test _ => m.Settled last
  | .free _ => m.Settled last
  | .clear _ => m.heap.Owned fun _ : Unit => none
  | .dup _ => m.ptr = none ∧ m.heap.Owned fun _ : Unit => none
  | .save dir p => (m.heap.Owned fun _ : Unit => p) ∧ ∀ a, p = some a → m.text a = dir
  | .recheck dir => m.Settled (if m.ptr.isSome then some dir else none)
  | .tmp => m.ptr ≠ none
  | .readTmp p => p = m.ptr ∧ m.ptr ≠ none
  | .final d => m.ptr.map m.text = some d
  | .readFinal d p => p = m.ptr ∧ m.ptr.map m.text = some d

structure RaceState.Locked {T : Type} (s : RaceState T) (last : Option CString) : Prop where
  alone : ∀ t, (s.pc t).Writes → ∀ u, u ≠ t → s.pc u = .idle
  holds : ∀ t, (s.pc t).Holds s.mem last
  settled : (∀ t, ¬ (s.pc t).Writes) → s.mem.Settled last
  sound : s.mem.heap.fault = false

def RaceEvent.after (last : Option CString) : RaceEvent → Option CString
  | .bound dir ok => if ok then some dir else none
  | _ => last

theorem lastDir_cons (e : RaceEvent) (older : List RaceEvent) :
    lastDir (e :: older) = e.after (lastDir older) := by
  cases e <;> rfl

namespace SyncDir.Settled

variable {m : SyncDir} {last : Option CString}

theorem touch_eq (h : m.Settled last) : m.touch m.ptr = m := by
  cases hp : m.ptr with
  | none => rfl
  | some a =>
      have huse : m.heap.use (some a) = m.heap := h.owned.use_eq (o := ()) hp
      simp [touch, huse]

theorem print_eq (h : m.Settled last) {d : CString} (hd : last = some d) : m.print m.ptr = d := by
  have hcur := h.current
  cases hp : m.ptr with
  | none => simp [hp, hd] at hcur
  | some a => simpa [hp, hd, print] using hcur

end SyncDir.Settled

namespace RaceState.Locked

variable {T : Type} [DecidableEq T] {s : RaceState T} {t : T} {last : Option CString}

theorem of_alone {m : SyncDir} {pc : RacePc} (others : ∀ u, u ≠ t → s.pc u = .idle)
    (hpc : pc.Holds m last) (hset : ¬ pc.Writes → m.Settled last) (hsound : m.heap.fault = false) :
    RaceState.Locked ⟨m, Function.update s.pc t pc⟩ last where
  alone u hu w hw := by
    by_cases hwt : w = t
    · subst hwt
      have huw : u ≠ w := Ne.symm hw
      simp [huw, others u huw, RacePc.Writes] at hu
    · simp [hwt, others w hwt]
  holds u := by
    by_cases hu : u = t
    · subst hu
      simpa using hpc
    · simp [hu, others u hu, RacePc.Holds]
  settled h := hset (by simpa using h t)
  sound := hsound

theorem of_reader {pc : RacePc} (hL : s.Locked last) (hno : ∀ u, ¬ (s.pc u).Writes)
    (hw : ¬ pc.Writes) (hpc : pc.Holds s.mem last) :
    RaceState.Locked ⟨s.mem, Function.update s.pc t pc⟩ last where
  alone u hu := by
    by_cases hut : u = t
    · subst hut
      simp [hw] at hu
    · simp [hut, hno u] at hu
  holds u := by
    by_cases hu : u = t
    · subst hu
      simpa using hpc
    · simpa [hu] using hL.holds u
  settled _ := hL.settled hno
  sound := hL.sound

/-- While a thread reads, no thread writes. -/
theorem no_writer (hL : s.Locked last) (hi : s.pc t ≠ .idle) (hw : ¬ (s.pc t).Writes) (u : T) :
    ¬ (s.pc u).Writes := by
  intro hu
  by_cases hut : u = t
  · exact hw (hut ▸ hu)
  · exact hi (hL.alone u hu t (Ne.symm hut))

theorem step_writer (hL : s.Locked last) (hw : (s.pc t).Writes) {mem : Option Addr} {m : SyncDir}
    {pc : RacePc} {e : RaceEvent} (h : raceStep mem s.mem (s.pc t) = some (m, pc, e)) :
    RaceState.Locked ⟨m, Function.update s.pc t pc⟩ (e.after last) ∧
      (e = .silent ∨ ∃ dir ok, e = .bound dir ok) := by
  have others := hL.alone t hw
  have hholds := hL.holds t
  cases hpc : s.pc t with
  | idle | tmp | readTmp | final | readFinal => simp [hpc, RacePc.Writes] at hw
  | test dir =>
      rw [hpc] at hholds
      cases hp : s.mem.ptr with
      | none =>
          simp only [hpc, raceStep, hp, Option.some.injEq, Prod.mk.injEq] at h
          obtain ⟨rfl, rfl, rfl⟩ := h
          have hown := hholds.owned
          rw [hp] at hown
          exact ⟨of_alone others ⟨hp, hown⟩ (by simp [RacePc.Writes]) hL.sound, Or.inl rfl⟩
      | some a =>
          simp only [hpc, raceStep, hp, Option.some.injEq, Prod.mk.injEq] at h
          obtain ⟨rfl, rfl, rfl⟩ := h
          exact ⟨of_alone others hholds (by simp [RacePc.Writes]) hL.sound, Or.inl rfl⟩
  | free dir =>
      simp only [hpc, raceStep, Option.some.injEq, Prod.mk.injEq] at h
      obtain ⟨rfl, rfl, rfl⟩ := h
      rw [hpc] at hholds
      have hfree : (s.mem.heap.free s.mem.ptr).Owned fun _ : Unit => none :=
        hholds.owned.free (o := ()) rfl (funext fun _ => by simp)
      exact ⟨of_alone others hfree (by simp [RacePc.Writes]) hfree.sound, Or.inl rfl⟩
  | clear dir =>
      simp only [hpc, raceStep, Option.some.injEq, Prod.mk.injEq] at h
      obtain ⟨rfl, rfl, rfl⟩ := h
      rw [hpc] at hholds
      exact ⟨of_alone others ⟨rfl, hholds⟩ (by simp [RacePc.Writes]) hL.sound, Or.inl rfl⟩
  | dup dir =>
      rw [hpc] at hholds
      cases mem with
      | none =>
          simp only [hpc, raceStep, Option.some.injEq, Prod.mk.injEq] at h
          obtain ⟨rfl, rfl, rfl⟩ := h
          exact ⟨of_alone others ⟨hholds.2, by simp⟩ (by simp [RacePc.Writes]) hL.sound, Or.inl rfl⟩
      | some a =>
          by_cases ha : a ∈ s.mem.heap.live
          · simp [hpc, raceStep, ha] at h
          · simp only [hpc, raceStep, ha, if_false, Option.some.injEq, Prod.mk.injEq] at h
            obtain ⟨rfl, rfl, rfl⟩ := h
            have halloc : (s.mem.heap.alloc a).Owned fun _ : Unit => some a :=
              hholds.2.alloc (o := ()) rfl ha (funext fun _ => by simp)
            refine ⟨of_alone others ⟨halloc, ?_⟩ (by simp [RacePc.Writes]) halloc.sound, Or.inl rfl⟩
            intro x hx
            obtain rfl := Option.some.inj hx
            simp
  | save dir p =>
      simp only [hpc, raceStep, Option.some.injEq, Prod.mk.injEq] at h
      obtain ⟨rfl, rfl, rfl⟩ := h
      rw [hpc] at hholds
      refine ⟨of_alone others ⟨hholds.1, ?_⟩ (by simp [RacePc.Writes]) hL.sound, Or.inl rfl⟩
      cases p with
      | none => rfl
      | some a => simp [hholds.2 a rfl]
  | recheck dir =>
      simp only [hpc, raceStep, Option.some.injEq, Prod.mk.injEq] at h
      obtain ⟨rfl, rfl, rfl⟩ := h
      rw [hpc] at hholds
      exact ⟨of_alone others trivial (fun _ => hholds) hL.sound, Or.inr ⟨dir, _, rfl⟩⟩

theorem step_reader (hL : s.Locked last) (hw : ¬ (s.pc t).Writes) {mem : Option Addr} {m : SyncDir}
    {pc : RacePc} {e : RaceEvent} (h : raceStep mem s.mem (s.pc t) = some (m, pc, e)) :
    RaceState.Locked ⟨m, Function.update s.pc t pc⟩ (e.after last) ∧
      (e = .silent ∨ ∃ d, e = .built d d ∧ last = some d) := by
  have hi : s.pc t ≠ .idle := by
    intro hidle
    simp [hidle, raceStep] at h
  have hno := hL.no_writer hi hw
  have hset := hL.settled hno
  have hholds := hL.holds t
  cases hpc : s.pc t with
  | idle => exact absurd hpc hi
  | test | free | clear | dup | save | recheck => simp [hpc, RacePc.Writes] at hw
  | tmp =>
      simp only [hpc, raceStep, Option.some.injEq, Prod.mk.injEq] at h
      obtain ⟨rfl, rfl, rfl⟩ := h
      rw [hpc] at hholds
      exact ⟨hL.of_reader hno id ⟨rfl, hholds⟩, Or.inl rfl⟩
  | readTmp p =>
      simp only [hpc, raceStep, Option.some.injEq, Prod.mk.injEq] at h
      obtain ⟨rfl, rfl, rfl⟩ := h
      rw [hpc] at hholds
      obtain ⟨rfl, hne⟩ := hholds
      obtain ⟨a, ha⟩ := Option.ne_none_iff_exists'.mp hne
      rw [hset.touch_eq]
      refine ⟨hL.of_reader hno id ?_, Or.inl rfl⟩
      simp [RacePc.Holds, ha, SyncDir.print]
  | final d =>
      simp only [hpc, raceStep, Option.some.injEq, Prod.mk.injEq] at h
      obtain ⟨rfl, rfl, rfl⟩ := h
      rw [hpc] at hholds
      exact ⟨hL.of_reader hno id ⟨rfl, hholds⟩, Or.inl rfl⟩
  | readFinal d p =>
      simp only [hpc, raceStep, Option.some.injEq, Prod.mk.injEq] at h
      obtain ⟨rfl, rfl, rfl⟩ := h
      rw [hpc] at hholds
      obtain ⟨rfl, hd⟩ := hholds
      have hlast : last = some d := hset.current.symm.trans hd
      rw [hset.touch_eq, hset.print_eq hlast]
      exact ⟨hL.of_reader hno id trivial, Or.inr ⟨d, rfl, hlast⟩⟩

end RaceState.Locked

/-! ## Whole runs -/

variable {T : Type}

def RaceState.Agrees (s : RaceState T) (hist : List RaceEvent) : Prop :=
  s.Locked (lastDir hist.reverse) ∧ Coherent hist.reverse

variable [DecidableEq T]

theorem RaceState.Agrees.step {s s' : RaceState T} {a : RaceAction T} {e : RaceEvent}
    {hist : List RaceEvent} (h : s.Agrees hist) (hx : Exclusive s a)
    (hs : race.step s a = some (s', e)) : s'.Agrees (hist ++ [e]) := by
  obtain ⟨hL, hc⟩ := h
  rw [Agrees, List.reverse_append, List.reverse_singleton, List.singleton_append, lastDir_cons]
  cases a with
  | bind t dir =>
      have hidle : s.pc t = .idle := hx t
      simp only [race, raceAct, hidle, Option.some.injEq, Prod.mk.injEq] at hs
      obtain ⟨rfl, rfl⟩ := hs
      have hset := hL.settled fun u => by simp [hx u, RacePc.Writes]
      exact ⟨RaceState.Locked.of_alone (fun u _ => hx u) hset (fun _ => hset) hL.sound, hc⟩
  | flush t =>
      have hset := hL.settled hx
      cases hpc : s.pc t with
      | idle =>
          cases hp : s.mem.ptr with
          | none =>
              simp only [race, raceAct, hpc, hp, Option.some.injEq, Prod.mk.injEq] at hs
              obtain ⟨rfl, rfl⟩ := hs
              have hnone := hset.current
              rw [hp, Option.map_none] at hnone
              exact ⟨hL, hnone.symm, hc⟩
          | some x =>
              simp only [race, raceAct, hpc, hp, Option.some.injEq, Prod.mk.injEq] at hs
              obtain ⟨rfl, rfl⟩ := hs
              exact ⟨hL.of_reader hx id (by simp [RacePc.Holds, hp]), hc⟩
      | _ => simp [race, raceAct, hpc] at hs
  | fail t err =>
      cases hpc : s.pc t with
      | tmp =>
          simp only [race, raceAct, hpc, Option.some.injEq, Prod.mk.injEq] at hs
          obtain ⟨rfl, rfl⟩ := hs
          have hidle : s.pc t ≠ .idle := by simp [hpc]
          have hno := hL.no_writer hidle (by simp [hpc, RacePc.Writes])
          exact ⟨hL.of_reader hno id trivial, hc⟩
      | _ => simp [race, raceAct, hpc] at hs
  | step t mem =>
      simp only [race, raceAct, Option.map_eq_some_iff, Prod.mk.injEq] at hs
      obtain ⟨⟨m, pc, e'⟩, hstep, rfl, rfl⟩ := hs
      by_cases hw : (s.pc t).Writes
      · obtain ⟨hL', rfl | ⟨dir, ok, rfl⟩⟩ := hL.step_writer hw hstep
        · exact ⟨hL', hc⟩
        · exact ⟨hL', hc⟩
      · obtain ⟨hL', rfl | ⟨d, rfl, hd⟩⟩ := hL.step_reader hw hstep
        · exact ⟨hL', hc⟩
        · exact ⟨hL', hd, rfl, hc⟩

/-- If its callers keep binds apart from each other and from flushes, in any other interleaving no
string is used or freed after it was freed, and each flush builds both paths in the directory of
the last bind that returned before it. -/
theorem race_exclusive_coherent {s : RaceState T} {acts : List (RaceAction T)}
    {tr : List RaceEvent} (hr : race.run raceInitial acts = some (s, tr))
    (hx : race.Along Exclusive raceInitial acts) :
    s.mem.heap.fault = false ∧ Coherent tr.reverse := by
  have hstart : (raceInitial : RaceState T).Locked none :=
    ⟨fun t h => h.elim, fun _ => trivial, fun _ => ⟨Heap.owned_empty, rfl⟩, rfl⟩
  have hzero : (raceInitial : RaceState T).Agrees [] := ⟨hstart, trivial⟩
  have hend : s.Agrees ([] ++ tr) :=
    race.along_history (fun h hx hs => h.step hx hs) hzero hx hr
  exact ⟨hend.1.sound, hend.2⟩

def bindThenFlush : List (RaceAction Bool) :=
  let bind dir a : List (RaceAction Bool) := [.bind true dir, .step true none, .step true (some a),
    .step true none, .step true none]
  let rebind dir a : List (RaceAction Bool) := [.bind true dir, .step true none, .step true none,
    .step true none, .step true (some a), .step true none, .step true none]
  let flush : List (RaceAction Bool) := [.flush false, .step false none, .step false none,
    .step false none, .step false none]
  bind (ascii "/p") 10 ++ flush ++ rebind (ascii "/q") 11 ++ flush

theorem race_exclusive_coherent_twice :
    ∃ s tr, race.run raceInitial bindThenFlush = some (s, tr) ∧
      tr.filter (· ≠ .silent) = [.bound (ascii "/p") true, .built (ascii "/p") (ascii "/p"),
        .bound (ascii "/q") true, .built (ascii "/q") (ascii "/q")] ∧
      s.mem.heap.fault = false ∧ Coherent tr.reverse := by
  have hrun : (race.run raceInitial bindThenFlush).map (fun r => r.2.filter (· ≠ .silent)) =
      some [.bound (ascii "/p") true, .built (ascii "/p") (ascii "/p"),
        .bound (ascii "/q") true, .built (ascii "/q") (ascii "/q")] := by decide
  obtain ⟨⟨s, tr⟩, hr, hshown⟩ := Option.map_eq_some_iff.mp hrun
  exact ⟨s, tr, hr, hshown, race_exclusive_coherent hr (by decide)⟩

/-- Two binds that both find the old string free it twice. -/
theorem overlapping_binds_free_twice (p q r : CString) :
    (race.run raceInitial ([.bind true p, .step true none, .step true (some 10), .step true none,
      .step true none, .bind true q, .bind false r, .step true none, .step false none,
      .step true none, .step false none] : List (RaceAction Bool))).map
        (fun x => x.1.mem.heap.fault) = some true := rfl

/-- A flush during a bind has its temporary file in the old directory and its target in one
named after a null pointer. -/
theorem flush_during_bind_mixes (p q : CString) :
    (race.run raceInitial ([.bind true p, .step true none, .step true (some 10), .step true none,
      .step true none, .flush false, .step false none, .step false none, .bind true q,
      .step true none, .step true none, .step true none, .step false none,
      .step false none] : List (RaceAction Bool))).map
        (fun x => (x.1.mem.heap.fault, x.2.getLast?)) =
      some (false, some (.built p (ascii "(null)"))) := rfl

/-- A flush that read the pointer before a bind freed the string reads it afterwards. -/
theorem flush_during_bind_reads_freed (p q : CString) :
    (race.run raceInitial ([.bind true p, .step true none, .step true (some 10), .step true none,
      .step true none, .flush false, .step false none, .bind true q, .step true none,
      .step true none, .step false none] : List (RaceAction Bool))).map
        (fun x => x.1.mem.heap.fault) = some true := rfl

end OShm.Ramfs
