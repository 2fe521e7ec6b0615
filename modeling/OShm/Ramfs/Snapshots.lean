import OShm.Ramfs.FlushClean
import OShm.Ramfs.TmpNames

/-! # Flushes of many tasks at once

The tasks of a system write to the files of one bound ramfs, cut them off and flush them, and
every call of every flush may come at any time and may fail. The directory they are persisted in
has no links. A flush reads its file in
chunks and takes no lock, so what it installs need not be what the file held at any one time.
Each byte of it was in the file while the flush was under way, and a file that is left alone
is persisted as it is. Whatever else is found in the persistent directory was there before,
is an empty file that a flush has made for its target, or is a temporary file.
-/

namespace OShm.Ramfs

open OShm.Kernel OShm.Lib OShm.Lib.ByteFile

structure Flight where
  A : FlushArgs
  ino : Nat
  pc : FlushPc
  /-- What the file has held since the flush began. -/
  seen : List Bytes

structure PersistState where
  /-- The files of the ramfs, by inode number. -/
  data : Nat → Bytes
  disk : Disk
  /-- The flush each task is in, by its number. -/
  flight : Nat → Option Flight

inductive PersistAction where
  /-- `generic_file_write_iter`. -/
  | write (ino pos : Nat) (buf : Bytes)
  /-- `simple_setattr` of a size. -/
  | truncate (ino size : Nat)
  /-- `ramfs_file_flush` is called. -/
  | start (ino : Nat) (A : FlushArgs)
  /-- One call of the flush a task is in. -/
  | flush (pid : Nat) (ans : Except Errno Nat)

inductive PersistEvent where
  | changed
  | started
  | called
  | returned (f : Flight) (r : Except Errno Unit)

namespace PersistState

/-- A file changes under the flushes that are reading it. -/
def setData (s : PersistState) (ino : Nat) (bytes : Bytes) : PersistState where
  data := Function.update s.data ino bytes
  disk := s.disk
  flight pid := (s.flight pid).map fun f =>
    if f.ino = ino then { f with seen := bytes :: f.seen } else f

def setFlight (s : PersistState) (pid : Nat) (f : Option Flight) : PersistState :=
  { s with flight := Function.update s.flight pid f }

def step (dir : CString) (s : PersistState) :
    PersistAction → Option (PersistState × PersistEvent)
  | .write ino pos buf => some (s.setData ino (writeAt 0 (s.data ino) pos buf), .changed)
  | .truncate ino size =>
      let bytes := s.data ino
      some (s.setData ino ((bytes ++ List.replicate (size - bytes.length) 0).take size), .changed)
  | .start ino A =>
      match s.flight A.pid with
      | some _ => none
      | none =>
          if A.syncDir = some dir then
            some (s.setFlight A.pid (some ⟨A, ino, flushStart A, [s.data ino]⟩), .started)
          else none
  | .flush pid ans =>
      match s.flight pid with
      | none => none
      | some f =>
          match flushStep f.A (s.data f.ino) (f.pc, s.disk) ans with
          | (.done r, d) => some ({ s with disk := d }.setFlight pid none, .returned f r)
          | (pc, d) => some ({ s with disk := d }.setFlight pid (some { f with pc := pc }), .called)

end PersistState

def persisting (dir : CString) : System PersistState PersistAction PersistEvent :=
  ⟨PersistState.step dir⟩

/-! ## What a step can do -/

namespace PersistState

inductive Steps (dir : CString) (s : PersistState) :
    PersistAction → PersistState → PersistEvent → Prop where
  | changed {a : PersistAction} (ino : Nat) (bytes : Bytes) :
      Steps dir s a (s.setData ino bytes) .changed
  | started {ino : Nat} {A : FlushArgs} (hfree : s.flight A.pid = none)
      (hsync : A.syncDir = some dir) :
      Steps dir s (.start ino A)
        (s.setFlight A.pid (some ⟨A, ino, flushStart A, [s.data ino]⟩)) .started
  | called {pid : Nat} {ans : Except Errno Nat} {f : Flight} {pc : FlushPc} {d : Disk}
      (hf : s.flight pid = some f) (hrun : ∀ r, pc ≠ .done r)
      (he : FlushEffect f.A (s.data f.ino) s.disk f.pc pc d) :
      Steps dir s (.flush pid ans) ({ s with disk := d }.setFlight pid (some { f with pc := pc }))
        .called
  | returned {pid : Nat} {ans : Except Errno Nat} {f : Flight} {r : Except Errno Unit} {d : Disk}
      (hf : s.flight pid = some f)
      (he : FlushEffect f.A (s.data f.ino) s.disk f.pc (.done r) d) :
      Steps dir s (.flush pid ans) ({ s with disk := d }.setFlight pid none) (.returned f r)

theorem step_cases {dir : CString} {s s' : PersistState} {a : PersistAction} {e : PersistEvent}
    (h : (persisting dir).step s a = some (s', e)) : s.Steps dir a s' e := by
  change s.step dir a = some (s', e) at h
  cases a with
  | write ino pos buf =>
      cases h
      exact .changed ino _
  | truncate ino size =>
      cases h
      exact .changed ino _
  | start ino A =>
      simp only [step] at h
      split at h
      · cases h
      · rename_i hfree
        split at h
        · rename_i hsync
          cases h
          exact .started hfree hsync
        · cases h
  | flush pid ans =>
      simp only [step] at h
      split at h
      · cases h
      · rename_i f hf
        have he := flushStep_effect f.A (s.data f.ino) f.pc s.disk ans
        split at h
        · rename_i r d hstep
          cases h
          rw [hstep] at he
          exact .returned hf he
        · rename_i pc d hdone hstep
          cases h
          rw [hstep] at he
          exact .called hf hdone he

end PersistState

/-! ## The copy a flush makes -/

/-- The copy so far, and all of it once the loop has ended. -/
def CopyAt (seen : List Bytes) : FlushPc → Option Node → Prop
  | .call c, node =>
      match c.phase with
      | .before => True
      | .opened => node = some (.file [])
      | .copied => ∃ copy, node = some (.file copy) ∧ CopiedFrom seen copy
  | .openTmp, _ => True
  | .read pos, node => ∃ copy, node = some (.file copy) ∧ copy.length = pos ∧ Woven seen copy
  | .write pos buf, node =>
      ∃ copy, node = some (.file copy) ∧ copy.length = pos ∧ Woven seen (copy ++ buf)
  | .touch, node => ∃ copy, node = some (.file copy) ∧ CopiedFrom seen copy
  | .rename, node => ∃ copy, node = some (.file copy) ∧ CopiedFrom seen copy
  | .done _, _ => True

theorem copyAt_start (A : FlushArgs) (seen : List Bytes) (node : Option Node) :
    CopyAt seen (flushStart A) node := by
  rcases flushStart_cases A with h | h <;> rw [h] <;> trivial

theorem copyAt_next {seen : List Bytes} {c : FlushCall} {node : Option Node}
    (h : CopyAt seen (.call c) node) : CopyAt seen c.next node := by
  cases c with
  | copyBuf => exact ⟨[], h, rfl, woven_nil seen⟩
  | _ => exact h

theorem CopyAt.mono {seen seen' : List Bytes} {pc : FlushPc} {node : Option Node}
    (h : CopyAt seen pc node) (hsub : seen ⊆ seen') : CopyAt seen' pc node := by
  have copied : (∃ copy, node = some (.file copy) ∧ CopiedFrom seen copy) →
      ∃ copy, node = some (.file copy) ∧ CopiedFrom seen' copy := by
    rintro ⟨copy, hnode, hcopy⟩
    exact ⟨copy, hnode, hcopy.mono hsub⟩
  cases pc with
  | call c =>
      cases c with
      | allocPathBuf | dPath | allocPaths => trivial
      | copyPathBufs | copyBuf => exact h
      | _ => exact copied h
  | openTmp => trivial
  | read pos =>
      obtain ⟨copy, hnode, hlen, hwoven⟩ := h
      exact ⟨copy, hnode, hlen, hwoven.mono hsub⟩
  | write pos buf =>
      obtain ⟨copy, hnode, hlen, hwoven⟩ := h
      exact ⟨copy, hnode, hlen, hwoven.mono hsub⟩
  | touch => exact copied h
  | rename => exact copied h
  | done r => trivial

theorem FlushEffect.copyAt {A : FlushArgs} {src : Bytes} {d d' : Disk} {pc pc' : FlushPc}
    {seen : List Bytes} (he : FlushEffect A src d pc pc' d') (hsrc : src ∈ seen)
    (hne : A.tmpPath ≠ A.finalPath) (h : CopyAt seen pc (d A.tmpPath)) :
    CopyAt seen pc' (d' A.tmpPath) := by
  cases he with
  | called => exact copyAt_next h
  | failed => trivial
  | opened hdir => exact Function.update_self _ _ _
  | ended hnil =>
      obtain ⟨copy, hnode, rfl, hwoven⟩ := h
      have hend : src.length ≤ copy.length := (readAt_eq_nil_iff (by omega)).mp hnil
      exact ⟨copy, hnode, hwoven, src, hsrc, hend⟩
  | didRead hbuf =>
      obtain ⟨copy, hnode, rfl, hwoven⟩ := h
      exact ⟨copy, hnode, rfl, hwoven.append_readAt hsrc _⟩
  | wroteShort => trivial
  | wrote =>
      rename_i buf
      obtain ⟨copy, hnode, rfl, hwoven⟩ := h
      refine ⟨copy ++ buf, ?_, List.length_append, hwoven⟩
      rw [Disk.pwrite_self hnode, writeAt_length]
  | touched hnone =>
      obtain ⟨copy, hnode, hcopy⟩ := h
      exact ⟨copy, (Function.update_of_ne hne _ _).trans hnode, hcopy⟩
  | untouched => exact h
  | renamed ht hdir hne => trivial
  | renamedSelf ht heq => trivial
  | stopped => trivial

/-- What a call does to the target: the touch makes an empty file and the rename brings the
temporary one. -/
theorem FlushEffect.target {A : FlushArgs} {src : Bytes} {d d' : Disk} {pc pc' : FlushPc}
    (he : FlushEffect A src d pc pc' d') (hne : A.tmpPath ≠ A.finalPath) :
    d' A.finalPath = d A.finalPath ∨
      (d A.finalPath = none ∧ d' A.finalPath = some (.file [])) ∨
      (pc = .rename ∧ pc' = .done (.ok ()) ∧ d' A.finalPath = d A.tmpPath) := by
  cases he with
  | opened hdir => exact Or.inl (Function.update_of_ne (Ne.symm hne) _ _)
  | wroteShort => exact Or.inl (d.pwrite_of_ne (Ne.symm hne) _ _)
  | wrote => exact Or.inl (d.pwrite_of_ne (Ne.symm hne) _ _)
  | touched hnone => exact Or.inr (Or.inl ⟨hnone, Function.update_self _ _ _⟩)
  | renamed ht hdir hne' =>
      refine Or.inr (Or.inr ⟨rfl, rfl, ?_⟩)
      rw [Function.update_of_ne (Ne.symm hne), Function.update_self, ht]
  | renamedSelf ht heq => exact absurd heq hne
  | _ => exact Or.inl rfl

/-! ## The flushes of a run -/

def PersistAction.call? : PersistAction → Option FlushArgs
  | .start _ A => some A
  | _ => none

/-- The temporary paths fit into their buffers, and no file is named like a temporary file of
one of the flushes. -/
structure Tame (dir : CString) (calls : List FlushArgs) : Prop where
  fits : ∀ A ∈ calls, A.TmpFits dir
  plain : ∀ A ∈ calls, ∀ B ∈ calls, A.filename ≠ B.tmpText

section Paths

variable {dir : CString} {calls : List FlushArgs} {A B : FlushArgs}

structure Known (dir : CString) (calls : List FlushArgs) (A : FlushArgs) : Prop where
  call : A ∈ calls
  sync : A.syncDir = some dir

theorem Tame.finalPath_ne (ht : Tame dir calls) (hA : Known dir calls A)
    (hB : Known dir calls B) : A.finalPath ≠ B.tmpPath := by
  intro heq
  have hfitsA := finalPath_fits_of_tmp (ht.fits A hA.call)
  exact ht.plain A hA.call B hB.call
    ((finalPath_eq_tmpPath_iff hA.sync hB.sync hfitsA (ht.fits B hB.call)).mp heq)

theorem Tame.pid_eq (ht : Tame dir calls) (hA : Known dir calls A) (hB : Known dir calls B)
    (heq : A.tmpPath = B.tmpPath) : A.pid = B.pid :=
  ((tmpPath_eq_iff hA.sync hB.sync (ht.fits A hA.call) (ht.fits B hB.call)).mp heq).2.2.2

end Paths

structure Flight.Sound (dir : CString) (calls : List FlushArgs) (s : PersistState) (pid : Nat)
    (f : Flight) : Prop where
  known : Known dir calls f.A
  own : f.A.pid = pid
  running : ∀ r, f.pc ≠ .done r
  current : s.data f.ino ∈ f.seen
  copy : CopyAt f.seen f.pc (s.disk f.A.tmpPath)

/-- A flush with these arguments is under way or has failed. -/
def Unfinished (s : PersistState) (hist : List PersistEvent) (A : FlushArgs) : Prop :=
  (∃ pid f, s.flight pid = some f ∧ f.A = A) ∨ ∃ f e, .returned f (.error e) ∈ hist ∧ f.A = A

/-- Where an entry comes from that a run finds or makes. -/
inductive Origin (before : Disk) (s : PersistState) (hist : List PersistEvent) (p : CString) :
    Prop where
  | kept (h : s.disk p = before p)
  | installed {f : Flight} {copy : Bytes} (he : .returned f (.ok ()) ∈ hist)
      (hp : f.A.finalPath = p) (hdisk : s.disk p = some (.file copy))
      (hcopy : CopiedFrom f.seen copy) (hsame : ∀ v, (∀ w ∈ f.seen, w = v) → copy = v)
  | touched {A : FlushArgs} (hA : Unfinished s hist A) (hp : A.finalPath = p)
      (hnew : before p = none) (hdisk : s.disk p = some (.file []))
  | temporary {A : FlushArgs} (hA : Unfinished s hist A) (hp : A.tmpPath = p)
  | cleared {f : Flight} (he : .returned f (.ok ()) ∈ hist) (hp : f.A.tmpPath = p)
      (hdisk : s.disk p = none)

theorem Origin.frame {before : Disk} {s s' : PersistState} {hist : List PersistEvent}
    {e : PersistEvent} {p : CString} (h : Origin before s hist p) (hdisk : s'.disk p = s.disk p)
    (hunfinished : ∀ A, Unfinished s hist A → A.finalPath = p ∨ A.tmpPath = p →
      Unfinished s' (hist ++ [e]) A) : Origin before s' (hist ++ [e]) p := by
  cases h with
  | kept h => exact .kept (hdisk.trans h)
  | installed he hp hfile hcopy hsame =>
      exact .installed (List.mem_append_left _ he) hp (hdisk.trans hfile) hcopy hsame
  | touched hA hp hnew hfile =>
      exact .touched (hunfinished _ hA (Or.inl hp)) hp hnew (hdisk.trans hfile)
  | temporary hA hp => exact .temporary (hunfinished _ hA (Or.inr hp)) hp
  | cleared he hp hnone => exact .cleared (List.mem_append_left _ he) hp (hdisk.trans hnone)

/-- A flush stays unfinished until it returns 0. -/
theorem Unfinished.keep {s s' : PersistState} {hist : List PersistEvent} {e : PersistEvent}
    {A : FlushArgs} (h : Unfinished s hist A)
    (hflight : ∀ pid f, s.flight pid = some f → f.A = A →
      (∃ f', s'.flight pid = some f' ∧ f'.A = A) ∨ ∃ err, e = .returned f (.error err)) :
    Unfinished s' (hist ++ [e]) A := by
  rcases h with ⟨pid, f, hf, hA⟩ | ⟨f, err, he, hA⟩
  · rcases hflight pid f hf hA with ⟨f', hf', hA'⟩ | ⟨err, rfl⟩
    · exact Or.inl ⟨pid, f', hf', hA'⟩
    · exact Or.inr ⟨f, err, List.mem_append_right _ (List.mem_singleton_self _), hA⟩
  · exact Or.inr ⟨f, err, List.mem_append_left _ he, hA⟩

/-- The state of a run with its history, from the directory `before`. -/
structure Explained (dir : CString) (calls : List FlushArgs) (before : Disk) (s : PersistState)
    (hist : List PersistEvent) : Prop where
  flight : ∀ pid f, s.flight pid = some f → f.Sound dir calls s pid
  told : ∀ f r, .returned f r ∈ hist → Known dir calls f.A
  origin : ∀ p, Origin before s hist p

namespace Explained

variable {dir : CString} {calls : List FlushArgs} {before : Disk} {s s' : PersistState}
  {hist : List PersistEvent}

theorem known (h : Explained dir calls before s hist) {A : FlushArgs}
    (hA : Unfinished s hist A) : Known dir calls A := by
  rcases hA with ⟨pid, f, hf, rfl⟩ | ⟨f, e, he, rfl⟩
  · exact (h.flight pid f hf).known
  · exact h.told f _ he

theorem absent (ht : Tame dir calls) (h : Explained dir calls before s hist) {A : FlushArgs}
    (hA : Known dir calls A) (hnone : s.disk A.finalPath = none) : before A.finalPath = none := by
  cases h.origin A.finalPath with
  | kept hkept => rw [← hkept, hnone]
  | installed he hp hfile hcopy hsame => cases hfile.symm.trans hnone
  | touched hB hp hnew hfile => exact hnew
  | temporary hB hp => exact absurd hp.symm (ht.finalPath_ne hA (h.known hB))
  | cleared he hp hgone => exact absurd hp.symm (ht.finalPath_ne hA (h.told _ _ he))

theorem setData (h : Explained dir calls before s hist) (ino : Nat) (bytes : Bytes) :
    Explained dir calls before (s.setData ino bytes) (hist ++ [.changed]) := by
  refine ⟨?_, ?_, ?_⟩
  · intro pid f hf
    obtain ⟨g, hg, rfl⟩ := Option.map_eq_some_iff.mp hf
    have hs := h.flight pid g hg
    by_cases hino : g.ino = ino
    · rw [if_pos hino]
      refine ⟨hs.known, hs.own, hs.running, ?_, hs.copy.mono (List.subset_cons_self _ _)⟩
      simp [PersistState.setData, hino]
    · rw [if_neg hino]
      refine ⟨hs.known, hs.own, hs.running, ?_, hs.copy⟩
      simpa [PersistState.setData, hino] using hs.current
  · intro f r hr
    exact h.told f r (by simpa using hr)
  · intro p
    refine (h.origin p).frame rfl fun A hA _ => hA.keep fun pid f hf hfA => ?_
    refine Or.inl ⟨_, Option.map_eq_some_iff.mpr ⟨f, hf, rfl⟩, ?_⟩
    split <;> exact hfA

theorem start (h : Explained dir calls before s hist) {ino : Nat} {A : FlushArgs}
    (hA : Known dir calls A) (hfree : s.flight A.pid = none) :
    Explained dir calls before
      (s.setFlight A.pid (some ⟨A, ino, flushStart A, [s.data ino]⟩)) (hist ++ [.started]) := by
  refine ⟨?_, ?_, ?_⟩
  · intro pid f hf
    by_cases hpid : pid = A.pid
    · subst hpid
      obtain rfl : _ = f := by simpa [PersistState.setFlight] using hf
      refine ⟨hA, rfl, ?_, List.mem_singleton_self _, copyAt_start A _ _⟩
      intro r hr
      simp [flushStart, hA.sync] at hr
    · have hs := h.flight pid f (by simpa [PersistState.setFlight, hpid] using hf)
      exact ⟨hs.known, hs.own, hs.running, hs.current, hs.copy⟩
  · intro f r hr
    exact h.told f r (by simpa using hr)
  · intro p
    refine (h.origin p).frame rfl fun B hB _ => hB.keep fun pid f hf hfB => ?_
    have hpid : pid ≠ A.pid := fun heq => by simp [heq, hfree] at hf
    exact Or.inl ⟨f, by simpa [PersistState.setFlight, hpid] using hf, hfB⟩

section Flush

variable {pid : Nat} {f : Flight} {pc : FlushPc} {d : Disk}

theorem others (ht : Tame dir calls) (h : Explained dir calls before s hist)
    (hf : s.flight pid = some f) (he : FlushEffect f.A (s.data f.ino) s.disk f.pc pc d)
    {other : Nat} {g : Flight} (hne : other ≠ pid) (hg : s.flight other = some g)
    (hdisk : s'.disk = d) (hdata : s'.data = s.data) : g.Sound dir calls s' other := by
  have hsf := h.flight pid f hf
  have hsg := h.flight other g hg
  have hframe : d g.A.tmpPath = s.disk g.A.tmpPath := by
    refine he.frame ?_ (Ne.symm (ht.finalPath_ne hsf.known hsg.known))
    intro heq
    exact hne (by rw [← hsg.own, ← hsf.own, ht.pid_eq hsg.known hsf.known heq])
  refine ⟨hsg.known, hsg.own, hsg.running, ?_, ?_⟩
  · rw [hdata]
    exact hsg.current
  · rw [hdisk, hframe]
    exact hsg.copy

theorem origin_of_unfinished (ht : Tame dir calls) (h : Explained dir calls before s hist)
    (hf : s.flight pid = some f) (he : FlushEffect f.A (s.data f.ino) s.disk f.pc pc d)
    (hrun : pc ≠ .done (.ok ())) {e : PersistEvent} (hdisk : s'.disk = d)
    (hkeep : ∀ A, Unfinished s hist A → Unfinished s' (hist ++ [e]) A) (p : CString) :
    Origin before s' (hist ++ [e]) p := by
  have hsf := h.flight pid f hf
  have hown : Unfinished s' (hist ++ [e]) f.A := hkeep f.A (Or.inl ⟨pid, f, hf, rfl⟩)
  by_cases htmp : p = f.A.tmpPath
  · exact .temporary hown htmp.symm
  · by_cases hfinal : p = f.A.finalPath
    · subst hfinal
      rcases he.target (Ne.symm htmp) with hsame | ⟨hnone, hempty⟩ | ⟨-, hpc', -⟩
      · exact (h.origin _).frame (by rw [hdisk, hsame]) fun A hA _ => hkeep A hA
      · exact .touched hown rfl (h.absent ht hsf.known hnone) (by rw [hdisk, hempty])
      · exact absurd hpc' hrun
    · exact (h.origin p).frame (by rw [hdisk, he.frame htmp hfinal]) fun A hA _ => hkeep A hA

theorem call (ht : Tame dir calls) (h : Explained dir calls before s hist)
    (hf : s.flight pid = some f) (hrun : ∀ r, pc ≠ .done r)
    (he : FlushEffect f.A (s.data f.ino) s.disk f.pc pc d) :
    Explained dir calls before ({ s with disk := d }.setFlight pid (some { f with pc := pc }))
      (hist ++ [.called]) := by
  have hsf := h.flight pid f hf
  refine ⟨?_, ?_, ?_⟩
  · intro other g hg
    by_cases hother : other = pid
    · subst hother
      obtain rfl : _ = g := by simpa [PersistState.setFlight] using hg
      have hne := Ne.symm (ht.finalPath_ne hsf.known hsf.known)
      exact ⟨hsf.known, hsf.own, hrun, hsf.current, he.copyAt hsf.current hne hsf.copy⟩
    · have hg' : s.flight other = some g := by
        simpa [PersistState.setFlight, hother] using hg
      exact h.others ht hf he hother hg' rfl rfl
  · intro g r hr
    exact h.told g r (by simpa using hr)
  · refine h.origin_of_unfinished ht hf he (hrun _) rfl fun A hA => hA.keep ?_
    intro other g hg hgA
    by_cases hother : other = pid
    · subst hother
      obtain rfl : f = g := Option.some.inj (hf.symm.trans hg)
      exact Or.inl ⟨{ f with pc := pc }, by simp [PersistState.setFlight], hgA⟩
    · exact Or.inl ⟨g, by simpa [PersistState.setFlight, hother] using hg, hgA⟩

theorem ret_rest {r : Except Errno Unit} (ht : Tame dir calls)
    (h : Explained dir calls before s hist) (hf : s.flight pid = some f)
    (he : FlushEffect f.A (s.data f.ino) s.disk f.pc (.done r) d)
    (horigin : ∀ p, Origin before ({ s with disk := d }.setFlight pid none)
      (hist ++ [.returned f r]) p) :
    Explained dir calls before ({ s with disk := d }.setFlight pid none)
      (hist ++ [.returned f r]) := by
  refine ⟨?_, ?_, horigin⟩
  · intro other g hg
    by_cases hother : other = pid
    · subst hother
      simp [PersistState.setFlight] at hg
    · have hg' : s.flight other = some g := by
        simpa [PersistState.setFlight, hother] using hg
      exact h.others ht hf he hother hg' rfl rfl
  · intro g r' hr
    rcases List.mem_append.mp hr with hold | hnew
    · exact h.told g r' hold
    · obtain ⟨rfl, -⟩ : g = f ∧ r' = r := by simpa using hnew
      exact (h.flight pid g hf).known

theorem fail {err : Errno} (ht : Tame dir calls) (h : Explained dir calls before s hist)
    (hf : s.flight pid = some f)
    (he : FlushEffect f.A (s.data f.ino) s.disk f.pc (.done (.error err)) d) :
    Explained dir calls before ({ s with disk := d }.setFlight pid none)
      (hist ++ [.returned f (.error err)]) := by
  refine h.ret_rest ht hf he ?_
  refine h.origin_of_unfinished ht hf he (by simp) rfl fun A hA => hA.keep ?_
  intro other g hg hgA
  by_cases hother : other = pid
  · subst hother
    obtain rfl : f = g := Option.some.inj (hf.symm.trans hg)
    exact Or.inr ⟨err, rfl⟩
  · exact Or.inl ⟨g, by simpa [PersistState.setFlight, hother] using hg, hgA⟩

theorem succeed (ht : Tame dir calls) (h : Explained dir calls before s hist)
    (hf : s.flight pid = some f)
    (he : FlushEffect f.A (s.data f.ino) s.disk f.pc (.done (.ok ())) d) :
    Explained dir calls before ({ s with disk := d }.setFlight pid none)
      (hist ++ [.returned f (.ok ())]) := by
  have hsf := h.flight pid f hf
  have hne := Ne.symm (ht.finalPath_ne hsf.known hsf.known)
  have hret : PersistEvent.returned f (.ok ()) ∈ hist ++ [.returned f (.ok ())] :=
    List.mem_append_right _ (List.mem_singleton_self _)
  refine h.ret_rest ht hf he fun p => ?_
  by_cases htmp : p = f.A.tmpPath
  · have hgone := he.tmp_gone hne (fun hpc => absurd hpc (hsf.running _)) rfl
    exact .cleared hret htmp.symm (htmp ▸ hgone)
  · by_cases hfinal : p = f.A.finalPath
    · rcases he.finished rfl with ⟨hpc, -⟩ | ⟨hpc, hmoved⟩
      · exact absurd hpc (hsf.running _)
      · have hcopy := hsf.copy
        rw [hpc] at hcopy
        obtain ⟨copy, hnode, hcopied⟩ := hcopy
        refine .installed hret hfinal.symm ?_ hcopied fun v hv => hcopied.eq hv
        rw [hfinal]
        exact hmoved.trans hnode
    · refine (h.origin p).frame (he.frame htmp hfinal) fun A hA hpath => hA.keep ?_
      intro other g hg hgA
      have hother : other ≠ pid := by
        rintro rfl
        obtain rfl : f = g := Option.some.inj (hf.symm.trans hg)
        rcases hpath with hp | hp
        · exact hfinal (by rw [← hp, hgA])
        · exact htmp (by rw [← hp, hgA])
      exact Or.inl ⟨g, by simpa [PersistState.setFlight, hother] using hg, hgA⟩

end Flush

theorem step (ht : Tame dir calls) (h : Explained dir calls before s hist) {a : PersistAction}
    {e : PersistEvent} (ha : ∀ A, a.call? = some A → A ∈ calls)
    (hstep : (persisting dir).step s a = some (s', e)) :
    Explained dir calls before s' (hist ++ [e]) := by
  cases PersistState.step_cases hstep with
  | changed ino bytes => exact h.setData ino bytes
  | started hfree hsync => exact h.start ⟨ha _ rfl, hsync⟩ hfree
  | called hf hrun he => exact h.call ht hf hrun he
  | returned hf he =>
      rename_i r d
      cases r with
      | error err => exact h.fail ht hf he
      | ok u => exact h.succeed ht hf he

end Explained

/-- However the flushes of any number of tasks and the changes of their files interleave and
whichever calls fail: every entry of the persistent directory is what it was, a copy that a
flush has installed, or the temporary file or the new and empty target of a flush that is
under way or has failed. Every byte of an installed copy was at its place in the file while
the flush was under way, and a file that did not change meanwhile is installed as it is. -/
theorem persisted_origin {dir : CString} {s s' : PersistState} {acts : List PersistAction}
    {tr : List PersistEvent} (ht : Tame dir (acts.filterMap PersistAction.call?))
    (hidle : ∀ pid, s.flight pid = none) (hr : (persisting dir).run s acts = some (s', tr))
    (p : CString) : Origin s.disk s' tr p := by
  have hstart : Explained dir (acts.filterMap PersistAction.call?) s.disk s [] := by
    refine ⟨?_, ?_, fun p => .kept rfl⟩
    · intro pid f hf
      simp [hidle pid] at hf
    · intro f r hr
      simp at hr
  have hcalls : ∀ a ∈ acts, ∀ A, a.call? = some A → A ∈ acts.filterMap PersistAction.call? :=
    fun a ha A hA => List.mem_filterMap.mpr ⟨a, ha, hA⟩
  have hend : Explained dir (acts.filterMap PersistAction.call?) s.disk s' ([] ++ tr) :=
    (persisting dir).along_history (R := Explained dir _ s.disk)
      (fun h ha hstep => h.step ht ha hstep) hstart ((persisting dir).along_of_forall hcalls) hr
  exact hend.origin p

def flushOfX : FlushArgs := flushArgsAt (ascii "/p") (ascii "/r/x") 1 2 3

/-- The file changes between the two bytes that a flush reads. -/
def tornFlush : List PersistAction :=
  .write 7 0 [1, 2] :: .start 7 flushOfX ::
    (List.replicate 8 (.flush 3 (.ok 1)) ++ .write 7 0 [3, 4] ::
      List.replicate 11 (.flush 3 (.ok 1)))

def idleState : PersistState := ⟨fun _ => [], fun _ => none, fun _ => none⟩

/-- What is persisted was never the content of the file. -/
theorem persisted_origin_torn :
    ∃ s tr, (persisting (ascii "/p")).run idleState tornFlush = some (s, tr) ∧
      s.disk (ascii "/p/x") = some (.file [1, 4]) ∧
      Origin idleState.disk s tr (ascii "/p/x") := by
  have hcalls : tornFlush.filterMap PersistAction.call? = [flushOfX] := rfl
  have hfits : flushOfX.TmpFits (ascii "/p") := by
    unfold FlushArgs.TmpFits
    decide
  have hplain : flushOfX.filename ≠ flushOfX.tmpText := by decide
  have htame : Tame (ascii "/p") (tornFlush.filterMap PersistAction.call?) := by
    rw [hcalls]
    exact ⟨by simpa using hfits, by simpa using hplain⟩
  have hrun : ((persisting (ascii "/p")).run idleState tornFlush).map
      (fun r => r.1.disk (ascii "/p/x")) = some (some (.file [1, 4])) := by decide
  obtain ⟨⟨s, tr⟩, hr, hx⟩ := Option.map_eq_some_iff.mp hrun
  exact ⟨s, tr, hr, hx, persisted_origin htame (fun _ => rfl) hr _⟩

end OShm.Ramfs
