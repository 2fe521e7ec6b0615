import OShm.Ramfs.FlushPaths

/-! # A flush into directories with links

The opens of a flush follow symbolic links, and a file may have several names. Here the entries
of the directories lead to inodes, and a flush copies to the inode that its temporary file was
opened as.
-/

namespace OShm.Ramfs

open OShm.Kernel OShm.Lib.ByteFile

/-- What an inode that is no directory holds. -/
inductive Body where
  | file (data : Bytes)
  | link (text : CString)
  /-- A device, a pipe or a socket, which keeps nothing of what is written. -/
  | special
  deriving DecidableEq, Repr

namespace Body

def withData (data : Bytes) : Body → Body
  | .file _ => .file data
  | b => b

def write (pos : Nat) (buf : Bytes) : Body → Body
  | .file data => .file (writeAt 0 data pos buf)
  | b => b

def sight : Body → Option Sight
  | .link text => some (.link text)
  | _ => none

end Body

inductive LinkedEntry where
  | dir (d : Dir)
  | inode (ino : Nat)
  deriving DecidableEq, Repr

/-- The directories that a flush can reach, and their inodes. -/
structure LinkedDisk where
  entry : Loc → Option LinkedEntry
  body : Nat → Body
  /-- The inode numbers from here on are free. -/
  next : Nat
  inode_lt : ∀ l i, entry l = some (.inode i) → i < next

inductive Shown where
  | dir
  | body (b : Body)
  deriving DecidableEq, Repr

namespace LinkedDisk

variable (N : Namei) (p : Process) (d : LinkedDisk)

def sights : Sights := fun l =>
  match d.entry l with
  | some (.dir e) => some (.dir e)
  | some (.inode i) => (d.body i).sight
  | none => none

def shown (l : Loc) : Option Shown :=
  match d.entry l with
  | some (.dir _) => some .dir
  | some (.inode i) => some (.body (d.body i))
  | none => none

def look (path : CString) : Option Shown := (N.openTarget p d.sights path).bind d.shown

def setBody (i : Nat) (b : Body) : LinkedDisk := { d with body := Function.update d.body i b }

def setData (i : Nat) (data : Bytes) : LinkedDisk := d.setBody i ((d.body i).withData data)

variable {d} in
theorem create_inode_lt {l l' : Loc} {i : Nat}
    (h : Function.update d.entry l (some (.inode d.next)) l' = some (.inode i)) :
    i < d.next + 1 := by
  by_cases hl : l' = l
  · rw [hl, Function.update_self] at h
    cases h
    exact Nat.lt_succ_self _
  · rw [Function.update_of_ne hl] at h
    exact Nat.lt_succ_of_lt (d.inode_lt l' i h)

def create (l : Loc) : LinkedDisk where
  entry := Function.update d.entry l (some (.inode d.next))
  body := Function.update d.body d.next (.file [])
  next := d.next + 1
  inode_lt _ _ h := create_inode_lt h

variable {d} in
theorem move_inode_lt {a b l : Loc} {i : Nat}
    (h : Function.update (Function.update d.entry b (d.entry a)) a none l = some (.inode i)) :
    i < d.next := by
  by_cases ha : l = a
  · rw [ha, Function.update_self] at h
    cases h
  · rw [Function.update_of_ne ha] at h
    by_cases hb : l = b
    · rw [hb, Function.update_self] at h
      exact d.inode_lt a i h
    · rw [Function.update_of_ne hb] at h
      exact d.inode_lt l i h

def move (a b : Loc) : LinkedDisk where
  entry := Function.update (Function.update d.entry b (d.entry a)) a none
  body := d.body
  next := d.next
  inode_lt _ _ h := move_inode_lt h

/-- An entry opened for writing with `O_CREAT`: its inode and the disk after it. -/
def openAt (l : Loc) : Except Errno (Nat × LinkedDisk) :=
  if nameMax < l.2.length then .error enametoolong
  else
    match d.entry l with
    | some (.dir _) => .error eisdir
    | some (.inode i) => .ok (i, d)
    | none => .ok (d.next, d.create l)

/-- `filp_open(path, O_WRONLY | O_CREAT, 0644)`. -/
def openPath (path : CString) : Except Errno (Nat × LinkedDisk) :=
  match N.openTarget p d.sights path with
  | none => .error enoent
  | some l => d.openAt l

def pwrite (fd : Option Nat) (pos : Nat) (buf : Bytes) : LinkedDisk :=
  match fd with
  | none => d
  | some i => d.setBody i ((d.body i).write pos buf)

/-- `do_renameat2` without flags. Two names of one file are left alone. -/
def rename (old new : CString) : LinkedDisk × Except Errno Unit :=
  match N.locate p d.sights old, N.locate p d.sights new with
  | some a, some b =>
      match d.entry a, d.entry b with
      | some (.inode _), some (.dir _) => (d, .error eisdir)
      | some (.inode i), e =>
          if a = b ∨ e = some (.inode i) then (d, .ok ()) else (d.move a b, .ok ())
      -- a directory under the temporary name was not opened
      | some (.dir _), _ => (d, .error einval)
      | none, _ => (d, .error enoent)
  | _, _ => (d, .error enoent)

end LinkedDisk

/-- A root with the directory `/p`, and what else there is. -/
def withDir (entries : Loc → Option LinkedEntry) (l : Loc) : Option LinkedEntry :=
  if l = (0, ascii "p") then some (.dir 1) else entries l

theorem withDir_inode_lt {entries : Loc → Option LinkedEntry} {n i : Nat} {l : Loc}
    (hlt : ∀ l i, entries l = some (.inode i) → i < n)
    (h : withDir entries l = some (.inode i)) : i < n := by
  unfold withDir at h
  split at h
  · cases h
  · exact hlt l i h

theorem no_inode_lt (_l : Loc) (i : Nat) (h : none = some (LinkedEntry.inode i)) : i < 0 := by
  cases h

def emptyDir : LinkedDisk :=
  ⟨withDir fun _ => none, fun _ => .special, 0, fun _ _ => withDir_inode_lt no_inode_lt⟩

/-! ## The flush, one call at a time -/

structure LinkedFlush where
  pc : FlushPc
  /-- The inode that the temporary file was opened as. -/
  fd : Option Nat
  disk : LinkedDisk

section Step

variable (N : Namei) (p : Process) (A : FlushArgs) (src : Bytes)

def linkedStep : LinkedFlush → Except Errno Nat → LinkedFlush
  | ⟨.call c, fd, d⟩, .ok _ => ⟨c.next, fd, d⟩
  | ⟨.call c, fd, d⟩, .error e => ⟨.done (.error (c.errno e)), fd, d⟩
  | ⟨.openTmp, fd, d⟩, .error e => ⟨.done (.error e), fd, d⟩
  | ⟨.openTmp, fd, d⟩, .ok _ =>
      match d.openPath N p A.tmpPath with
      | .error e => ⟨.done (.error e), fd, d⟩
      -- `O_TRUNC`
      | .ok (i, d) => ⟨.call .copyPathBufs, some i, d.setData i []⟩
  | ⟨.read _, fd, d⟩, .error e => ⟨.done (.error e), fd, d⟩
  | ⟨.read pos, fd, d⟩, .ok n =>
      match kernelRead src pos n with
      | [] => ⟨.call .fsync, fd, d⟩
      | b :: buf => ⟨.write pos (b :: buf), fd, d⟩
  | ⟨.write _ _, fd, d⟩, .error e => ⟨.done (.error e), fd, d⟩
  | ⟨.write pos buf, fd, d⟩, .ok n =>
      if n < buf.length then ⟨.done (.error eio), fd, d.pwrite fd pos (buf.take n)⟩
      else ⟨.read (pos + buf.length), fd, d.pwrite fd pos buf⟩
  | ⟨.touch, fd, d⟩, .error _ => ⟨.call .lookupDentry, fd, d⟩
  | ⟨.touch, fd, d⟩, .ok _ =>
      match d.openPath N p A.finalPath with
      | .error _ => ⟨.call .lookupDentry, fd, d⟩
      | .ok (_, d) => ⟨.call .lookupDentry, fd, d⟩
  | ⟨.rename, fd, d⟩, .error e => ⟨.done (.error e), fd, d⟩
  | ⟨.rename, fd, d⟩, .ok _ =>
      match d.rename N p A.tmpPath A.finalPath with
      | (d, r) => ⟨.done r, fd, d⟩
  | ⟨.done r, fd, d⟩, _ => ⟨.done r, fd, d⟩

def linkedRun (d : LinkedDisk) (answers : List (Except Errno Nat)) : LinkedFlush :=
  answers.foldl (linkedStep N p A src) ⟨flushStart A, none, d⟩

end Step

/-! ## What the operations change -/

namespace Body

variable {b : Body} {data : Bytes} {text : CString}

@[simp] theorem withData_sight : (b.withData data).sight = b.sight := by
  cases b <;> rfl

theorem sight_eq_link : b.sight = some (.link text) ↔ b = .link text := by
  cases b <;> simp [sight]

end Body

namespace LinkedDisk

variable {N : Namei} {p : Process} {d d₁ : LinkedDisk} {l l' : Loc} {i j : Nat} {path : CString}
  {data : Bytes}

theorem sights_of_inode (h : d.entry l = some (.inode i)) : d.sights l = (d.body i).sight := by
  simp only [sights, h]

theorem sights_of_none (h : d.entry l = none) : d.sights l = none := by
  simp only [sights, h]

theorem sights_setBody {b : Body} (h : b.sight = (d.body i).sight) :
    (d.setBody i b).sights = d.sights := by
  funext l
  rcases he : d.entry l with _ | (e | j)
  · simp only [sights, setBody, he]
  · simp only [sights, setBody, he]
  · by_cases hj : j = i
    · subst hj
      simp only [sights, setBody, he, Function.update_self, h]
    · simp only [sights, setBody, he, Function.update_of_ne hj]

theorem create_entry_self : (d.create l).entry l = some (.inode d.next) :=
  Function.update_self _ _ _

theorem create_entry_of_ne (h : l' ≠ l) : (d.create l).entry l' = d.entry l' :=
  Function.update_of_ne h _ _

theorem create_body_self : (d.create l).body d.next = .file [] := Function.update_self _ _ _

theorem create_body_of_ne (h : j ≠ d.next) : (d.create l).body j = d.body j :=
  Function.update_of_ne h _ _

theorem move_entry_old {b : Loc} : (d.move l b).entry l = none := Function.update_self _ _ _

theorem move_entry_new {a b : Loc} (h : a ≠ b) : (d.move a b).entry b = d.entry a :=
  (Function.update_of_ne (Ne.symm h) _ _).trans (Function.update_self _ _ _)

theorem move_entry_of_ne {a b : Loc} (ha : l ≠ a) (hb : l ≠ b) :
    (d.move a b).entry l = d.entry l :=
  (Function.update_of_ne ha _ _).trans (Function.update_of_ne hb _ _)

@[simp] theorem setData_entry : (d.setData i data).entry = d.entry := rfl

@[simp] theorem setData_sights : (d.setData i data).sights = d.sights :=
  sights_setBody Body.withData_sight

theorem setData_body_self : (d.setData i data).body i = (d.body i).withData data :=
  Function.update_self _ _ _

theorem setData_body_of_ne (h : j ≠ i) : (d.setData i data).body j = d.body j :=
  Function.update_of_ne h _ _

theorem shown_setData :
    (d.setData i data).shown l =
      if d.entry l = some (.inode i) then some (.body ((d.body i).withData data))
      else d.shown l := by
  unfold shown
  rw [setData_entry]
  rcases he : d.entry l with _ | (e | j)
  · simp
  · simp
  · by_cases hj : j = i
    · subst hj
      simp [setData_body_self]
    · simp [setData_body_of_ne hj, hj]

/-- The copy loop extends a prefix of the source. -/
theorem pwrite_setData {src : Bytes} {n : Nat} (hn : n ≤ src.length) (k : Nat) :
    (d.setData i (src.take n)).pwrite (some i) n (readAt src n k) =
      d.setData i (src.take (n + (readAt src n k).length)) := by
  have hbody : ((d.setData i (src.take n)).body i).write n (readAt src n k) =
      (d.body i).withData (src.take (n + (readAt src n k).length)) := by
    rw [setData_body_self]
    cases d.body i with
    | file data => simp only [Body.withData, Body.write, writeAt_take 0 src n k hn]
    | link text => rfl
    | special => rfl
  rw [pwrite, hbody]
  simp [setData, setBody]

variable (N p d) in
theorem rename_cases (old new : CString) :
    (∃ e, d.rename N p old new = (d, .error e)) ∨ ∃ d', d.rename N p old new = (d', .ok ()) := by
  unfold rename
  split
  · split
    · exact Or.inl ⟨_, rfl⟩
    · split_ifs
      · exact Or.inr ⟨_, rfl⟩
      · exact Or.inr ⟨_, rfl⟩
    · exact Or.inl ⟨_, rfl⟩
    · exact Or.inl ⟨_, rfl⟩
  · exact Or.inl ⟨_, rfl⟩

/-- An open that succeeds finds the inode of an entry or makes one. -/
structure OpenEffect (d : LinkedDisk) (l : Loc) (i : Nat) (d₁ : LinkedDisk) : Prop where
  short : l.2.length ≤ nameMax
  notLink : ∀ text, d.sights l ≠ some (.link text)
  effect : d.entry l = some (.inode i) ∧ d₁ = d ∨
    d.entry l = none ∧ i = d.next ∧ d₁ = d.create l

theorem openPath_ok (h : d.openPath N p path = .ok (i, d₁)) :
    ∃ l, N.openTarget p d.sights path = some l ∧ OpenEffect d l i d₁ := by
  unfold openPath at h
  cases hl : N.openTarget p d.sights path with
  | none => simp [hl] at h
  | some l =>
      simp only [hl, openAt] at h
      split_ifs at h with hlen
      have hlink : ∀ text, d.sights l ≠ some (.link text) := fun _ => N.openTarget_not_link hl
      rcases he : d.entry l with _ | (e | j)
      · simp only [he, Except.ok.injEq, Prod.mk.injEq] at h
        exact ⟨l, rfl, Nat.le_of_not_lt hlen, hlink, Or.inr ⟨he, h.1.symm, h.2.symm⟩⟩
      · simp [he] at h
      · simp only [he, Except.ok.injEq, Prod.mk.injEq] at h
        obtain ⟨rfl, rfl⟩ := h
        exact ⟨l, rfl, Nat.le_of_not_lt hlen, hlink, Or.inl ⟨he, rfl⟩⟩

/-- The open succeeds where the path leads to something that is no directory, or could be made. -/
theorem openPath_of_target (hl : N.openTarget p d.sights path = some l)
    (hlen : l.2.length ≤ nameMax) (hdir : ∀ e, d.entry l ≠ some (.dir e)) :
    ∃ i d₁, d.openPath N p path = .ok (i, d₁) := by
  rw [openPath, hl]
  simp only [openAt, if_neg (Nat.not_lt.mpr hlen)]
  rcases he : d.entry l with _ | (e | j)
  · exact ⟨_, _, rfl⟩
  · exact absurd he (hdir e)
  · exact ⟨_, _, rfl⟩

namespace OpenEffect

variable (h : OpenEffect d l i d₁)

include h

theorem entry_self : d₁.entry l = some (.inode i) := by
  rcases h.effect with ⟨he, rfl⟩ | ⟨_, rfl, rfl⟩
  · exact he
  · exact create_entry_self

theorem entry_of_ne (hl : l' ≠ l) : d₁.entry l' = d.entry l' := by
  rcases h.effect with ⟨_, rfl⟩ | ⟨_, _, rfl⟩
  · rfl
  · exact create_entry_of_ne hl

theorem entry_of_some (hl : d.entry l' ≠ none) : d₁.entry l' = d.entry l' := by
  rcases h.effect with ⟨_, rfl⟩ | ⟨hnone, _, rfl⟩
  · rfl
  · refine create_entry_of_ne ?_
    rintro rfl
    exact hl hnone

theorem entry_eq_none : d₁.entry l' = none ↔ l' ≠ l ∧ d.entry l' = none := by
  by_cases hl : l' = l
  · subst hl
    simp [h.entry_self]
  · simp [h.entry_of_ne hl, hl]

theorem body_of_ne (hj : j ≠ i) : d₁.body j = d.body j := by
  rcases h.effect with ⟨_, rfl⟩ | ⟨_, rfl, rfl⟩
  · rfl
  · exact create_body_of_ne hj

theorem body_of_entry (he : d.entry l' = some (.inode j)) : d₁.body j = d.body j := by
  rcases h.effect with ⟨_, rfl⟩ | ⟨_, rfl, rfl⟩
  · rfl
  · exact create_body_of_ne (Nat.ne_of_lt (d.inode_lt l' j he))

theorem body_ne_link (text : CString) : d₁.body i ≠ .link text := by
  intro hb
  rcases h.effect with ⟨he, rfl⟩ | ⟨_, rfl, rfl⟩
  · exact h.notLink text ((sights_of_inode he).trans (Body.sight_eq_link.mpr hb))
  · cases create_body_self.symm.trans hb

theorem entry_inode (hl : l' ≠ l) (he : d₁.entry l' = some (.inode i)) :
    d.entry l = some (.inode i) ∧ d₁ = d := by
  rcases h.effect with h' | ⟨_, rfl, rfl⟩
  · exact h'
  · have hold : d.entry l' = some (.inode d.next) := (create_entry_of_ne hl).symm.trans he
    exact absurd (d.inode_lt l' _ hold) (Nat.lt_irrefl _)

theorem sights : d₁.sights = d.sights := by
  rcases h.effect with ⟨_, rfl⟩ | ⟨hnone, rfl, rfl⟩
  · rfl
  · funext l'
    by_cases hl : l' = l
    · subst hl
      rw [sights_of_inode create_entry_self, create_body_self, sights_of_none hnone]
      rfl
    · have he : (d.create l).entry l' = d.entry l' := create_entry_of_ne hl
      rcases hd : d.entry l' with _ | (e | j)
      · simp only [LinkedDisk.sights, he, hd]
      · simp only [LinkedDisk.sights, he, hd]
      · simp only [LinkedDisk.sights, he, hd, h.body_of_entry hd]

theorem shown_of_ne (he : d₁.entry l' ≠ some (.inode i)) : d₁.shown l' = d.shown l' := by
  have hl : l' ≠ l := by
    rintro rfl
    exact he h.entry_self
  have hentry := h.entry_of_ne hl
  unfold shown
  rw [hentry]
  rw [hentry] at he
  rcases hd : d.entry l' with _ | (e | j)
  · rfl
  · rfl
  · have hj : j ≠ i := by
      rintro rfl
      exact he hd
    simp only [h.body_of_ne hj]

end OpenEffect

end LinkedDisk

/-! ## The disks of a flush -/

/-- How much of the source is in the copy. -/
def CopiedTo (src : Bytes) (n : Nat) : FlushPc → Prop
  | .call .copyPathBufs => n = 0
  | .call .copyBuf => n = 0
  | .read pos => n = pos ∧ pos ≤ src.length
  | .write pos buf => n = pos ∧ pos ≤ src.length ∧ ∃ k, buf = readAt src pos k
  | _ => n = src.length

section Visits

variable (N : Namei) (p : Process) (A : FlushArgs) (src : Bytes) (d : LinkedDisk)

def Touches (d d₂ : LinkedDisk) : Prop := d₂ = d ∨ ∃ j, d.openPath N p A.finalPath = .ok (j, d₂)

/-- The disks of a flush that began with `d`, by its stage. -/
inductive Visits : FlushStage → LinkedDisk → Prop where
  | opening : Visits .opening d
  | copying {i : Nat} {d₁ : LinkedDisk} (n : Nat)
      (ho : d.openPath N p A.tmpPath = .ok (i, d₁)) :
      Visits .copying (d₁.setData i (src.take n))
  | installing {i : Nat} {d₁ d₂ : LinkedDisk} (ho : d.openPath N p A.tmpPath = .ok (i, d₁))
      (ht : Touches N p A (d₁.setData i src) d₂) : Visits .installing d₂

/-- The states of a flush that began with `d`. -/
inductive Reached : LinkedFlush → Prop where
  | opening {pc : FlushPc} (hsync : A.syncDir ≠ none) (hpc : pc.stage = some .opening) :
      Reached ⟨pc, none, d⟩
  | copying {pc : FlushPc} {i n : Nat} {d₁ : LinkedDisk} (hsync : A.syncDir ≠ none)
      (hpc : pc.stage = some .copying) (ho : d.openPath N p A.tmpPath = .ok (i, d₁))
      (hn : CopiedTo src n pc) : Reached ⟨pc, some i, d₁.setData i (src.take n)⟩
  | installing {pc : FlushPc} {i : Nat} {d₁ d₂ : LinkedDisk} (hsync : A.syncDir ≠ none)
      (hpc : pc.stage = some .installing) (ho : d.openPath N p A.tmpPath = .ok (i, d₁))
      (ht : Touches N p A (d₁.setData i src) d₂) : Reached ⟨pc, some i, d₂⟩
  | unbound (hsync : A.syncDir = none) : Reached ⟨.done (.error einval), none, d⟩
  | failed {e : Errno} {fd : Option Nat} {st : FlushStage} {d' : LinkedDisk}
      (hsync : A.syncDir ≠ none) (hv : Visits N p A src d st d') :
      Reached ⟨.done (.error e), fd, d'⟩
  | returned {fd : Option Nat} {d₂ d₃ : LinkedDisk} (hsync : A.syncDir ≠ none)
      (hv : Visits N p A src d .installing d₂)
      (hr : d₂.rename N p A.tmpPath A.finalPath = (d₃, .ok ())) :
      Reached ⟨.done (.ok ()), fd, d₃⟩

/-- What a call in a stage leads to. -/
inductive Follows (st : FlushStage) : LinkedFlush → Prop where
  | going {s : LinkedFlush} (h : Reached N p A src d s) (hpc : s.pc.stage ≠ none) : Follows st s
  | failed {e : Errno} {fd : Option Nat} {d' : LinkedDisk} (hsync : A.syncDir ≠ none)
      (hv : Visits N p A src d st d') : Follows st ⟨.done (.error e), fd, d'⟩
  | returned {fd : Option Nat} {d₂ d₃ : LinkedDisk} (hsync : A.syncDir ≠ none)
      (hv : Visits N p A src d .installing d₂)
      (hr : d₂.rename N p A.tmpPath A.finalPath = (d₃, .ok ())) :
      Follows st ⟨.done (.ok ()), fd, d₃⟩

end Visits

section Runs

variable {N : Namei} {p : Process} {A : FlushArgs} {src : Bytes} {d : LinkedDisk}

theorem CopiedTo.next {n : Nat} {c : FlushCall} (hc : c.stage = .copying)
    (h : CopiedTo src n (.call c)) : CopiedTo src n c.next := by
  cases c with
  | copyBuf => exact ⟨h, Nat.zero_le _⟩
  | copyPathBufs => exact h
  | fsync => exact h
  | lookupTmp => exact h
  | dupDir => exact h
  | lookupDir => exact h
  | _ => cases hc

theorem Follows.opening {pc : FlushPc} {st : FlushStage} (hsync : A.syncDir ≠ none)
    (hpc : pc.stage = some .opening) : Follows N p A src d st ⟨pc, none, d⟩ :=
  .going (.opening hsync hpc) (by simp [hpc])

theorem Follows.copying {pc : FlushPc} {st : FlushStage} {i n : Nat} {d₁ : LinkedDisk}
    (hsync : A.syncDir ≠ none) (hpc : pc.stage = some .copying)
    (ho : d.openPath N p A.tmpPath = .ok (i, d₁)) (hn : CopiedTo src n pc) :
    Follows N p A src d st ⟨pc, some i, d₁.setData i (src.take n)⟩ :=
  .going (.copying hsync hpc ho hn) (by simp [hpc])

theorem Follows.installing {pc : FlushPc} {st : FlushStage} {i : Nat} {d₁ d₂ : LinkedDisk}
    (hsync : A.syncDir ≠ none) (hpc : pc.stage = some .installing)
    (ho : d.openPath N p A.tmpPath = .ok (i, d₁))
    (ht : Touches N p A (d₁.setData i src) d₂) : Follows N p A src d st ⟨pc, some i, d₂⟩ :=
  .going (.installing hsync hpc ho ht) (by simp [hpc])

theorem opening_follows {pc : FlushPc} (hsync : A.syncDir ≠ none)
    (hpc : pc.stage = some .opening) (ans : Except Errno Nat) :
    Follows N p A src d .opening (linkedStep N p A src ⟨pc, none, d⟩ ans) := by
  cases pc with
  | call c =>
      cases ans with
      | error e => exact .failed hsync .opening
      | ok k => exact .opening hsync (c.next_stage.trans hpc)
  | openTmp =>
      cases ans with
      | error e => exact .failed hsync .opening
      | ok k =>
          simp only [linkedStep]
          split
          · exact .failed hsync .opening
          · rename_i i d₁ ho
            exact @Follows.copying N p A src d (.call .copyPathBufs) _ i 0 d₁ hsync rfl ho rfl
  | _ => cases hpc

theorem copying_follows {pc : FlushPc} {i n : Nat} {d₁ : LinkedDisk} (hsync : A.syncDir ≠ none)
    (hpc : pc.stage = some .copying) (ho : d.openPath N p A.tmpPath = .ok (i, d₁))
    (hn : CopiedTo src n pc) (ans : Except Errno Nat) :
    Follows N p A src d .copying
      (linkedStep N p A src ⟨pc, some i, d₁.setData i (src.take n)⟩ ans) := by
  cases pc with
  | call c =>
      cases ans with
      | error e => exact .failed hsync (.copying n ho)
      | ok k => exact .copying hsync (c.next_stage.trans hpc) ho (hn.next (Option.some.inj hpc))
  | read pos =>
      cases ans with
      | error e => exact .failed hsync (.copying n ho)
      | ok k =>
          obtain ⟨rfl, hpos⟩ := hn
          simp only [linkedStep]
          split
          · rename_i hnil
            have hend : src.length ≤ n := (readAt_eq_nil_iff (by omega)).mp hnil
            exact .copying hsync rfl ho (Nat.le_antisymm hpos hend)
          · rename_i b buf hbuf
            exact .copying hsync rfl ho ⟨rfl, hpos, _, hbuf.symm⟩
  | write pos buf =>
      cases ans with
      | error e => exact .failed hsync (.copying n ho)
      | ok k =>
          obtain ⟨rfl, hpos, m, rfl⟩ := hn
          simp only [linkedStep]
          split
          · rw [readAt, List.take_take, ← readAt, LinkedDisk.pwrite_setData hpos]
            exact .failed hsync (.copying _ ho)
          · rw [LinkedDisk.pwrite_setData hpos]
            exact .copying hsync rfl ho ⟨rfl, readAt_length_le src n m hpos⟩
  | touch =>
      have hall : src.take n = src := List.take_of_length_le (Nat.le_of_eq hn.symm)
      rw [hall]
      cases ans with
      | error e => exact .installing hsync rfl ho (Or.inl rfl)
      | ok k =>
          simp only [linkedStep]
          split
          · exact .installing hsync rfl ho (Or.inl rfl)
          · rename_i j d₂ hopen
            exact .installing hsync rfl ho (Or.inr ⟨j, hopen⟩)
  | _ => cases hpc

theorem installing_follows {pc : FlushPc} {i : Nat} {d₁ d₂ : LinkedDisk}
    (hsync : A.syncDir ≠ none) (hpc : pc.stage = some .installing)
    (ho : d.openPath N p A.tmpPath = .ok (i, d₁))
    (ht : Touches N p A (d₁.setData i src) d₂) (ans : Except Errno Nat) :
    Follows N p A src d .installing (linkedStep N p A src ⟨pc, some i, d₂⟩ ans) := by
  cases pc with
  | call c =>
      cases ans with
      | error e => exact .failed hsync (.installing ho ht)
      | ok k => exact .installing hsync (c.next_stage.trans hpc) ho ht
  | rename =>
      cases ans with
      | error e => exact .failed hsync (.installing ho ht)
      | ok k =>
          simp only [linkedStep]
          rcases LinkedDisk.rename_cases N p d₂ A.tmpPath A.finalPath with ⟨e, hr⟩ | ⟨d₃, hr⟩
          · rw [hr]
            exact .failed hsync (.installing ho ht)
          · rw [hr]
            exact .returned hsync (.installing ho ht) hr
  | _ => cases hpc

theorem Reached.follows {s : LinkedFlush} {st : FlushStage} (h : Reached N p A src d s)
    (hst : s.pc.stage = some st) (ans : Except Errno Nat) :
    Follows N p A src d st (linkedStep N p A src s ans) := by
  cases h with
  | opening hsync hpc =>
      cases hpc.symm.trans hst
      exact opening_follows hsync hpc ans
  | copying hsync hpc ho hn =>
      cases hpc.symm.trans hst
      exact copying_follows hsync hpc ho hn ans
  | installing hsync hpc ho ht =>
      cases hpc.symm.trans hst
      exact installing_follows hsync hpc ho ht ans
  | unbound hsync => cases hst
  | failed hsync hv => cases hst
  | returned hsync hv hr => cases hst

theorem linkedStep_ended {s : LinkedFlush} (ans : Except Errno Nat) (h : s.pc.stage = none) :
    linkedStep N p A src s ans = s := by
  obtain ⟨pc, fd, d⟩ := s
  cases pc with
  | done r => rfl
  | _ => cases h

theorem Reached.step {s : LinkedFlush} (h : Reached N p A src d s) (ans : Except Errno Nat) :
    Reached N p A src d (linkedStep N p A src s ans) := by
  cases hst : s.pc.stage with
  | none => rwa [linkedStep_ended ans hst]
  | some st =>
      have hfollows := h.follows hst ans
      generalize linkedStep N p A src s ans = s' at hfollows
      cases hfollows with
      | going h hpc => exact h
      | failed hsync hv => exact .failed hsync hv
      | returned hsync hv hr => exact .returned hsync hv hr

/-- Every answer leads to one of the states that `Reached` lists. -/
theorem linkedRun_reached (answers : List (Except Errno Nat)) :
    Reached N p A src d (linkedRun N p A src d answers) := by
  have hstart : Reached N p A src d ⟨flushStart A, none, d⟩ := by
    unfold flushStart
    cases hsync : A.syncDir with
    | none => exact .unbound hsync
    | some dir => exact .opening (by simp [hsync]) rfl
  unfold linkedRun
  generalize LinkedFlush.mk (flushStart A) none d = s at hstart
  induction answers generalizing s with
  | nil => exact hstart
  | cons ans answers ih => exact ih _ (hstart.step ans)

/-! Every disk that `Visits` lists is that of a run. -/

theorem linkedRun_append (answers rest : List (Except Errno Nat)) :
    linkedRun N p A src d (answers ++ rest) =
      rest.foldl (linkedStep N p A src) (linkedRun N p A src d answers) :=
  List.foldl_append

theorem linkedRun_opened {dir : CString} {i : Nat} {d₁ : LinkedDisk}
    (hsync : A.syncDir = some dir) (ho : d.openPath N p A.tmpPath = .ok (i, d₁)) :
    linkedRun N p A src d (List.replicate 6 (.ok 0)) = ⟨.read 0, some i, d₁.setData i []⟩ := by
  have hopen : linkedStep N p A src ⟨.openTmp, none, d⟩ (.ok 0) =
      ⟨.call .copyPathBufs, some i, d₁.setData i []⟩ := by
    simp only [linkedStep, ho]
  simp only [linkedRun, flushStart, hsync, List.replicate, List.foldl_cons, List.foldl_nil]
  change linkedStep N p A src
    (linkedStep N p A src (linkedStep N p A src ⟨.openTmp, none, d⟩ (.ok 0)) (.ok 0)) (.ok 0) = _
  rw [hopen]
  rfl

theorem linkedStep_byte {n i : Nat} {d₁ : LinkedDisk} (hn : n < src.length) :
    [.ok 1, .ok 1].foldl (linkedStep N p A src) ⟨.read n, some i, d₁.setData i (src.take n)⟩ =
      ⟨.read (n + 1), some i, d₁.setData i (src.take (n + 1))⟩ := by
  have hlen : (readAt src n 1).length = 1 := by
    simp only [readAt, List.length_take, List.length_drop]
    omega
  have hread : kernelRead src n 1 = readAt src n 1 := by simp [kernelRead, bufSize]
  have hwrite := @LinkedDisk.pwrite_setData d₁ i src n (Nat.le_of_lt hn) 1
  obtain ⟨b, hb⟩ := List.length_eq_one_iff.mp hlen
  rw [hb] at hread hwrite
  simpa [linkedStep, hread] using hwrite

theorem linked_copy_completes {n i : Nat} {d₁ : LinkedDisk} (hn : n ≤ src.length) :
    ∃ answers : List (Except Errno Nat),
      answers.foldl (linkedStep N p A src) ⟨.read n, some i, d₁.setData i (src.take n)⟩ =
        ⟨.call .fsync, some i, d₁.setData i src⟩ := by
  induction hk : src.length - n generalizing n with
  | zero =>
      have hnil : kernelRead src n 0 = [] := (readAt_eq_nil_iff (by omega)).mpr (by omega)
      refine ⟨[.ok 0], ?_⟩
      rw [List.take_of_length_le (by omega)]
      simp [linkedStep, hnil]
  | succ k ih =>
      obtain ⟨answers, hrun⟩ := @ih (n + 1) (by omega) (by omega)
      refine ⟨[.ok 1, .ok 1] ++ answers, ?_⟩
      rw [List.foldl_append, linkedStep_byte (by omega)]
      exact hrun

theorem linkedRun_copied {dir : CString} {i : Nat} {d₁ : LinkedDisk} (src : Bytes)
    (hsync : A.syncDir = some dir) (ho : d.openPath N p A.tmpPath = .ok (i, d₁)) :
    ∃ answers, linkedRun N p A src d answers = ⟨.touch, some i, d₁.setData i src⟩ := by
  obtain ⟨answers, hrun⟩ := @linked_copy_completes N p A src 0 i d₁ (Nat.zero_le _)
  refine ⟨List.replicate 6 (.ok 0) ++ answers ++ List.replicate 4 (.ok 0), ?_⟩
  rw [linkedRun_append, linkedRun_append, linkedRun_opened hsync ho]
  rw [List.take_zero] at hrun
  rw [hrun]
  rfl

theorem linkedRun_touched {dir : CString} {i : Nat} {d₁ d₂ : LinkedDisk}
    (hsync : A.syncDir = some dir) (ho : d.openPath N p A.tmpPath = .ok (i, d₁))
    (ht : Touches N p A (d₁.setData i src) d₂) :
    ∃ answers, linkedRun N p A src d answers = ⟨.call .lookupDentry, some i, d₂⟩ := by
  obtain ⟨answers, hrun⟩ := linkedRun_copied src hsync ho
  rcases ht with rfl | ⟨j, hopen⟩
  · refine ⟨answers ++ [.error eio], ?_⟩
    rw [linkedRun_append, hrun]
    rfl
  · refine ⟨answers ++ [.ok 0], ?_⟩
    rw [linkedRun_append, hrun]
    simp only [List.foldl_cons, List.foldl_nil, linkedStep, hopen]

theorem linkedRun_renamed {dir : CString} {i : Nat} {d₁ d₂ : LinkedDisk}
    (hsync : A.syncDir = some dir) (ho : d.openPath N p A.tmpPath = .ok (i, d₁))
    (ht : Touches N p A (d₁.setData i src) d₂) :
    ∃ answers, (linkedRun N p A src d answers).disk =
      (d₂.rename N p A.tmpPath A.finalPath).1 := by
  obtain ⟨answers, hrun⟩ := linkedRun_touched hsync ho ht
  refine ⟨answers ++ List.replicate 3 (.ok 0), ?_⟩
  rw [linkedRun_append, hrun]
  rfl

end Runs

end OShm.Ramfs
