import OShm.Ramfs.Dcache
import OShm.Ramfs.FlushCompare

/-! # The two branches of `ramfs_file_write_iter`

A file that is open for reading is flushed itself. One that is open for writing only is opened
again by the path it prints, and the flush is of whatever that path leads to. The two are the
same file as long as it has a name. After an unlink the path ends in ` (deleted)`, which is the
name of nothing, or of something else.
-/

namespace OShm.Ramfs

open OShm.Kernel OShm.Lib.ByteFile OShm.Lib.Ancestry OShm.Lib.PathString OShm.Lib.PathWalk

structure RamState where
  cache : Dcache
  /-- The bytes of an inode. -/
  data : Nat → Bytes
  /-- What `sb->s_fs_info->sync_dir` reads as. -/
  syncDir : Nat → Option CString
  disk : Disk

structure Moment where
  sec : Nat
  ns : Nat
  pid : Nat
  deriving DecidableEq, Repr

namespace RamState

variable (s : RamState) (m : Moment)

def args (e : Nat) (path : CString) : FlushArgs :=
  ⟨s.syncDir (s.cache.dentry e).sb, path, m.sec, m.ns, m.pid⟩

/-- The disk after a flush of the open dentry `e`. An open never ends at a link, and reading a
directory fails. -/
def flush (e : Nat) (answers : List (Except Errno Nat)) : Disk :=
  match s.cache.dPath e with
  | none => s.disk
  | some path =>
      match (s.cache.dentry e).kind with
      | .file ino => (flushRun (s.args m e path) (s.data ino) s.disk answers).2
      | _ => (flushRun (s.args m e path) [] s.disk (failRead answers)).2

/-- `filp_open(d_path(file), O_RDONLY, 0)` and a flush of what it opens. -/
def flushAgain (f : Nat) (answers : List (Except Errno Nat)) : Disk :=
  match s.cache.dPath f with
  | none => s.disk
  | some path =>
      match s.cache.openRead path with
      | none => s.disk
      | some g => s.flush m g answers

def write (ino pos : Nat) (buf : Bytes) : RamState :=
  { s with data := Function.update s.data ino (writeAt 0 (s.data ino) pos buf) }

/-- `ramfs_file_write_iter` on the open dentry `f` of the file `ino`; `readable` is
`FMODE_READ`. The answers are those to the calls of the flush. -/
def writeIter (f ino : Nat) (readable : Bool) (pos : Nat) (buf : Bytes)
    (answers : List (Except Errno Nat)) : RamState × Nat :=
  let s' := s.write ino pos buf
  if buf = [] ∨ s.syncDir (s.cache.dentry f).sb = none then (s', buf.length)
  else if readable then ({ s' with disk := s'.flush m f answers }, buf.length)
  else ({ s' with disk := s'.flushAgain m f answers }, buf.length)

/-- Both branches leave the same disk, wherever the flush stops. -/
def Agrees (f ino pos : Nat) (buf : Bytes) : Prop :=
  ∀ answers, (s.writeIter m f ino true pos buf answers).1.disk =
    (s.writeIter m f ino false pos buf answers).1.disk

/-! ## What the path may lead to -/

/-- A flush of `g` changes nothing. -/
def Quiet (g : Nat) : Prop :=
  ∀ path, s.cache.dPath g = some path →
    match (s.cache.dentry g).kind with
    | .file ino => Idle (s.args m g path) (s.data ino) s.disk
    | _ => (s.args m g path).syncDir = none ∨ s.disk (s.args m g path).tmpPath = some .dir ∨
        s.disk (s.args m g path).tmpPath = some (.file [])

/-- A flush of `g` has the effect of a flush of `src` with the arguments `A`. -/
def Lookalike (A : FlushArgs) (src : Bytes) (g : Nat) : Prop :=
  ∃ ino path, (s.cache.dentry g).kind = .file ino ∧ s.cache.dPath g = some path ∧
    (s.args m g path).syncDir ≠ none ∧ A.tmpPath = (s.args m g path).tmpPath ∧
    s.data ino = src ∧ SameTarget A (s.args m g path) src s.disk

/-- What the path leads to can be flushed in place of a file that holds `src`. -/
def StandsIn (f : Nat) (src : Bytes) (path : CString) : Prop :=
  s.disk (s.args m f path).tmpPath = some .dir ∧
      (∀ g, s.cache.openRead path = some g → s.Quiet m g) ∨
    s.disk (s.args m f path).tmpPath ≠ some .dir ∧
      ∃ g, s.cache.openRead path = some g ∧ s.Lookalike m (s.args m f path) src g

variable {s m}

theorem flush_quiet_iff {g : Nat} :
    (∀ answers, s.flush m g answers = s.disk) ↔ s.Quiet m g := by
  unfold flush Quiet
  cases s.cache.dPath g with
  | none => simp
  | some path =>
      simp only [Option.some.injEq, forall_eq']
      cases (s.cache.dentry g).kind with
      | file ino => exact no_effect_iff
      | dir => exact failRead_no_effect_iff
      | link text => exact failRead_no_effect_iff

section Openable

variable {A : FlushArgs} {src : Bytes} (hsync : A.syncDir ≠ none)
  (hdir : s.disk A.tmpPath ≠ some .dir) (hsrc : src ≠ [])

include hsync hdir hsrc

theorem not_no_effect : ¬ ∀ answers, (flushRun A src s.disk answers).2 = s.disk := by
  rw [no_effect_iff]
  rintro (h | h | ⟨-, h, -⟩)
  · exact hsync h
  · exact hdir h
  · exact hsrc h

theorem flush_lookalike_iff {g : Nat} :
    (∀ answers, (flushRun A src s.disk answers).2 = s.flush m g answers) ↔
      s.Lookalike m A src g := by
  unfold flush Lookalike
  cases s.cache.dPath g with
  | none => simpa using not_no_effect hsync hdir hsrc
  | some path =>
      cases (s.cache.dentry g).kind with
      | file ino =>
          rw [same_effect_iff hsync hdir hsrc]
          simp
      | dir => simpa using effect_ne_of_failRead hsync hdir hsrc (s.args m g path)
      | link text => simpa using effect_ne_of_failRead hsync hdir hsrc (s.args m g path)

end Openable

/-! ## Agreement -/

theorem write_cache (ino pos : Nat) (buf : Bytes) : (s.write ino pos buf).cache = s.cache := rfl

theorem write_data (ino pos : Nat) (buf : Bytes) :
    (s.write ino pos buf).data ino = writeAt 0 (s.data ino) pos buf :=
  Function.update_self _ _ _

theorem agrees_iff_flush {f ino pos : Nat} {buf : Bytes} (hbuf : buf ≠ [])
    (hsync : s.syncDir (s.cache.dentry f).sb ≠ none) :
    s.Agrees m f ino pos buf ↔ ∀ answers,
      (s.write ino pos buf).flush m f answers = (s.write ino pos buf).flushAgain m f answers := by
  have hskip : ¬ (buf = [] ∨ s.syncDir (s.cache.dentry f).sb = none) := not_or.mpr ⟨hbuf, hsync⟩
  simp [Agrees, writeIter, hskip]

theorem flushAgain_linked {f ino : Nat} (hf : (s.cache.dentry f).kind = .file ino)
    (hh : (s.cache.dentry f).hashed = true) (answers : List (Except Errno Nat)) :
    s.flushAgain m f answers = s.flush m f answers := by
  unfold flushAgain
  cases hpath : s.cache.dPath f with
  | none => simp [flush, hpath]
  | some path => simp only [Dcache.openRead_dPath hf hh hpath]

theorem agrees_of_linked {f ino pos : Nat} {buf : Bytes}
    (hf : (s.cache.dentry f).kind = .file ino) (hh : (s.cache.dentry f).hashed = true) :
    s.Agrees m f ino pos buf := by
  by_cases hskip : buf = [] ∨ s.syncDir (s.cache.dentry f).sb = none
  · simp [Agrees, writeIter, hskip]
  · obtain ⟨hbuf, hsync⟩ := not_or.mp hskip
    rw [agrees_iff_flush hbuf hsync]
    intro answers
    exact (@flushAgain_linked (s.write ino pos buf) m f ino hf hh answers).symm

/-- The two flushes of an unlinked file, by what the printed path leads to. -/
theorem flush_eq_flushAgain_iff {f ino : Nat} (hf : (s.cache.dentry f).kind = .file ino)
    (hsync : s.syncDir (s.cache.dentry f).sb ≠ none) (hsrc : s.data ino ≠ []) :
    (∀ answers, s.flush m f answers = s.flushAgain m f answers) ↔
      ∀ path, s.cache.dPath f = some path → s.StandsIn m f (s.data ino) path := by
  cases hpath : s.cache.dPath f with
  | none => simp [flush, flushAgain, hpath]
  | some path =>
      have hflush : ∀ answers, s.flush m f answers =
          (flushRun (s.args m f path) (s.data ino) s.disk answers).2 := by
        intro answers
        simp only [flush, hpath, hf]
      simp only [hflush, flushAgain, hpath, Option.some.injEq, forall_eq']
      unfold StandsIn
      by_cases hdir : s.disk (s.args m f path).tmpPath = some .dir
      · -- the direct flush does nothing, so the other must not either
        simp only [flushRun_refused (Or.inr hdir), hdir, true_and, ne_eq, not_true_eq_false,
          false_and, or_false]
        cases s.cache.openRead path with
        | none => simp
        | some g => simpa [eq_comm] using flush_quiet_iff
      · simp only [hdir, false_and, false_or, ne_eq, not_false_eq_true, true_and]
        cases s.cache.openRead path with
        | none => simpa using not_no_effect hsync hdir hsrc
        | some g => simpa using flush_lookalike_iff hsync hdir hsrc

/-- Renames and the coming and going of other names make no difference. -/
theorem agrees_after {s' : RamState} {f ino sb pos : Nat} {buf : Bytes}
    (h : s.cache.IsLinked f ino sb) (hk : Dcache.Keeps f s.cache s'.cache) :
    s'.Agrees m f ino pos buf :=
  agrees_of_linked (h.keeps hk).kind (h.keeps hk).hashed

theorem not_agrees_of_missing {f ino pos : Nat} {buf : Bytes} {path : CString} (hbuf : buf ≠ [])
    (hf : (s.cache.dentry f).kind = .file ino)
    (hsync : s.syncDir (s.cache.dentry f).sb ≠ none) (hpath : s.cache.dPath f = some path)
    (hdir : s.disk (s.args m f path).tmpPath ≠ some .dir)
    (hmissing : s.cache.openRead path = none) : ¬ s.Agrees m f ino pos buf := by
  have hdata : (s.write ino pos buf).data ino ≠ [] := by
    rw [write_data]
    exact writeAt_ne_nil 0 _ pos hbuf
  rw [agrees_iff_flush hbuf hsync, @flush_eq_flushAgain_iff (s.write ino pos buf) m f ino hf hsync
    hdata]
  intro h
  rcases h path hpath with ⟨hd, -⟩ | ⟨-, g, hopen, -⟩
  · exact hdir hd
  · exact absurd (hmissing.symm.trans hopen) (by simp)

end RamState

/-! ## A file that is unlinked while it is open -/

theorem unused_named : Component slash (ascii "unused") ∧ Plain special (ascii "unused") := by
  decide

def bareRoot : Dcache where
  root := 0
  dentry e := ⟨0, ascii "unused", e = 0, if e = 0 then .dir else .file 0, 0⟩
  find _ _ := none
  height := 1
  rooted _ := rfl
  root_dir := rfl
  named _ _ := unused_named
  find_iff _ _ _ := ⟨nofun, fun h => absurd (of_decide_eq_true h.2.1) h.1⟩
  above _ he hh := absurd (of_decide_eq_true hh) he

theorem bareRoot_fits : bareRoot.Fits 1 0 (ascii "r") .dir where
  ne_root := Nat.one_ne_zero
  inside := ⟨rfl, Or.inl rfl⟩
  not_above n := by
    rw [Function.iterate_fixed rfl]
    exact Nat.zero_ne_one
  named := by decide
  free x hx := nomatch hx
  kind := Or.inr fun x hx hh => absurd (of_decide_eq_true hh) hx

def emptyRamfs : Dcache := bareRoot.place 1 0 (ascii "r") .dir 1 bareRoot_fits

theorem emptyRamfs_parent_ne {x e : Nat} (he : e ≠ 0) : (emptyRamfs.dentry x).parent ≠ e := by
  intro h
  by_cases hx : x = 1
  · subst hx
    exact he h.symm
  · have hother : emptyRamfs.dentry x = bareRoot.dentry x := Function.update_of_ne hx _ _
    rw [hother] at h
    exact he h.symm

theorem emptyRamfs_fits : emptyRamfs.Fits 2 1 (ascii "x") (.file 7) where
  ne_root := by decide
  inside := ⟨rfl, Or.inr rfl⟩
  not_above n := by
    cases n with
    | zero => decide
    | succ n =>
        rw [Function.iterate_succ_apply']
        exact emptyRamfs_parent_ne (by decide)
  named := by decide
  free x hx := nomatch hx
  kind := Or.inr fun _ _ _ => emptyRamfs_parent_ne (by decide)

def linkedFile : Dcache := emptyRamfs.place 2 1 (ascii "x") (.file 7) 1 emptyRamfs_fits

theorem linkedFile_empty : linkedFile.Empty 2 := by
  intro x _ _ h
  by_cases hx : x = 2
  · subst hx
    cases h
  · have hother : linkedFile.dentry x = emptyRamfs.dentry x := Function.update_of_ne hx _ _
    rw [hother] at h
    exact emptyRamfs_parent_ne (by decide) h

def unlinkedFile : Dcache := linkedFile.unlink 2 linkedFile_empty

def boundRamfs (cache : Dcache) : RamState :=
  ⟨cache, fun _ => [], fun sb => if sb = 1 then some (ascii "/p") else none, fun _ => none⟩

end OShm.Ramfs
