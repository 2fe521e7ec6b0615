import OShm.Ramfs.SimpleOps

/-! # Every run keeps the tree

Any sequence of the operations of `Inodes` on a mounted ramfs, mixed with operations of the
kernel's library. The file system core calls an operation that makes a name only after it has
looked at the directory, and with the type bits that go with the call.
-/

namespace OShm.Ramfs

open OShm.Kernel OShm.Lib

inductive NameAction where
  | mknod (dir : Nat) (name : CString) (mode : Nat) (mem : Option Nat)
  | create (dir : Nat) (name : CString) (mode : Nat) (mem : Option Nat)
  | mkdir (dir : Nat) (name : CString) (mode : Nat) (mem : Option Nat)
  | symlink (dir : Nat) (name text : CString) (mem : Option Nat) (page : Except Errno Unit)
  /-- `open` with `O_TMPFILE`, and `O_EXCL` or not. -/
  | tmpfile (mode : Nat) (excl : Bool) (mem : Option Nat)
  | link (i dir : Nat) (name : CString)
  | unlink (dir : Nat) (name : CString)
  | rmdir (dir : Nat) (name : CString)
  | rename (dir : Nat) (name : CString) (dir' : Nat) (name' : CString) (noreplace : Bool)

namespace RamTree

/-- What `new_inode` may answer. -/
def Fresh (s : RamTree) (mem : Option Nat) : Prop := ∀ i, mem = some i → s.inode i = none

instance (s : RamTree) (mem : Option Nat) : Decidable (s.Fresh mem) :=
  match mem with
  | none => isTrue (fun _ h => nomatch h)
  | some i =>
      decidable_of_iff (s.inode i = none) ⟨fun h _ hx => Option.some.inj hx ▸ h, fun h => h i rfl⟩

/-- What the core has found out about the directory and the name. -/
structure CanCreate (s : RamTree) (dir : Nat) (name : CString) : Prop where
  live : s.LiveDir dir
  free : s.lookup dir name = none

theorem canCreate_iff {s : RamTree} {dir : Nat} {name : CString} :
    s.CanCreate dir name ↔
      (s.inode dir).any (fun n => n.isDir && !n.dead) = true ∧ s.lookup dir name = none := by
  have hlive : s.LiveDir dir ↔ (s.inode dir).any (fun n => n.isDir && !n.dead) = true := by
    simp [LiveDir, Option.any_eq_true]
  rw [← hlive]
  exact ⟨fun h => ⟨h.live, h.free⟩, fun h => ⟨h.1, h.2⟩⟩

instance (s : RamTree) (dir : Nat) (name : CString) : Decidable (s.CanCreate dir name) :=
  decidable_of_iff _ canCreate_iff.symm

/-- `ramfs_tmpfile`, and the flag that the core sets in the inode afterwards. -/
def vfsTmpfile (s : RamTree) (mode : Nat) (excl : Bool) (mem : Option Nat) :
    RamTree × Except Errno Unit :=
  match s.ramfsTmpfile mode mem with
  | .error e => (s, .error e)
  | .ok (s', i) =>
      match s'.inode i with
      | none => (s', .ok ())
      | some n => (s'.setInode i { n with linkable := !excl }, .ok ())

def step (L : LibraryOps) (s : RamTree) : NameAction → Option (RamTree × Except Errno Unit)
  | .mknod dir name mode mem =>
      if s.Fresh mem ∧ s.CanCreate dir name ∧ mode &&& sIfmt ≠ sIfdir then
        some (s.ramfsMknod dir name mode mem)
      else none
  | .create dir name mode mem =>
      if s.Fresh mem ∧ s.CanCreate dir name then some (s.ramfsCreate dir name mode mem) else none
  | .mkdir dir name mode mem =>
      if s.Fresh mem ∧ s.CanCreate dir name ∧ mode &&& sIfmt = 0 then
        some (s.ramfsMkdir dir name mode mem)
      else none
  | .symlink dir name text mem page =>
      if s.Fresh mem ∧ s.CanCreate dir name then some (s.ramfsSymlink dir name text mem page)
      else none
  | .tmpfile mode excl mem =>
      if s.Fresh mem ∧ mode &&& sIfmt ≠ sIfdir then some (s.vfsTmpfile mode excl mem) else none
  | .link i dir name => some (L.link s i dir name)
  | .unlink dir name => some (L.unlink s dir name)
  | .rmdir dir name => some (L.rmdir s dir name)
  | .rename dir name dir' name' noreplace => some (L.rename s dir name dir' name' noreplace)

end RamTree

def ramTree (L : LibraryOps) : System RamTree NameAction (Except Errno Unit) := ⟨RamTree.step L⟩

namespace RamTree

variable {s s' : RamTree} {i dir : Nat} {name : CString} {n : Inode}

/-! ## The operations of ramfs -/

theorem admits_new (hd : s.LiveDir dir) (hfree : s.lookup dir name = none)
    (h : s.inode i = none) (hl : n.dead = false) : (s.setInode i n).Admits ⟨dir, name, i⟩ where
  inside := (liveDir_new h hl dir).mpr (Or.inl hd)
  free := not_mem_of_lookup hfree
  known := ⟨n, by simp [setInode], fun _ => hl⟩

theorem Sound.newFile (hs : s.Sound none settled) (hd : s.LiveDir dir)
    (hfree : s.lookup dir name = none) (h : s.inode i = none) (hf : n.isDir = false)
    (hl : n.dead = false) (hn : n.nlink = 1) :
    ((s.setInode i n).addName ⟨dir, name, i⟩).Sound none settled := by
  have hnew := hs.new (m := 1) h hl (by simp [hf, hn])
  rw [if_neg (by simp [hf])] at hnew
  have hfile : (s.setInode i n).isDir i = false := by
    rw [isDir_of_inode (n := n) (by simp [setInode]), hf]
  refine (hnew.addFile (admits_new hd hfree h hl) hfile).of_zero fun x => ?_
  simp [settled, Function.update_apply]

theorem Sound.newDir (hs : s.Sound none settled) (hsmall : s.Small) (hd : s.LiveDir dir)
    (hfree : s.lookup dir name = none) (h : s.inode i = none) (hf : n.isDir = true)
    (hl : n.dead = false) (hn : n.nlink = 2) :
    (((s.setInode i n).addName ⟨dir, name, i⟩).incNlink dir).Sound none settled := by
  have hnew := hs.new (m := 0) h hl (by simp [hf, hn])
  rw [if_pos hf] at hnew
  have hup : ∀ k, s.parent^[k] dir ≠ i := by
    intro k heq
    obtain ⟨x, hx, -⟩ := hs.shape.liveDir_chain hd k
    rw [heq, h] at hx
    cases hx
  have hadd := Sound.addDir (e := ⟨dir, name, i⟩) hnew (admits_new hd hfree h hl) hup
  have hne : dir ≠ i := hup 0
  obtain ⟨x, hx, hpos⟩ := hnew.dir_pos (i := dir) hsmall ((liveDir_new h hl dir).mpr (Or.inl hd))
    (by simp [settled, hne])
  refine (hadd.inc hx (Or.inl hpos)).of_zero fun y => ?_
  simp only [settled, Function.update_apply]
  split <;> simp_all

/-- `d_tmpfile` leaves the inode without a link. -/
theorem Sound.newTmp (hs : s.Sound none settled) (h : s.inode i = none) (hf : n.isDir = false)
    (hl : n.dead = false) (hn : n.nlink = 1) :
    ((s.setInode i n).dropNlink i).Sound none settled := by
  have hnew := hs.new (m := 1) h hl (by simp [hf, hn])
  rw [if_neg (by simp [hf])] at hnew
  have hi : (s.setInode i n).inode i = some n := by simp [setInode]
  refine (hnew.drop hi (by simp [hn])).of_zero fun x => ?_
  simp [settled, Function.update_apply]

theorem Sound.mknod (hs : s.Sound none settled) {mode : Nat} {mem : Option Nat}
    (hc : s.CanCreate dir name) (hfresh : s.Fresh mem) (hm : mode &&& sIfmt ≠ sIfdir) :
    (s.ramfsMknod dir name mode mem).1.Sound none settled := by
  cases mem with
  | none => exact hs
  | some i =>
      exact hs.newFile hc.live hc.free (hfresh i rfl) (by simpa [Inode.isDir] using hm) rfl
        (by simp [hm])

theorem Sound.mkdir (hs : s.Sound none settled) (hsmall : s.Small) {mode : Nat} {mem : Option Nat}
    (hc : s.CanCreate dir name) (hfresh : s.Fresh mem) (hm : mode &&& sIfmt = 0) :
    (s.ramfsMkdir dir name mode mem).1.Sound none settled := by
  have hd : (mode ||| sIfdir) &&& sIfmt = sIfdir := by
    rw [Nat.and_or_distrib_right, hm, Nat.zero_or]
    decide
  cases mem with
  | none => exact hs
  | some i =>
      exact hs.newDir hsmall hc.live hc.free (hfresh i rfl) (by simpa [Inode.isDir] using hd) rfl
        (by simp [hd])

theorem or_sIfreg_ne_sIfdir (mode : Nat) : (mode ||| sIfreg) &&& sIfmt ≠ sIfdir := by
  intro h
  have hbit : ((mode ||| sIfreg) &&& sIfmt).testBit 15 = sIfdir.testBit 15 := by rw [h]
  have hreg : sIfreg.testBit 15 = true := by decide
  have hfmt : sIfmt.testBit 15 = true := by decide
  have hdir : sIfdir.testBit 15 = false := by decide
  rw [Nat.testBit_and, Nat.testBit_or, hreg, hfmt, hdir] at hbit
  simp at hbit

theorem Sound.symlink (hs : s.Sound none settled) {text : CString} {mem : Option Nat}
    {page : Except Errno Unit} (hc : s.CanCreate dir name) (hfresh : s.Fresh mem) :
    (s.ramfsSymlink dir name text mem page).1.Sound none settled := by
  cases mem with
  | none => exact hs
  | some i =>
      cases page with
      | error e => exact hs
      | ok u =>
          have hm : (sIflnk ||| 0o777) &&& sIfmt ≠ sIfdir := by decide
          have hfinal := hs.newFile (n := ⟨sIflnk ||| 0o777, 1, false, false, text⟩) hc.live
            hc.free (hfresh i rfl) (by simpa [Inode.isDir] using hm) rfl rfl
          simpa [ramfsSymlink, ramfsGetInode, setInode, sIflnk, sIfmt, sIfdir] using hfinal

theorem Sound.tmpfile (hs : s.Sound none settled) {mode : Nat} {excl : Bool} {mem : Option Nat}
    (hfresh : s.Fresh mem) (hm : mode &&& sIfmt ≠ sIfdir) :
    (s.vfsTmpfile mode excl mem).1.Sound none settled := by
  cases mem with
  | none => exact hs
  | some i =>
      have htmp := hs.newTmp (n := ⟨mode, 1, false, false, []⟩) (hfresh i rfl)
        (by simpa [Inode.isDir] using hm) rfl rfl
      simp only [vfsTmpfile, ramfsTmpfile, ramfsGetInode, hm, if_false]
      split
      · exact htmp
      · rename_i n hn
        exact htmp.mark hn rfl rfl rfl

theorem Sound.step {L : LibraryOps} (hL : L.Lawful) {a : NameAction} {r : Except Errno Unit}
    (hs : s.Sound none settled) (hsmall : s.Small) (h : (ramTree L).step s a = some (s', r)) :
    s'.Sound none settled := by
  cases a with
  | mknod dir name mode mem =>
      simp only [ramTree, RamTree.step, Option.ite_none_right_eq_some, Option.some.injEq] at h
      obtain ⟨⟨hfresh, hc, hm⟩, heq⟩ := h
      have hend := hs.mknod hc hfresh hm
      rwa [heq] at hend
  | create dir name mode mem =>
      simp only [ramTree, RamTree.step, Option.ite_none_right_eq_some, Option.some.injEq] at h
      obtain ⟨⟨hfresh, hc⟩, heq⟩ := h
      have hend : (s.ramfsCreate dir name mode mem).1.Sound none settled :=
        hs.mknod hc hfresh (or_sIfreg_ne_sIfdir mode)
      rwa [heq] at hend
  | mkdir dir name mode mem =>
      simp only [ramTree, RamTree.step, Option.ite_none_right_eq_some, Option.some.injEq] at h
      obtain ⟨⟨hfresh, hc, hm⟩, heq⟩ := h
      have hend := hs.mkdir hsmall hc hfresh hm
      rwa [heq] at hend
  | symlink dir name text mem page =>
      simp only [ramTree, RamTree.step, Option.ite_none_right_eq_some, Option.some.injEq] at h
      obtain ⟨⟨hfresh, hc⟩, heq⟩ := h
      have hend : (s.ramfsSymlink dir name text mem page).1.Sound none settled :=
        hs.symlink hc hfresh
      rwa [heq] at hend
  | tmpfile mode excl mem =>
      simp only [ramTree, RamTree.step, Option.ite_none_right_eq_some, Option.some.injEq] at h
      obtain ⟨⟨hfresh, hm⟩, heq⟩ := h
      have hend : (s.vfsTmpfile mode excl mem).1.Sound none settled := hs.tmpfile hfresh hm
      rwa [heq] at hend
  | link i dir name =>
      have hend := hL.link_keeps i dir name hs hsmall
      rwa [Option.some.inj h] at hend
  | unlink dir name =>
      have hend := hL.unlink_keeps dir name hs hsmall
      rwa [Option.some.inj h] at hend
  | rmdir dir name =>
      have hend := hL.rmdir_keeps dir name hs hsmall
      rwa [Option.some.inj h] at hend
  | rename dir name dir' name' noreplace =>
      have hend := hL.rename_keeps dir name dir' name' noreplace hs hsmall
      rwa [Option.some.inj h] at hend

/-! ## Whole runs -/

theorem sound_mounted (root mode : Nat) : (mounted root mode).Sound none settled := by
  have hm : (sIfdir ||| (mode &&& sIallugo)) &&& sIfmt = sIfdir := by
    have hperm : sIallugo &&& sIfmt = 0 := by decide
    rw [Nat.and_or_distrib_right, Nat.and_assoc, hperm, Nat.and_zero, Nat.or_zero]
    decide
  have hlive : ∀ d, (mounted root mode).LiveDir d ↔ d = root := by
    intro d
    by_cases hd : d = root
    · simp [LiveDir, mounted, hd, Inode.isDir, hm]
    · simp [LiveDir, mounted, hd]
  refine ⟨⟨(hlive _).mpr rfl, ?_, ?_, ?_, ?_, ?_, ?_, ?_, ?_, ?_, ?_⟩, ?_, rfl⟩
  · simp [mounted]
  · simp [mounted]
  · simp [mounted]
  · simp [mounted]
  · simp [mounted]
  · intro d hd hdr
    exact absurd ((hlive d).mp hd) hdr
  · simp [mounted]
  · exact fun x => rfl
  · simp [mounted]
  · simp
  · intro i n hn
    by_cases hi : i = root
    · have hroot : (⟨sIfdir ||| (mode &&& sIallugo), 2, false, false, []⟩ : Inode) = n := by
        simpa [mounted, hi] using hn
      subst hroot
      simp [due, Inode.isDir, hm, subdirs, mounted, settled]
    · simp [mounted, hi] at hn

theorem sound_run {L : LibraryOps} (hL : L.Lawful) {root mode : Nat} {acts : List NameAction}
    {tr : List (Except Errno Unit)} (hr : (ramTree L).run (mounted root mode) acts = some (s, tr))
    (hsmall : (ramTree L).Along (fun s _ => s.Small) (mounted root mode) acts) :
    s.Sound none settled := by
  have keep : ∀ {s a s' r}, s.Sound none settled → s.Small → (ramTree L).step s a = some (s', r) →
      s'.Sound none settled := fun hs hsmall h => hs.step hL hsmall h
  exact (ramTree L).along_invariant keep (sound_mounted root mode) hsmall hr

def Leads (s : RamTree) (d d' : Nat) : Prop := ∃ e ∈ s.entries, e.dir = d ∧ e.ino = d'

theorem Shape.reachable (hs : s.Shape none) {d : Nat} (h : s.LiveDir d) :
    Relation.ReflTransGen s.Leads s.root d := by
  induction d using hs.rooted.induction with
  | hroot => exact .refl
  | hdown d hd ih =>
      obtain ⟨e, he, hino⟩ := hs.named d h hd (by simp)
      have hparent : s.parent d = e.dir := by
        rw [← hino]
        exact hs.placed e he (hino ▸ h.isDir)
      rw [hparent] at ih
      exact (ih (hs.inside e he)).tail ⟨e, he, rfl, hino⟩

theorem Sound.dir_links (hs : s.Sound none settled) (hsmall : s.Small) (h : s.inode i = some n)
    (hd : n.isDir = true) (hl : n.dead = false) : n.nlink.toNat = 2 + s.subdirs i := by
  have hle := s.subdirs_le i
  have hc := hs.counts i n h
  unfold Small at hsmall
  simp only [due, hd, hl, settled, if_true, Bool.false_eq_true, if_false, Int.add_zero] at hc
  have htoNat := @toNat_ofInt_of_small ((2 + s.subdirs i : Nat) : Int) (by omega) (by omega)
  rw [← hc] at htoNat
  omega

theorem Sound.file_links (hs : s.Sound none settled) (hsmall : s.Small) (h : s.inode i = some n)
    (hd : n.isDir = false) : n.nlink.toNat = s.names i := by
  have hle := s.names_le i
  have hc := hs.counts i n h
  unfold Small at hsmall
  simp only [due, hd, settled, Bool.false_eq_true, if_false, Int.add_zero] at hc
  have htoNat := @toNat_ofInt_of_small (s.names i : Int) (by omega) (by omega)
  rw [← hc] at htoNat
  omega

end RamTree

/-- Directories made, moved over an empty one and into another one, a link and a temporary file. -/
def ramTreeOperations : List NameAction :=
  [.mkdir 1 (ascii "a") 0o755 (some 2), .mkdir 1 (ascii "b") 0o755 (some 3),
    .mkdir 2 (ascii "c") 0o755 (some 4), .create 4 (ascii "f") 0o644 (some 5),
    .link 5 1 (ascii "g"), .rename 2 (ascii "c") 1 (ascii "b") false,
    .rename 1 (ascii "a") 4 (ascii "a") false, .tmpfile 0o100600 false (some 6),
    .link 6 2 (ascii "t"), .unlink 4 (ascii "f"), .rename 1 (ascii "b") 2 (ascii "x") false,
    .rmdir 4 (ascii "a")]

end OShm.Ramfs
