import Mathlib.Data.List.Perm.Lattice
import OShm.Lib.Ancestry
import OShm.Ramfs.Inodes

/-! # Link counts and the shape of the tree

Every operation is made of a few small changes: a link count goes up or down, a name comes or
goes, an inode is new, a directory dies. Between them the link counts are off by what is still
owed, and a directory may be out of its place. Each change has one lemma that says so, and every
operation ends with nothing owed and no directory out of place.
-/

namespace OShm.Ramfs

open OShm.Kernel OShm.Lib

namespace RamTree

variable {s s' : RamTree} {i j : Nat} {n n' : Inode} {e e' : Named}

def subdirs (s : RamTree) (d : Nat) : Nat := s.entries.countP fun e => e.dir = d ∧ s.isDir e.ino

def names (s : RamTree) (i : Nat) : Nat := s.entries.countP fun e => e.ino = i

def due (s : RamTree) (i : Nat) (n : Inode) : Nat :=
  if n.isDir then if n.dead then 0 else 2 + s.subdirs i else s.names i

/-- A directory that names can be put in. -/
def LiveDir (s : RamTree) (d : Nat) : Prop :=
  ∃ n, s.inode d = some n ∧ n.isDir = true ∧ n.dead = false

/-- The tree, with at most the directory `hole` out of its place. -/
structure Shape (s : RamTree) (hole : Option Nat) : Prop where
  root_dir : s.LiveDir s.root
  not_root : ∀ e ∈ s.entries, e.ino ≠ s.root
  inside : ∀ e ∈ s.entries, s.LiveDir e.dir
  known : ∀ e ∈ s.entries, ∃ n, s.inode e.ino = some n ∧ (n.isDir = true → n.dead = false)
  keys : (s.entries.map Named.key).Nodup
  one_name : ∀ e ∈ s.entries, ∀ e' ∈ s.entries, s.isDir e.ino = true → e.ino = e'.ino → e = e'
  named : ∀ d, s.LiveDir d → d ≠ s.root → hole ≠ some d → ∃ e ∈ s.entries, e.ino = d
  placed : ∀ e ∈ s.entries, s.isDir e.ino = true → s.parent e.ino = e.dir
  rooted : Ancestry.Rooted s.parent s.root s.height
  pinned : s.pins.Perm (s.entries.map Named.key)
  hole_free : ∀ d, hole = some d → d ≠ s.root ∧ s.LiveDir d ∧ ∀ e ∈ s.entries, e.ino ≠ d

/-- Link counts are what they should be but for what is owed, up to their width. -/
def Counts (s : RamTree) (owe : Nat → Int) : Prop :=
  ∀ i n, s.inode i = some n → n.nlink = BitVec.ofInt 32 (s.due i n + owe i)

def settled : Nat → Int := fun _ => 0

structure Sound (s : RamTree) (hole : Option Nat) (owe : Nat → Int) : Prop where
  shape : s.Shape hole
  counts : s.Counts owe
  quiet : s.warned = false

/-! ## What the parts see -/

theorem isDir_of_inode (h : s.inode i = some n) : s.isDir i = n.isDir := by simp [isDir, h]

theorem LiveDir.isDir (h : s.LiveDir i) : s.isDir i = true := by
  obtain ⟨n, hn, hd, -⟩ := h
  rw [isDir_of_inode hn, hd]

theorem isDir_setInode_of_ne (h : j ≠ i) : (s.setInode i n).isDir j = s.isDir j := by
  simp [RamTree.isDir, setInode, h]

theorem isDir_setInode (h : s.inode i = some n) (hm : n'.mode = n.mode) :
    (s.setInode i n').isDir = s.isDir := by
  funext j
  by_cases hj : j = i
  · subst hj
    simp [RamTree.isDir, setInode, h, Inode.isDir, hm]
  · exact isDir_setInode_of_ne hj

theorem due_congr (hent : s'.entries = s.entries) (hdir : s'.isDir = s.isDir)
    (hm : n'.isDir = n.isDir) (hd : n'.dead = n.dead) : s'.due i n' = s.due i n := by
  simp only [due, subdirs, names, hent, hdir, hm, hd]

theorem mem_of_lookup {dir : Nat} {name : CString} (h : s.lookup dir name = some i) :
    ⟨dir, name, i⟩ ∈ s.entries := by
  obtain ⟨e, he, rfl⟩ := Option.map_eq_some_iff.mp h
  have hkey : e.key = (dir, name) := by simpa using List.find?_some he
  have hmem := List.mem_of_find?_eq_some he
  obtain ⟨rfl, rfl⟩ := Prod.mk.inj hkey
  exact hmem

theorem not_mem_of_lookup {dir : Nat} {name : CString} (h : s.lookup dir name = none) :
    (dir, name) ∉ s.entries.map Named.key := by
  intro hmem
  obtain ⟨e, he, hkey⟩ := List.mem_map.mp hmem
  have hnone := List.find?_eq_none.mp (Option.map_eq_none_iff.mp h) e he
  simp [hkey] at hnone

/-! ## Changing a link count -/

variable {hole : Option Nat} {owe : Nat → Int}

theorem liveDir_setInode (n' : Inode) (h : s.inode i = some n) (hm : n'.mode = n.mode)
    (hd : n'.dead = n.dead) (d : Nat) : (s.setInode i n').LiveDir d ↔ s.LiveDir d := by
  unfold LiveDir
  by_cases hdi : d = i
  · subst hdi
    simp [setInode, h, Inode.isDir, hm, hd]
  · simp [setInode, hdi]

theorem Shape.setInode (hs : s.Shape hole) (h : s.inode i = some n) (hm : n'.mode = n.mode)
    (hd : n'.dead = n.dead) : (s.setInode i n').Shape hole := by
  have hdir := isDir_setInode h hm
  have hlive := liveDir_setInode n' h hm hd
  constructor
  · exact (hlive _).mpr hs.root_dir
  · exact hs.not_root
  · exact fun e he => (hlive _).mpr (hs.inside e he)
  · intro e he
    obtain ⟨k, hk, hdead⟩ := hs.known e he
    by_cases hei : e.ino = i
    · rw [hei, h, Option.some.injEq] at hk
      subst hk
      refine ⟨n', by simp [RamTree.setInode, hei], fun hn' => hd.trans (hdead ?_)⟩
      simpa [Inode.isDir, hm] using hn'
    · exact ⟨k, by simpa [RamTree.setInode, hei] using hk, hdead⟩
  · exact hs.keys
  · intro e he e' he' hed
    rw [hdir] at hed
    exact hs.one_name e he e' he' hed
  · exact fun d hld => hs.named d ((hlive d).mp hld)
  · intro e he hed
    rw [hdir] at hed
    exact hs.placed e he hed
  · exact hs.rooted
  · exact hs.pinned
  · intro d hhole
    obtain ⟨h₁, h₂, h₃⟩ := hs.hole_free d hhole
    exact ⟨h₁, (hlive d).mpr h₂, h₃⟩

theorem Counts.setInode (hc : s.Counts owe) (n' : Inode) (h : s.inode i = some n)
    (hm : n'.mode = n.mode) (hd : n'.dead = n.dead) {δ : Int}
    (hlink : n'.nlink = n.nlink + BitVec.ofInt 32 δ) :
    (s.setInode i n').Counts (Function.update owe i (owe i + δ)) := by
  have hdir := isDir_setInode h hm
  intro j k hk
  by_cases hj : j = i
  · subst hj
    obtain rfl : n' = k := by simpa [RamTree.setInode] using hk
    have hdue : (s.setInode j n').due j n' = s.due j n :=
      due_congr rfl hdir (by simp [Inode.isDir, hm]) hd
    rw [Function.update_self, hdue, hlink, hc j n h, ← BitVec.ofInt_add, Int.add_assoc]
  · have hk' : s.inode j = some k := by simpa [RamTree.setInode, hj] using hk
    have hdue : (s.setInode i n').due j k = s.due j k := due_congr rfl hdir rfl rfl
    rw [Function.update_of_ne hj, hdue]
    exact hc j k hk'

theorem Sound.relink (hs : s.Sound hole owe) (h : s.inode i = some n) {m : BitVec 32} {δ : Int}
    (hlink : m = n.nlink + BitVec.ofInt 32 δ) {w : Bool} (hw : w = false) :
    Sound { s.setInode i { n with nlink := m } with warned := w } hole
      (Function.update owe i (owe i + δ)) := by
  have hshape : (s.setInode i { n with nlink := m }).Shape hole := hs.shape.setInode h rfl rfl
  have hcounts : (s.setInode i { n with nlink := m }).Counts (Function.update owe i (owe i + δ)) :=
    hs.counts.setInode { n with nlink := m } h rfl rfl hlink
  exact ⟨⟨hshape.root_dir, hshape.not_root, hshape.inside, hshape.known, hshape.keys,
    hshape.one_name, hshape.named, hshape.placed, hshape.rooted, hshape.pinned,
    hshape.hole_free⟩, hcounts, hw⟩

theorem Sound.inc (hs : s.Sound hole owe) (h : s.inode i = some n)
    (hpos : n.nlink ≠ 0#32 ∨ n.linkable = true) :
    (s.incNlink i).Sound hole (Function.update owe i (owe i + 1)) := by
  simp only [incNlink, h]
  have hplus : n.nlink + 1 = n.nlink + BitVec.ofInt 32 1 := rfl
  refine hs.relink h hplus ?_
  rcases hpos with hpos | hpos <;> simp [hs.quiet, hpos]

theorem Sound.drop (hs : s.Sound hole owe) (h : s.inode i = some n) (hpos : n.nlink ≠ 0#32) :
    (s.dropNlink i).Sound hole (Function.update owe i (owe i - 1)) := by
  simp only [dropNlink, h]
  have hminus : n.nlink - 1 = n.nlink + BitVec.ofInt 32 (-1) := BitVec.sub_eq_add_neg _ _
  exact hs.relink h hminus (by simp [hs.quiet, hpos])

theorem Sound.mark (hs : s.Sound hole owe) (h : s.inode i = some n) (hm : n'.mode = n.mode)
    (hd : n'.dead = n.dead) (hl : n'.nlink = n.nlink) : (s.setInode i n').Sound hole owe := by
  refine ⟨hs.shape.setInode h hm hd, ?_, hs.quiet⟩
  have hlink : n'.nlink = n.nlink + BitVec.ofInt 32 0 := by simp [hl]
  have hc := hs.counts.setInode n' h hm hd hlink
  simpa using hc

/-! ## A new inode -/

theorem Shape.unused (hs : s.Shape hole) (h : s.inode i = none) :
    ∀ e ∈ s.entries, e.ino ≠ i ∧ e.dir ≠ i := by
  intro e he
  constructor
  · rintro rfl
    obtain ⟨k, hk, -⟩ := hs.known e he
    simp [h] at hk
  · rintro rfl
    obtain ⟨k, hk, -⟩ := hs.inside e he
    simp [h] at hk

theorem liveDir_new (h : s.inode i = none) (hd : n.dead = false) (d : Nat) :
    (s.setInode i n).LiveDir d ↔ s.LiveDir d ∨ (d = i ∧ n.isDir = true) := by
  unfold LiveDir
  by_cases hdi : d = i
  · subst hdi
    simp [setInode, h, hd]
  · simp [setInode, hdi]

theorem Shape.new (hs : s.Shape none) (h : s.inode i = none) (hd : n.dead = false) :
    (s.setInode i n).Shape (if n.isDir then some i else none) := by
  have hunused := hs.unused h
  have hlive := liveDir_new h hd
  have hdir : ∀ e ∈ s.entries, (s.setInode i n).isDir e.ino = s.isDir e.ino :=
    fun e he => isDir_setInode_of_ne (hunused e he).1
  have hroot : i ≠ s.root := by
    rintro rfl
    obtain ⟨k, hk, -⟩ := hs.root_dir
    simp [h] at hk
  constructor
  · exact (hlive _).mpr (Or.inl hs.root_dir)
  · exact hs.not_root
  · exact fun e he => (hlive _).mpr (Or.inl (hs.inside e he))
  · intro e he
    obtain ⟨k, hk⟩ := hs.known e he
    exact ⟨k, by simpa [RamTree.setInode, (hunused e he).1] using hk⟩
  · exact hs.keys
  · intro e he e' he' hed
    rw [hdir e he] at hed
    exact hs.one_name e he e' he' hed
  · intro d hld hdr hhole
    rcases (hlive d).mp hld with hold | ⟨rfl, hn⟩
    · exact hs.named d hold hdr (by simp)
    · simp [hn] at hhole
  · intro e he hed
    rw [hdir e he] at hed
    exact hs.placed e he hed
  · exact hs.rooted
  · exact hs.pinned
  · intro d hhole
    by_cases hn : n.isDir = true
    · obtain rfl : i = d := by simpa [hn] using hhole
      exact ⟨hroot, (hlive i).mpr (Or.inr ⟨rfl, hn⟩), fun e he => (hunused e he).1⟩
    · simp [hn] at hhole

theorem Sound.new (hs : s.Sound none settled) (h : s.inode i = none) (hd : n.dead = false) {m : Nat}
    (hlink : n.nlink = BitVec.ofInt 32 ((if n.isDir then 2 else 0) + m)) :
    (s.setInode i n).Sound (if n.isDir then some i else none) (Function.update settled i m) := by
  have hunused := hs.shape.unused h
  refine ⟨hs.shape.new h hd, ?_, hs.quiet⟩
  have hsub : ∀ d, (s.setInode i n).subdirs d = s.subdirs d := by
    intro d
    refine List.countP_congr fun e he => ?_
    simp [isDir_setInode_of_ne (hunused e he).1]
  intro j k hk
  by_cases hj : j = i
  · subst hj
    obtain rfl : n = k := by simpa [setInode] using hk
    have hnames : (s.setInode j n).names j = 0 :=
      List.countP_eq_zero.mpr fun e he => by simpa using (hunused e he).1
    have hsub0 : s.subdirs j = 0 :=
      List.countP_eq_zero.mpr fun e he => by simp [(hunused e he).2]
    rw [Function.update_self, hlink]
    congr 1
    by_cases hn : n.isDir = true
    · simp [due, hn, hd, hsub, hsub0]
    · simp [due, hn, hnames]
  · have hk' : s.inode j = some k := by simpa [setInode, hj] using hk
    have hc := hs.counts j k hk'
    have hdue : (s.setInode i n).due j k = s.due j k := by
      simp only [due, hsub]
      rfl
    rw [hdue, hc, Function.update_of_ne hj]

/-! ## Names that come -/

theorem Shape.liveDir_parent (hs : s.Shape none) (h : s.LiveDir i) : s.LiveDir (s.parent i) := by
  by_cases hi : i = s.root
  · rw [hi, hs.rooted.parent_root]
    exact hs.root_dir
  · obtain ⟨e, he, rfl⟩ := hs.named i h hi (by simp)
    rw [hs.placed e he h.isDir]
    exact hs.inside e he

theorem Shape.liveDir_chain (hs : s.Shape none) (h : s.LiveDir i) (k : Nat) :
    s.LiveDir (s.parent^[k] i) := by
  induction k with
  | zero => exact h
  | succ k ih =>
      rw [Function.iterate_succ_apply']
      exact hs.liveDir_parent ih

/-- What a name needs. -/
structure Admits (s : RamTree) (e : Named) : Prop where
  inside : s.LiveDir e.dir
  free : e.key ∉ s.entries.map Named.key
  known : ∃ n, s.inode e.ino = some n ∧ (n.isDir = true → n.dead = false)

theorem Shape.addFile (hs : s.Shape none) (ha : s.Admits e) (hf : s.isDir e.ino = false) :
    (s.addName e).Shape none := by
  have hroot : e.ino ≠ s.root := by
    intro heq
    rw [heq, hs.root_dir.isDir] at hf
    cases hf
  have hparent : (s.addName e).parent = s.parent := by simp [addName, hf]
  have hheight : (s.addName e).height = s.height := by simp [addName, hf]
  constructor
  · exact hs.root_dir
  · exact List.forall_mem_cons.mpr ⟨hroot, hs.not_root⟩
  · exact List.forall_mem_cons.mpr ⟨ha.inside, hs.inside⟩
  · exact List.forall_mem_cons.mpr ⟨ha.known, hs.known⟩
  · exact List.nodup_cons.mpr ⟨ha.free, hs.keys⟩
  · intro x hx y hy hxd hxy
    have hin : ∀ z ∈ (s.addName e).entries, s.isDir z.ino = true → z ∈ s.entries := by
      intro z hz hzd
      rcases List.mem_cons.mp hz with rfl | hz
      · simp [hf] at hzd
      · exact hz
    exact hs.one_name x (hin x hx hxd) y (hin y hy (hxy ▸ hxd)) hxd hxy
  · intro d hld hdr hhole
    obtain ⟨x, hx, hxd⟩ := hs.named d hld hdr hhole
    exact ⟨x, List.mem_cons_of_mem e hx, hxd⟩
  · intro x hx hxd
    rw [hparent]
    rcases List.mem_cons.mp hx with rfl | hx
    · exact absurd hxd (by simpa [addName, RamTree.isDir] using hf)
    · exact hs.placed x hx hxd
  · rw [hparent, hheight]
    exact hs.rooted
  · exact hs.pinned.cons e.key
  · intro d hhole
    cases hhole

theorem Shape.addDir (hs : s.Shape (some e.ino)) (ha : s.Admits e)
    (hup : ∀ k, s.parent^[k] e.dir ≠ e.ino) : (s.addName e).Shape none := by
  obtain ⟨hroot, hlive, hfree⟩ := hs.hole_free e.ino rfl
  have hd : s.isDir e.ino = true := hlive.isDir
  have hparent : (s.addName e).parent = Function.update s.parent e.ino e.dir := by
    simp [addName, hd]
  have hheight : (s.addName e).height = s.height + 1 + s.height := by simp [addName, hd]
  constructor
  · exact hs.root_dir
  · exact List.forall_mem_cons.mpr ⟨hroot, hs.not_root⟩
  · exact List.forall_mem_cons.mpr ⟨ha.inside, hs.inside⟩
  · exact List.forall_mem_cons.mpr ⟨ha.known, hs.known⟩
  · exact List.nodup_cons.mpr ⟨ha.free, hs.keys⟩
  · intro x hx y hy hxd hxy
    rcases List.mem_cons.mp hx with hxe | hx' <;> rcases List.mem_cons.mp hy with hye | hy'
    · rw [hxe, hye]
    · exact absurd (by rw [← hxy, hxe]) (hfree y hy')
    · exact absurd (by rw [hxy, hye]) (hfree x hx')
    · exact hs.one_name x hx' y hy' hxd hxy
  · intro d hld hdr _
    by_cases hde : d = e.ino
    · exact ⟨e, List.mem_cons_self, hde.symm⟩
    · obtain ⟨x, hx, hxd⟩ := hs.named d hld hdr (by simpa using Ne.symm hde)
      exact ⟨x, List.mem_cons_of_mem e hx, hxd⟩
  · intro x hx hxd
    rw [hparent]
    rcases List.mem_cons.mp hx with rfl | hx
    · simp
    · rw [Function.update_of_ne (hfree x hx)]
      exact hs.placed x hx hxd
  · rw [hparent, hheight]
    exact hs.rooted.redirect hroot hup
  · exact hs.pinned.cons e.key
  · intro d hhole
    cases hhole

theorem subdirs_addName (d : Nat) :
    (s.addName e).subdirs d = s.subdirs d + if e.dir = d ∧ s.isDir e.ino then 1 else 0 := by
  change List.countP (fun x : Named => x.dir = d ∧ s.isDir x.ino) (e :: s.entries) = _
  rw [List.countP_cons]
  simp [subdirs]

theorem names_addName (j : Nat) :
    (s.addName e).names j = s.names j + if e.ino = j then 1 else 0 := by
  change List.countP (fun x : Named => x.ino = j) (e :: s.entries) = _
  rw [List.countP_cons]
  simp [names]

/-- Who has a link more when a name comes. -/
def payer (s : RamTree) (e : Named) : Nat := if s.isDir e.ino then e.dir else e.ino

theorem due_addName (hin : s.LiveDir e.dir) (h : s.inode j = some n) :
    (s.addName e).due j n = s.due j n + if j = s.payer e then 1 else 0 := by
  obtain ⟨k, hk, hkd, hkl⟩ := hin
  have hjd : s.isDir j = n.isDir := isDir_of_inode h
  unfold due payer
  rw [subdirs_addName, names_addName]
  by_cases hn : n.isDir = true
  · by_cases hed : s.isDir e.ino = true
    · by_cases hj : j = e.dir
      · obtain rfl : k = n := Option.some.inj (hk.symm.trans (hj ▸ h))
        simp [hn, hed, hj, hkl]
        omega
      · simp [hn, hed, hj, Ne.symm hj]
    · have hj : j ≠ e.ino := by
        rintro rfl
        rw [hjd] at hed
        exact hed hn
      simp [hn, hed, hj]
  · by_cases hed : s.isDir e.ino = true
    · have hj : j ≠ e.dir := by
        rintro rfl
        obtain rfl : k = n := Option.some.inj (hk.symm.trans h)
        exact hn hkd
      have hj' : e.ino ≠ j := by
        rintro rfl
        rw [hjd] at hed
        exact hn hed
      simp [hn, hed, hj, hj']
    · simp [hn, hed, eq_comm]

theorem Counts.addName (hc : s.Counts owe) (hin : s.LiveDir e.dir) :
    (s.addName e).Counts (Function.update owe (s.payer e) (owe (s.payer e) - 1)) := by
  intro j n hn
  have hn' : s.inode j = some n := hn
  rw [due_addName hin hn', hc j n hn']
  congr 1
  by_cases hj : j = s.payer e
  · rw [hj, Function.update_self, if_pos rfl]
    omega
  · rw [Function.update_of_ne hj, if_neg hj, Nat.add_zero]

theorem Sound.addFile (hs : s.Sound none owe) (ha : s.Admits e) (hf : s.isDir e.ino = false) :
    (s.addName e).Sound none (Function.update owe e.ino (owe e.ino - 1)) := by
  have hc := hs.counts.addName ha.inside
  rw [payer, if_neg (by simp [hf])] at hc
  exact ⟨hs.shape.addFile ha hf, hc, hs.quiet⟩

theorem Sound.addDir (hs : s.Sound (some e.ino) owe) (ha : s.Admits e)
    (hup : ∀ k, s.parent^[k] e.dir ≠ e.ino) :
    (s.addName e).Sound none (Function.update owe e.dir (owe e.dir - 1)) := by
  have hc := hs.counts.addName ha.inside
  rw [payer, if_pos (hs.shape.hole_free e.ino rfl).2.1.isDir] at hc
  exact ⟨hs.shape.addDir ha hup, hc, hs.quiet⟩

/-! ## Names that go -/

@[simp] theorem removeName_entries : (s.removeName e).entries = s.entries.erase e := rfl

@[simp] theorem removeName_parent : (s.removeName e).parent = s.parent := rfl

@[simp] theorem isDir_removeName : (s.removeName e).isDir = s.isDir := rfl

@[simp] theorem liveDir_removeName {d : Nat} : (s.removeName e).LiveDir d ↔ s.LiveDir d := Iff.rfl

theorem Shape.perm_erase (hs : s.Shape hole) (he : e ∈ s.entries) :
    (s.removeName e).pins.Perm ((s.removeName e).entries.map Named.key) := by
  have hperm : (s.entries.map Named.key).Perm (e.key :: (s.entries.erase e).map Named.key) :=
    (List.perm_cons_erase he).map Named.key
  have herase := (hs.pinned.trans hperm).erase e.key
  rwa [List.erase_cons_head] at herase

theorem Shape.remove (hs : s.Shape none) (he : e ∈ s.entries) :
    (s.removeName e).Shape (if s.isDir e.ino then some e.ino else none) := by
  have hnodup : s.entries.Nodup := hs.keys.of_map
  have hmem : ∀ {x}, x ∈ (s.removeName e).entries → x ∈ s.entries ∧ x ≠ e := by
    intro x hx
    have hx' := (hnodup.mem_erase_iff).mp hx
    exact ⟨hx'.2, hx'.1⟩
  constructor
  · exact hs.root_dir
  · exact fun x hx => hs.not_root x (hmem hx).1
  · exact fun x hx => hs.inside x (hmem hx).1
  · exact fun x hx => hs.known x (hmem hx).1
  · exact hs.keys.sublist (List.erase_sublist.map Named.key)
  · exact fun x hx y hy => hs.one_name x (hmem hx).1 y (hmem hy).1
  · intro d hld hdr hhole
    have hlive : s.LiveDir d := hld
    obtain ⟨x, hx, rfl⟩ := hs.named d hlive hdr (by simp)
    refine ⟨x, (List.mem_erase_of_ne ?_).mpr hx, rfl⟩
    rintro rfl
    simp [hlive.isDir] at hhole
  · exact fun x hx => hs.placed x (hmem hx).1
  · exact hs.rooted
  · exact hs.perm_erase he
  · intro d hhole
    by_cases hd : s.isDir e.ino = true
    · obtain rfl : e.ino = d := by simpa [hd] using hhole
      obtain ⟨k, hk, hdead⟩ := hs.known e he
      have hkd : k.isDir = true := (isDir_of_inode hk).symm.trans hd
      refine ⟨hs.not_root e he, ⟨k, hk, hkd, hdead hkd⟩, fun x hx heq => ?_⟩
      exact (hmem hx).2 (hs.one_name e he x (hmem hx).1 hd heq.symm).symm
    · simp [hd] at hhole

theorem due_removeName (he : e ∈ s.entries) (hin : s.LiveDir e.dir) (h : s.inode j = some n) :
    s.due j n = (s.removeName e).due j n + if j = s.payer e then 1 else 0 := by
  have hadd : ((s.removeName e).addName e).due j n =
      (s.removeName e).due j n + if j = s.payer e then 1 else 0 := due_addName hin h
  have hperm : s.entries.Perm (e :: s.entries.erase e) := List.perm_cons_erase he
  have hsub : ((s.removeName e).addName e).subdirs j = s.subdirs j := (hperm.countP_eq _).symm
  have hnames : ((s.removeName e).addName e).names j = s.names j := (hperm.countP_eq _).symm
  rw [← hadd, due, due, hsub, hnames]

theorem Counts.removeName (hc : s.Counts owe) (he : e ∈ s.entries) (hin : s.LiveDir e.dir) :
    (s.removeName e).Counts (Function.update owe (s.payer e) (owe (s.payer e) + 1)) := by
  intro j n hn
  have hn' : s.inode j = some n := hn
  have hdue := due_removeName he hin hn'
  rw [hc j n hn', hdue]
  congr 1
  by_cases hj : j = s.payer e
  · rw [hj, Function.update_self, if_pos rfl]
    omega
  · rw [Function.update_of_ne hj, if_neg hj, Nat.add_zero]

theorem Sound.removeFile (hs : s.Sound none owe) (he : e ∈ s.entries)
    (hf : s.isDir e.ino = false) :
    (s.removeName e).Sound none (Function.update owe e.ino (owe e.ino + 1)) := by
  have hc := hs.counts.removeName he (hs.shape.inside e he)
  have hshape := hs.shape.remove he
  rw [payer, if_neg (by simp [hf])] at hc
  rw [if_neg (by simp [hf])] at hshape
  exact ⟨hshape, hc, hs.quiet⟩

theorem Sound.removeDir (hs : s.Sound none owe) (he : e ∈ s.entries) (hd : s.isDir e.ino = true) :
    (s.removeName e).Sound (some e.ino) (Function.update owe e.dir (owe e.dir + 1)) := by
  have hc := hs.counts.removeName he (hs.shape.inside e he)
  have hshape := hs.shape.remove he
  rw [payer, if_pos hd] at hc
  rw [if_pos hd] at hshape
  exact ⟨hshape, hc, hs.quiet⟩

/-! ## Link counts change nothing else -/

theorem dropNlink_of (h : s.inode i = some n) :
    s.dropNlink i = { s.setInode i { n with nlink := n.nlink - 1 } with
      warned := s.warned || n.nlink == 0 } := by
  simp only [dropNlink, h]

theorem incNlink_of (h : s.inode i = some n) :
    s.incNlink i = { s.setInode i { n with nlink := n.nlink + 1 } with
      warned := s.warned || (n.nlink == 0 && !n.linkable) } := by
  simp only [incNlink, h]

@[simp] theorem dropNlink_entries : (s.dropNlink i).entries = s.entries := by
  unfold dropNlink
  split <;> rfl

@[simp] theorem incNlink_entries : (s.incNlink i).entries = s.entries := by
  unfold incNlink
  split <;> rfl

@[simp] theorem dropNlink_parent : (s.dropNlink i).parent = s.parent := by
  unfold dropNlink
  split <;> rfl

@[simp] theorem incNlink_parent : (s.incNlink i).parent = s.parent := by
  unfold incNlink
  split <;> rfl

@[simp] theorem isDir_dropNlink : (s.dropNlink i).isDir = s.isDir := by
  cases h : s.inode i with
  | none => simp [dropNlink, h, funext_iff, RamTree.isDir]
  | some n =>
      rw [dropNlink_of h]
      exact isDir_setInode h rfl

@[simp] theorem isDir_incNlink : (s.incNlink i).isDir = s.isDir := by
  cases h : s.inode i with
  | none => simp [incNlink, h, funext_iff, RamTree.isDir]
  | some n =>
      rw [incNlink_of h]
      exact isDir_setInode h rfl

@[simp] theorem liveDir_dropNlink {d : Nat} : (s.dropNlink i).LiveDir d ↔ s.LiveDir d := by
  cases h : s.inode i with
  | none => simp [dropNlink, h, LiveDir]
  | some n =>
      rw [dropNlink_of h]
      exact liveDir_setInode { n with nlink := n.nlink - 1 } h rfl rfl d

@[simp] theorem liveDir_incNlink {d : Nat} : (s.incNlink i).LiveDir d ↔ s.LiveDir d := by
  cases h : s.inode i with
  | none => simp [incNlink, h, LiveDir]
  | some n =>
      rw [incNlink_of h]
      exact liveDir_setInode { n with nlink := n.nlink + 1 } h rfl rfl d

theorem Sound.of_zero (hs : s.Sound hole owe) (h : ∀ x, owe x = 0) : s.Sound hole settled := by
  obtain rfl : owe = settled := funext h
  exact hs

theorem toNat_ofInt_of_small {v : Int} (h₀ : 0 ≤ v) (h : v < 0x100000000) :
    ((BitVec.ofInt 32 v).toNat : Int) = v := by
  rw [BitVec.toNat_ofInt]
  omega

/-- The number of names is so small that no link count wraps around. -/
def Small (s : RamTree) : Prop := s.entries.length + 4 < 2 ^ 32

instance (s : RamTree) : Decidable s.Small := inferInstanceAs (Decidable (_ < _))

theorem subdirs_le (s : RamTree) (d : Nat) : s.subdirs d ≤ s.entries.length :=
  List.countP_le_length

theorem names_le (s : RamTree) (i : Nat) : s.names i ≤ s.entries.length := List.countP_le_length

/-- A directory with no more than one link owed too little has a link to lose. -/
theorem Sound.dir_pos (hs : s.Sound hole owe) (hsmall : s.Small) (h : s.LiveDir i)
    (ho : -1 ≤ owe i ∧ owe i ≤ 2) : ∃ n, s.inode i = some n ∧ n.nlink ≠ 0#32 := by
  obtain ⟨n, hn, hd, hl⟩ := h
  refine ⟨n, hn, ?_⟩
  have hc := hs.counts i n hn
  simp only [due, hd, hl, if_true, Bool.false_eq_true, if_false] at hc
  have hle := s.subdirs_le i
  unfold Small at hsmall
  have htoNat := @toNat_ofInt_of_small (((2 + s.subdirs i : Nat) : Int) + owe i) (by omega)
    (by omega)
  intro hzero
  rw [← hc, hzero, BitVec.toNat_ofNat] at htoNat
  omega

theorem Sound.file_pos (hs : s.Sound hole owe) (hsmall : s.Small) (he : e ∈ s.entries)
    (hf : s.isDir e.ino = false) (ho : 0 ≤ owe e.ino ∧ owe e.ino ≤ 2) :
    ∃ n, s.inode e.ino = some n ∧ n.nlink ≠ 0#32 := by
  obtain ⟨n, hn, -⟩ := hs.shape.known e he
  refine ⟨n, hn, ?_⟩
  have hc := hs.counts e.ino n hn
  have hnames : 0 < s.names e.ino := List.countP_pos_iff.mpr ⟨e, he, by simp⟩
  have hnd : n.isDir = false := (isDir_of_inode hn).symm.trans hf
  simp only [due, hnd, Bool.false_eq_true, if_false] at hc
  have hle := s.names_le e.ino
  unfold Small at hsmall
  have htoNat := @toNat_ofInt_of_small ((s.names e.ino : Int) + owe e.ino) (by omega) (by omega)
  intro hzero
  rw [← hc, hzero, BitVec.toNat_ofNat] at htoNat
  omega

end RamTree

end OShm.Ramfs
