import OShm.Ramfs.InodeLinks

/-! # The operations that a ramfs takes from the kernel

`simple_link`, `simple_unlink`, `simple_rmdir` and `simple_rename` are not part of ramfs, nor are
the checks that the file system core makes before it calls an operation. What is relied on is
stated as laws: as long as no link count can wrap around, they leave a tree in order. `simpleOps`,
written after the functions of the kernel, meet the laws.
-/

namespace OShm.Ramfs

open OShm.Kernel OShm.Lib

def eexist : Errno := 17
def enotempty : Errno := 39

structure LibraryOps where
  link : RamTree → Nat → Nat → CString → RamTree × Except Errno Unit
  unlink : RamTree → Nat → CString → RamTree × Except Errno Unit
  rmdir : RamTree → Nat → CString → RamTree × Except Errno Unit
  /-- Without flags, or with `RENAME_NOREPLACE`. -/
  rename : RamTree → Nat → CString → Nat → CString → Bool → RamTree × Except Errno Unit

structure LibraryOps.Lawful (L : LibraryOps) : Prop where
  link_keeps : ∀ {s} i dir name, s.Sound none RamTree.settled → s.Small →
    (L.link s i dir name).1.Sound none RamTree.settled
  unlink_keeps : ∀ {s} dir name, s.Sound none RamTree.settled → s.Small →
    (L.unlink s dir name).1.Sound none RamTree.settled
  rmdir_keeps : ∀ {s} dir name, s.Sound none RamTree.settled → s.Small →
    (L.rmdir s dir name).1.Sound none RamTree.settled
  rename_keeps : ∀ {s} dir name dir' name' noreplace, s.Sound none RamTree.settled → s.Small →
    (L.rename s dir name dir' name' noreplace).1.Sound none RamTree.settled

namespace RamTree

/-! ## The functions of the library -/

/-- `S_DEAD` is set when the core has removed a directory. -/
def markDead (s : RamTree) (i : Nat) : RamTree :=
  match s.inode i with
  | none => s
  | some n => s.setInode i { n with dead := true }

/-- `d_move`: the dentry with its pin gets another name. -/
def moveName (s : RamTree) (e e' : Named) : RamTree := (s.removeName e).addName e'

def simpleEmpty (s : RamTree) (i : Nat) : Bool := s.entries.all fun e => e.dir ≠ i

/-- `d_ancestor(e, d)` or `e` itself: the loop along `d_parent`. -/
def above (s : RamTree) (e d : Nat) : Bool :=
  (List.range (s.height + 1)).any fun n => s.parent^[n] d = e

def simpleLink (s : RamTree) (e : Named) : RamTree := (s.incNlink e.ino).addName e

def simpleUnlink (s : RamTree) (e : Named) : RamTree := (s.dropNlink e.ino).removeName e

def simpleRmdir (s : RamTree) (e : Named) : RamTree :=
  ((s.dropNlink e.ino).simpleUnlink e).dropNlink e.dir

/-- `simple_rename` of `e` to the place of `e'`, where `old` is what has the name now. -/
def simpleRename (s : RamTree) (e e' : Named) : Option Named → RamTree
  | some old =>
      let s' := s.simpleUnlink old
      if s.isDir e.ino then (s'.dropNlink old.ino).dropNlink e.dir else s'
  | none => if s.isDir e.ino then (s.dropNlink e.dir).incNlink e'.dir else s

/-! ## The checks before them -/

def mayCreate (s : RamTree) (dir : Nat) (name : CString) : Except Errno Unit :=
  match s.inode dir with
  | none => .error enoent
  | some n =>
      if n.isDir = false then .error enotdir
      else if (s.lookup dir name).isSome then .error eexist
      else if n.dead then .error enoent
      else .ok ()

def guarded (s : RamTree) (check : Except Errno Unit) (r : RamTree × Except Errno Unit) :
    RamTree × Except Errno Unit :=
  match check with
  | .error e => (s, .error e)
  | .ok () => r

/-- `vfs_link` of the inode `i`. -/
def doLink (s : RamTree) (i dir : Nat) (name : CString) : RamTree × Except Errno Unit :=
  s.guarded (s.mayCreate dir name) <|
    match s.inode i with
    | none => (s, .error enoent)
    | some n =>
        if n.isDir then (s, .error eperm)
        else if n.nlink = 0 ∧ n.linkable = false then (s, .error enoent)
        else
          let s' := s.simpleLink ⟨dir, name, i⟩
          match s'.inode i with
          | none => (s', .ok ())
          | some n => (s'.setInode i { n with linkable := false }, .ok ())

/-- `vfs_unlink`. -/
def doUnlink (s : RamTree) (dir : Nat) (name : CString) : RamTree × Except Errno Unit :=
  match s.lookup dir name with
  | none => (s, .error enoent)
  | some i => if s.isDir i then (s, .error eisdir) else (s.simpleUnlink ⟨dir, name, i⟩, .ok ())

/-- `vfs_rmdir`. -/
def doRmdir (s : RamTree) (dir : Nat) (name : CString) : RamTree × Except Errno Unit :=
  match s.lookup dir name with
  | none => (s, .error enoent)
  | some i =>
      if s.isDir i = false then (s, .error enotdir)
      else if s.simpleEmpty i = false then (s, .error enotempty)
      else ((s.simpleRmdir ⟨dir, name, i⟩).markDead i, .ok ())

/-- `do_renameat2` and `vfs_rename`, with `RENAME_NOREPLACE` or without flags. -/
def doRename (s : RamTree) (dir : Nat) (name : CString) (dir' : Nat) (name' : CString)
    (noreplace : Bool) : RamTree × Except Errno Unit :=
  match s.lookup dir name, s.inode dir' with
  | none, _ => (s, .error enoent)
  | _, none => (s, .error enoent)
  | some i, some n' =>
      let e' : Named := ⟨dir', name', i⟩
      if n'.isDir = false then (s, .error enotdir)
      else
        match s.lookup dir' name' with
        | none =>
            if s.isDir i ∧ s.above i dir' then (s, .error einval)
            else if n'.dead then (s, .error enoent)
            else ((s.simpleRename ⟨dir, name, i⟩ e' none).moveName ⟨dir, name, i⟩ e', .ok ())
        | some j =>
            let old : Named := ⟨dir', name', j⟩
            if noreplace then (s, .error eexist)
            else if s.isDir i ∧ s.above i dir' then (s, .error einval)
            else if s.isDir j ∧ s.above j dir then (s, .error enotempty)
            else if i = j then (s, .ok ())
            else if s.isDir i ∧ s.isDir j = false then (s, .error enotdir)
            else if s.isDir i = false ∧ s.isDir j then (s, .error eisdir)
            else if s.simpleEmpty j = false then (s, .error enotempty)
            else
              let s' := s.simpleRename ⟨dir, name, i⟩ e' (some old)
              (((if s.isDir j then s'.markDead j else s').moveName ⟨dir, name, i⟩ e'), .ok ())

/-! ## What they do to the counts -/

variable {s s' : RamTree} {i j dir : Nat} {name : CString} {n : Inode} {e : Named}
  {hole : Option Nat} {owe : Nat → Int}

@[simp] theorem liveDir_markDead (d : Nat) : (s.markDead i).LiveDir d ↔ s.LiveDir d ∧ d ≠ i := by
  unfold LiveDir markDead
  by_cases hd : d = i
  · subst hd
    cases h : s.inode d <;> simp [h, setInode]
  · cases h : s.inode i <;> simp [setInode, hd]

@[simp] theorem isDir_markDead : (s.markDead i).isDir = s.isDir := by
  unfold markDead
  cases h : s.inode i with
  | none => rfl
  | some n => exact isDir_setInode h rfl

theorem Sound.kill (hs : s.Sound (some i) owe) (hempty : ∀ e ∈ s.entries, e.dir ≠ i) :
    (s.markDead i).Sound none (Function.update owe i (owe i + 2)) := by
  obtain ⟨hroot, ⟨n, hn, hnd, hnl⟩, hfree⟩ := hs.shape.hole_free i rfl
  have hlive : ∀ d, (s.markDead i).LiveDir d ↔ s.LiveDir d ∧ d ≠ i := liveDir_markDead
  have hent : (s.markDead i).entries = s.entries := by simp [markDead, hn, setInode]
  have hfields : (s.markDead i).root = s.root ∧ (s.markDead i).parent = s.parent ∧
      (s.markDead i).height = s.height ∧ (s.markDead i).pins = s.pins ∧
      (s.markDead i).warned = s.warned := by simp [markDead, hn, setInode]
  obtain ⟨h₁, h₂, h₃, h₄, h₅⟩ := hfields
  have hother : ∀ {j}, j ≠ i → (s.markDead i).inode j = s.inode j := by
    intro j hj
    simp [markDead, hn, setInode, hj]
  refine ⟨?_, ?_, h₅.trans hs.quiet⟩
  · constructor
    · rw [h₁]
      exact (hlive _).mpr ⟨hs.shape.root_dir, Ne.symm hroot⟩
    · rw [hent, h₁]
      exact hs.shape.not_root
    · rw [hent]
      exact fun e he => (hlive _).mpr ⟨hs.shape.inside e he, hempty e he⟩
    · rw [hent]
      intro e he
      rw [hother (hfree e he)]
      exact hs.shape.known e he
    · rw [hent]
      exact hs.shape.keys
    · rw [hent, isDir_markDead]
      exact hs.shape.one_name
    · rw [hent, h₁]
      intro d hld hdr _
      obtain ⟨hold, hdi⟩ := (hlive d).mp hld
      exact hs.shape.named d hold hdr (by simpa using Ne.symm hdi)
    · rw [hent, h₂, isDir_markDead]
      exact hs.shape.placed
    · rw [h₁, h₂, h₃]
      exact hs.shape.rooted
    · rw [hent, h₄]
      exact hs.shape.pinned
    · intro d hhole
      cases hhole
  · intro j k hk
    by_cases hj : j = i
    · subst hj
      obtain rfl : { n with dead := true } = k := by simpa [markDead, hn, setInode] using hk
      have hsub : s.subdirs j = 0 := List.countP_eq_zero.mpr fun e he => by simp [hempty e he]
      have hdue : s.due j n = 2 := by simp [due, hnd, hnl, hsub]
      have hdue' : (s.markDead j).due j { n with dead := true } = 0 := by
        have hdir : ({ n with dead := true } : Inode).isDir = true := hnd
        simp [due, hdir]
      have hlink : n.nlink = BitVec.ofInt 32 (2 + owe j) := by
        rw [hs.counts j n hn, hdue]
        rfl
      rw [Function.update_self, hdue']
      refine hlink.trans (congrArg _ ?_)
      omega
    · rw [hother hj] at hk
      have hdue : (s.markDead i).due j k = s.due j k := due_congr hent isDir_markDead rfl rfl
      rw [Function.update_of_ne hj, hdue, hs.counts j k hk]

theorem Sound.linked (hs : s.Sound none settled) (hd : s.LiveDir dir)
    (hfree : s.lookup dir name = none) (h : s.inode i = some n) (hf : n.isDir = false)
    (hpos : n.nlink ≠ 0 ∨ n.linkable = true) :
    (s.simpleLink ⟨dir, name, i⟩).Sound none settled := by
  have hinc := hs.inc h hpos
  have hfile : s.isDir i = false := (isDir_of_inode h).trans hf
  have hknown : (s.incNlink i).inode i = some { n with nlink := n.nlink + 1 } := by
    rw [incNlink_of h]
    simp [setInode]
  have ha : (s.incNlink i).Admits ⟨dir, name, i⟩ :=
    ⟨by simpa using hd, by rw [incNlink_entries]; exact not_mem_of_lookup hfree,
      ⟨_, hknown, fun hnd => absurd hnd (by simpa [Inode.isDir] using hf)⟩⟩
  refine (hinc.addFile ha (by simpa using hfile)).of_zero fun x => ?_
  simp [settled, Function.update_apply]

/-! ## Names that are taken away -/

theorem Small.of_le (h : s.Small) (hle : s'.entries.length ≤ s.entries.length) : s'.Small := by
  unfold Small at h ⊢
  omega

theorem removeName_length_le (h : s'.entries = s.entries) :
    (s'.removeName e).entries.length ≤ s.entries.length := by
  rw [← h]
  exact List.length_erase_le

theorem Shape.live_of_isDir (hs : s.Shape hole) (he : e ∈ s.entries) (hd : s.isDir e.ino = true) :
    s.LiveDir e.ino := by
  obtain ⟨n, hn, hl⟩ := hs.known e he
  have hnd : n.isDir = true := (isDir_of_inode hn).symm.trans hd
  exact ⟨n, hn, hnd, hl hnd⟩

theorem Sound.unlinked (hs : s.Sound none settled) (hsmall : s.Small) (he : e ∈ s.entries)
    (hf : s.isDir e.ino = false) : (s.simpleUnlink e).Sound none settled := by
  obtain ⟨n, hn, hpos⟩ := hs.file_pos hsmall he hf (by simp [settled])
  have hrem := (hs.drop hn hpos).removeFile (e := e) (by simpa using he) (by simpa using hf)
  change ((s.dropNlink e.ino).removeName e).Sound none settled
  simpa using hrem

theorem Sound.removed (hs : s.Sound none settled) (hsmall : s.Small) (he : e ∈ s.entries)
    (hd : s.isDir e.ino = true) (hempty : s.simpleEmpty e.ino = true) :
    ((s.simpleRmdir e).markDead e.ino).Sound none settled := by
  have hout : ∀ x ∈ s.entries, x.dir ≠ e.ino := by simpa [simpleEmpty] using hempty
  have hlive := hs.shape.live_of_isDir he hd
  have hne : e.dir ≠ e.ino := hout e he
  obtain ⟨n₁, hn₁, hp₁⟩ := hs.dir_pos hsmall hlive (by simp [settled])
  have h₁ := hs.drop hn₁ hp₁
  obtain ⟨n₂, hn₂, hp₂⟩ := h₁.dir_pos (i := e.ino) (hsmall.of_le (by simp))
    (by simpa using hlive) (by simp [settled])
  have h₂ := (h₁.drop hn₂ hp₂).removeDir (e := e) (by simpa using he) (by simpa using hd)
  have hin := hs.shape.inside e he
  obtain ⟨n₃, hn₃, hp₃⟩ := h₂.dir_pos (i := e.dir) (hsmall.of_le (removeName_length_le (by simp)))
    (by simpa using hin) (by simp [settled, hne])
  have h₃ := (h₂.drop hn₃ hp₃).kill (i := e.ino) (by
      intro x hx
      have hx' : x ∈ s.entries.erase e := by simpa [removeName] using hx
      exact hout x (List.mem_of_mem_erase hx'))
  refine h₃.of_zero fun x => ?_
  simp only [settled, Function.update_apply]
  split_ifs <;> simp_all

/-! ## Names that move -/

theorem mem_removeName {x : Named} (hne : x ≠ e) : x ∈ (s.removeName e).entries ↔ x ∈ s.entries :=
  List.mem_erase_of_ne hne

theorem free_removeName (hk : (s.entries.map Named.key).Nodup) (he : e ∈ s.entries) :
    e.key ∉ (s.entries.erase e).map Named.key := by
  have hperm : (s.entries.map Named.key).Perm (e.key :: (s.entries.erase e).map Named.key) :=
    (List.perm_cons_erase he).map Named.key
  exact (List.nodup_cons.mp (hperm.nodup_iff.mp hk)).1

/-- A file that has a name gets another one for it. -/
theorem Sound.movedFile (hs : s.Sound none settled) (he : e ∈ s.entries)
    (hf : s.isDir e.ino = false) (hd : s.LiveDir dir)
    (hfree : (dir, name) ∉ s.entries.map Named.key) :
    (s.moveName e ⟨dir, name, e.ino⟩).Sound none settled := by
  have hrem := hs.removeFile he hf
  have ha : (s.removeName e).Admits ⟨dir, name, e.ino⟩ := by
    refine ⟨hd, fun hin => hfree ?_, hs.shape.known e he⟩
    exact (List.erase_sublist.map Named.key).subset hin
  refine (hrem.addFile ha hf).of_zero fun x => ?_
  simp [settled, Function.update_apply]

/-- A directory too, unless the new place is below it. -/
theorem Sound.movedDir (hs : s.Sound none owe) (he : e ∈ s.entries)
    (hf : s.isDir e.ino = true) (hd : s.LiveDir dir)
    (hfree : (dir, name) ∉ s.entries.map Named.key) (hup : ∀ k, s.parent^[k] dir ≠ e.ino)
    (ho : ∀ x, owe x = (if x = dir then 1 else 0) - if x = e.dir then 1 else 0) :
    (s.moveName e ⟨dir, name, e.ino⟩).Sound none settled := by
  have hrem := hs.removeDir he hf
  have ha : (s.removeName e).Admits ⟨dir, name, e.ino⟩ := by
    refine ⟨hd, fun hin => hfree ?_, hs.shape.known e he⟩
    exact (List.erase_sublist.map Named.key).subset hin
  refine (Sound.addDir (e := ⟨dir, name, e.ino⟩) hrem ha hup).of_zero fun x => ?_
  simp only [Function.update_apply, ho]
  split_ifs <;> omega

/-- The loop of `d_ancestor` misses no ancestor. -/
theorem Shape.not_above (hs : s.Shape none) (hi : i ≠ s.root) (h : s.above i dir = false)
    (k : Nat) : s.parent^[k] dir ≠ i := by
  have hsmall : ∀ m ≤ s.height, s.parent^[m] dir ≠ i := by
    intro m hm
    have hall := List.any_eq_false.mp h m (List.mem_range.mpr (by omega))
    simpa using hall
  by_cases hk : k ≤ s.height
  · exact hsmall k hk
  · obtain ⟨m, rfl⟩ : ∃ m, k = s.height + m := ⟨k - s.height, by omega⟩
    rw [Function.iterate_add_apply, hs.rooted]
    exact Ne.symm hi

theorem Sound.renamed (hs : s.Sound none settled) (hsmall : s.Small) (he : e ∈ s.entries)
    (hd : s.LiveDir dir)
    (hfree : s.lookup dir name = none) (hup : s.isDir e.ino = true → s.above e.ino dir = false) :
    ((s.simpleRename e ⟨dir, name, e.ino⟩ none).moveName e ⟨dir, name, e.ino⟩).Sound none
      settled := by
  have hkey := not_mem_of_lookup hfree
  by_cases hf : s.isDir e.ino = true
  · simp only [simpleRename, hf, if_true]
    have hin := hs.shape.inside e he
    obtain ⟨n₁, hn₁, hp₁⟩ := hs.dir_pos hsmall hin (by simp [settled])
    have h₁ := hs.drop hn₁ hp₁
    obtain ⟨n₂, hn₂, hp₂⟩ := h₁.dir_pos (i := dir) (hsmall.of_le (by simp)) (by simpa using hd) (by
      simp only [settled, Function.update_apply]
      split_ifs <;> omega)
    have h₂ := h₁.inc hn₂ (Or.inl hp₂)
    refine h₂.movedDir (by simpa using he) (by simpa using hf) (by simpa using hd)
      (by simpa using hkey) ?_ ?_
    · simpa using hs.shape.not_above (hs.shape.not_root e he) (hup hf)
    · intro x
      simp only [settled, Function.update_apply]
      split_ifs <;> simp_all
  · have hfile : s.isDir e.ino = false := by simpa using hf
    simp only [simpleRename, hfile, Bool.false_eq_true, if_false]
    exact hs.movedFile he hfile hd hkey

theorem Sound.replacedFile (hs : s.Sound none settled) (hsmall : s.Small) (he : e ∈ s.entries)
    (hold : ⟨dir, name, j⟩ ∈ s.entries) (hne : e.ino ≠ j) (hf : s.isDir e.ino = false)
    (hfj : s.isDir j = false) :
    ((s.simpleRename e ⟨dir, name, e.ino⟩ (some ⟨dir, name, j⟩)).moveName e
      ⟨dir, name, e.ino⟩).Sound none settled := by
  have hun := hs.unlinked hsmall hold hfj
  have hmem : e ∈ (s.simpleUnlink ⟨dir, name, j⟩).entries := by
    refine (mem_removeName fun heq => hne (by rw [heq])).mpr ?_
    simpa using he
  have hdir : (s.simpleUnlink ⟨dir, name, j⟩).isDir = s.isDir := isDir_dropNlink
  simp only [simpleRename, hf, Bool.false_eq_true, if_false]
  refine hun.movedFile hmem (by rw [hdir, hf]) ?_ ?_
  · exact liveDir_dropNlink.mpr (hs.shape.inside _ hold)
  · exact free_removeName (s := s.dropNlink j) (by simpa using hs.shape.keys) (by simpa using hold)

@[simp] theorem markDead_entries : (s.markDead i).entries = s.entries := by
  unfold markDead
  split <;> rfl

@[simp] theorem markDead_parent : (s.markDead i).parent = s.parent := by
  unfold markDead
  split <;> rfl

/-- What `simple_rename` does to an empty directory in its way, and to the counts. -/
theorem Sound.displaced (hs : s.Sound none settled) (hsmall : s.Small) (he : e ∈ s.entries)
    (hold : ⟨dir, name, j⟩ ∈ s.entries) (hfj : s.isDir j = true)
    (hempty : s.simpleEmpty j = true) :
    ∃ owe, ((((s.simpleUnlink ⟨dir, name, j⟩).dropNlink j).dropNlink e.dir).markDead j).Sound none
        owe ∧ ∀ x, owe x = (if x = dir then 1 else 0) - if x = e.dir then 1 else 0 := by
  have hout : ∀ x ∈ s.entries, x.dir ≠ j := by simpa [simpleEmpty] using hempty
  have hdir : dir ≠ j := hout _ hold
  have hedir : e.dir ≠ j := hout e he
  have hin := hs.shape.inside e he
  have hlive : s.LiveDir j := hs.shape.live_of_isDir hold hfj
  obtain ⟨n₁, hn₁, hp₁⟩ := hs.dir_pos hsmall hlive (by simp [settled])
  have h₁ := (hs.drop hn₁ hp₁).removeDir (e := ⟨dir, name, j⟩) (by simpa using hold)
    (by simpa using hfj)
  have hlen : ((s.dropNlink j).removeName ⟨dir, name, j⟩).entries.length ≤ s.entries.length :=
    removeName_length_le dropNlink_entries
  obtain ⟨n₂, hn₂, hp₂⟩ := h₁.dir_pos (i := j) (hsmall.of_le hlen) (by simpa using hlive)
    (by simp [settled, Ne.symm hdir])
  have h₂ := h₁.drop hn₂ hp₂
  obtain ⟨n₃, hn₃, hp₃⟩ := h₂.dir_pos (i := e.dir) (hsmall.of_le (by simpa using hlen))
    (by simpa using hin) (by
      simp only [settled, Function.update_apply, hedir, hdir, if_false]
      split_ifs <;> omega)
  refine ⟨_, (h₂.drop hn₃ hp₃).kill ?_, ?_⟩
  · intro x hx
    have hx' : x ∈ s.entries.erase ⟨dir, name, j⟩ := by simpa using hx
    exact hout x (List.mem_of_mem_erase hx')
  · intro x
    simp only [settled, Function.update_apply]
    split_ifs <;> omega

theorem Sound.replacedDir (hs : s.Sound none settled) (hsmall : s.Small) (he : e ∈ s.entries)
    (hold : ⟨dir, name, j⟩ ∈ s.entries) (hne : e.ino ≠ j) (hf : s.isDir e.ino = true)
    (hfj : s.isDir j = true) (hempty : s.simpleEmpty j = true)
    (hup : s.above e.ino dir = false) :
    (((s.simpleRename e ⟨dir, name, e.ino⟩ (some ⟨dir, name, j⟩)).markDead j).moveName e
      ⟨dir, name, e.ino⟩).Sound none settled := by
  obtain ⟨owe, hsound, howe⟩ := hs.displaced hsmall he hold hfj hempty
  have hout : ∀ x ∈ s.entries, x.dir ≠ j := by simpa [simpleEmpty] using hempty
  have heold : e ≠ ⟨dir, name, j⟩ := fun heq => hne (by rw [heq])
  simp only [simpleRename, hf, if_true]
  refine hsound.movedDir ?_ ?_ ?_ ?_ ?_ howe
  · simpa [simpleUnlink] using (List.mem_erase_of_ne heold).mpr he
  · simpa [simpleUnlink] using hf
  · simpa [simpleUnlink] using ⟨hs.shape.inside _ hold, hout _ hold⟩
  · have hfree : (dir, name) ∉ (s.entries.erase ⟨dir, name, j⟩).map Named.key :=
      free_removeName hs.shape.keys hold
    simpa [simpleUnlink] using hfree
  · simpa [simpleUnlink] using hs.shape.not_above (hs.shape.not_root e he) hup

/-! ## Behind the checks -/

theorem mayCreate_ok (h : s.mayCreate dir name = .ok ()) :
    s.LiveDir dir ∧ s.lookup dir name = none := by
  unfold mayCreate at h
  split at h
  · cases h
  · rename_i n hn
    split at h
    · cases h
    split at h
    · cases h
    split at h
    · cases h
    · rename_i h₁ h₂ h₃
      refine ⟨⟨n, hn, by simpa using h₁, by simpa using h₃⟩, by simpa using h₂⟩

theorem Sound.guarded {check : Except Errno Unit} {r : RamTree × Except Errno Unit}
    (hs : s.Sound none settled) (h : check = .ok () → r.1.Sound none settled) :
    (s.guarded check r).1.Sound none settled := by
  cases check with
  | error e => exact hs
  | ok u => exact h rfl

theorem Sound.link (hs : s.Sound none settled) : (s.doLink i dir name).1.Sound none settled := by
  refine hs.guarded fun hmay => ?_
  obtain ⟨hd, hfree⟩ := mayCreate_ok hmay
  split
  · exact hs
  · rename_i n hn
    split
    · exact hs
    split
    · exact hs
    · rename_i hf hpos
      have hpos' : n.nlink ≠ 0 ∨ n.linkable = true := by
        by_cases hz : n.nlink = 0
        · exact Or.inr (by simpa [hz] using hpos)
        · exact Or.inl hz
      have hlinked := hs.linked hd hfree hn (by simpa using hf) hpos'
      dsimp only
      split
      · exact hlinked
      · rename_i k hk
        exact hlinked.mark hk rfl rfl rfl

theorem Sound.unlink (hs : s.Sound none settled) (hsmall : s.Small) :
    (s.doUnlink dir name).1.Sound none settled := by
  unfold doUnlink
  split
  · exact hs
  · rename_i i hi
    split
    · exact hs
    · rename_i hf
      exact hs.unlinked hsmall (mem_of_lookup hi) (by simpa using hf)

theorem Sound.rmdir (hs : s.Sound none settled) (hsmall : s.Small) :
    (s.doRmdir dir name).1.Sound none settled := by
  unfold doRmdir
  split
  · exact hs
  · rename_i i hi
    split
    · exact hs
    split
    · exact hs
    · rename_i hd hempty
      exact hs.removed hsmall (mem_of_lookup hi) (by simpa using hd) (by simpa using hempty)

theorem Sound.rename (hs : s.Sound none settled) (hsmall : s.Small) {dir' : Nat} {name' : CString}
    {noreplace : Bool} : (s.doRename dir name dir' name' noreplace).1.Sound none settled := by
  unfold doRename
  split
  · exact hs
  · exact hs
  · rename_i i n' hi hn'
    have he := mem_of_lookup hi
    dsimp only
    split
    · exact hs
    rename_i hd
    split
    · rename_i hfree
      split
      · exact hs
      split
      · exact hs
      · rename_i hup hdead
        have hlive : s.LiveDir dir' := ⟨n', hn', by simpa using hd, by simpa using hdead⟩
        refine hs.renamed hsmall he hlive hfree fun hf => ?_
        simpa [hf] using hup
    · rename_i j hj
      have hold := mem_of_lookup hj
      split
      · exact hs
      split
      · exact hs
      split
      · exact hs
      split
      · exact hs
      split
      · exact hs
      split
      · exact hs
      split
      · exact hs
      · rename_i hup _ hne h₁ h₂ hempty
        by_cases hf : s.isDir i = true
        · have hfj : s.isDir j = true := by simpa [hf] using h₁
          simp only [hfj, if_true]
          exact hs.replacedDir hsmall he hold hne hf hfj (by simpa using hempty)
            (by simpa [hf] using hup)
        · have hfj : s.isDir j = false := by simpa [hf] using h₂
          simp only [hfj, Bool.false_eq_true, if_false]
          exact hs.replacedFile hsmall he hold hne (by simpa using hf) hfj

end RamTree

def simpleOps : LibraryOps where
  link := RamTree.doLink
  unlink := RamTree.doUnlink
  rmdir := RamTree.doRmdir
  rename := RamTree.doRename

theorem simpleOps_lawful : simpleOps.Lawful where
  link_keeps _ _ _ hs _ := hs.link
  unlink_keeps _ _ hs hsmall := hs.unlink hsmall
  rmdir_keeps _ _ hs hsmall := hs.rmdir hsmall
  rename_keeps _ _ _ _ _ hs hsmall := hs.rename hsmall

end OShm.Ramfs
