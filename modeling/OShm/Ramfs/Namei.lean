import OShm.Lib.PathWalk
import OShm.Ramfs.Path

/-! # Path lookup

Where a path leads is up to the kernel's path walk. It depends on the process and on the
directories and links there are, not on files. What binding and flushing use of it are the laws
of `Namei`; the walk of `treeNamei` meets them.
-/

namespace OShm.Ramfs

open OShm.Kernel OShm.Lib.PathString OShm.Lib.PathWalk

abbrev Dir := Nat

abbrev Loc := Dir × CString

def special : Special UInt8 := ⟨slash, dot, by decide⟩

/-- A name that a directory can hold. -/
structure IsName (c : CString) : Prop where
  component : Component slash c
  plain : Plain special c

inductive Sight where
  | dir (d : Dir)
  | link (text : CString)
  deriving DecidableEq, Repr

abbrev Sights := Loc → Option Sight

/-- `current`: what path lookup and the flush read of it. -/
structure Process where
  root : Dir
  cwd : Dir
  cred : Nat
  pid : Nat
  deriving DecidableEq, Repr

structure Namei where
  /-- `kern_path(path, LOOKUP_FOLLOW)` of a directory. -/
  findDir : Process → Sights → CString → Option Dir
  /-- `kern_path(path, 0)`: a directory, or an entry that is none. -/
  findNoFollow : Process → Sights → CString → Option (Dir ⊕ Loc)
  /-- The directory in which the process looks up a name that follows the path and a slash. -/
  base : Process → Sights → CString → Option Dir
  /-- The entry that a path names, its last component not followed. -/
  locate : Process → Sights → CString → Option Loc
  /-- The entry that `filp_open` with `O_CREAT` opens or creates. -/
  openTarget : Process → Sights → CString → Option Loc
  locate_join : ∀ {p t s c}, IsName c → locate p t (s ++ slash :: c) = (base p t s).map (·, c)
  locate_dots : ∀ {p t s c}, Component slash c → ¬ Plain special c →
    locate p t (s ++ slash :: c) = none
  openTarget_missing : ∀ {p t path}, locate p t path = none → openTarget p t path = none
  openTarget_plain : ∀ {p t path l}, locate p t path = some l →
    (∀ text, t l ≠ some (.link text)) → openTarget p t path = some l
  openTarget_not_link : ∀ {p t path l text}, openTarget p t path = some l →
    t l ≠ some (.link text)
  /-- A path that leads to a directory opens nothing else. -/
  openTarget_dir : ∀ {p t path d l}, findDir p t path = some d → openTarget p t path = some l →
    ∃ e, t l = some (.dir e)
  findDir_slash : ∀ {p t s d}, s ≠ [] → findDir p t s = some d →
    findDir p t (s ++ [slash]) = some d
  /-- The working directory plays no part for an absolute path. -/
  base_absolute : ∀ {p q t s}, s.head? = some slash → q.root = p.root → q.cred = p.cred →
    base q t s = base p t s
  /-- A walk that does not get through an entry any more ends or goes the same way. -/
  locate_block : ∀ p t path l, locate p (Function.update t l none) path = none ∨
    locate p (Function.update t l none) path = locate p t path
  /-- No walk gets through an entry that opens something other than a directory. -/
  locate_opened : ∀ {p t path l m}, locate p t path = some l → openTarget p t path = some m →
    (∀ d, t m ≠ some (.dir d)) → locate p (Function.update t l none) path = some l

/-! ## A walk over a tree -/

namespace Sights

def entry : Sight → Entry Dir UInt8 Empty
  | .dir d => .dir d
  | .link text => .link text

def tree (t : Sights) (parent : Dir → Dir) : Tree Dir UInt8 Empty :=
  ⟨fun d c => (t (d, c)).map entry, parent⟩

variable {t : Sights} {parent : Dir → Dir} {d : Dir} {c : CString}

theorem tree_dir {e : Dir} : (t.tree parent).lookup d c = some (.dir e) ↔
    t (d, c) = some (.dir e) := by
  show (t (d, c)).map entry = _ ↔ _
  rcases t (d, c) with _ | (_ | _) <;> simp [entry]

theorem tree_link {text : CString} : (t.tree parent).lookup d c = some (.link text) ↔
    t (d, c) = some (.link text) := by
  show (t (d, c)).map entry = _ ↔ _
  rcases t (d, c) with _ | (_ | _) <;> simp [entry]

theorem tree_block (t : Sights) (parent : Dir → Dir) (l : Loc) :
    Tree.Blocks (t.tree parent) (tree (Function.update t l none) parent) l.1 l.2 where
  parent := rfl
  gone := by simp [tree]
  others d c h := by
    have hne : (d, c) ≠ l := h
    simp [tree, Function.update_of_ne hne]

end Sights

def maxSymlinks : Nat := 40

section Walk

variable (parent : Dir → Dir) (p : Process) (t : Sights) (path : CString)

def walkDir : Option (Dir × Nat) :=
  (t.tree parent).walk special p.root maxSymlinks (start special p.root p.cwd path)
    (components special path)

/-- As `walkDir`, of the path with a slash behind it. -/
def walkBase : Option (Dir × Nat) :=
  (t.tree parent).walk special p.root maxSymlinks (start special p.root p.cwd (path ++ [slash]))
    (names special path)

def walkLocate : Option ((Dir × Nat) × CString) :=
  (t.tree parent).locate special p.root maxSymlinks (start special p.root p.cwd path)
    (components special path)

def walkTarget : Option Loc :=
  (t.tree parent).target special p.root (maxSymlinks + 1) maxSymlinks
    (start special p.root p.cwd path) (components special path)

/-- A directory, or a link at the end of the path. -/
def walkNoFollow : Option (Dir ⊕ Loc) :=
  match walkLocate parent p t path with
  | none => (walkDir parent p t path).map fun x => .inl x.1
  | some ((e, _), c) =>
      match t (e, c) with
      | some (.dir d) => some (.inl d)
      | some (.link _) => some (.inr (e, c))
      | none => none

end Walk

section Laws

variable {parent : Dir → Dir} {p q : Process} {t : Sights} {s path c : CString} {d : Dir} {l : Loc}

theorem tree_locate_join (hc : IsName c) :
    (walkLocate parent p t (s ++ slash :: c)).map (fun x => (x.1.1, x.2)) =
      ((walkBase parent p t s).map Prod.fst).map (·, c) := by
  have hjoin : walkLocate parent p t (s ++ slash :: c) =
      (walkBase parent p t s).map fun e => (e, c) := Tree.locate_join hc.component hc.plain
  rw [hjoin, Option.map_map, Option.map_map]
  rfl

theorem tree_locate_dots (hc : Component slash c) (hdots : ¬ Plain special c) :
    (walkLocate parent p t (s ++ slash :: c)).map (fun x => ((x.1.1, x.2) : Loc)) = none :=
  congrArg _ (Tree.locate_join_special hc hdots _)

theorem tree_openTarget_missing
    (h : (walkLocate parent p t path).map (fun x => ((x.1.1, x.2) : Loc)) = none) :
    walkTarget parent p t path = none := by
  have hnone := Option.map_eq_none_iff.mp h
  unfold walkLocate at hnone
  rw [walkTarget, Tree.target, hnone]

theorem tree_openTarget_plain
    (h : (walkLocate parent p t path).map (fun x => (x.1.1, x.2)) = some l)
    (hlink : ∀ text, t l ≠ some (.link text)) : walkTarget parent p t path = some l := by
  obtain ⟨⟨x, c⟩, hx, rfl⟩ := Option.map_eq_some_iff.mp h
  unfold walkLocate at hx
  rw [walkTarget, Tree.target, hx]
  rcases hentry : (t.tree parent).lookup x.1 c with _ | (e | text | f)
  · simp [hentry]
  · simp [hentry]
  · exact absurd (Sights.tree_link.mp hentry) (hlink text)
  · exact f.elim

theorem tree_openTarget_not_link {text : CString} (h : walkTarget parent p t path = some l) :
    t l ≠ some (.link text) := fun hl =>
  Tree.lookup_target_ne_link h (Sights.tree_link.mpr hl)

theorem tree_openTarget_dir (hd : (walkDir parent p t path).map Prod.fst = some d)
    (hl : walkTarget parent p t path = some l) : ∃ e, t l = some (.dir e) := by
  obtain ⟨x, hx, _⟩ := Option.map_eq_some_iff.mp hd
  obtain ⟨e, he⟩ := Tree.lookup_target_of_walk hl hx (Nat.le_refl _)
  exact ⟨e, Sights.tree_dir.mp he⟩

theorem tree_findDir_slash (hs : s ≠ []) (h : (walkDir parent p t s).map Prod.fst = some d) :
    (walkDir parent p t (s ++ [slash])).map Prod.fst = some d := by
  have hnames : names special (s ++ [slash]) = names special s := by
    have happend : names special (s ++ special.sep :: []) = names special s ++ names special [] :=
      names_append s []
    exact happend.trans (List.append_nil _)
  rw [← h, walkDir, walkDir, start_append _ _ hs, Tree.walk_components, Tree.walk_components,
    hnames]

theorem tree_base_absolute (hs : s.head? = some slash) (hroot : q.root = p.root) :
    (walkBase parent q t s).map Prod.fst = (walkBase parent p t s).map Prod.fst := by
  have hstart : ∀ p : Process, start special p.root p.cwd (s ++ [slash]) = p.root := by
    intro p
    apply if_pos
    cases s with
    | nil => cases hs
    | cons x s => exact hs
  rw [walkBase, walkBase, hstart p, hstart q, hroot]

/-- Without the name `l` the last component is looked up in the same place, or the walk to it came
by that name. -/
theorem walkLocate_block (parent : Dir → Dir) (p : Process) (t : Sights) (path : CString)
    (l : Loc) :
    walkLocate parent p (Function.update t l none) path = walkLocate parent p t path ∨
      walkLocate parent p (Function.update t l none) path = none ∧
        Tree.Passes special (t.tree parent) p.root maxSymlinks (start special p.root p.cwd path)
          (components special path).dropLast l.1 l.2 := by
  unfold walkLocate Tree.locate
  cases (components special path).getLast? with
  | none => exact Or.inl rfl
  | some c =>
      rcases (t.tree_block parent l).walk (components special path).dropLast with h | ⟨h, hpass⟩
      · exact Or.inl (by rw [h])
      · refine Or.inr ⟨?_, hpass⟩
        simp only [h, Option.map_none, ite_self]

theorem tree_locate_block (parent : Dir → Dir) (p : Process) (t : Sights) (path : CString)
    (l : Loc) :
    (walkLocate parent p (Function.update t l none) path).map
        (fun x => ((x.1.1, x.2) : Loc)) = none ∨
      (walkLocate parent p (Function.update t l none) path).map (fun x => (x.1.1, x.2)) =
        (walkLocate parent p t path).map fun x => (x.1.1, x.2) := by
  rcases walkLocate_block parent p t path l with h | h
  · exact Or.inr (congrArg _ h)
  · exact Or.inl (congrArg _ h.1)

theorem tree_locate_opened {m : Loc}
    (h : (walkLocate parent p t path).map (fun x => (x.1.1, x.2)) = some l)
    (hm : walkTarget parent p t path = some m) (hdir : ∀ d, t m ≠ some (.dir d)) :
    (walkLocate parent p (Function.update t l none) path).map (fun x => (x.1.1, x.2)) =
      some l := by
  obtain ⟨⟨⟨d, k⟩, c⟩, hx, rfl⟩ := Option.map_eq_some_iff.mp h
  obtain ⟨hlast, hplain, hwalk⟩ := Tree.locate_eq_some hx
  have hsplit : components special path = (components special path).dropLast ++ [c] :=
    (List.dropLast_append_getLast? c hlast).symm
  rw [walkTarget, hsplit] at hm
  have hpass := Tree.not_passes_of_target hplain hwalk hm fun y hy =>
    hdir y (Sights.tree_dir.mp hy)
  rcases walkLocate_block parent p t path (d, c) with h | h
  · rw [h, hx]
    rfl
  · exact absurd h.2 hpass

end Laws

/-- Lookup as a walk from the root or the working directory, for a process that may search every
directory. -/
def treeNamei (parent : Dir → Dir) : Namei where
  findDir p t path := (walkDir parent p t path).map Prod.fst
  findNoFollow := walkNoFollow parent
  base p t s := (walkBase parent p t s).map Prod.fst
  locate p t path := (walkLocate parent p t path).map fun x => (x.1.1, x.2)
  openTarget := walkTarget parent
  locate_join := tree_locate_join
  locate_dots := tree_locate_dots
  openTarget_missing := tree_openTarget_missing
  openTarget_plain := tree_openTarget_plain
  openTarget_not_link := tree_openTarget_not_link
  openTarget_dir := tree_openTarget_dir
  findDir_slash := tree_findDir_slash
  base_absolute hs hroot _ := tree_base_absolute hs hroot
  locate_block := tree_locate_block parent
  locate_opened := tree_locate_opened

end OShm.Ramfs
