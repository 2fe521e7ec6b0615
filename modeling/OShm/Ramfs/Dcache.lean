import Mathlib.Logic.Relation
import OShm.Lib.Ancestry
import OShm.Ramfs.Vfs

/-! # Dentries and the paths they print

An open file keeps its dentry. A rename moves the dentry, and an unlink takes it out of the
hash but leaves its name and parent, so that `d_path` can still print them. A path is opened
through the hash, which knows nothing of unlinked dentries.
-/

namespace OShm.Ramfs

open OShm.Lib.Ancestry OShm.Lib.PathString OShm.Lib.PathWalk

inductive Kind where
  | dir
  | link (text : CString)
  | file (ino : Nat)
  deriving DecidableEq, Repr

structure Dentry where
  parent : Nat
  name : CString
  /-- Not `d_unhashed`. -/
  hashed : Bool
  kind : Kind
  /-- `d_sb`. -/
  sb : Nat
  deriving DecidableEq, Repr

/-- The dentries below the root of a process. A mount point is the root of what is mounted
there. -/
structure Dcache where
  root : Nat
  dentry : Nat → Dentry
  /-- `d_lookup`. -/
  find : Nat → CString → Option Nat
  height : Nat
  rooted : Rooted (fun e => (dentry e).parent) root height
  root_dir : (dentry root).kind = .dir
  named : ∀ e, e ≠ root → Component slash (dentry e).name ∧ Plain special (dentry e).name
  find_iff : ∀ p c e, find p c = some e ↔
    e ≠ root ∧ (dentry e).hashed = true ∧ (dentry e).parent = p ∧ (dentry e).name = c
  /-- A directory with entries is not removed. -/
  above : ∀ e, e ≠ root → (dentry e).hashed = true →
    (dentry (dentry e).parent).kind = .dir ∧
      ((dentry e).parent = root ∨ (dentry (dentry e).parent).hashed = true)

namespace Dcache

variable (t : Dcache)

def Empty (e : Nat) : Prop :=
  ∀ x, x ≠ t.root → (t.dentry x).hashed = true → (t.dentry x).parent ≠ e

/-- A directory that names can be put in. -/
def Open (p : Nat) : Prop :=
  (t.dentry p).kind = .dir ∧ (p = t.root ∨ (t.dentry p).hashed = true)

/-! ## Paths -/

/-- The names from the root to a dentry. -/
def path (e : Nat) : List CString :=
  climb (fun e => (t.dentry e).parent) t.root (fun e => (t.dentry e).name) t.height e

/-- `d_path` into a buffer of `PATH_MAX` bytes. -/
def dPath (e : Nat) : Option CString :=
  let text := render slash (t.path e) ++
    if e = t.root ∨ (t.dentry e).hashed = true then [] else ascii " (deleted)"
  if text.length < pathMax then some text else none

def entry (e : Nat) : Entry Nat UInt8 Nat :=
  match (t.dentry e).kind with
  | .dir => .dir e
  | .link text => .link text
  | .file _ => .file e

def tree : Tree Nat UInt8 Nat :=
  ⟨fun p c => (t.find p c).map t.entry, fun e => (t.dentry e).parent⟩

/-- `filp_open(path, O_RDONLY, 0)` of an absolute path. -/
def openRead (path : CString) : Option Nat :=
  match t.tree.resolve special t.root maxSymlinks t.root path,
    t.tree.target special t.root (maxSymlinks + 1) maxSymlinks t.root (components special path) with
  | some d, _ => some d
  | none, some (p, c) =>
      match t.tree.lookup p c with
      | some (.file g) => some g
      | _ => none
  | none, none => none

variable {t}

theorem path_root : t.path t.root = [] := climb_root _ _

theorem path_eq {e : Nat} (he : e ≠ t.root) :
    t.path e = t.path (t.dentry e).parent ++ [(t.dentry e).name] :=
  t.rooted.climb_eq _ he

theorem path_components (e : Nat) : ∀ c ∈ t.path e, Component slash c := by
  induction e using t.rooted.induction with
  | hroot =>
      rw [path_root]
      nofun
  | hdown e he ih =>
      intro c hc
      rw [path_eq he, List.mem_append, List.mem_singleton] at hc
      rcases hc with hc | rfl
      · exact ih c hc
      · exact (t.named e he).1

theorem lookup_of_hashed {e : Nat} (he : e ≠ t.root) (hh : (t.dentry e).hashed = true) :
    t.tree.lookup (t.dentry e).parent (t.dentry e).name = some (t.entry e) := by
  have hfind := (t.find_iff _ _ e).mpr ⟨he, hh, rfl, rfl⟩
  simp [tree, hfind]

theorem walk_path (k e : Nat) (h : t.Open e) :
    t.tree.walk special t.root k t.root (t.path e) = some (e, k) := by
  induction e using t.rooted.induction with
  | hroot => rw [path_root, Tree.walk_nil]
  | hdown e he ih =>
      have hh : (t.dentry e).hashed = true := h.2.resolve_left he
      have hplain := (t.named e he).2
      have hentry : t.entry e = .dir e := by simp [entry, h.1]
      rw [path_eq he, Tree.walk_append, ih (t.above e he hh), Option.bind_some, Tree.walk_cons,
        if_neg hplain.1, if_neg hplain.2, lookup_of_hashed he hh, hentry]
      simp

theorem ne_root_of_file {f ino : Nat} (hf : (t.dentry f).kind = .file ino) : f ≠ t.root := by
  rintro rfl
  simp [t.root_dir] at hf

theorem openRead_path {f ino : Nat} (hf : (t.dentry f).kind = .file ino)
    (hh : (t.dentry f).hashed = true) : t.openRead (render slash (t.path f)) = some f := by
  have hne := ne_root_of_file hf
  have hplain := (t.named f hne).2
  have hentry : t.entry f = .file f := by simp [entry, hf]
  have hlookup := lookup_of_hashed hne hh
  rw [hentry] at hlookup
  have hcomps : components special (render slash (t.path f)) =
      t.path (t.dentry f).parent ++ [(t.dentry f).name] := by
    rw [← path_eq hne]
    exact components_render (path_components f) (by simp [path_eq hne])
  have hwalk := walk_path maxSymlinks _ (t.above f hne hh)
  have hresolve : t.tree.resolve special t.root maxSymlinks t.root (render slash (t.path f)) =
      none := by
    have hstart : start special t.root t.root (render slash (t.path f)) = t.root := rfl
    rw [Tree.resolve, hcomps, hstart, Tree.walk_append, hwalk,
      Option.bind_some, Tree.walk_cons, if_neg hplain.1, if_neg hplain.2, hlookup]
    rfl
  have htarget : t.tree.target special t.root (maxSymlinks + 1) maxSymlinks t.root
      (components special (render slash (t.path f))) =
      some ((t.dentry f).parent, (t.dentry f).name) := by
    rw [Tree.target, hcomps, Tree.locate, List.getLast?_concat, List.dropLast_concat]
    simp only [hplain, if_true, hwalk, Option.map_some, hlookup]
  rw [openRead, hresolve, htarget]
  simp only [hlookup]

theorem dPath_of_hashed {e : Nat} (hh : (t.dentry e).hashed = true) {path : CString}
    (h : t.dPath e = some path) : path = render slash (t.path e) := by
  simp only [dPath, hh, or_true, if_true, List.append_nil, Option.ite_none_right_eq_some,
    Option.some.injEq] at h
  exact h.2.symm

theorem openRead_dPath {f ino : Nat} (hf : (t.dentry f).kind = .file ino)
    (hh : (t.dentry f).hashed = true) {path : CString} (h : t.dPath f = some path) :
    t.openRead path = some f := by
  rw [dPath_of_hashed hh h]
  exact openRead_path hf hh

/-! ## Names that come and go -/

/-- A name is taken away, by `unlink`, by `rmdir` or because a rename needs it. -/
def unlink (t : Dcache) (e : Nat) (hempty : t.Empty e) : Dcache where
  root := t.root
  dentry := Function.update t.dentry e { t.dentry e with hashed := false }
  find p c := if t.find p c = some e then none else t.find p c
  height := t.height
  rooted := by
    have hparent : (fun x => (Function.update t.dentry e
        { t.dentry e with hashed := false } x).parent) = fun x => (t.dentry x).parent := by
      funext x
      by_cases hx : x = e <;> simp [hx]
    rw [hparent]
    exact t.rooted
  root_dir := by
    by_cases he : t.root = e
    · simpa [← he] using t.root_dir
    · simpa [he] using t.root_dir
  named x hx := by
    by_cases he : x = e
    · simpa [he] using t.named e (he ▸ hx)
    · simpa [he] using t.named x hx
  find_iff p c x := by
    by_cases he : x = e
    · subst he
      by_cases hfind : t.find p c = some x <;> simp [hfind]
    · by_cases hfind : t.find p c = some e
      · have hother := (t.find_iff p c x).not.mp (by simp [hfind, Ne.symm he])
        simpa [hfind, he] using hother
      · simpa [hfind, he] using t.find_iff p c x
  above x hx hh := by
    have he : x ≠ e := by
      rintro rfl
      simp at hh
    simp only [Function.update_of_ne he] at hh ⊢
    simpa [hempty x hx hh] using t.above x hx hh

/-- What a dentry needs for its new place. -/
structure Fits (t : Dcache) (e p : Nat) (c : CString) (k : Kind) : Prop where
  ne_root : e ≠ t.root
  inside : t.Open p
  /-- A directory is not moved below itself. -/
  not_above : ∀ n, (fun x => (t.dentry x).parent)^[n] p ≠ e
  named : Component slash c ∧ Plain special c
  free : ∀ x, t.find p c = some x → x = e
  kind : k = (t.dentry e).kind ∨ t.Empty e

def place (t : Dcache) (e p : Nat) (c : CString) (k : Kind) (sb : Nat) (h : t.Fits e p c k) :
    Dcache where
  root := t.root
  dentry := Function.update t.dentry e ⟨p, c, true, k, sb⟩
  find p' c' :=
    if p' = p ∧ c' = c then some e
    else if t.find p' c' = some e then none
    else t.find p' c'
  height := t.height + 1 + t.height
  rooted := by
    have hparent : (fun x => (Function.update t.dentry e ⟨p, c, true, k, sb⟩ x).parent) =
        Function.update (fun x => (t.dentry x).parent) e p := by
      funext x
      by_cases hx : x = e <;> simp [hx]
    rw [hparent]
    exact t.rooted.redirect h.ne_root h.not_above
  root_dir := by simpa [Function.update_of_ne h.ne_root.symm] using t.root_dir
  named x hx := by
    by_cases he : x = e
    · simpa [he] using h.named
    · simpa [he] using t.named x hx
  find_iff p' c' x := by
    have hne := h.ne_root
    by_cases hplace : p' = p ∧ c' = c
    · obtain ⟨rfl, rfl⟩ := hplace
      by_cases he : x = e
      · simp [he, hne]
      · have hother := (t.find_iff p' c' x).not.mp fun hx => he (h.free x hx)
        simpa [he, Ne.symm he] using hother
    · have hplace' : ¬ (p = p' ∧ c = c') := fun h => hplace ⟨h.1.symm, h.2.symm⟩
      by_cases he : x = e
      · subst he
        by_cases hfind : t.find p' c' = some x <;> simp [hplace, hfind, hplace']
      · by_cases hfind : t.find p' c' = some e
        · have hother := (t.find_iff p' c' x).not.mp (by simp [hfind, Ne.symm he])
          simpa [hplace, hfind, he] using hother
        · simpa [hplace, hfind, he] using t.find_iff p' c' x
  above x hx hh := by
    have hp : p ≠ e := h.not_above 0
    by_cases he : x = e
    · simpa [he, hp, Open] using h.inside
    · simp only [Function.update_of_ne he] at hh ⊢
      have hup := t.above x hx hh
      by_cases hq : (t.dentry x).parent = e
      · -- only a dentry that keeps its kind has entries
        have hk := h.kind.resolve_right fun hempty => hempty x hx hh hq
        rw [hq] at hup ⊢
        simpa [hk] using hup.1
      · simpa [hq] using hup

/-- A change of the names; the index is the dentry that loses its own. -/
inductive Change (t : Dcache) : Option Nat → Dcache → Prop where
  | created {e p sb : Nat} {c : CString} {k : Kind} (fresh : (t.dentry e).hashed = false)
      (h : t.Fits e p c k) : Change t none (t.place e p c k sb h)
  | unlinked {e : Nat} (hempty : t.Empty e) : Change t (some e) (t.unlink e hempty)
  | renamed {e p : Nat} {c : CString} (h : t.Fits e p c (t.dentry e).kind) :
      Change t none (t.place e p c (t.dentry e).kind (t.dentry e).sb h)
  | replaced {e x p : Nat} {c : CString} (hempty : t.Empty x)
      (h : (t.unlink x hempty).Fits e p c (t.dentry e).kind) :
      Change t (some x) ((t.unlink x hempty).place e p c (t.dentry e).kind (t.dentry e).sb h)

structure IsLinked (t : Dcache) (f ino sb : Nat) : Prop where
  hashed : (t.dentry f).hashed = true
  kind : (t.dentry f).kind = .file ino
  sb_eq : (t.dentry f).sb = sb

theorem IsLinked.unlink {f ino sb e : Nat} (h : t.IsLinked f ino sb) (hempty : t.Empty e)
    (hne : f ≠ e) : (t.unlink e hempty).IsLinked f ino sb := by
  have hsame : (t.unlink e hempty).dentry f = t.dentry f := Function.update_of_ne hne _ _
  exact ⟨hsame ▸ h.hashed, hsame ▸ h.kind, hsame ▸ h.sb_eq⟩

theorem IsLinked.place {f ino sb e p sb' : Nat} {c : CString} {k : Kind} (h : t.IsLinked f ino sb)
    (hfits : t.Fits e p c k) (hsame : f = e → k = .file ino ∧ sb' = sb) :
    (t.place e p c k sb' hfits).IsLinked f ino sb := by
  by_cases hne : f = e
  · have hself : (t.place e p c k sb' hfits).dentry f = ⟨p, c, true, k, sb'⟩ := by
      rw [hne]
      exact Function.update_self _ _ _
    obtain ⟨hk, hsb⟩ := hsame hne
    exact ⟨by rw [hself], by rw [hself, hk], by rw [hself, hsb]⟩
  · have hother : (t.place e p c k sb' hfits).dentry f = t.dentry f :=
      Function.update_of_ne hne _ _
    exact ⟨hother ▸ h.hashed, hother ▸ h.kind, hother ▸ h.sb_eq⟩

/-- A file stays linked until it loses its own name. -/
theorem IsLinked.change {t' : Dcache} {lost : Option Nat} {f ino sb : Nat}
    (h : t.IsLinked f ino sb) (hc : t.Change lost t') (hkept : lost ≠ some f) :
    t'.IsLinked f ino sb := by
  cases hc with
  | created fresh hfits =>
      refine h.place hfits ?_
      rintro rfl
      exact absurd h.hashed (by simp [fresh])
  | unlinked hempty => exact h.unlink hempty fun heq => hkept (heq ▸ rfl)
  | renamed hfits =>
      refine h.place hfits ?_
      rintro rfl
      exact ⟨h.kind, h.sb_eq⟩
  | replaced hempty hfits =>
      refine (h.unlink hempty fun heq => hkept (heq ▸ rfl)).place hfits ?_
      rintro rfl
      exact ⟨h.kind, h.sb_eq⟩

/-- Histories in which `f` keeps a name, though not always the same. -/
def Keeps (f : Nat) : Dcache → Dcache → Prop :=
  Relation.ReflTransGen fun t t' => ∃ lost, t.Change lost t' ∧ lost ≠ some f

theorem IsLinked.keeps {t' : Dcache} {f ino sb : Nat} (h : t.IsLinked f ino sb)
    (hk : Keeps f t t') : t'.IsLinked f ino sb := by
  induction hk with
  | refl => exact h
  | tail _ hstep ih =>
      obtain ⟨lost, hc, hkept⟩ := hstep
      exact ih.change hc hkept

end Dcache

end OShm.Ramfs
