import OShm.Ramfs.FlushOutcome

/-! # Where a bound ramfs persists its files

`ramfs_bind` looks up `sync_dir` for the process that binds and keeps the string. Each flush looks
up the string again, with a slash and a name behind it and for the process that flushes.
-/

namespace OShm.Ramfs

open OShm.Kernel OShm.Lib OShm.Lib.PathString OShm.Lib.PathWalk

namespace World

variable {W : World} {st : Store}

/-! ## What an accepted binding says -/

theorem ramfsBind_ok {W₁ : World} {ramfsPath s : CString} {mem : Bool}
    (h : W.ramfsBind st ramfsPath s mem = (W₁, .ok ())) :
    ∃ D mount sb, W.kernPathAny st s = some (.inl D) ∧
      W.kernPathAny st ramfsPath = some mount ∧ W.superBlock mount = .ramfs sb ∧
      W₁ = { W with syncDir := Function.update W.syncDir sb (some s) } := by
  unfold ramfsBind at h
  cases hs : W.kernPathAny st s with
  | none => simp [hs] at h
  | some dir =>
      cases hm : W.kernPathAny st ramfsPath with
      | none => simp [hs, hm] at h
      | some mount =>
          cases hb : W.superBlock mount with
          | disk sb => simp [hs, hm, hb] at h
          | ramfs sb =>
              cases dir with
              | inr l => simp [hs, hm, hb] at h
              | inl D =>
                  cases mem with
                  | false => simp [hs, hm, hb] at h
                  | true =>
                      simp only [hs, hm, hb, if_true, Prod.mk.injEq, and_true] at h
                      exact ⟨D, mount, sb, rfl, rfl, hb, h.symm⟩

end World

/-! ## The directory of a later flush -/

def Returns (V : World) (n : Nat) (u : Store) (file : Loc) : Prop :=
  ∃ l u', V.flush n file u = some (.ok l, u')

/-- It returns 0 after it has renamed its copy to the name of the file in `D`. -/
def PersistsIn (V : World) (n : Nat) (u : Store) (file : Loc) (D : Dir) : Prop :=
  ∃ u', V.flush n file u = some (.ok (D, file.2), u') ∧ u'.lookup D file.2 ≠ none

/-- The flush comes to its rename with the directories and links of `t`. -/
def TreeKept (V : World) (n : Nat) (u : Store) (file : Loc) (t : Sights) : Prop :=
  ∀ A u₁, V.flushPrepare (V.fileIo (V.flush n)) n file u = some (.ok A, u₁) → u₁.sights = t

/-- The path of the target, cut to the buffer, is that name in `D` for the process. -/
def TargetsDir (N : Namei) (t : Sights) (p : Process) (s : CString) (file : Loc) (D : Dir) : Prop :=
  N.locate p t (snprintf (s ++ slash :: file.2)) = some (D, file.2)

namespace World

variable {V : World} {u : Store} {n : Nat} {s : CString} {file l : Loc}

theorem copyToTmp_args {io : Io} {A : FlushArgs} {u₁ : Store} (hbound : V.boundTo file.1 = some s)
    (h : V.copyToTmp io n file u = some (.ok A, u₁)) :
    ∃ k path, V.dPath file = some path ∧ A = V.flushArgs k s path := by
  rw [copyToTmp, hbound] at h
  have h := call_bind_ok h
  cases hpath : V.dPath file with
  | none =>
      rw [hpath] at h
      cases h
  | some path =>
      simp only [hpath] at h
      have h := call_bind_ok h
      rw [Prog.get_bind] at h
      rcases Prog.bind_eq_some h with ⟨e, _, he⟩ | ⟨dst, t, _, h⟩
      · cases he
      rcases Prog.bind_eq_some h with ⟨e, _, he⟩ | ⟨_, t', _, h⟩
      · cases he
      cases h
      exact ⟨_, path, rfl, rfl⟩

theorem flush_ok_located {u' : Store} {t : Sights} (hbound : V.boundTo file.1 = some s)
    (hkept : TreeKept V n u file t) (h : V.flush (n + 1) file u = some (.ok l, u')) :
    V.namei.locate V.current t (snprintf (s ++ slash :: file.2)) = some l ∧
      u'.lookup l.1 l.2 ≠ none := by
  rw [flush, flushBody] at h
  rcases Prog.bind_eq_some h with ⟨e, _, he⟩ | ⟨A, u₁, hprep, hren⟩
  · cases he
  have hargs : ∃ k path, V.dPath file = some path ∧ A = V.flushArgs k s path := by
    rcases Prog.bind_eq_some hprep with ⟨e, _, he⟩ | ⟨A', u₂, hcopy, hrest⟩
    · cases he
    rcases Prog.bind_eq_some hrest with ⟨e, _, he⟩ | ⟨_, u₃, _, hpure⟩
    · cases he
    cases hpure
    exact copyToTmp_args hbound hcopy
  obtain ⟨k, path, hpath, rfl⟩ := hargs
  have hfinal : (V.flushArgs k s path).finalPath = snprintf (s ++ slash :: file.2) := by
    rw [← V.dPath_last file path hpath, FlushArgs.finalPath]
    simp [flushArgs, FlushArgs.filename]
  rcases rename_cases hren with ⟨e, he, _⟩ | ⟨a, b, hb, _, hlocate, _, ha, rfl⟩
  · cases he
  · cases hb
    rw [hfinal, locate, hkept _ _ hprep] at hlocate
    refine ⟨hlocate, ?_⟩
    rw [Store.moved_target]
    exact ha

/-- A flush with its temporary file on a disk does not change the tree before its rename. -/
theorem treeKept_onDisk (hbound : V.boundTo file.1 = some s)
    (hdisk : ∀ path l, V.dPath file = some path →
      V.openTarget u (V.flushArgs (u.calls + 2) s path).tmpPath = some l →
      ∃ sb, V.fs l.1 = .disk sb) : TreeKept V n u file u.sights := by
  intro A u₁ h
  have hkeeps := sights_changeClosed u.sights
  have hcopy : ∀ u₂, V.copyToTmp (V.fileIo (V.flush n)) n file u = some (.ok A, u₂) →
      u₂.sights = u.sights := by
    intro u₂ h
    rw [copyToTmp, hbound] at h
    have h := call_bind_ok h
    cases hpath : V.dPath file with
    | none =>
        rw [hpath] at h
        cases h
    | some path =>
        simp only [hpath] at h
        have h := call_bind_ok h
        rw [Prog.get_bind] at h
        rcases Prog.bind_eq_some h with ⟨e, _, he⟩ | ⟨dst, t, hopen, h⟩
        · cases he
        have hsights : t.sights = u.sights := openTrunc_keeps hkeeps _ u.tick.tick _ t rfl hopen
        rcases openTrunc_cases hopen with ⟨e, he, _⟩ | ⟨l, hl, htarget, _⟩
        · cases he
        cases hl
        obtain ⟨sb, hsb⟩ := hdisk path dst hpath htarget
        rw [copyFileContent_onDisk hsb] at h
        rcases Prog.bind_eq_some h with ⟨e, _, he⟩ | ⟨_, t', hrun, h⟩
        · cases he
        cases h
        exact copyFileContent_keeps hkeeps _ _ _ _ _ _ hsights hrun
  rcases Prog.bind_eq_some h with ⟨e, _, he⟩ | ⟨A', u₂, hrun, hrest⟩
  · cases he
  rcases Prog.bind_eq_some hrest with ⟨e, _, he⟩ | ⟨_, u₃, hprep, hpure⟩
  · cases he
  cases hpure
  exact prepareRename_keeps hkeeps _ _ _ _ (hcopy u₂ hrun) hprep

end World

section Later

variable {W V : World} {st u : Store} {s : CString} {file : Loc} {D : Dir}

theorem boundTo_of_bind {W₁ : World} {ramfsPath : CString} {mem : Bool} {mount : Dir ⊕ Loc}
    (hbind : W.ramfsBind st ramfsPath s mem = (W₁, .ok ()))
    (hmount : W.kernPathAny st ramfsPath = some mount)
    (hsync : V.syncDir = W₁.syncDir) (hon : V.fs file.1 = W.superBlock mount) :
    V.boundTo file.1 = some s := by
  obtain ⟨_, mount', sb, _, hmount', hsb, rfl⟩ := World.ramfsBind_ok hbind
  obtain rfl : mount = mount' := Option.some.inj (hmount.symm.trans hmount')
  rw [World.boundTo, hon, hsb]
  show V.syncDir sb = some s
  rw [hsync]
  exact Function.update_self _ _ _

/-- With room for a name the target is the name in `D` where the process looks up names behind
the string in `D` and the name is not cut. -/
theorem targetsDir_iff {N : Namei} {t : Sights} {p : Process} (hfile : IsName file.2)
    (hroom : s.length + 2 < pathMax) :
    TargetsDir N t p s file D ↔
      N.base p t s = some D ∧ s.length + 1 + file.2.length < pathMax := by
  have hpos : 0 < nameRoom s := by
    unfold nameRoom
    omega
  have hcut := snprintf_join (Nat.le_of_lt hroom) file.2
  constructor
  · intro h
    have hname : file.2.take (nameRoom s) = file.2 := by
      by_cases hplain : Plain special (file.2.take (nameRoom s))
      · rw [TargetsDir, hcut, N.locate_join ⟨take_component hfile.component hpos, hplain⟩] at h
        obtain ⟨d, _, hd⟩ := Option.map_eq_some_iff.mp h
        exact (Prod.mk.inj hd).2
      · rw [TargetsDir, hcut, N.locate_dots (take_component hfile.component hpos) hplain] at h
        cases h
    rw [TargetsDir, hcut, hname, N.locate_join hfile] at h
    obtain ⟨d, hd, heq⟩ := Option.map_eq_some_iff.mp h
    obtain rfl : d = D := (Prod.mk.inj heq).1
    refine ⟨hd, ?_⟩
    have hlen := congrArg List.length hname
    rw [List.length_take, nameRoom] at hlen
    omega
  · rintro ⟨hD, hwhole⟩
    have hname : file.2.take (nameRoom s) = file.2 := by
      apply List.take_of_length_le
      unfold nameRoom
      omega
    rw [TargetsDir, hcut, hname, N.locate_join hfile, hD]
    rfl

/-- For an absolute string the working directory plays no part. -/
theorem targetsDir_absolute {N : Namei} {t : Sights} {p q : Process} (hfile : IsName file.2)
    (hroom : s.length + 2 < pathMax) (habs : s.head? = some slash) (hroot : q.root = p.root)
    (hcred : q.cred = p.cred) :
    TargetsDir N t q s file D ↔ TargetsDir N t p s file D := by
  rw [targetsDir_iff hfile hroom, targetsDir_iff hfile hroom, N.base_absolute habs hroot hcred]

/-- `V` is the world of a process that later flushes a file of the ramfs at `mount`, which was
bound when the world was `W` and became `W₁`. -/
structure LaterFlush (W W₁ : World) (mount : Dir ⊕ Loc) (V : World) (file : Loc) : Prop where
  namei : V.namei = W.namei
  syncDir : V.syncDir = W₁.syncDir
  mounted : V.fs file.1 = W.superBlock mount
  name : IsName file.2

end Later

/-! ## Two processes with a directory `p` each -/

def twoDirs : Store where
  lookup d c :=
    match d with
    | 0 => if c = ascii "a" then some (.dir 1) else if c = ascii "b" then some (.dir 2)
        else if c = ascii "r" then some (.dir 5) else none
    | 1 => if c = ascii "p" then some (.dir 3) else none
    | 2 => if c = ascii "p" then some (.dir 4) else none
    | 5 => if c = ascii "f" then some (.file [7]) else none
    | _ => none
  calls := 0
  touched := []

theorem lastComponent_f (l : Loc) (p : CString)
    (h : (if l = (5, ascii "f") then some (ascii "/r/f") else none) = some p) :
    lastComponent p = l.2 := by
  split_ifs at h with hl
  cases h
  rw [hl]
  decide

def processIn (cwd : Dir) : World where
  namei := treeNamei fun d => if d = 3 then 1 else if d = 4 then 2 else 0
  fs d := if d = 5 then .ramfs 1 else .disk 0
  syncDir _ := none
  current := ⟨0, cwd, 0, 1⟩
  dPath l := if l = (5, ascii "f") then some (ascii "/r/f") else none
  dPath_last := lastComponent_f
  fails _ := none
  refuses _ := none
  clock n := (n, n)
  read _ := 1

def boundIn (cwd : Dir) (s : CString) : World :=
  { processIn cwd with syncDir := Function.update (fun _ => none) 1 (some s) }

theorem isName_f : IsName (ascii "f") := ⟨⟨by decide, by decide⟩, by decide⟩

theorem targetReady_boundIn :
    TargetReady (boundIn 2 (ascii "/a/p")) twoDirs (ascii "/a/p") (5, ascii "f") 3 := by
  refine ⟨by decide, ascii "/r/f", rfl, ?_, ?_, Or.inl (by decide)⟩
  · exact ⟨by decide, by decide, rfl, rfl⟩
  · exact ⟨rfl, rfl, rfl⟩

end OShm.Ramfs
