import OShm.Gptfs.Refinement

/-! # The dictionaries agree

Every state that promised calls can reach is the state of a tree, so the dictionaries and
sets of the class agree with each other, and no call ends in another exception than
`FuseOSError`. -/

namespace OShm.Gptfs

open OShm.Lib OShm.Lib.PathString

/-! ## Kinds are kept -/

theorem fileType_chmod {old mode : Nat} (h : fileType mode = 0 ∨ fileType mode = fileType old) :
    fileType ((old &&& 0o770000) ||| mode) = fileType old := by
  have hmask : (0o770000 : Nat) &&& sIfmt = sIfmt := by decide
  unfold fileType at h ⊢
  rw [Nat.and_or_distrib_right, Nat.and_assoc, hmask]
  rcases h with h | h <;> simp [h]

theorem Op.assigns_fileType {op : Op} {env : Env} {f : Attr → Attr} {ret : Value} {a : Attr}
    (h : op.assigns env = some (f, ret))
    (hmode : ∀ p mode, op = .chmod p mode →
      fileType mode = 0 ∨ fileType mode = fileType a.mode) :
    fileType (f a).mode = fileType a.mode := by
  cases Op.assigns_cases h with
  | chmod p mode => exact fileType_chmod (hmode p mode rfl)
  | chown p uid gid => rfl
  | utimens p times => rfl

namespace Session

theorem fresh_typed {mode : Nat} (h : fileType mode = 0) (now : Time) : (fresh mode now).Typed := by
  intro k
  cases k with
  | none =>
      have hdir : sIfdir &&& sIfmt = sIfdir := by decide
      unfold fileType at h ⊢
      simp [fresh, Nat.and_or_distrib_right, hdir, h, kind]
  | some k =>
      show fileType (sIfreg ||| 0o666) = sIfreg
      decide

theorem Typed.updateAttr {s : Session} (hs : s.Typed) (k : Option Special) {f : Attr → Attr}
    (hf : fileType (f (s.attr k)).mode = fileType (s.attr k).mode) : (s.updateAttr k f).Typed := by
  intro j
  by_cases hj : j = k
  · subst hj
    simpa [Session.updateAttr, hf] using hs j
  · simpa [Session.updateAttr, hj] using hs j

theorem Typed.setData {s : Session} (hs : s.Typed) (k : Special) (b : Bytes) :
    (s.setData k b).Typed := hs

theorem Typed.converse {s : Session} (hs : s.Typed) (apiKey : Bool) (env : Env) :
    (s.converse apiKey env).Typed := by
  simp only [Session.converse]
  cases callGptApi apiKey env.chat _ with
  | error text =>
      simp only [fail]
      apply Typed.updateAttr
      · exact hs
      · rfl
  | ok response =>
      simp only [respond]
      apply Typed.updateAttr
      · exact hs
      · rfl

theorem Typed.write {s : Session} (hs : s.Typed) (apiKey : Bool) (data : Bytes) (offset : Nat)
    (env : Env) : (s.write apiKey data offset env).Typed := by
  apply Typed.converse
  apply Typed.updateAttr
  · exact hs.setData _ _
  · rfl

/-- A call leaves the kinds of a session's nodes as they are. -/
theorem Typed.step {s s' : Session} (hs : s.Typed) {op : Op} {env : Env} {apiKey : Bool}
    {fd : Nat} {k : Option Special} (hmode : ∀ p mode, op = .chmod p mode →
      fileType mode = 0 ∨ fileType mode = fileType (s.attr k).mode)
    (h : (s.step op env apiKey fd k).1 = some s') : s'.Typed := by
  unfold Session.step at h
  split at h
  · next f ret ha =>
      obtain rfl := Option.some.inj h
      exact hs.updateAttr k (Op.assigns_fileType ha hmode)
  · split at h
    case h_3 => cases h
    case h_5 k length _ =>
      obtain rfl := Option.some.inj h
      exact (hs.setData _ _).updateAttr (some _) rfl
    case h_6 =>
      obtain rfl := Option.some.inj h
      exact hs.write _ _ _ _
    all_goals
      obtain rfl := Option.some.inj h
      exact hs

end Session

namespace Tree

theorem Typed.put {A : Tree} (ht : A.Typed) (n : Name) {s : Option Session}
    (hs : ∀ t, s = some t → t.Typed) : (A.put n s).Typed where
  root := ht.root
  session m t hm := by
    by_cases hmn : m = n
    · subst hmn
      exact hs t (by simpa using hm)
    · exact ht.session m t (by simpa [hmn] using hm)

theorem chmod_mode {A : Tree} {op : Op} {x : Node} {a : Attr} (hx : nodeOf op.path = some x)
    (ha : A.attr x = some a) (hs : A.concrete.suits op = true) :
    ∀ p mode, op = .chmod p mode → fileType mode = 0 ∨ fileType mode = fileType a.mode := by
  rintro p mode rfl
  have hp : p = x.path := path_of_nodeOf hx
  simpa [State.suits, hp, ha] using hs

theorem Typed.atRoot {A : Tree} (ht : A.Typed) {op : Op} (env : Env)
    (hmode : ∀ p mode, op = .chmod p mode →
      fileType mode = 0 ∨ fileType mode = fileType A.root.mode) : (A.atRoot op env).1.Typed := by
  unfold Tree.atRoot
  split
  · next f ret ha => exact ⟨(Op.assigns_fileType ha hmode).trans ht.root, ht.session⟩
  · split <;> exact ht

theorem Typed.apply {A : Tree} (ht : A.Typed) {op : Op} (env : Env)
    (h : A.concrete.Promised op) : (A.apply env op).1.Typed := by
  obtain ⟨-, hs⟩ := h
  cases hx : nodeOf op.path with
  | none =>
      simp only [Tree.apply, hx]
      exact ⟨ht.root, ht.session⟩
  | some x =>
      cases x with
      | root =>
          have hroot := ht.atRoot env (chmod_mode (a := A.root) hx rfl hs)
          simp only [Tree.apply, hx]
          exact ⟨hroot.root, hroot.session⟩
      | inside n k =>
          have hput : (A.put n (op.inSession env A.apiKey A.fd k (A.sessions n)).1).Typed := by
            apply ht.put n
            intro t hstep
            cases hn : A.sessions n with
            | some s =>
                rw [hn] at hstep
                have hmode := chmod_mode hx (by rw [attr_inside, hn]; rfl) hs
                exact (ht.session n s hn).step hmode hstep
            | none =>
                rw [hn] at hstep
                simp only [Op.inSession] at hstep
                split at hstep
                · next _ mode =>
                    obtain rfl := Option.some.inj hstep
                    have hm : fileType mode = 0 := by
                      simp [State.suits] at hs
                      exact hs.2
                    exact Session.fresh_typed hm _
                · cases hstep
          simp only [Tree.apply, hx]
          exact ⟨hput.root, hput.session⟩

end Tree

/-! ## What calls raise -/

/-- The exception of a call, if any, is a `FuseOSError`. -/
def Clean (r : Result) : Prop := ∀ e, r = .error e → ∃ n, e = .fuseOSError n

theorem clean_ok (v : Value) : Clean (.ok v) := by
  intro e h
  cases h

theorem clean_fixed (fd : Nat) (op : Op) : Clean (op.fixed fd) := by
  intro e h
  cases op <;> simp_all [Op.fixed] <;> exact ⟨_, h.symm⟩

theorem Session.clean_step (s : Session) (op : Op) (env : Env) (apiKey : Bool) (fd : Nat)
    (k : Option Special) : Clean (s.step op env apiKey fd k).2 := by
  unfold Session.step
  split
  · exact clean_ok _
  · split
    case h_7 => exact clean_fixed _ _
    all_goals exact clean_ok _

theorem Tree.clean_apply (A : Tree) (env : Env) (op : Op) : Clean (A.apply env op).2 := by
  cases hx : nodeOf op.path with
  | none =>
      simp only [Tree.apply, hx]
      exact clean_fixed _ _
  | some x =>
      cases x with
      | root =>
          simp only [Tree.apply, hx, Tree.atRoot]
          split
          · exact clean_ok _
          · split
            case h_3 => exact clean_fixed _ _
            all_goals exact clean_ok _
      | inside n k =>
          simp only [Tree.apply, hx]
          cases A.sessions n with
          | some s => exact s.clean_step _ _ _ _ _
          | none =>
              simp only [Op.inSession]
              split
              · exact clean_ok _
              · exact clean_fixed _ _

/-! ## Runs -/

def Tree.bare (apiKey : Bool) (now : Time) : Tree where
  root := ⟨sIfdir ||| 0o755, 2, none, now, now, now, none, none⟩
  sessions _ := none
  names := ∅
  fd := 0
  apiKey := apiKey
  mem_names n := by simp

theorem Tree.bare_typed (apiKey : Bool) (now : Time) : (Tree.bare apiKey now).Typed where
  root := by
    show fileType (sIfdir ||| 0o755) = sIfdir
    decide
  session n s h := by cases h

theorem Tree.bare_concrete (apiKey : Bool) (now : Time) :
    (Tree.bare apiKey now).concrete = init apiKey now := by
  have hfiles : (Tree.bare apiKey now).concrete.files = (init apiKey now).files := by
    funext p
    by_cases hp : p = rootPath
    · subst hp
      simp only [init, Dict.set_same]
      exact Tree.concrete_files _ .root
    · simp only [init, Dict.set_of_ne _ _ hp]
      cases hx : nodeOf p with
      | none => exact Dict.keyed_of_none hx
      | some x =>
          cases x with
          | root => exact absurd (path_of_nodeOf hx) hp
          | inside n k => exact Dict.keyed_of_some hx
  have hnone : ∀ {V : Type} (f : Dict Node V), (∀ x, f x = none) →
      Dict.keyed nodeOf f = fun _ => none := by
    intro V f hf
    funext p
    cases hx : nodeOf p with
    | none => exact Dict.keyed_of_none hx
    | some x => exact (Dict.keyed_of_some hx).trans (hf x)
  have hdata : (Tree.bare apiKey now).concrete.data = (init apiKey now).data := by
    apply hnone
    intro x
    rcases x with _ | ⟨_, _ | _⟩ <;> rfl
  have hdirs : (Tree.bare apiKey now).concrete.dirFiles = (init apiKey now).dirFiles := by
    apply hnone
    intro x
    rcases x with _ | ⟨_, _ | _⟩ <;> rfl
  exact State.ext hfiles hdata rfl rfl rfl hdirs

/-- What holds of every reachable state: it is the state of a tree. -/
def Treelike (s : State) : Prop := ∃ A : Tree, A.Typed ∧ s = A.concrete

theorem gptfs_step_iff {s s' : State} {a : Op × Env} {e : Op × Result} :
    gptfs.step s a = some (s', e) ↔
      s.Promised a.1 ∧ s' = (s.apply a.2 a.1).1 ∧ e = (a.1, (s.apply a.2 a.1).2) := by
  simp only [gptfs]
  split
  · next h =>
      simp only [Option.some.injEq, Prod.mk.injEq, h, true_and]
      constructor
      · rintro ⟨rfl, rfl⟩
        exact ⟨rfl, rfl⟩
      · rintro ⟨rfl, rfl⟩
        exact ⟨rfl, rfl⟩
  · next h => simp [h]

theorem gptfs_step_tree {A : Tree} (ht : A.Typed) {s' : State} {a : Op × Env} {e : Op × Result}
    (h : gptfs.step A.concrete a = some (s', e)) :
    A.concrete.Promised a.1 ∧ (A.apply a.2 a.1).1.Typed ∧ s' = (A.apply a.2 a.1).1.concrete ∧
      e = (a.1, (A.apply a.2 a.1).2) := by
  obtain ⟨hp, rfl, rfl⟩ := gptfs_step_iff.mp h
  rw [A.apply_concrete ht a.2 hp]
  exact ⟨hp, ht.apply a.2 hp, rfl, rfl⟩

theorem treelike_init (apiKey : Bool) (now : Time) : Treelike (init apiKey now) :=
  ⟨_, Tree.bare_typed apiKey now, (Tree.bare_concrete apiKey now).symm⟩

theorem Treelike.step {s s' : State} {a : Op × Env} {e : Op × Result} (h : Treelike s)
    (hs : gptfs.step s a = some (s', e)) : Treelike s' := by
  obtain ⟨A, ht, rfl⟩ := h
  obtain ⟨-, ht', rfl, -⟩ := gptfs_step_tree ht hs
  exact ⟨_, ht', rfl⟩

theorem treelike_of_run {apiKey : Bool} {now : Time} {acts : List (Op × Env)} {s : State}
    {tr : List (Op × Result)} (hr : gptfs.run (init apiKey now) acts = some (s, tr)) :
    Treelike s :=
  gptfs.run_invariant Treelike.step (treelike_init apiKey now) hr

/-- The parts of the state agree with each other. -/
structure Consistent (s : State) : Prop where
  directories : ∀ p, p ≠ rootPath →
    (p ∈ s.directories ↔ ∃ a, s.files p = some a ∧ fileType a.mode = sIfdir)
  dirFiles : ∀ d ∈ s.directories, d ≠ rootPath →
    s.dirFiles d = some {"input".toList, "output".toList, "error".toList}
  files : ∀ p, (s.files p).isSome ↔ p = rootPath ∨ p ∈ s.directories ∨
    ∃ d ∈ s.directories, d ≠ rootPath ∧ ∃ k : Special, p = join '/' d k.name
  data : ∀ p, (s.data p).isSome →
    ∃ d ∈ s.directories, d ≠ rootPath ∧ ∃ k : Special, p = join '/' d k.name

theorem Tree.consistent {A : Tree} (ht : A.Typed) : Consistent A.concrete where
  directories p hp := by
    rw [A.mem_concrete_directories]
    constructor
    · rintro (h | ⟨m, rfl, hm⟩)
      · exact absurd h hp
      · obtain ⟨s, hs⟩ := Option.isSome_iff_exists.mp hm
        refine ⟨s.attr none, ?_, ht.session m s hs none⟩
        rw [A.concrete_files, A.attr_inside, hs]
        rfl
    · rintro ⟨a, ha, hdir⟩
      obtain ⟨x, hx, hxa⟩ := Option.bind_eq_some_iff.mp ha
      cases x with
      | root => exact absurd (path_of_nodeOf hx) hp
      | inside m k =>
          obtain ⟨s, hs, rfl⟩ := Option.map_eq_some_iff.mp hxa
          have hkind := (ht.session m s hs k).symm.trans hdir
          cases k with
          | none => exact .inr ⟨m, path_of_nodeOf hx, by simp [hs]⟩
          | some k => simp [Session.kind, sIfreg, sIfdir] at hkind
  dirFiles d hd hne := by
    obtain h | ⟨m, rfl, hm⟩ := A.mem_concrete_directories.mp hd
    · exact absurd h hne
    · obtain ⟨s, hs⟩ := Option.isSome_iff_exists.mp hm
      rw [A.concrete_dirFiles, A.listing_session, hs]
      rfl
  files p := by
    constructor
    · intro h
      obtain ⟨a, ha⟩ := Option.isSome_iff_exists.mp h
      obtain ⟨x, hx, hxa⟩ := Option.bind_eq_some_iff.mp ha
      cases x with
      | root => exact .inl (path_of_nodeOf hx)
      | inside m k =>
          obtain ⟨s, hs, -⟩ := Option.map_eq_some_iff.mp hxa
          have hm : (A.sessions m).isSome := by simp [hs]
          cases k with
          | none =>
              exact .inr (.inl (A.mem_concrete_directories.mpr
                (.inr ⟨m, path_of_nodeOf hx, hm⟩)))
          | some k =>
              refine .inr (.inr ⟨(Node.session m).path, ?_, session_path_ne_root m, k, ?_⟩)
              · exact A.mem_concrete_directories.mpr (.inr ⟨m, rfl, hm⟩)
              · rw [join_session]
                exact path_of_nodeOf hx
    · rintro (rfl | hd | ⟨d, hd, hne, k, rfl⟩)
      · exact Option.isSome_iff_exists.mpr ⟨A.root, A.concrete_files .root⟩
      · obtain rfl | ⟨m, rfl, hm⟩ := A.mem_concrete_directories.mp hd
        · exact Option.isSome_iff_exists.mpr ⟨A.root, A.concrete_files .root⟩
        · simpa [attr_inside] using hm
      · obtain h | ⟨m, rfl, hm⟩ := A.mem_concrete_directories.mp hd
        · exact absurd h hne
        · simpa [attr_inside] using hm
  data p h := by
    obtain ⟨b, hb⟩ := Option.isSome_iff_exists.mp h
    obtain ⟨x, hx, hxb⟩ := Option.bind_eq_some_iff.mp hb
    cases x with
    | root => cases hxb
    | inside m k =>
        cases k with
        | none => cases hxb
        | some k =>
            obtain ⟨s, hs, -⟩ := Option.map_eq_some_iff.mp hxb
            refine ⟨(Node.session m).path, ?_, session_path_ne_root m, k, ?_⟩
            · exact A.mem_concrete_directories.mpr (.inr ⟨m, rfl, by simp [hs]⟩)
            · rw [join_session]
              exact path_of_nodeOf hx

/-- The state is that of a tree, and no call so far raised anything unexpected. -/
def CleanSoFar (s : State) (hist : List (Op × Result)) : Prop :=
  Treelike s ∧ ∀ e ∈ hist, Clean e.2

/-- In every run under the promises of FUSE, with any answers of the service, the state
stays consistent and calls raise nothing but `FuseOSError`. -/
theorem gptfs_consistent (apiKey : Bool) (now : Time) {acts : List (Op × Env)} {s : State}
    {tr : List (Op × Result)} (h : gptfs.run (init apiKey now) acts = some (s, tr)) :
    Consistent s ∧ ∀ e ∈ tr, Clean e.2 := by
  have hkeep : ∀ {s a s' e hist}, CleanSoFar s hist → gptfs.step s a = some (s', e) →
      CleanSoFar s' (hist ++ [e]) := by
    rintro s a s' e hist ⟨⟨A, ht, rfl⟩, hclean⟩ hs
    obtain ⟨-, ht', rfl, rfl⟩ := gptfs_step_tree ht hs
    refine ⟨⟨_, ht', rfl⟩, ?_⟩
    intro e he
    rcases List.mem_append.mp he with he | he
    · exact hclean e he
    · obtain rfl := List.mem_singleton.mp he
      exact A.clean_apply a.2 a.1
  have hinit : CleanSoFar (init apiKey now) [] :=
    ⟨treelike_init apiKey now, by simp⟩
  obtain ⟨⟨A, ht, rfl⟩, hclean⟩ := gptfs.run_history hkeep hinit h
  exact ⟨A.consistent ht, by simpa using hclean⟩

def oneSession : List (Op × Env) :=
  let env : Env := ⟨fun i => i, fun _ => .content [111, 107], fun _ => []⟩
  [(.mkdir "/a".toList 0o755, env), (.getattr "/a/input".toList, env),
    (.write "/a/input".toList [104, 105] 0, env), (.read "/a/output".toList 4096 0, env),
    (.readdir "/a".toList, env), (.rmdir "/a".toList, env), (.readdir "/".toList, env)]

theorem gptfs_consistent_oneSession : ∃ s tr, gptfs.run (init true 0) oneSession = some (s, tr) ∧
    Consistent s ∧ ∀ e ∈ tr, Clean e.2 := by
  have hrun : (gptfs.run (init true 0) oneSession).isSome = true := by decide
  obtain ⟨⟨s, tr⟩, h⟩ := Option.isSome_iff_exists.mp hrun
  exact ⟨s, tr, h, gptfs_consistent true 0 h⟩

/-! ## What the promises about `readlink` and modes are for -/

/-- Only the paths are promised: any node for `readlink`, any type bits for `mkdir` and
`chmod`. -/
def State.resolves (s : State) : Op → Bool
  | .mkdir p _ => s.vacant p
  | .readlink p | .chmod p _ => (s.stat p).isSome
  | op => s.suits op

def gptfsPaths : System State (Op × Env) (Op × Result) where
  step s a :=
    if Normal '/' a.1.path ∧ s.resolves a.1 = true then
      some ((s.apply a.2 a.1).1, a.1, (s.apply a.2 a.1).2)
    else none

def quiet : Env := ⟨fun i => i, fun _ => .content [], fun _ => []⟩

def inSession (mode : Nat) (ops : List Op) : List (Op × Env) :=
  (.mkdir "/a".toList mode :: ops).map fun op => (op, quiet)

/-- A node whose data or type bits cannot be those of the session `/a`. -/
theorem not_consistent_session {s : State} (hdirs : s.directories = {rootPath, "/a".toList})
    (h : (s.data "/a".toList).isSome ∨
      ∀ a, s.files "/a".toList = some a → fileType a.mode ≠ sIfdir) : ¬ Consistent s := by
  intro hs
  rcases h with hdata | htype
  · obtain ⟨d, hd, hne, k, hk⟩ := hs.data _ hdata
    have hd : d = "/a".toList := by simpa [hdirs, hne] using hd
    subst hd
    cases k <;> revert hk <;> decide
  · have hmem : "/a".toList ∈ s.directories := by simp [hdirs]
    obtain ⟨a, ha, hdir⟩ := (hs.directories "/a".toList (by decide)).mp hmem
    exact htype a ha hdir

/-- `readlink` of a session stores data for it, that of a file can fail to decode, and type bits
in a mode change the type of a session. -/
theorem readlink_and_modes_inconsistent :
    (∃ s tr, gptfsPaths.run (init true 0) (inSession 0o755 [.readlink "/a".toList]) =
        some (s, tr) ∧ ¬ Consistent s) ∧
      (∃ s tr, gptfsPaths.run (init true 0) (inSession 0o755
          [.write "/a/input".toList [0xff] 0, .readlink "/a/input".toList]) = some (s, tr) ∧
        ∃ e ∈ tr, ¬ Clean e.2) ∧
      (∃ s tr, gptfsPaths.run (init true 0) (inSession 0o100755 []) = some (s, tr) ∧
        ¬ Consistent s) ∧
      ∃ s tr, gptfsPaths.run (init true 0) (inSession 0o755 [.chmod "/a".toList 0o100644]) =
        some (s, tr) ∧ ¬ Consistent s := by
  refine ⟨⟨_, _, rfl, ?_⟩, ⟨_, _, rfl, ?_⟩, ⟨_, _, rfl, ?_⟩, ⟨_, _, rfl, ?_⟩⟩
  · exact not_consistent_session (by decide) (Or.inl (by decide))
  · refine ⟨_, List.mem_of_mem_getLast? rfl, ?_⟩
    intro hclean
    obtain ⟨n, hn⟩ := hclean .unicodeDecodeError rfl
    cases hn
  · refine not_consistent_session (by decide) (Or.inr ?_)
    intro a ha
    cases ha
    decide
  · refine not_consistent_session (by decide) (Or.inr ?_)
    intro a ha
    cases ha
    decide
end OShm.Gptfs
