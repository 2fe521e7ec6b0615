import OShm.Lib.Transition
import OShm.Gptfs.Consistency

/-! # Sessions do not see each other

Leaving the calls on other sessions out of a run changes nothing that a session shows,
apart from times and descriptor numbers.
-/

namespace OShm.Gptfs

open OShm.Lib OShm.Lib.PathString

/-- The session a path lies in, by name; the root lies in none. -/
def sessionOf (p : Str) : Option Str :=
  if p = rootPath then none else (parts '/' p).head?

/-- The calls that do not lie in another session. -/
def keeps (n : Name) (a : Op × Env) : Bool :=
  sessionOf a.1.path = none ∨ sessionOf a.1.path = some n.1

def Attr.untimed (a : Attr) : Attr := { a with ctime := 0, mtime := 0, atime := 0 }

/-- A result without times and descriptor numbers. -/
def visible : Result → Result
  | .ok (.attr a) => .ok (.attr a.untimed)
  | .ok (.fd _) => .ok (.fd 0)
  | r => r

def sessionView (n : Name) (e : Op × Result) : Option (Op × Result) :=
  if sessionOf e.1.path = some n.1 then some (e.1, visible e.2) else none

/-- The same call, at another time; the service answers each prompt as before. -/
def SameCall (a b : Op × Env) : Prop := a.1 = b.1 ∧ a.2.chat = b.2.chat

@[simp] theorem sessionOf_inside (n : Name) (k : Option Special) :
    sessionOf (Node.inside n k).path = some n.1 := by
  cases k with
  | none =>
      rw [sessionOf, if_neg (session_path_ne_root n), parts_session]
      rfl
  | some k =>
      rw [sessionOf, if_neg (special_path_ne_root n k), parts_special]
      rfl

/-! ## Sessions up to times -/

namespace Session

def untimed (s : Session) : Session := { s with attr := fun k => (s.attr k).untimed }

theorem untimed_eq_iff {s t : Session} :
    s.untimed = t.untimed ↔ (∀ k, (s.attr k).untimed = (t.attr k).untimed) ∧ s.data = t.data := by
  constructor
  · intro h
    simp only [untimed, Session.mk.injEq] at h
    exact ⟨fun k => congrFun h.1 k, h.2⟩
  · rintro ⟨h, hd⟩
    simp only [untimed, Session.mk.injEq]
    exact ⟨funext h, hd⟩

variable {s t : Session}

theorem untimed_setData (h : s.untimed = t.untimed) (k : Special) (b : Bytes) :
    (s.setData k b).untimed = (t.setData k b).untimed := by
  obtain ⟨ha, hd⟩ := untimed_eq_iff.mp h
  refine untimed_eq_iff.mpr ⟨ha, ?_⟩
  simp only [setData, hd]

theorem untimed_updateAttr (h : s.untimed = t.untimed) (k : Option Special) {f g : Attr → Attr}
    (hfg : ∀ a b, a.untimed = b.untimed → (f a).untimed = (g b).untimed) :
    (s.updateAttr k f).untimed = (t.updateAttr k g).untimed := by
  obtain ⟨ha, hd⟩ := untimed_eq_iff.mp h
  refine untimed_eq_iff.mpr ⟨?_, hd⟩
  intro j
  by_cases hj : j = k
  · subst hj
    simpa [updateAttr] using hfg _ _ (ha j)
  · simpa [updateAttr, hj] using ha j

end Session

theorem untimed_resize (size : Option Nat) (m m' : Time) (a b : Attr) (h : a.untimed = b.untimed) :
    ({ a with size := size, mtime := m } : Attr).untimed =
      ({ b with size := size, mtime := m' } : Attr).untimed := by
  cases a
  cases b
  simp_all [Attr.untimed]

theorem Op.untimed_assigns {op : Op} {env : Env} (env' : Env) {f : Attr → Attr} {ret : Value}
    (h : op.assigns env = some (f, ret)) :
    ∃ g, op.assigns env' = some (g, ret) ∧
      ∀ a b, a.untimed = b.untimed → (f a).untimed = (g b).untimed := by
  cases Op.assigns_cases h with
  | chmod p mode | chown p uid gid | utimens p times =>
      refine ⟨_, rfl, ?_⟩
      rintro ⟨⟩ ⟨⟩ hab
      simp_all [Attr.untimed]

theorem Op.assigns_none {op : Op} {env : Env} (env' : Env) (h : op.assigns env = none) :
    op.assigns env' = none := by
  cases op <;> simp_all [assigns]

theorem visible_fixed (op : Op) (fd fd' : Nat) :
    visible (op.fixed fd) = visible (op.fixed fd') := by
  cases op <;> rfl

namespace Session

variable {s t : Session}

theorem untimed_converse (h : s.untimed = t.untimed) (apiKey : Bool) {env env' : Env}
    (hchat : env.chat = env'.chat) :
    (s.converse apiKey env).untimed = (t.converse apiKey env').untimed := by
  have hclear := untimed_setData (untimed_setData h .output []) .error []
  have hdata := (untimed_eq_iff.mp hclear).2
  simp only [converse, hchat, hdata]
  cases callGptApi apiKey env'.chat _ with
  | error text =>
      simp only [fail]
      apply untimed_updateAttr (untimed_setData hclear _ _)
      exact untimed_resize _ _ _
  | ok response =>
      simp only [respond]
      apply untimed_updateAttr (untimed_setData hclear _ _)
      exact untimed_resize _ _ _

theorem untimed_write (h : s.untimed = t.untimed) (apiKey : Bool) (data : Bytes) (offset : Nat)
    {env env' : Env} (hchat : env.chat = env'.chat) :
    (s.write apiKey data offset env).untimed = (t.write apiKey data offset env').untimed := by
  have hdata := (untimed_eq_iff.mp h).2
  simp only [write, hdata]
  apply untimed_converse _ apiKey hchat
  apply untimed_updateAttr (untimed_setData h _ _)
  exact untimed_resize _ _ _

theorem untimed_step (h : s.untimed = t.untimed) (op : Op) {env env' : Env}
    (hchat : env.chat = env'.chat) (apiKey : Bool) (fd fd' : Nat) (k : Option Special) :
    (s.step op env apiKey fd k).1.map untimed = (t.step op env' apiKey fd' k).1.map untimed ∧
      visible (s.step op env apiKey fd k).2 = visible (t.step op env' apiKey fd' k).2 := by
  have hattr := (untimed_eq_iff.mp h).1
  have hdata := (untimed_eq_iff.mp h).2
  cases ha : op.assigns env with
  | some p =>
      obtain ⟨f, ret⟩ := p
      obtain ⟨g, hg, hfg⟩ := Op.untimed_assigns env' ha
      simp only [step, ha, hg, Option.map_some, untimed_updateAttr h k hfg, and_self]
  | none =>
      have hb := Op.assigns_none env' ha
      have hfixed : (some s).map untimed = (some t).map untimed ∧
          visible (op.fixed fd) = visible (op.fixed fd') :=
        ⟨congrArg some h, visible_fixed op fd fd'⟩
      simp only [step, ha, hb]
      cases op with
      | getattr p => simp only [Option.map_some, h, visible, hattr k, and_self]
      | readdir p =>
          cases k with
          | none => simp only [Option.map_some, h, and_self]
          | some k => exact hfixed
      | rmdir p =>
          cases k with
          | none => exact ⟨rfl, rfl⟩
          | some k => exact hfixed
      | read p size offset =>
          cases k with
          | none => exact hfixed
          | some k => simp only [Option.map_some, h, hdata, and_self]
      | truncate p length =>
          cases k with
          | none => exact hfixed
          | some k =>
              refine ⟨?_, rfl⟩
              simp only [Option.map_some, hdata, Option.some.injEq]
              apply untimed_updateAttr (untimed_setData h _ _)
              rintro ⟨⟩ ⟨⟩ hab
              simp_all [Attr.untimed]
      | write p data offset =>
          cases k with
          | none => exact hfixed
          | some k =>
              cases k with
              | input =>
                  refine ⟨?_, rfl⟩
                  simp only [Option.map_some, untimed_write h apiKey data offset hchat]
              | output | error => exact hfixed
      | _ => exact hfixed

end Session

theorem Op.untimed_inSession {s t : Option Session}
    (h : s.map Session.untimed = t.map Session.untimed) (op : Op) {env env' : Env}
    (hchat : env.chat = env'.chat) (apiKey : Bool) (fd fd' : Nat) (k : Option Special) :
    (op.inSession env apiKey fd k s).1.map Session.untimed =
        (op.inSession env' apiKey fd' k t).1.map Session.untimed ∧
      visible (op.inSession env apiKey fd k s).2 =
        visible (op.inSession env' apiKey fd' k t).2 := by
  match s, t with
  | some s, some t => exact Session.untimed_step (Option.some.inj h) op hchat apiKey fd fd' k
  | none, some t => cases h
  | some s, none => cases h
  | none, none =>
      have hfixed : (none : Option Session).map Session.untimed =
          (none : Option Session).map Session.untimed ∧
            visible (op.fixed fd) = visible (op.fixed fd') := ⟨rfl, visible_fixed op fd fd'⟩
      simp only [inSession]
      cases op with
      | mkdir p mode =>
          cases k with
          | none =>
              refine ⟨congrArg some (Session.untimed_eq_iff.mpr ⟨?_, rfl⟩), rfl⟩
              rintro (_ | _) <;> rfl
          | some k => exact hfixed
      | _ => exact hfixed

/-! ## Trees up to other sessions -/

/-- Two trees that agree in one session, up to times. -/
structure Agree (n : Name) (A B : Tree) : Prop where
  typed : A.Typed
  typed' : B.Typed
  apiKey : A.apiKey = B.apiKey
  session : (A.sessions n).map Session.untimed = (B.sessions n).map Session.untimed

/-- The type bits that `getattr` would show. -/
def State.typeOf (s : State) (p : Str) : Option Nat := (s.stat p).map fun a => fileType a.mode

theorem State.suits_congr {s t : State} {op : Op} (hp : s.typeOf op.path = t.typeOf op.path)
    (hd : s.typeOf (dirname op.path) = t.typeOf (dirname op.path)) : s.suits op = t.suits op := by
  have htype : ∀ (u : State) (p : Str) (type : Nat),
      u.hasType p type = (u.typeOf p).any fun x => x = type := by
    intro u p type
    simp only [hasType, typeOf, Option.any_map]
  have hchmod : ∀ (u : State) (p : Str) (mode : Nat),
      ((u.stat p).any fun a => fileType mode = 0 ∨ fileType mode = fileType a.mode) =
        (u.typeOf p).any fun x => fileType mode = 0 ∨ fileType mode = x := by
    intro u p mode
    simp only [typeOf, Option.any_map]
  have hsome : ∀ (u : State) (p : Str), (u.stat p).isSome = (u.typeOf p).isSome := by
    intro u p
    simp only [typeOf, Option.isSome_map]
  have hnone : ∀ (u : State) (p : Str), (u.stat p).isNone = (u.typeOf p).isNone := by
    intro u p
    simp only [typeOf, Option.isNone_map]
  cases op <;> simp only [Op.path] at hp hd <;>
    simp only [suits, vacant, htype, hchmod, hsome, hnone, Op.path, hp, hd]

theorem sessionOf_render {cs : List Str} (hc : ∀ c ∈ cs, Component '/' c) (hne : cs ≠ []) :
    sessionOf (render '/' cs) = cs.head? := by
  have hroot : render '/' cs ≠ rootPath := by
    intro h
    have hparts := congrArg (parts '/') h
    rw [parts_render hc hne, show parts '/' rootPath = [[]] from by decide] at hparts
    subst hparts
    exact (hc [] (by simp)).ne_nil rfl
  rw [sessionOf, if_neg hroot, parts_render hc hne]

theorem dirname_normal {p : Str} {n : Name} (hp : Normal '/' p)
    (hsess : sessionOf p = none ∨ sessionOf p = some n.1) :
    Normal '/' (dirname p) ∧ (sessionOf (dirname p) = none ∨ sessionOf (dirname p) = some n.1) := by
  obtain ⟨cs, hc, rfl⟩ := hp
  by_cases hcs : cs = []
  · subst hcs
    exact ⟨⟨[], by simp, rfl⟩, .inl rfl⟩
  · have hhead : sessionOf (render '/' cs) = cs.head? := sessionOf_render hc hcs
    have hdir : dirname (render '/' cs) = render '/' cs.dropLast := by
      rw [dirname, parts_render hc hcs]
    have hc' : ∀ c ∈ cs.dropLast, Component '/' c := fun c h => hc c (List.mem_of_mem_dropLast h)
    rw [hdir]
    refine ⟨⟨cs.dropLast, hc', rfl⟩, ?_⟩
    by_cases hlast : cs.dropLast = []
    · rw [hlast]
      exact .inl rfl
    · rw [sessionOf_render hc' hlast]
      rw [hhead] at hsess
      obtain ⟨c, d, rest, rfl⟩ : ∃ c d rest, cs = c :: d :: rest := by
        cases cs with
        | nil => exact absurd rfl hcs
        | cons c cs =>
            cases cs with
            | nil => exact absurd rfl hlast
            | cons d rest => exact ⟨c, d, rest, rfl⟩
      exact hsess

theorem Tree.apply_apiKey (A : Tree) (env : Env) (op : Op) :
    (A.apply env op).1.apiKey = A.apiKey := by
  simp only [Tree.apply]
  split
  · rfl
  · unfold Tree.atRoot
    split
    · rfl
    · split <;> rfl
  · rfl

/-- A call changes no session but the one its path lies in. -/
theorem Tree.apply_sessions_ne (A : Tree) (env : Env) {op : Op} {n : Name}
    (h : sessionOf op.path ≠ some n.1) : (A.apply env op).1.sessions n = A.sessions n := by
  simp only [Tree.apply]
  split
  · rfl
  · unfold Tree.atRoot
    split
    · rfl
    · split <;> rfl
  · next m k hx =>
      have hm : n ≠ m := by
        rintro rfl
        rw [path_of_nodeOf hx, sessionOf_inside] at h
        exact h rfl
      exact Tree.put_sessions_ne A m _ hm

namespace Agree

variable {n : Name} {A B : Tree} (h : Agree n A B)

include h

theorem typeOf {p : Str} (hp : Normal '/' p)
    (hsess : sessionOf p = none ∨ sessionOf p = some n.1) :
    A.concrete.typeOf p = B.concrete.typeOf p := by
  cases hx : nodeOf p with
  | none => simp only [State.typeOf, Tree.stat_nowhere _ hp hx]
  | some x =>
      obtain rfl := path_of_nodeOf hx
      simp only [State.typeOf, Tree.stat_concrete]
      cases x with
      | root => simp only [Tree.attr, Option.map_some, h.typed.root, h.typed'.root]
      | inside m k =>
          obtain rfl : m = n := by
            apply Subtype.ext
            simpa using hsess
          have hsession := congrArg (Option.map fun s => fileType (s.attr k).mode) h.session
          simp only [Option.map_map] at hsession
          simp only [Tree.attr_inside, Option.map_map]
          exact hsession

theorem promised {op : Op} (hp : A.concrete.Promised op)
    (hsess : sessionOf op.path = none ∨ sessionOf op.path = some n.1) : B.concrete.Promised op := by
  obtain ⟨hnormal, hsuits⟩ := hp
  obtain ⟨hdir, hdirsess⟩ := dirname_normal hnormal hsess
  rw [State.suits_congr (h.typeOf hnormal hsess) (h.typeOf hdir hdirsess)] at hsuits
  exact ⟨hnormal, hsuits⟩

theorem apply_session {op : Op} {env env' : Env} (hchat : env.chat = env'.chat)
    (hsess : sessionOf op.path = some n.1) :
    ((A.apply env op).1.sessions n).map Session.untimed =
        ((B.apply env' op).1.sessions n).map Session.untimed ∧
      visible (A.apply env op).2 = visible (B.apply env' op).2 := by
  cases hx : nodeOf op.path with
  | none =>
      simp only [Tree.apply, hx]
      exact ⟨h.session, visible_fixed _ _ _⟩
  | some x =>
      have hpath := path_of_nodeOf hx
      cases x with
      | root =>
          rw [hpath] at hsess
          cases hsess
      | inside m k =>
          obtain rfl : m = n := by
            apply Subtype.ext
            simpa [hpath] using hsess
          have hin := Op.untimed_inSession h.session op hchat A.apiKey A.fd B.fd k
          simp only [Tree.apply, hx, Tree.put_sessions_same, ← h.apiKey]
          exact hin

end Agree

def StatesAgree (n : Name) (s t : State) : Prop :=
  ∃ A B, Agree n A B ∧ s = A.concrete ∧ t = B.concrete

theorem statesAgree_hidden {n : Name} {s t s' : State} {a : Op × Env} {e : Op × Result}
    (h : StatesAgree n s t) (hk : keeps n a = false) (hs : gptfs.step s a = some (s', e)) :
    StatesAgree n s' t ∧ sessionView n e = none := by
  obtain ⟨A, B, hAB, rfl, rfl⟩ := h
  obtain ⟨-, ht, rfl, rfl⟩ := gptfs_step_tree hAB.typed hs
  have hsess : sessionOf a.1.path ≠ some n.1 := by
    intro h
    simp [keeps, h] at hk
  refine ⟨⟨_, B, ⟨ht, hAB.typed', ?_, ?_⟩, rfl, rfl⟩, if_neg hsess⟩
  · rw [A.apply_apiKey, hAB.apiKey]
  · rw [A.apply_sessions_ne a.2 hsess, hAB.session]

theorem statesAgree_shown {n : Name} {s t s' : State} {a b : Op × Env} {e : Op × Result}
    (h : StatesAgree n s t) (hk : keeps n a = true) (hab : SameCall a b)
    (hs : gptfs.step s a = some (s', e)) : ∃ t' f, gptfs.step t b = some (t', f) ∧
      StatesAgree n s' t' ∧ sessionView n f = sessionView n e := by
  obtain ⟨A, B, hAB, rfl, rfl⟩ := h
  obtain ⟨op, env⟩ := a
  obtain ⟨op', env'⟩ := b
  obtain ⟨rfl, hchat⟩ : op = op' ∧ env.chat = env'.chat := hab
  obtain ⟨hp, ht, rfl, rfl⟩ := gptfs_step_tree hAB.typed hs
  have hsess : sessionOf op.path = none ∨ sessionOf op.path = some n.1 := by
    simpa [keeps] using hk
  have hp' : B.concrete.Promised op := hAB.promised hp hsess
  have hstep : gptfs.step B.concrete (op, env') = some ((B.concrete.apply env' op).1, op,
      (B.concrete.apply env' op).2) := gptfs_step_iff.mpr ⟨hp', rfl, rfl⟩
  have hB := B.apply_concrete hAB.typed' env' hp'
  have hkey : (A.apply env op).1.apiKey = (B.apply env' op).1.apiKey := by
    rw [A.apply_apiKey, B.apply_apiKey, hAB.apiKey]
  refine ⟨_, _, hstep, ?_⟩
  simp only [hB]
  rcases hsess with hroot | hin
  · have hne : sessionOf op.path ≠ some n.1 := by simp [hroot]
    refine ⟨⟨_, _, ⟨ht, hAB.typed'.apply env' hp', hkey, ?_⟩, rfl, rfl⟩, ?_⟩
    · rw [A.apply_sessions_ne env hne, B.apply_sessions_ne env' hne, hAB.session]
    · rw [sessionView, sessionView, if_neg hne, if_neg hne]
  · obtain ⟨hsession, hvisible⟩ := hAB.apply_session hchat hin
    refine ⟨⟨_, _, ⟨ht, hAB.typed'.apply env' hp', hkey, hsession⟩, rfl, rfl⟩, ?_⟩
    rw [sessionView, sessionView, if_pos hin, if_pos hin, hvisible]

/-- Two sessions in turn, the second one removed while the first one is used. -/
def twoSessions : List (Op × Env) :=
  let env : Env := ⟨fun i => i, fun prompt => .content prompt, fun _ => []⟩
  [(.mkdir "/a".toList 0o755, env), (.mkdir "/b".toList 0o755, env),
    (.write "/a/input".toList [104] 0, env), (.write "/b/input".toList [105, 106] 0, env),
    (.readdir "/".toList, env), (.read "/a/output".toList 4096 0, env),
    (.rmdir "/b".toList, env), (.getattr "/a/output".toList, env)]

end OShm.Gptfs
