import OShm.Lib.PathString
import OShm.Lib.Dict

/-! # Paths of GPTfs

The path helpers of the class, and the paths that mean something to it: the root, the
session directories below it, and three files in each session.
-/

namespace OShm.Gptfs

open OShm.Lib OShm.Lib.PathString

abbrev Str := List Char

def rootPath : Str := ['/']

def fullPath (path : Str) : Str := if path.head? = some '/' then path else '/' :: path

inductive Special where
  | input
  | output
  | error
  deriving DecidableEq, Repr

namespace Special

def name : Special → Str
  | input => "input".toList
  | output => "output".toList
  | error => "error".toList

/-- The literal `['input', 'output', 'error']` of the source. -/
def all : List Special := [input, output, error]

def ofName (f : Str) : Option Special := all.find? fun k => k.name = f

theorem name_component (k : Special) : Component '/' k.name := by
  cases k <;> decide

theorem ofName_eq_some_iff {f : Str} {k : Special} : ofName f = some k ↔ f = k.name := by
  constructor
  · intro h
    have hk := List.find?_some h
    simpa using (of_decide_eq_true hk).symm
  · rintro rfl
    cases k <;> decide

end Special

def specialNames : List Str := Special.all.map Special.name

def isSessionDir (path : Str) : Bool := (parts '/' path).length == 1 && path != rootPath

def isSpecialFile (path : Str) : Bool :=
  match parts '/' path with
  | [_, f] => specialNames.contains f
  | _ => false

def getSessionDir (path : Str) : Option Str :=
  match parts '/' path with
  | [] => none
  | c :: _ => some ('/' :: c)

/-! ## Nodes -/

/-- The name of a session: one component. -/
def Name := { n : Str // Component '/' n }

instance : DecidableEq Name := inferInstanceAs (DecidableEq { n : Str // Component '/' n })

/-- The root, or in a session either its directory or one of its files. -/
inductive Node where
  | root
  | inside (n : Name) (k : Option Special)
  deriving DecidableEq

@[match_pattern] abbrev Node.session (n : Name) : Node := .inside n none

@[match_pattern] abbrev Node.special (n : Name) (k : Special) : Node := .inside n (some k)

def Node.path : Node → Str
  | root => rootPath
  | session n => '/' :: n.1
  | special n k => '/' :: (n.1 ++ '/' :: k.name)

/-- The node a string stands for. -/
def nodeOf (p : Str) : Option Node :=
  if p = rootPath then some .root
  else
    match parts '/' p with
    | [n] => if h : Component '/' n then
        if p = '/' :: n then some (.session ⟨n, h⟩) else none
      else none
    | [n, f] => if h : Component '/' n then
        (Special.ofName f).bind fun k =>
          if p = '/' :: (n ++ '/' :: k.name) then some (.special ⟨n, h⟩ k) else none
      else none
    | _ => none

theorem parts_session (n : Name) : parts '/' (Node.session n).path = [n.1] := by
  have h : ∀ c ∈ [n.1], Component '/' c := by simpa using n.2
  have hr : (Node.session n).path = render '/' [n.1] := by simp [Node.path, render]
  rw [hr, parts_render h (by simp)]

theorem parts_special (n : Name) (k : Special) :
    parts '/' (Node.special n k).path = [n.1, k.name] := by
  have h : ∀ c ∈ [n.1, k.name], Component '/' c := by
    simpa using ⟨n.2, k.name_component⟩
  have hr : (Node.special n k).path = render '/' [n.1, k.name] := by
    simp [Node.path, render]
  rw [hr, parts_render h (by simp)]

theorem session_path_ne_root (n : Name) : (Node.session n).path ≠ rootPath := by
  intro h
  exact n.2.ne_nil (by simpa [Node.path, rootPath] using h)

theorem special_path_ne_root (n : Name) (k : Special) : (Node.special n k).path ≠ rootPath := by
  simp [Node.path, rootPath]

@[simp] theorem nodeOf_path (x : Node) : nodeOf x.path = some x := by
  match x with
  | .root => rfl
  | .session n =>
      rw [nodeOf, if_neg (session_path_ne_root n), parts_session]
      simp only [n.2, Node.path, dif_pos, if_true]
      rfl
  | .special n k =>
      rw [nodeOf, if_neg (special_path_ne_root n k), parts_special]
      simp only [n.2, Node.path, dif_pos, Special.ofName_eq_some_iff.mpr rfl, Option.bind_some,
        if_true]
      rfl

theorem path_of_nodeOf {p : Str} {x : Node} (h : nodeOf p = some x) : p = x.path := by
  unfold nodeOf at h
  split at h
  · next hp =>
      obtain rfl : Node.root = x := by simpa using h
      exact hp
  · split at h
    · split at h
      · split at h
        · next hp =>
            obtain rfl := Option.some.inj h
            exact hp
        · cases h
      · cases h
    · split at h
      · simp only [Option.bind_eq_some_iff] at h
        obtain ⟨k, -, hk⟩ := h
        split at hk
        · next hp =>
            obtain rfl := Option.some.inj hk
            exact hp
        · cases hk
      · cases h
    · cases h

theorem nodeOf_eq_some_iff {x : Node} (p : Str) : nodeOf p = some x ↔ p = x.path := by
  constructor
  · exact path_of_nodeOf
  · rintro rfl
    exact nodeOf_path x

theorem Node.path_injective {x y : Node} (h : x.path = y.path) : x = y := by
  have hxy : nodeOf x.path = nodeOf y.path := by rw [h]
  simpa using hxy

theorem session_path_injective : Function.Injective fun n : Name => (Node.session n).path := by
  intro m n h
  simpa using Node.path_injective h

/-! ## The helpers on the paths of nodes -/

@[simp] theorem fullPath_path (x : Node) : fullPath x.path = x.path := by
  match x with
  | .root | .session _ | .special _ _ => rfl

@[simp] theorem isSessionDir_root : isSessionDir rootPath = false := by decide

@[simp] theorem isSessionDir_session (n : Name) : isSessionDir (Node.session n).path = true := by
  simp [isSessionDir, parts_session, session_path_ne_root]

@[simp] theorem isSpecialFile_session (n : Name) :
    isSpecialFile (Node.session n).path = false := by
  simp [isSpecialFile, parts_session]

@[simp] theorem isSpecialFile_special (n : Name) (k : Special) :
    isSpecialFile (Node.special n k).path = true := by
  simp only [isSpecialFile, parts_special]
  cases k <;> decide

@[simp] theorem getSessionDir_special (n : Name) (k : Special) :
    getSessionDir (Node.special n k).path = some (Node.session n).path := by
  rw [getSessionDir, parts_special]
  rfl

@[simp] theorem join_session (n : Name) (k : Special) :
    join '/' (Node.session n).path k.name = (Node.special n k).path := by
  have hl : ¬ (Node.session n).path.getLast? = some '/' := by
    obtain ⟨x, l, hx⟩ := List.exists_cons_of_ne_nil n.2.ne_nil
    have hlast := n.2.getLast_ne
    simpa [Node.path, hx] using hlast
  rw [join_component (by simp [Node.path]) hl k.name_component]
  rfl

theorem endsWith_input_special (n : Name) (k : Special) :
    "/input".toList.isSuffixOf (Node.special n k).path = decide (k = .input) := by
  have hrev : (Node.special n k).path.reverse =
      k.name.reverse ++ '/' :: (n.1.reverse ++ ['/']) := by
    simp [Node.path]
  rw [List.isSuffixOf, hrev]
  cases k <;> rfl

/-- A normal path that is no node is below the root's children and is not special. -/
theorem of_nodeOf_none {p : Str} (hp : Normal '/' p) (h : nodeOf p = none) :
    p.head? = some '/' ∧ 2 ≤ (parts '/' p).length ∧ isSpecialFile p = false := by
  obtain ⟨cs, hc, rfl⟩ := hp
  refine ⟨rfl, ?_⟩
  match cs with
  | [] => cases h
  | [n] =>
      have hn : render '/' [n] = (Node.session ⟨n, hc n (by simp)⟩).path := by
        simp [render, Node.path]
      rw [hn, nodeOf_path] at h
      cases h
  | [n, f] =>
      have hparts : parts '/' (render '/' [n, f]) = [n, f] := parts_render hc (by simp)
      refine ⟨by simp [hparts], ?_⟩
      simp only [isSpecialFile, hparts]
      by_contra hf
      have hmem : f ∈ specialNames := by simpa using hf
      obtain ⟨k, -, rfl⟩ := List.mem_map.mp hmem
      have hn : render '/' [n, k.name] = (Node.special ⟨n, hc n (by simp)⟩ k).path := by
        simp [render, Node.path]
      rw [hn, nodeOf_path] at h
      cases h
  | n :: f :: g :: rest =>
      have hparts : parts '/' (render '/' (n :: f :: g :: rest)) = n :: f :: g :: rest :=
        parts_render hc (by simp)
      simp [isSpecialFile, hparts]

end OShm.Gptfs
