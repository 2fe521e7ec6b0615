import Mathlib.Algebra.BigOperators.Group.Multiset.Defs
import OShm.Gptfs.Tree

/-! # The class refines the tree

Each assignment of the source to a dictionary is a change of one session of the tree, so a
promised call takes the state of a tree to the state of the tree after the call. -/

namespace OShm.Gptfs

open OShm.Lib OShm.Lib.PathString

/-! ## Trees -/

namespace Tree

theorem ext_sessions {A B : Tree} (hr : A.root = B.root) (hs : A.sessions = B.sessions)
    (hf : A.fd = B.fd) (hk : A.apiKey = B.apiKey) : A = B := by
  have hn : A.names = B.names := by
    ext n
    rw [A.mem_names, B.mem_names, hs]
  cases A
  cases B
  simp_all

variable (A : Tree) (n : Name)

@[simp] theorem put_sessions_same (s : Option Session) : (A.put n s).sessions n = s := by
  simp [put]

@[simp] theorem put_sessions_ne {m : Name} (s : Option Session) (h : m ≠ n) :
    (A.put n s).sessions m = A.sessions m := by
  simp [put, h]

@[simp] theorem put_put (s t : Option Session) : (A.put n s).put n t = A.put n t := by
  apply ext_sessions <;> simp [put]

theorem put_self {s : Option Session} (h : A.sessions n = s) : A.put n s = A := by
  apply ext_sessions <;> simp [put, ← h]

theorem node_funext {β : Type} {f g : Node → β} (hroot : f .root = g .root)
    (hhere : ∀ k, f (.inside n k) = g (.inside n k))
    (hother : ∀ m, m ≠ n → ∀ k, f (.inside m k) = g (.inside m k)) : f = g := by
  funext x
  match x with
  | .root => exact hroot
  | .inside m k =>
      by_cases hm : m = n
      · rw [hm]
        exact hhere k
      · exact hother m hm k

theorem attr_inside (k : Option Special) : A.attr (.inside n k) = (A.sessions n).map (·.attr k) :=
  rfl

theorem bytes_special (k : Special) : A.bytes (.special n k) = (A.sessions n).map (·.data k) :=
  rfl

theorem listing_session :
    A.listing (.session n) = (A.sessions n).map fun _ => specialNames.toFinset := rfl

/-- The root is a directory, and so is each session; their files are regular. -/
structure Typed : Prop where
  root : fileType A.root.mode = sIfdir
  session : ∀ n s, A.sessions n = some s → s.Typed

/-! ## The dictionaries of a tree -/

@[simp] theorem concrete_files (x : Node) : A.concrete.files x.path = A.attr x :=
  Dict.keyed_of_some (nodeOf_path x)

@[simp] theorem concrete_data (x : Node) : A.concrete.data x.path = A.bytes x :=
  Dict.keyed_of_some (nodeOf_path x)

@[simp] theorem concrete_dirFiles (x : Node) : A.concrete.dirFiles x.path = A.listing x :=
  Dict.keyed_of_some (nodeOf_path x)

theorem mem_concrete_directories {p : Str} : p ∈ A.concrete.directories ↔
    p = rootPath ∨ ∃ m, p = (Node.session m).path ∧ (A.sessions m).isSome := by
  simp only [concrete, Finset.mem_insert, Finset.mem_image]
  constructor
  · rintro (h | ⟨m, hm, h⟩)
    · exact .inl h
    · exact .inr ⟨m, h.symm, (A.mem_names m).mp hm⟩
  · rintro (h | ⟨m, h, hm⟩)
    · exact .inl h
    · exact .inr ⟨m, (A.mem_names m).mpr hm, h.symm⟩

section

variable {A n} {s : Session} (hs : A.sessions n = some s)

include hs

theorem put_names (t : Session) : (A.put n (some t)).names = A.names := by
  have hn : n ∈ A.names := (A.mem_names n).mpr (by simp [hs])
  simp [put, hn]

theorem put_listing (t : Session) : (A.put n (some t)).listing = A.listing := by
  apply node_funext n
  · rfl
  · intro k
    cases k with
    | none => simp [listing_session, hs]
    | some k => rfl
  · intro m hm k
    cases k with
    | none => simp [listing_session, hm]
    | some k => rfl

theorem put_attr {t : Session} (ht : t.attr = s.attr) : (A.put n (some t)).attr = A.attr := by
  apply node_funext n
  · rfl
  · intro k
    simp [attr_inside, hs, ht]
  · intro m hm k
    simp [attr_inside, hm]

theorem put_bytes {t : Session} (ht : t.data = s.data) : (A.put n (some t)).bytes = A.bytes := by
  apply node_funext n
  · rfl
  · intro k
    cases k with
    | none => rfl
    | some k => simp [bytes_special, hs, ht]
  · intro m hm k
    cases k with
    | none => rfl
    | some k => simp [bytes_special, hm]

theorem setAttr_concrete (k : Option Special) (f : Attr → Attr) :
    A.concrete.setAttr (Node.inside n k).path (f (s.attr k)) =
      (A.put n (some (s.updateAttr k f))).concrete := by
  have hattr : A.attr.set (.inside n k) (f (s.attr k)) =
      (A.put n (some (s.updateAttr k f))).attr := by
    apply node_funext n
    · rfl
    · intro j
      by_cases hj : j = k
      · subst hj
        simp [attr_inside, Session.updateAttr]
      · simp [attr_inside, Session.updateAttr, hs, hj]
    · intro m hm j
      simp [attr_inside, hm]
  simp only [State.setAttr, concrete, Dict.set_keyed nodeOf_eq_some_iff, hattr, put_names hs,
    put_listing hs, put_bytes hs (t := s.updateAttr k f) rfl]
  rfl

theorem setData_concrete (k : Special) (b : Bytes) :
    A.concrete.setData (Node.special n k).path b =
      (A.put n (some (s.setData k b))).concrete := by
  have hbytes : A.bytes.set (.special n k) b = (A.put n (some (s.setData k b))).bytes := by
    apply node_funext n
    · rfl
    · intro j
      cases j with
      | none => simp [bytes]
      | some j =>
          by_cases hj : j = k
          · subst hj
            simp [bytes_special, Session.setData]
          · simp [bytes_special, Session.setData, hs, hj]
    · intro m hm j
      cases j with
      | none => simp [bytes, hm]
      | some j => simp [bytes_special, hm]
  simp only [State.setData, concrete, Dict.set_keyed nodeOf_eq_some_iff, hbytes, put_names hs,
    put_listing hs, put_attr hs (t := s.setData k b) rfl]
  rfl

theorem updateAttr_concrete (k : Option Special) (f : Attr → Attr) (ret : Value) :
    A.concrete.updateAttr (Node.inside n k).path f ret =
      ((A.put n (some (s.updateAttr k f))).concrete, .ok ret) := by
  rw [State.updateAttr, concrete_files, attr_inside, hs]
  simp only [Option.map_some]
  rw [setAttr_concrete hs]

theorem truncate_concrete (k : Special) (length : Nat) :
    A.concrete.truncate (Node.special n k).path length =
      ((A.put n (some ((s.setData k ((s.data k).take length)).updateAttr (some k)
        fun a => { a with size := some length }))).concrete, .ok (.int 0)) := by
  simp only [State.truncate, fullPath_path, isSpecialFile_special, not_true_eq_false, if_false,
    concrete_data, bytes_special, hs, Option.map_some, Option.getD_some, setData_concrete hs]
  rw [updateAttr_concrete (put_sessions_same A n _), put_put]

theorem writeError_concrete (text : Bytes) (env : Env) (ret : Value) :
    A.concrete.writeError (Node.special n .error).path text env ret =
      ((A.put n (some (s.fail text env))).concrete, .ok ret) := by
  simp only [State.writeError, setData_concrete hs]
  rw [updateAttr_concrete (put_sessions_same A n _), put_put]
  rfl

theorem converse_concrete (env : Env) (ret : Value) :
    A.concrete.converse (Node.special n .input).path (Node.session n).path env ret =
      ((A.put n (some (s.converse A.apiKey env))).concrete, .ok ret) := by
  have hprompt : ((s.setData .output []).setData .error []).data .input = s.data .input := by
    simp [Session.setData]
  have hkey : ∀ t, (A.put n t).concrete.apiKey = A.apiKey := fun _ => rfl
  simp only [State.converse, Session.converse, join_session, setData_concrete hs,
    setData_concrete (put_sessions_same A n _), put_put, concrete_data, bytes_special,
    put_sessions_same, Option.map_some, Option.getD_some, hprompt, hkey]
  cases callGptApi A.apiKey env.chat (s.data .input) with
  | error text =>
      simp only
      rw [writeError_concrete (put_sessions_same A n _), put_put]
  | ok response =>
      simp only [concrete_files, attr_inside, put_sessions_same, Option.map_some]
      have hset := setAttr_concrete (put_sessions_same A n
        (some (((s.setData .output []).setData .error []).setData .output response)))
        (some .output) fun a => { a with size := some response.length, mtime := env.clock 1 }
      rw [put_put] at hset
      rw [hset]
      rfl

theorem write_concrete (data : Bytes) (offset : Nat) (env : Env) :
    A.concrete.write (Node.special n .input).path data offset env =
      ((A.put n (some (s.write A.apiKey data offset env))).concrete, .ok (.int data.length)) := by
  have hset := setAttr_concrete (put_sessions_same A n
    (some (s.setData .input (State.written (s.data .input) data offset)))) (some .input) fun a =>
      { a with
        size := some (max (offset + data.length) (State.written (s.data .input) data offset).length)
        mtime := env.clock 0 }
  rw [put_put, Session.setData_attr] at hset
  have hend : "/input".toList.isSuffixOf (Node.special n .input).path = true := by
    rw [endsWith_input_special]
    rfl
  simp only [State.write, Session.write, fullPath_path, concrete_files, attr_inside, hs,
    Option.map_some, hend, not_true_eq_false, if_false, getSessionDir_special, concrete_data,
    bytes_special, Option.getD_some, setData_concrete hs]
  rw [hset, converse_concrete (put_sessions_same A n _), put_put]
  rfl

end

/-! ## Making and removing a session -/

theorem attr_remove : (((A.attr.del (.special n .input)).del (.special n .output)).del
    (.special n .error)).del (.session n) = (A.put n none).attr := by
  apply node_funext n
  · rfl
  · intro k
    match k with
    | none | some .input | some .output | some .error => simp [attr_inside]
  · intro m hm k
    simp [attr_inside, hm]

theorem bytes_remove : ((A.bytes.del (.special n .input)).del (.special n .output)).del
    (.special n .error) = (A.put n none).bytes := by
  apply node_funext n
  · rfl
  · intro k
    match k with
    | none => simp [bytes]
    | some .input | some .output | some .error => simp [bytes_special]
  · intro m hm k
    match k with
    | none => simp [bytes]
    | some k => simp [bytes_special, hm]

theorem listing_remove : A.listing.del (.session n) = (A.put n none).listing := by
  apply node_funext n
  · rfl
  · intro k
    match k with
    | none => simp [listing_session]
    | some k => simp [listing]
  · intro m hm k
    match k with
    | none => simp [listing_session, hm]
    | some k => simp [listing]

theorem directories_remove : A.concrete.directories.erase (Node.session n).path =
    (A.put n none).concrete.directories := by
  simp only [concrete, put]
  rw [Finset.erase_insert_of_ne (session_path_ne_root n).symm,
    ← Finset.image_erase session_path_injective]
  rfl

theorem rmdir_concrete {s : Session} (hs : A.sessions n = some s) :
    A.concrete.rmdir (Node.session n).path = ((A.put n none).concrete, .ok (.int 0)) := by
  have hmem : (Node.session n).path ∈ A.concrete.directories :=
    A.mem_concrete_directories.mpr (.inr ⟨n, rfl, by simp [hs]⟩)
  have hset : specialNames.toFinset.val = (specialNames : Multiset Str) := by decide
  simp only [State.rmdir, fullPath_path, isSessionDir_session, not_true_eq_false, if_false,
    concrete_dirFiles, listing_session, hs, Option.map_some, Option.getD_some, hset,
    Multiset.coe_foldl]
  simp only [specialNames, Special.all, List.map_cons, List.map_nil, List.foldl_cons,
    List.foldl_nil, State.dropFile, join_session]
  have hdel : ∀ {V : Type} (f : Dict Node V) (x : Node), (Dict.keyed nodeOf f).del x.path =
      Dict.keyed nodeOf (f.del x) := fun f x => Dict.del_keyed nodeOf_eq_some_iff
  have hfiles : A.concrete.files = Dict.keyed nodeOf A.attr := rfl
  have hdata : A.concrete.data = Dict.keyed nodeOf A.bytes := rfl
  have hlisting : A.concrete.dirFiles = Dict.keyed nodeOf A.listing := rfl
  have hsome : (((A.attr.del (.special n .input)).del (.special n .output)).del
      (.special n .error)) (.session n) = some (s.attr none) := by
    simp [attr_inside, hs]
  simp only [hfiles, hdata, hlisting, hdel, hmem, not_true_eq_false, if_false,
    Dict.keyed_of_some (nodeOf_path (.session n)), hsome, listing_session, hs, Option.map_some,
    reduceCtorEq, attr_remove, bytes_remove, listing_remove, directories_remove]
  rfl

theorem attr_make (mode : Nat) (now : Time) :
    (((A.attr.set (.session n) ((Session.fresh mode now).attr none)).set (.special n .input)
      ((Session.fresh mode now).attr (some .input))).set (.special n .output)
      ((Session.fresh mode now).attr (some .output))).set (.special n .error)
      ((Session.fresh mode now).attr (some .error)) =
        (A.put n (some (.fresh mode now))).attr := by
  apply node_funext n
  · rfl
  · intro k
    match k with
    | none | some .input | some .output | some .error => simp [attr_inside]
  · intro m hm k
    simp [attr_inside, hm]

theorem bytes_make (mode : Nat) (now : Time) :
    ((A.bytes.set (.special n .input) []).set (.special n .output) []).set (.special n .error) [] =
      (A.put n (some (.fresh mode now))).bytes := by
  apply node_funext n
  · rfl
  · intro k
    match k with
    | none => simp [bytes]
    | some .input | some .output | some .error => simp [bytes_special, Session.fresh]
  · intro m hm k
    match k with
    | none => simp [bytes]
    | some k => simp [bytes_special, hm]

theorem listing_make (s : Session) :
    A.listing.set (.session n) specialNames.toFinset = (A.put n (some s)).listing := by
  apply node_funext n
  · rfl
  · intro k
    match k with
    | none => simp [listing_session]
    | some k => simp [listing]
  · intro m hm k
    match k with
    | none => simp [listing_session, hm]
    | some k => simp [listing]

/-- A new session: the directory, then its files one by one. -/
theorem mkdir_concrete (hs : A.sessions n = none) (mode : Nat) (env : Env) :
    A.concrete.mkdir (Node.session n).path mode env =
      ((A.put n (some (.fresh mode (env.clock 0)))).concrete, .ok (.int 0)) := by
  have hset : ∀ {V : Type} (f : Dict Node V) (x : Node) (v : V),
      (Dict.keyed nodeOf f).set x.path v = Dict.keyed nodeOf (f.set x v) :=
    fun f x v => Dict.set_keyed nodeOf_eq_some_iff v
  have hguard : ¬ ((parts '/' (Node.session n).path).length ≠ 1 ∨
      (Node.session n).path = rootPath) := by
    simp [parts_session, session_path_ne_root]
  simp only [State.mkdir, fullPath_path, if_neg hguard, specialNames, Special.all, List.map_cons,
    List.map_nil, List.foldl_cons, List.foldl_nil, State.addSpecial, join_session, State.setAttr,
    State.setData, State.addDirFile]
  have hnames : insert Special.error.name (insert Special.output.name
      (insert Special.input.name (∅ : Finset Str))) = specialNames.toFinset := by decide
  have hfiles : A.concrete.files = Dict.keyed nodeOf A.attr := rfl
  have hdata : A.concrete.data = Dict.keyed nodeOf A.bytes := rfl
  have hlisting : A.concrete.dirFiles = Dict.keyed nodeOf A.listing := rfl
  have hempty : A.concrete.dirFiles (Node.session n).path = none := by
    simp [listing_session, hs]
  have hdirs : insert (Node.session n).path A.concrete.directories =
      (A.put n (some (.fresh mode (env.clock 0)))).concrete.directories := by
    simp [concrete, put, Finset.insert_comm]
  simp only [Dict.set_same, Dict.set_set, Option.getD_some, hempty, Option.getD_none, hnames]
  simp only [hfiles, hdata, hlisting, hset, hdirs, bytes_make A n mode (env.clock 0),
    listing_make A n (.fresh mode (env.clock 0))]
  exact congrArg (fun f => (State.mk (Dict.keyed nodeOf f) _ _ _ _ _, _))
    (attr_make A n mode (env.clock 0))

theorem getattr_concrete (x : Node) (env : Env) :
    A.concrete.getattr x.path env = (A.concrete, match A.attr x with
      | some a => .ok (.attr a)
      | none => .error (.fuseOSError enoent)) := by
  simp only [State.getattr, fullPath_path, concrete_files]
  cases x with
  | root => rfl
  | inside n k =>
      cases k with
      | none =>
          rw [parts_session]
          cases A.attr (.session n) <;> rfl
      | some k =>
          rw [parts_special]
          cases hs : A.sessions n with
          | none =>
              have hdir : A.concrete.files ('/' :: n.1) = none := by
                have h := A.concrete_files (.session n)
                rw [attr_inside, hs] at h
                exact h
              simp [attr_inside, hs, hdir]
          | some s => simp [attr_inside, hs]

theorem getattr_nowhere {p : Str} (hp : Normal '/' p) (h : nodeOf p = none) (env : Env) :
    A.concrete.getattr p env = (A.concrete, .error (.fuseOSError enoent)) := by
  obtain ⟨hhead, -, hspecial⟩ := of_nodeOf_none hp h
  have hfull : fullPath p = p := by simp [fullPath, hhead]
  have hfiles : A.concrete.files p = none := Dict.keyed_of_none h
  simp only [State.getattr, hfull, hfiles]
  unfold isSpecialFile at hspecial
  split
  · next c f hparts =>
      have hf : f ∉ specialNames := by simpa [hparts] using hspecial
      rw [if_neg fun h => hf h.1]
  · rfl

@[simp] theorem stat_concrete (x : Node) : A.concrete.stat x.path = A.attr x := by
  rw [State.stat, getattr_concrete]
  cases A.attr x <;> rfl

theorem stat_nowhere {p : Str} (hp : Normal '/' p) (h : nodeOf p = none) :
    A.concrete.stat p = none := by
  rw [State.stat, getattr_nowhere A hp h]

theorem hasType_concrete (x : Node) (type : Nat) :
    A.concrete.hasType x.path type = (A.attr x).any fun a => fileType a.mode = type := by
  rw [State.hasType, stat_concrete]

theorem setAttr_root (a : Attr) :
    A.concrete.setAttr rootPath a = concrete { A with root := a } := by
  have hattr : A.attr.set .root a = attr { A with root := a } := by
    funext x
    cases x with
    | root => simp [attr]
    | inside n k => simp [attr]
  simp only [State.setAttr, concrete]
  rw [show rootPath = Node.root.path from rfl, Dict.set_keyed nodeOf_eq_some_iff, hattr]
  rfl

theorem updateAttr_root (f : Attr → Attr) (ret : Value) :
    A.concrete.updateAttr rootPath f ret = (concrete { A with root := f A.root }, .ok ret) := by
  rw [State.updateAttr, show A.concrete.files rootPath = some A.root from A.concrete_files .root]
  simp only [setAttr_root]

theorem readdir_root : A.concrete.readdir rootPath =
    (A.concrete, .ok (.names (State.dots + A.names.val.map (·.1)))) := by
  have hroot : rootPath ∉ A.names.image fun n => (Node.session n).path := by
    intro h
    obtain ⟨n, -, hn⟩ := Finset.mem_image.mp h
    exact session_path_ne_root n hn
  have hfilter : A.concrete.directories.val.filter (· ≠ rootPath) =
      A.names.val.map fun n => (Node.session n).path := by
    rw [← Finset.image_val_of_injOn (session_path_injective.injOn), ← Finset.filter_val]
    congr 1
    simp only [concrete]
    rw [Finset.filter_insert, if_neg (by simp), Finset.filter_true_of_mem]
    intro p hp
    exact fun h => hroot (h ▸ hp)
  have hstrip : ∀ n : Name, strip '/' (Node.session n).path = n.1 := by
    intro n
    exact (strip_cons n.1).trans (strip_of_ends n.2.head_ne n.2.getLast_ne)
  have hfull : fullPath rootPath = rootPath := fullPath_path .root
  simp only [State.readdir, hfull, if_true, hfilter, Multiset.map_map, Function.comp_def, hstrip]

/-! ## Calls -/

/-- A call for a path that cannot exist finds nothing and makes nothing. -/
theorem apply_nowhere {op : Op} (env : Env) (hp : Normal '/' op.path) (h : nodeOf op.path = none)
    (hs : A.concrete.suits op = true) :
    A.concrete.apply env op = ((A.apply env op).1.concrete, (A.apply env op).2) := by
  obtain ⟨hhead, hlen, hspecial⟩ := of_nodeOf_none hp h
  have hfull : fullPath op.path = op.path := by simp [fullPath, hhead]
  have hstat := A.stat_nowhere hp h
  have happly : A.apply env op = ({ A with fd := A.fd + op.opens }, op.fixed A.fd) := by
    simp only [Tree.apply, h]
  rw [happly]
  cases op with
  | getattr p => exact A.getattr_nowhere hp h env
  | symlink p q => rfl
  | create p mode =>
      simp only [Op.path] at hfull hspecial
      simp only [State.apply, State.create, hfull, hspecial]
      rfl
  | mkdir p mode =>
      simp only [Op.path] at hfull hlen
      have hne : (parts '/' p).length ≠ 1 := by omega
      simp only [State.apply, State.mkdir, hfull, if_pos (Or.inl hne)]
      rfl
  | _ => simp_all [State.suits, State.hasType, Op.path]

theorem apply_root {op : Op} (env : Env) (h : nodeOf op.path = some .root)
    (ht : fileType A.root.mode = sIfdir) (hs : A.concrete.suits op = true) :
    A.concrete.apply env op = ((A.apply env op).1.concrete, (A.apply env op).2) := by
  have hpath : op.path = rootPath := path_of_nodeOf h
  have happly : A.apply env op =
      ({ (A.atRoot op env).1 with fd := (A.atRoot op env).1.fd + op.opens },
        (A.atRoot op env).2) := by
    simp only [Tree.apply, h]
  have hfull : fullPath rootPath = rootPath := fullPath_path .root
  have hfiles : A.concrete.files rootPath = some A.root := A.concrete_files .root
  have hstat : A.concrete.stat rootPath = some A.root := A.stat_concrete .root
  rw [happly]
  cases op <;> simp only [Op.path] at hpath <;> subst hpath
  case getattr => exact A.getattr_concrete .root env
  case readdir => exact A.readdir_root
  case chmod mode =>
    simp only [State.apply, State.chmod, updateAttr_root]
    rfl
  case chown uid gid =>
    simp only [State.apply, State.chown, updateAttr_root]
    rfl
  case utimens times =>
    simp only [State.apply, State.utimens, hfull, hfiles, setAttr_root]
    rfl
  case rmdir =>
    simp only [State.apply, State.rmdir, hfull, isSessionDir_root]
    rfl
  all_goals first | rfl | simp_all [State.suits, State.hasType, sIfdir, sIflnk]

/-- In a session that does not exist, only its own directory can be made. -/
theorem apply_absent {op : Op} (env : Env) {k : Option Special}
    (h : nodeOf op.path = some (.inside n k)) (hs : A.sessions n = none)
    (hsuits : A.concrete.suits op = true) :
    A.concrete.apply env op = ((A.apply env op).1.concrete, (A.apply env op).2) := by
  have hpath := path_of_nodeOf h
  have happly : A.apply env op =
      let r := op.inSession env A.apiKey A.fd k none
      ({ A.put n r.1 with fd := A.fd + op.opens }, r.2) := by
    simp only [Tree.apply, h, hs]
    rfl
  have hstat : A.concrete.stat (Node.inside n k).path = none := by
    rw [stat_concrete, attr_inside, hs]
    rfl
  have hself : A.put n none = A := A.put_self n hs
  rw [happly]
  cases op <;> simp only [Op.path] at hpath <;> subst hpath
  case getattr =>
    simp only [State.apply, getattr_concrete, attr_inside, hs, Op.inSession, hself]
    rfl
  case symlink q =>
    simp only [Op.inSession, hself]
    rfl
  case create mode =>
    cases k with
    | none =>
        simp only [State.apply, State.create, fullPath_path, isSpecialFile_session, Op.inSession,
          hself]
        rfl
    | some k =>
        have hparent : A.concrete.stat (dirname (Node.special n k).path) = none := by
          rw [dirname_special, stat_concrete, attr_inside, hs]
          rfl
        simp [State.suits, State.vacant, State.hasType, hparent] at hsuits
  case mkdir mode =>
    match k with
    | none => exact A.mkdir_concrete n hs mode env
    | some k =>
        simp only [State.apply, State.mkdir, fullPath_path, parts_special, Op.inSession, hself]
        rfl
  all_goals simp [State.suits, State.hasType, Op.path, hstat] at hsuits

theorem apply_present {op : Op} (env : Env) {k : Option Special} {s : Session}
    (h : nodeOf op.path = some (.inside n k)) (hs : A.sessions n = some s) (ht : s.Typed)
    (hsuits : A.concrete.suits op = true) :
    A.concrete.apply env op = ((A.apply env op).1.concrete, (A.apply env op).2) := by
  have hpath := path_of_nodeOf h
  have happly : A.apply env op =
      let r := s.step op env A.apiKey A.fd k
      ({ A.put n r.1 with fd := A.fd + op.opens }, r.2) := by
    simp only [Tree.apply, h, hs]
    rfl
  have hfiles : A.concrete.files (Node.inside n k).path = some (s.attr k) := by
    rw [concrete_files, attr_inside, hs]
    rfl
  have hstat : A.concrete.stat (Node.inside n k).path = some (s.attr k) := by
    rw [stat_concrete, attr_inside, hs]
    rfl
  have htype : ∀ type, A.concrete.hasType (Node.inside n k).path type =
      decide (Session.kind k = type) := by
    intro type
    simp only [State.hasType, hstat, Option.any_some, ht k]
  have hself : A.put n (some s) = A := A.put_self n hs
  rw [happly]
  cases op <;> simp only [Op.path] at hpath <;> subst hpath
  case getattr =>
    simp only [State.apply, getattr_concrete, attr_inside, hs, Session.step, Op.assigns, hself]
    rfl
  case chmod mode =>
    simp only [State.apply, State.chmod, updateAttr_concrete hs]
    rfl
  case chown uid gid =>
    simp only [State.apply, State.chown, updateAttr_concrete hs]
    rfl
  case utimens times =>
    have hset := setAttr_concrete hs k fun a => { a with
      atime := (times.getD (env.clock 0, env.clock 0)).1
      mtime := (times.getD (env.clock 0, env.clock 0)).2 }
    simp only [State.apply, State.utimens, fullPath_path, hfiles]
    exact congrArg (fun t => (t, Except.ok Value.none)) hset
  case create mode => simp [State.suits, State.vacant, hstat] at hsuits
  case mkdir mode => simp [State.suits, State.vacant, hstat] at hsuits
  case readlink =>
    cases k <;> simp [State.suits, htype, Session.kind, sIfdir, sIfreg, sIflnk] at hsuits
  case read size offset =>
    cases k with
    | none => simp [State.suits, htype, Session.kind, sIfdir, sIfreg] at hsuits
    | some k =>
        simp only [State.apply, State.read, fullPath_path, hfiles, reduceCtorEq, if_false,
          isSpecialFile_special, if_true, concrete_data, bytes_special, hs, Option.map_some,
          Option.getD_some, Session.step, Op.assigns, hself]
        rfl
  case readdir =>
    cases k with
    | none =>
        have hmem : (Node.session n).path ∈ A.concrete.directories :=
          A.mem_concrete_directories.mpr (.inr ⟨n, rfl, by simp [hs]⟩)
        simp only [State.apply, State.readdir, fullPath_path, if_neg (session_path_ne_root n),
          if_pos hmem, concrete_dirFiles, listing_session, hs, Option.map_some, Option.getD_some,
          Session.step, Op.assigns, hself]
        rfl
    | some k => simp [State.suits, htype, Session.kind, sIfdir, sIfreg] at hsuits
  case rmdir =>
    cases k with
    | none => exact A.rmdir_concrete n hs
    | some k => simp [State.suits, htype, Session.kind, sIfdir, sIfreg] at hsuits
  case truncate length =>
    cases k with
    | none => simp [State.suits, htype, Session.kind, sIfdir, sIfreg] at hsuits
    | some k => exact truncate_concrete hs k length
  case write data offset =>
    cases k with
    | none => simp [State.suits, htype, Session.kind, sIfdir, sIfreg] at hsuits
    | some k =>
        cases k with
        | input => exact write_concrete hs data offset env
        | output | error =>
            simp only [State.apply, State.write, fullPath_path, hfiles, endsWith_input_special,
              Session.step, Op.assigns, hself]
            rfl
  all_goals
    simp only [Session.step, Op.assigns, hself]
    rfl

/-- A promised call on the state of a tree. -/
theorem apply_concrete (ht : A.Typed) {op : Op} (env : Env) (h : A.concrete.Promised op) :
    A.concrete.apply env op = ((A.apply env op).1.concrete, (A.apply env op).2) := by
  obtain ⟨hp, hs⟩ := h
  cases hx : nodeOf op.path with
  | none => exact A.apply_nowhere env hp hx hs
  | some x =>
      cases x with
      | root => exact A.apply_root env hx ht.root hs
      | inside n k =>
          cases hn : A.sessions n with
          | none => exact A.apply_absent n env hx hn hs
          | some s => exact A.apply_present n env hx hn (ht.session n s hn) hs

end Tree

end OShm.Gptfs
