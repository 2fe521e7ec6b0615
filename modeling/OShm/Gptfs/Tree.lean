import OShm.Gptfs.Ops

/-! # GPTfs as a tree of sessions

A session is a directory with three files, and the file system is a set of sessions under
a root. The dictionaries of the class are functions of that tree, and every promised call
does to them what one session, or the root, undergoes.
-/

namespace OShm.Gptfs

open OShm.Lib OShm.Lib.PathString

/-- The attributes of the directory (`none`) and of the files, and the bytes of the files. -/
structure Session where
  attr : Option Special → Attr
  data : Special → Bytes

structure Tree where
  root : Attr
  sessions : Name → Option Session
  names : Finset Name
  fd : Nat
  apiKey : Bool
  mem_names : ∀ n, n ∈ names ↔ (sessions n).isSome

namespace Tree

def attr (A : Tree) : Dict Node Attr
  | .root => some A.root
  | .inside n k => (A.sessions n).map (·.attr k)

def bytes (A : Tree) : Dict Node Bytes
  | .special n k => (A.sessions n).map (·.data k)
  | _ => none

def listing (A : Tree) : Dict Node (Finset Str)
  | .session n => (A.sessions n).map fun _ => specialNames.toFinset
  | _ => none

/-- The state of the class that a tree stands for. -/
def concrete (A : Tree) : State where
  files := Dict.keyed nodeOf A.attr
  data := Dict.keyed nodeOf A.bytes
  fd := A.fd
  apiKey := A.apiKey
  directories := insert rootPath (A.names.image fun n => (Node.session n).path)
  dirFiles := Dict.keyed nodeOf A.listing

/-- The tree with another session, or none, under a name. -/
def put (A : Tree) (n : Name) (s : Option Session) : Tree where
  root := A.root
  sessions := Function.update A.sessions n s
  names := if s.isSome then insert n A.names else A.names.erase n
  fd := A.fd
  apiKey := A.apiKey
  mem_names m := by
    by_cases hm : m = n
    · subst hm
      cases s <;> simp
    · cases s <;> simp [hm, A.mem_names]

end Tree

/-! ## What a call does to one session -/

namespace Session

def kind : Option Special → Nat
  | none => sIfdir
  | some _ => sIfreg

def Typed (s : Session) : Prop := ∀ k, fileType (s.attr k).mode = kind k

def fresh (mode : Nat) (now : Time) : Session where
  attr
    | none => ⟨sIfdir ||| mode, 2, some 0, now, now, now, none, none⟩
    | some _ => ⟨sIfreg ||| 0o666, 1, some 0, now, now, now, none, none⟩
  data _ := []

def updateAttr (s : Session) (k : Option Special) (f : Attr → Attr) : Session :=
  { s with attr := Function.update s.attr k (f (s.attr k)) }

def setData (s : Session) (k : Special) (b : Bytes) : Session :=
  { s with data := Function.update s.data k b }

@[simp] theorem setData_attr (s : Session) (k : Special) (b : Bytes) :
    (s.setData k b).attr = s.attr := rfl

@[simp] theorem updateAttr_data (s : Session) (k : Option Special) (f : Attr → Attr) :
    (s.updateAttr k f).data = s.data := rfl

def fail (s : Session) (text : Bytes) (env : Env) : Session :=
  let errorMsg := ascii "Error processing request: " ++ text
  (s.setData .error errorMsg).updateAttr (some .error)
    fun a => { a with size := some errorMsg.length, mtime := env.clock 1 }

def respond (s : Session) (response : Bytes) (env : Env) : Session :=
  (s.setData .output response).updateAttr (some .output)
    fun a => { a with size := some response.length, mtime := env.clock 1 }

def converse (s : Session) (apiKey : Bool) (env : Env) : Session :=
  let s := (s.setData .output []).setData .error []
  match callGptApi apiKey env.chat (s.data .input) with
  | .error text => s.fail text env
  | .ok response => s.respond response env

def write (s : Session) (apiKey : Bool) (data : Bytes) (offset : Nat) (env : Env) : Session :=
  let content := State.written (s.data .input) data offset
  let s := (s.setData .input content).updateAttr (some .input) fun a =>
    { a with size := some (max (offset + data.length) content.length), mtime := env.clock 0 }
  s.converse apiKey env

end Session

/-- The calls whose result does not depend on any entry. A path that cannot exist has no
attributes, and nothing can be made there. -/
def Op.fixed (fd : Nat) : Op → Result
  | .getattr _ => .error (.fuseOSError enoent)
  | .getxattr _ => .ok (.text [])
  | .listxattr _ => .ok (.names 0)
  | .openFile _ => .ok (.fd (fd + 1))
  | .removexattr _ | .setxattr _ => .ok .none
  | .statfs _ => .ok (.statfs 512 4096 2048)
  | .lock _ => .ok (.int 0)
  | _ => .error (.fuseOSError eperm)

/-- The assignment a call makes to the attributes of its path, and what it then returns. -/
def Op.assigns (env : Env) : Op → Option ((Attr → Attr) × Value)
  | .chmod _ mode => some (fun a => { a with mode := (a.mode &&& 0o770000) ||| mode }, .int 0)
  | .chown _ uid gid => some (fun a => { a with uid := some uid, gid := some gid }, .none)
  | .utimens _ times =>
      let t := times.getD (env.clock 0, env.clock 0)
      some (fun a => { a with atime := t.1, mtime := t.2 }, .none)
  | _ => none

inductive Op.Assigns (env : Env) : Op → (Attr → Attr) → Value → Prop where
  | chmod (p : Str) (mode : Nat) : Op.Assigns env (.chmod p mode)
      (fun a => { a with mode := (a.mode &&& 0o770000) ||| mode }) (.int 0)
  | chown (p : Str) (uid gid : Nat) : Op.Assigns env (.chown p uid gid)
      (fun a => { a with uid := some uid, gid := some gid }) .none
  | utimens (p : Str) (times : Option (Time × Time)) : Op.Assigns env (.utimens p times)
      (fun a => { a with
        atime := (times.getD (env.clock 0, env.clock 0)).1
        mtime := (times.getD (env.clock 0, env.clock 0)).2 }) .none

theorem Op.assigns_cases {op : Op} {env : Env} {f : Attr → Attr} {ret : Value}
    (h : op.assigns env = some (f, ret)) : Op.Assigns env op f ret := by
  cases op with
  | chmod p mode =>
      cases h
      exact .chmod p mode
  | chown p uid gid =>
      cases h
      exact .chown p uid gid
  | utimens p times =>
      cases h
      exact .utimens p times
  | _ => cases h

/-- A call on the directory or a file of a session that exists. -/
def Session.step (s : Session) (op : Op) (env : Env) (apiKey : Bool) (fd : Nat)
    (k : Option Special) : Option Session × Result :=
  match op.assigns env with
  | some (f, ret) => (some (s.updateAttr k f), .ok ret)
  | none =>
    match op, k with
    | .getattr _, k => (some s, .ok (.attr (s.attr k)))
    | .readdir _, none => (some s, .ok (.names (State.dots + specialNames.toFinset.val)))
    | .rmdir _, none => (none, .ok (.int 0))
    | .read _ size offset, some k =>
        (some s, .ok (.bytes (((s.data k).drop offset).take size)))
    | .truncate _ length, some k =>
        (some ((s.setData k ((s.data k).take length)).updateAttr (some k)
          fun a => { a with size := some length }), .ok (.int 0))
    | .write _ data offset, some .input =>
        (some (s.write apiKey data offset env), .ok (.int data.length))
    | op, _ => (some s, op.fixed fd)

def Op.inSession (op : Op) (env : Env) (apiKey : Bool) (fd : Nat) (k : Option Special) :
    Option Session → Option Session × Result
  | some s => s.step op env apiKey fd k
  | none =>
    match op, k with
    | .mkdir _ mode, none => (some (.fresh mode (env.clock 0)), .ok (.int 0))
    | op, _ => (none, op.fixed fd)

def Tree.atRoot (A : Tree) (op : Op) (env : Env) : Tree × Result :=
  match op.assigns env with
  | some (f, ret) => ({ A with root := f A.root }, .ok ret)
  | none =>
    match op with
    | .getattr _ => (A, .ok (.attr A.root))
    | .readdir _ => (A, .ok (.names (State.dots + A.names.val.map (·.1))))
    | op => (A, op.fixed A.fd)

def Op.opens : Op → Nat
  | .openFile _ => 1
  | _ => 0

def Tree.apply (A : Tree) (env : Env) (op : Op) : Tree × Result :=
  let r := match nodeOf op.path with
    | none => (A, op.fixed A.fd)
    | some .root => A.atRoot op env
    | some (.inside n k) =>
      let r := op.inSession env A.apiKey A.fd k (A.sessions n)
      (A.put n r.1, r.2)
  ({ r.1 with fd := r.1.fd + op.opens }, r.2)

end OShm.Gptfs
