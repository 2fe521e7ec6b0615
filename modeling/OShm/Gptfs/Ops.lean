import Mathlib.Data.Finset.Basic
import Mathlib.Data.Finset.Image
import OShm.Lib.Transition
import OShm.Gptfs.Path

/-! # The operations of GPTfs

The class keeps four dictionaries and sets that its methods update one by one. A Python
set is a `Finset`; a loop over one runs in no particular order. An operation returns a
value or raises, and keeps what it has changed by then.
-/

namespace OShm.Gptfs

open OShm.Lib OShm.Lib.PathString

abbrev Bytes := List UInt8
abbrev Time := Nat

def eperm : Nat := 1
def enoent : Nat := 2

def sIfmt : Nat := 0o170000
def sIfdir : Nat := 0o040000
def sIfreg : Nat := 0o100000
def sIflnk : Nat := 0o120000

/-- `stat.S_IFMT`. -/
def fileType (mode : Nat) : Nat := mode &&& sIfmt

/-- The attributes of one entry of `files`. The root has no size, and only `chown` gives
an owner. -/
structure Attr where
  mode : Nat
  nlink : Nat
  size : Option Nat
  ctime : Time
  mtime : Time
  atime : Time
  uid : Option Nat
  gid : Option Nat
  deriving DecidableEq

@[ext] structure State where
  files : Dict Str Attr
  data : Dict Str Bytes
  fd : Nat
  /-- `self.api_key` is there and not empty. -/
  apiKey : Bool
  directories : Finset Str
  dirFiles : Dict Str (Finset Str)

/-- How the `try` block of `_call_gpt_api` ends, with texts in UTF-8. -/
inductive Chat where
  | content (message : Bytes)
  | raised (text : Bytes)
  /-- An exception whose text cannot be encoded; `text` is that of the encoding error. -/
  | unencodable (text : Bytes)

/-- What an operation gets from outside: the readings of `time.time()` in the order they
are taken, the answer of the chat service to a prompt, and the UTF-8 text of `repr`. -/
structure Env where
  clock : Nat → Time
  chat : Bytes → Chat
  reprText : Str → Bytes

inductive PyExc where
  | fuseOSError (errno : Nat)
  | keyError
  | unicodeDecodeError
  deriving DecidableEq

inductive Value where
  | none
  | int (n : Nat)
  | fd (n : Nat)
  | text (t : Str)
  | bytes (b : Bytes)
  | attr (a : Attr)
  | names (m : Multiset Str)
  | statfs (bsize blocks bavail : Nat)
  deriving DecidableEq

abbrev Result := Except PyExc Value

def ascii (s : String) : Bytes := s.toList.map fun c => c.toNat.toUInt8

/-- `_call_gpt_api`; an error is the text of the exception that leaves it. -/
def callGptApi (apiKey : Bool) (chat : Bytes → Chat) (prompt : Bytes) : Except Bytes Bytes :=
  if ¬ apiKey then
    .ok (ascii "Error: API key not found. Please set OPENAI_API_KEY environment variable.")
  else
    match chat prompt with
    | .content message => .ok message
    | .raised text => .ok (ascii "Error: " ++ text)
    | .unencodable text => .error text

def init (apiKey : Bool) (now : Time) : State where
  files := Dict.set (fun _ => none) rootPath
    ⟨sIfdir ||| 0o755, 2, none, now, now, now, none, none⟩
  data := fun _ => none
  fd := 0
  apiKey := apiKey
  directories := {rootPath}
  dirFiles := fun _ => none

namespace State

variable (s : State)

/-- `self.files[path] = a`. -/
def setAttr (path : Str) (a : Attr) : State := { s with files := s.files.set path a }

/-- `self.data[path] = b`. -/
def setData (path : Str) (b : Bytes) : State := { s with data := s.data.set path b }

/-- `self.dir_files[d].add(f)`. -/
def addDirFile (d f : Str) : State :=
  { s with dirFiles := s.dirFiles.set d (insert f ((s.dirFiles d).getD ∅)) }

def updateAttr (path : Str) (f : Attr → Attr) (ret : Value) : State × Result :=
  match s.files path with
  | none => (s, .error .keyError)
  | some a => (s.setAttr path (f a), .ok ret)

def chmod (path : Str) (mode : Nat) : State × Result :=
  s.updateAttr path (fun a => { a with mode := (a.mode &&& 0o770000) ||| mode }) (.int 0)

def chown (path : Str) (uid gid : Nat) : State × Result :=
  s.updateAttr path (fun a => { a with uid := some uid, gid := some gid }) .none

def create (path : Str) (mode : Nat) (env : Env) : State × Result :=
  let path := fullPath path
  if ¬ isSpecialFile path then (s, .error (.fuseOSError eperm))
  else
    let s := s.setAttr path ⟨sIfreg ||| mode, 1, some 0, env.clock 0, env.clock 1, env.clock 2,
      none, none⟩
    let s := { s with fd := s.fd + 1 }
    let s := match getSessionDir path with
      | some d => s.addDirFile d (basename '/' path)
      | none => s
    (s, .ok (.fd s.fd))

def getattr (path : Str) (env : Env) : State × Result :=
  let path := fullPath path
  match s.files path with
  | some a => (s, .ok (.attr a))
  | none =>
    match parts '/' path with
    | [c, f] =>
      if f ∈ specialNames ∧ (s.files ('/' :: c)).isSome then
        let now := env.clock 0
        let a : Attr := ⟨sIfreg ||| 0o666, 1, some ((s.data path).getD []).length, now, now, now,
          none, none⟩
        ((s.setAttr path a).addDirFile ('/' :: c) f, .ok (.attr a))
      else (s, .error (.fuseOSError enoent))
    | _ => (s, .error (.fuseOSError enoent))

/-- The body of the loop of `mkdir`. -/
def addSpecial (path : Str) (now : Time) (f : Str) : State :=
  let filePath := join '/' path f
  let s := s.setAttr filePath ⟨sIfreg ||| 0o666, 1, some 0, now, now, now, none, none⟩
  (s.setData filePath []).addDirFile path f

def mkdir (path : Str) (mode : Nat) (env : Env) : State × Result :=
  let path := fullPath path
  if (parts '/' path).length ≠ 1 ∨ path = rootPath then (s, .error (.fuseOSError eperm))
  else
    let now := env.clock 0
    let s := s.setAttr path ⟨sIfdir ||| mode, 2, some 0, now, now, now, none, none⟩
    let s := { s with directories := insert path s.directories }
    (specialNames.foldl (fun s f => s.addSpecial path now f) s, .ok (.int 0))

def openFile : State × Result := ({ s with fd := s.fd + 1 }, .ok (.fd (s.fd + 1)))

def read (path : Str) (size offset : Nat) : State × Result :=
  let path := fullPath path
  if s.files path = none then (s, .error (.fuseOSError enoent))
  else if isSpecialFile path then
    (s, .ok (.bytes ((((s.data path).getD []).drop offset).take size)))
  else (s, .error (.fuseOSError eperm))

def dots : Multiset Str := {".".toList, "..".toList}

def readdir (path : Str) : State × Result :=
  let path := fullPath path
  if path = rootPath then
    (s, .ok (.names (dots + (s.directories.val.filter (· ≠ rootPath)).map (strip '/'))))
  else if path ∈ s.directories then
    (s, .ok (.names (dots + ((s.dirFiles path).getD ∅).val)))
  else (s, .ok (.names dots))

/-- The text of a byte string, when it is valid UTF-8. -/
def decodeUtf8 (b : Bytes) : Option Str := (String.fromUTF8? ⟨b.toArray⟩).map String.toList

def readlink (path : Str) : State × Result :=
  let content := (s.data path).getD []
  -- Looking a missing key up in a `defaultdict` stores it.
  let s := s.setData path content
  match decodeUtf8 content with
  | some t => (s, .ok (.text t))
  | none => (s, .error .unicodeDecodeError)

/-- The body of the loop of `rmdir`. -/
def dropFile (path f : Str) : State :=
  let filePath := join '/' path f
  { s with files := s.files.del filePath, data := s.data.del filePath }

/-- The loop of `rmdir` does not depend on the order of the set it runs over. -/
instance (path : Str) : RightCommutative fun (s : State) f => s.dropFile path f where
  right_comm s f g := by
    simp only [dropFile, State.mk.injEq, and_true]
    exact ⟨Dict.del_del_comm _ _ _, Dict.del_del_comm _ _ _⟩

def rmdir (path : Str) : State × Result :=
  let path := fullPath path
  if ¬ isSessionDir path then (s, .error (.fuseOSError eperm))
  else
    let s : State := ((s.dirFiles path).getD ∅).val.foldl (fun s f => s.dropFile path f) s
    if path ∉ s.directories then (s, .error .keyError)
    else
      let s := { s with directories := s.directories.erase path }
      if s.dirFiles path = none then (s, .error .keyError)
      else
        let s := { s with dirFiles := s.dirFiles.del path }
        if s.files path = none then (s, .error .keyError)
        else ({ s with files := s.files.del path }, .ok (.int 0))

def truncate (path : Str) (length : Nat) : State × Result :=
  let path := fullPath path
  if ¬ isSpecialFile path then (s, .error (.fuseOSError eperm))
  else
    let s := s.setData path (((s.data path).getD []).take length)
    s.updateAttr path (fun a => { a with size := some length }) (.int 0)

def utimens (path : Str) (times : Option (Time × Time)) (env : Env) : State × Result :=
  let path := fullPath path
  let now := env.clock 0
  let (atime, mtime) := times.getD (now, now)
  match s.files path with
  | some a => (s.setAttr path { a with atime := atime, mtime := mtime }, .ok .none)
  | none => (s, .ok .none)

def written (old data : Bytes) (offset : Nat) : Bytes :=
  if offset = 0 then data
  else
    let old := if offset > old.length then old ++ List.replicate (offset - old.length) 0 else old
    old.take offset ++ data

/-- The `except` branch of `write`; `text` is that of the exception. -/
def writeError (errorPath : Str) (text : Bytes) (env : Env) (ret : Value) : State × Result :=
  let errorMsg := ascii "Error processing request: " ++ text
  (s.setData errorPath errorMsg).updateAttr errorPath
    (fun a => { a with size := some errorMsg.length, mtime := env.clock 1 }) ret

/-- The `try` block of `write`: the call and what is made of the answer. -/
def converse (path sessionDir : Str) (env : Env) (ret : Value) : State × Result :=
  let outputPath := join '/' sessionDir Special.output.name
  let errorPath := join '/' sessionDir Special.error.name
  let s := (s.setData outputPath []).setData errorPath []
  match callGptApi s.apiKey env.chat ((s.data path).getD []) with
  | .error text => s.writeError errorPath text env ret
  | .ok response =>
    let s := s.setData outputPath response
    match s.files outputPath with
    | none => s.writeError errorPath (env.reprText outputPath) env ret
    | some a =>
      (s.setAttr outputPath { a with size := some response.length, mtime := env.clock 1 }, .ok ret)

def write (path : Str) (data : Bytes) (offset : Nat) (env : Env) : State × Result :=
  let path := fullPath path
  match s.files path with
  | none => (s, .error (.fuseOSError enoent))
  | some a =>
    if ¬ "/input".toList.isSuffixOf path then (s, .error (.fuseOSError eperm))
    else
      match getSessionDir path with
      | none => (s, .error (.fuseOSError eperm))
      | some sessionDir =>
        let content := written ((s.data path).getD []) data offset
        let newSize := max (offset + data.length) content.length
        let s := s.setData path content
        let s := s.setAttr path { a with size := some newSize, mtime := env.clock 0 }
        s.converse path sessionDir env (.int data.length)

end State

/-! ## Calls -/

inductive Op where
  | chmod (path : Str) (mode : Nat)
  | chown (path : Str) (uid gid : Nat)
  | create (path : Str) (mode : Nat)
  | getattr (path : Str)
  | getxattr (path : Str)
  | listxattr (path : Str)
  | mkdir (path : Str) (mode : Nat)
  | openFile (path : Str)
  | read (path : Str) (size offset : Nat)
  | readdir (path : Str)
  | readlink (path : Str)
  | removexattr (path : Str)
  | rename (old new : Str)
  | rmdir (path : Str)
  | setxattr (path : Str)
  | statfs (path : Str)
  | symlink (target source : Str)
  | truncate (path : Str) (length : Nat)
  | unlink (path : Str)
  | utimens (path : Str) (times : Option (Time × Time))
  | lock (path : Str)
  | write (path : Str) (data : Bytes) (offset : Nat)

def Op.path : Op → Str
  | chmod p _ | chown p _ _ | create p _ | getattr p | getxattr p | listxattr p | mkdir p _
  | openFile p | read p _ _ | readdir p | readlink p | removexattr p | rename p _ | rmdir p
  | setxattr p | statfs p | symlink p _ | truncate p _ | unlink p | utimens p _ | lock p
  | write p _ _ => p

def State.apply (s : State) (env : Env) : Op → State × Result
  | .chmod p mode => s.chmod p mode
  | .chown p uid gid => s.chown p uid gid
  | .create p mode => s.create p mode env
  | .getattr p => s.getattr p env
  | .getxattr _ => (s, .ok (.text []))
  | .listxattr _ => (s, .ok (.names 0))
  | .mkdir p mode => s.mkdir p mode env
  | .openFile _ => s.openFile
  | .read p size offset => s.read p size offset
  | .readdir p => s.readdir p
  | .readlink p => s.readlink p
  | .removexattr _ => (s, .ok .none)
  | .rename _ _ => (s, .error (.fuseOSError eperm))
  | .rmdir p => s.rmdir p
  | .setxattr _ => (s, .ok .none)
  | .statfs _ => (s, .ok (.statfs 512 4096 2048))
  | .symlink _ _ => (s, .error (.fuseOSError eperm))
  | .truncate p length => s.truncate p length
  | .unlink _ => (s, .error (.fuseOSError eperm))
  | .utimens p times => s.utimens p times env
  | .lock _ => (s, .ok (.int 0))
  | .write p data offset => s.write p data offset env

/-! ## What FUSE promises -/

/-- The attributes `getattr` would return. -/
def State.stat (s : State) (p : Str) : Option Attr :=
  match (s.getattr p ⟨fun _ => 0, fun _ => .content [], fun _ => []⟩).2 with
  | .ok (.attr a) => some a
  | _ => none

def State.hasType (s : State) (p : Str) (type : Nat) : Bool :=
  (s.stat p).any fun a => fileType a.mode = type

/-- The directory a path is looked up in. -/
def dirname (p : Str) : Str := render '/' (parts '/' p).dropLast

theorem dirname_special (n : Name) (k : Special) :
    dirname (Node.special n k).path = (Node.session n).path := by
  rw [dirname, parts_special]
  simp [render, Node.path]

/-- A name that does not exist yet, in a directory that does. -/
def State.vacant (s : State) (p : Str) : Bool :=
  (s.stat p).isNone && s.hasType (dirname p) sIfdir

/-- Except for the calls that make a name, the path resolves to a node of the kind the call
is for. The mode of `mkdir` has no type bits, and that of `chmod` has none or those of the
node. -/
def State.suits (s : State) : Op → Bool
  | .getattr _ | .symlink _ _ => true
  | .create p _ => s.vacant p
  | .mkdir p mode => s.vacant p && fileType mode = 0
  | .read p _ _ | .truncate p _ | .write p _ _ => s.hasType p sIfreg
  | .readdir p | .rmdir p => s.hasType p sIfdir
  | .readlink p => s.hasType p sIflnk
  | .chmod p mode =>
      (s.stat p).any fun a => fileType mode = 0 ∨ fileType mode = fileType a.mode
  | op => (s.stat op.path).isSome

/-- What FUSE promises of a call. -/
def State.Promised (s : State) (op : Op) : Prop := Normal '/' op.path ∧ s.suits op = true

instance (s : State) (op : Op) : Decidable (s.Promised op) :=
  inferInstanceAs (Decidable (_ ∧ _))

/-- Runs of GPTfs under FUSE: one call at a time, each one promised. -/
def gptfs : System State (Op × Env) (Op × Result) where
  step s a :=
    if s.Promised a.1 then some ((s.apply a.2 a.1).1, a.1, (s.apply a.2 a.1).2) else none

end OShm.Gptfs
