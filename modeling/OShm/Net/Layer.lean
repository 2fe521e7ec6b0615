import OShm.Lib.RefCount
import OShm.Lib.Transition

/-! # Sockets, their files and their modules

A descriptor refers to a file, the file to a socket, and the operations of the socket lie in a
module that may be unloaded when nobody refers to it. `socket`, `socketpair`, `accept4` and
`close` build and take down these chains step by step, in any number of threads that share
descriptor tables, while modules come and go. What a call has obtained and not yet passed on is
kept by its place in the code. Checks, hooks and allocators answer through the actions; the
counters and priorities of a thread are in `OShm.Net.Socket`.
-/

namespace OShm.Net

open OShm.Lib

/-- What is counted, or exists once and is passed on. -/
inductive Res where
  | module (m : Nat)
  | file (f : Nat)
  | sock (a : Nat)
  /-- A reserved number of a descriptor table. -/
  | fd (tab n : Nat)
  deriving DecidableEq, Repr

inductive Holder where
  | thread (t : Nat)
  | sock (a : Nat)
  | file (f : Nat)
  | entry (tab n : Nat)
  deriving DecidableEq, Repr

structure SockFile where
  sock : Nat
  /-- `f_count`. -/
  count : Nat
  deriving DecidableEq, Repr

inductive FdEntry where
  | reserved
  | file (f : Nat)
  deriving DecidableEq, Repr

/-- Why `__sock_create` was called, and what its caller already has. -/
inductive Purpose where
  | socket
  | first (family fd1 fd2 : Nat)
  | second (fd1 fd2 sock1 : Nat)
  deriving DecidableEq, Repr

/-- One release on the way out of a call that failed. -/
inductive Give where
  /-- `sock_release`. -/
  | sock (a : Nat)
  /-- `put_unused_fd`. -/
  | fd (n : Nat)
  /-- `fput` and `fdput`. -/
  | file (f : Nat)
  deriving DecidableEq, Repr

/-- The place of a thread in a call, before the step that the constructor names. -/
inductive NetPc where
  | idle
  -- `__sock_create`
  | sockAlloc (p : Purpose) (family : Nat)
  | familyGet (p : Purpose) (family a : Nat)
  | pfCreate (p : Purpose) (a m : Nat)
  /-- `pf->create` has stored operations of the module `ops`. -/
  | opsGet (p : Purpose) (a m ops : Nat)
  | familyPut (p : Purpose) (a m : Nat)
  | postCreate (p : Purpose) (a : Nat)
  /-- The label `out_module_put`. -/
  | outModulePut (p : Purpose) (a m : Nat)
  -- `sock_map_fd`
  | mapFd (a : Nat)
  | mapFile (a fd : Nat)
  | fdInstall (fd f : Nat)
  -- `__sys_socketpair`
  | pairFd1 (family : Nat)
  | pairFd2 (family fd1 : Nat)
  | pairCall (fd1 fd2 a1 a2 : Nat)
  | pairFile1 (fd1 fd2 a1 a2 : Nat)
  | pairFile2 (fd1 fd2 f1 a2 : Nat)
  | pairInstall (fd1 fd2 f1 f2 : Nat)
  -- `__sys_accept4` and `do_accept`
  | acceptFd (l : Nat)
  | acceptAlloc (l fd : Nat)
  | acceptGet (l fd a : Nat)
  | acceptFile (l fd a : Nat)
  | acceptCall (l fd f : Nat)
  | acceptInstall (l fd f : Nat)
  | unwind (gives : List Give)
  deriving DecidableEq, Repr

structure Layer where
  refcnt : Nat → Nat
  /-- The module is loaded and not going. -/
  live : Nat → Bool
  /-- The module of `net_families[family]`. -/
  families : Nat → Option Nat
  /-- The sockets, each with the module of its `ops`. -/
  socks : Nat → Option (Option Nat)
  files : Nat → Option SockFile
  /-- The descriptor tables. -/
  fds : Nat → Nat → Option FdEntry
  /-- The table of each thread. -/
  tab : Nat → Nat
  pc : Nat → NetPc
  /-- Code of a module that is gone was called, or an object that is gone was used. -/
  fault : Bool

/-- What the step is told: whether it succeeds, the address or number it gets, and the module of
the operations that `pf->create` stores. -/
structure NetAnswer where
  ok : Bool
  new : Nat
  ops : Nat
  deriving DecidableEq, Repr

inductive LayerAction where
  | socket (t family : Nat)
  | socketpair (t family : Nat)
  | accept (t fd : Nat)
  | close (t fd : Nat)
  | dup (t fd new : Nat)
  /-- The next step of the call that the thread is in. -/
  | next (t : Nat) (ans : NetAnswer)
  /-- `sock_close` for a file without references. -/
  | release (f : Nat)
  | load (m : Nat)
  | unload (m : Nat)
  | sockRegister (family m : Nat)
  | sockUnregister (family : Nat)
  deriving DecidableEq, Repr

namespace Purpose

/-- What the caller of a `__sock_create` that failed gives back. -/
def gives : Purpose → List Give
  | .socket => []
  | .first _ fd1 fd2 => [.fd fd2, .fd fd1]
  | .second fd1 fd2 sock1 => [.sock sock1, .fd fd2, .fd fd1]

def resume (p : Purpose) (a : Nat) : NetPc :=
  match p with
  | .socket => .mapFd a
  | .first family fd1 fd2 => .sockAlloc (.second fd1 fd2 a) family
  | .second fd1 fd2 sock1 => .pairCall fd1 fd2 sock1 a

end Purpose

namespace Layer

def empty (tab : Nat → Nat) : Layer where
  refcnt _ := 0
  live _ := false
  families _ := none
  socks _ := none
  files _ := none
  fds _ _ := none
  tab := tab
  pc _ := .idle
  fault := false

def setPc (s : Layer) (t : Nat) (p : NetPc) : Layer :=
  { s with pc := Function.update s.pc t p }

def moduleGet (s : Layer) (m : Nat) : Layer :=
  { s with refcnt := Function.update s.refcnt m (s.refcnt m + 1) }

/-- `module_put`; below zero the kernel warns. -/
def modulePut (s : Layer) (m : Nat) : Layer :=
  if s.refcnt m = 0 then { s with fault := true }
  else { s with refcnt := Function.update s.refcnt m (s.refcnt m - 1) }

def callModule (s : Layer) (m : Nat) : Layer := { s with fault := s.fault || !s.live m }

def setSock (s : Layer) (a : Nat) (o : Option (Option Nat)) : Layer :=
  { s with socks := Function.update s.socks a o }

def setFile (s : Layer) (f : Nat) (o : Option SockFile) : Layer :=
  { s with files := Function.update s.files f o }

def setFd (s : Layer) (tab n : Nat) (o : Option FdEntry) : Layer :=
  { s with fds := Function.update s.fds tab (Function.update (s.fds tab) n o) }

def sockRelease (s : Layer) (a : Nat) : Layer :=
  match s.socks a with
  | none => { s with fault := true }
  | some none => s.setSock a none
  | some (some m) => ((s.callModule m).setSock a none).modulePut m

/-- A call through `sock->ops`. -/
def callOps (s : Layer) (a : Nat) : Layer :=
  match s.socks a with
  | some (some m) => s.callModule m
  | _ => { s with fault := true }

def sockOf (s : Layer) (f : Nat) : Option Nat := (s.files f).map SockFile.sock

/-- `fput` without the work it leaves for later. -/
def fput (s : Layer) (f : Nat) : Layer :=
  match s.files f with
  | some ⟨a, n + 1⟩ => s.setFile f (some ⟨a, n⟩)
  | _ => { s with fault := true }

def getFile (s : Layer) (f : Nat) : Layer :=
  match s.files f with
  | some ⟨a, n⟩ => s.setFile f (some ⟨a, n + 1⟩)
  | none => { s with fault := true }

def give (s : Layer) (tab : Nat) : Give → Layer
  | .sock a => s.sockRelease a
  | .fd n => s.setFd tab n none
  | .file f => s.fput f

/-- The step of `t` from a place in the code. -/
def micro (s : Layer) (t : Nat) (ans : NetAnswer) : NetPc → Option Layer
  | .idle => none
  | .sockAlloc p family =>
      if ans.ok then
        if (s.socks ans.new).isNone then
          some ((s.setSock ans.new (some none)).setPc t (.familyGet p family ans.new))
        else none
      else some (s.setPc t (.unwind p.gives))
  | .familyGet p family a =>
      match s.families family with
      | none => some (s.setPc t (.unwind (.sock a :: p.gives)))
      | some m =>
          if s.live m then some ((s.moduleGet m).setPc t (.pfCreate p a m))
          else some (s.setPc t (.unwind (.sock a :: p.gives)))
  | .pfCreate p a m =>
      if ans.ok then some ((s.callModule m).setPc t (.opsGet p a m ans.ops))
      else some ((s.callModule m).setPc t (.outModulePut p a m))
  | .opsGet p a m ops =>
      if s.live ops then
        some (((s.moduleGet ops).setSock a (some (some ops))).setPc t (.familyPut p a m))
      else some (s.setPc t (.outModulePut p a m))
  | .familyPut p a m => some ((s.modulePut m).setPc t (.postCreate p a))
  | .postCreate p a =>
      if ans.ok then some (s.setPc t (p.resume a))
      else some (s.setPc t (.unwind (.sock a :: p.gives)))
  | .outModulePut p a m => some ((s.modulePut m).setPc t (.unwind (.sock a :: p.gives)))
  | .mapFd a =>
      if ans.ok then
        if (s.fds (s.tab t) ans.new).isNone then
          some ((s.setFd (s.tab t) ans.new (some .reserved)).setPc t (.mapFile a ans.new))
        else none
      else some (s.setPc t (.unwind [.sock a]))
  | .mapFile a fd =>
      if ans.ok then
        if (s.files ans.new).isNone then
          some ((s.setFile ans.new (some ⟨a, 1⟩)).setPc t (.fdInstall fd ans.new))
        else none
      else some (s.setPc t (.unwind [.sock a, .fd fd]))
  | .fdInstall fd f => some ((s.setFd (s.tab t) fd (some (.file f))).setPc t .idle)
  | .pairFd1 family =>
      if ans.ok then
        if (s.fds (s.tab t) ans.new).isNone then
          some ((s.setFd (s.tab t) ans.new (some .reserved)).setPc t (.pairFd2 family ans.new))
        else none
      else some (s.setPc t .idle)
  | .pairFd2 family fd1 =>
      if ans.ok then
        if (s.fds (s.tab t) ans.new).isNone then
          some ((s.setFd (s.tab t) ans.new (some .reserved)).setPc t
            (.sockAlloc (.first family fd1 ans.new) family))
        else none
      else some (s.setPc t (.unwind [.fd fd1]))
  | .pairCall fd1 fd2 a1 a2 =>
      let s := s.callOps a1
      if ans.ok then some (s.setPc t (.pairFile1 fd1 fd2 a1 a2))
      else some (s.setPc t (.unwind [.sock a2, .sock a1, .fd fd2, .fd fd1]))
  | .pairFile1 fd1 fd2 a1 a2 =>
      if ans.ok then
        if (s.files ans.new).isNone then
          some ((s.setFile ans.new (some ⟨a1, 1⟩)).setPc t (.pairFile2 fd1 fd2 ans.new a2))
        else none
      else some (s.setPc t (.unwind [.sock a1, .sock a2, .fd fd2, .fd fd1]))
  | .pairFile2 fd1 fd2 f1 a2 =>
      if ans.ok then
        if (s.files ans.new).isNone then
          some ((s.setFile ans.new (some ⟨a2, 1⟩)).setPc t (.pairInstall fd1 fd2 f1 ans.new))
        else none
      else some (s.setPc t (.unwind [.sock a2, .file f1, .fd fd2, .fd fd1]))
  | .pairInstall fd1 fd2 f1 f2 =>
      some ((s.setFd (s.tab t) fd1 (some (.file f1))).setPc t (.fdInstall fd2 f2))
  | .acceptFd l =>
      if ans.ok then
        if (s.fds (s.tab t) ans.new).isNone then
          some ((s.setFd (s.tab t) ans.new (some .reserved)).setPc t (.acceptAlloc l ans.new))
        else none
      else some (s.setPc t (.unwind [.file l]))
  | .acceptAlloc l fd =>
      if ans.ok then
        if (s.socks ans.new).isNone then
          some ((s.setSock ans.new (some none)).setPc t (.acceptGet l fd ans.new))
        else none
      else some (s.setPc t (.unwind [.fd fd, .file l]))
  | .acceptGet l fd a =>
      -- `__module_get` does not look whether the module is going
      match ((s.sockOf l).bind s.socks).join with
      | none => some ({ s with fault := true }.setPc t (.unwind [.sock a, .fd fd, .file l]))
      | some m =>
          some ((((s.callModule m).moduleGet m).setSock a (some (some m))).setPc t
            (.acceptFile l fd a))
  | .acceptFile l fd a =>
      if ans.ok then
        if (s.files ans.new).isNone then
          some ((s.setFile ans.new (some ⟨a, 1⟩)).setPc t (.acceptCall l fd ans.new))
        else none
      else some (s.setPc t (.unwind [.sock a, .fd fd, .file l]))
  | .acceptCall l fd f =>
      match s.sockOf l with
      | none => some ({ s with fault := true }.setPc t (.unwind [.file f, .fd fd, .file l]))
      | some a =>
          let s := s.callOps a
          if ans.ok then some (s.setPc t (.acceptInstall l fd f))
          else some (s.setPc t (.unwind [.file f, .fd fd, .file l]))
  | .acceptInstall l fd f =>
      some ((s.setFd (s.tab t) fd (some (.file f))).setPc t (.unwind [.file l]))
  | .unwind [] => some (s.setPc t .idle)
  | .unwind (g :: gs) => some ((s.give (s.tab t) g).setPc t (.unwind gs))

def step (s : Layer) : LayerAction → Option (Layer × Unit)
  | .socket t family =>
      if s.pc t = .idle then some (s.setPc t (.sockAlloc .socket family), ()) else none
  | .socketpair t family =>
      if s.pc t = .idle then some (s.setPc t (.pairFd1 family), ()) else none
  | .accept t fd =>
      if s.pc t = .idle then
        match s.fds (s.tab t) fd with
        | some (.file l) => some ((s.getFile l).setPc t (.acceptFd l), ())
        | _ => none
      else none
  | .close t fd =>
      if s.pc t = .idle then
        match s.fds (s.tab t) fd with
        | some (.file f) => some ((s.setFd (s.tab t) fd none).fput f, ())
        | _ => none
      else none
  | .dup t fd new =>
      if s.pc t = .idle then
        match s.fds (s.tab t) fd, s.fds (s.tab t) new with
        | some (.file f), none => some ((s.getFile f).setFd (s.tab t) new (some (.file f)), ())
        | _, _ => none
      else none
  | .next t ans => (s.micro t ans (s.pc t)).map fun s => (s, ())
  | .release f =>
      match s.files f with
      | some ⟨a, 0⟩ => some ((s.sockRelease a).setFile f none, ())
      | _ => none
  | .load m =>
      if s.refcnt m = 0 then some ({ s with live := Function.update s.live m true }, ()) else none
  | .unload m =>
      if s.refcnt m = 0 then some ({ s with live := Function.update s.live m false }, ()) else none
  | .sockRegister family m =>
      match s.families family with
      | some _ => none
      | none =>
          if s.live m then
            some ({ s with families := Function.update s.families family (some m) }, ())
          else none
  | .sockUnregister family =>
      some ({ s with families := Function.update s.families family none }, ())

end Layer

def layer : System Layer LayerAction Unit := ⟨Layer.step⟩

end OShm.Net
