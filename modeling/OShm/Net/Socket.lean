import Mathlib.Algebra.Group.Nat.Defs
import OShm.Kernel.Task

/-! # Sockets of a thread

`__sock_create` and the system calls that hand sockets to user space, with every
exit they have. Hooks, protocol code and allocators answer through outcomes. A
socket object is in the list from `sock_alloc` to its release, so a path that
forgets one would show.
-/

namespace OShm.Net

open OShm.Kernel

def nproto : Int := 46
def sockMax : Int := 11
def pfInet : Int := 2
def pfPacket : Int := 17
def sockPacket : Int := 10
def sockTypeMask : CInt := 0xf
def sockCloexec : CInt := 0x80000
def sockNonblock : CInt := 0x800

structure Sock where
  addr : Addr
  /-- The descriptor `fd_install` bound the file of the socket to. -/
  fd : Option Nat
  /-- `__sock_create` returned it with `kern` 0. -/
  created : Bool
  skPriority : Nat
  deriving DecidableEq, Repr

structure NetState where
  /-- The thread itself. -/
  task : TaskStruct
  others : List TaskStruct
  /-- The socket objects the thread obtained that are not released. -/
  socks : List Sock

def incr (n : Int) : Int := (n + 1).bmod (2 ^ 32)

/-- What `__sock_create` is told along the way. -/
structure CreateOutcome where
  /-- `security_socket_create`, by family. -/
  security : Int → Option Errno
  /-- `sock_alloc`. -/
  sock : Option Addr
  /-- `net_families[family]` is set after `request_module`. -/
  registered : Int → Bool
  /-- `try_module_get(pf->owner)`. -/
  familyModule : Bool
  /-- `pf->create`. -/
  create : Option Errno
  /-- `try_module_get(sock->ops->owner)`. -/
  opsModule : Bool
  postCreate : Option Errno

namespace NetState

def addrs (s : NetState) : List Addr := s.socks.map Sock.addr

def sockAlloc (s : NetState) (a : Addr) : NetState :=
  { s with socks := ⟨a, none, false, 0⟩ :: s.socks }

/-- `sock_release`, and the `sock_close` behind the last `fput` of a socket file. -/
def sockRelease (s : NetState) (a : Addr) : NetState :=
  { s with socks := s.socks.filter fun k => k.addr ≠ a }

def updateSock (s : NetState) (a : Addr) (f : Sock → Sock) : NetState :=
  { s with socks := s.socks.map fun k => if k.addr = a then f k else k }

def updateFd (s : NetState) (fd : Nat) (f : Sock → Sock) : NetState :=
  { s with socks := s.socks.map fun k => if k.fd = some fd then f k else k }

/-- `sock_init_data`: the zeroed `sk_priority` is replaced by a positive level. -/
def initPriority (s : NetState) : Nat :=
  if 0 < s.task.priorityLevel then s.task.priorityLevel.toNat else 0

def sockInitData (s : NetState) (a : Addr) : NetState :=
  s.updateSock a fun k => { k with skPriority := s.initPriority }

def fdInstall (s : NetState) (fd : Nat) (a : Addr) : NetState :=
  s.updateSock a fun k => { k with fd := some fd }

def countSock (s : NetState) (a : Addr) : NetState :=
  { s.updateSock a fun k => { k with created := true } with
    task := { s.task with socketCount := incr s.task.socketCount } }

end NetState

def sockCreate (s : NetState) (family type : Int) (kern : Bool) (o : CreateOutcome) :
    NetState × Except Errno Addr :=
  if family < 0 ∨ nproto ≤ family then (s, .error eafnosupport)
  else if type < 0 ∨ sockMax ≤ type then (s, .error einval)
  else if !kern ∧ 0 < s.task.maxSocketAllowed ∧ s.task.maxSocketAllowed ≤ s.task.socketCount then
    (s, .error emfile)
  else
    let family := if family = pfInet ∧ type = sockPacket then pfPacket else family
    match o.security family with
    | some e => (s, .error e)
    | none =>
        match o.sock with
        | none => (s, .error enfile)
        | some sock =>
            let s := s.sockAlloc sock
            if !o.registered family then (s.sockRelease sock, .error eafnosupport)
            else if !o.familyModule then (s.sockRelease sock, .error eafnosupport)
            else
              match o.create with
              | some e => (s.sockRelease sock, .error e)
              | none =>
                  let s := s.sockInitData sock
                  if !o.opsModule then (s.sockRelease sock, .error eafnosupport)
                  else
                    match o.postCreate with
                    | some e => (s.sockRelease sock, .error e)
                    | none => if kern then (s, .ok sock) else (s.countSock sock, .ok sock)

/-- `sock_alloc_file` releases the socket when it fails. -/
def sockAllocFile (s : NetState) (sock : Addr) (file : Option Errno) : NetState :=
  match file with
  | none => s
  | some _ => s.sockRelease sock

def sockMapFd (s : NetState) (sock : Addr) (fd : Except Errno Nat) (file : Option Errno) :
    NetState × Int :=
  match fd with
  | .error e => (s.sockRelease sock, -e)
  | .ok fd =>
      match file with
      | none => (s.fdInstall fd sock, fd)
      | some e => (sockAllocFile s sock file, -e)

def badTypeFlags (type : CInt) : Bool :=
  type &&& ~~~sockTypeMask &&& ~~~(sockCloexec ||| sockNonblock) != 0

structure SocketOutcome where
  create : CreateOutcome
  fd : Except Errno Nat
  file : Option Errno

def sysSocket (s : NetState) (family type : CInt) (o : SocketOutcome) : NetState × Int :=
  if badTypeFlags type then (s, -einval)
  else
    match sockCreate s family.toInt (type &&& sockTypeMask).toInt false o.create with
    | (s, .error e) => (s, -e)
    | (s, .ok sock) => sockMapFd s sock o.fd o.file

structure PairOutcome where
  fd1 : Except Errno Nat
  fd2 : Except Errno Nat
  /-- The two `put_user` calls fault. -/
  fault1 : Bool
  fault2 : Bool
  create1 : CreateOutcome
  create2 : CreateOutcome
  security : Option Errno
  /-- `sock1->ops->socketpair`. -/
  pair : Option Errno
  file1 : Option Errno
  file2 : Option Errno

def sysSocketpair (s : NetState) (family type : CInt) (o : PairOutcome) : NetState × Int :=
  if badTypeFlags type then (s, -einval)
  else
    match o.fd1, o.fd2 with
    | .error e, _ => (s, -e)
    | .ok _, .error e => (s, -e)
    | .ok fd1, .ok fd2 =>
        if o.fault1 then (s, -efault)
        else if o.fault2 then (s, -efault)
        else
          match sockCreate s family.toInt (type &&& sockTypeMask).toInt false o.create1 with
          | (s, .error e) => (s, -e)
          | (s, .ok sock1) =>
              match sockCreate s family.toInt (type &&& sockTypeMask).toInt false o.create2 with
              | (s, .error e) => (s.sockRelease sock1, -e)
              | (s, .ok sock2) =>
                  match o.security, o.pair, o.file1, o.file2 with
                  | some e, _, _, _ => ((s.sockRelease sock2).sockRelease sock1, -e)
                  | none, some e, _, _ => ((s.sockRelease sock2).sockRelease sock1, -e)
                  | none, none, some e, _ =>
                      ((sockAllocFile s sock1 o.file1).sockRelease sock2, -e)
                  | none, none, none, some e =>
                      ((sockAllocFile s sock2 o.file2).sockRelease sock1, -e)
                  | none, none, none, none => ((s.fdInstall fd1 sock1).fdInstall fd2 sock2, 0)

structure AcceptOutcome where
  /-- `fdget`, and whether the file is a socket. -/
  listener : Option Bool
  newfd : Except Errno Nat
  sock : Option Addr
  file : Option Errno
  security : Option Errno
  /-- `sock->ops->accept`. -/
  accept : Option Errno
  /-- What is reported about the peer, when it is asked for. -/
  upeer : Bool
  getnameFails : Bool
  moveAddr : Option Errno
  /-- `sk_priority` of the connection the protocol hands over. -/
  skPriority : Nat

/-- The error `do_accept` returns once the file of the new socket exists. -/
def acceptError (o : AcceptOutcome) : Option Errno :=
  match o.security with
  | some e => some e
  | none =>
      match o.accept with
      | some e => some e
      | none =>
          if o.upeer then (if o.getnameFails then some econnaborted else o.moveAddr) else none

def doAccept (s : NetState) (isSocket : Bool) (o : AcceptOutcome) :
    NetState × Except Errno Addr :=
  if !isSocket then (s, .error enotsock)
  else
    match o.sock with
    | none => (s, .error enfile)
    | some sock =>
        let s := s.sockAlloc sock
        match o.file with
        | some e => (sockAllocFile s sock o.file, .error e)
        | none =>
            match acceptError o with
            | some e => (s.sockRelease sock, .error e)
            | none => (s.updateSock sock fun k => { k with skPriority := o.skPriority }, .ok sock)

def sysAccept4 (s : NetState) (flags : CInt) (o : AcceptOutcome) : NetState × Int :=
  match o.listener with
  | none => (s, -ebadf)
  | some isSocket =>
      if flags &&& ~~~(sockCloexec ||| sockNonblock) != 0 then (s, -einval)
      else
        match o.newfd with
        | .error e => (s, -e)
        | .ok newfd =>
            match doAccept s isSocket o with
            | (s, .error e) => (s, -e)
            | (s, .ok sock) => (s.fdInstall newfd sock, newfd)

/-- The file of each descriptor has no other reference. -/
def sysClose (s : NetState) (fd : Nat) : NetState × Int :=
  if s.socks.any fun k => k.fd = some fd then
    ({ s with socks := s.socks.filter fun k => k.fd ≠ some fd }, 0)
  else (s, -ebadf)

structure PriorityOutcome where
  /-- `security_socket_setsockopt`. -/
  security : Option Errno
  /-- `copy_from_sockptr` faults. -/
  fault : Bool
  /-- `ns_capable(sock_net(sk)->user_ns, CAP_NET_ADMIN)`. -/
  capNetAdmin : Bool

def sysSetPriority (s : NetState) (fd : Nat) (val : CInt) (optlen : Int) (o : PriorityOutcome) :
    NetState × Int :=
  if optlen < 0 then (s, -einval)
  else if !s.socks.any fun k => k.fd = some fd then (s, -ebadf)
  else
    match o.security with
    | some e => (s, -e)
    | none =>
        if optlen < 4 then (s, -einval)
        else if o.fault then (s, -efault)
        else if (0 ≤ val.toInt ∧ val.toInt ≤ 6) ∨ o.capNetAdmin then
          (s.updateFd fd fun k => { k with skPriority := val.toNat }, 0)
        else (s, -eperm)

end OShm.Net
