import OShm.Lib.Transition
import OShm.Net.Attrs
import OShm.Net.Socket

/-! # Runs of one thread

A run interleaves the socket calls of the thread with changes of its attributes by
any task. An action is enabled when the objects and descriptors its outcome hands
out are not in use. Each call has one of a few effects, whatever stage it fails at.
-/

namespace OShm.Net

open OShm.Lib OShm.Kernel

/-- The largest value of `sysctl_nr_open`, which bounds every descriptor. -/
def nrOpenMax : Nat := 2147483584

inductive NetAction where
  | socket (family type : CInt) (o : SocketOutcome)
  | socketpair (family type : CInt) (o : PairOutcome)
  | accept4 (flags : CInt) (o : AcceptOutcome)
  | close (fd : Nat)
  | setThreadSocketAttrs (cur : TaskStruct) (capSysResource : Bool)
      (pid maxSockets priorityLevel : Int) (flags : Nat)
  | setPriority (fd : Nat) (val : CInt) (optlen : Int) (o : PriorityOutcome)

namespace NetState

def fds (s : NetState) : List Nat := s.socks.filterMap Sock.fd

def freshSock (s : NetState) : Option Addr → Bool
  | none => true
  | some a => a ∉ s.addrs

def freshFd (s : NetState) : Except Errno Nat → Bool
  | .error _ => true
  | .ok n => n < nrOpenMax ∧ n ∉ s.fds

/-- The allocators and `get_unused_fd_flags` hand out what is not in use. -/
def supplies (s : NetState) : NetAction → Bool
  | .socket _ _ o => s.freshSock o.create.sock && s.freshFd o.fd
  | .socketpair _ _ o =>
      s.freshSock o.create1.sock && s.freshSock o.create2.sock && s.freshFd o.fd1 &&
        s.freshFd o.fd2 && (o.create1.sock.isNone || o.create1.sock != o.create2.sock) &&
        (match o.fd1, o.fd2 with
          | .ok n, .ok m => n != m
          | _, _ => true)
  | .accept4 _ o => s.freshSock o.sock && s.freshFd o.newfd
  | .setThreadSocketAttrs cur _ _ _ _ _ => cur ∈ s.task :: s.others
  | _ => true

def exec (s : NetState) : NetAction → NetState × Int
  | .socket family type o => sysSocket s family type o
  | .socketpair family type o => sysSocketpair s family type o
  | .accept4 flags o => sysAccept4 s flags o
  | .close fd => sysClose s fd
  | .setThreadSocketAttrs cur cap pid maxSockets priorityLevel flags =>
      match setThreadSocketAttrs (s.task :: s.others) cur cap pid maxSockets priorityLevel
          flags with
      | (task :: others, ret) => ({ s with task := task, others := others }, ret)
      | ([], ret) => (s, ret)
  | .setPriority fd val optlen o => sysSetPriority s fd val optlen o

end NetState

/-- Each step shows the return value of its call. -/
def netThread : System NetState NetAction Int :=
  ⟨fun s a => if s.supplies a then some (s.exec a) else none⟩

/-! ## What `__sock_create` does -/

/-- The checks of `__sock_create` for a user socket, without the object. -/
def createCheck (t : TaskStruct) (family type : Int) (o : CreateOutcome) : Except Errno Addr :=
  if family < 0 ∨ nproto ≤ family then .error eafnosupport
  else if type < 0 ∨ sockMax ≤ type then .error einval
  else if 0 < t.maxSocketAllowed ∧ t.maxSocketAllowed ≤ t.socketCount then .error emfile
  else
    let family := if family = pfInet ∧ type = sockPacket then pfPacket else family
    match o.security family, o.sock with
    | some e, _ => .error e
    | none, none => .error enfile
    | none, some sock =>
        if !o.registered family || !o.familyModule then .error eafnosupport
        else
          match o.create with
          | some e => .error e
          | none =>
              if !o.opsModule then .error eafnosupport
              else
                match o.postCreate with
                | some e => .error e
                | none => .ok sock

namespace NetState

def bump (s : NetState) : NetState :=
  { s with task := { s.task with socketCount := incr s.task.socketCount } }

def withSock (s : NetState) (a : Addr) (fd : Option Nat) : NetState :=
  { s.bump with socks := ⟨a, fd, true, s.initPriority⟩ :: s.socks }

variable {s : NetState} {a b : Addr}

theorem filter_fresh (h : a ∉ s.addrs) : (s.socks.filter fun k => k.addr ≠ a) = s.socks := by
  refine List.filter_eq_self.mpr ?_
  intro k hk
  have hne : k.addr ≠ a := by
    rintro rfl
    exact h (List.mem_map.mpr ⟨k, hk, rfl⟩)
  simpa using hne

theorem map_fresh (h : a ∉ s.addrs) (f : Sock → Sock) :
    (s.socks.map fun k => if k.addr = a then f k else k) = s.socks := by
  refine (List.map_congr_left ?_).trans s.socks.map_id
  intro k hk
  have hne : k.addr ≠ a := by
    rintro rfl
    exact h (List.mem_map.mpr ⟨k, hk, rfl⟩)
  simp [hne]

theorem sockAlloc_release (h : a ∉ s.addrs) : (s.sockAlloc a).sockRelease a = s := by
  simp only [sockAlloc, sockRelease, ne_eq, not_true, decide_false, Bool.false_eq_true,
    not_false_eq_true, List.filter_cons_of_neg]
  exact congrArg (fun l => { s with socks := l }) (filter_fresh h)

theorem sockInitData_release (h : a ∉ s.addrs) :
    ((s.sockAlloc a).sockInitData a).sockRelease a = s := by
  simp only [sockAlloc, sockInitData, updateSock, sockRelease, List.map_cons, if_true,
    map_fresh h, ne_eq, not_true, decide_false, Bool.false_eq_true, not_false_eq_true,
    List.filter_cons_of_neg]
  exact congrArg (fun l => { s with socks := l }) (filter_fresh h)

theorem countSock_alloc (h : a ∉ s.addrs) :
    ((s.sockAlloc a).sockInitData a).countSock a = s.withSock a none := by
  simp [sockAlloc, sockInitData, updateSock, countSock, withSock, bump, map_fresh h]
  rfl

theorem sockRelease_comm (s : NetState) (a b : Addr) :
    (s.sockRelease a).sockRelease b = (s.sockRelease b).sockRelease a := by
  simp only [sockRelease, List.filter_filter]
  congr 2
  funext k
  exact Bool.and_comm _ _

theorem withSock_release (h : a ∉ s.addrs) (fd : Option Nat) :
    (s.withSock a fd).sockRelease a = s.bump := by
  simp only [withSock, sockRelease, ne_eq, not_true, decide_false, Bool.false_eq_true,
    not_false_eq_true, List.filter_cons_of_neg]
  exact congrArg (fun l => { s.bump with socks := l }) (filter_fresh h)

theorem bump_release (h : a ∉ s.addrs) (fd : Option Nat) :
    (s.withSock a fd).bump.sockRelease a = s.bump.bump :=
  congrArg bump (withSock_release h fd)

theorem withSock_addrs (s : NetState) (a : Addr) (fd : Option Nat) :
    (s.withSock a fd).addrs = a :: s.addrs := rfl

theorem withSock_install_other (h : b ≠ a) (s : NetState) (n : Nat) :
    (s.withSock b none).fdInstall n a = (s.fdInstall n a).withSock b none := by
  simp [withSock, fdInstall, updateSock, bump, initPriority, h]

theorem withSock_install (h : a ∉ s.addrs) (n : Nat) :
    (s.withSock a none).fdInstall n a = s.withSock a (some n) := by
  simp [withSock, fdInstall, updateSock, bump, map_fresh h]

end NetState

theorem sockCreate_eq {s : NetState} {family type : Int} {o : CreateOutcome}
    (hfresh : s.freshSock o.sock = true) :
    sockCreate s family type false o =
      match createCheck s.task family type o with
      | .error e => (s, .error e)
      | .ok a => (s.withSock a none, .ok a) := by
  unfold sockCreate createCheck
  split
  · rfl
  split
  · rfl
  by_cases hlim : 0 < s.task.maxSocketAllowed ∧ s.task.maxSocketAllowed ≤ s.task.socketCount
  · simp [hlim]
  simp only [hlim, Bool.not_false, true_and, if_false]
  generalize (if family = pfInet ∧ type = sockPacket then pfPacket else family) = fam
  cases o.security fam with
  | some e => rfl
  | none =>
      cases hs : o.sock with
      | none => rfl
      | some a =>
          have hfr : a ∉ s.addrs := by simpa [NetState.freshSock, hs] using hfresh
          cases o.registered fam <;> cases o.familyModule <;> cases o.create <;>
            cases o.opsModule <;> cases o.postCreate <;>
            simp [NetState.sockAlloc_release hfr, NetState.sockInitData_release hfr,
              NetState.countSock_alloc hfr]

/-! ## What a step can do -/

/-- What `sock_create` answers to a system call with these arguments. -/
def NetState.check (s : NetState) (family type : CInt) (o : CreateOutcome) : Except Errno Addr :=
  createCheck s.task family.toInt (type &&& sockTypeMask).toInt o

def PairOutcome.early (o : PairOutcome) (type : CInt) : Bool :=
  badTypeFlags type || !o.fd1.isOk || !o.fd2.isOk || o.fault1 || o.fault2

def PairOutcome.late (o : PairOutcome) : Bool :=
  o.security.isSome || o.pair.isSome || o.file1.isSome || o.file2.isSome

def AcceptOutcome.succeeds (o : AcceptOutcome) (flags : CInt) : Bool :=
  o.listener == some true && flags &&& ~~~(sockCloexec ||| sockNonblock) == 0 && o.newfd.isOk &&
    o.sock.isSome && o.file.isNone && (acceptError o).isNone

inductive NetState.Steps (s : NetState) : NetAction → NetState → Prop where
  | socketRefused {f t : CInt} {o : SocketOutcome}
      (h : badTypeFlags t = true ∨ ∃ e, s.check f t o.create = .error e) :
      Steps s (.socket f t o) s
  | socketDropped {f t : CInt} {o : SocketOutcome} {a : Addr} (hflags : badTypeFlags t = false)
      (hc : s.check f t o.create = .ok a) (hlate : o.fd.isOk = false ∨ o.file.isSome = true) :
      Steps s (.socket f t o) s.bump
  | socketOpened {f t : CInt} {o : SocketOutcome} {a : Addr} {n : Nat}
      (hflags : badTypeFlags t = false) (hc : s.check f t o.create = .ok a)
      (hfd : o.fd = .ok n) (hfile : o.file = none) (hn : s.freshFd (.ok n) = true) :
      Steps s (.socket f t o) (s.withSock a (some n))
  | pairRefused {f t : CInt} {o : PairOutcome}
      (h : o.early t = true ∨ ∃ e, s.check f t o.create1 = .error e) :
      Steps s (.socketpair f t o) s
  | pairHalf {f t : CInt} {o : PairOutcome} {a : Addr} {e : Errno} (hearly : o.early t = false)
      (hc₁ : s.check f t o.create1 = .ok a) (hc₂ : s.bump.check f t o.create2 = .error e) :
      Steps s (.socketpair f t o) s.bump
  | pairDropped {f t : CInt} {o : PairOutcome} {a b : Addr} (hearly : o.early t = false)
      (hc₁ : s.check f t o.create1 = .ok a) (hc₂ : s.bump.check f t o.create2 = .ok b)
      (hlate : o.late = true) : Steps s (.socketpair f t o) s.bump.bump
  | pairOpened {f t : CInt} {o : PairOutcome} {a b : Addr} {n m : Nat}
      (hearly : o.early t = false) (hc₁ : s.check f t o.create1 = .ok a)
      (hc₂ : s.bump.check f t o.create2 = .ok b) (hlate : o.late = false)
      (hn : s.freshFd (.ok n) = true) (hm : s.freshFd (.ok m) = true) (hne : n ≠ m) :
      Steps s (.socketpair f t o) ((s.withSock a (some n)).withSock b (some m))
  | acceptRefused {flags : CInt} {o : AcceptOutcome} (h : o.succeeds flags = false) :
      Steps s (.accept4 flags o) s
  | accepted {flags : CInt} {o : AcceptOutcome} {a : Addr} {n : Nat}
      (h : o.succeeds flags = true) (hn : s.freshFd (.ok n) = true) :
      Steps s (.accept4 flags o) { s with socks := ⟨a, some n, false, o.skPriority⟩ :: s.socks }
  | closed {fd : Nat} :
      Steps s (.close fd) { s with socks := s.socks.filter fun k => k.fd ≠ some fd }
  | attrs {cur : TaskStruct} {cap : Bool} {pid maxSockets level : Int} {flags : Nat}
      {task : TaskStruct} {others : List TaskStruct} (h : AttrsChange s.task task) :
      Steps s (.setThreadSocketAttrs cur cap pid maxSockets level flags)
        { s with task := task, others := others }
  | priorityRefused {fd : Nat} {val : CInt} {optlen : Int} {o : PriorityOutcome} :
      Steps s (.setPriority fd val optlen o) s
  | prioritySet {fd : Nat} {val : CInt} {optlen : Int} {o : PriorityOutcome}
      (h : (0 ≤ val.toInt ∧ val.toInt ≤ 6) ∨ o.capNetAdmin = true) :
      Steps s (.setPriority fd val optlen o)
        (s.updateFd fd fun k => { k with skPriority := val.toNat })

theorem createCheck_sock {t : TaskStruct} {family type : Int} {o : CreateOutcome} {a : Addr}
    (h : createCheck t family type o = .ok a) : o.sock = some a := by
  unfold createCheck at h
  split at h
  · simp at h
  split at h
  · simp at h
  split at h
  · simp at h
  generalize (if family = pfInet ∧ type = sockPacket then pfPacket else family) = fam at h
  cases hsec : o.security fam with
  | some e => simp [hsec] at h
  | none =>
      cases hs : o.sock with
      | none => simp [hsec, hs] at h
      | some b =>
          simp only [hsec, hs] at h
          split at h
          · simp at h
          cases hcr : o.create with
          | some e => simp [hcr] at h
          | none =>
              simp only [hcr] at h
              split at h
              · simp at h
              cases hp : o.postCreate with
              | some e => simp [hp] at h
              | none => simpa [hp] using h

theorem NetState.fresh_of_check {s r : NetState} {f t : CInt} {o : CreateOutcome} {a : Addr}
    (hfresh : s.freshSock o.sock = true) (hc : r.check f t o = .ok a) : a ∉ s.addrs := by
  rw [createCheck_sock hc] at hfresh
  simpa [NetState.freshSock] using hfresh

theorem sysSocket_steps {s : NetState} {f t : CInt} {o : SocketOutcome}
    (hsock : s.freshSock o.create.sock = true) (hfd : s.freshFd o.fd = true) :
    s.Steps (.socket f t o) (sysSocket s f t o).1 := by
  unfold sysSocket
  cases hflags : badTypeFlags t with
  | true => exact .socketRefused (Or.inl hflags)
  | false =>
      simp only [Bool.false_eq_true, if_false, sockCreate_eq hsock]
      cases hc : createCheck s.task f.toInt (t &&& sockTypeMask).toInt o.create with
      | error e => exact .socketRefused (Or.inr ⟨e, hc⟩)
      | ok a =>
          have ha : a ∉ s.addrs := NetState.fresh_of_check hsock hc
          unfold sockMapFd
          cases hn : o.fd with
          | error e =>
              simp only [NetState.withSock_release ha]
              exact .socketDropped hflags hc (Or.inl (by simp [hn, Except.isOk, Except.toBool]))
          | ok n =>
              cases hfile : o.file with
              | some e =>
                  simp only [sockAllocFile, NetState.withSock_release ha]
                  exact .socketDropped hflags hc (Or.inr (by simp [hfile]))
              | none =>
                  simp only [NetState.withSock_install ha]
                  exact .socketOpened hflags hc hn hfile (hn ▸ hfd)

/-- The two releases of a failing `socketpair`, in either order. -/
theorem NetState.pair_release {s : NetState} {a b : Addr} (ha : a ∉ s.addrs)
    (hb : b ∉ (s.withSock a none).addrs) :
    ((((s.withSock a none).withSock b none).sockRelease b).sockRelease a) = s.bump.bump := by
  rw [withSock_release hb, bump_release ha]

theorem NetState.pair_install {s : NetState} {a b : Addr} (ha : a ∉ s.addrs)
    (hb : b ∉ (s.withSock a none).addrs) (n m : Nat) :
    ((((s.withSock a none).withSock b none).fdInstall n a).fdInstall m b) =
      (s.withSock a (some n)).withSock b (some m) := by
  have hne : b ≠ a := fun h => hb (by simp [withSock_addrs, h])
  rw [withSock_install_other hne, withSock_install ha]
  exact withSock_install (s := s.withSock a (some n)) hb m

theorem sysSocketpair_steps {s : NetState} {f t : CInt} {o : PairOutcome}
    (hsup : s.supplies (.socketpair f t o) = true) :
    s.Steps (.socketpair f t o) (sysSocketpair s f t o).1 := by
  simp only [NetState.supplies, Bool.and_eq_true] at hsup
  obtain ⟨⟨⟨⟨⟨hs₁, hs₂⟩, hf₁⟩, hf₂⟩, hsne⟩, hfne⟩ := hsup
  unfold sysSocketpair
  cases hflags : badTypeFlags t with
  | true => exact .pairRefused (Or.inl (by simp [PairOutcome.early, hflags]))
  | false =>
  simp only [Bool.false_eq_true, if_false]
  cases hn : o.fd1 with
  | error e =>
      exact .pairRefused (Or.inl (by simp [PairOutcome.early, hn, Except.isOk, Except.toBool]))
  | ok n =>
  cases hm : o.fd2 with
  | error e =>
      exact .pairRefused (Or.inl (by simp [PairOutcome.early, hm, Except.isOk, Except.toBool]))
  | ok m =>
  cases hp₁ : o.fault1 with
  | true => exact .pairRefused (Or.inl (by simp [PairOutcome.early, hp₁]))
  | false =>
  cases hp₂ : o.fault2 with
  | true => exact .pairRefused (Or.inl (by simp [PairOutcome.early, hp₂]))
  | false =>
  have hearly : o.early t = false := by
    simp [PairOutcome.early, hflags, hn, hm, hp₁, hp₂, Except.isOk, Except.toBool]
  simp only [Bool.false_eq_true, if_false, sockCreate_eq hs₁]
  cases hc₁ : createCheck s.task f.toInt (t &&& sockTypeMask).toInt o.create1 with
  | error e => exact .pairRefused (Or.inr ⟨e, hc₁⟩)
  | ok a =>
  have ha : a ∉ s.addrs := NetState.fresh_of_check hs₁ hc₁
  have hs₂' : (s.withSock a none).freshSock o.create2.sock = true := by
    cases hb : o.create2.sock with
    | none => rfl
    | some b =>
        have hba : b ≠ a := by
          rintro rfl
          simp [createCheck_sock hc₁, hb] at hsne
        simpa [NetState.freshSock, NetState.withSock_addrs, hb, hba] using hs₂
  simp only [sockCreate_eq hs₂']
  cases hc₂ : createCheck (s.withSock a none).task f.toInt (t &&& sockTypeMask).toInt o.create2 with
  | error e =>
      simp only [NetState.withSock_release ha]
      exact .pairHalf hearly hc₁ hc₂
  | ok b =>
  have hb : b ∉ (s.withSock a none).addrs := NetState.fresh_of_check hs₂' hc₂
  have hdrop := NetState.pair_release ha hb
  have hdrop' := (NetState.sockRelease_comm _ a b).trans hdrop
  cases hsec : o.security with
  | some e =>
      simp only [hdrop]
      exact .pairDropped hearly hc₁ hc₂ (by simp [PairOutcome.late, hsec])
  | none =>
  cases hpair : o.pair with
  | some e =>
      simp only [hdrop]
      exact .pairDropped hearly hc₁ hc₂ (by simp [PairOutcome.late, hpair])
  | none =>
  cases hfile₁ : o.file1 with
  | some e =>
      simp only [sockAllocFile, hdrop']
      exact .pairDropped hearly hc₁ hc₂ (by simp [PairOutcome.late, hfile₁])
  | none =>
  cases hfile₂ : o.file2 with
  | some e =>
      simp only [sockAllocFile, hdrop]
      exact .pairDropped hearly hc₁ hc₂ (by simp [PairOutcome.late, hfile₂])
  | none =>
      simp only [NetState.pair_install ha hb]
      refine .pairOpened hearly hc₁ hc₂ ?_ (hn ▸ hf₁) (hm ▸ hf₂) ?_
      · simp [PairOutcome.late, hsec, hpair, hfile₁, hfile₂]
      · simpa [hn, hm] using hfne

theorem sysAccept4_steps {s : NetState} {flags : CInt} {o : AcceptOutcome}
    (hsock : s.freshSock o.sock = true) (hfd : s.freshFd o.newfd = true) :
    s.Steps (.accept4 flags o) (sysAccept4 s flags o).1 := by
  unfold sysAccept4
  cases hlis : o.listener with
  | none => exact .acceptRefused (by simp [AcceptOutcome.succeeds, hlis])
  | some isSocket =>
  by_cases hflags : (flags &&& ~~~(sockCloexec ||| sockNonblock) != 0) = true
  · simp only [hflags, if_true]
    exact .acceptRefused (by simp_all [AcceptOutcome.succeeds])
  simp only [hflags, Bool.false_eq_true, if_false]
  cases hn : o.newfd with
  | error e =>
      exact .acceptRefused (by simp [AcceptOutcome.succeeds, hn, Except.isOk, Except.toBool])
  | ok n =>
  unfold doAccept
  cases isSocket with
  | false => exact .acceptRefused (by simp [AcceptOutcome.succeeds, hlis])
  | true =>
  simp only [Bool.not_true, Bool.false_eq_true, if_false]
  cases hs : o.sock with
  | none => exact .acceptRefused (by simp [AcceptOutcome.succeeds, hs])
  | some a =>
  have ha : a ∉ s.addrs := by simpa [NetState.freshSock, hs] using hsock
  cases hfile : o.file with
  | some e =>
      simp only [sockAllocFile, NetState.sockAlloc_release ha]
      exact .acceptRefused (by simp [AcceptOutcome.succeeds, hfile])
  | none =>
  cases herr : acceptError o with
  | some e =>
      simp only [NetState.sockAlloc_release ha]
      exact .acceptRefused (by simp [AcceptOutcome.succeeds, herr])
  | none =>
      have hend : ((s.sockAlloc a).updateSock a
          fun k => { k with skPriority := o.skPriority }).fdInstall n a =
          { s with socks := ⟨a, some n, false, o.skPriority⟩ :: s.socks } := by
        simp [NetState.sockAlloc, NetState.updateSock, NetState.fdInstall, NetState.map_fresh ha]
      simp only [hend]
      refine .accepted ?_ (hn ▸ hfd)
      simp_all [AcceptOutcome.succeeds, Except.isOk, Except.toBool]

theorem NetState.step_cases {s s' : NetState} {a : NetAction} {ret : Int}
    (h : netThread.step s a = some (s', ret)) : s.Steps a s' := by
  simp only [netThread] at h
  split at h
  · rename_i hsup
    obtain rfl : (s.exec a).1 = s' := congrArg Prod.fst (Option.some.inj h)
    cases a with
    | socket f t o =>
        simp only [NetState.supplies, Bool.and_eq_true] at hsup
        exact sysSocket_steps hsup.1 hsup.2
    | socketpair f t o => exact sysSocketpair_steps hsup
    | accept4 flags o =>
        simp only [NetState.supplies, Bool.and_eq_true] at hsup
        exact sysAccept4_steps hsup.1 hsup.2
    | close fd =>
        simp only [NetState.exec, sysClose]
        split
        · exact .closed
        · rename_i hno
          have hself : (s.socks.filter fun k => k.fd ≠ some fd) = s.socks := by
            refine List.filter_eq_self.mpr ?_
            simpa using hno
          have hstep := @Steps.closed s fd
          rwa [hself] at hstep
    | setThreadSocketAttrs cur cap pid maxSockets level flags =>
        obtain ⟨f, hf, hmap⟩ := setThreadSocketAttrs_map (s.task :: s.others) cur cap pid
          maxSockets level flags
        simp only [NetState.exec]
        cases hr : setThreadSocketAttrs (s.task :: s.others) cur cap pid maxSockets level flags with
        | mk tasks ret =>
            rw [hr] at hmap
            simp only at hmap
            subst hmap
            exact .attrs (hf s.task)
    | setPriority fd val optlen o =>
        simp only [NetState.exec, sysSetPriority]
        split
        · exact .priorityRefused
        split
        · exact .priorityRefused
        split
        · exact .priorityRefused
        split
        · exact .priorityRefused
        split
        · exact .priorityRefused
        split
        · rename_i hval
          exact .prioritySet hval
        · exact .priorityRefused
  · simp at h

end OShm.Net
