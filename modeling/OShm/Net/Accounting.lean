import Mathlib.Data.Finset.Card
import OShm.Net.Thread

/-! # `socket_count` and the sockets that are open

`socket_count` is raised by `__sock_create` and by nothing else. It equals the
number of open sockets in all states of a run exactly when the run releases no
socket that was counted. As a limit it holds as long as no socket is obtained by
`accept4`.
-/

namespace OShm.Net

open OShm.Lib OShm.Kernel

namespace NetState

/-- The sockets from `__sock_create` that are still open. -/
def openCreated (s : NetState) : Nat := s.socks.countP Sock.created

/-- The documented meaning of `socket_count`. -/
def Accounted (s : NetState) : Prop := s.task.socketCount = s.openCreated

instance (s : NetState) : Decidable s.Accounted :=
  inferInstanceAs (Decidable (s.task.socketCount = s.openCreated))

/-- The step releases no socket that was counted: a call that creates one completes,
and none is closed. -/
def KeepsCount (s : NetState) : NetAction → Prop
  | .socket f t o =>
      badTypeFlags t = true ∨ (∃ e, s.check f t o.create = .error e) ∨
        (o.fd.isOk = true ∧ o.file.isSome = false)
  | .socketpair f t o =>
      o.early t = true ∨ (∃ e, s.check f t o.create1 = .error e) ∨
        ((∃ b, s.bump.check f t o.create2 = .ok b) ∧ o.late = false)
  | .close fd => ∀ k ∈ s.socks, k.created = true → k.fd ≠ some fd
  | _ => True

/-- Every socket has a descriptor of its own below the limit of the system. -/
structure Described (s : NetState) : Prop where
  installed : ∀ k ∈ s.socks, k.fd ≠ none
  nodup : s.fds.Nodup
  bound : ∀ n ∈ s.fds, n < nrOpenMax

namespace Described

variable {s : NetState}

theorem openCreated_le (hd : s.Described) : s.openCreated ≤ nrOpenMax := by
  have hsub : s.fds.toFinset ⊆ Finset.range nrOpenMax := by
    intro n hn
    exact Finset.mem_range.mpr (hd.bound n (List.mem_toFinset.mp hn))
  calc s.openCreated ≤ s.socks.countP fun k => k.fd.isSome := by
        refine List.countP_mono_left ?_
        intro k hk _
        exact Option.isSome_iff_ne_none.mpr (hd.installed k hk)
    _ = s.fds.length := List.length_filterMap_eq_countP.symm
    _ = s.fds.toFinset.card := (List.toFinset_card_of_nodup hd.nodup).symm
    _ ≤ (Finset.range nrOpenMax).card := Finset.card_le_card hsub
    _ = nrOpenMax := Finset.card_range nrOpenMax

theorem cons (hd : s.Described) {k : Sock} {n : Nat} (hk : k.fd = some n)
    (hn : s.freshFd (.ok n) = true) (t : TaskStruct) :
    Described { s with task := t, socks := k :: s.socks } := by
  have hfresh : n < nrOpenMax ∧ n ∉ s.fds := by simpa [freshFd] using hn
  have hfds : fds { s with task := t, socks := k :: s.socks } = n :: s.fds :=
    List.filterMap_cons_some hk
  refine ⟨?_, ?_, ?_⟩
  · intro k' hk'
    rcases List.mem_cons.mp hk' with rfl | hk'
    · simp [hk]
    · exact hd.installed k' hk'
  · rw [hfds]
    exact List.nodup_cons.mpr ⟨hfresh.2, hd.nodup⟩
  · rw [hfds]
    exact List.forall_mem_cons.mpr ⟨hfresh.1, hd.bound⟩

theorem filter (hd : s.Described) (p : Sock → Bool) :
    Described { s with socks := s.socks.filter p } := by
  have hsub : (fds { s with socks := s.socks.filter p }).Sublist s.fds :=
    (List.filter_sublist).filterMap Sock.fd
  refine ⟨?_, hd.nodup.sublist hsub, ?_⟩
  · intro k hk
    exact hd.installed k (List.mem_of_mem_filter hk)
  · intro n hn
    exact hd.bound n (hsub.subset hn)

theorem updateFd (hd : s.Described) (fd : Nat) {f : Sock → Sock} (hf : ∀ k, (f k).fd = k.fd) :
    (s.updateFd fd f).Described := by
  have hkeep : ∀ k : Sock, (if k.fd = some fd then f k else k).fd = k.fd := by
    intro k
    split
    · exact hf k
    · rfl
  have hfds : (s.updateFd fd f).fds = s.fds := by
    simp only [fds, NetState.updateFd, List.filterMap_map]
    exact List.filterMap_congr fun k _ => hkeep k
  refine ⟨?_, by rw [hfds]; exact hd.nodup, by rw [hfds]; exact hd.bound⟩
  intro k hk
  obtain ⟨k₀, hk₀, rfl⟩ := List.mem_map.mp hk
  rw [hkeep]
  exact hd.installed k₀ hk₀

theorem step {s' : NetState} {a : NetAction} {ret : Int} (hd : s.Described)
    (h : netThread.step s a = some (s', ret)) : s'.Described := by
  cases step_cases h with
  | socketRefused href => exact hd
  | socketDropped hflags hc hlate => exact ⟨hd.installed, hd.nodup, hd.bound⟩
  | socketOpened hflags hc hfd hfile hn => exact hd.cons rfl hn _
  | pairRefused href => exact hd
  | pairHalf hearly hc₁ hc₂ => exact ⟨hd.installed, hd.nodup, hd.bound⟩
  | pairDropped hearly hc₁ hc₂ hlate => exact ⟨hd.installed, hd.nodup, hd.bound⟩
  | pairOpened hearly hc₁ hc₂ hlate hn hm hne =>
      rename_i a b n m
      have hd₁ : (s.withSock a (some n)).Described := hd.cons rfl hn _
      refine hd₁.cons rfl ?_ _
      have hfresh : m < nrOpenMax ∧ m ∉ s.fds := by simpa [freshFd] using hm
      have hfds : (s.withSock a (some n)).fds = n :: s.fds := List.filterMap_cons_some rfl
      simp [freshFd, hfds, hfresh, hne.symm]
  | acceptRefused href => exact hd
  | accepted hok hn => exact hd.cons rfl hn _
  | closed => exact hd.filter _
  | attrs hch => exact ⟨hd.installed, hd.nodup, hd.bound⟩
  | priorityRefused => exact hd
  | prioritySet hval => exact hd.updateFd _ (fun _ => rfl)

end Described

/-! ## The number of open sockets -/

@[simp] theorem openCreated_withSock (s : NetState) (a : Addr) (fd : Option Nat) :
    (s.withSock a fd).openCreated = s.openCreated + 1 := by
  simp [openCreated, withSock]

@[simp] theorem openCreated_bump (s : NetState) : s.bump.openCreated = s.openCreated := rfl

@[simp] theorem socketCount_bump (s : NetState) :
    s.bump.task.socketCount = incr s.task.socketCount := rfl

@[simp] theorem socketCount_withSock (s : NetState) (a : Addr) (fd : Option Nat) :
    (s.withSock a fd).task.socketCount = incr s.task.socketCount := rfl

end NetState

theorem incr_of_lt {n : Int} (h₀ : 0 ≤ n) (h : n < 2147483647) : incr n = n + 1 := by
  unfold incr
  rw [Int.bmod_eq_of_le] <;> omega

theorem countP_filter_eq_iff {α : Type} {p q : α → Bool} {l : List α} :
    (l.filter q).countP p = l.countP p ↔ ∀ x ∈ l, p x = true → q x = true := by
  induction l with
  | nil => simp
  | cons x l ih =>
      have hle := (List.filter_sublist (p := q) (l := l)).countP_le (p := p)
      cases hp : p x <;> cases hq : q x <;> simp [hp, hq, ih]
      omega

namespace NetState

theorem openCreated_updateFd (s : NetState) (fd : Nat) {f : Sock → Sock}
    (hkeep : ∀ k, (f k).created = k.created) : (s.updateFd fd f).openCreated = s.openCreated := by
  simp only [openCreated, updateFd, List.countP_map]
  apply List.countP_congr
  intro k _
  simp only [Function.comp]
  split
  · rw [hkeep]
  · rfl

theorem accounted_close_iff {s : NetState} (hq : s.Accounted) (fd : Nat) :
    { s with socks := s.socks.filter fun k => k.fd ≠ some fd }.Accounted ↔
      ∀ k ∈ s.socks, k.created = true → k.fd ≠ some fd := by
  have hiff := @countP_filter_eq_iff Sock Sock.created (fun k => k.fd ≠ some fd) s.socks
  simp only [decide_eq_true_eq] at hiff
  rw [← hiff]
  unfold Accounted at hq ⊢
  rw [hq]
  constructor
  · intro heq
    exact (Int.ofNat.inj heq).symm
  · intro heq
    exact congrArg Int.ofNat heq.symm

theorem accounted_step {s s' : NetState} {a : NetAction} {ret : Int} (hd : s.Described)
    (hq : s.Accounted) (h : netThread.step s a = some (s', ret)) :
    s'.Accounted ↔ s.KeepsCount a := by
  have hle := hd.openCreated_le
  have hone : incr s.task.socketCount = s.openCreated + 1 := by
    rw [hq]
    unfold nrOpenMax at hle
    exact incr_of_lt (by omega) (by omega)
  have htwo : incr (incr s.task.socketCount) = s.openCreated + 2 := by
    rw [hone]
    unfold nrOpenMax at hle
    rw [incr_of_lt (by omega) (by omega)]
    omega
  cases step_cases h with
  | socketRefused href => exact iff_of_true hq (href.imp id Or.inl)
  | socketDropped hflags hc hlate =>
      refine iff_of_false ?_ ?_
      · simp only [Accounted, socketCount_bump, openCreated_bump, hone]
        omega
      · rcases hlate with hlate | hlate <;> simp [KeepsCount, hflags, hc, hlate]
  | socketOpened hflags hc hfd hfile hn =>
      refine iff_of_true ?_ (Or.inr (Or.inr ?_))
      · simp [Accounted, hone]
      · simp [hfd, hfile, Except.isOk, Except.toBool]
  | pairRefused href => exact iff_of_true hq (href.imp id Or.inl)
  | pairHalf hearly hc₁ hc₂ =>
      refine iff_of_false ?_ ?_
      · simp only [Accounted, socketCount_bump, openCreated_bump, hone]
        omega
      · simp [KeepsCount, hearly, hc₁, hc₂]
  | pairDropped hearly hc₁ hc₂ hlate =>
      refine iff_of_false ?_ ?_
      · simp only [Accounted, socketCount_bump, openCreated_bump, htwo]
        omega
      · simp [KeepsCount, hearly, hc₁, hlate]
  | pairOpened hearly hc₁ hc₂ hlate hn hm hne =>
      refine iff_of_true ?_ (Or.inr (Or.inr ⟨⟨_, hc₂⟩, hlate⟩))
      simp only [Accounted, socketCount_withSock, openCreated_withSock, htwo]
      omega
  | acceptRefused href => exact iff_of_true hq trivial
  | accepted hok hn =>
      refine iff_of_true ?_ trivial
      simpa [Accounted, openCreated] using hq
  | closed => exact accounted_close_iff hq _
  | attrs hch =>
      refine iff_of_true ?_ trivial
      have hcount := congrArg TaskStruct.socketCount hch.keeps
      exact hcount.trans hq
  | priorityRefused => exact iff_of_true hq trivial
  | prioritySet hval =>
      refine iff_of_true ?_ trivial
      unfold Accounted
      rw [openCreated_updateFd]
      · exact hq
      · intro k
        rfl

end NetState

structure NetState.NewThread (s : NetState) : Prop where
  socks : s.socks = []
  socketCount : s.task.socketCount = 0

/-- `socket_count` is the number of open sockets throughout a run exactly when no step
of the run releases a counted socket. -/
theorem socket_accounting {s₀ s : NetState} {acts : List NetAction} {tr : List Int}
    (h₀ : s₀.NewThread) (hr : netThread.run s₀ acts = some (s, tr)) :
    netThread.Throughout NetState.Accounted s₀ acts ↔
      netThread.Along NetState.KeepsCount s₀ acts := by
  have hd : s₀.Described := by
    refine ⟨?_, ?_, ?_⟩ <;> simp [NetState.fds, h₀.socks]
  have hq : s₀.Accounted := by
    simp [NetState.Accounted, NetState.openCreated, h₀.socks, h₀.socketCount]
  exact netThread.throughout_iff_along (fun hd h => NetState.Described.step hd h)
    NetState.accounted_step hd hq hr

def newThread (maxSocketAllowed : Int) : NetState :=
  ⟨⟨16, 1, 1, some 7, some 100, some 101, maxSocketAllowed, 0, 0, 1000, 1000, true⟩, [], []⟩

def cleanSocket (sock : Addr) (fd : Nat) : NetAction :=
  .socket 2 1 ⟨⟨fun _ => none, some sock, fun _ => true, true, none, true, none⟩, .ok fd, none⟩

def secondRefused : List NetAction :=
  [cleanSocket 500 3,
   .socket 2 1
     ⟨⟨fun _ => some eperm, none, fun _ => true, true, none, true, none⟩, .error 24, none⟩]

theorem socket_accounting_secondRefused :
    (∃ s, netThread.run (newThread 0) secondRefused = some (s, [3, -1])) ∧
    netThread.Throughout NetState.Accounted (newThread 0) secondRefused := by
  refine ⟨⟨_, rfl⟩, (@socket_accounting _ _ secondRefused _ ⟨rfl, rfl⟩ rfl).mpr ?_⟩
  refine ⟨Or.inr (Or.inr ⟨rfl, rfl⟩), ?_⟩
  rintro _ _ ⟨⟩
  exact ⟨Or.inr (Or.inl ⟨1, rfl⟩), fun _ _ _ => trivial⟩

def socketThenClose : List NetAction := [cleanSocket 500 3, .close 3]

/-- After a socket is closed the thread has none open and a count of 1. -/
theorem closed_socket_still_counted :
    ¬ ∀ s₀ acts s tr, NetState.NewThread s₀ → netThread.run s₀ acts = some (s, tr) →
      s.Accounted := by
  intro h
  have hq := h (newThread 0) socketThenClose _ _ ⟨rfl, rfl⟩ rfl
  exact absurd hq (by decide)

/-! ## The limit -/

def NetAction.keepsAttrs : NetAction → Bool
  | .setThreadSocketAttrs _ _ _ _ _ _ => false
  | _ => true

def NetAction.accepts : NetAction → Bool
  | .accept4 flags o => o.succeeds flags
  | _ => false

theorem createCheck_below_limit {t : TaskStruct} {family type : Int} {o : CreateOutcome} {a : Addr}
    (h : createCheck t family type o = .ok a) (hm : 0 < t.maxSocketAllowed) :
    t.socketCount < t.maxSocketAllowed := by
  unfold createCheck at h
  split at h
  · simp at h
  split at h
  · simp at h
  split at h
  · simp at h
  · rename_i hlim
    omega

/-- Every open socket is paid for, and the count stays within the limit as soon as
there is one. -/
structure NetState.WithinLimit (m : Int) (s : NetState) : Prop where
  limit : s.task.maxSocketAllowed = m
  paid : s.socks.length ≤ s.task.socketCount
  within : s.task.socketCount ≤ m ∨ s.socks = []

namespace NetState.WithinLimit

variable {m : Int} {s : NetState}

theorem length_le (hi : s.WithinLimit m) (hm : 0 < m) : s.socks.length ≤ m := by
  rcases hi.within with h | h
  · exact hi.paid.trans h
  · simp only [h, List.length_nil]
    omega

theorem incr_eq (hi : s.WithinLimit m) (hm : m < 2147483648) (hlt : s.task.socketCount < m) :
    incr s.task.socketCount = s.task.socketCount + 1 := by
  have hpaid := hi.paid
  exact incr_of_lt (by omega) (by omega)

theorem bump (hi : s.WithinLimit m) (hm : m < 2147483648) (hlt : s.task.socketCount < m) :
    s.bump.WithinLimit m := by
  have hpaid := hi.paid
  refine ⟨hi.limit, ?_, Or.inl ?_⟩
  · change (s.socks.length : Int) ≤ incr s.task.socketCount
    rw [hi.incr_eq hm hlt]
    omega
  · change incr s.task.socketCount ≤ m
    rw [hi.incr_eq hm hlt]
    omega

theorem withSock (hi : s.WithinLimit m) (hm : m < 2147483648) (hlt : s.task.socketCount < m)
    (a : Addr) (fd : Option Nat) : (s.withSock a fd).WithinLimit m := by
  have hpaid := hi.paid
  refine ⟨hi.limit, ?_, Or.inl ?_⟩
  · change ((s.socks.length + 1 : Nat) : Int) ≤ incr s.task.socketCount
    rw [hi.incr_eq hm hlt]
    omega
  · change incr s.task.socketCount ≤ m
    rw [hi.incr_eq hm hlt]
    omega

theorem step (hi : s.WithinLimit m) (hm : 0 < m) (hm' : m < 2147483648) {s' : NetState}
    {a : NetAction} {ret : Int} (hkeep : a.keepsAttrs = true) (hacc : a.accepts = false)
    (h : netThread.step s a = some (s', ret)) : s'.WithinLimit m := by
  have below : ∀ {r : NetState} {f t : CInt} {o : CreateOutcome} {b : Addr},
      r.task.maxSocketAllowed = m → r.check f t o = .ok b → r.task.socketCount < m := by
    intro r f t o b hr hc
    exact hr ▸ createCheck_below_limit hc (hr ▸ hm)
  cases step_cases h with
  | socketRefused href => exact hi
  | socketDropped hflags hc hlate => exact hi.bump hm' (below hi.limit hc)
  | socketOpened hflags hc hfd hfile hn => exact hi.withSock hm' (below hi.limit hc) _ _
  | pairRefused href => exact hi
  | pairHalf hearly hc₁ hc₂ => exact hi.bump hm' (below hi.limit hc₁)
  | pairDropped hearly hc₁ hc₂ hlate =>
      have hi₁ := hi.bump hm' (below hi.limit hc₁)
      exact hi₁.bump hm' (below hi₁.limit hc₂)
  | pairOpened hearly hc₁ hc₂ hlate hn hm₂ hne =>
      have hi₁ := hi.withSock hm' (below hi.limit hc₁)
      exact (hi₁ _ _).withSock hm' (below hi.limit hc₂) _ _
  | acceptRefused href => exact hi
  | accepted hok hn => simp [NetAction.accepts, hok] at hacc
  | closed =>
      rename_i fd
      have hlen := List.length_filter_le (fun k : Sock => decide (k.fd ≠ some fd)) s.socks
      have hpaid := hi.paid
      refine ⟨hi.limit, ?_, hi.within.imp id fun hnil => ?_⟩
      · change ((s.socks.filter fun k => k.fd ≠ some fd).length : Int) ≤ s.task.socketCount
        omega
      · simp [hnil]
  | attrs hch => simp [NetAction.keepsAttrs] at hkeep
  | priorityRefused => exact hi
  | prioritySet hval =>
      refine ⟨hi.limit, ?_, hi.within.imp id fun hnil => ?_⟩
      · simpa [NetState.updateFd] using hi.paid
      · simp [NetState.updateFd, hnil]

end NetState.WithinLimit

/-- A thread that starts with no socket, a limit of `m` and a count that is not
negative never has more than `m` sockets open, when no `accept4` succeeds. -/
theorem socket_limit {m : Int} {s₀ : NetState} {acts : List NetAction} (hm : 0 < m)
    (hm' : m < 2147483648) (hopen : s₀.socks = []) (hlimit : s₀.task.maxSocketAllowed = m)
    (hcount : 0 ≤ s₀.task.socketCount) (hkeep : ∀ a ∈ acts, a.keepsAttrs = true)
    (hacc : ∀ a ∈ acts, a.accepts = false) :
    netThread.Throughout (fun s => s.socks.length ≤ m) s₀ acts := by
  have h₀ : s₀.WithinLimit m := ⟨hlimit, by simpa [hopen] using hcount, Or.inr hopen⟩
  have halong : netThread.Along (fun _ a => a.keepsAttrs = true ∧ a.accepts = false) s₀ acts :=
    netThread.along_of_forall fun a ha => ⟨hkeep a ha, hacc a ha⟩
  intro pre hpre s tr hr
  obtain ⟨post, rfl⟩ := hpre
  have hi : s.WithinLimit m :=
    netThread.along_invariant
      (fun hi hp h => NetState.WithinLimit.step hi hm hm' hp.1 hp.2 h) h₀ halong.left hr
  exact hi.length_le hm

def thirdRefused : List NetAction :=
  [cleanSocket 500 3, cleanSocket 600 4, .close 3, cleanSocket 700 3]

theorem socket_limit_thirdRefused :
    (∃ s, netThread.run (newThread 2) thirdRefused = some (s, [3, 4, 0, -24])) ∧
    netThread.Throughout (fun s => s.socks.length ≤ (2 : Int)) (newThread 2) thirdRefused :=
  ⟨⟨_, rfl⟩, socket_limit (by decide) (by decide) rfl rfl (by decide) (by decide) (by decide)⟩

def socketThenAccept : List NetAction :=
  [cleanSocket 500 3,
   .accept4 0 ⟨some true, .ok 4, some 600, none, none, none, false, false, none, 0⟩]

/-- With a limit of 1 a thread gets a second socket from `accept4`. -/
theorem accept_exceeds_limit :
    ¬ ∀ (m : Int) (s₀ : NetState) (acts : List NetAction), 0 < m → m < 2147483648 →
      s₀.socks = [] → s₀.task.maxSocketAllowed = m → (∀ a ∈ acts, a.keepsAttrs = true) →
      netThread.Throughout (fun s => s.socks.length ≤ m) s₀ acts := by
  intro h
  have hle := h 1 (newThread 1) socketThenAccept (by decide) (by decide) rfl rfl (by decide)
    socketThenAccept List.prefix_rfl _ _ rfl
  exact absurd hle (by decide)

end OShm.Net
