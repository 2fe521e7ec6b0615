import OShm.Net.Accounting

/-! # Two ways to a socket priority

`setsockopt` lets a thread without `CAP_NET_ADMIN` choose a priority from 0 to 6.
`sock_init_data` copies the level that `set_thread_socket_attrs` accepted, which
goes up to 100 without any capability.
-/

namespace OShm.Net

open OShm.Lib OShm.Kernel

/-- Neither capability is used: not by the thread, and by no task that changes its
attributes. -/
def NetAction.unprivileged : NetAction → Bool
  | .setThreadSocketAttrs _ capSysResource _ _ _ _ => !capSysResource
  | .setPriority _ _ _ o => !o.capNetAdmin
  | _ => true

def userThread : System NetState NetAction Int :=
  ⟨fun s a => if a.unprivileged then netThread.step s a else none⟩

namespace NetState

/-- Every socket the thread created has a priority `setsockopt` would admit. -/
def LowPriorities (s : NetState) : Prop :=
  ∀ k ∈ s.socks, k.created = true → k.skPriority ≤ 6

def Opens (s : NetState) : NetAction → Prop
  | .socket f t o =>
      badTypeFlags t = false ∧ (∃ a, s.check f t o.create = .ok a) ∧
        o.fd.isOk = true ∧ o.file.isSome = false
  | .socketpair f t o =>
      o.early t = false ∧ (∃ a, s.check f t o.create1 = .ok a) ∧
        (∃ b, s.bump.check f t o.create2 = .ok b) ∧ o.late = false
  | _ => False

/-- No socket is created while the level of the thread is above 6. -/
def LowLevel (s : NetState) (a : NetAction) : Prop := s.Opens a → s.task.priorityLevel ≤ 6

theorem initPriority_le_iff (s : NetState) : s.initPriority ≤ 6 ↔ s.task.priorityLevel ≤ 6 := by
  unfold initPriority
  split <;> omega

theorem lowPriorities_withSock_iff (s : NetState) (a : Addr) (fd : Option Nat) :
    (s.withSock a fd).LowPriorities ↔ s.task.priorityLevel ≤ 6 ∧ s.LowPriorities := by
  rw [← initPriority_le_iff]
  simp [LowPriorities, withSock]

theorem lowPriorities_updateFd {s : NetState} (hq : s.LowPriorities) (fd : Nat) {prio : Nat}
    (hle : prio ≤ 6) : (s.updateFd fd fun k => { k with skPriority := prio }).LowPriorities := by
  intro k hk hcr
  obtain ⟨k₀, hk₀, rfl⟩ := List.mem_map.mp hk
  by_cases hfd : k₀.fd = some fd
  · simpa [hfd] using hle
  · rw [if_neg hfd] at hcr ⊢
    exact hq k₀ hk₀ hcr

theorem toNat_le_of_toInt {val : BitVec 32} (h₀ : 0 ≤ val.toInt) (h : val.toInt ≤ 6) :
    val.toNat ≤ 6 := by
  have hcond := BitVec.toInt_eq_toNat_cond val
  have hlt := val.isLt
  split at hcond <;> omega

theorem lowPriorities_step {s s' : NetState} {a : NetAction} {ret : Int} (hq : s.LowPriorities)
    (h : userThread.step s a = some (s', ret)) : s'.LowPriorities ↔ s.LowLevel a := by
  simp only [userThread] at h
  split at h
  · rename_i hun
    cases step_cases h with
    | socketRefused href =>
        refine iff_of_true hq ?_
        rintro ⟨hflags, ⟨b, hc⟩, -⟩
        rcases href with hbad | ⟨e, he⟩
        · simp [hflags] at hbad
        · simp [hc] at he
    | socketDropped hflags hc hlate =>
        refine iff_of_true hq ?_
        rintro ⟨-, -, hfd, hfile⟩
        rcases hlate with hlate | hlate
        · simp [hfd] at hlate
        · simp [hfile] at hlate
    | socketOpened hflags hc hfd hfile hn =>
        rw [lowPriorities_withSock_iff]
        constructor
        · intro hlow _
          exact hlow.1
        · intro hlow
          refine ⟨hlow ⟨hflags, ⟨_, hc⟩, ?_, ?_⟩, hq⟩ <;>
            simp [hfd, hfile, Except.isOk, Except.toBool]
    | pairRefused href =>
        refine iff_of_true hq ?_
        rintro ⟨hearly, ⟨b, hc⟩, -⟩
        rcases href with hbad | ⟨e, he⟩
        · simp [hearly] at hbad
        · simp [hc] at he
    | pairHalf hearly hc₁ hc₂ =>
        refine iff_of_true hq ?_
        rintro ⟨-, -, ⟨b, hc⟩, -⟩
        simp [hc₂] at hc
    | pairDropped hearly hc₁ hc₂ hlate =>
        refine iff_of_true hq ?_
        rintro ⟨-, -, -, hno⟩
        simp [hno] at hlate
    | pairOpened hearly hc₁ hc₂ hlate hn hm hne =>
        rw [lowPriorities_withSock_iff, lowPriorities_withSock_iff]
        constructor
        · intro hlow _
          exact hlow.1
        · intro hlow
          have hle := hlow ⟨hearly, ⟨_, hc₁⟩, ⟨_, hc₂⟩, hlate⟩
          exact ⟨hle, hle, hq⟩
    | acceptRefused href => exact iff_of_true hq False.elim
    | accepted hok hn =>
        refine iff_of_true ?_ False.elim
        refine List.forall_mem_cons.mpr ⟨?_, hq⟩
        simp
    | closed =>
        refine iff_of_true ?_ False.elim
        intro k hk
        exact hq k (List.mem_of_mem_filter hk)
    | attrs hch => exact iff_of_true hq False.elim
    | priorityRefused => exact iff_of_true hq False.elim
    | prioritySet hval =>
        refine iff_of_true ?_ False.elim
        rename_i fd val optlen o
        have hcap : o.capNetAdmin = false := by simpa [NetAction.unprivileged] using hun
        have hrange : 0 ≤ val.toInt ∧ val.toInt ≤ 6 := by simpa [hcap] using hval
        exact lowPriorities_updateFd hq fd (toNat_le_of_toInt hrange.1 hrange.2)
  · simp at h

end NetState

/-- In a run without capabilities all priorities stay from 0 to 6 exactly when no
socket is created at a level above 6. -/
theorem socket_priorities_agree {s₀ s : NetState} {acts : List NetAction} {tr : List Int}
    (hopen : s₀.socks = []) (hr : userThread.run s₀ acts = some (s, tr)) :
    userThread.Throughout NetState.LowPriorities s₀ acts ↔
      userThread.Along NetState.LowLevel s₀ acts := by
  have hq : s₀.LowPriorities := by simp [NetState.LowPriorities, hopen]
  have keep : ∀ {s a s' e}, True → userThread.step s a = some (s', e) → True := fun h _ => h
  exact userThread.throughout_iff_along keep (fun _ hq h => NetState.lowPriorities_step hq h)
    trivial hq hr

def lowLevelRun : List NetAction :=
  [.setThreadSocketAttrs (newThread 0).task false 0 (-1) 5 0, cleanSocket 500 3,
   .setPriority 3 6 4 ⟨none, false, false⟩]

theorem socket_priorities_agree_lowLevel :
    (∃ s, userThread.run (newThread 0) lowLevelRun = some (s, [0, 3, 0])) ∧
    userThread.Throughout NetState.LowPriorities (newThread 0) lowLevelRun := by
  refine ⟨⟨_, rfl⟩, (@socket_priorities_agree _ _ lowLevelRun _ rfl rfl).mpr ?_⟩
  refine ⟨False.elim, ?_⟩
  rintro _ _ ⟨⟩
  refine ⟨fun _ => by decide, ?_⟩
  rintro _ _ ⟨⟩
  exact ⟨False.elim, fun _ _ _ => trivial⟩

def highLevelRun : List NetAction :=
  [.setThreadSocketAttrs (newThread 0).task false 0 (-1) 50 0, cleanSocket 500 3]

/-- Without a capability a thread gets a socket with priority 50. -/
theorem unprivileged_priority_fifty :
    ¬ ∀ s₀ acts s tr, NetState.NewThread s₀ → userThread.run s₀ acts = some (s, tr) →
      s.LowPriorities := by
  intro h
  have hq := h (newThread 0) highLevelRun _ _ ⟨rfl, rfl⟩ rfl
  have hle := hq _ List.mem_cons_self rfl
  exact absurd hle (by decide)

end OShm.Net
