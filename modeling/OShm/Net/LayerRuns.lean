import OShm.Net.LayerSafety

/-! # The socket layer over whole runs

What every place in the code of the calls keeps, and from it what holds after any interleaving:
no code of an unloaded module was called, and calls that have ended left nothing behind.
-/

namespace OShm.Net

open OShm.Lib OShm.Lib.RefCount

namespace Layer

variable {s : Layer} {t a f m n tab : Nat} {p : NetPc}

namespace Safe

section Micro

variable {ans : NetAnswer} {s' : Layer} {q : Purpose} {family fd fd1 fd2 f1 f2 a1 a2 l : Nat}

theorem micro_sockAlloc (hs : s.Safe) (hpc : s.pc t = .sockAlloc q family)
    (h : s.micro t ans (.sockAlloc q family) = some s') : s'.Safe := by
  simp only [Layer.micro] at h
  split at h
  · split at h <;> cases h
    rename_i hfree
    refine hs.sockAlloc (Option.isNone_iff_eq_none.mp hfree) ?_ ?_ ?_
    · simp [owns, hpc, NetPc.holds]
    · simp [hpc, NetPc.ready]
    · simp [NetPc.bare]
  · cases h
    refine hs.unwind ?_
    simp [owns, hpc, NetPc.holds, Purpose.holds]

theorem micro_familyGet (hs : s.Safe) (hpc : s.pc t = .familyGet q family a)
    (h : s.micro t ans (.familyGet q family a) = some s') : s'.Safe := by
  have hout : (s.setPc t (.unwind (.sock a :: q.gives))).Safe := by
    refine hs.unwind ?_
    simp [owns, hpc, NetPc.holds, Purpose.holds, Give.res]
  simp only [Layer.micro] at h
  split at h
  · cases h
    exact hout
  · split at h <;> cases h
    · rename_i hlive
      refine hs.familyGet hlive ?_ ?_ ?_
      · simp [owns, hpc, NetPc.holds]
      · simp [hpc, NetPc.ready]
      · simp [hpc, NetPc.bare]
    · exact hout

theorem micro_pfCreate (hs : s.Safe) (hpc : s.pc t = .pfCreate q a m)
    (h : s.micro t ans (.pfCreate q a m) = some s') : s'.Safe := by
  have hpos : 0 < s.refcnt m :=
    hs.refcnt_pos (h := .thread t) (by simp [owns, hpc, NetPc.holds])
  simp only [Layer.micro, hs.callModule_eq hpos] at h
  split at h <;> cases h
  · refine hs.goto ?_ ?_ ?_
    · simp [owns, hpc, NetPc.holds]
    · simp [hpc, NetPc.ready]
    · simp [hpc, NetPc.bare]
  · refine hs.goto ?_ ?_ ?_
    · simp [owns, hpc, NetPc.holds]
    · simp [NetPc.ready]
    · simp [NetPc.bare]

theorem micro_opsGet (hs : s.Safe) {ops : Nat} (hpc : s.pc t = .opsGet q a m ops)
    (h : s.micro t ans (.opsGet q a m ops) = some s') : s'.Safe := by
  simp only [Layer.micro] at h
  split at h <;> cases h
  · rename_i hlive
    refine hs.setOps ?_ hlive ?_ ?_ rfl
    · simp [hpc, NetPc.bare]
    · simp [owns, hpc, NetPc.holds]
    · simp [hpc, NetPc.ready]
  · refine hs.goto ?_ ?_ ?_
    · simp [owns, hpc, NetPc.holds]
    · simp [NetPc.ready]
    · simp [NetPc.bare]

theorem micro_familyPut (hs : s.Safe) (hpc : s.pc t = .familyPut q a m)
    (h : s.micro t ans (.familyPut q a m) = some s') : s'.Safe := by
  cases h
  refine hs.familyPut ?_ ?_ ?_
  · simp [owns, hpc, NetPc.holds]
  · simp [hpc, NetPc.ready]
  · simp [NetPc.bare]

theorem micro_postCreate (hs : s.Safe) (hpc : s.pc t = .postCreate q a)
    (h : s.micro t ans (.postCreate q a) = some s') : s'.Safe := by
  simp only [Layer.micro] at h
  split at h <;> cases h
  · -- the caller of `__sock_create` takes over
    refine hs.goto ?_ ?_ ?_
    · cases q <;> simp [owns, hpc, NetPc.holds, Purpose.resume, Purpose.holds, Purpose.gives,
        Give.res]
    · cases q <;> simp [hpc, NetPc.ready, Purpose.resume, Purpose.ready]
    · cases q <;> simp [NetPc.bare, Purpose.resume]
  · refine hs.unwind ?_
    simp [owns, hpc, NetPc.holds, Purpose.holds, Give.res]

theorem micro_outModulePut (hs : s.Safe) (hpc : s.pc t = .outModulePut q a m)
    (h : s.micro t ans (.outModulePut q a m) = some s') : s'.Safe := by
  cases h
  refine hs.familyPut ?_ ?_ ?_
  · simp [owns, hpc, NetPc.holds, Purpose.holds, Give.res]
  · simp [NetPc.ready]
  · simp [NetPc.bare]

theorem micro_mapFd (hs : s.Safe) (hpc : s.pc t = .mapFd a)
    (h : s.micro t ans (.mapFd a) = some s') : s'.Safe := by
  simp only [Layer.micro] at h
  split at h
  · split at h <;> cases h
    rename_i hfree
    refine hs.reserve (Option.isNone_iff_eq_none.mp hfree) ?_ ?_ ?_
    · simpa [owns, hpc, NetPc.holds] using List.Perm.swap _ _ _
    · simp [hpc, NetPc.ready]
    · simp [NetPc.bare]
  · cases h
    refine hs.unwind ?_
    simp [owns, hpc, NetPc.holds, Give.res]

theorem micro_mapFile (hs : s.Safe) (hpc : s.pc t = .mapFile a fd)
    (h : s.micro t ans (.mapFile a fd) = some s') : s'.Safe := by
  simp only [Layer.micro] at h
  split at h
  · split at h <;> cases h
    rename_i hfree
    refine hs.allocFile (l := [.fd (s.tab t) fd]) (Option.isNone_iff_eq_none.mp hfree) ?_ ?_ ?_
      ?_ ?_
    · simp [hpc, NetPc.ready]
    · simp [owns, hpc, NetPc.holds]
    · simp [NetPc.holds]
    · simp [NetPc.ready]
    · simp [NetPc.bare]
  · cases h
    refine hs.unwind ?_
    simp [owns, hpc, NetPc.holds, Give.res]

theorem micro_fdInstall (hs : s.Safe) (hpc : s.pc t = .fdInstall fd f)
    (h : s.micro t ans (.fdInstall fd f) = some s') : s'.Safe := by
  cases h
  refine hs.install ?_ ?_ ?_
  · simp [owns, hpc, NetPc.holds]
  · simp [NetPc.ready]
  · simp [NetPc.bare]

/-! `__sys_socketpair`. -/

theorem micro_pairFd1 (hs : s.Safe) (hpc : s.pc t = .pairFd1 family)
    (h : s.micro t ans (.pairFd1 family) = some s') : s'.Safe := by
  simp only [Layer.micro] at h
  split at h
  · split at h <;> cases h
    rename_i hfree
    refine hs.reserve (Option.isNone_iff_eq_none.mp hfree) ?_ ?_ ?_
    · simp [owns, hpc, NetPc.holds]
    · simp [NetPc.ready]
    · simp [NetPc.bare]
  · cases h
    refine hs.goto ?_ ?_ ?_
    · simp [owns, hpc, NetPc.holds]
    · simp [NetPc.ready]
    · simp [NetPc.bare]

theorem micro_pairFd2 (hs : s.Safe) (hpc : s.pc t = .pairFd2 family fd1)
    (h : s.micro t ans (.pairFd2 family fd1) = some s') : s'.Safe := by
  simp only [Layer.micro] at h
  split at h
  · split at h <;> cases h
    rename_i hfree
    refine hs.reserve (Option.isNone_iff_eq_none.mp hfree) ?_ ?_ ?_
    · simp [owns, hpc, NetPc.holds, Purpose.holds, Purpose.gives, Give.res]
    · simp [NetPc.ready, Purpose.ready]
    · simp [NetPc.bare]
  · cases h
    refine hs.unwind ?_
    simp [owns, hpc, NetPc.holds, Give.res]

theorem micro_pairCall (hs : s.Safe) (hpc : s.pc t = .pairCall fd1 fd2 a1 a2)
    (h : s.micro t ans (.pairCall fd1 fd2 a1 a2) = some s') : s'.Safe := by
  obtain ⟨m, hm⟩ := hs.ready t a1 (by simp [hpc, NetPc.ready])
  simp only [Layer.micro, hs.callOps_eq hm] at h
  split at h <;> cases h
  · refine hs.goto ?_ ?_ ?_
    · simpa [owns, hpc, NetPc.holds] using List.Perm.swap _ _ _
    · simp [hpc, NetPc.ready]
    · simp [NetPc.bare]
  · refine hs.unwind ?_
    simp [owns, hpc, NetPc.holds, Give.res]

theorem micro_pairFile1 (hs : s.Safe) (hpc : s.pc t = .pairFile1 fd1 fd2 a1 a2)
    (h : s.micro t ans (.pairFile1 fd1 fd2 a1 a2) = some s') : s'.Safe := by
  simp only [Layer.micro] at h
  split at h
  · split at h <;> cases h
    rename_i hfree
    refine hs.allocFile (l := [.sock a2, .fd (s.tab t) fd2, .fd (s.tab t) fd1])
      (Option.isNone_iff_eq_none.mp hfree) ?_ ?_ ?_ ?_ ?_
    · simp [hpc, NetPc.ready]
    · simp [owns, hpc, NetPc.holds]
    · exact List.Perm.swap _ _ _
    · simp [hpc, NetPc.ready]
    · simp [NetPc.bare]
  · cases h
    refine hs.unwind ?_
    simp [owns, hpc, NetPc.holds, Give.res]

theorem micro_pairFile2 (hs : s.Safe) (hpc : s.pc t = .pairFile2 fd1 fd2 f1 a2)
    (h : s.micro t ans (.pairFile2 fd1 fd2 f1 a2) = some s') : s'.Safe := by
  simp only [Layer.micro] at h
  split at h
  · split at h <;> cases h
    rename_i hfree
    refine hs.allocFile (l := [.file f1, .fd (s.tab t) fd2, .fd (s.tab t) fd1])
      (Option.isNone_iff_eq_none.mp hfree) ?_ ?_ ?_ ?_ ?_
    · simp [hpc, NetPc.ready]
    · simp [owns, hpc, NetPc.holds]
    · refine List.perm_iff_count.mpr fun r => ?_
      simp only [NetPc.holds, List.count_cons]
      omega
    · simp [NetPc.ready]
    · simp [NetPc.bare]
  · cases h
    refine hs.unwind ?_
    simp [owns, hpc, NetPc.holds, Give.res]

theorem micro_pairInstall (hs : s.Safe) (hpc : s.pc t = .pairInstall fd1 fd2 f1 f2)
    (h : s.micro t ans (.pairInstall fd1 fd2 f1 f2) = some s') : s'.Safe := by
  cases h
  refine hs.install ?_ ?_ ?_
  · simp [owns, hpc, NetPc.holds]
  · simp [NetPc.ready]
  · simp [NetPc.bare]

/-! `do_accept`, which keeps the listening file. -/

theorem micro_acceptFd (hs : s.Safe) (hpc : s.pc t = .acceptFd l)
    (h : s.micro t ans (.acceptFd l) = some s') : s'.Safe := by
  simp only [Layer.micro] at h
  split at h
  · split at h <;> cases h
    rename_i hfree
    refine hs.reserve (Option.isNone_iff_eq_none.mp hfree) ?_ ?_ ?_
    · simp [owns, hpc, NetPc.holds]
    · simp [NetPc.ready]
    · simp [NetPc.bare]
  · cases h
    refine hs.unwind ?_
    simp [owns, hpc, NetPc.holds, Give.res]

theorem micro_acceptAlloc (hs : s.Safe) (hpc : s.pc t = .acceptAlloc l fd)
    (h : s.micro t ans (.acceptAlloc l fd) = some s') : s'.Safe := by
  simp only [Layer.micro] at h
  split at h
  · split at h <;> cases h
    rename_i hfree
    refine hs.sockAlloc (Option.isNone_iff_eq_none.mp hfree) ?_ ?_ ?_
    · simp [owns, hpc, NetPc.holds]
    · simp [NetPc.ready]
    · simp [NetPc.bare]
  · cases h
    refine hs.unwind ?_
    simp [owns, hpc, NetPc.holds, Give.res]

/-- The listening socket has a reference to the module, so one more may be taken unasked. -/
theorem micro_acceptGet (hs : s.Safe) (hpc : s.pc t = .acceptGet l fd a)
    (h : s.micro t ans (.acceptGet l fd a) = some s') : s'.Safe := by
  obtain ⟨b, m, hb, hm, hpos⟩ := hs.sock_of_file (t := t) (f := l)
    (by simp [owns, hpc, NetPc.holds])
  have hjoin : ((s.sockOf l).bind s.socks).join = some m := by simp [hb, hm]
  simp only [Layer.micro, hjoin, hs.callModule_eq hpos] at h
  cases h
  refine hs.setOps ?_ (hs.loaded m hpos) ?_ ?_ rfl
  · simp [hpc, NetPc.bare]
  · simp [owns, hpc, NetPc.holds]
  · simp [NetPc.ready]

theorem micro_acceptFile (hs : s.Safe) (hpc : s.pc t = .acceptFile l fd a)
    (h : s.micro t ans (.acceptFile l fd a) = some s') : s'.Safe := by
  simp only [Layer.micro] at h
  split at h
  · split at h <;> cases h
    rename_i hfree
    refine hs.allocFile (l := [.fd (s.tab t) fd, .file l]) (Option.isNone_iff_eq_none.mp hfree)
      ?_ ?_ ?_ ?_ ?_
    · simp [hpc, NetPc.ready]
    · simp [owns, hpc, NetPc.holds]
    · simp [NetPc.holds]
    · simp [NetPc.ready]
    · simp [NetPc.bare]
  · cases h
    refine hs.unwind ?_
    simp [owns, hpc, NetPc.holds, Give.res]

theorem micro_acceptCall (hs : s.Safe) (hpc : s.pc t = .acceptCall l fd f)
    (h : s.micro t ans (.acceptCall l fd f) = some s') : s'.Safe := by
  obtain ⟨b, m, hb, hm, -⟩ := hs.sock_of_file (t := t) (f := l)
    (by simp [owns, hpc, NetPc.holds])
  simp only [Layer.micro, hb, hs.callOps_eq hm] at h
  split at h <;> cases h
  · refine hs.goto ?_ ?_ ?_
    · simp [owns, hpc, NetPc.holds]
    · simp [NetPc.ready]
    · simp [NetPc.bare]
  · refine hs.unwind ?_
    simp [owns, hpc, NetPc.holds, Give.res]

theorem micro_acceptInstall (hs : s.Safe) (hpc : s.pc t = .acceptInstall l fd f)
    (h : s.micro t ans (.acceptInstall l fd f) = some s') : s'.Safe := by
  cases h
  refine hs.install ?_ ?_ ?_
  · simp [owns, hpc, NetPc.holds, Give.res]
  · simp [NetPc.ready]
  · simp [NetPc.bare]

theorem micro (hs : s.Safe) (hpc : s.pc t = p) (h : s.micro t ans p = some s') : s'.Safe := by
  cases p with
  | idle => cases h
  | sockAlloc => exact hs.micro_sockAlloc hpc h
  | familyGet => exact hs.micro_familyGet hpc h
  | pfCreate => exact hs.micro_pfCreate hpc h
  | opsGet => exact hs.micro_opsGet hpc h
  | familyPut => exact hs.micro_familyPut hpc h
  | postCreate => exact hs.micro_postCreate hpc h
  | outModulePut => exact hs.micro_outModulePut hpc h
  | mapFd => exact hs.micro_mapFd hpc h
  | mapFile => exact hs.micro_mapFile hpc h
  | fdInstall => exact hs.micro_fdInstall hpc h
  | pairFd1 => exact hs.micro_pairFd1 hpc h
  | pairFd2 => exact hs.micro_pairFd2 hpc h
  | pairCall => exact hs.micro_pairCall hpc h
  | pairFile1 => exact hs.micro_pairFile1 hpc h
  | pairFile2 => exact hs.micro_pairFile2 hpc h
  | pairInstall => exact hs.micro_pairInstall hpc h
  | acceptFd => exact hs.micro_acceptFd hpc h
  | acceptAlloc => exact hs.micro_acceptAlloc hpc h
  | acceptGet => exact hs.micro_acceptGet hpc h
  | acceptFile => exact hs.micro_acceptFile hpc h
  | acceptCall => exact hs.micro_acceptCall hpc h
  | acceptInstall => exact hs.micro_acceptInstall hpc h
  | unwind gives =>
      cases gives with
      | nil =>
          cases h
          refine hs.goto ?_ ?_ ?_
          · simp [owns, hpc, NetPc.holds]
          · simp [NetPc.ready]
          · simp [NetPc.bare]
      | cons g gs =>
          cases h
          exact hs.give hpc

end Micro

theorem step (hs : s.Safe) {act : LayerAction} {s' : Layer} {e : Unit}
    (h : layer.step s act = some (s', e)) : s'.Safe := by
  change s.step act = some (s', e) at h
  cases act with
  | socket t family =>
      simp only [Layer.step] at h
      split at h <;> cases h
      rename_i hidle
      refine hs.goto ?_ ?_ ?_
      · simp [owns, hidle, NetPc.holds, Purpose.holds, Purpose.gives]
      · simp [NetPc.ready, Purpose.ready]
      · simp [NetPc.bare]
  | socketpair t family =>
      simp only [Layer.step] at h
      split at h <;> cases h
      rename_i hidle
      refine hs.goto ?_ ?_ ?_
      · simp [owns, hidle, NetPc.holds]
      · simp [NetPc.ready]
      · simp [NetPc.bare]
  | accept t fd =>
      simp only [Layer.step] at h
      split at h
      · rename_i hidle
        split at h <;> cases h
        rename_i hfd
        refine hs.fdget hfd ?_ rfl rfl
        simp [owns, hidle, NetPc.holds]
      · cases h
  | close t fd =>
      simp only [Layer.step] at h
      split at h
      · split at h <;> cases h
        rename_i hfd
        exact hs.close hfd
      · cases h
  | dup t fd new =>
      simp only [Layer.step] at h
      split at h
      · split at h <;> cases h
        rename_i hfd hnew
        exact hs.dup hfd hnew
      · cases h
  | next t ans =>
      obtain ⟨s₁, h₁, heq⟩ := Option.map_eq_some_iff.mp h
      cases heq
      exact hs.micro rfl h₁
  | release f =>
      simp only [Layer.step] at h
      split at h <;> cases h
      rename_i hf
      exact hs.release hf
  | load m =>
      simp only [Layer.step] at h
      split at h <;> cases h
      rename_i hzero
      exact hs.setLive hzero true
  | unload m =>
      simp only [Layer.step] at h
      split at h <;> cases h
      rename_i hzero
      exact hs.setLive hzero false
  | sockRegister family m =>
      simp only [Layer.step] at h
      split at h
      · cases h
      · split at h <;> cases h
        exact ⟨hs.quiet, hs.balanced, hs.loaded, hs.ready, hs.bare, hs.filed⟩
  | sockUnregister family =>
      cases h
      exact ⟨hs.quiet, hs.balanced, hs.loaded, hs.ready, hs.bare, hs.filed⟩

theorem empty (tab : Nat → Nat) : (Layer.empty tab).Safe := by
  refine ⟨rfl, ?_, ?_, ?_, ?_, ?_⟩
  · have hcount : (Layer.empty tab).count = fun _ => 0 := by
      funext r
      cases r <;> rfl
    have howns : (Layer.empty tab).owns = fun _ => [] := by
      funext h
      cases h <;> rfl
    rw [hcount, howns]
    exact balanced_empty
  · intro m hm
    cases hm
  · intro t a ha
    cases ha
  · intro t a ha
    cases ha
  · intro f x hx
    cases hx

/-- Without calls under way there are three kinds of holders left. -/
theorem owner_at_rest (hs : s.Safe) (hidle : ∀ t, s.pc t = .idle) {r : Res}
    (hr : 0 < s.count r) :
    (∃ a m, s.socks a = some (some m) ∧ r = .module m) ∨
      (∃ f x, s.files f = some x ∧ r = .sock x.sock) ∨
      ∃ tab n f, s.fds tab n = some (.file f) ∧ r = .file f := by
  obtain ⟨h, ho⟩ := hs.balanced.exists_owner hr
  cases h with
  | thread t => simp [owns, hidle, NetPc.holds] at ho
  | sock a =>
      left
      cases hsock : s.socks a with
      | none => simp [owns, hsock, sockOwns] at ho
      | some ops =>
          cases ops with
          | none => simp [owns, hsock, sockOwns] at ho
          | some m => exact ⟨a, m, hsock, by simpa [owns, hsock, sockOwns] using ho⟩
  | file f =>
      right
      left
      cases hf : s.files f with
      | none => simp [owns, hf, fileOwns] at ho
      | some x => exact ⟨f, x, hf, by simpa [owns, hf, fileOwns] using ho⟩
  | entry tab n =>
      right
      right
      cases hfd : s.fds tab n with
      | none => simp [owns, hfd, entryOwns] at ho
      | some e =>
          cases e with
          | reserved => simp [owns, hfd, entryOwns] at ho
          | file f => exact ⟨tab, n, f, hfd, by simpa [owns, hfd, entryOwns] using ho⟩

end Safe

end Layer

/-- After any interleaving of the steps of `socket`, `socketpair`, `accept4` and `close` in any
threads with loads and unloads of modules: no code of an unloaded module was called and no object
was used or given back once too often; the module of a socket is loaded; a socket has one file.
Once the calls have ended no number is reserved, a module has references only from sockets, every
socket has a file, and every file with references has a descriptor. -/
theorem layer_safe {tab : Nat → Nat} {acts : List LayerAction} {s : Layer} {tr : List Unit}
    (hr : layer.run (.empty tab) acts = some (s, tr)) :
    s.fault = false ∧
      (∀ a m, s.socks a = some (some m) → s.live m = true) ∧
      (∀ f g x y, s.files f = some x → s.files g = some y → x.sock = y.sock → f = g) ∧
      ((∀ t, s.pc t = .idle) →
        (∀ tab n, s.fds tab n ≠ some .reserved) ∧
        (∀ m, 0 < s.refcnt m → ∃ a, s.socks a = some (some m)) ∧
        (∀ a, (s.socks a).isSome → ∃ f x, s.files f = some x ∧ x.sock = a) ∧
        ∀ f x, s.files f = some x → 0 < x.count → ∃ tab n, s.fds tab n = some (.file f)) := by
  have keep : ∀ {s act s' e}, Layer.Safe s → layer.step s act = some (s', e) → s'.Safe :=
    fun hs h => hs.step h
  have hs : s.Safe := layer.run_invariant keep (Layer.Safe.empty tab) hr
  refine ⟨hs.quiet, ?_, ?_, ?_⟩
  · intro a m hsock
    exact hs.loaded m (hs.refcnt_pos (h := .sock a) (by simp [Layer.owns, hsock, Layer.sockOwns]))
  · intro f g x y hf hg heq
    have hown : Holder.file f = .file g := hs.sock_unique (a := x.sock)
      (by simp [Layer.owns, hf, Layer.fileOwns]) (by simp [Layer.owns, hg, Layer.fileOwns, heq])
    exact Holder.file.inj hown
  · intro hidle
    have howner := @Layer.Safe.owner_at_rest s hs hidle
    refine ⟨?_, ?_, ?_, ?_⟩
    · intro tab n hres
      have hpos : 0 < s.count (.fd tab n) := by simp [Layer.count, hres]
      rcases howner hpos with ⟨_, _, -, h⟩ | ⟨_, _, -, h⟩ | ⟨_, _, _, -, h⟩ <;> cases h
    · intro m hm
      rcases howner (r := .module m) hm with ⟨a, k, ha, h⟩ | ⟨_, _, -, h⟩ | ⟨_, _, _, -, h⟩
      · exact ⟨a, (Res.module.inj h).symm ▸ ha⟩
      · cases h
      · cases h
    · intro a ha
      have hpos : 0 < s.count (.sock a) := by simp [Layer.count, ha]
      rcases howner hpos with ⟨_, _, -, h⟩ | ⟨f, x, hf, h⟩ | ⟨_, _, _, -, h⟩
      · cases h
      · exact ⟨f, x, hf, (Res.sock.inj h).symm⟩
      · cases h
    · intro f x hf hx
      have hpos : 0 < s.count (.file f) := by simpa [Layer.count, hf, Layer.fileCount] using hx
      rcases howner hpos with ⟨_, _, -, h⟩ | ⟨_, _, -, h⟩ | ⟨k, n, g, hfd, h⟩
      · cases h
      · cases h
      · exact ⟨k, n, (Res.file.inj h).symm ▸ hfd⟩

/-- A thread closes a listening socket from which another one is accepting; then the rest is
closed and the module unloaded. -/
def acceptWhileClosing : List LayerAction :=
  [.load 1, .sockRegister 2 1, .socket 0 2, .next 0 ⟨true, 10, 0⟩, .next 0 ⟨true, 0, 0⟩,
    .next 0 ⟨true, 0, 1⟩, .next 0 ⟨true, 0, 0⟩, .next 0 ⟨true, 0, 0⟩, .next 0 ⟨true, 0, 0⟩,
    .next 0 ⟨true, 3, 0⟩, .next 0 ⟨true, 20, 0⟩, .next 0 ⟨true, 0, 0⟩, .accept 1 3,
    .next 1 ⟨true, 4, 0⟩, .close 0 3, .next 1 ⟨true, 11, 0⟩, .next 1 ⟨true, 0, 0⟩,
    .next 1 ⟨true, 21, 0⟩, .next 1 ⟨true, 0, 0⟩, .next 1 ⟨true, 0, 0⟩, .next 1 ⟨true, 0, 0⟩,
    .next 1 ⟨true, 0, 0⟩, .release 20, .sockUnregister 2, .close 1 4, .release 21, .unload 1]

theorem layer_safe_acceptWhileClosing :
    ∃ s tr, layer.run (.empty fun _ => 0) acceptWhileClosing = some (s, tr) ∧
      s.live 1 = false ∧ s.refcnt 1 = 0 ∧ s.fault = false := by
  have hrun : (layer.run (.empty fun _ => 0) acceptWhileClosing).map
      (fun r => (r.1.live 1, r.1.refcnt 1)) = some (false, 0) := by decide
  obtain ⟨⟨s, tr⟩, hr, heq⟩ := Option.map_eq_some_iff.mp hrun
  obtain ⟨hlive, hzero⟩ := Prod.mk.inj heq
  exact ⟨s, tr, hr, hlive, hzero, (layer_safe hr).1⟩

end OShm.Net
