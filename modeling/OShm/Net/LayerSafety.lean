import OShm.Net.Layer

/-! # No call into a module that is gone

The descriptors, the files, the sockets and the calls under way are the holders of the references
of the layer, and the counts are balanced. So a module that a socket or a call still needs has a
reference and is not unloaded, and a call that ends has passed on or given back all it obtained.
-/

namespace OShm.Net

open OShm.Lib OShm.Lib.RefCount

/-! ## Who holds what -/

def Give.res (tab : Nat) : Give → Res
  | .sock a => .sock a
  | .fd n => .fd tab n
  | .file f => .file f

def Purpose.holds (tab : Nat) (p : Purpose) : List Res := p.gives.map (Give.res tab)

/-- What a call has obtained and not yet passed on. -/
def NetPc.holds (tab : Nat) : NetPc → List Res
  | .idle => []
  | .sockAlloc p _ => p.holds tab
  | .familyGet p _ a => .sock a :: p.holds tab
  | .pfCreate p a m => .module m :: .sock a :: p.holds tab
  | .opsGet p a m _ => .module m :: .sock a :: p.holds tab
  | .familyPut p a m => .module m :: .sock a :: p.holds tab
  | .postCreate p a => .sock a :: p.holds tab
  | .outModulePut p a m => .module m :: .sock a :: p.holds tab
  | .mapFd a => [.sock a]
  | .mapFile a fd => [.sock a, .fd tab fd]
  | .fdInstall fd f => [.file f, .fd tab fd]
  | .pairFd1 _ => []
  | .pairFd2 _ fd1 => [.fd tab fd1]
  | .pairCall fd1 fd2 a1 a2 => [.sock a2, .sock a1, .fd tab fd2, .fd tab fd1]
  | .pairFile1 fd1 fd2 a1 a2 => [.sock a1, .sock a2, .fd tab fd2, .fd tab fd1]
  | .pairFile2 fd1 fd2 f1 a2 => [.sock a2, .file f1, .fd tab fd2, .fd tab fd1]
  | .pairInstall fd1 fd2 f1 f2 => [.file f1, .fd tab fd1, .file f2, .fd tab fd2]
  | .acceptFd l => [.file l]
  | .acceptAlloc l fd => [.fd tab fd, .file l]
  | .acceptGet l fd a => [.sock a, .fd tab fd, .file l]
  | .acceptFile l fd a => [.sock a, .fd tab fd, .file l]
  | .acceptCall l fd f => [.file f, .fd tab fd, .file l]
  | .acceptInstall l fd f => [.file f, .fd tab fd, .file l]
  | .unwind gives => gives.map (Give.res tab)

def Purpose.ready : Purpose → List Nat
  | .second _ _ sock1 => [sock1]
  | _ => []

/-- The sockets of a call whose `ops` are set. -/
def NetPc.ready : NetPc → List Nat
  | .sockAlloc p _ => p.ready
  | .familyGet p _ _ => p.ready
  | .pfCreate p _ _ => p.ready
  | .opsGet p _ _ _ => p.ready
  | .familyPut p a _ => a :: p.ready
  | .postCreate p a => a :: p.ready
  | .mapFd a => [a]
  | .mapFile a _ => [a]
  | .pairCall _ _ a1 a2 => [a1, a2]
  | .pairFile1 _ _ a1 a2 => [a1, a2]
  | .pairFile2 _ _ _ a2 => [a2]
  | .acceptFile _ _ a => [a]
  | _ => []

/-- The sockets of a call whose `ops` are not set yet. -/
def NetPc.bare : NetPc → List Nat
  | .familyGet _ _ a => [a]
  | .pfCreate _ a _ => [a]
  | .opsGet _ a _ _ => [a]
  | .acceptGet _ _ a => [a]
  | _ => []

theorem Purpose.sock_mem_holds {p : Purpose} {a : Nat} (tab : Nat) (h : a ∈ p.ready) :
    .sock a ∈ p.holds tab := by
  cases p with
  | second fd1 fd2 sock1 =>
      obtain rfl : a = sock1 := by simpa [Purpose.ready] using h
      simp [Purpose.holds, Purpose.gives, Give.res]
  | _ => cases h

theorem NetPc.sock_mem_holds {p : NetPc} {a : Nat} (tab : Nat) (h : a ∈ p.ready ∨ a ∈ p.bare) :
    .sock a ∈ p.holds tab := by
  have hp := @Purpose.sock_mem_holds
  cases p <;> simp only [NetPc.ready, NetPc.bare, NetPc.holds, List.mem_cons, List.not_mem_nil,
    or_false, false_or, reduceCtorEq, Res.sock.injEq] at h ⊢ <;> grind

namespace Layer

def sockOwns : Option (Option Nat) → List Res
  | some (some m) => [.module m]
  | _ => []

def fileOwns : Option SockFile → List Res
  | some f => [.sock f.sock]
  | none => []

def entryOwns : Option FdEntry → List Res
  | some (.file f) => [.file f]
  | _ => []

def owns (s : Layer) : Holder → List Res
  | .thread t => (s.pc t).holds (s.tab t)
  | .sock a => sockOwns (s.socks a)
  | .file f => fileOwns (s.files f)
  | .entry tab n => entryOwns (s.fds tab n)

def fileCount : Option SockFile → Nat
  | some f => f.count
  | none => 0

/-- A socket and a reserved number exist at most once. -/
def count (s : Layer) : Res → Nat
  | .module m => s.refcnt m
  | .file f => fileCount (s.files f)
  | .sock a => if (s.socks a).isSome then 1 else 0
  | .fd tab n => if s.fds tab n = some .reserved then 1 else 0

variable {s : Layer} {t a f m n tab : Nat} {p : NetPc}

@[simp] theorem tab_moduleGet : (s.moduleGet m).tab = s.tab := rfl
@[simp] theorem tab_setSock (o : Option (Option Nat)) : (s.setSock a o).tab = s.tab := rfl
@[simp] theorem tab_setFile (o : Option SockFile) : (s.setFile f o).tab = s.tab := rfl
@[simp] theorem tab_setFd (o : Option FdEntry) : (s.setFd tab n o).tab = s.tab := rfl

@[simp] theorem owns_setPc :
    (s.setPc t p).owns = Function.update s.owns (.thread t) (p.holds (s.tab t)) := by
  funext h
  cases h with
  | thread u =>
      by_cases hu : u = t
      · subst hu
        simp [owns, setPc]
      · simp [owns, setPc, hu]
  | _ => rfl

@[simp] theorem owns_setSock (o : Option (Option Nat)) :
    (s.setSock a o).owns = Function.update s.owns (.sock a) (sockOwns o) := by
  funext h
  cases h with
  | sock b =>
      by_cases hb : b = a
      · subst hb
        simp [owns, setSock]
      · simp [owns, setSock, hb]
  | _ => rfl

@[simp] theorem owns_setFile (o : Option SockFile) :
    (s.setFile f o).owns = Function.update s.owns (.file f) (fileOwns o) := by
  funext h
  cases h with
  | file g =>
      by_cases hg : g = f
      · subst hg
        simp [owns, setFile]
      · simp [owns, setFile, hg]
  | _ => rfl

@[simp] theorem owns_setFd (o : Option FdEntry) :
    (s.setFd tab n o).owns = Function.update s.owns (.entry tab n) (entryOwns o) := by
  funext h
  cases h with
  | entry u k =>
      by_cases hu : u = tab
      · subst hu
        by_cases hk : k = n
        · subst hk
          simp [owns, setFd]
        · simp [owns, setFd, hk]
      · simp [owns, setFd, hu]
  | _ => rfl

@[simp] theorem owns_moduleGet : (s.moduleGet m).owns = s.owns := by
  funext h
  cases h <;> rfl

@[simp] theorem count_setPc : (s.setPc t p).count = s.count := by
  funext o
  cases o <;> rfl

@[simp] theorem count_moduleGet :
    (s.moduleGet m).count = Function.update s.count (.module m) (s.refcnt m + 1) := by
  funext o
  cases o with
  | module k =>
      by_cases hk : k = m
      · subst hk
        simp [count, moduleGet]
      · simp [count, moduleGet, hk]
  | _ => rfl

@[simp] theorem count_setSock (o : Option (Option Nat)) :
    (s.setSock a o).count = Function.update s.count (.sock a) (if o.isSome then 1 else 0) := by
  funext r
  cases r with
  | sock b =>
      by_cases hb : b = a
      · subst hb
        simp [count, setSock]
      · simp [count, setSock, hb]
  | _ => rfl

@[simp] theorem count_setFile (o : Option SockFile) :
    (s.setFile f o).count = Function.update s.count (.file f) (fileCount o) := by
  funext r
  cases r with
  | file g =>
      by_cases hg : g = f
      · subst hg
        simp [count, setFile]
      · simp [count, setFile, hg]
  | _ => rfl

@[simp] theorem count_setFd (o : Option FdEntry) : (s.setFd tab n o).count =
    Function.update s.count (.fd tab n) (if o = some .reserved then 1 else 0) := by
  funext r
  cases r with
  | fd u k =>
      by_cases hu : u = tab
      · subst hu
        by_cases hk : k = n
        · subst hk
          simp [count, setFd]
        · simp [count, setFd, hk]
      · simp [count, setFd, hu]
  | _ => rfl

/-! ## The invariant -/

structure Safe (s : Layer) : Prop where
  quiet : s.fault = false
  balanced : Balanced s.count s.owns
  /-- A module with references is not unloaded. -/
  loaded : ∀ m, 0 < s.refcnt m → s.live m = true
  ready : ∀ t a, a ∈ (s.pc t).ready → ∃ m, s.socks a = some (some m)
  bare : ∀ t a, a ∈ (s.pc t).bare → s.socks a = some none
  filed : ∀ f x, s.files f = some x → ∃ m, s.socks x.sock = some (some m)

namespace Safe

theorem sock_unique (hs : s.Safe) {h h' : Holder} (ho : .sock a ∈ s.owns h)
    (ho' : .sock a ∈ s.owns h') : h = h' := by
  refine hs.balanced.owner_unique ?_ ho ho'
  change (if (s.socks a).isSome then 1 else 0) ≤ 1
  split <;> omega

/-- A step touches the sockets of one holder only. -/
theorem holder_step (hs : s.Safe) (h : Holder) {s' : Layer} (hquiet : s'.fault = false)
    (hbalanced : Balanced s'.count s'.owns) (hloaded : ∀ m, 0 < s'.refcnt m → s'.live m = true)
    (hsocks : ∀ a, s'.socks a = s.socks a ∨ s.socks a = none ∨ .sock a ∈ s.owns h)
    (hpc : ∀ u, (s'.pc u = s.pc u ∧ h ≠ .thread u) ∨
      ((∀ a ∈ (s'.pc u).ready, ∃ m, s'.socks a = some (some m)) ∧
        ∀ a ∈ (s'.pc u).bare, s'.socks a = some none))
    (hfiled : ∀ f x, s'.files f = some x →
      ((∃ y, s.files f = some y ∧ y.sock = x.sock) ∧ h ≠ .file f) ∨
        ∃ m, s'.socks x.sock = some (some m)) : s'.Safe := by
  have hkept : ∀ {k a o}, h ≠ k → .sock a ∈ s.owns k → s.socks a = some o →
      s'.socks a = some o := by
    intro k a o hne hown ho
    rcases hsocks a with heq | hnone | hmine
    · rw [heq, ho]
    · cases ho.symm.trans hnone
    · exact absurd (hs.sock_unique hmine hown) hne
  refine ⟨hquiet, hbalanced, hloaded, ?_, ?_, ?_⟩
  · intro u a ha
    rcases hpc u with ⟨heq, hne⟩ | ⟨hready, -⟩
    · rw [heq] at ha
      obtain ⟨m, hm⟩ := hs.ready u a ha
      exact ⟨m, hkept hne (NetPc.sock_mem_holds _ (Or.inl ha)) hm⟩
    · exact hready a ha
  · intro u a ha
    rcases hpc u with ⟨heq, hne⟩ | ⟨-, hbare⟩
    · rw [heq] at ha
      exact hkept hne (NetPc.sock_mem_holds _ (Or.inr ha)) (hs.bare u a ha)
    · exact hbare a ha
  · intro f x hx
    rcases hfiled f x hx with ⟨⟨y, hy, heq⟩, hne⟩ | hops
    · obtain ⟨m, hm⟩ := hs.filed f y hy
      rw [← heq]
      refine ⟨m, hkept hne ?_ hm⟩
      simp [owns, hy, fileOwns]
    · exact hops

theorem thread_step (hs : s.Safe) {s' : Layer} (hpc : s'.pc = Function.update s.pc t p)
    (hquiet : s'.fault = false) (hbalanced : Balanced s'.count s'.owns)
    (hloaded : ∀ m, 0 < s'.refcnt m → s'.live m = true)
    (hsocks : ∀ a, s'.socks a = s.socks a ∨ s.socks a = none ∨ .sock a ∈ s.owns (.thread t))
    (hready : ∀ a ∈ p.ready, ∃ m, s'.socks a = some (some m))
    (hbare : ∀ a ∈ p.bare, s'.socks a = some none)
    (hfiled : ∀ f x, s'.files f = some x → (∃ y, s.files f = some y ∧ y.sock = x.sock) ∨
      ∃ m, s'.socks x.sock = some (some m)) : s'.Safe := by
  refine hs.holder_step (.thread t) hquiet hbalanced hloaded hsocks ?_ ?_
  · intro u
    by_cases hu : u = t
    · subst hu
      rw [hpc, Function.update_self]
      exact Or.inr ⟨hready, hbare⟩
    · left
      rw [hpc, Function.update_of_ne hu]
      exact ⟨rfl, by simpa using Ne.symm hu⟩
  · intro f x hx
    exact (hfiled f x hx).imp_left fun h => ⟨h, by simp⟩

theorem callModule_eq (hs : s.Safe) (hm : 0 < s.refcnt m) : s.callModule m = s := by
  simp [callModule, hs.loaded m hm]

theorem refcnt_pos (hs : s.Safe) {h : Holder} (ho : .module m ∈ s.owns h) : 0 < s.refcnt m :=
  hs.balanced.pos ho

theorem goto (hs : s.Safe) (hp : (p.holds (s.tab t)).Perm (s.owns (.thread t)))
    (hready : ∀ a ∈ p.ready, a ∈ (s.pc t).ready) (hbare : ∀ a ∈ p.bare, a ∈ (s.pc t).bare) :
    (s.setPc t p).Safe := by
  refine hs.thread_step rfl hs.quiet ?_ hs.loaded (fun a => Or.inl rfl)
    (fun a ha => hs.ready t a (hready a ha)) (fun a ha => hs.bare t a (hbare a ha))
    (fun f x hx => Or.inl ⟨x, hx, rfl⟩)
  rw [owns_setPc, count_setPc]
  exact hs.balanced.permute hp

theorem familyGet (hs : s.Safe) (hlive : s.live m = true)
    (hp : (p.holds (s.tab t)).Perm (.module m :: s.owns (.thread t)))
    (hready : ∀ a ∈ p.ready, a ∈ (s.pc t).ready) (hbare : ∀ a ∈ p.bare, a ∈ (s.pc t).bare) :
    ((s.moduleGet m).setPc t p).Safe := by
  refine hs.thread_step rfl hs.quiet ?_ ?_ (fun a => Or.inl rfl)
    (fun a ha => hs.ready t a (hready a ha)) (fun a ha => hs.bare t a (hbare a ha))
    (fun f x hx => Or.inl ⟨x, hx, rfl⟩)
  · rw [owns_setPc, count_setPc, owns_moduleGet, count_moduleGet]
    exact hs.balanced.take hp
  · intro k hk
    by_cases hkm : k = m
    · exact hkm ▸ hlive
    · exact hs.loaded k (by simpa [moduleGet, setPc, hkm] using hk)

theorem modulePut_eq (hm : 0 < s.refcnt m) : s.modulePut m =
    { s with refcnt := Function.update s.refcnt m (s.refcnt m - 1) } := by
  rw [modulePut, if_neg (by omega)]

theorem count_refcnt (k : Nat) : { s with refcnt := Function.update s.refcnt m k }.count =
    Function.update s.count (.module m) k := by
  funext o
  cases o with
  | module i =>
      by_cases hi : i = m
      · subst hi
        simp [count]
      · simp [count, hi]
  | _ => rfl

theorem owns_refcnt (r : Nat → Nat) : { s with refcnt := r }.owns = s.owns := by
  funext h
  cases h <;> rfl

theorem loaded_drop (hs : s.Safe) (k : Nat)
    (hk : 0 < Function.update s.refcnt m (s.refcnt m - 1) k) : s.live k = true := by
  refine hs.loaded k ?_
  by_cases hkm : k = m
  · subst hkm
    rw [Function.update_self] at hk
    omega
  · rwa [Function.update_of_ne hkm] at hk

theorem familyPut (hs : s.Safe)
    (hp : (s.owns (.thread t)).Perm (.module m :: p.holds (s.tab t)))
    (hready : ∀ a ∈ p.ready, a ∈ (s.pc t).ready) (hbare : ∀ a ∈ p.bare, a ∈ (s.pc t).bare) :
    ((s.modulePut m).setPc t p).Safe := by
  have hown : .module m ∈ s.owns (.thread t) := hp.mem_iff.mpr List.mem_cons_self
  rw [modulePut_eq (hs.refcnt_pos hown)]
  refine hs.thread_step rfl hs.quiet ?_ hs.loaded_drop (fun a => Or.inl rfl)
    (fun a ha => hs.ready t a (hready a ha)) (fun a ha => hs.bare t a (hbare a ha))
    (fun f x hx => Or.inl ⟨x, hx, rfl⟩)
  rw [owns_setPc, count_setPc, owns_refcnt, count_refcnt]
  exact hs.balanced.drop hp

/-! ## Sockets -/

theorem sockAlloc (hs : s.Safe) (hfree : s.socks a = none)
    (hp : (p.holds (s.tab t)).Perm (.sock a :: s.owns (.thread t)))
    (hready : ∀ b ∈ p.ready, b ∈ (s.pc t).ready)
    (hbare : ∀ b ∈ p.bare, b = a) : ((s.setSock a (some none)).setPc t p).Safe := by
  have hne : ∀ b m, s.socks b = some (some m) → b ≠ a := by
    rintro b m hb rfl
    cases hb.symm.trans hfree
  refine hs.thread_step rfl hs.quiet ?_ hs.loaded ?_ ?_ ?_ (fun f x hx => Or.inl ⟨x, hx, rfl⟩)
  · have hzero : s.count (.sock a) = 0 := by simp [count, hfree]
    have hsame : Function.update s.owns (.sock a) (sockOwns (some none)) = s.owns := by
      rw [Function.update_eq_self_iff]
      simp [owns, hfree, sockOwns]
    have htake := hs.balanced.take hp
    rw [hzero] at htake
    rw [owns_setPc, count_setPc, owns_setSock, count_setSock, hsame]
    exact htake
  · intro b
    by_cases hb : b = a
    · exact Or.inr (Or.inl (hb ▸ hfree))
    · left
      simp [setSock, setPc, hb]
  · intro b hb
    obtain ⟨m, hm⟩ := hs.ready t b (hready b hb)
    exact ⟨m, by simpa [setSock, setPc, hne b m hm] using hm⟩
  · intro b hb
    obtain rfl := hbare b hb
    simp [setSock, setPc]

/-- A reference for the operations of a new socket, from `try_module_get` or `__module_get`. -/
theorem setOps (hs : s.Safe) (hbare : a ∈ (s.pc t).bare) (hlive : s.live m = true)
    (hp : (p.holds (s.tab t)).Perm (s.owns (.thread t)))
    (hready : ∀ b ∈ p.ready, b = a ∨ b ∈ (s.pc t).ready) (hnone : p.bare = []) :
    (((s.moduleGet m).setSock a (some (some m))).setPc t p).Safe := by
  have hsock := hs.bare t a hbare
  refine hs.thread_step rfl hs.quiet ?_ ?_ ?_ ?_ (by simp [hnone])
    (fun f x hx => Or.inl ⟨x, hx, rfl⟩)
  · have hbefore : [Res.module m].Perm (.module m :: s.owns (.sock a)) := by
      simp [owns, hsock, sockOwns]
    have hsame : Function.update s.count (.sock a) 1 = s.count := by
      rw [Function.update_eq_self_iff]
      simp [count, hsock]
    rw [owns_setPc, count_setPc, owns_setSock, count_setSock, owns_moduleGet, count_moduleGet,
      Function.update_comm (by simp)]
    simp only [Option.isSome_some, if_true, hsame]
    refine (hs.balanced.take hbefore).permute ?_
    simpa using hp
  · intro k hk
    by_cases hkm : k = m
    · exact hkm ▸ hlive
    · exact hs.loaded k (by simpa [moduleGet, setPc, setSock, hkm] using hk)
  · intro b
    by_cases hb : b = a
    · exact Or.inr (Or.inr (hb ▸ NetPc.sock_mem_holds _ (Or.inr hbare)))
    · left
      simp [setSock, setPc, moduleGet, hb]
  · intro b hb
    by_cases hba : b = a
    · exact ⟨m, by simp [setSock, setPc, hba]⟩
    · obtain ⟨k, hk⟩ := hs.ready t b ((hready b hb).resolve_left hba)
      exact ⟨k, by simpa [setSock, setPc, moduleGet, hba] using hk⟩

/-- A socket that is released gives the reference to its module back. -/
theorem sockRelease_spec (hs : s.Safe) (hsock : (s.socks a).isSome) :
    ∃ r, s.sockRelease a = { s with refcnt := r }.setSock a none ∧
      (∀ k, 0 < r k → s.live k = true) ∧
      Balanced { s with refcnt := r }.count (Function.update s.owns (.sock a) []) := by
  unfold Layer.sockRelease
  split
  · rename_i hnone
    simp [hnone] at hsock
  · rename_i hbare
    refine ⟨s.refcnt, rfl, hs.loaded, hs.balanced.permute ?_⟩
    simp [owns, hbare, sockOwns]
  · rename_i k hops
    have hown : s.owns (.sock a) = [.module k] := by simp [owns, hops, sockOwns]
    have hpos : 0 < s.refcnt k := hs.refcnt_pos (h := .sock a) (by simp [hown])
    refine ⟨Function.update s.refcnt k (s.refcnt k - 1), ?_, hs.loaded_drop, ?_⟩
    · rw [hs.callModule_eq hpos]
      exact modulePut_eq hpos
    · rw [count_refcnt]
      exact hs.balanced.drop (h := .sock a) (by rw [hown])

theorem isSome_of_owns (hs : s.Safe) {h : Holder} (ho : .sock a ∈ s.owns h) :
    (s.socks a).isSome := by
  have hpos := hs.balanced.pos ho
  by_contra hnone
  simp [count, hnone] at hpos

theorem sockRelease (hs : s.Safe)
    (hp : (s.owns (.thread t)).Perm (.sock a :: p.holds (s.tab t)))
    (hready : p.ready = []) (hbare : p.bare = []) : ((s.sockRelease a).setPc t p).Safe := by
  have hmine : .sock a ∈ s.owns (.thread t) := hp.mem_iff.mpr List.mem_cons_self
  have hsome := hs.isSome_of_owns hmine
  obtain ⟨r, heq, hlive, hdrop⟩ := hs.sockRelease_spec hsome
  rw [heq]
  refine hs.thread_step rfl hs.quiet ?_ hlive ?_ (by simp [hready]) (by simp [hbare])
    (fun f x hx => Or.inl ⟨x, hx, rfl⟩)
  · have hgone := hdrop.drop (h := .thread t) (o := .sock a) (by simpa using hp)
    have hone : { s with refcnt := r }.count (.sock a) = 1 := if_pos hsome
    rw [hone] at hgone
    rw [owns_setPc, count_setPc, owns_setSock, count_setSock, owns_refcnt]
    exact hgone
  · intro b
    by_cases hb : b = a
    · exact Or.inr (Or.inr (hb ▸ hmine))
    · left
      simp [setSock, setPc, hb]

/-! ## Descriptors and files -/

theorem reserve (hs : s.Safe) (hfree : s.fds (s.tab t) n = none)
    (hp : (p.holds (s.tab t)).Perm (.fd (s.tab t) n :: s.owns (.thread t)))
    (hready : ∀ a ∈ p.ready, a ∈ (s.pc t).ready) (hbare : ∀ a ∈ p.bare, a ∈ (s.pc t).bare) :
    ((s.setFd (s.tab t) n (some .reserved)).setPc t p).Safe := by
  refine hs.thread_step rfl hs.quiet ?_ hs.loaded (fun a => Or.inl rfl)
    (fun a ha => hs.ready t a (hready a ha)) (fun a ha => hs.bare t a (hbare a ha))
    (fun f x hx => Or.inl ⟨x, hx, rfl⟩)
  have hzero : s.count (.fd (s.tab t) n) = 0 := by simp [count, hfree]
  have hsame : Function.update s.owns (.entry (s.tab t) n) (entryOwns (some .reserved)) =
      s.owns := by
    rw [Function.update_eq_self_iff]
    simp [owns, hfree, entryOwns]
  have htake := hs.balanced.take hp
  rw [hzero] at htake
  rw [owns_setPc, count_setPc, owns_setFd, count_setFd, hsame]
  exact htake

theorem fd_reserved (hs : s.Safe) (ho : .fd tab n ∈ s.owns (.thread t)) :
    s.fds tab n = some .reserved := by
  have hpos := hs.balanced.pos ho
  by_contra hne
  simp [count, hne] at hpos

theorem putFd (hs : s.Safe)
    (hp : (s.owns (.thread t)).Perm (.fd (s.tab t) n :: p.holds (s.tab t)))
    (hready : p.ready = []) (hbare : p.bare = []) :
    ((s.setFd (s.tab t) n none).setPc t p).Safe := by
  have hres := hs.fd_reserved (hp.mem_iff.mpr List.mem_cons_self)
  refine hs.thread_step rfl hs.quiet ?_ hs.loaded (fun a => Or.inl rfl) (by simp [hready])
    (by simp [hbare]) (fun f x hx => Or.inl ⟨x, hx, rfl⟩)
  have hone : s.count (.fd (s.tab t) n) = 1 := by simp [count, hres]
  have hsame : Function.update s.owns (.entry (s.tab t) n) (entryOwns none) = s.owns := by
    rw [Function.update_eq_self_iff]
    simp [owns, hres, entryOwns]
  have hdrop := hs.balanced.drop hp
  rw [hone] at hdrop
  rw [owns_setPc, count_setPc, owns_setFd, count_setFd, hsame]
  exact hdrop

/-- `fd_install`: the file passes from the call to the table. -/
theorem install (hs : s.Safe)
    (hp : (s.owns (.thread t)).Perm (.file f :: .fd (s.tab t) n :: p.holds (s.tab t)))
    (hready : ∀ a ∈ p.ready, a ∈ (s.pc t).ready) (hbare : ∀ a ∈ p.bare, a ∈ (s.pc t).bare) :
    ((s.setFd (s.tab t) n (some (.file f))).setPc t p).Safe := by
  have hres := hs.fd_reserved (hp.mem_iff.mpr (by simp) : .fd (s.tab t) n ∈ _)
  refine hs.thread_step rfl hs.quiet ?_ hs.loaded (fun a => Or.inl rfl)
    (fun a ha => hs.ready t a (hready a ha)) (fun a ha => hs.bare t a (hbare a ha))
    (fun f x hx => Or.inl ⟨x, hx, rfl⟩)
  have hentry : [Res.file f].Perm (.file f :: s.owns (.entry (s.tab t) n)) := by
    simp [owns, hres, entryOwns]
  have hpass := hs.balanced.pass (by simp) hp hentry
  have hdrop := hpass.drop (h := .thread t) (o := .fd (s.tab t) n) (l := p.holds (s.tab t))
    (by simp)
  have hone : s.count (.fd (s.tab t) n) = 1 := by simp [count, hres]
  rw [hone] at hdrop
  rw [owns_setPc, count_setPc, owns_setFd, count_setFd]
  simpa [Function.update_comm, entryOwns] using hdrop

/-- `sock_alloc_file`: the socket passes from the call to the file. -/
theorem allocFile (hs : s.Safe) {l : List Res} (hfree : s.files f = none)
    (hsock : a ∈ (s.pc t).ready) (hown : (s.owns (.thread t)).Perm (.sock a :: l))
    (hp : (p.holds (s.tab t)).Perm (.file f :: l))
    (hready : ∀ b ∈ p.ready, b ∈ (s.pc t).ready) (hbare : ∀ b ∈ p.bare, b ∈ (s.pc t).bare) :
    ((s.setFile f (some ⟨a, 1⟩)).setPc t p).Safe := by
  refine hs.thread_step rfl hs.quiet ?_ hs.loaded (fun a => Or.inl rfl)
    (fun a ha => hs.ready t a (hready a ha)) (fun a ha => hs.bare t a (hbare a ha)) ?_
  · have hfile : [Res.sock a].Perm (.sock a :: s.owns (.file f)) := by
      simp [owns, hfree, fileOwns]
    have hpass := hs.balanced.pass (by simp) hown hfile
    have htake := hpass.take (h := .thread t) (o := .file f) (l := p.holds (s.tab t))
      (by simpa using hp)
    have hzero : s.count (.file f) = 0 := by simp [count, hfree, fileCount]
    rw [hzero] at htake
    rw [owns_setPc, count_setPc, owns_setFile, count_setFile]
    simpa [Function.update_comm, fileOwns, fileCount] using htake
  · intro g x hx
    by_cases hg : g = f
    · right
      subst hg
      obtain rfl : ⟨a, 1⟩ = x := by simpa [setFile, setPc] using hx
      exact hs.ready t a hsock
    · exact Or.inl ⟨x, by simpa [setFile, setPc, hg] using hx, rfl⟩

theorem file_counted (hs : s.Safe) {h : Holder} (ho : .file f ∈ s.owns h) :
    ∃ a n, s.files f = some ⟨a, n + 1⟩ := by
  have hpos := hs.balanced.pos ho
  cases hf : s.files f with
  | none => simp [count, hf, fileCount] at hpos
  | some x =>
      obtain ⟨a, n⟩ := x
      obtain ⟨k, rfl⟩ : ∃ k, n = k + 1 := by
        refine ⟨n - 1, ?_⟩
        simp only [count, hf, fileCount] at hpos
        omega
      exact ⟨a, k, rfl⟩

theorem entry_counted (hs : s.Safe) (hfd : s.fds tab n = some (.file f)) :
    ∃ a k, s.files f = some ⟨a, k + 1⟩ := by
  have hown : .file f ∈ s.owns (.entry tab n) := by simp [owns, hfd, entryOwns]
  exact hs.file_counted hown

theorem owns_recount {k : Nat} (hf : s.files f = some ⟨a, n⟩) :
    Function.update s.owns (.file f) (fileOwns (some ⟨a, k⟩)) = s.owns := by
  rw [Function.update_eq_self_iff]
  simp [owns, hf, fileOwns]

theorem recount_sock {k g : Nat} {x : SockFile} (hf : s.files f = some ⟨a, n⟩)
    (hx : (s.setFile f (some ⟨a, k⟩)).files g = some x) :
    ∃ y, s.files g = some y ∧ y.sock = x.sock := by
  by_cases hg : g = f
  · subst hg
    obtain rfl : ⟨a, k⟩ = x := by simpa [setFile] using hx
    exact ⟨⟨a, n⟩, hf, rfl⟩
  · exact ⟨x, by simpa [setFile, hg] using hx, rfl⟩

theorem fput (hs : s.Safe) (hp : (s.owns (.thread t)).Perm (.file f :: p.holds (s.tab t)))
    (hready : p.ready = []) (hbare : p.bare = []) : ((s.fput f).setPc t p).Safe := by
  obtain ⟨a, n, hf⟩ := hs.file_counted (hp.mem_iff.mpr List.mem_cons_self)
  have heq : s.fput f = s.setFile f (some ⟨a, n⟩) := by simp [Layer.fput, hf]
  rw [heq]
  refine hs.thread_step rfl hs.quiet ?_ hs.loaded (fun a => Or.inl rfl) (by simp [hready])
    (by simp [hbare]) (fun g x hx => Or.inl (recount_sock hf hx))
  have hdrop := hs.balanced.drop hp
  have hcount : s.count (.file f) = n + 1 := by simp [count, hf, fileCount]
  rw [hcount] at hdrop
  rw [owns_setPc, count_setPc, owns_setFile, count_setFile, owns_recount hf]
  exact hdrop

theorem fdget (hs : s.Safe) (hfd : s.fds tab n = some (.file f))
    (hp : (p.holds (s.tab t)).Perm (.file f :: s.owns (.thread t)))
    (hready : p.ready = []) (hbare : p.bare = []) : ((s.getFile f).setPc t p).Safe := by
  obtain ⟨a, k, hf⟩ := hs.entry_counted hfd
  have heq : s.getFile f = s.setFile f (some ⟨a, k + 2⟩) := by simp [Layer.getFile, hf]
  rw [heq]
  refine hs.thread_step rfl hs.quiet ?_ hs.loaded (fun a => Or.inl rfl) (by simp [hready])
    (by simp [hbare]) (fun g x hx => Or.inl (recount_sock hf hx))
  have htake := hs.balanced.take hp
  have hcount : s.count (.file f) = k + 1 := by simp [count, hf, fileCount]
  rw [hcount] at htake
  rw [owns_setPc, count_setPc, owns_setFile, count_setFile, owns_recount hf]
  exact htake

/-- Nothing but counts, descriptors and the places of no call changes. -/
theorem table_step (hs : s.Safe) {s' : Layer} (hpc : s'.pc = s.pc) (hfault : s'.fault = s.fault)
    (hrefcnt : s'.refcnt = s.refcnt) (hlive : s'.live = s.live) (hsocks : s'.socks = s.socks)
    (hbalanced : Balanced s'.count s'.owns)
    (hfiled : ∀ g x, s'.files g = some x → ∃ y, s.files g = some y ∧ y.sock = x.sock) :
    s'.Safe := by
  refine ⟨hfault.trans hs.quiet, hbalanced, ?_, ?_, ?_, ?_⟩
  · rw [hrefcnt, hlive]
    exact hs.loaded
  · rw [hpc, hsocks]
    exact hs.ready
  · rw [hpc, hsocks]
    exact hs.bare
  · intro g x hx
    obtain ⟨y, hy, heq⟩ := hfiled g x hx
    rw [hsocks, ← heq]
    exact hs.filed g y hy

theorem close (hs : s.Safe) (hfd : s.fds tab n = some (.file f)) :
    ((s.setFd tab n none).fput f).Safe := by
  have hown : s.owns (.entry tab n) = [.file f] := by simp [owns, hfd, entryOwns]
  obtain ⟨a, k, hf⟩ := hs.entry_counted hfd
  have heq : (s.setFd tab n none).fput f = (s.setFd tab n none).setFile f (some ⟨a, k⟩) := by
    have hf' : (s.setFd tab n none).files f = some ⟨a, k + 1⟩ := hf
    simp [Layer.fput, hf']
  rw [heq]
  refine hs.table_step rfl rfl rfl rfl rfl ?_ (fun g x hx => recount_sock hf hx)
  have hdrop := hs.balanced.drop (h := .entry tab n) (o := .file f) (l := []) (by rw [hown])
  have hcount : s.count (.file f) = k + 1 := by simp [count, hf, fileCount]
  have hfree : Function.update s.count (.fd tab n) 0 = s.count := by
    rw [Function.update_eq_self_iff]
    simp [count, hfd]
  have hfiles : (s.setFd tab n none).files f = some ⟨a, k + 1⟩ := hf
  rw [hcount] at hdrop
  rw [owns_setFile, count_setFile, owns_recount hfiles, owns_setFd, count_setFd]
  simpa [entryOwns, fileCount, hfree] using hdrop

theorem dup (hs : s.Safe) {k : Nat} (hfd : s.fds tab n = some (.file f))
    (hnew : s.fds tab k = none) : ((s.getFile f).setFd tab k (some (.file f))).Safe := by
  obtain ⟨a, i, hf⟩ := hs.entry_counted hfd
  have heq : s.getFile f = s.setFile f (some ⟨a, i + 2⟩) := by simp [Layer.getFile, hf]
  rw [heq]
  refine hs.table_step rfl rfl rfl rfl rfl ?_ (fun g x hx => recount_sock hf hx)
  have htake := hs.balanced.take (h := .entry tab k) (o := .file f) (l := [.file f])
    (by simp [owns, hnew, entryOwns])
  have hcount : s.count (.file f) = i + 1 := by simp [count, hf, fileCount]
  have hfree : Function.update s.count (.fd tab k) 0 = s.count := by
    rw [Function.update_eq_self_iff]
    simp [count, hnew]
  rw [hcount] at htake
  rw [owns_setFd, count_setFd, owns_setFile, count_setFile, owns_recount hf,
    Function.update_comm (by simp)]
  simpa [entryOwns, fileCount, hfree] using htake

/-- `sock_close`: the last reference to the file is gone. -/
theorem release (hs : s.Safe) (hf : s.files f = some ⟨a, 0⟩) :
    ((s.sockRelease a).setFile f none).Safe := by
  have hown : s.owns (.file f) = [.sock a] := by simp [owns, hf, fileOwns]
  have hsome := hs.isSome_of_owns (h := .file f) (a := a) (by simp [hown])
  obtain ⟨r, heq, hlive, hdrop⟩ := hs.sockRelease_spec hsome
  rw [heq]
  refine hs.holder_step (.file f) hs.quiet ?_ hlive ?_ (fun u => Or.inl ⟨rfl, by simp⟩) ?_
  · have hgone := hdrop.drop (h := .file f) (o := .sock a) (l := []) (by simp [hown])
    have hone : { s with refcnt := r }.count (.sock a) = 1 := if_pos hsome
    have hzero : Function.update { s with refcnt := r }.count (.file f) 0 =
        { s with refcnt := r }.count := by
      rw [Function.update_eq_self_iff]
      simp [count, hf, fileCount]
    rw [hone] at hgone
    rw [owns_setFile, count_setFile, owns_setSock, count_setSock, owns_refcnt,
      Function.update_comm (by simp)]
    simpa [fileOwns, fileCount, sockOwns, hzero] using hgone
  · intro b
    by_cases hb : b = a
    · right
      right
      simp [hown, hb]
    · left
      simp [setSock, setFile, hb]
  · intro g x hx
    by_cases hg : g = f
    · subst hg
      simp [setFile] at hx
    · exact Or.inl ⟨⟨x, by simpa [setFile, setSock, hg] using hx, rfl⟩, by simpa using Ne.symm hg⟩

/-- Modules come and go while nobody refers to them. -/
theorem setLive (hs : s.Safe) (hzero : s.refcnt m = 0) (b : Bool) :
    { s with live := Function.update s.live m b }.Safe := by
  refine ⟨hs.quiet, ?_, ?_, hs.ready, hs.bare, hs.filed⟩
  · exact hs.balanced
  · intro k hk
    have hkm : k ≠ m := by
      rintro rfl
      exact absurd hzero (Nat.ne_of_gt hk)
    simpa [hkm] using hs.loaded k hk

/-! ## Steps -/

theorem callOps_eq (hs : s.Safe) (hsock : s.socks a = some (some m)) : s.callOps a = s := by
  have hpos : 0 < s.refcnt m := hs.refcnt_pos (h := .sock a) (by simp [owns, hsock, sockOwns])
  simp [callOps, hsock, hs.callModule_eq hpos]

/-- The socket of a file that the call has, with its module. -/
theorem sock_of_file (hs : s.Safe) (ho : .file f ∈ s.owns (.thread t)) :
    ∃ a m, s.sockOf f = some a ∧ s.socks a = some (some m) ∧ 0 < s.refcnt m := by
  obtain ⟨a, n, hf⟩ := hs.file_counted ho
  obtain ⟨m, hm⟩ := hs.filed f _ hf
  have hown : .module m ∈ s.owns (.sock a) := by simp [owns, hm, sockOwns]
  exact ⟨a, m, by simp [sockOf, hf], hm, hs.refcnt_pos hown⟩

theorem give (hs : s.Safe) {g : Give} {gs : List Give} (hpc : s.pc t = .unwind (g :: gs)) :
    ((s.give (s.tab t) g).setPc t (.unwind gs)).Safe := by
  cases g with
  | sock a =>
      refine hs.sockRelease ?_ rfl rfl
      simp [owns, hpc, NetPc.holds, Give.res]
  | fd n =>
      refine hs.putFd ?_ rfl rfl
      simp [owns, hpc, NetPc.holds, Give.res]
  | file f =>
      refine hs.fput ?_ rfl rfl
      simp [owns, hpc, NetPc.holds, Give.res]

/-- A call that fails gives back what it has. -/
theorem unwind (hs : s.Safe) {gs : List Give}
    (hp : (gs.map (Give.res (s.tab t))).Perm (s.owns (.thread t))) :
    (s.setPc t (.unwind gs)).Safe :=
  hs.goto hp (by simp [NetPc.ready]) (by simp [NetPc.bare])

end Safe

end Layer

end OShm.Net
