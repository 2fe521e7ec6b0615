import OShm.Kernel.KvLocking

/-! # Per-bucket locks make the key-value calls atomic

Every interleaving of the accesses of `write_kv` and `read_kv`, by any number of threads of any
number of groups, shows its callers what the atomic object shows: the calls take effect one
after another, each somewhere between its call and its return.
-/

namespace OShm.Kernel

open OShm.Lib OShm.Lib.ChainedTable

/-! ## What holds at each place of the code -/

namespace KvPc

def bucket : KvPc → Option (Fin 1024)
  | .idle | .lock _ | .ret _ => none
  | .empty k | .alloc k _ | .setKey k _ _ | .setValue k _ _ | .setNext k _ _ | .setFirst k _ _
  | .unlock k _ => some (kvHash k)
  | .head c | .test c _ | .next c _ | .found c _ => some c.hash

def node : KvPc → Option Addr
  | .setKey _ _ n | .setValue _ _ n | .setNext _ _ n | .setFirst _ _ n => some n
  | _ => none

end KvPc

/-- A read that has passed `hlist_empty` walks a chain that is not empty. -/
def KvCall.Scans : KvCall → List MyData → Prop
  | .write _ _, _ => True
  | .read _, chain => chain ≠ []

/-- The walk has come to `suf`, and no node before it has the key. -/
structure KvCall.Passed (c : KvCall) (chain pre suf : List MyData) : Prop where
  split : chain = pre ++ suf
  other : ∀ n ∈ pre, n.key ≠ c.key
  scans : c.Scans chain

/-- The chains of the thread's own array and its own object, at each place of the code, and
the status of its call. -/
def KvPc.Holds (table : KvTable) (first : Fin 1024 → Option Addr) (data : Addr → Cell CInt CInt) :
    KvPc → Status KvCall Int → Prop
  | .idle, st => st = .idle
  | .lock c, st => st = .pending c
  | .empty k, st => st = .pending (.read k)
  | .head c, st => st = .pending c ∧ c.Scans (table c.hash)
  | .test c pos, st =>
      st = .pending c ∧ ∃ pre suf, c.Passed (table c.hash) pre suf ∧ pos = front suf
  | .next c pos, st =>
      st = .pending c ∧ ∃ pre n suf, c.Passed (table c.hash) pre (n :: suf) ∧ pos = n.addr ∧
        n.key ≠ c.key
  | .found c pos, st =>
      st = .pending c ∧ ∃ pre n suf, c.Passed (table c.hash) pre (n :: suf) ∧ pos = n.addr ∧
        n.key = c.key
  | .alloc k v, st => st = .pending (.write k v) ∧ find k (table (kvHash k)) = none
  | .setKey k v _, st => st = .pending (.write k v) ∧ find k (table (kvHash k)) = none
  | .setValue k v n, st =>
      st = .pending (.write k v) ∧ find k (table (kvHash k)) = none ∧ (data n).key = k
  | .setNext k v n, st =>
      st = .pending (.write k v) ∧ find k (table (kvHash k)) = none ∧ (data n).key = k ∧
        (data n).value = v
  | .setFirst k v n, st =>
      st = .pending (.write k v) ∧ find k (table (kvHash k)) = none ∧
        data n = ⟨k, v, first (kvHash k)⟩
  | .unlock _ r, st => st = .answered r
  | .ret r, st => st = .answered r

/-- Only the bucket whose lock is held and the thread's own object matter. -/
theorem KvPc.Holds.congr {table table' : KvTable} {first first' : Fin 1024 → Option Addr}
    {data data' : Addr → Cell CInt CInt} {pc : KvPc} {st : Status KvCall Int}
    (h : pc.Holds table first data st)
    (hb : ∀ b, pc.bucket = some b → table' b = table b ∧ first' b = first b)
    (hn : ∀ n, pc.node = some n → data' n = data n) : pc.Holds table' first' data' st := by
  cases pc with
  | idle | lock | empty | unlock | ret => exact h
  | head c | test c | next c | found c =>
      simpa only [Holds, (hb _ rfl).1] using h
  | alloc k v => simpa only [Holds, (hb _ rfl).1] using h
  | setKey k v n | setValue k v n | setNext k v n | setFirst k v n =>
      simpa only [Holds, (hb _ rfl).1, (hb _ rfl).2, hn n rfl] using h

/-! ## The chains in memory -/

variable {T : Type}

/-- The memory holds these tables: every `hlist_head` leads through the cells of its chain,
and no object is in two chains. -/
structure KvMemory.Stores (m : KvMemory T) (table : Addr → KvTable) : Prop where
  linked : ∀ store b, Chain m.data (m.first store b) (table store b)
  apart : ∀ {store b store' b' a}, a ∈ (table store b).map Node.addr →
    a ∈ (table store' b').map Node.addr → store = store' ∧ b = b'
  live : ∀ {store b a}, a ∈ (table store b).map Node.addr → a ∈ m.live

theorem KvHeap.setBucket_table (h : KvHeap) (store : Addr) (b : Fin 1024) (chain : List MyData)
    (st : Addr) (b' : Fin 1024) :
    (h.setBucket store b chain).table st b' =
      if st = store ∧ b' = b then chain else h.table st b' := by
  by_cases hs : st = store
  · subst hs
    by_cases hb : b' = b
    · subst hb
      simp [setBucket]
    · simp [setBucket, hb]
  · simp [setBucket, hs]

theorem KvMemory.setFirst_first (m : KvMemory T) (store : Addr) (b : Fin 1024) (p : Option Addr)
    (st : Addr) (b' : Fin 1024) :
    (m.setFirst store b p).first st b' = if st = store ∧ b' = b then p else m.first st b' := by
  by_cases hs : st = store
  · subst hs
    by_cases hb : b' = b
    · subst hb
      simp [setFirst]
    · simp [setFirst, hb]
  · simp [setFirst, hs]

theorem KvMemory.setLock_lock (m : KvMemory T) (store : Addr) (b : Fin 1024) (o : Option T)
    (st : Addr) (b' : Fin 1024) :
    (m.setLock store b o).lock st b' = if st = store ∧ b' = b then o else m.lock st b' := by
  by_cases hs : st = store
  · subst hs
    by_cases hb : b' = b
    · subst hb
      simp [setLock]
    · simp [setLock, hb]
  · simp [setLock, hs]

namespace KvMemory.Stores

variable {m m' : KvMemory T} {h : KvHeap}

def Unlinked (h : KvHeap) (a : Addr) : Prop := ∀ store b, a ∉ (h.table store b).map Node.addr

theorem same (hm : m.Stores h.table) (hfirst : m'.first = m.first)
    (hdata : ∀ a, m'.data a = m.data a ∨ Unlinked h a) (hlive : ∀ a ∈ m.live, a ∈ m'.live) :
    m'.Stores h.table where
  linked store b := by
    rw [hfirst]
    refine (hm.linked store b).congr fun n hn => ?_
    exact (hdata n.addr).resolve_right fun hu => hu store b (List.mem_map_of_mem hn)
  apart := hm.apart
  live ha := hlive _ (hm.live ha)

theorem replace (hm : m.Stores h.table) {store : Addr} {b : Fin 1024} {chain : List MyData}
    (hchain : Chain m'.data (m'.first store b) chain)
    (hfirst : ∀ st b', ¬ (st = store ∧ b' = b) → m'.first st b' = m.first st b')
    (hdata : ∀ st b', ¬ (st = store ∧ b' = b) → ∀ n ∈ h.table st b', m'.data n.addr = m.data n.addr)
    (hnew : ∀ a ∈ chain.map Node.addr,
      a ∈ (h.table store b).map Node.addr ∨ a ∈ m.live ∧ Unlinked h a)
    (hlive : ∀ a ∈ m.live, a ∈ m'.live) : m'.Stores (h.setBucket store b chain).table := by
  have only : ∀ {st b' a}, ¬ (st = store ∧ b' = b) → a ∈ chain.map Node.addr →
      a ∉ (h.table st b').map Node.addr := by
    intro st b' a hne ha hold
    rcases hnew a ha with hin | ⟨-, hun⟩
    · exact hne (hm.apart hold hin)
    · exact hun st b' hold
  constructor
  · intro st b'
    rw [KvHeap.setBucket_table]
    split
    · rename_i heq
      rw [heq.1, heq.2]
      exact hchain
    · rename_i hne
      rw [hfirst st b' hne]
      exact (hm.linked st b').congr (hdata st b' hne)
  · intro st b₁ st' b₂ a h₁ h₂
    rw [KvHeap.setBucket_table] at h₁ h₂
    split at h₁ <;> split at h₂
    · rename_i e₁ e₂
      exact ⟨e₁.1.trans e₂.1.symm, e₁.2.trans e₂.2.symm⟩
    · rename_i hne
      exact absurd h₂ (only hne h₁)
    · rename_i hne _
      exact absurd h₁ (only hne h₂)
    · exact hm.apart h₁ h₂
  · intro st b' a ha
    rw [KvHeap.setBucket_table] at ha
    split at ha
    · rcases hnew a ha with hin | ⟨hl, -⟩
      · exact hlive a (hm.live hin)
      · exact hlive a hl
    · exact hlive a (hm.live ha)

theorem assign (hm : m.Stores h.table) {store : Addr} {b : Fin 1024} {pre suf : List MyData}
    {n : MyData} (hsplit : h.table store b = pre ++ n :: suf) (v : CInt) :
    (m.setData n.addr { m.data n.addr with value := v }).Stores
      (h.setBucket store b (pre ++ { n with value := v } :: suf)).table := by
  have hn : n.addr ∈ (h.table store b).map Node.addr := by simp [hsplit]
  refine hm.replace ?_ (fun _ _ _ => rfl) ?_ ?_ fun _ ha => ha
  · have hc := hm.linked store b
    rw [hsplit] at hc
    exact hc.assign v
  · intro st b' hne x hx
    refine Function.update_of_ne (fun heq => hne ?_) _ _
    exact hm.apart (heq ▸ List.mem_map_of_mem hx) hn
  · intro a ha
    rw [hsplit]
    exact Or.inl (by simpa using ha)

theorem insert (hm : m.Stores h.table) {store : Addr} {b : Fin 1024} {k v : CInt} {a : Addr}
    (hlive : a ∈ m.live) (hun : Unlinked h a) (hcell : m.data a = ⟨k, v, m.first store b⟩) :
    (m.setFirst store b (some a)).Stores
      (h.setBucket store b (⟨a, k, v⟩ :: h.table store b)).table := by
  have hc := hm.linked store b
  refine hm.replace ?_ ?_ (fun _ _ _ _ _ => rfl) ?_ fun _ ha => ha
  · refine ⟨by simp [setFirst_first], ?_, ?_⟩
    · rw [← hc.pointer]
      exact hcell
    · rw [← hc.pointer]
      exact hc
  · intro st b' hne
    rw [setFirst_first, if_neg hne]
  · intro x hx
    rcases List.mem_cons.mp hx with rfl | hx
    · exact Or.inr ⟨hlive, hun⟩
    · exact Or.inl hx

end KvMemory.Stores

/-! ## The simulation -/

section Simulation

open KvMemory.Stores (Unlinked)

variable (store : T → Addr)

/-- The threads' memory stands for the heap of the atomic object, each lock is held by the
thread that is in its section, and each thread's place agrees with the status of its call. -/
structure KvThreads.Refines (s : KvThreads T) (a : SeqObject.AtomicState KvHeap T KvCall Int) :
    Prop where
  stores : s.mem.Stores a.value.table
  locks : ∀ st b t, s.mem.lock st b = some t ↔ store t = st ∧ (s.pc t).bucket = some b
  holds : ∀ t, (s.pc t).Holds (a.value.table (store t)) (s.mem.first (store t)) s.mem.data
    (a.status t)
  owned : ∀ t n, (s.pc t).node = some n →
    n ∈ s.mem.live ∧ Unlinked a.value n ∧ ∀ u, (s.pc u).node = some n → u = t

variable {store}

namespace KvThreads.Refines

variable {s : KvThreads T} {a : SeqObject.AtomicState KvHeap T KvCall Int}

theorem exclusive (hR : s.Refines store a) {t u : T} {b : Fin 1024}
    (ht : (s.pc t).bucket = some b) (hu : (s.pc u).bucket = some b) (hst : store t = store u) :
    t = u := by
  have h₁ := (hR.locks (store u) b t).mpr ⟨hst, ht⟩
  have h₂ := (hR.locks (store u) b u).mpr ⟨rfl, hu⟩
  exact Option.some.inj (h₁.symm.trans h₂)

variable [DecidableEq T]

/-- A step of `t` that changes only the chain of its own section, its own object and cells of
chains is invisible to the other threads. -/
theorem move (hR : s.Refines store a) (t : T) {m : KvMemory T} {pc : KvPc}
    {a' : SeqObject.AtomicState KvHeap T KvCall Int}
    (hstores : m.Stores a'.value.table)
    (hlocks : ∀ st b u, m.lock st b = some u ↔
      store u = st ∧ (Function.update s.pc t pc u).bucket = some b)
    (hholds : pc.Holds (a'.value.table (store t)) (m.first (store t)) m.data (a'.status t))
    (hstatus : ∀ u, u ≠ t → a'.status u = a.status u)
    (hchains : ∀ st b,
      (a'.value.table st b = a.value.table st b ∧ m.first st b = s.mem.first st b) ∨
      (store t = st ∧ (s.pc t).bucket = some b))
    (hdata : ∀ x, m.data x = s.mem.data x ∨ ¬ Unlinked a.value x ∨ (s.pc t).node = some x)
    (hlive : ∀ x ∈ s.mem.live, x ∈ m.live)
    (hunlinked : ∀ x, Unlinked a.value x → (s.pc t).node ≠ some x → Unlinked a'.value x)
    (howned : ∀ n, pc.node = some n →
      n ∈ m.live ∧ Unlinked a'.value n ∧ ∀ u, u ≠ t → (s.pc u).node ≠ some n) :
    KvThreads.Refines store ⟨m, Function.update s.pc t pc⟩ a' where
  stores := hstores
  locks := hlocks
  holds u := by
    by_cases hu : u = t
    · subst hu
      simpa using hholds
    · simp only [Function.update_of_ne hu, hstatus u hu]
      refine (hR.holds u).congr ?_ ?_
      · intro b hb
        refine (hchains (store u) b).resolve_right ?_
        rintro ⟨hst, ht⟩
        exact hu (hR.exclusive ht hb hst).symm
      · intro n hn
        obtain ⟨-, hun, honly⟩ := hR.owned u n hn
        rcases hdata n with h | h | h
        · exact h
        · exact absurd hun h
        · exact absurd (honly t h).symm hu
  owned u n := by
    by_cases hu : u = t
    · subst hu
      simp only [Function.update_self]
      intro hn
      obtain ⟨hl, hun, honly⟩ := howned n hn
      refine ⟨hl, hun, fun w hw => ?_⟩
      by_contra hne
      rw [Function.update_of_ne hne] at hw
      exact honly w hne hw
    · simp only [Function.update_of_ne hu]
      intro hn
      obtain ⟨hl, hun, honly⟩ := hR.owned u n hn
      refine ⟨hlive n hl, hunlinked n hun fun ht => hu (honly t ht).symm, fun w hw => ?_⟩
      by_cases hw' : w = t
      · subst hw'
        rw [Function.update_self] at hw
        exact absurd hn ((howned n hw).2.2 u hu)
      · rw [Function.update_of_ne hw'] at hw
        exact honly w hw

theorem locks_same (hR : s.Refines store a) {t : T} {pc : KvPc}
    (hb : pc.bucket = (s.pc t).bucket) (st : Addr) (b : Fin 1024) (u : T) :
    s.mem.lock st b = some u ↔ store u = st ∧ (Function.update s.pc t pc u).bucket = some b := by
  rw [hR.locks]
  by_cases hu : u = t
  · subst hu
    rw [Function.update_self, hb]
  · rw [Function.update_of_ne hu]

theorem stay (hR : s.Refines store a) (t : T) {pc : KvPc}
    {a' : SeqObject.AtomicState KvHeap T KvCall Int} (hvalue : a'.value = a.value)
    (hstatus : ∀ u, u ≠ t → a'.status u = a.status u)
    (hb : pc.bucket = (s.pc t).bucket) (hn : pc.node = none)
    (hholds : pc.Holds (a.value.table (store t)) (s.mem.first (store t)) s.mem.data (a'.status t)) :
    KvThreads.Refines store ⟨s.mem, Function.update s.pc t pc⟩ a' := by
  refine hR.move t (hvalue ▸ hR.stores) (hR.locks_same hb) (hvalue ▸ hholds) hstatus ?_ ?_ ?_ ?_ ?_
  · exact fun st b => Or.inl ⟨by rw [hvalue], rfl⟩
  · exact fun x => Or.inl rfl
  · exact fun x hx => hx
  · exact fun x hx _ => hvalue ▸ hx
  · intro n hnode
    simp [hn] at hnode

theorem fill (hR : s.Refines store a) (t : T) {n : Addr} {c : Cell CInt CInt} {pc : KvPc}
    (hnode : (s.pc t).node = some n) (hb : pc.bucket = (s.pc t).bucket) (hn : pc.node = some n)
    (hholds : pc.Holds (a.value.table (store t)) (s.mem.first (store t))
      (Function.update s.mem.data n c) (a.status t)) :
    KvThreads.Refines store ⟨s.mem.setData n c, Function.update s.pc t pc⟩ a := by
  obtain ⟨hlive, hun, honly⟩ := hR.owned t n hnode
  have hdata : ∀ x, (s.mem.setData n c).data x = s.mem.data x ∨ x = n := by
    intro x
    by_cases hx : x = n
    · exact Or.inr hx
    · exact Or.inl (Function.update_of_ne hx _ _)
  refine hR.move t ?_ (hR.locks_same hb) hholds (fun _ _ => rfl) ?_ ?_ (fun x hx => hx) ?_ ?_
  · refine hR.stores.same rfl (fun x => (hdata x).imp_right ?_) fun x hx => hx
    rintro rfl
    exact hun
  · exact fun st b => Or.inl ⟨rfl, rfl⟩
  · refine fun x => (hdata x).imp_right ?_
    rintro rfl
    exact Or.inr hnode
  · exact fun x hx _ => hx
  · intro n' hn'
    obtain rfl : n = n' := Option.some.inj (hn.symm.trans hn')
    exact ⟨hlive, hun, fun u hu hw => hu (honly u hw)⟩

theorem acquire (hR : s.Refines store a) {t : T} {c : KvCall} {pc : KvPc}
    (hpc : (s.pc t).bucket = none) (hfree : s.mem.lock (store t) c.hash = none)
    (hb : pc.bucket = some c.hash) (hn : pc.node = none)
    (hholds : pc.Holds (a.value.table (store t)) (s.mem.first (store t)) s.mem.data (a.status t)) :
    KvThreads.Refines store ⟨s.mem.setLock (store t) c.hash (some t), Function.update s.pc t pc⟩
      a := by
  refine hR.move t (hR.stores.same rfl (fun x => Or.inl rfl) fun x hx => hx) ?_ hholds
    (fun _ _ => rfl) (fun _ _ => Or.inl ⟨rfl, rfl⟩) (fun _ => Or.inl rfl) (fun x hx => hx)
    (fun x hx _ => hx) ?_
  · intro st b u
    rw [KvMemory.setLock_lock]
    by_cases hu : u = t
    · subst hu
      rw [Function.update_self, hb, Option.some.injEq]
      split
      · rename_i heq
        simp [heq.1, heq.2]
      · rename_i hne
        rw [hR.locks, hpc]
        simp only [reduceCtorEq, and_false, false_iff]
        exact fun he => hne ⟨he.1.symm, he.2.symm⟩
    · rw [Function.update_of_ne hu, ← hR.locks]
      split
      · rename_i heq
        simp [heq.1, heq.2, hfree, Ne.symm hu]
      · exact Iff.rfl
  · intro n hnode
    simp [hn] at hnode

theorem release (hR : s.Refines store a) {t : T} {b₀ : Fin 1024} {pc : KvPc}
    (hpc : (s.pc t).bucket = some b₀) (hb : pc.bucket = none) (hn : pc.node = none)
    (hholds : pc.Holds (a.value.table (store t)) (s.mem.first (store t)) s.mem.data (a.status t)) :
    KvThreads.Refines store ⟨s.mem.setLock (store t) b₀ none, Function.update s.pc t pc⟩ a := by
  refine hR.move t (hR.stores.same rfl (fun x => Or.inl rfl) fun x hx => hx) ?_ hholds
    (fun _ _ => rfl) (fun _ _ => Or.inl ⟨rfl, rfl⟩) (fun _ => Or.inl rfl) (fun x hx => hx)
    (fun x hx _ => hx) ?_
  · intro st b u
    rw [KvMemory.setLock_lock]
    by_cases hu : u = t
    · subst hu
      rw [Function.update_self, hb]
      simp only [reduceCtorEq, and_false, iff_false]
      split
      · simp
      · rename_i hne
        rw [hR.locks, hpc, Option.some.injEq]
        exact fun he => hne ⟨he.1.symm, he.2.symm⟩
    · rw [Function.update_of_ne hu, ← hR.locks]
      split
      · rename_i heq
        have hheld : s.mem.lock st b = some t := by
          rw [hR.locks, hpc, heq.1, heq.2]
          exact ⟨rfl, rfl⟩
        simp [hheld, Ne.symm hu]
      · exact Iff.rfl
  · intro n hnode
    simp [hn] at hnode

theorem allocate (hR : s.Refines store a) {t : T} {k v : CInt} {n : Addr}
    (hpc : s.pc t = .alloc k v) (hfresh : n ∉ s.mem.live) :
    KvThreads.Refines store
      ⟨{ s.mem with live := n :: s.mem.live }, Function.update s.pc t (.setKey k v n)⟩ a := by
  have hholds := hR.holds t
  rw [hpc] at hholds
  refine hR.move t (hR.stores.same rfl (fun x => Or.inl rfl) fun x hx => List.mem_cons_of_mem n hx)
    (hR.locks_same (by rw [hpc]; rfl)) hholds (fun _ _ => rfl) (fun _ _ => Or.inl ⟨rfl, rfl⟩)
    (fun _ => Or.inl rfl) (fun x hx => List.mem_cons_of_mem n hx) (fun x hx _ => hx) ?_
  intro n' hn'
  obtain rfl : n = n' := Option.some.inj hn'
  exact ⟨List.mem_cons_self, fun st b hin => hfresh (hR.stores.live hin),
    fun u _ hu => hfresh (hR.owned u n hu).1⟩

/-! ## The effects -/

theorem effect_value {o : KvCall} {c : Option Addr} {t : T} :
    (a.effect (kvObject store) t o c).value = ((kvObject store).apply a.value t o c).1 := rfl

theorem effect_status {o : KvCall} {c : Option Addr} {t : T} :
    (a.effect (kvObject store) t o c).status t =
      .answered ((kvObject store).apply a.value t o c).2 := by
  simp [SeqObject.AtomicState.effect]

theorem effect_status_of_ne {o : KvCall} {c : Option Addr} {t u : T} (hu : u ≠ t) :
    (a.effect (kvObject store) t o c).status u = a.status u := by
  simp [SeqObject.AtomicState.effect, hu]

/-- A call that leaves the heap as it is takes effect where its result is settled. -/
theorem settle (hR : s.Refines store a) {t : T} {o : KvCall} {c : Option Addr} {k : CInt} {r : Int}
    (hb : (s.pc t).bucket = some (kvHash k))
    (happly : (kvObject store).apply a.value t o c = (a.value, r)) :
    KvThreads.Refines store ⟨s.mem, Function.update s.pc t (.unlock k r)⟩
      (a.effect (kvObject store) t o c) := by
  refine hR.stay t ?_ (fun u hu => effect_status_of_ne hu) (by rw [hb]; rfl) rfl ?_
  · rw [effect_value, happly]
  · rw [effect_status, happly]
    rfl

/-- A call that replaces the chain of its section takes effect with the store that does it. -/
theorem commit (hR : s.Refines store a) {t : T} {o : KvCall} {c : Option Addr} {k : CInt}
    {m : KvMemory T} {h' : KvHeap} {chain : List MyData}
    (hb : (s.pc t).bucket = some (kvHash k))
    (happly : (kvObject store).apply a.value t o c = (h', 0))
    (htable : h'.table = (a.value.setBucket (store t) (kvHash k) chain).table)
    (hstores : m.Stores h'.table) (hlock : m.lock = s.mem.lock) (hlive : m.live = s.mem.live)
    (hfirst : ∀ st b, ¬ (st = store t ∧ b = kvHash k) → m.first st b = s.mem.first st b)
    (hdata : ∀ x, m.data x = s.mem.data x ∨ ¬ Unlinked a.value x)
    (hchain : ∀ x ∈ chain.map Node.addr, ¬ Unlinked a.value x ∨ (s.pc t).node = some x) :
    KvThreads.Refines store ⟨m, Function.update s.pc t (.unlock k 0)⟩
      (a.effect (kvObject store) t o c) := by
  have hval : (a.effect (kvObject store) t o c).value = h' := by rw [effect_value, happly]
  refine hR.move t (hval ▸ hstores) ?_ ?_ (fun u hu => effect_status_of_ne hu) ?_
    (fun x => (hdata x).imp_right Or.inl) (fun x hx => hlive ▸ hx) ?_ ?_
  · rw [hlock]
    exact hR.locks_same (by rw [hb]; rfl)
  · rw [effect_status, happly]
    rfl
  · intro st b
    by_cases hin : st = store t ∧ b = kvHash k
    · exact Or.inr ⟨hin.1.symm, hin.2 ▸ hb⟩
    · left
      rw [hval, htable, KvHeap.setBucket_table, if_neg hin]
      exact ⟨rfl, hfirst st b hin⟩
  · intro x hx hnode st b hmem
    rw [hval, htable, KvHeap.setBucket_table] at hmem
    split at hmem
    · exact ((hchain x hmem).resolve_right hnode) hx
    · exact hx st b hmem
  · intro n hnode
    simp [KvPc.node] at hnode

/-- The thread `t` takes a step: nothing, or the effect of its call, happens to the object. -/
def Answers (store : T → Addr) (s' : KvThreads T) (a : SeqObject.AtomicState KvHeap T KvCall Int)
    (t : T) : Prop :=
  s'.Refines store a ∨
    ∃ o c, a.status t = .pending o ∧ s'.Refines store (a.effect (kvObject store) t o c)

theorem answer_lock (hR : s.Refines store a) {t : T} {mem : Option Addr} {c : KvCall}
    {m : KvMemory T} {pc : KvPc} (hpc : s.pc t = .lock c)
    (h : kvStep t (store t) mem s.mem (.lock c) = some (m, pc)) :
    KvThreads.Refines store ⟨m, Function.update s.pc t pc⟩ a := by
  have hst := hR.holds t
  rw [hpc] at hst
  cases hl : s.mem.lock (store t) c.hash with
  | some u => simp [kvStep, hl] at h
  | none =>
      simp only [kvStep, hl, Option.some.injEq, Prod.mk.injEq] at h
      obtain ⟨rfl, rfl⟩ := h
      cases c with
      | write k v => exact hR.acquire (by rw [hpc]; rfl) hl rfl rfl ⟨hst, trivial⟩
      | read k => exact hR.acquire (by rw [hpc]; rfl) hl rfl rfl hst

theorem answer_empty (hR : s.Refines store a) {t : T} {mem : Option Addr} {k : CInt}
    {m : KvMemory T} {pc : KvPc} (hpc : s.pc t = .empty k)
    (h : kvStep t (store t) mem s.mem (.empty k) = some (m, pc)) :
    Answers store ⟨m, Function.update s.pc t pc⟩ a t := by
  have hst := hR.holds t
  rw [hpc] at hst
  have hnil := (hR.stores.linked (store t) (kvHash k)).eq_nil_iff
  cases hf : s.mem.first (store t) (kvHash k) with
  | none =>
      simp only [kvStep, hf, Option.some.injEq, Prod.mk.injEq] at h
      obtain ⟨rfl, rfl⟩ := h
      refine Or.inr ⟨.read k, none, hst, hR.settle (by rw [hpc]; rfl) ?_⟩
      simp [kvObject, readKv, hnil.mp hf]
  | some p =>
      simp only [kvStep, hf, Option.some.injEq, Prod.mk.injEq] at h
      obtain ⟨rfl, rfl⟩ := h
      refine Or.inl (hR.stay t rfl (fun _ _ => rfl) (by rw [hpc]; rfl) rfl ⟨hst, fun he => ?_⟩)
      rw [hnil.mpr he] at hf
      simp at hf

theorem answer_head (hR : s.Refines store a) {t : T} {c : KvCall} (hpc : s.pc t = .head c) :
    KvThreads.Refines store
      ⟨s.mem, Function.update s.pc t (.test c (s.mem.first (store t) c.hash))⟩ a := by
  have hst := hR.holds t
  rw [hpc] at hst
  have hpassed : c.Passed (a.value.table (store t) c.hash) [] (a.value.table (store t) c.hash) :=
    ⟨rfl, by simp, hst.2⟩
  exact hR.stay t rfl (fun _ _ => rfl) (by rw [hpc]; rfl) rfl
    ⟨hst.1, [], _, hpassed, (hR.stores.linked (store t) c.hash).pointer⟩

theorem find_of_end {c : KvCall} {chain pre suf : List MyData}
    (hp : c.Passed chain pre suf) (hend : none = front suf) : find c.key chain = none := by
  cases suf with
  | nil =>
      rw [hp.split, List.append_nil, find_eq_none_iff]
      exact hp.other
  | cons n suf => simp at hend

theorem answer_end (hR : s.Refines store a) {t : T} {mem : Option Addr} {c : KvCall}
    {m : KvMemory T} {pc : KvPc} (hpc : s.pc t = .test c none)
    (h : kvStep t (store t) mem s.mem (.test c none) = some (m, pc)) :
    Answers store ⟨m, Function.update s.pc t pc⟩ a t := by
  have hst := hR.holds t
  rw [hpc] at hst
  obtain ⟨hpend, pre, suf, hp, hend⟩ := hst
  have hfind := find_of_end hp hend
  cases c with
  | write k v =>
      simp only [kvStep, Option.some.injEq, Prod.mk.injEq] at h
      obtain ⟨rfl, rfl⟩ := h
      exact Or.inl (hR.stay t rfl (fun _ _ => rfl) (by rw [hpc]; rfl) rfl ⟨hpend, hfind⟩)
  | read k =>
      simp only [kvStep, Option.some.injEq, Prod.mk.injEq] at h
      obtain ⟨rfl, rfl⟩ := h
      refine Or.inr ⟨.read k, none, hpend, hR.settle (by rw [hpc]; rfl) ?_⟩
      have hne : a.value.table (store t) (kvHash k) ≠ [] := hp.scans
      have hnone : find k (a.value.table (store t) (kvHash k)) = none := hfind
      simp [kvObject, readKv, hne, hnone]

theorem answer_test (hR : s.Refines store a) {t : T} {c : KvCall} {p : Addr}
    (hpc : s.pc t = .test c (some p)) :
    KvThreads.Refines store ⟨s.mem, Function.update s.pc t
      (if (s.mem.data p).key = c.key then .found c p else .next c p)⟩ a := by
  have hst := hR.holds t
  rw [hpc] at hst
  obtain ⟨hpend, pre, suf, hp, hpos⟩ := hst
  cases suf with
  | nil => simp at hpos
  | cons n suf =>
      obtain rfl : p = n.addr := by simpa using hpos
      have hl := hR.stores.linked (store t) c.hash
      rw [hp.split] at hl
      rw [hl.cell]
      split
      · rename_i hk
        exact hR.stay t rfl (fun _ _ => rfl) (by rw [hpc]; rfl) rfl
          ⟨hpend, pre, n, suf, hp, rfl, hk⟩
      · rename_i hk
        exact hR.stay t rfl (fun _ _ => rfl) (by rw [hpc]; rfl) rfl
          ⟨hpend, pre, n, suf, hp, rfl, hk⟩

theorem answer_next (hR : s.Refines store a) {t : T} {c : KvCall} {p : Addr}
    (hpc : s.pc t = .next c p) :
    KvThreads.Refines store ⟨s.mem, Function.update s.pc t (.test c (s.mem.data p).next)⟩ a := by
  have hst := hR.holds t
  rw [hpc] at hst
  obtain ⟨hpend, pre, n, suf, hp, rfl, hk⟩ := hst
  have hl := hR.stores.linked (store t) c.hash
  rw [hp.split] at hl
  rw [hl.cell]
  refine hR.stay t rfl (fun _ _ => rfl) (by rw [hpc]; rfl) rfl ⟨hpend, pre ++ [n], suf, ?_, rfl⟩
  refine ⟨by simp [hp.split], fun x hx => ?_, hp.scans⟩
  rcases List.mem_append.mp hx with hx | hx
  · exact hp.other x hx
  · obtain rfl := List.mem_singleton.mp hx
    exact hk

theorem answer_found (hR : s.Refines store a) {t : T} {mem : Option Addr} {c : KvCall} {p : Addr}
    {m : KvMemory T} {pc : KvPc} (hpc : s.pc t = .found c p)
    (h : kvStep t (store t) mem s.mem (.found c p) = some (m, pc)) :
    Answers store ⟨m, Function.update s.pc t pc⟩ a t := by
  have hst := hR.holds t
  rw [hpc] at hst
  obtain ⟨hpend, pre, n, suf, hp, rfl, hk⟩ := hst
  have hin : ¬ Unlinked a.value n.addr := fun hu => hu (store t) c.hash (by simp [hp.split])
  cases c with
  | write k v =>
      simp only [kvStep, Option.some.injEq, Prod.mk.injEq] at h
      obtain ⟨rfl, rfl⟩ := h
      obtain rfl : n.key = k := hk
      have hsplit : a.value.table (store t) (kvHash n.key) = pre ++ n :: suf := hp.split
      have happly : (kvObject store).apply a.value t (.write n.key v) none =
          (a.value.setBucket (store t) (kvHash n.key) (pre ++ { n with value := v } :: suf),
            0) := by
        have hassign : assign n.key v (pre ++ n :: suf) =
            (assign n.key v (n :: suf)).map (pre ++ ·) := assign_append_of_not v hp.other
        simp [kvObject, writeKv, hsplit, hassign, assign]
      refine Or.inr ⟨.write n.key v, none, hpend, ?_⟩
      refine hR.commit (by rw [hpc]; rfl) happly rfl (hR.stores.assign hsplit v) rfl rfl
        (fun _ _ _ => rfl) ?_ ?_
      · intro x
        by_cases hx : x = n.addr
        · exact Or.inr (hx ▸ hin)
        · exact Or.inl (Function.update_of_ne hx _ _)
      · intro x hx
        refine Or.inl fun hu => hu (store t) (kvHash n.key) ?_
        rw [hsplit]
        simpa using hx
  | read k =>
      simp only [kvStep, Option.some.injEq, Prod.mk.injEq] at h
      obtain ⟨rfl, rfl⟩ := h
      obtain rfl : n.key = k := hk
      have hl := hR.stores.linked (store t) (kvHash n.key)
      have hsplit : a.value.table (store t) (kvHash n.key) = pre ++ n :: suf := hp.split
      rw [hsplit] at hl
      refine Or.inr ⟨.read n.key, none, hpend, hR.settle (by rw [hpc]; rfl) ?_⟩
      have hfind : find n.key (pre ++ n :: suf) = find n.key (n :: suf) :=
        find_append_of_not hp.other
      simp [kvObject, readKv, hsplit, hfind, find, hl.cell]

theorem answer_alloc (hR : s.Refines store a) {t : T} {mem : Option Addr} {k v : CInt}
    {m : KvMemory T} {pc : KvPc} (hpc : s.pc t = .alloc k v)
    (h : kvStep t (store t) mem s.mem (.alloc k v) = some (m, pc)) :
    Answers store ⟨m, Function.update s.pc t pc⟩ a t := by
  have hst := hR.holds t
  rw [hpc] at hst
  cases mem with
  | none =>
      simp only [kvStep, Option.some.injEq, Prod.mk.injEq] at h
      obtain ⟨rfl, rfl⟩ := h
      refine Or.inr ⟨.write k v, none, hst.1, hR.settle (by rw [hpc]; rfl) ?_⟩
      simp [kvObject, writeKv, assign_eq_none_iff.mpr hst.2, KvHeap.kmalloc]
  | some n =>
      by_cases hn : n ∈ s.mem.live
      · simp [kvStep, hn] at h
      · simp only [kvStep, hn, if_false, Option.some.injEq, Prod.mk.injEq] at h
        obtain ⟨rfl, rfl⟩ := h
        exact Or.inl (hR.allocate hpc hn)

theorem answer_setFirst (hR : s.Refines store a) {t : T} {k v : CInt} {n : Addr}
    (hpc : s.pc t = .setFirst k v n) :
    Answers store ⟨s.mem.setFirst (store t) (kvHash k) (some n),
      Function.update s.pc t (.unlock k 0)⟩ a t := by
  have hst := hR.holds t
  rw [hpc] at hst
  obtain ⟨hpend, hfind, hcell⟩ := hst
  obtain ⟨hlive, hun, -⟩ := hR.owned t n (by rw [hpc]; rfl)
  refine Or.inr ⟨.write k v, some n, hpend, ?_⟩
  have happly : (kvObject store).apply a.value t (.write k v) (some n) =
      (({ a.value with live := (.myData, n) :: a.value.live } : KvHeap).setBucket (store t)
        (kvHash k) (⟨n, k, v⟩ :: a.value.table (store t) (kvHash k)), 0) := by
    simp [kvObject, writeKv, assign_eq_none_iff.mpr hfind, KvHeap.kmalloc]
  refine hR.commit (by rw [hpc]; rfl) happly rfl (hR.stores.insert hlive hun hcell) rfl rfl ?_
    (fun _ => Or.inl rfl) ?_
  · intro st b hne
    rw [KvMemory.setFirst_first, if_neg hne]
  · intro x hx
    rcases List.mem_cons.mp hx with rfl | hx
    · exact Or.inr (by rw [hpc]; rfl)
    · exact Or.inl fun hu => hu _ _ hx

/-- Every access of a call is an effect of the call on the atomic object, or nothing. -/
theorem answer_step (hR : s.Refines store a) {t : T} {mem : Option Addr} {m : KvMemory T}
    {pc : KvPc} (h : kvStep t (store t) mem s.mem (s.pc t) = some (m, pc)) :
    Answers store ⟨m, Function.update s.pc t pc⟩ a t := by
  have hst := hR.holds t
  cases hpc : s.pc t with
  | idle => simp [hpc, kvStep] at h
  | ret r => simp [hpc, kvStep] at h
  | lock c => exact Or.inl (hR.answer_lock hpc (hpc ▸ h))
  | empty k => exact hR.answer_empty hpc (hpc ▸ h)
  | head c =>
      simp only [hpc, kvStep, Option.some.injEq, Prod.mk.injEq] at h
      obtain ⟨rfl, rfl⟩ := h
      exact Or.inl (hR.answer_head hpc)
  | test c pos =>
      cases pos with
      | none => exact hR.answer_end hpc (hpc ▸ h)
      | some p =>
          simp only [hpc, kvStep, Option.some.injEq, Prod.mk.injEq] at h
          obtain ⟨rfl, rfl⟩ := h
          exact Or.inl (hR.answer_test hpc)
  | next c p =>
      simp only [hpc, kvStep, Option.some.injEq, Prod.mk.injEq] at h
      obtain ⟨rfl, rfl⟩ := h
      exact Or.inl (hR.answer_next hpc)
  | found c p => exact hR.answer_found hpc (hpc ▸ h)
  | alloc k v => exact hR.answer_alloc hpc (hpc ▸ h)
  | setKey k v n =>
      simp only [hpc, kvStep, Option.some.injEq, Prod.mk.injEq] at h hst
      obtain ⟨rfl, rfl⟩ := h
      exact Or.inl (hR.fill t (by rw [hpc]; rfl) (by rw [hpc]; rfl) rfl
        ⟨hst.1, hst.2, by simp⟩)
  | setValue k v n =>
      simp only [hpc, kvStep, Option.some.injEq, Prod.mk.injEq] at h hst
      obtain ⟨rfl, rfl⟩ := h
      exact Or.inl (hR.fill t (by rw [hpc]; rfl) (by rw [hpc]; rfl) rfl
        ⟨hst.1, hst.2.1, by simpa using hst.2.2, by simp⟩)
  | setNext k v n =>
      simp only [hpc, kvStep, Option.some.injEq, Prod.mk.injEq] at h hst
      obtain ⟨rfl, rfl⟩ := h
      exact Or.inl (hR.fill t (by rw [hpc]; rfl) (by rw [hpc]; rfl) rfl
        ⟨hst.1, hst.2.1, by simp [hst.2.2.1, hst.2.2.2]⟩)
  | setFirst k v n =>
      simp only [hpc, kvStep, Option.some.injEq, Prod.mk.injEq] at h
      obtain ⟨rfl, rfl⟩ := h
      exact hR.answer_setFirst hpc
  | unlock k r =>
      simp only [hpc, kvStep, Option.some.injEq, Prod.mk.injEq] at h hst
      obtain ⟨rfl, rfl⟩ := h
      exact Or.inl (hR.release (by rw [hpc]; rfl) rfl rfl hst)

/-- Every step of the machine is answered by the atomic object, with the same calls and
returns. -/
theorem answer (hR : s.Refines store a) {act : KvAction T} {s' : KvThreads T}
    {e : Option (CallEvent T KvCall Int)} (h : (kvThreads store).step s act = some (s', e)) :
    ∃ bs a' tr, (kvObject store).atomic.run a bs = some (a', tr) ∧ s'.Refines store a' ∧
      tr.filterMap PointEvent.visible = e.toList := by
  cases act with
  | call t c =>
      have hst := hR.holds t
      cases hpc : s.pc t with
      | idle =>
          simp only [kvThreads, kvThreadsStep, hpc, Option.some.injEq, Prod.mk.injEq] at h
          obtain ⟨rfl, rfl⟩ := h
          rw [hpc] at hst
          refine ⟨_, _, _, SeqObject.atomic_call hst c, ?_, rfl⟩
          exact hR.stay t rfl (fun u hu => Function.update_of_ne hu _ _) (by rw [hpc]; rfl) rfl
            (Function.update_self ..)
      | _ => simp [kvThreads, kvThreadsStep, hpc] at h
  | step t mem =>
      simp only [kvThreads, kvThreadsStep, Option.map_eq_some_iff, Prod.mk.injEq] at h
      obtain ⟨⟨m, pc⟩, hstep, rfl, rfl⟩ := h
      rcases hR.answer_step hstep with hsame | ⟨o, c, hpend, heff⟩
      · exact ⟨[], a, [], rfl, hsame, rfl⟩
      · exact ⟨_, _, _, SeqObject.atomic_effect hpend c, heff, rfl⟩
  | ret t =>
      have hst := hR.holds t
      cases hpc : s.pc t with
      | ret r =>
          simp only [kvThreads, kvThreadsStep, hpc, Option.some.injEq, Prod.mk.injEq] at h
          obtain ⟨rfl, rfl⟩ := h
          rw [hpc] at hst
          refine ⟨_, _, _, SeqObject.atomic_ret hst, ?_, rfl⟩
          exact hR.stay t rfl (fun u hu => Function.update_of_ne hu _ _) (by rw [hpc]; rfl) rfl
            (Function.update_self ..)
      | _ => simp [kvThreads, kvThreadsStep, hpc] at h

end KvThreads.Refines

/-! ## Linearizability -/

/-- No call is running, no lock is held, and the memory holds the tables of the heap. -/
structure KvThreads.Quiet (s : KvThreads T) (h : KvHeap) : Prop where
  idle : ∀ t, s.pc t = .idle
  free : ∀ store b, s.mem.lock store b = none
  stores : s.mem.Stores h.table

theorem KvThreads.Quiet.refines {s : KvThreads T} {h : KvHeap} (hq : s.Quiet h) :
    s.Refines store ⟨h, fun _ => .idle⟩ where
  stores := hq.stores
  locks st b t := by simp [hq.free, hq.idle, KvPc.bucket]
  holds t := by
    rw [hq.idle]
    rfl
  owned t n hn := by simp [hq.idle, KvPc.node] at hn

variable [DecidableEq T]

/-- The calls and returns of every run are linearizable: the calls take effect one after
another as `write_kv` and `read_kv` of the sequential model, from the tables the run started
with to the tables it ends with. -/
theorem kvThreads_linearizable {s s' : KvThreads T} {h : KvHeap} {acts : List (KvAction T)}
    {tr : List (Option (CallEvent T KvCall Int))} (hq : s.Quiet h)
    (hr : (kvThreads store).run s acts = some (s', tr)) :
    ∃ h', s'.mem.Stores h'.table ∧
      (kvObject store).Linearizable h h' (tr.filterMap id) := by
  obtain ⟨bs, a', tr', hrun, hR, hview⟩ :
      ∃ bs a' tr', (kvObject store).atomic.run ⟨h, fun _ => .idle⟩ bs = some (a', tr') ∧
        s'.Refines store a' ∧ tr'.filterMap PointEvent.visible = tr.filterMap id :=
    (kvThreads store).run_simulates (kvObject store).atomic
      (fun hR hs => KvThreads.Refines.answer hR hs) hq.refines hr
  refine ⟨a'.value, hR.stores, ?_⟩
  rw [← hview]
  exact SeqObject.linearizable_of_run (fun _ => rfl) hrun

/-- Two threads of one group at once in one bucket: the reader waits for the writer's lock and
does not find its own key. -/
def overlappingCalls : List (KvAction Bool) :=
  [.call true (.write 1 7), .call false (.read 1025), .step true none, .step true none,
    .step true none, .step true (some 40), .step true none, .step true none, .step true none,
    .step true none, .step true none, .step false none, .ret true, .step false none,
    .step false none, .step false none, .step false none, .step false none, .step false none,
    .ret false]

def emptyKvMemory : KvMemory Bool := ⟨[], fun _ _ => none, fun _ => ⟨0, 0, none⟩, fun _ _ => none⟩

theorem emptyKvMemory_quiet (h : KvHeap) (ht : h.table = fun _ _ => []) :
    KvThreads.Quiet ⟨emptyKvMemory, fun _ => .idle⟩ h where
  idle _ := rfl
  free _ _ := rfl
  stores := by
    rw [ht]
    exact ⟨fun _ _ => rfl, by simp, by simp⟩

theorem kvThreads_linearizable_overlapping :
    ∃ s' tr, (kvThreads fun _ => 0).run ⟨emptyKvMemory, fun _ => .idle⟩ overlappingCalls =
        some (s', tr) ∧
      tr.filterMap id = [.call true (.write 1 7), .call false (.read 1025), .ret true 0,
        .ret false (-2)] ∧
      ∃ h', s'.mem.Stores h'.table ∧
        (kvObject fun _ => 0).Linearizable ⟨[], fun _ _ => []⟩ h' (tr.filterMap id) := by
  have hrun : ((kvThreads fun _ => 0).run ⟨emptyKvMemory, fun _ => .idle⟩ overlappingCalls).map
      (fun r => r.2.filterMap id) = some [.call true (.write 1 7), .call false (.read 1025),
        .ret true 0, .ret false (-2)] := by decide
  obtain ⟨⟨s', tr⟩, hr, htr⟩ := Option.map_eq_some_iff.mp hrun
  exact ⟨s', tr, hr, htr, kvThreads_linearizable (emptyKvMemory_quiet _ rfl) hr⟩

end Simulation

end OShm.Kernel
