import OShm.Kernel.Task
import OShm.Lib.ChainedTable

/-! # The per-group key-value store

`write_kv` and `read_kv` of `kernel/kv_store.c` over the heap objects they use:
the bucket array and the lock array a task points to, and one `struct my_data`
for each stored key. A call holds the lock of its bucket from its first look at
the chain to its last, so it is one step here.
-/

namespace OShm.Kernel

open OShm.Lib.ChainedTable

/-- `struct my_data`; the `hlist_node` is the position in the chain. -/
abbrev MyData := Node CInt CInt

/-- The 1024 `hlist_head`s of one `kv_store` array. -/
abbrev KvTable := Table (Fin 1024) CInt CInt

inductive KvKind where
  | bucketArray
  | lockArray
  | myData
  deriving DecidableEq, Repr

structure KvHeap where
  /-- Objects obtained from `kmalloc` and not freed. -/
  live : List (KvKind × Addr)
  /-- What the bucket array at an address holds. -/
  table : Addr → KvTable

namespace KvHeap

def addrs (h : KvHeap) : List Addr := h.live.map Prod.snd

/-- `mem` is what the allocator answers: an address, or `none` for `NULL`. -/
def kmalloc (h : KvHeap) (kind : KvKind) (mem : Option Addr) : KvHeap × Option Addr :=
  match mem with
  | none => (h, none)
  | some a => ({ h with live := (kind, a) :: h.live }, some a)

def setBucket (h : KvHeap) (store : Addr) (b : Fin 1024) (chain : List MyData) : KvHeap :=
  { h with table := Function.update h.table store (Function.update (h.table store) b chain) }

/-- The loop of `INIT_HLIST_HEAD` over all 1024 heads. -/
def initHlistHeads (h : KvHeap) (store : Addr) : KvHeap :=
  { h with table := Function.update h.table store (fun _ => []) }

end KvHeap

def kvHash (k : CInt) : Fin 1024 :=
  ⟨(k &&& 0x3FF#32).toNat, by
    have h : (k &&& 0x3FF#32).toNat ≤ (0x3FF#32).toNat := by
      rw [BitVec.toNat_and]
      exact Nat.and_le_right
    exact Nat.lt_of_le_of_lt h (by decide)⟩

/-- `write_kv(k, v)` by a task whose `kv_store` is `store`. -/
def writeKv (h : KvHeap) (store : Addr) (k v : CInt) (mem : Option Addr) : KvHeap × Int :=
  let hash := kvHash k
  match assign k v (h.table store hash) with
  | some chain => (h.setBucket store hash chain, 0)
  | none =>
      match h.kmalloc .myData mem with
      | (h, none) => (h, -(enomem : Int))
      | (h, some a) => (h.setBucket store hash (⟨a, k, v⟩ :: h.table store hash), 0)

/-- `read_kv(k)` by a task whose `kv_store` is `store`. -/
def readKv (h : KvHeap) (store : Addr) (k : CInt) : Int :=
  let hash := kvHash k
  if h.table store hash = [] then -3
  else
    match find k (h.table store hash) with
    | none => -2
    | some v => v.toInt

/-! ## Signed keys and buckets -/

theorem kvHash_val (k : CInt) : (kvHash k : Nat) = k.toNat % 1024 := by
  change (k &&& 0x3FF#32).toNat = k.toNat % 1024
  rw [BitVec.toNat_and]
  exact Nat.and_two_pow_sub_one_eq_mod k.toNat 10

/-- The mask sends two keys, negative ones included, to one bucket exactly when
they are congruent modulo 1024. -/
theorem kvHash_eq_iff (k k' : CInt) : kvHash k = kvHash k' ↔ k.toInt % 1024 = k'.toInt % 1024 := by
  have red : ∀ x : CInt, x.toInt % 1024 = ((x.toNat % 1024 : Nat) : Int) := by
    intro x
    have hx := x.isLt
    rw [BitVec.toInt_eq_toNat_cond]
    split <;> omega
  rw [Fin.ext_iff, kvHash_val, kvHash_val, red, red]
  omega

example : kvHash (BitVec.ofInt 32 (-1)) = 1023 := by decide

/-! ## What a call does to the map -/

def KvHeap.map (h : KvHeap) (store : Addr) : CInt → Option CInt :=
  lookup kvHash (h.table store)

theorem readKv_of_some {h : KvHeap} {store : Addr} {k v : CInt} (hm : h.map store k = some v) :
    readKv h store k = v.toInt := by
  have hf : find k (h.table store (kvHash k)) = some v := hm
  have hne : h.table store (kvHash k) ≠ [] := by
    intro he
    simp [he, find] at hf
  simp [readKv, hne, hf]

theorem readKv_of_none {h : KvHeap} {store : Addr} {k : CInt} (hm : h.map store k = none) :
    readKv h store k = if h.table store (kvHash k) = [] then -3 else -2 := by
  have hf : find k (h.table store (kvHash k)) = none := hm
  simp [readKv, hf]

theorem readKv_congr {h h' : KvHeap} {store : Addr} (heq : h'.table store = h.table store)
    (k : CInt) : readKv h' store k = readKv h store k := by
  simp [readKv, heq]

/-- Everything `write_kv` can do: assign in place, insert a new node at the head
of the bucket, or report `-ENOMEM` with the heap as it was. -/
theorem writeKv_cases (h : KvHeap) (store : Addr) (k v : CInt) (mem : Option Addr) :
    (∃ chain, assign k v (h.table store (kvHash k)) = some chain ∧
      writeKv h store k v mem = (h.setBucket store (kvHash k) chain, 0)) ∨
    (∃ a, mem = some a ∧ find k (h.table store (kvHash k)) = none ∧
      writeKv h store k v mem =
        (({ h with live := (.myData, a) :: h.live } : KvHeap).setBucket store (kvHash k)
          (⟨a, k, v⟩ :: h.table store (kvHash k)), 0)) ∨
    (mem = none ∧ find k (h.table store (kvHash k)) = none ∧
      writeKv h store k v mem = (h, -(enomem : Int))) := by
  cases ha : assign k v (h.table store (kvHash k)) with
  | some chain => exact Or.inl ⟨chain, rfl, by simp [writeKv, ha]⟩
  | none =>
      have hf := assign_eq_none_iff.mp ha
      cases mem with
      | some a => exact Or.inr (Or.inl ⟨a, rfl, hf, by simp [writeKv, ha, KvHeap.kmalloc]⟩)
      | none => exact Or.inr (Or.inr ⟨rfl, hf, by simp [writeKv, ha, KvHeap.kmalloc]⟩)

theorem writeKv_ret (h : KvHeap) (store : Addr) (k v : CInt) (mem : Option Addr) :
    (writeKv h store k v mem).2 = 0 ∨ (writeKv h store k v mem).2 = -(enomem : Int) := by
  rcases writeKv_cases h store k v mem with ⟨_, _, he⟩ | ⟨_, _, _, he⟩ | ⟨_, _, he⟩
  · exact Or.inl (by rw [he])
  · exact Or.inl (by rw [he])
  · exact Or.inr (by rw [he])

theorem writeKv_heap_of_fail {h : KvHeap} {store : Addr} {k v : CInt} {mem : Option Addr}
    (hr : (writeKv h store k v mem).2 ≠ 0) : (writeKv h store k v mem).1 = h := by
  rcases writeKv_cases h store k v mem with ⟨_, _, he⟩ | ⟨_, _, _, he⟩ | ⟨_, _, he⟩
  · simp [he] at hr
  · simp [he] at hr
  · rw [he]

/-- A call that returns 0 has updated the map of its own store at its own key. -/
theorem writeKv_map_of_ok {h : KvHeap} {store : Addr} {k v : CInt} {mem : Option Addr}
    (hr : (writeKv h store k v mem).2 = 0) :
    (writeKv h store k v mem).1.map store = Function.update (h.map store) k (some v) := by
  rcases writeKv_cases h store k v mem with ⟨chain, ha, he⟩ | ⟨a, _, _, he⟩ | ⟨_, _, he⟩
  · rw [he]
    simp only [KvHeap.map, KvHeap.setBucket, Function.update_self]
    exact lookup_update (find_assign ha)
  · rw [he]
    simp only [KvHeap.map, KvHeap.setBucket, Function.update_self]
    exact lookup_update (fun k' => find_cons_new a k k' v _)
  · simp [he, enomem] at hr

theorem writeKv_table_of_ne (h : KvHeap) {store other : Addr} (k v : CInt) (mem : Option Addr)
    (hne : other ≠ store) : (writeKv h store k v mem).1.table other = h.table other := by
  rcases writeKv_cases h store k v mem with ⟨_, _, he⟩ | ⟨_, _, _, he⟩ | ⟨_, _, he⟩ <;> rw [he] <;>
    simp [KvHeap.setBucket, hne]

theorem writeKv_placed {h : KvHeap} {store other : Addr} (k v : CInt) (mem : Option Addr)
    (hp : Placed kvHash (h.table other)) :
    Placed kvHash ((writeKv h store k v mem).1.table other) := by
  by_cases hne : other = store
  · subst hne
    rcases writeKv_cases h other k v mem with ⟨chain, ha, he⟩ | ⟨a, _, _, he⟩ | ⟨_, _, he⟩
    · rw [he]
      simp only [KvHeap.setBucket, Function.update_self]
      refine hp.update fun n hn => Or.inr ?_
      rw [← assign_map (fun _ _ => rfl) ha]
      exact List.mem_map_of_mem hn
    · rw [he]
      simp only [KvHeap.setBucket, Function.update_self]
      refine hp.update fun n hn => ?_
      rcases List.mem_cons.mp hn with rfl | hn
      · exact Or.inl rfl
      · exact Or.inr (List.mem_map_of_mem hn)
    · rwa [he]
  · rwa [writeKv_table_of_ne h k v mem hne]

end OShm.Kernel
