import Mathlib.Algebra.BigOperators.Group.Finset.Basic
import Mathlib.Data.Fintype.Basic
import Mathlib.Logic.Function.Basic
import Mathlib.Data.List.Basic

/-! # Hash tables with chaining

A table gives each bucket a chain of nodes, head first. Nodes have an address,
so the memory a table occupies can be named. `lookup` is the finite map a table
stands for; the lemmas below say how in-place assignment and head insertion move
that map, for any hash function and any key and value types.
-/

namespace OShm.Lib.ChainedTable

structure Node (K V : Type*) where
  addr : Nat
  key : K
  value : V
  deriving DecidableEq, Repr

variable {B K V : Type*}

/-! ## Chains -/

section Chain

variable [DecidableEq K]

/-- Assign to the first node that has the key; `none` when no node has it. -/
def assign (k : K) (v : V) : List (Node K V) → Option (List (Node K V))
  | [] => none
  | n :: rest =>
      if n.key = k then some ({ n with value := v } :: rest)
      else (assign k v rest).map (n :: ·)

def find (k : K) : List (Node K V) → Option V
  | [] => none
  | n :: rest => if n.key = k then some n.value else find k rest

theorem find_eq_none_iff {k : K} {chain : List (Node K V)} :
    find k chain = none ↔ ∀ n ∈ chain, n.key ≠ k := by
  induction chain with
  | nil => simp [find]
  | cons n rest ih =>
      by_cases hk : n.key = k
      · simp [find, hk]
      · simp [find, hk, ih]

theorem find_isSome_of_mem {n : Node K V} {chain : List (Node K V)} (hn : n ∈ chain) :
    (find n.key chain).isSome := by
  rw [Option.isSome_iff_ne_none]
  intro h
  exact find_eq_none_iff.mp h n hn rfl

theorem find_cons_new (a : Nat) (k k' : K) (v : V) (chain : List (Node K V)) :
    find k' (⟨a, k, v⟩ :: chain) = if k' = k then some v else find k' chain := by
  by_cases hk : k' = k
  · simp [find, hk]
  · simp [find, hk, Ne.symm hk]

theorem assign_eq_none_iff {k : K} {v : V} {chain : List (Node K V)} :
    assign k v chain = none ↔ find k chain = none := by
  induction chain with
  | nil => simp [assign, find]
  | cons n rest ih =>
      by_cases hk : n.key = k
      · simp [assign, find, hk]
      · simp [assign, find, hk, ih]

theorem find_assign {k : K} {v : V} {chain chain' : List (Node K V)}
    (h : assign k v chain = some chain') (k' : K) :
    find k' chain' = if k' = k then some v else find k' chain := by
  induction chain generalizing chain' with
  | nil => simp [assign] at h
  | cons n rest ih =>
      by_cases hk : n.key = k
      · simp only [assign, hk, if_true, Option.some.injEq] at h
        subst h
        by_cases hk' : k' = k
        · simp [find, hk']
        · simp [find, hk, hk', Ne.symm hk']
      · simp only [assign, hk, if_false, Option.map_eq_some_iff] at h
        obtain ⟨tail, ht, rfl⟩ := h
        by_cases hn : n.key = k'
        · have hne : k' ≠ k := fun e => hk (hn.trans e)
          simp [find, hn, hne]
        · simp [find, hn, ih ht]

/-- Assignment keeps every attribute of the nodes other than the value. -/
theorem assign_map {X : Type*} {f : Node K V → X}
    (hf : ∀ (n : Node K V) (w : V), f { n with value := w } = f n)
    {k : K} {v : V} {chain chain' : List (Node K V)}
    (h : assign k v chain = some chain') : chain'.map f = chain.map f := by
  induction chain generalizing chain' with
  | nil => simp [assign] at h
  | cons n rest ih =>
      unfold assign at h
      by_cases hk : n.key = k
      · rw [if_pos hk, Option.some.injEq] at h
        subst h
        rw [List.map_cons, List.map_cons, hf]
      · rw [if_neg hk, Option.map_eq_some_iff] at h
        obtain ⟨tail, ht, rfl⟩ := h
        rw [List.map_cons, List.map_cons, ih ht]

end Chain

/-! ## Tables -/

abbrev Table (B K V : Type*) := B → List (Node K V)

/-- Every node sits in the bucket of its key. -/
def Placed (hash : K → B) (t : Table B K V) : Prop :=
  ∀ b, ∀ n ∈ t b, hash n.key = b

def Links (t : Table B K V) (a : Nat) : Prop :=
  ∃ b, a ∈ (t b).map Node.addr

theorem placed_empty (hash : K → B) : Placed hash (fun _ => [] : Table B K V) := by
  intro b n hn
  simp at hn

theorem links_empty (a : Nat) : ¬ Links (fun _ => [] : Table B K V) a := by
  rintro ⟨b, hb⟩
  simp at hb

section Bucket

variable [DecidableEq B]

theorem Placed.update {hash : K → B} {t : Table B K V} (ht : Placed hash t) {k : K}
    {chain : List (Node K V)}
    (hkeys : ∀ n ∈ chain, n.key = k ∨ n.key ∈ (t (hash k)).map Node.key) :
    Placed hash (Function.update t (hash k) chain) := by
  intro b n hn
  by_cases hb : b = hash k
  · subst hb
    rw [Function.update_self] at hn
    rcases hkeys n hn with hk | hk
    · rw [hk]
    · obtain ⟨m, hm, hmk⟩ := List.mem_map.mp hk
      rw [← hmk]
      exact ht (hash k) m hm
  · rw [Function.update_of_ne hb] at hn
    exact ht b n hn

theorem links_update_of_addrs {t : Table B K V} {b : B} {chain : List (Node K V)}
    (h : chain.map Node.addr = (t b).map Node.addr) (a : Nat) :
    Links (Function.update t b chain) a ↔ Links t a := by
  have key : ∀ b', (Function.update t b chain b').map Node.addr = (t b').map Node.addr := by
    intro b'
    by_cases hb : b' = b
    · subst hb
      rw [Function.update_self, h]
    · rw [Function.update_of_ne hb]
  simp only [Links, key]

theorem links_update_cons {t : Table B K V} {b : B} {n : Node K V} (a : Nat) :
    Links (Function.update t b (n :: t b)) a ↔ a = n.addr ∨ Links t a := by
  constructor
  · rintro ⟨b', ha⟩
    by_cases hb : b' = b
    · subst hb
      rw [Function.update_self, List.map_cons, List.mem_cons] at ha
      exact ha.imp id fun h => ⟨b', h⟩
    · rw [Function.update_of_ne hb] at ha
      exact Or.inr ⟨b', ha⟩
  · rintro (rfl | ⟨b', ha⟩)
    · exact ⟨b, by simp⟩
    · refine ⟨b', ?_⟩
      by_cases hb : b' = b
      · subst hb
        rw [Function.update_self, List.map_cons]
        exact List.mem_cons_of_mem _ ha
      · rwa [Function.update_of_ne hb]

end Bucket

/-! ## The map a table stands for -/

section Lookup

variable [DecidableEq K]

def lookup (hash : K → B) (t : Table B K V) (k : K) : Option V := find k (t (hash k))

@[simp] theorem lookup_empty (hash : K → B) (k : K) :
    lookup hash (fun _ => [] : Table B K V) k = none := rfl

theorem Placed.bucket_eq_nil_iff {hash : K → B} {t : Table B K V} (ht : Placed hash t) (b : B) :
    t b = [] ↔ ∀ k, hash k = b → lookup hash t k = none := by
  constructor
  · intro h k hk
    simp [lookup, hk, h, find]
  · intro h
    rw [List.eq_nil_iff_forall_not_mem]
    intro n hn
    have hb := ht b n hn
    have hfound := find_isSome_of_mem hn
    have hnone := h n.key hb
    rw [lookup, hb] at hnone
    simp [hnone] at hfound

/-- Replacing the key's own chain by one that maps the key to `v` and agrees
elsewhere updates the map at that key only. -/
theorem lookup_update [DecidableEq B] {hash : K → B} {t : Table B K V} {k : K} {v : V}
    {chain : List (Node K V)}
    (h : ∀ k', find k' chain = if k' = k then some v else find k' (t (hash k))) :
    lookup hash (Function.update t (hash k) chain) =
      Function.update (lookup hash t) k (some v) := by
  funext k'
  by_cases hk : k' = k
  · subst hk
    simp [lookup, h]
  · rw [Function.update_of_ne hk]
    unfold lookup
    by_cases hb : hash k' = hash k
    · rw [hb, Function.update_self, h, if_neg hk]
    · rw [Function.update_of_ne hb]

end Lookup

/-! ## Keys that occur once -/

def KeysOnce (t : Table B K V) : Prop := ∀ b, ((t b).map Node.key).Nodup

theorem keysOnce_empty : KeysOnce (fun _ => [] : Table B K V) := fun _ => List.nodup_nil

theorem KeysOnce.update [DecidableEq B] {t : Table B K V} (ht : KeysOnce t) {b : B}
    {chain : List (Node K V)} (hc : (chain.map Node.key).Nodup) :
    KeysOnce (Function.update t b chain) := by
  intro b'
  by_cases hb : b' = b
  · subst hb
    rwa [Function.update_self]
  · rw [Function.update_of_ne hb]
    exact ht b'

theorem KeysOnce.assign [DecidableEq B] [DecidableEq K] {t : Table B K V} (ht : KeysOnce t)
    {b : B} {k : K} {v : V} {chain : List (Node K V)}
    (h : ChainedTable.assign k v (t b) = some chain) :
    KeysOnce (Function.update t b chain) := by
  refine ht.update ?_
  rw [assign_map (fun _ _ => rfl) h]
  exact ht b

theorem KeysOnce.cons [DecidableEq B] [DecidableEq K] {t : Table B K V} (ht : KeysOnce t)
    {b : B} {n : Node K V} (h : find n.key (t b) = none) :
    KeysOnce (Function.update t b (n :: t b)) := by
  refine ht.update ?_
  rw [List.map_cons, List.nodup_cons]
  refine ⟨?_, ht b⟩
  intro hmem
  obtain ⟨n', hn', hkey⟩ := List.mem_map.mp hmem
  exact find_eq_none_iff.mp h n' hn' hkey

theorem Placed.unique_place {hash : K → B} {t : Table B K V} (hp : Placed hash t)
    (ht : KeysOnce t) {b b' : B} {i i' : Nat} {n n' : Node K V} (hn : (t b)[i]? = some n)
    (hn' : (t b')[i']? = some n') (hkey : n.key = n'.key) : b = b' ∧ i = i' := by
  have hb : b = b' := by
    rw [← hp b n (List.mem_of_getElem? hn), ← hp b' n' (List.mem_of_getElem? hn'), hkey]
  subst hb
  have hi : i < ((t b).map Node.key).length := by
    rw [List.length_map]
    exact (List.getElem?_eq_some_iff.mp hn).1
  refine ⟨rfl, (List.getElem?_inj hi (ht b)).mp ?_⟩
  rw [List.getElem?_map, List.getElem?_map, hn, hn', Option.map_some, Option.map_some, hkey]

section Count

variable [Fintype B] [DecidableEq K]

def size (t : Table B K V) : Nat := ∑ b, (t b).length

def keys (t : Table B K V) : Finset K :=
  Finset.univ.biUnion fun b => ((t b).map Node.key).toFinset

theorem mem_keys_iff {t : Table B K V} {k : K} : k ∈ keys t ↔ ∃ b, ∃ n ∈ t b, n.key = k := by
  simp [keys]

theorem Placed.mem_keys_iff_lookup {hash : K → B} {t : Table B K V} (hp : Placed hash t) {k : K} :
    k ∈ keys t ↔ lookup hash t k ≠ none := by
  rw [mem_keys_iff]
  constructor
  · rintro ⟨b, n, hn, rfl⟩ hnone
    rw [lookup, hp b n hn] at hnone
    exact find_eq_none_iff.mp hnone n hn rfl
  · intro hsome
    by_contra hno
    refine hsome (find_eq_none_iff.mpr fun n hn hkey => hno ⟨_, n, hn, hkey⟩)

theorem Placed.size_eq_card {hash : K → B} {t : Table B K V} (hp : Placed hash t)
    (ht : KeysOnce t) : size t = (keys t).card := by
  have hdisjoint : ∀ b ∈ (Finset.univ : Finset B), ∀ b' ∈ (Finset.univ : Finset B), b ≠ b' →
      Disjoint ((t b).map Node.key).toFinset ((t b').map Node.key).toFinset := by
    intro b _ b' _ hne
    rw [Finset.disjoint_left]
    intro k hk hk'
    obtain ⟨n, hn, rfl⟩ := List.mem_map.mp (List.mem_toFinset.mp hk)
    obtain ⟨n', hn', hkey⟩ := List.mem_map.mp (List.mem_toFinset.mp hk')
    apply hne
    rw [← hp b n hn, ← hp b' n' hn', hkey]
  rw [keys, Finset.card_biUnion hdisjoint, size]
  refine Finset.sum_congr rfl fun b _ => ?_
  rw [List.toFinset_card_of_nodup (ht b), List.length_map]

end Count

end OShm.Lib.ChainedTable
