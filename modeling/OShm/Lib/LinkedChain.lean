import OShm.Lib.ChainedTable

/-! # Chains as cells linked by addresses

A chain of a hash table as it lies in memory: a pointer to the first cell, and in each cell
the address of the next one. `Chain` relates a pointer to the list of nodes it leads to.
-/

namespace OShm.Lib.ChainedTable

structure Cell (K V : Type*) where
  key : K
  value : V
  next : Option Nat
  deriving DecidableEq, Repr

variable {K V : Type*}

def front (chain : List (Node K V)) : Option Nat := chain.head?.map Node.addr

@[simp] theorem front_nil : front ([] : List (Node K V)) = none := rfl

@[simp] theorem front_cons (n : Node K V) (rest : List (Node K V)) :
    front (n :: rest) = some n.addr := rfl

/-- The pointer leads through the cells of exactly these nodes. -/
def Chain (mem : Nat → Cell K V) : Option Nat → List (Node K V) → Prop
  | p, [] => p = none
  | p, n :: rest =>
      p = some n.addr ∧ mem n.addr = ⟨n.key, n.value, front rest⟩ ∧ Chain mem (front rest) rest

theorem Chain.pointer {mem : Nat → Cell K V} {p : Option Nat} {chain : List (Node K V)}
    (h : Chain mem p chain) : p = front chain := by
  cases chain with
  | nil => exact h
  | cons n rest => exact h.1

theorem Chain.eq_nil_iff {mem : Nat → Cell K V} {p : Option Nat} {chain : List (Node K V)}
    (h : Chain mem p chain) : p = none ↔ chain = [] := by
  rw [h.pointer]
  cases chain <;> simp

theorem Chain.tail {mem : Nat → Cell K V} {p : Option Nat} {pre suf : List (Node K V)}
    (h : Chain mem p (pre ++ suf)) : Chain mem (front suf) suf := by
  induction pre generalizing p with
  | nil =>
      obtain rfl := h.pointer
      exact h
  | cons n pre ih => exact ih h.2.2

theorem Chain.cell {mem : Nat → Cell K V} {p : Option Nat} {pre suf : List (Node K V)}
    {n : Node K V} (h : Chain mem p (pre ++ n :: suf)) :
    mem n.addr = ⟨n.key, n.value, front suf⟩ :=
  h.tail.2.1

theorem Chain.congr {mem mem' : Nat → Cell K V} {p : Option Nat} {chain : List (Node K V)}
    (h : Chain mem p chain) (hm : ∀ n ∈ chain, mem' n.addr = mem n.addr) : Chain mem' p chain := by
  induction chain generalizing p with
  | nil => exact h
  | cons n rest ih =>
      obtain ⟨hp, hc, hrest⟩ := h
      obtain ⟨hn, hms⟩ := List.forall_mem_cons.mp hm
      exact ⟨hp, hn.trans hc, ih hrest hms⟩

theorem Chain.length_eq {mem : Nat → Cell K V} {p : Option Nat} {chain chain' : List (Node K V)}
    (h : Chain mem p chain) (h' : Chain mem p chain') : chain.length = chain'.length := by
  induction chain generalizing p chain' with
  | nil =>
      obtain rfl : p = none := h
      rw [h'.eq_nil_iff.mp rfl]
  | cons n rest ih =>
      cases chain' with
      | nil => simp [h'.eq_nil_iff.mpr rfl, Chain] at h
      | cons n' rest' =>
          obtain ⟨hp, hc, hrest⟩ := h
          obtain ⟨hp', hc', hrest'⟩ := h'
          have haddr : n.addr = n'.addr := Option.some.inj (hp.symm.trans hp')
          have hnext : front rest = front rest' := by
            rw [haddr, hc'] at hc
            exact (congrArg Cell.next hc).symm
          rw [List.length_cons, List.length_cons, ih hrest (hnext ▸ hrest')]

/-- A chain that ends comes to no cell twice. -/
theorem Chain.nodup {mem : Nat → Cell K V} {p : Option Nat} {chain : List (Node K V)}
    (h : Chain mem p chain) : (chain.map Node.addr).Nodup := by
  induction chain generalizing p with
  | nil => simp
  | cons n rest ih =>
      rw [List.map_cons, List.nodup_cons]
      refine ⟨?_, ih h.2.2⟩
      intro hmem
      obtain ⟨m, hm, hma⟩ := List.mem_map.mp hmem
      obtain ⟨pre, suf, rfl⟩ := List.append_of_mem hm
      have hlast : Chain mem (some n.addr) (m :: suf) := hma ▸ h.2.2.tail
      have hall : Chain mem (some n.addr) (n :: (pre ++ m :: suf)) := h.1 ▸ h
      have := hall.length_eq hlast
      simp at this
      omega

theorem Chain.assign {mem : Nat → Cell K V} {p : Option Nat} {pre suf : List (Node K V)}
    {n : Node K V} (h : Chain mem p (pre ++ n :: suf)) (v : V) :
    Chain (Function.update mem n.addr { mem n.addr with value := v }) p
      (pre ++ { n with value := v } :: suf) := by
  have hnodup := h.nodup
  induction pre generalizing p with
  | nil =>
      obtain ⟨hp, hc, hrest⟩ := h
      refine ⟨hp, by simp [hc], hrest.congr fun m hm => ?_⟩
      refine Function.update_of_ne (fun heq => ?_) _ _
      simp only [List.nil_append, List.map_cons, List.nodup_cons] at hnodup
      exact hnodup.1 (heq ▸ List.mem_map_of_mem hm)
  | cons m pre ih =>
      rw [List.cons_append] at h hnodup ⊢
      obtain ⟨hp, hc, hrest⟩ := h
      rw [List.map_cons, List.nodup_cons] at hnodup
      have hfront : front (pre ++ { n with value := v } :: suf) = front (pre ++ n :: suf) := by
        cases pre <;> rfl
      have hne : m.addr ≠ n.addr := fun heq => hnodup.1 (heq ▸ by simp)
      refine ⟨hp, ?_, ?_⟩
      · rw [Function.update_of_ne hne, hc, hfront]
      · rw [hfront]
        exact ih hrest hnodup.2

/-! ## Walking a chain with a key -/

variable [DecidableEq K] {k : K} {pre suf : List (Node K V)}

theorem find_append_of_not (hpre : ∀ n ∈ pre, n.key ≠ k) : find k (pre ++ suf) = find k suf := by
  induction pre with
  | nil => rfl
  | cons n pre ih =>
      obtain ⟨hn, hrest⟩ := List.forall_mem_cons.mp hpre
      simp [find, hn, ih hrest]

theorem assign_append_of_not (v : V) (hpre : ∀ n ∈ pre, n.key ≠ k) :
    ChainedTable.assign k v (pre ++ suf) = (ChainedTable.assign k v suf).map (pre ++ ·) := by
  induction pre with
  | nil => simp
  | cons n pre ih =>
      obtain ⟨hn, hrest⟩ := List.forall_mem_cons.mp hpre
      simp [ChainedTable.assign, hn, ih hrest, Function.comp_def]

end OShm.Lib.ChainedTable
