import OShm.Kernel.KvRefinement

/-! # The buckets of a thread group

`write_kv` is the only writer of a table and `INIT_HLIST_HEAD` the only start, so what both
keep holds of every table that a task points to. The nodes of a table are counted by the
keys its group has written.
-/

namespace OShm.Kernel

open OShm.Lib OShm.Lib.ChainedTable

/-! ## A rule for tables -/

def State.AllTables (P : KvTable → Prop) (s : State) : Prop :=
  ∀ t ∈ s.tasks, ∀ a, t.kvStore = some a → P (s.heap.table a)

section Rule

variable {P : KvTable → Prop}

theorem State.AllTables.extend {s : State} {h : KvHeap} (hp : s.AllTables P) (hw : s.WellFormed)
    (hx : s.heap.Extends h) : State.AllTables P ⟨s.tasks, h⟩ := by
  intro t ht a ha
  change P (h.table a)
  rw [hx.table a (KvHeap.mem_addrs (hw.store_live t ht a ha))]
  exact hp t ht a ha

theorem State.AllTables.step {s s' : State} {a : Action} {e : Event} (hempty : P fun _ => [])
    (hwrite : ∀ h store k v mem, P (h.table store) → P ((writeKv h store k v mem).1.table store))
    (hw : s.WellFormed) (hp : s.AllTables P) (h : kernel.step s a = some (s', e)) :
    s'.AllTables P := by
  cases State.step_cases h with
  | forkFailed ht hl hsup he => exact hp.extend hw (he.extends hsup.store_new)
  | forked ht hl hsup he =>
      have hold := hp.extend hw (he.extends hsup.store_new)
      refine List.forall_mem_cons.mpr ⟨?_, hold⟩
      cases he with
      | thread hyes => exact fun a ha => hp _ ht a ha
      | process a b hno ha hb hlate =>
          intro c hc
          obtain rfl : a = c := by simpa using hc
          simpa [KvHeap.initHlistHeads] using hempty
  | wrote ht hl hst hg hm =>
      rename_i store k v mem
      intro u hu a ha
      by_cases hsame : a = store
      · subst hsame
        exact hwrite s.heap a k v mem (hp u hu a ha)
      · change P ((writeKv s.heap store k v mem).1.table a)
        rw [writeKv_table_of_ne s.heap k v mem hsame]
        exact hp u hu a ha
  | didRead ht hl hst hg => exact hp
  | reaped ht hl =>
      exact forall_releaseTask (P := fun t => ∀ a, t.kvStore = some a → P (s.heap.table a))
        (fun _ => id) hp
  | freed ht hd => exact fun t ht => hp t (List.mem_of_mem_filter ht)

theorem run_allTables (hempty : P fun _ => [])
    (hwrite : ∀ h store k v mem, P (h.table store) → P ((writeKv h store k v mem).1.table store))
    {acts : List Action} {s : State} {tr : List Event}
    (hr : kernel.run boot acts = some (s, tr)) : s.AllTables P := by
  have start : boot.WellFormed ∧ boot.AllTables P := by
    refine ⟨boot_wellFormed, ?_⟩
    intro t ht a ha
    exact hempty
  have keep : ∀ {s a s' e}, s.WellFormed ∧ s.AllTables P → kernel.step s a = some (s', e) →
      s'.WellFormed ∧ s'.AllTables P :=
    fun hi h => ⟨hi.1.step h, hi.2.step hempty hwrite hi.1 h⟩
  exact (kernel.run_invariant keep start hr).2

end Rule

theorem writeKv_keysOnce (h : KvHeap) (store : Addr) (k v : CInt) (mem : Option Addr)
    (ho : KeysOnce (h.table store)) : KeysOnce ((writeKv h store k v mem).1.table store) := by
  rcases writeKv_cases h store k v mem with ⟨chain, ha, he⟩ | ⟨a, _, hf, he⟩ | ⟨_, _, he⟩
  · rw [he]
    simp only [KvHeap.setBucket, Function.update_self]
    exact ho.assign ha
  · rw [he]
    simp only [KvHeap.setBucket, Function.update_self]
    exact ho.cons hf
  · rwa [he]

/-! ## The keys a group has written -/

/-- The keys of the writes of group `g` that returned 0 since the group was created, over
events listed newest first. -/
def writtenKeys (g : Nat) : List Event → Finset CInt
  | [] => ∅
  | .wroteKv g' k _ ret :: older =>
      if g' = g ∧ ret = 0 then insert k (writtenKeys g older) else writtenKeys g older
  | .forked g' true :: older => if g' = g then ∅ else writtenKeys g older
  | _ :: older => writtenKeys g older

theorem mem_writtenKeys_iff (g : Nat) (k : CInt) (events : List Event) :
    k ∈ writtenKeys g events ↔ latestWrite g k events ≠ none := by
  induction events with
  | nil => simp [writtenKeys, latestWrite]
  | cons e older ih =>
      cases e with
      | wroteKv g' k' v ret =>
          by_cases hg : g' = g ∧ ret = 0
          · by_cases hk : k' = k
            · simp [writtenKeys, latestWrite, hg, hk]
            · have hk' : k ≠ k' := fun h => hk h.symm
              simp [writtenKeys, latestWrite, hg, hk, hk', ih]
          · have hno : ¬ (g' = g ∧ k' = k ∧ ret = 0) := fun h => hg ⟨h.1, h.2.2⟩
            rw [writtenKeys, if_neg hg, latestWrite, if_neg hno]
            exact ih
      | forked g' newGroup =>
          cases newGroup with
          | false => exact ih
          | true =>
              by_cases hg : g' = g
              · simp [writtenKeys, latestWrite, hg]
              · rw [writtenKeys, if_neg hg, latestWrite, if_neg hg]
                exact ih
      | forkFailed _ => exact ih
      | didReadKv _ _ _ => exact ih
      | reaped _ => exact ih
      | freed => exact ih

/-- In every run each node of a group's table sits in the chain of `key & 0x3FF`, a key has
one node, and there are as many nodes as keys that the group has written with success. -/
theorem kvBuckets_of_run {acts : List Action} {s : State} {tr : List Event}
    (hr : kernel.run boot acts = some (s, tr)) :
    ∀ t ∈ s.tasks, t.hashed → t.tgid ≠ 0 → ∃ store, t.kvStore = some store ∧
      (∀ b, ∀ n ∈ s.heap.table store b, (b : Nat) = (n.key &&& 0x3FF#32).toNat) ∧
      (∀ (b b' : Fin 1024) (i i' : Nat) (n n' : Node CInt CInt),
        (s.heap.table store b)[i]? = some n → (s.heap.table store b')[i']? = some n' →
          n.key = n'.key → b = b' ∧ i = i') ∧
      size (s.heap.table store) = (writtenKeys t.tgid tr.reverse).card := by
  obtain ⟨hw, hs, _⟩ := run_simulates hr
  have hall := run_allTables keysOnce_empty writeKv_keysOnce hr
  intro t ht hl hg
  obtain ⟨store, hst⟩ := hw.store_some t ht hg
  have hp := hw.placed t ht store hst
  have honce := hall t ht store hst
  refine ⟨store, hst, ?_, ?_, ?_⟩
  · intro b n hn
    rw [← hp b n hn]
    rfl
  · intro b b' i i' n n' hn hn' hkey
    exact hp.unique_place honce hn hn' hkey
  · have hkeys : keys (s.heap.table store) = writtenKeys t.tgid tr.reverse := by
      ext k
      have hmap : lookup kvHash (s.heap.table store) k = latestWrite t.tgid k tr.reverse :=
        congrFun (hs t ht hl hg store hst) k
      rw [hp.mem_keys_iff_lookup, mem_writtenKeys_iff, hmap]
    rw [hp.size_eq_card honce, hkeys]

/-- Two keys of one bucket, the first of them written again, and a third key that gets no
memory. -/
def collidingKeys : List Action :=
  [.copyProcess 0 (plainArgs 0) (cleanFork 16 1 100 101),
   .writeKv 16 (BitVec.ofInt 32 (-1)) 5 (some 300),
   .writeKv 16 1023 6 (some 301),
   .writeKv 16 (BitVec.ofInt 32 (-1)) 7 (some 302),
   .writeKv 16 2047 8 none]

theorem kvBuckets_of_run_colliding :
    ∃ s tr, kernel.run boot collidingKeys = some (s, tr) ∧
      ∃ t ∈ s.tasks, t.tgid = 1 ∧ ∃ store, t.kvStore = some store ∧
        size (s.heap.table store) = 2 := by
  refine ⟨_, _, rfl, _, List.mem_cons_self, rfl, ?_⟩
  obtain ⟨store, hst, _, _, hsize⟩ :=
    @kvBuckets_of_run collidingKeys _ _ rfl _ List.mem_cons_self rfl (by decide)
  exact ⟨store, hst, hsize.trans (by decide)⟩

end OShm.Kernel
