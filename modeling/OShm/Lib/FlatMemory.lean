import Mathlib.Algebra.BigOperators.Group.Finset.Basic
import Mathlib.Algebra.Group.Nat.Defs
import Mathlib.Logic.Function.Basic

/-! # Flat byte memory

Memory takes an address to a byte. Numbers are stored with their lowest byte first. The
lemmas say which addresses a read looks at and which a write leaves alone.
-/

namespace OShm.Lib.FlatMemory

abbrev Memory := Nat → UInt8

def load (n : Nat) (m : Memory) (a : Nat) : Nat :=
  match n with
  | 0 => 0
  | n + 1 => (m a).toNat + 256 * load n m (a + 1)

def store (m : Memory) (a : Nat) (v : UInt8) : Memory := Function.update m a v

/-- The bytes at `src` go to `dst` as they were before, also when the two overlap. -/
def copy (m : Memory) (dst src n : Nat) : Memory := fun a =>
  if dst ≤ a ∧ a < dst + n then m (src + (a - dst)) else m a

def byteSum (m : Memory) (a : Nat) : Nat → UInt8
  | 0 => 0
  | n + 1 => byteSum m a n + m (a + n)

def storeBytes (m : Memory) (a : Nat) (bytes : List UInt8) : Memory := fun b =>
  if a ≤ b then (bytes[b - a]?).getD (m b) else m b

def bytesAt (m : Memory) (a n : Nat) : List UInt8 := (List.range n).map fun i => m (a + i)

def ofBytes (bytes : List (Nat × UInt8)) : Memory := fun a => (bytes.lookup a).getD 0

section Access

variable {m m' : Memory} {a b n i : Nat} {v : UInt8}

theorem load_lt (n : Nat) (m : Memory) (a : Nat) : load n m a < 256 ^ n := by
  induction n generalizing a with
  | zero => exact Nat.one_pos
  | succ n ih =>
      have hbyte : (m a).toNat < 256 := (m a).toNat_lt
      have htail := ih (a + 1)
      rw [load, Nat.pow_succ]
      omega

theorem load_congr (h : ∀ i < n, m (a + i) = m' (b + i)) : load n m a = load n m' b := by
  induction n generalizing a b with
  | zero => rfl
  | succ n ih =>
      have hfirst : m a = m' b := h 0 (Nat.succ_pos n)
      have hrest : load n m (a + 1) = load n m' (b + 1) := by
        refine ih fun i hi => ?_
        rw [Nat.add_assoc, Nat.add_assoc, Nat.add_comm 1 i]
        exact h (i + 1) (Nat.succ_lt_succ hi)
      rw [load, load, hfirst, hrest]

theorem store_same : store m a v a = v := by
  simp [store]

theorem store_other (h : b ≠ a) : store m a v b = m b := by
  simp [store, h]

theorem store_store {w : UInt8} : store (store m a v) a w = store m a w := by
  simp [store]

theorem store_eq_self_iff : store m a v = m ↔ v = m a := Function.update_eq_self_iff

theorem copy_inside (h : i < n) : copy m a b n (a + i) = m (b + i) := by
  rw [copy, if_pos ⟨Nat.le_add_right a i, Nat.add_lt_add_left h a⟩, Nat.add_sub_cancel_left]

theorem copy_outside {c : Nat} (h : c < a ∨ a + n ≤ c) : copy m a b n c = m c := by
  rw [copy, if_neg]
  omega

theorem byteSum_congr (h : ∀ i < n, m (a + i) = m' (b + i)) : byteSum m a n = byteSum m' b n := by
  induction n with
  | zero => rfl
  | succ n ih =>
      rw [byteSum, byteSum, ih fun i hi => h i (Nat.lt_succ_of_lt hi), h n (Nat.lt_succ_self n)]

theorem byteSum_store_outside (h : b < a ∨ a + n ≤ b) :
    byteSum (store m b v) a n = byteSum m a n := by
  refine byteSum_congr fun i hi => store_other ?_
  omega

theorem byteSum_store_inside (h : i < n) :
    byteSum (store m (a + i) v) a n = byteSum (store m (a + i) 0) a n + v := by
  induction n with
  | zero => cases h
  | succ n ih =>
      rw [byteSum, byteSum]
      by_cases hin : i < n
      · have hlast : a + n ≠ a + i := by omega
        rw [ih hin, store_other hlast, store_other hlast, UInt8.add_assoc, UInt8.add_assoc,
          UInt8.add_comm v]
      · obtain rfl : i = n := by omega
        have hend : a + i < a ∨ a + i ≤ a + i := Or.inr (Nat.le_refl _)
        rw [byteSum_store_outside hend, byteSum_store_outside hend, store_same, store_same,
          UInt8.add_zero]

/-- One byte at a given place completes the sum. -/
theorem byteSum_store_eq_zero_iff (h : i < n) :
    byteSum (store m (a + i) v) a n = 0 ↔ v = -byteSum (store m (a + i) 0) a n := by
  rw [byteSum_store_inside h]
  generalize byteSum (store m (a + i) 0) a n = rest
  rw [← UInt8.add_right_neg rest]
  exact UInt8.add_right_inj rest

theorem byteSum_toNat (m : Memory) (a n : Nat) :
    (byteSum m a n).toNat = (∑ i ∈ Finset.range n, (m (a + i)).toNat) % 256 := by
  induction n with
  | zero => rfl
  | succ n ih =>
      rw [byteSum, UInt8.toNat_add, ih, Finset.sum_range_succ, Nat.mod_add_mod]

theorem byteSum_eq_zero_iff :
    byteSum m a n = 0 ↔ (∑ i ∈ Finset.range n, (m (a + i)).toNat) % 256 = 0 := by
  rw [← byteSum_toNat, ← UInt8.toNat_inj]
  rfl

@[simp] theorem bytesAt_length (m : Memory) (a n : Nat) : (bytesAt m a n).length = n := by
  simp [bytesAt]

theorem bytesAt_store : bytesAt (store m (a + i) v) a n = (bytesAt m a n).set i v := by
  refine List.ext_getElem (by simp) fun j hj _ => ?_
  rw [bytesAt_length] at hj
  by_cases hij : i = j
  · subst hij
    simp [bytesAt, store_same]
  · have hne : a + j ≠ a + i := by omega
    simp [bytesAt, store_other hne, List.getElem_set_of_ne hij]

theorem bytesAt_storeBytes (m : Memory) (a : Nat) (bytes : List UInt8) :
    bytesAt (storeBytes m a bytes) a bytes.length = bytes := by
  refine List.ext_getElem (by simp) fun j _ hj => ?_
  simp [bytesAt, storeBytes, hj]

theorem storeBytes_inside {bytes : List UInt8} (hi : i < bytes.length) :
    storeBytes m a bytes (a + i) = bytes.getD i 0 := by
  simp [storeBytes, hi]

theorem bytesAt_getD (hi : i < n) : (bytesAt m a n).getD i 0 = m (a + i) := by
  simp [bytesAt, hi]

end Access

end OShm.Lib.FlatMemory
