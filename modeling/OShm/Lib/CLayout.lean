import Mathlib.Algebra.Group.Nat.Defs
import OShm.Lib.ByteFile

/-! # Layout of C structures

A member is placed at the next multiple of its alignment, which byte packing makes 1. Two
declarations of a structure read each other's bytes where they give the same offsets. Machine
words are rounded to a power of two by clearing their low bits; rounding up adds the mask first,
and wraps around only at the top of the address space.
-/

namespace OShm.Lib.CLayout

open ByteFile

structure CType where
  size : Nat
  align : Nat
  align_pos : 0 < align

/-- A scalar is aligned to its own size. -/
def scalar (n : Nat) (h : 0 < n) : CType := ⟨n, n, h⟩

def array (t : CType) (n : Nat) : CType := ⟨n * t.size, t.align, t.align_pos⟩

inductive Packing where
  | natural
  /-- `#pragma pack(1)`. -/
  | bytes

def Packing.align (p : Packing) (t : CType) : Nat :=
  match p with
  | natural => t.align
  | bytes => 1

theorem Packing.align_pos (p : Packing) (t : CType) : 0 < p.align t := by
  cases p with
  | natural => exact t.align_pos
  | bytes => exact Nat.one_pos

/-- The next multiple of an alignment. -/
def roundUp (n a : Nat) : Nat := (n + (a - 1)) / a * a

theorem le_roundUp {n a : Nat} (h : 0 < a) : n ≤ roundUp n a := by
  have hdiv := Nat.div_add_mod (n + (a - 1)) a
  have hmod := Nat.mod_lt (n + (a - 1)) h
  rw [roundUp, Nat.mul_comm]
  omega

def offsets (p : Packing) : Nat → List CType → List Nat
  | _, [] => []
  | pos, t :: ts => roundUp pos (p.align t) :: offsets p (roundUp pos (p.align t) + t.size) ts

def extent (p : Packing) : Nat → List CType → Nat
  | pos, [] => pos
  | pos, t :: ts => extent p (roundUp pos (p.align t) + t.size) ts

/-- A structure as a type: the largest alignment of its members, and the size rounded up
to it. -/
def struct (p : Packing) (ts : List CType) : CType :=
  let a := ts.foldr (fun t m => max (p.align t) m) 1
  { size := roundUp (extent p 0 ts) a
    align := a
    align_pos := by
      cases ts with
      | nil => exact Nat.one_pos
      | cons t ts => exact Nat.lt_of_lt_of_le (p.align_pos t) (Nat.le_max_left _ _) }

variable {β : Type*}

/-- The bytes of members with given contents, with `fill` in the gaps. -/
def image (p : Packing) (fill : β) : Nat → List (CType × List β) → List β
  | _, [] => []
  | pos, (t, v) :: rest =>
      List.replicate (roundUp pos (p.align t) - pos) fill ++ v ++
        image p fill (roundUp pos (p.align t) + t.size) rest

theorem readAt_image (p : Packing) (fill : β) {ms : List (CType × List β)}
    (hlen : ∀ m ∈ ms, m.2.length = m.1.size) {pos i o : Nat} {t : CType} {v : List β}
    (hm : ms[i]? = some (t, v)) (ho : (offsets p pos (ms.map (·.1)))[i]? = some o) :
    pos ≤ o ∧ readAt (image p fill pos ms) (o - pos) t.size = v := by
  induction ms generalizing pos i with
  | nil => cases hm
  | cons m ms ih =>
      obtain ⟨u, w⟩ := m
      have hround := le_roundUp (n := pos) (p.align_pos u)
      have hw : w.length = u.size := hlen (u, w) (by simp)
      cases i with
      | zero =>
          obtain ⟨rfl, rfl⟩ : u = t ∧ w = v := by simpa using hm
          obtain rfl : roundUp pos (p.align u) = o := by simpa [offsets] using ho
          refine ⟨hround, ?_⟩
          simp only [readAt, image, List.append_assoc]
          rw [List.drop_left' (List.length_replicate ..), ← hw, List.take_left]
      | succ i =>
          have hm' : ms[i]? = some (t, v) := by simpa using hm
          have ho' : (offsets p (roundUp pos (p.align u) + u.size) (ms.map (·.1)))[i]? =
              some o := by
            simpa [offsets] using ho
          obtain ⟨hle, hread⟩ := ih (fun m h => hlen m (List.mem_cons_of_mem _ h)) hm' ho'
          refine ⟨by omega, ?_⟩
          have hskip : (List.replicate (roundUp pos (p.align u) - pos) fill ++ w).length =
              roundUp pos (p.align u) - pos + u.size := by
            simp [hw]
          have hsplit : o - pos = (roundUp pos (p.align u) - pos + u.size) +
              (o - (roundUp pos (p.align u) + u.size)) := by omega
          rw [← hread]
          simp only [readAt, image]
          rw [hsplit, ← List.drop_drop, List.drop_left' hskip]

/-! ## Machine words -/

variable {w : Nat}

def lowMask (w k : Nat) : BitVec w := BitVec.ofNat w (2 ^ k - 1)

/-- `x & ~mask`. -/
def alignDown (k : Nat) (x : BitVec w) : BitVec w := x &&& ~~~lowMask w k

/-- `(x + mask) & ~mask`. -/
def alignUp (k : Nat) (x : BitVec w) : BitVec w := alignDown k (x + lowMask w k)

theorem lowMask_toNat {k : Nat} (hk : k ≤ w) : (lowMask w k).toNat = 2 ^ k - 1 := by
  have hpow : 2 ^ k ≤ 2 ^ w := Nat.pow_le_pow_right (by decide) hk
  have hpos : 0 < 2 ^ k := Nat.two_pow_pos k
  exact Nat.mod_eq_of_lt (by omega)

theorem alignDown_eq_shift {k : Nat} (hk : k ≤ w) (x : BitVec w) :
    alignDown k x = (x >>> k) <<< k := by
  apply BitVec.eq_of_getLsbD_eq
  intro i hi
  have hlow : (lowMask w k).getLsbD i = decide (i < k) := by
    rw [← BitVec.testBit_toNat, lowMask_toNat hk, Nat.testBit_two_pow_sub_one]
  rw [alignDown, BitVec.getLsbD_and, BitVec.getLsbD_not, hlow, BitVec.getLsbD_shiftLeft,
    BitVec.getLsbD_ushiftRight]
  by_cases hik : i < k
  · simp [hik]
  · have hback : k + (i - k) = i := by omega
    simp [hi, hik, hback]

theorem alignDown_toNat {k : Nat} (hk : k ≤ w) (x : BitVec w) :
    (alignDown k x).toNat = x.toNat / 2 ^ k * 2 ^ k := by
  have hle : x.toNat / 2 ^ k * 2 ^ k ≤ x.toNat := Nat.div_mul_le_self _ _
  rw [alignDown_eq_shift hk, BitVec.toNat_shiftLeft, BitVec.toNat_ushiftRight, Nat.shiftLeft_eq,
    Nat.shiftRight_eq_div_pow, Nat.mod_eq_of_lt (Nat.lt_of_le_of_lt hle x.isLt)]

theorem alignUp_toNat {k : Nat} (hk : k ≤ w) {x : BitVec w} (h : x.toNat + (2 ^ k - 1) < 2 ^ w) :
    (alignUp k x).toNat = roundUp x.toNat (2 ^ k) := by
  unfold alignUp roundUp
  rw [alignDown_toNat hk, BitVec.toNat_add, lowMask_toNat hk, Nat.mod_eq_of_lt h]

end OShm.Lib.CLayout
