import Mathlib.Data.List.Basic

/-! # Buffers with checked accesses

A buffer of fixed size. An access outside it has no result, so a function over a buffer
that has a result for every content never leaves the buffer.
-/

namespace OShm.Lib.CBuffer

variable {α : Type}

def load (buf : List α) (i : Nat) : Option α := buf[i]?

def store (buf : List α) (i : Nat) (v : α) : Option (List α) :=
  if i < buf.length then some (buf.set i v) else none

def memcpy (buf : List α) (pos : Nat) (src : List α) : Option (List α) :=
  if pos + src.length ≤ buf.length then
    some (buf.take pos ++ src ++ buf.drop (pos + src.length))
  else none

/-- A loop that reads from `i` on until an element stops it. -/
def scan (stop : α → Bool) : List α → Nat → Option Nat
  | [], _ => none
  | b :: bs, 0 => if stop b then some 0 else (scan stop bs 0).map (· + 1)
  | _ :: bs, i + 1 => (scan stop bs i).map (· + 1)

/-! ## Where an access lies in the buffer -/

theorem load_append (pre post : List α) (b : α) :
    load (pre ++ b :: post) pre.length = some b := by
  simp [load]

theorem store_append (pre post : List α) (b v : α) :
    store (pre ++ b :: post) pre.length v = some (pre ++ v :: post) := by
  simp [store]

theorem scan_append (stop : α → Bool) (pre run post : List α) {b : α}
    (hrun : ∀ c ∈ run, stop c = false) (hb : stop b = true) :
    scan stop (pre ++ run ++ b :: post) pre.length = some (pre.length + run.length) := by
  induction pre with
  | nil =>
      induction run with
      | nil => simp [scan, hb]
      | cons c run ih =>
          have hc : stop c = false := hrun c (by simp)
          have htail := ih fun d hd => hrun d (List.mem_cons_of_mem c hd)
          simp only [List.nil_append, List.length_nil, Nat.zero_add] at htail
          simp [scan, hc, htail]
  | cons a pre ih =>
      simp only [List.append_assoc] at ih
      simp [scan, ih, Nat.add_right_comm]

theorem memcpy_fits {buf src : List α} {pos : Nat} (h : pos + src.length ≤ buf.length) :
    memcpy buf pos src = some (buf.take pos ++ src ++ buf.drop (pos + src.length)) :=
  if_pos h

/-! ## Strings that end with a mark -/

section Strings

variable [DecidableEq α] (nul : α)

def strchr (buf : List α) (i : Nat) (c : α) : Option (Option Nat) := do
  let j ← scan (fun b => b = c || b = nul) buf i
  let b ← load buf j
  return if b = c then some j else none

def strlen (buf : List α) (i : Nat) : Option Nat := do
  let j ← scan (fun b => b = nul) buf i
  return j - i

def stringAt (buf : List α) (i : Nat) : Option (List α) := do
  let n ← strlen nul buf i
  return (buf.drop i).take n

variable {nul}

theorem strchr_append (run post : List α) {b c : α} (hc : c ∉ run) (hnul : nul ∉ run)
    (hb : b = c ∨ b = nul) :
    strchr nul (run ++ b :: post) 0 c = some (if b = c then some run.length else none) := by
  have hscan := scan_append (fun b => b = c || b = nul) [] run post
    (by
      intro d hd
      have hdc : d ≠ c := fun h => hc (h ▸ hd)
      have hdn : d ≠ nul := fun h => hnul (h ▸ hd)
      simp [hdc, hdn])
    (b := b) (by simpa using hb)
  simp only [List.nil_append, List.length_nil, Nat.zero_add] at hscan
  simp [strchr, hscan, load_append]

theorem strlen_append (pre run post : List α) (hnul : nul ∉ run) :
    strlen nul (pre ++ run ++ nul :: post) pre.length = some run.length := by
  have hscan := scan_append (fun b => b = nul) pre run post
    (by
      intro d hd
      have hdn : d ≠ nul := fun h => hnul (h ▸ hd)
      simp [hdn])
    (b := nul) (by simp)
  rw [strlen, hscan]
  simp

theorem stringAt_append (pre run post : List α) (hnul : nul ∉ run) :
    stringAt nul (pre ++ run ++ nul :: post) pre.length = some run := by
  rw [stringAt, strlen_append pre run post hnul]
  simp

end Strings

end OShm.Lib.CBuffer
