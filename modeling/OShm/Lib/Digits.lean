import Mathlib.Logic.Function.Basic

/-! # Written numbers

Numbers written with `Nat.toDigits`, character by character in some alphabet. A number can be
read back from its digits as long as the alphabet tells the digits apart.
-/

namespace OShm.Lib.Digits

variable {α : Type*} {b n : Nat}

theorem exists_digit_of_mem (hb : 1 < b) {c : Char} (h : c ∈ Nat.toDigits b n) :
    ∃ d < b, c = Nat.digitChar d := by
  induction n using Nat.strongRecOn with
  | ind n ih =>
      by_cases hn : n < b
      · rw [Nat.toDigits_of_lt_base hn, List.mem_singleton] at h
        exact ⟨n, hn, h⟩
      · rw [Nat.toDigits_of_base_le hb (by omega), List.mem_append, List.mem_singleton] at h
        rcases h with h | h
        · exact ih (n / b) (Nat.div_lt_self (by omega) hb) h
        · exact ⟨n % b, Nat.mod_lt n (by omega), h⟩

theorem not_mem_map (hb : 1 < b) {f : Char → α} {x : α}
    (hx : ∀ d < b, f (Nat.digitChar d) ≠ x) (n : Nat) : x ∉ (Nat.toDigits b n).map f := by
  intro h
  obtain ⟨c, hc, hfc⟩ := List.mem_map.mp h
  obtain ⟨d, hd, rfl⟩ := exists_digit_of_mem hb hc
  exact hx d hd hfc

/-- The last digit is the remainder, and the others are those of the quotient. -/
theorem map_toDigits_injective (hb : 1 < b) {f : Char → α}
    (hf : ∀ d < b, ∀ e < b, f (Nat.digitChar d) = f (Nat.digitChar e) → d = e) :
    Function.Injective fun n => (Nat.toDigits b n).map f := by
  have hshort : ∀ n m, n < b → ¬ m < b →
      (Nat.toDigits b n).map f ≠ (Nat.toDigits b m).map f := by
    intro n m hn hm h
    have hlen := congrArg List.length h
    rw [Nat.toDigits_of_lt_base hn, Nat.toDigits_of_base_le hb (Nat.le_of_not_lt hm)] at hlen
    simp at hlen
  intro n m h
  dsimp only at h
  induction n using Nat.strongRecOn generalizing m with
  | ind n ih =>
      by_cases hn : n < b
      · by_cases hm : m < b
        · rw [Nat.toDigits_of_lt_base hn, Nat.toDigits_of_lt_base hm] at h
          exact hf n hn m hm (List.head_eq_of_cons_eq h)
        · exact absurd h (hshort n m hn hm)
      · by_cases hm : m < b
        · exact absurd h.symm (hshort m n hm hn)
        · rw [Nat.toDigits_of_base_le hb (Nat.le_of_not_lt hn),
            Nat.toDigits_of_base_le hb (Nat.le_of_not_lt hm), List.map_append,
            List.map_append] at h
          obtain ⟨hhigh, hlow⟩ := List.append_inj' h rfl
          have hdiv : n / b = m / b := ih (n / b) (Nat.div_lt_self (by omega) hb) hhigh
          have hmod : n % b = m % b :=
            hf _ (Nat.mod_lt n (by omega)) _ (Nat.mod_lt m (by omega))
              (List.head_eq_of_cons_eq hlow)
          rw [← Nat.div_add_mod n b, ← Nat.div_add_mod m b, hdiv, hmod]

/-! ## Reading -/

/-- Read digits from the left as long as there are any; what follows them is left over. -/
def scan (b : Nat) (digit : α → Option Nat) : List α → Nat → Nat × List α
  | [], acc => (acc, [])
  | c :: rest, acc =>
      match digit c with
      | some d => scan b digit rest (acc * b + d)
      | none => (acc, c :: rest)

theorem scan_map_toDigits (hb : 1 < b) {digit : α → Option Nat} {f : Char → α}
    (hf : ∀ d < b, digit (f (Nat.digitChar d)) = some d) (n : Nat) (rest : List α) :
    scan b digit ((Nat.toDigits b n).map f ++ rest) 0 = scan b digit rest n := by
  induction n using Nat.strongRecOn generalizing rest with
  | ind n ih =>
      by_cases hn : n < b
      · rw [Nat.toDigits_of_lt_base hn]
        simp [scan, hf n hn]
      · have hlt := Nat.mod_lt n (Nat.lt_trans Nat.zero_lt_one hb)
        rw [Nat.toDigits_of_base_le hb (Nat.le_of_not_lt hn), List.map_append, List.append_assoc,
          ih (n / b) (Nat.div_lt_self (by omega) hb)]
        simp only [List.map_cons, List.map_nil, List.singleton_append, scan, hf _ hlt]
        rw [Nat.mul_comm, Nat.div_add_mod]

end OShm.Lib.Digits
