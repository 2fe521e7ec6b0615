import Mathlib.Logic.Function.Basic

/-! # Dictionaries

A dictionary is a partial function with updates. Deletions commute, so a set of keys can
be deleted in any order. A dictionary on raw keys can hold a function on decoded keys:
raw keys that do not decode are absent, and an update at a raw key is the update at what
it decodes to.
-/

namespace OShm.Lib

abbrev Dict (K V : Type*) := K → Option V

namespace Dict

variable {K N V : Type*}

/-- The dictionary on raw keys that stands for one on decoded keys. -/
def keyed (decode : K → Option N) (f : Dict N V) : Dict K V := fun k => (decode k).bind f

variable {decode : K → Option N} {f : Dict N V} {k : K} {n : N}

theorem keyed_of_some (h : decode k = some n) : keyed decode f k = f n := by
  simp [keyed, h]

theorem keyed_of_none (h : decode k = none) : keyed decode f k = none := by
  simp [keyed, h]

variable [DecidableEq K] [DecidableEq N]

def set (d : Dict K V) (k : K) (v : V) : Dict K V := Function.update d k (some v)

def del (d : Dict K V) (k : K) : Dict K V := Function.update d k none

@[simp] theorem set_same (d : Dict K V) (k : K) (v : V) : d.set k v k = some v := by
  simp [set]

@[simp] theorem set_of_ne (d : Dict K V) {k k' : K} (v : V) (h : k' ≠ k) :
    d.set k v k' = d k' := by
  simp [set, h]

@[simp] theorem del_same (d : Dict K V) (k : K) : d.del k k = none := by
  simp [del]

@[simp] theorem del_of_ne (d : Dict K V) {k k' : K} (h : k' ≠ k) : d.del k k' = d k' := by
  simp [del, h]

theorem set_set (d : Dict K V) (k : K) (v w : V) : (d.set k v).set k w = d.set k w := by
  simp [set]

theorem del_del_comm (d : Dict K V) (j k : K) : (d.del j).del k = (d.del k).del j := by
  by_cases h : j = k
  · rw [h]
  · exact Function.update_comm h none none d

/-! ## Updates at decoded keys -/

theorem update_keyed (h : ∀ k', decode k' = some n ↔ k' = k) (v : Option V) :
    Function.update (keyed decode f) k v = keyed decode (Function.update f n v) := by
  funext k'
  by_cases hk : k' = k
  · subst hk
    rw [Function.update_self, keyed_of_some ((h k').mpr rfl), Function.update_self]
  · rw [Function.update_of_ne hk]
    cases hd : decode k' with
    | none => rw [keyed_of_none hd, keyed_of_none hd]
    | some m =>
        have hm : m ≠ n := by
          rintro rfl
          exact hk ((h k').mp hd)
        rw [keyed_of_some hd, keyed_of_some hd, Function.update_of_ne hm]

theorem set_keyed (h : ∀ k', decode k' = some n ↔ k' = k) (v : V) :
    (keyed decode f).set k v = keyed decode (f.set n v) := update_keyed h (some v)

theorem del_keyed (h : ∀ k', decode k' = some n ↔ k' = k) :
    (keyed decode f).del k = keyed decode (f.del n) := update_keyed h none

end Dict

end OShm.Lib
