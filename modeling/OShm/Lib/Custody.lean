import Mathlib.Algebra.Group.Submonoid.Membership
import Mathlib.Algebra.Order.Group.Multiset
import OShm.Lib.Program

/-! # Programs that take and give back

A program asks its environment, takes resources into custody, uses them and gives them back.
Giving back or using what is not in custody is a fault. A triple says that a program without
faults turns one holding into another, whatever else is held meanwhile, and that all it may
have lost track of belongs to a given set of losses.
-/

namespace OShm.Lib.Custody

structure Books (R ε ν : Type) where
  held : Multiset R
  fault : Bool
  /-- What the environment is going to answer. -/
  answers : List (Except ε ν)

abbrev Code (R ε ν α : Type) := Prog (Books R ε ν) ε α

variable {R ε ν α β : Type}

/-- The next answer. A program that asks beyond the last one does not end. -/
def ask : Code R ε ν (Except ε ν) := fun b =>
  match b.answers with
  | [] => none
  | q :: rest => some (.ok q, { b with answers := rest })

def ofExcept : Except ε α → Code R ε ν α
  | .ok a => pure a
  | .error e => Prog.fail e

def request : Code R ε ν ν := do ofExcept (← ask)

def take (r : R) : Code R ε ν Unit := Prog.update fun b => { b with held := r ::ₘ b.held }

/-- A call that brings a resource unless it fails. -/
def acquire (r : R) : Code R ε ν (Except ε ν) := do
  match ← ask with
  | .ok v => do
      take r
      pure (.ok v)
  | .error e => pure (.error e)

section Checked

variable [DecidableEq R]

def give (r : R) : Code R ε ν Unit := Prog.update fun b =>
  if b.held.count r = 0 then { b with fault := true } else { b with held := b.held.erase r }

def use (r : R) : Code R ε ν Unit := Prog.update fun b =>
  if b.held.count r = 0 then { b with fault := true } else b

def giveIf (got : Except ε ν) (r : R) : Code R ε ν Unit :=
  match got with
  | .ok _ => give r
  | .error _ => pure ()

end Checked

/-! ## Triples -/

def Books.Holds (b : Books R ε ν) (H : Multiset R) : Prop := b.held = H ∧ b.fault = false

/-- From a holding that contains `H` the program ends without a fault in one where `H` is
replaced as `post` says and to which only losses in `L` are added. -/
def Triple (L : AddSubmonoid (Multiset R)) (H : Multiset R) (m : Code R ε ν α)
    (post : Except ε α → Multiset R → Prop) : Prop :=
  ∀ F, Prog.Ensures (fun b => b.Holds (F + H)) m fun r b =>
    ∃ K, ∃ l ∈ L, post r K ∧ b.Holds (F + K + l)

section Rules

variable {L : AddSubmonoid (Multiset R)} {H K : Multiset R} {m : Code R ε ν α}
  {f : α → Code R ε ν β} {post post' : Except ε α → Multiset R → Prop}
  {after : Except ε β → Multiset R → Prop} {r : R}

theorem Triple.pure {a : α} (h : post (.ok a) H) : Triple L H (pure a : Code R ε ν α) post := by
  intro F b x b' hb hx
  cases hx
  exact ⟨H, 0, L.zero_mem, h, by rwa [add_zero]⟩

theorem Triple.fail {e : ε} (h : post (.error e) H) :
    Triple L H (Prog.fail e : Code R ε ν α) post := by
  intro F b x b' hb hx
  cases hx
  exact ⟨H, 0, L.zero_mem, h, by rwa [add_zero]⟩

theorem Triple.diverge : Triple L H (Prog.diverge : Code R ε ν α) post := by
  intro F b x b' hb hx
  cases hx

theorem Triple.weaken (hm : Triple L H m post) (h : ∀ x K, post x K → post' x K) :
    Triple L H m post' := by
  intro F b x b' hb hx
  obtain ⟨K, l, hl, hpost, hb'⟩ := hm F b x b' hb hx
  exact ⟨K, l, hl, h x K hpost, hb'⟩

/-- What the program does not need stays as it is. -/
theorem Triple.frame (hm : Triple L H m post) (G : Multiset R) :
    Triple L (G + H) m fun x K => ∃ K', post x K' ∧ K = G + K' := by
  intro F b x b' hb hx
  rw [← add_assoc] at hb
  obtain ⟨K, l, hl, hpost, hb'⟩ := hm (F + G) b x b' hb hx
  exact ⟨G + K, l, hl, ⟨K, hpost, rfl⟩, by rwa [← add_assoc]⟩

theorem Triple.lose {l : Multiset R} (hl : l ∈ L) (hm : Triple L H m post) :
    Triple L (H + l) m post := by
  intro F b x b' hb hx
  rw [← add_assoc, add_right_comm] at hb
  obtain ⟨K, l', hl', hpost, hb'⟩ := hm (F + l) b x b' hb hx
  refine ⟨K, l + l', L.add_mem hl hl', hpost, ?_⟩
  rwa [add_right_comm F l K, add_assoc (F + K) l l'] at hb'

theorem Triple.bind (hm : Triple L H m post)
    (herror : ∀ e K, post (.error e) K → after (.error e) K)
    (hok : ∀ a K, post (.ok a) K → Triple L K (f a) after) : Triple L H (m >>= f) after := by
  intro F b x b' hb hx
  rcases Prog.bind_eq_some hx with ⟨e, hmb, rfl⟩ | ⟨a, t, hmb, hft⟩
  · obtain ⟨K, l, hl, hpost, hb'⟩ := hm F b _ b' hb hmb
    exact ⟨K, l, hl, herror e K hpost, hb'⟩
  · obtain ⟨K, l, hl, hpost, ht⟩ := hm F b _ t hb hmb
    rw [add_right_comm] at ht
    obtain ⟨K', l', hl', hafter, hb'⟩ := hok a K hpost (F + l) t x b' ht hft
    refine ⟨K', l + l', L.add_mem hl hl', hafter, ?_⟩
    rwa [add_right_comm F l K', add_assoc (F + K') l l'] at hb'

theorem Triple.attempt_bind {f : Except ε α → Code R ε ν β} (hm : Triple L H m post)
    (h : ∀ x K, post x K → Triple L K (f x) after) : Triple L H (m.attempt >>= f) after := by
  have hattempt : Triple L H m.attempt fun x K => ∃ y, x = .ok y ∧ post y K := by
    intro F b x b' hb hx
    unfold Prog.attempt at hx
    cases hmb : m b with
    | none => simp [hmb] at hx
    | some p =>
        obtain ⟨rfl, rfl⟩ : Except.ok p.1 = x ∧ p.2 = b' := by simpa [hmb] using hx
        obtain ⟨K, l, hl, hpost, hb'⟩ := hm F b p.1 p.2 hb hmb
        exact ⟨K, l, hl, ⟨p.1, rfl, hpost⟩, hb'⟩
  refine hattempt.bind ?_ ?_
  · rintro e K ⟨y, hy, -⟩
    cases hy
  · rintro a K ⟨y, hy, hpost⟩
    cases hy
    exact h a K hpost

/-! ## Functions that always leave the same -/

/-- However it ends, the program turns `H` into `K`. -/
abbrev Turns (L : AddSubmonoid (Multiset R)) (H : Multiset R) (m : Code R ε ν α)
    (K : Multiset R) : Prop :=
  Triple L H m fun _ X => X = K

theorem Turns.frame (hm : Turns L H m K) (G : Multiset R) : Turns L (G + H) m (G + K) := by
  refine (Triple.frame hm G).weaken ?_
  rintro x X ⟨K', rfl, rfl⟩
  rfl

theorem Turns.bind {f : α → Code R ε ν β} (hm : Turns L H m K)
    (herror : ∀ e, after (.error e) K) (h : ∀ a, Triple L K (f a) after) :
    Triple L H (m >>= f) after := by
  refine Triple.bind hm ?_ ?_
  · rintro e X rfl
    exact herror e
  · rintro a X rfl
    exact h a

theorem Turns.attempt_bind {f : Except ε α → Code R ε ν β} (hm : Turns L H m K)
    (h : ∀ x, Triple L K (f x) after) : Triple L H (m.attempt >>= f) after := by
  refine Triple.attempt_bind hm ?_
  rintro x X rfl
  exact h x

/-- The program does not fail, and turns `H` into `K`. -/
abbrev Succeeds (L : AddSubmonoid (Multiset R)) (H : Multiset R) (m : Code R ε ν α)
    (K : Multiset R) : Prop :=
  Triple L H m fun x X => (∃ a, x = .ok a) ∧ X = K

theorem Succeeds.bind {f : α → Code R ε ν β} (hm : Succeeds L H m K)
    (h : ∀ a, Triple L K (f a) after) : Triple L H (m >>= f) after := by
  refine Triple.bind hm ?_ ?_
  · rintro e X ⟨⟨a, ha⟩, -⟩
    cases ha
  · rintro a X ⟨-, rfl⟩
    exact h a

/-! ## Single calls -/

theorem Triple.rethrow {x : Except ε α} (h : post x H) :
    Triple L H (ofExcept x : Code R ε ν α) post := by
  cases x with
  | error e => exact .fail h
  | ok a => exact .pure h

theorem Triple.pure_bind {a : α} (h : Triple L H (f a) after) :
    Triple L H ((Pure.pure a : Code R ε ν α) >>= f) after := h

theorem Triple.ask_bind {f : Except ε ν → Code R ε ν β} (h : ∀ q, Triple L H (f q) after) :
    Triple L H (ask >>= f) after := by
  have hask : Succeeds L H (ask : Code R ε ν (Except ε ν)) H := by
    intro F b x b' hb hx
    unfold ask at hx
    split at hx
    · cases hx
    · cases hx
      exact ⟨H, 0, L.zero_mem, ⟨⟨_, rfl⟩, rfl⟩, by rw [add_zero]; exact hb⟩
  exact Succeeds.bind hask h

theorem Triple.of_request {post : Except ε ν → Multiset R → Prop} (h : ∀ x, post x H) :
    Triple L H (request : Code R ε ν ν) post :=
  .ask_bind fun q => .rethrow (h q)

theorem Triple.request_bind {f : ν → Code R ε ν β} (herror : ∀ e, after (.error e) H)
    (h : ∀ v, Triple L H (f v) after) : Triple L H (request >>= f) after := by
  have hrequest : Turns L H (request : Code R ε ν ν) H := .of_request fun _ => rfl
  exact Turns.bind hrequest herror h

theorem Triple.take_bind {f : Unit → Code R ε ν β} (h : Triple L (H + {r}) (f ()) after) :
    Triple L H (take r >>= f) after := by
  intro F b x b' hb hx
  refine h F { b with held := r ::ₘ b.held } x b' ⟨?_, hb.2⟩ hx
  rw [hb.1, ← add_assoc, add_comm (F + H), Multiset.singleton_add]

theorem Triple.acquire_bind {f : Except ε ν → Code R ε ν β}
    (hgot : ∀ v, Triple L (H + {r}) (f (.ok v)) after)
    (hnot : ∀ e, Triple L H (f (.error e)) after) : Triple L H (acquire r >>= f) after := by
  have hacquire : Triple L H (acquire r : Code R ε ν (Except ε ν)) fun x K =>
      (∃ v, x = .ok (.ok v) ∧ K = H + {r}) ∨ ∃ e, x = .ok (.error e) ∧ K = H := by
    refine .ask_bind fun q => ?_
    cases q with
    | error e => exact .pure (Or.inr ⟨e, rfl, rfl⟩)
    | ok v => exact .take_bind (.pure (Or.inl ⟨v, rfl, rfl⟩))
  refine hacquire.bind ?_ ?_
  · rintro e K (⟨v, hx, -⟩ | ⟨e', hx, -⟩) <;> cases hx
  · rintro q K (⟨v, hx, rfl⟩ | ⟨e, hx, rfl⟩)
    · cases hx
      exact hgot v
    · cases hx
      exact hnot e

section Checked

variable [DecidableEq R]

theorem Triple.give_bind {f : Unit → Code R ε ν β} (hr : H = K + {r})
    (h : Triple L K (f ()) after) : Triple L H (give r >>= f) after := by
  intro F b x b' hb hx
  subst hr
  have hheld : b.held = r ::ₘ (F + K) := by
    rw [hb.1, ← add_assoc, add_comm (F + K), Multiset.singleton_add]
  refine h F _ x b' ?_ hx
  have hcount : b.held.count r ≠ 0 := by
    rw [hheld]
    simp
  simp only [hcount, if_false]
  refine ⟨?_, hb.2⟩
  simp [hheld]

theorem Triple.give {post : Except ε Unit → Multiset R → Prop} (hr : H = K + {r})
    (h : post (.ok ()) K) : Triple L H (Custody.give r : Code R ε ν Unit) post :=
  .give_bind hr (.pure h)

theorem Triple.use_bind {f : Unit → Code R ε ν β} (hr : r ∈ H) (h : Triple L H (f ()) after) :
    Triple L H (use r >>= f) after := by
  intro F b x b' hb hx
  refine h F _ x b' ?_ hx
  have hcount : b.held.count r ≠ 0 := by
    rw [hb.1]
    exact Multiset.count_ne_zero.mpr (Multiset.mem_add.mpr (Or.inr hr))
  simpa only [hcount, if_false] using hb

end Checked

end Rules

end OShm.Lib.Custody
