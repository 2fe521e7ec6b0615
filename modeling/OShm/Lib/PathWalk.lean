import OShm.Lib.PathString

/-! # Path resolution

A name in a directory leads to a directory, a symbolic link or a file. A path is walked
component by component; links are followed as long as the budget lasts, and `..` at the root
stays there. A separator at the end stands for one more component `.`.
-/

namespace OShm.Lib.PathWalk

open OShm.Lib.PathString

inductive Entry (D α F : Type*) where
  | dir (d : D)
  | link (text : List α)
  | file (f : F)
  deriving DecidableEq, Repr

structure Tree (D α F : Type*) where
  lookup : D → List α → Option (Entry D α F)
  parent : D → D

/-- The two bytes that are special in a path. -/
structure Special (α : Type*) where
  sep : α
  dot : α
  sep_ne_dot : sep ≠ dot

variable {D α F : Type*} [DecidableEq α] (S : Special α)

def names (p : List α) : List (List α) := (p.splitOn S.sep).filter (· ≠ [])

def components (p : List α) : List (List α) :=
  names S p ++ if p.getLast? = some S.sep then [[S.dot]] else []

def Plain (c : List α) : Prop := c ≠ [S.dot] ∧ c ≠ [S.dot, S.dot]

instance (c : List α) : Decidable (Plain S c) := inferInstanceAs (Decidable (_ ∧ _))

def start (root d : D) (p : List α) : D := if p.head? = some S.sep then root else d

section Names

variable {S}

theorem names_append (p q : List α) :
    names S (p ++ S.sep :: q) = names S p ++ names S q := by
  unfold names List.splitOn
  rw [List.splitOnP_append_cons p q (by simp), List.filter_append]

theorem names_component {c : List α} (hc : Component S.sep c) : names S c = [c] := by
  have hsplit : c.splitOn S.sep = [c] := by
    apply List.splitOnP_eq_singleton
    intro x hx
    have hne : x ≠ S.sep := fun h => hc.sep_not_mem (h ▸ hx)
    simpa using hne
  rw [names, hsplit]
  simp [hc.ne_nil]

theorem components_join (p : List α) {c : List α} (hc : Component S.sep c) :
    components S (p ++ S.sep :: c) = names S p ++ [c] := by
  have hlast : (p ++ S.sep :: c).getLast? = c.getLast? := by
    rw [List.getLast?_append_of_ne_nil _ (by simp), List.getLast?_cons_of_ne_nil hc.ne_nil]
  rw [components, names_append, names_component hc, hlast, if_neg hc.getLast_ne, List.append_nil]

theorem names_intercalate {cs : List (List α)} (hc : ∀ c ∈ cs, Component S.sep c) :
    names S ([S.sep].intercalate cs) = cs := by
  induction cs with
  | nil => simp [names]
  | cons c cs ih =>
      have hrest := ih fun x hx => hc x (List.mem_cons_of_mem _ hx)
      have hcc := hc c List.mem_cons_self
      cases cs with
      | nil => simpa using names_component hcc
      | cons d cs =>
          rw [List.intercalate_cons_cons, List.append_assoc, List.singleton_append, names_append,
            names_component hcc, hrest, List.singleton_append]

/-- The components of a rendered path; the root is written with a separator at its end. -/
theorem components_render {cs : List (List α)} (hc : ∀ c ∈ cs, Component S.sep c) (hne : cs ≠ []) :
    components S (render S.sep cs) = cs := by
  have hnames : names S (render S.sep cs) = cs := by
    have hroot := names_append (S := S) [] ([S.sep].intercalate cs)
    rwa [names_intercalate hc] at hroot
  have htext : [S.sep].intercalate cs ≠ [] := by
    intro hnil
    rw [← names_intercalate hc, hnil] at hne
    simp [names] at hne
  have hlast : (render S.sep cs).getLast? = ([S.sep].intercalate cs).getLast? :=
    List.getLast?_cons_of_ne_nil htext
  rw [components, hnames, hlast, if_neg (getLast?_intercalate hc), List.append_nil]

theorem start_append (root d : D) {p : List α} (hp : p ≠ []) (q : List α) :
    start S root d (p ++ q) = start S root d p := by
  cases p with
  | nil => cases hp rfl
  | cons x p => rfl

theorem start_join (root d : D) (p c c' : List α) :
    start S root d (p ++ S.sep :: c) = start S root d (p ++ S.sep :: c') := by
  cases p <;> rfl

end Names
namespace Tree

variable [DecidableEq D] (t : Tree D α F) (root : D)

def up (d : D) : D := if d = root then d else t.parent d

/-- Walks `cs` from `d`; `follow` goes on after a link. -/
def walkWith (k : Nat) (follow : D → List (List α) → Option (D × Nat)) :
    D → List (List α) → Option (D × Nat)
  | d, [] => some (d, k)
  | d, c :: cs =>
      if c = [S.dot] then walkWith k follow d cs
      else if c = [S.dot, S.dot] then walkWith k follow (t.up root d) cs
      else
        match t.lookup d c with
        | some (.dir e) => walkWith k follow e cs
        | some (.link text) => follow (start S root d text) (components S text ++ cs)
        | _ => none

/-- The directory that `cs` leads to from `d` and what is left of the budget of links. -/
def walk : Nat → D → List (List α) → Option (D × Nat)
  | 0 => t.walkWith S root 0 fun _ _ => none
  | k + 1 => t.walkWith S root (k + 1) (walk k)

/-- The directory that a path leads to, the last component followed. The empty path leads to the
working directory. -/
def resolve (links : Nat) (cwd : D) (p : List α) : Option D :=
  (t.walk S root links (start S root cwd p) (components S p)).map Prod.fst

/-- The directory that holds the last component, and that component. -/
def locate (k : Nat) (d : D) (cs : List (List α)) : Option ((D × Nat) × List α) :=
  match cs.getLast? with
  | none => none
  | some c => if Plain S c then (t.walk S root k d cs.dropLast).map fun e => (e, c) else none

/-- Where an open of the last component ends up. Each hop follows one link. -/
def target : Nat → Nat → D → List (List α) → Option (D × List α)
  | 0, _, _, _ => none
  | hops + 1, k, d, cs =>
      match t.locate S root k d cs with
      | none => none
      | some ((e, k'), c) =>
          match t.lookup e c with
          | some (.link text) =>
              match k' with
              | 0 => none
              | k'' + 1 => target hops k'' (start S root e text) (components S text)
          | _ => some (e, c)

/-! ## Walking -/

variable {S t root} {k : Nat} {d : D}

@[simp] theorem walk_nil : t.walk S root k d [] = some (d, k) := by
  cases k <;> rfl

theorem walk_cons (c : List α) (cs : List (List α)) :
    t.walk S root k d (c :: cs) =
      if c = [S.dot] then t.walk S root k d cs
      else if c = [S.dot, S.dot] then t.walk S root k (t.up root d) cs
      else
        match t.lookup d c, k with
        | some (.dir e), k => t.walk S root k e cs
        | some (.link text), k + 1 =>
            t.walk S root k (start S root d text) (components S text ++ cs)
        | _, _ => none := by
  cases k <;> rw [walk, walkWith] <;> rcases t.lookup d c with _ | (_ | _ | _) <;> rfl

theorem walk_dot (cs : List (List α)) :
    t.walk S root k d ([S.dot] :: cs) = t.walk S root k d cs := by
  rw [walk_cons, if_pos rfl]

theorem walk_append (cs ds : List (List α)) :
    t.walk S root k d (cs ++ ds) =
      (t.walk S root k d cs).bind fun e => t.walk S root e.2 e.1 ds := by
  induction k using Nat.strong_induction_on generalizing d cs with
  | _ k ihk =>
      induction cs generalizing d with
      | nil => simp
      | cons c cs ih =>
          rw [List.cons_append, walk_cons, walk_cons]
          split_ifs
          · exact ih
          · exact ih
          · rcases t.lookup d c with _ | (e | text | _)
            · rfl
            · exact ih
            · cases k with
              | zero => rfl
              | succ k =>
                  show t.walk S root k _ (components S text ++ (cs ++ ds)) = _
                  rw [← List.append_assoc]
                  exact ihk k (Nat.lt_succ_self k) (components S text ++ cs)
            · rfl

theorem walk_components (p : List α) :
    t.walk S root k d (components S p) = t.walk S root k d (names S p) := by
  unfold components
  split_ifs
  · rw [walk_append]
    cases t.walk S root k d (names S p) <;> simp [walk_dot]
  · rw [List.append_nil]

/-- A walk uses up links, and with more of them it goes the same way. -/
theorem walk_budget {cs : List (List α)} {e : D} {k' : Nat}
    (h : t.walk S root k d cs = some (e, k')) :
    k' ≤ k ∧ ∀ j, t.walk S root (k + j) d cs = some (e, k' + j) := by
  induction k using Nat.strong_induction_on generalizing d cs with
  | _ k ihk =>
      induction cs generalizing d with
      | nil =>
          simp only [walk_nil, Option.some.injEq, Prod.mk.injEq] at h
          obtain ⟨rfl, rfl⟩ := h
          exact ⟨Nat.le_refl _, fun j => walk_nil⟩
      | cons c cs ih =>
          simp only [walk_cons c cs] at h ⊢
          split_ifs at h ⊢
          · exact ih h
          · exact ih h
          · rcases hl : t.lookup d c with _ | (x | text | f)
            · simp [hl] at h
            · simp only [hl] at h
              exact ih h
            · cases k with
              | zero => simp [hl] at h
              | succ k =>
                  simp only [hl] at h
                  obtain ⟨hle, hmore⟩ := ihk k (Nat.lt_succ_self k) h
                  refine ⟨Nat.le_succ_of_le hle, fun j => ?_⟩
                  rw [Nat.succ_add]
                  exact hmore j
            · simp [hl] at h

/-! ## Paths of the form directory, separator, name -/

/-- The last component of such a path is looked up where the directory path leads. -/
theorem locate_join {p c : List α} (hc : Component S.sep c) (hplain : Plain S c) :
    t.locate S root k (start S root d (p ++ S.sep :: c)) (components S (p ++ S.sep :: c)) =
      (t.walk S root k (start S root d (p ++ [S.sep])) (names S p)).map fun e => (e, c) := by
  rw [components_join p hc, start_join root d p c [], locate, List.getLast?_concat,
    List.dropLast_concat]
  simp only [hplain, if_true]

theorem locate_join_special {p c : List α} (hc : Component S.sep c) (hplain : ¬ Plain S c) (e : D) :
    t.locate S root k e (components S (p ++ S.sep :: c)) = none := by
  rw [components_join p hc, locate, List.getLast?_concat]
  simp only [hplain, if_false]

theorem locate_eq_some {cs : List (List α)} {e : D} {k' : Nat} {c : List α}
    (h : t.locate S root k d cs = some ((e, k'), c)) :
    cs.getLast? = some c ∧ Plain S c ∧ t.walk S root k d cs.dropLast = some (e, k') := by
  unfold locate at h
  cases hc : cs.getLast? with
  | none => simp [hc] at h
  | some c' =>
      rw [hc] at h
      simp only at h
      split_ifs at h with hplain
      simp only [Option.map_eq_some_iff, Prod.mk.injEq] at h
      obtain ⟨x, hw, rfl, rfl⟩ := h
      exact ⟨rfl, hplain, hw⟩

/-- An open of a path that leads to a directory, be it with more links to use, finds a
directory. -/
theorem lookup_target_of_walk {hops k₂ : Nat} {cs : List (List α)} {e : D} {c : List α}
    {x : D × Nat} (ht : t.target S root hops k d cs = some (e, c))
    (hw : t.walk S root k₂ d cs = some x)
    (hk : k ≤ k₂) : ∃ y, t.lookup e c = some (.dir y) := by
  induction hops generalizing k k₂ d cs with
  | zero => cases ht
  | succ hops ih =>
      unfold target at ht
      cases hl : t.locate S root k d cs with
      | none => simp [hl] at ht
      | some z =>
          obtain ⟨⟨e', k'⟩, c'⟩ := z
          obtain ⟨hc, hplain, hinit⟩ := locate_eq_some hl
          have hinit₂ := (walk_budget hinit).2 (k₂ - k)
          rw [Nat.add_sub_cancel' hk] at hinit₂
          rw [hl] at ht
          rw [← List.dropLast_append_getLast? c' hc, walk_append, hinit₂, Option.bind_some,
            walk_cons, if_neg hplain.1, if_neg hplain.2] at hw
          cases hlook : t.lookup e' c' with
          | none => simp [hlook] at hw
          | some y =>
              cases y with
              | dir y =>
                  simp only [hlook, Option.some.injEq, Prod.mk.injEq] at ht
                  obtain ⟨rfl, rfl⟩ := ht
                  exact ⟨y, hlook⟩
              | file y => simp [hlook] at hw
              | link text =>
                  cases k' with
                  | zero => simp [hlook] at ht
                  | succ k' =>
                      rw [Nat.succ_add] at hw
                      simp only [hlook, List.append_nil] at ht hw
                      exact ih ht hw (Nat.le_add_right _ _)

theorem lookup_target_ne_link {hops : Nat} {cs : List (List α)} {e : D} {c text : List α}
    (ht : t.target S root hops k d cs = some (e, c)) : t.lookup e c ≠ some (.link text) := by
  induction hops generalizing k d cs with
  | zero => cases ht
  | succ hops ih =>
      unfold target at ht
      cases hl : t.locate S root k d cs with
      | none => simp [hl] at ht
      | some z =>
          obtain ⟨⟨e', k'⟩, c'⟩ := z
          rw [hl] at ht
          rcases hlook : t.lookup e' c' with _ | (y | text' | y)
          all_goals simp only [hlook] at ht
          · cases ht
            simp [hlook]
          · cases ht
            simp [hlook]
          · cases k' with
            | zero => cases ht
            | succ k' => exact ih ht
          · cases ht
            simp [hlook]

/-! ## A tree without one of its entries -/

section Blocked

variable {u : Tree D α F} {e : D} {x : List α}

/-- The tree `u` is `t` where nobody gets through the name `x` in `e`. -/
structure Blocks (t u : Tree D α F) (e : D) (x : List α) : Prop where
  parent : u.parent = t.parent
  gone : u.lookup e x = none
  others : ∀ d c, (d, c) ≠ (e, x) → u.lookup d c = t.lookup d c

/-- The walk comes by the name `x` in `e`. -/
def Passes (S : Special α) (t : Tree D α F) (root : D) (k : Nat) (d : D) (cs : List (List α))
    (e : D) (x : List α) : Prop :=
  ∃ k' ≤ k, ∃ ds, t.walk S root k d cs = t.walk S root k' e (x :: ds)

/-- One step of a walk, where the rest of it is known to be the same or to come by. -/
theorem Blocks.walk_cons (h : Blocks t u e x) {c : List α} {cs : List (List α)}
    (ih : ∀ d, u.walk S root k d cs = t.walk S root k d cs ∨
      u.walk S root k d cs = none ∧ Passes S t root k d cs e x)
    (ihk : ∀ j < k, ∀ d cs, u.walk S root j d cs = t.walk S root j d cs ∨
      u.walk S root j d cs = none ∧ Passes S t root j d cs e x) :
    u.walk S root k d (c :: cs) = t.walk S root k d (c :: cs) ∨
      u.walk S root k d (c :: cs) = none ∧ Passes S t root k d (c :: cs) e x := by
  have hup : u.up root d = t.up root d := by rw [up, up, h.parent]
  by_cases hx : (d, c) = (e, x)
  · obtain ⟨rfl, rfl⟩ := Prod.mk.inj hx
    by_cases hplain : Plain S c
    · refine Or.inr ⟨?_, k, Nat.le_refl k, cs, rfl⟩
      rw [Tree.walk_cons, if_neg hplain.1, if_neg hplain.2, h.gone]
    · -- the two dots are not looked up
      unfold Passes
      simp only [Tree.walk_cons c cs]
      by_cases hdot : c = [S.dot]
      · simp only [if_pos hdot]
        exact ih d
      · have hdots : c = [S.dot, S.dot] := by
          by_contra hdots
          exact hplain ⟨hdot, hdots⟩
        simp only [if_neg hdot, if_pos hdots, hup]
        exact ih _
  · have hlook := h.others d c hx
    unfold Passes
    simp only [Tree.walk_cons c cs, hup, hlook]
    split_ifs
    · exact ih d
    · exact ih _
    · rcases t.lookup d c with _ | (y | text | f)
      · exact Or.inl rfl
      · exact ih y
      · cases k with
        | zero => exact Or.inl rfl
        | succ k =>
            rcases ihk k (Nat.lt_succ_self k) (start S root d text) (components S text ++ cs) with
              hsame | ⟨hnone, k', hk', ds, hpass⟩
            · exact Or.inl hsame
            · exact Or.inr ⟨hnone, k', Nat.le_succ_of_le hk', ds, hpass⟩
      · exact Or.inl rfl

/-- Without the name a walk goes the same way, or it came by and ends there. -/
theorem Blocks.walk (h : Blocks t u e x) (cs : List (List α)) :
    u.walk S root k d cs = t.walk S root k d cs ∨
      u.walk S root k d cs = none ∧ Passes S t root k d cs e x := by
  induction k using Nat.strong_induction_on generalizing d cs with
  | _ k ihk =>
      induction cs generalizing d with
      | nil => exact Or.inl (by rw [walk_nil, walk_nil])
      | cons c cs ih => exact h.walk_cons (fun d => ih) fun j hj d cs => ihk j hj cs

/-- A directory path does not come by a name in that directory through which no directory is
found. -/
theorem not_passes_of_target {hops k' : Nat} {cs : List (List α)} {m : D × List α}
    (hplain : Plain S x) (hw : t.walk S root k d cs = some (e, k'))
    (ht : t.target S root hops k d (cs ++ [x]) = some m)
    (hm : ∀ y, t.lookup m.1 m.2 ≠ some (.dir y)) : ¬ Passes S t root k d cs e x := by
  rintro ⟨j, hj, ds, hpass⟩
  rw [hw, Tree.walk_cons, if_neg hplain.1, if_neg hplain.2] at hpass
  cases hops with
  | zero => cases ht
  | succ hops =>
      unfold target at ht
      have hl : t.locate S root k d (cs ++ [x]) = some ((e, k'), x) := by
        rw [locate, List.getLast?_concat, List.dropLast_concat, hw]
        simp only [hplain, if_true, Option.map_some]
      rw [hl] at ht
      rcases hlook : t.lookup e x with _ | (y | text | f)
      · simp [hlook] at hpass
      · simp only [hlook, Option.some.injEq] at ht
        subst ht
        exact hm y hlook
      · cases j with
        | zero => simp [hlook] at hpass
        | succ j =>
            simp only [hlook] at hpass ht
            rw [walk_append] at hpass
            cases hfirst : t.walk S root j (start S root e text) (components S text) with
            | none => simp [hfirst] at hpass
            | some z =>
                obtain ⟨y, i⟩ := z
                rw [hfirst, Option.bind_some] at hpass
                have hk' : k' ≤ i := (walk_budget hpass.symm).1
                have hi : i ≤ j := (walk_budget hfirst).1
                cases k' with
                | zero => cases ht
                | succ k' =>
                    have hle : k' ≤ j := by omega
                    obtain ⟨y, hy⟩ := lookup_target_of_walk ht hfirst hle
                    exact hm y hy
      · simp [hlook] at hpass

end Blocked

end Tree

end OShm.Lib.PathWalk
