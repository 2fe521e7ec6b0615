import Mathlib.Data.List.Infix

/-! # Path strings

A path string is a list over an alphabet with one separator. An absolute path is the
rendering of a list of components, and stripping and splitting give the components
back. Components are nonempty and have no separator in them.
-/

namespace OShm.Lib.PathString

variable {α : Type*}

/-! ## Components -/

structure Component (sep : α) (c : List α) : Prop where
  ne_nil : c ≠ []
  sep_not_mem : sep ∉ c

/-- The absolute path with the given components. -/
def render (sep : α) (cs : List (List α)) : List α := sep :: [sep].intercalate cs

/-- What a lookup in a directory tree hands on: a rendered list of components. -/
def Normal (sep : α) (p : List α) : Prop :=
  ∃ cs, (∀ c ∈ cs, Component sep c) ∧ p = render sep cs

theorem append_sep_inj {sep : α} {xs xs' ys ys' : List α} (hy : sep ∉ ys) (hy' : sep ∉ ys') :
    xs ++ sep :: ys = xs' ++ sep :: ys' ↔ xs = xs' ∧ ys = ys' := by
  constructor
  · intro h
    rcases List.append_eq_append_iff.mp h with ⟨as, rfl, htail⟩ | ⟨as, rfl, htail⟩
    · cases as with
      | nil => exact ⟨(List.append_nil _).symm, (List.cons.inj htail).2⟩
      | cons a as =>
          rw [List.cons_append] at htail
          refine absurd ?_ hy
          rw [(List.cons.inj htail).2]
          exact List.mem_append_right as List.mem_cons_self
    · cases as with
      | nil => exact ⟨List.append_nil _, (List.cons.inj htail).2.symm⟩
      | cons a as =>
          rw [List.cons_append] at htail
          refine absurd ?_ hy'
          rw [(List.cons.inj htail).2]
          exact List.mem_append_right as List.mem_cons_self
  · rintro ⟨rfl, rfl⟩
    rfl

section Ends

variable {sep : α} {c : List α} {cs : List (List α)}

theorem Component.head_ne (h : Component sep c) : ¬ c.head? = some sep := by
  intro hh
  exact h.sep_not_mem (List.mem_of_head? hh)

theorem Component.getLast_ne (h : Component sep c) : ¬ c.getLast? = some sep := by
  intro hl
  exact h.sep_not_mem (List.mem_of_getLast? hl)

theorem head?_intercalate (hc : ∀ c ∈ cs, Component sep c) :
    ¬ ([sep].intercalate cs).head? = some sep := by
  match cs with
  | [] => simp
  | [c] => simpa using (hc c (by simp)).head_ne
  | c :: d :: cs =>
      have hcc := hc c (by simp)
      obtain ⟨x, c', rfl⟩ := List.exists_cons_of_ne_nil hcc.ne_nil
      simpa using hcc.head_ne

theorem getLast?_intercalate (hc : ∀ c ∈ cs, Component sep c) :
    ¬ ([sep].intercalate cs).getLast? = some sep := by
  induction cs with
  | nil => simp
  | cons c cs ih =>
      cases cs with
      | nil => simpa using (hc c (by simp)).getLast_ne
      | cons d cs =>
          have hrest := ih fun x hx => hc x (List.mem_cons_of_mem _ hx)
          have hne : [sep].intercalate (d :: cs) ≠ [] := by
            obtain ⟨x, d', rfl⟩ := List.exists_cons_of_ne_nil (hc d (by simp)).ne_nil
            cases cs <;> simp
          rw [List.intercalate_cons_cons, List.getLast?_append_of_ne_nil _ hne]
          exact hrest

end Ends

/-! ## Stripping, splitting and joining -/

variable [DecidableEq α]

instance (sep : α) (c : List α) : Decidable (Component sep c) :=
  decidable_of_iff (c ≠ [] ∧ sep ∉ c) ⟨fun h => ⟨h.1, h.2⟩, fun h => ⟨h.1, h.2⟩⟩

def strip (sep : α) (p : List α) : List α :=
  ((p.dropWhile (· == sep)).reverse.dropWhile (· == sep)).reverse

def parts (sep : α) (p : List α) : List (List α) := (strip sep p).splitOn sep

/-- One separator between the two, unless the second is absolute or the first is empty
or already ends in a separator. -/
def join (sep : α) (a b : List α) : List α :=
  if b.head? = some sep then b
  else if a = [] ∨ a.getLast? = some sep then a ++ b
  else a ++ sep :: b

def basename (sep : α) (p : List α) : List α := (p.reverse.takeWhile (· != sep)).reverse

section

variable {sep : α} {p c : List α} {cs ds : List (List α)}

theorem dropWhile_of_head_ne (h : ¬ p.head? = some sep) : p.dropWhile (· == sep) = p := by
  cases p with
  | nil => rfl
  | cons x p =>
      have hx : ¬ x = sep := by simpa using h
      simp [hx]

theorem strip_of_ends (hh : ¬ p.head? = some sep) (hl : ¬ p.getLast? = some sep) :
    strip sep p = p := by
  have hr : ¬ p.reverse.head? = some sep := by simpa using hl
  rw [strip, dropWhile_of_head_ne hh, dropWhile_of_head_ne hr, List.reverse_reverse]

theorem strip_cons (p : List α) : strip sep (sep :: p) = strip sep p := by
  simp [strip]

/-- The components of a rendered path. The root is the exception: it has one part, and
that part is empty. -/
theorem parts_render (hc : ∀ c ∈ cs, Component sep c) (hne : cs ≠ []) :
    parts sep (render sep cs) = cs := by
  rw [parts, render, strip_cons,
    strip_of_ends (head?_intercalate hc) (getLast?_intercalate hc)]
  exact List.splitOn_intercalate sep (fun c h => (hc c h).sep_not_mem) hne

theorem normal_iff : Normal sep p ↔
    p = render sep [] ∨ p = render sep (parts sep p) ∧ ∀ c ∈ parts sep p, Component sep c := by
  constructor
  · rintro ⟨cs, hc, rfl⟩
    by_cases hcs : cs = []
    · exact .inl (by rw [hcs])
    · rw [parts_render hc hcs]
      exact .inr ⟨rfl, hc⟩
  · rintro (h | ⟨h, hc⟩)
    · exact ⟨[], by simp, h⟩
    · exact ⟨parts sep p, hc, h⟩

instance (sep : α) (p : List α) : Decidable (Normal sep p) := decidable_of_iff' _ normal_iff

theorem join_component {a : List α} (ha : a ≠ []) (hl : ¬ a.getLast? = some sep)
    (hc : Component sep c) : join sep a c = a ++ sep :: c := by
  rw [join, if_neg hc.head_ne, if_neg (by simp [ha, hl])]

end

end OShm.Lib.PathString
