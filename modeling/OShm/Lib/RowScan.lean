import Mathlib.Data.List.TakeWhile

/-! # Rows between separators

A regular expression for one row of a table: a separator, then a fixed number of cells, each
a run of its own class with blanks around it and a separator behind it. Neither a blank nor
the separator is in a class, so there is one way at most to match a cell, and the scan below
never has to go back.
-/

namespace OShm.Lib.RowScan

variable {α : Type} (sep : α) (blank : α → Bool)

structure IsClass (p : α → Bool) : Prop where
  sep : p sep = false
  blank : ∀ c, blank c = true → p c = false

section

variable [DecidableEq α]

/-- One cell of class `p` up to the separator behind it, and the rest of the text. -/
def cell (p : α → Bool) (text : List α) : Option (List α × List α) :=
  let s := text.dropWhile blank
  if s.takeWhile p = [] then none
  else
    match (s.dropWhile p).dropWhile blank with
    | [] => none
    | c :: rest => if c = sep then some (s.takeWhile p, rest) else none

def cells : List (α → Bool) → List α → Option (List (List α) × List α)
  | [], s => some ([], s)
  | p :: ps, s =>
      (cell sep blank p s).bind fun (c, s) => (cells ps s).map fun (cs, s) => (c :: cs, s)

def row (ps : List (α → Bool)) : List α → Option (List (List α) × List α)
  | [] => none
  | c :: s => if c = sep then cells sep blank ps s else none

/-- The rows of a text from left to right. The first `skip` elements belong to the row found
last. -/
def findAll (ps : List (α → Bool)) (skip : Nat) (text : List α) : List (List (List α)) :=
  match skip, text with
  | _, [] => []
  | skip + 1, _ :: s => findAll ps skip s
  | 0, c :: s =>
      match row sep blank ps (c :: s) with
      | none => findAll ps 0 s
      | some (cs, rest) => cs :: findAll ps (s.length - rest.length) s

end

/-! ## The text between two separators -/

/-- What a cell of class `p` takes from a text without separators. -/
def content (p : α → Bool) (piece : List α) : Option (List α) :=
  let s := piece.dropWhile blank
  if s.takeWhile p ≠ [] ∧ (s.dropWhile p).dropWhile blank = [] then some (s.takeWhile p)
  else none

def contents : List (α → Bool) → List (List α) → Option (List (List α))
  | p :: ps, piece :: pieces =>
      (content blank p piece).bind fun c => (contents ps pieces).map (c :: ·)
  | _, _ => some []

def joined : List (List α) → List α → List α
  | [], rest => rest
  | piece :: pieces, rest => piece ++ sep :: joined pieces rest

theorem takeWhile_stop {p : α → Bool} {b : α} (hb : p b = false) (run rest : List α) :
    (run ++ b :: rest).takeWhile p = run.takeWhile p := by
  induction run with
  | nil => simp [hb]
  | cons c run ih => cases hc : p c <;> simp [hc, ih]

theorem dropWhile_stop {p : α → Bool} {b : α} (hb : p b = false) (run rest : List α) :
    (run ++ b :: rest).dropWhile p = run.dropWhile p ++ b :: rest := by
  induction run with
  | nil => simp [hb]
  | cons c run ih => cases hc : p c <;> simp [hc, ih]

theorem joined_append (pieces : List (List α)) (rest : List α) :
    joined sep pieces rest = joined sep pieces [] ++ rest := by
  induction pieces with
  | nil => rfl
  | cons piece pieces ih => rw [joined, joined, ih, List.append_assoc, List.cons_append]

variable {sep blank}

theorem mem_of_mem_behind {p : α → Bool} {c : α} {text : List α}
    (h : c ∈ ((text.dropWhile blank).dropWhile p).dropWhile blank) : c ∈ text :=
  ((List.dropWhile_sublist blank).trans
    ((List.dropWhile_sublist p).trans (List.dropWhile_sublist blank))).mem h

theorem content_padded {p : α → Bool} {pad : α} (hpad : blank pad = true) (hp : p pad = false)
    {word : List α} (hword : ∀ c ∈ word, blank c = false) (hne : word ≠ []) :
    content blank p (pad :: (word ++ [pad])) = if word.all p then some word else none := by
  have hstart : (pad :: (word ++ [pad])).dropWhile blank = word ++ [pad] := by
    cases word with
    | nil => exact absurd rfl hne
    | cons c word => simp [hpad, hword c List.mem_cons_self]
  simp only [content, hstart, takeWhile_stop hp, dropWhile_stop hp]
  by_cases hall : ∀ c ∈ word, p c = true
  · have htake : word.takeWhile p = word := List.takeWhile_eq_self_iff.mpr hall
    have hdrop : word.dropWhile p = [] := List.dropWhile_eq_nil_iff.mpr hall
    simpa [htake, hdrop, hne, hpad] using hall
  · cases hdrop : word.dropWhile p with
    | nil => exact absurd (List.dropWhile_eq_nil_iff.mp hdrop) hall
    | cons c s =>
        have hc : c ∈ word := (List.dropWhile_sublist p).mem (hdrop ▸ List.mem_cons_self)
        simp [hword c hc, hall]

variable [DecidableEq α]

theorem cell_of_piece {p : α → Bool} (hp : IsClass sep blank p) (hblank : blank sep = false)
    {piece : List α} (hpiece : sep ∉ piece) (rest : List α) :
    cell sep blank p (piece ++ sep :: rest) = (content blank p piece).map (·, rest) := by
  simp only [cell, content, dropWhile_stop hblank, dropWhile_stop hp.sep,
    takeWhile_stop hp.sep]
  by_cases htake : (piece.dropWhile blank).takeWhile p = []
  · simp [htake]
  · cases hbehind : ((piece.dropWhile blank).dropWhile p).dropWhile blank with
    | nil => simp [htake]
    | cons c s =>
        have hmem : c ∈ piece := mem_of_mem_behind (hbehind ▸ List.mem_cons_self)
        have hne : c ≠ sep := fun h => hpiece (h ▸ hmem)
        simp [htake, hne]

/-- The scan against the expression: one choice of blanks and word at most, and the scan
finds it. -/
theorem cell_eq_some_iff {p : α → Bool} (hp : IsClass sep blank p) (hblank : blank sep = false)
    {text word rest : List α} :
    cell sep blank p text = some (word, rest) ↔
      word ≠ [] ∧ (∀ c ∈ word, p c = true) ∧
        ∃ before behind : List α, (∀ c ∈ before, blank c = true) ∧
          (∀ c ∈ behind, blank c = true) ∧
          text = before ++ (word ++ (behind ++ sep :: rest)) := by
  constructor
  · intro h
    simp only [cell] at h
    split at h
    · cases h
    · rename_i htake
      cases hbehind : ((text.dropWhile blank).dropWhile p).dropWhile blank with
      | nil => simp [hbehind] at h
      | cons c s =>
          simp only [hbehind] at h
          split at h
          · rename_i hc
            cases h
            refine ⟨htake, fun d hd => List.mem_takeWhile_imp hd, text.takeWhile blank,
              ((text.dropWhile blank).dropWhile p).takeWhile blank,
              fun d hd => List.mem_takeWhile_imp hd, fun d hd => List.mem_takeWhile_imp hd, ?_⟩
            rw [← hc, ← hbehind, List.takeWhile_append_dropWhile,
              List.takeWhile_append_dropWhile, List.takeWhile_append_dropWhile]
          · cases h
  · rintro ⟨hne, hword, before, behind, hbefore, hbehind, rfl⟩
    have hstart : (before ++ (word ++ (behind ++ sep :: rest))).dropWhile blank =
        word ++ (behind ++ sep :: rest) := by
      rw [List.dropWhile_append_of_pos hbefore]
      cases word with
      | nil => exact absurd rfl hne
      | cons c word =>
          have hc : blank c = false := by
            cases hb : blank c with
            | false => rfl
            | true => simp [hp.blank c hb] at hword
          simp [hc]
    have hstop : behind.takeWhile p = [] ∧ behind.dropWhile p = behind := by
      cases behind with
      | nil => exact ⟨rfl, rfl⟩
      | cons c behind => simp [hp.blank c (hbehind c List.mem_cons_self)]
    simp only [cell, hstart, List.takeWhile_append_of_pos hword, takeWhile_stop hp.sep,
      List.dropWhile_append_of_pos hword, dropWhile_stop hp.sep, hstop, dropWhile_stop hblank,
      List.dropWhile_eq_nil_iff.mpr hbehind]
    simp [hne]

theorem cell_eq_none_of_not_mem {p : α → Bool} (hp : IsClass sep blank p)
    (hblank : blank sep = false) {text : List α} (h : sep ∉ text) :
    cell sep blank p text = none := by
  cases hcell : cell sep blank p text with
  | none => rfl
  | some found =>
      obtain ⟨-, -, before, behind, -, -, rfl⟩ := (cell_eq_some_iff hp hblank).mp hcell
      simp at h

theorem cell_eq_none_of_blanks {p : α → Bool} (hp : IsClass sep blank p)
    (hblank : blank sep = false) {blanks : List α} (h : ∀ c ∈ blanks, blank c = true)
    (rest : List α) : cell sep blank p (blanks ++ sep :: rest) = none := by
  have hnil : blanks.dropWhile blank = [] := List.dropWhile_eq_nil_iff.mpr h
  simp [cell, dropWhile_stop hblank, hnil, hp.sep]

/-! ## A row and the rows of a table -/

section

variable {ps : List (α → Bool)} (hps : ∀ p ∈ ps, IsClass sep blank p) (hblank : blank sep = false)

include hps hblank

theorem cells_joined {pieces : List (List α)} (hlen : pieces.length = ps.length)
    (hpieces : ∀ piece ∈ pieces, sep ∉ piece) (rest : List α) :
    cells sep blank ps (joined sep pieces rest) =
      (contents blank ps pieces).map (·, rest) := by
  induction ps generalizing pieces with
  | nil =>
      cases pieces with
      | nil => rfl
      | cons piece pieces => simp at hlen
  | cons p ps ih =>
      cases pieces with
      | nil => simp at hlen
      | cons piece pieces =>
          have htail := ih (fun q hq => hps q (List.mem_cons_of_mem p hq))
            (Nat.succ.inj hlen) fun q hq => hpieces q (List.mem_cons_of_mem piece hq)
          rw [joined, cells, cell_of_piece (hps p List.mem_cons_self) hblank
            (hpieces piece List.mem_cons_self), contents]
          cases content blank p piece with
          | none => rfl
          | some c => cases hcs : contents blank ps pieces <;> simp [htail, hcs]

/-- A row cannot borrow cells from a text that closes none. -/
theorem cells_short {pieces : List (List α)} (hlen : pieces.length < ps.length)
    (hpieces : ∀ piece ∈ pieces, sep ∉ piece) {rest : List α}
    (hrest : ∀ p ∈ ps, cell sep blank p rest = none) :
    cells sep blank ps (joined sep pieces rest) = none := by
  induction ps generalizing pieces with
  | nil => simp at hlen
  | cons p ps ih =>
      cases pieces with
      | nil => simp [joined, cells, hrest p List.mem_cons_self]
      | cons piece pieces =>
          have htail := ih (fun q hq => hps q (List.mem_cons_of_mem p hq))
            (Nat.lt_of_succ_lt_succ hlen)
            (fun q hq => hpieces q (List.mem_cons_of_mem piece hq))
            fun q hq => hrest q (List.mem_cons_of_mem p hq)
          rw [joined, cells, cell_of_piece (hps p List.mem_cons_self) hblank
            (hpieces piece List.mem_cons_self)]
          cases content blank p piece with
          | none => rfl
          | some c => simp [htail]

omit hps hblank

theorem findAll_skip (run text : List α) :
    findAll sep blank ps run.length (run ++ text) = findAll sep blank ps 0 text := by
  induction run with
  | nil => rfl
  | cons c run ih => rw [List.length_cons, List.cons_append, findAll, ih]

theorem findAll_pass {run : List α} (h : sep ∉ run) (text : List α) :
    findAll sep blank ps 0 (run ++ text) = findAll sep blank ps 0 text := by
  induction run with
  | nil => rfl
  | cons c run ih =>
      rw [List.mem_cons, not_or] at h
      have hrow : row sep blank ps (c :: (run ++ text)) = none := if_neg (Ne.symm h.1)
      rw [List.cons_append, findAll, hrow]
      exact ih h.2

include hps hblank

theorem findAll_joined_short {pieces : List (List α)} (hlen : pieces.length ≤ ps.length)
    (hpieces : ∀ piece ∈ pieces, sep ∉ piece) {rest : List α}
    (hrest : ∀ p ∈ ps, cell sep blank p rest = none) :
    findAll sep blank ps 0 (joined sep pieces rest) = findAll sep blank ps 0 rest := by
  induction pieces with
  | nil => rfl
  | cons piece pieces ih =>
      have htail : ∀ q ∈ pieces, sep ∉ q := fun q hq => hpieces q (List.mem_cons_of_mem piece hq)
      have hrow : row sep blank ps (sep :: joined sep pieces rest) = none := by
        rw [row, if_pos rfl]
        exact cells_short hps hblank hlen htail hrest
      rw [joined, findAll_pass (hpieces piece List.mem_cons_self), findAll, hrow]
      exact ih (Nat.le_of_succ_le hlen) htail

/-- A line with the right number of pieces gives its row, or nothing. -/
theorem findAll_line {pieces : List (List α)} (hlen : pieces.length = ps.length)
    (hpieces : ∀ piece ∈ pieces, sep ∉ piece) {rest : List α}
    (hrest : ∀ p ∈ ps, cell sep blank p rest = none) :
    findAll sep blank ps 0 (sep :: joined sep pieces rest) =
      (contents blank ps pieces).toList ++ findAll sep blank ps 0 rest := by
  have hrow : row sep blank ps (sep :: joined sep pieces rest) =
      (contents blank ps pieces).map (·, rest) := by
    rw [row, if_pos rfl]
    exact cells_joined hps hblank hlen hpieces rest
  rw [findAll, hrow]
  cases contents blank ps pieces with
  | none => exact findAll_joined_short hps hblank (Nat.le_of_eq hlen) hpieces hrest
  | some cs =>
      have hskip : (joined sep pieces rest).length - rest.length =
          (joined sep pieces []).length := by
        rw [joined_append, List.length_append, Nat.add_sub_cancel]
      simp only [Option.map_some, Option.toList_some, List.singleton_append, hskip]
      rw [joined_append sep pieces rest, findAll_skip]

/-- The rows of a text in which every separator belongs to a line of the right width. -/
theorem findAll_table {eol before after : List α} (heol : ∀ c ∈ eol, blank c = true)
    (hbefore : sep ∉ before) (hafter : sep ∉ after) {lines : List (List (List α))}
    (hlen : ∀ pieces ∈ lines, pieces.length = ps.length)
    (hpieces : ∀ pieces ∈ lines, ∀ piece ∈ pieces, sep ∉ piece) :
    findAll sep blank ps 0
        (before ++ (lines.flatMap fun pieces => sep :: joined sep pieces eol) ++ after) =
      lines.filterMap (contents blank ps) := by
  rw [List.append_assoc, findAll_pass hbefore]
  have heolsep : sep ∉ eol := fun h => by simp [heol sep h] at hblank
  induction lines with
  | nil =>
      rw [List.flatMap_nil, List.nil_append, ← List.append_nil after, findAll_pass hafter]
      rfl
  | cons pieces lines ih =>
      have htail := ih (fun q hq => hlen q (List.mem_cons_of_mem pieces hq))
        fun q hq => hpieces q (List.mem_cons_of_mem pieces hq)
      -- behind the last separator of a line comes another line, or no separator at all
      have hrest : ∀ p ∈ ps, cell sep blank p
          (eol ++ ((lines.flatMap fun pieces => sep :: joined sep pieces eol) ++ after)) =
            none := by
        intro p hp
        cases lines with
        | nil => exact cell_eq_none_of_not_mem (hps p hp) hblank (by simp [heolsep, hafter])
        | cons next lines => exact cell_eq_none_of_blanks (hps p hp) hblank heol _
      rw [List.flatMap_cons, List.cons_append, List.cons_append, joined_append,
        List.append_assoc, List.append_assoc, ← joined_append]
      rw [findAll_line hps hblank (hlen pieces List.mem_cons_self)
        (hpieces pieces List.mem_cons_self) hrest, findAll_pass heolsep, htail]
      cases hcs : contents blank ps pieces <;> simp [hcs]

end

end OShm.Lib.RowScan
