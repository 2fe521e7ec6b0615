import Mathlib.Algebra.Group.Nat.Defs
import Mathlib.Data.List.Basic
import OShm.Lib.RowScan

/-! # The result files of the two benchmarks

`nccl_perf_test` and `tcp_gpu_comm_test` print one row for every operation and size, and
`parse_table` reads the rows back with a regular expression. The expression knows digits and
points only, so it drops a row in which a stream has printed an exponent.
-/

namespace OShm.Nccl

open OShm.Lib.RowScan

abbrev Text := List Char

inductive Operation
  | allReduce
  | broadcast
  deriving DecidableEq, Repr

def Operation.name : Operation → Text
  | .allReduce => "AllReduce".toList
  | .broadcast => "Broadcast".toList

def lower (t : Text) : Text := t.map Char.toLower

/-! ## Numbers as they are printed -/

def sign (neg : Bool) : Text := if neg then ['-'] else []

def decimal (n : Nat) : Text := Nat.toDigits 10 n

/-- A double after its rounding to six significant digits: `digits` with the point behind the
first one, times ten to the `exponent`. -/
inductive Double
  | zero (neg : Bool)
  | finite (neg : Bool) (digits : Nat) (exponent : Int)
      (normal : 100000 ≤ digits ∧ digits < 1000000)
  | inf (neg : Bool)
  | nan (neg : Bool)

/-- Zeros at the end of the fraction are not printed, nor is a point without a fraction. -/
def withFraction (whole fraction : Text) : Text :=
  let kept := (fraction.reverse.dropWhile (· = '0')).reverse
  if kept = [] then whole else whole ++ '.' :: kept

def exponentText (e : Int) : Text :=
  'e' :: (if e < 0 then '-' else '+') ::
    (if e.natAbs < 10 then '0' :: decimal e.natAbs else decimal e.natAbs)

def magnitude (digits : Nat) (e : Int) : Text :=
  if e < -4 ∨ 6 ≤ e then
    withFraction ((decimal digits).take 1) ((decimal digits).drop 1) ++ exponentText e
  else if e < 0 then
    withFraction ['0'] (List.replicate (-e - 1).toNat '0' ++ decimal digits)
  else
    withFraction ((decimal digits).take (e.toNat + 1)) ((decimal digits).drop (e.toNat + 1))

/-- `std::cout << x` with the default format and precision. -/
def Double.text : Double → Text
  | .zero neg => sign neg ++ ['0']
  | .finite neg digits e _ => sign neg ++ magnitude digits e
  | .inf neg => sign neg ++ "inf".toList
  | .nan neg => sign neg ++ "nan".toList

def Double.plain : Double → Bool
  | .zero neg => !neg
  | .finite neg _ e _ => !neg && decide (-4 ≤ e) && decide (e < 6)
  | .inf _ => false
  | .nan _ => false

/-- A number rounded to `places` decimals, counted in units of the last one. -/
structure Fixed (places : Nat) where
  neg : Bool
  units : Nat

def zeroPadded (width n : Nat) : Text :=
  List.replicate (width - (decimal n).length) '0' ++ decimal n

/-- The format specification `.2f` for two places. -/
def Fixed.text {places : Nat} (x : Fixed places) : Text :=
  sign x.neg ++
    (decimal (x.units / 10 ^ places) ++ '.' :: zeroPadded places (x.units % 10 ^ places))

/-! ## Rows and files -/

/-- A row with its measurements as texts: what a benchmark prints, and a row of the frame that
`parse_table` returns. There the texts are what `float` is applied to. -/
structure Row where
  operation : Text
  sizeBytes : Nat
  latency : Text
  bandwidth : Text
  throughput : Text
  deriving DecidableEq, Repr

def Row.line (r : Row) : Text :=
  "| ".toList ++ r.operation ++ " | ".toList ++ decimal r.sizeBytes ++ " | ".toList ++
    r.latency ++ " | ".toList ++ r.bandwidth ++ " | ".toList ++ r.throughput ++ " |\n".toList

def header : Text :=
  "| 操作 | 大小(B) | 延迟(us) | 带宽(GB/s) | 吞吐量(GB/s) |\n".toList ++
    "|------|---------|----------|------------|-------------|\n".toList

/-- The output of a benchmark: the lines before the table, the table, and a closing line. -/
def reportText (before : Text) (rows : List Row) (after : Text) : Text :=
  before ++ (header ++ rows.flatMap Row.line) ++ after

/-! ## `parse_table` -/

/-- `\w`. Of the characters outside ASCII only letters occur in the files. -/
def isWord (c : Char) : Bool := c.isAlphanum || c = '_' || decide (128 ≤ c.toNat)

/-- `[\d\.]`. -/
def isNumber (c : Char) : Bool := c.isDigit || c = '.'

def tablePattern : List (Char → Bool) := [isWord, Char.isDigit, isNumber, isNumber, isNumber]

def Row.ofCells : List Text → Option Row
  | [op, size, latency, bandwidth, throughput] =>
      some ⟨op, Nat.ofDigitChars 10 size 0, latency, bandwidth, throughput⟩
  | _ => none

/-- `parse_table`. Of what `\s` stands for, rows have blanks and ends of lines only. -/
def parseTable (content : Text) : List Row :=
  (findAll '|' Char.isWhitespace tablePattern 0 content).filterMap Row.ofCells

/-! ## What the formats print -/

def isCell (c : Char) : Bool := !c.isWhitespace && decide (c ≠ '|')

def avoids (p : Char → Bool) : Bool := [' ', '\t', '\r', '\n', '|'].all fun b => !p b

theorem isCell_of_avoids {p : Char → Bool} (hp : avoids p = true) {c : Char} (hc : p c = true) :
    isCell c = true := by
  have hne : ∀ b ∈ [' ', '\t', '\r', '\n', '|'], c ≠ b := by
    rintro b hb rfl
    simpa [hc] using List.all_eq_true.mp hp c hb
  simp only [List.forall_mem_cons] at hne
  simp [isCell, Char.isWhitespace, hne]

theorem isClass_of_avoids {p : Char → Bool} (hp : avoids p = true) :
    IsClass '|' Char.isWhitespace p where
  sep := by simpa using List.all_eq_true.mp hp '|' (by simp)
  blank := by
    intro c hblank
    cases hc : p c with
    | false => rfl
    | true => simpa [isCell, hblank] using isCell_of_avoids hp hc

theorem isClass_tablePattern : ∀ p ∈ tablePattern, IsClass '|' Char.isWhitespace p := by
  have hword : IsClass '|' Char.isWhitespace isWord := isClass_of_avoids (by decide)
  have hdigit : IsClass '|' Char.isWhitespace Char.isDigit := isClass_of_avoids (by decide)
  have hnumber : IsClass '|' Char.isWhitespace isNumber := isClass_of_avoids (by decide)
  simp [tablePattern, hword, hdigit, hnumber]

theorem isCell_of_isNumber {c : Char} (h : isNumber c = true) : isCell c = true :=
  isCell_of_avoids (by decide) h

theorem isDigit_of_mem_decimal {c : Char} {n : Nat} (h : c ∈ decimal n) : c.isDigit = true :=
  Nat.isDigit_of_mem_toDigits (by decide) (by decide) h

theorem isNumber_of_mem_decimal {c : Char} {n : Nat} (h : c ∈ decimal n) : isNumber c = true := by
  simp [isNumber, isDigit_of_mem_decimal h]

theorem withFraction_forall {q : Char → Prop} {whole fraction : Text} (hdot : q '.')
    (hwhole : ∀ c ∈ whole, q c) (hfraction : ∀ c ∈ fraction, q c) :
    ∀ c ∈ withFraction whole fraction, q c := by
  have hkept : ∀ c ∈ (fraction.reverse.dropWhile (· = '0')).reverse, q c := by
    intro c hc
    have hmem := (List.dropWhile_sublist _).mem (List.mem_reverse.mp hc)
    exact hfraction c (List.mem_reverse.mp hmem)
  simp only [withFraction]
  split
  · exact hwhole
  · intro c hc
    rcases List.mem_append.mp hc with hc | hc
    · exact hwhole c hc
    · rcases List.mem_cons.mp hc with rfl | hc
      · exact hdot
      · exact hkept c hc

theorem all_sign_append (neg : Bool) (t : Text) :
    (sign neg ++ t).all isNumber = (!neg && t.all isNumber) := by
  cases neg with
  | false => rfl
  | true => exact Bool.and_eq_false_imp.mpr fun h => absurd h (by decide)

theorem isCell_of_mem_sign {neg : Bool} {c : Char} (h : c ∈ sign neg) : isCell c = true := by
  cases neg with
  | false => cases h
  | true =>
      rw [sign, if_pos rfl, List.mem_singleton] at h
      exact h ▸ by decide

theorem isNumber_withFraction_split (digits k : Nat) :
    ∀ c ∈ withFraction ((decimal digits).take k) ((decimal digits).drop k),
      isNumber c = true :=
  withFraction_forall (by decide)
    (fun _ hc => isNumber_of_mem_decimal (List.mem_of_mem_take hc))
    fun _ hc => isNumber_of_mem_decimal (List.mem_of_mem_drop hc)

theorem isNumber_of_mem_zeros {k n : Nat} {c : Char}
    (h : c ∈ List.replicate k '0' ++ decimal n) : isNumber c = true := by
  rcases List.mem_append.mp h with h | h
  · exact List.eq_of_mem_replicate h ▸ by decide
  · exact isNumber_of_mem_decimal h

theorem isCell_of_mem_exponentText {e : Int} {c : Char} (h : c ∈ exponentText e) :
    isCell c = true := by
  have hdigits : ∀ c ∈ decimal e.natAbs, isCell c = true := fun c hc =>
    isCell_of_isNumber (isNumber_of_mem_decimal hc)
  rw [exponentText, List.mem_cons, List.mem_cons] at h
  rcases h with rfl | rfl | h
  · decide
  · split <;> decide
  · split at h
    · rcases List.mem_cons.mp h with rfl | h
      · decide
      · exact hdigits c h
    · exact hdigits c h

theorem all_isNumber_magnitude (digits : Nat) (e : Int) :
    (magnitude digits e).all isNumber = (decide (-4 ≤ e) && decide (e < 6)) := by
  unfold magnitude
  split
  · rename_i hscientific
    have hfalse : (decide (-4 ≤ e) && decide (e < 6)) = false := by
      rw [Bool.and_eq_false_iff, decide_eq_false_iff_not, decide_eq_false_iff_not]
      omega
    -- the letter of the exponent is in no class for numbers
    have he : isNumber 'e' = false := by decide
    rw [hfalse, exponentText]
    simp [he]
  · rename_i hfixed
    have htrue : (decide (-4 ≤ e) && decide (e < 6)) = true := by
      rw [Bool.and_eq_true, decide_eq_true_iff, decide_eq_true_iff]
      omega
    rw [htrue, List.all_eq_true]
    split
    · exact withFraction_forall (by decide) (List.all_eq_true.mp (by decide))
        fun _ hc => isNumber_of_mem_zeros hc
    · exact isNumber_withFraction_split digits _

theorem isCell_of_mem_magnitude {digits : Nat} {e : Int} {c : Char}
    (h : c ∈ magnitude digits e) : isCell c = true := by
  cases hplain : (decide (-4 ≤ e) && decide (e < 6)) with
  | true =>
      rw [← all_isNumber_magnitude digits e, List.all_eq_true] at hplain
      exact isCell_of_isNumber (hplain c h)
  | false =>
      have hscientific : e < -4 ∨ 6 ≤ e := by
        rw [Bool.and_eq_false_iff, decide_eq_false_iff_not, decide_eq_false_iff_not] at hplain
        omega
      rw [magnitude, if_pos hscientific] at h
      rcases List.mem_append.mp h with h | h
      · exact isCell_of_isNumber (isNumber_withFraction_split digits 1 c h)
      · exact isCell_of_mem_exponentText h

theorem withFraction_ne_nil {whole : Text} (h : whole ≠ []) (fraction : Text) :
    withFraction whole fraction ≠ [] := by
  simp only [withFraction]
  split <;> simp [h]

theorem magnitude_ne_nil (digits : Nat) (e : Int) : magnitude digits e ≠ [] := by
  have htake : ∀ k, (decimal digits).take (k + 1) ≠ [] := by
    intro k h
    exact Nat.toDigits_ne_nil ((List.take_eq_nil_iff.mp h).resolve_left (Nat.succ_ne_zero k))
  unfold magnitude
  split
  · simp [exponentText]
  · split
    · exact withFraction_ne_nil (by decide) _
    · exact withFraction_ne_nil (htake _) _

theorem isCell_of_mem_signed {neg : Bool} {t : Text} (ht : ∀ c ∈ t, isCell c = true) :
    ∀ c ∈ sign neg ++ t, isCell c = true := by
  intro c hc
  rcases List.mem_append.mp hc with hc | hc
  · exact isCell_of_mem_sign hc
  · exact ht c hc

theorem Double.text_ne_nil (x : Double) : x.text ≠ [] := by
  cases x with
  | finite neg digits e _ => simp [Double.text, magnitude_ne_nil]
  | zero neg | inf neg | nan neg => simp [Double.text]

theorem Double.isCell_of_mem (x : Double) : ∀ c ∈ x.text, isCell c = true := by
  cases x with
  | finite neg digits e _ => exact isCell_of_mem_signed fun c hc => isCell_of_mem_magnitude hc
  | zero neg | inf neg | nan neg => exact isCell_of_mem_signed (List.all_eq_true.mp (by decide))

theorem Double.all_isNumber (x : Double) : x.text.all isNumber = x.plain := by
  cases x with
  | finite neg digits e _ =>
      rw [Double.text, all_sign_append, all_isNumber_magnitude, Double.plain, Bool.and_assoc]
  | zero neg | inf neg | nan neg => cases neg <;> decide

example : (Double.finite false 100930 (-3) ⟨by decide, by decide⟩).text = "0.0010093".toList ∧
    (Double.finite false 524545 (-5) ⟨by decide, by decide⟩).text = "5.24545e-05".toList ∧
    (Double.finite false 100000 6 ⟨by decide, by decide⟩).text = "1e+06".toList := by
  decide

theorem isNumber_of_mem_fixed {places n : Nat} {c : Char}
    (h : c ∈ decimal (n / 10 ^ places) ++ '.' :: zeroPadded places (n % 10 ^ places)) :
    isNumber c = true := by
  rcases List.mem_append.mp h with h | h
  · exact isNumber_of_mem_decimal h
  · rcases List.mem_cons.mp h with rfl | h
    · decide
    · exact isNumber_of_mem_zeros h

variable {places : Nat}

theorem Fixed.text_ne_nil (x : Fixed places) : x.text ≠ [] := by
  simp [Fixed.text]

theorem Fixed.isCell_of_mem (x : Fixed places) : ∀ c ∈ x.text, isCell c = true :=
  isCell_of_mem_signed fun _ hc => isCell_of_isNumber (isNumber_of_mem_fixed hc)

theorem Fixed.all_isNumber (x : Fixed places) : x.text.all isNumber = !x.neg := by
  rw [Fixed.text, all_sign_append, List.all_eq_true.mpr fun _ hc => isNumber_of_mem_fixed hc,
    Bool.and_true]

/-- A number format, and which numbers it prints with digits and points alone. -/
class Printed (α : Type) where
  text : α → Text
  plain : α → Bool
  text_ne_nil : ∀ x, text x ≠ []
  isCell_of_mem : ∀ x, ∀ c ∈ text x, isCell c = true
  all_isNumber : ∀ x, (text x).all isNumber = plain x

instance : Printed Double where
  text := Double.text
  plain := Double.plain
  text_ne_nil := Double.text_ne_nil
  isCell_of_mem := Double.isCell_of_mem
  all_isNumber := Double.all_isNumber

instance : Printed (Fixed places) where
  text := Fixed.text
  plain := fun x => !x.neg
  text_ne_nil := Fixed.text_ne_nil
  isCell_of_mem := Fixed.isCell_of_mem
  all_isNumber := Fixed.all_isNumber

/-! ## Reading a file back -/

structure Row.Clean (r : Row) : Prop where
  operation : r.operation ≠ [] ∧ ∀ c ∈ r.operation, isWord c = true
  latency : r.latency ≠ [] ∧ ∀ c ∈ r.latency, isCell c = true
  bandwidth : r.bandwidth ≠ [] ∧ ∀ c ∈ r.bandwidth, isCell c = true
  throughput : r.throughput ≠ [] ∧ ∀ c ∈ r.throughput, isCell c = true

def Row.kept (r : Row) : Bool :=
  r.latency.all isNumber && (r.bandwidth.all isNumber && r.throughput.all isNumber)

def padded (t : Text) : Text := ' ' :: (t ++ [' '])

def Row.pieces (r : Row) : List Text :=
  [padded r.operation, padded (decimal r.sizeBytes), padded r.latency, padded r.bandwidth,
    padded r.throughput]

def headerPieces : List (List Text) :=
  [[" 操作 ".toList, " 大小(B) ".toList, " 延迟(us) ".toList, " 带宽(GB/s) ".toList,
      " 吞吐量(GB/s) ".toList],
    ["------".toList, "---------".toList, "----------".toList, "------------".toList,
      "-------------".toList]]

theorem Row.line_eq (r : Row) : r.line = '|' :: joined '|' r.pieces ['\n'] := by
  unfold Row.line Row.pieces
  simp [joined, padded]

theorem header_eq :
    header = headerPieces.flatMap fun pieces => '|' :: joined '|' pieces ['\n'] := by
  unfold header headerPieces
  simp [joined]

theorem headerPieces_lines : ∀ pieces ∈ headerPieces,
    pieces.length = tablePattern.length ∧ ∀ piece ∈ pieces, '|' ∉ piece := by
  decide

theorem content_padded_cell {p : Char → Bool} (hp : p ' ' = false) {t : Text} (hne : t ≠ [])
    (ht : ∀ c ∈ t, isCell c = true) :
    content Char.isWhitespace p (padded t) = if t.all p then some t else none := by
  refine content_padded (by decide) hp (fun c hc => ?_) hne
  have hcell := ht c hc
  simp only [isCell, Bool.and_eq_true, Bool.not_eq_true'] at hcell
  exact hcell.1

theorem Row.contents_pieces {r : Row} (h : r.Clean) :
    contents Char.isWhitespace tablePattern r.pieces =
      if r.kept then
        some [r.operation, decimal r.sizeBytes, r.latency, r.bandwidth, r.throughput]
      else none := by
  have hdigits : (decimal r.sizeBytes).all Char.isDigit = true :=
    List.all_eq_true.mpr fun c hc => isDigit_of_mem_decimal hc
  have hword : r.operation.all isWord = true := List.all_eq_true.mpr h.operation.2
  have hop := content_padded_cell (p := isWord) (by decide) h.operation.1
    fun c hc => isCell_of_avoids (by decide) (h.operation.2 c hc)
  have hsize := content_padded_cell (p := Char.isDigit) (t := decimal r.sizeBytes) (by decide)
    Nat.toDigits_ne_nil fun c hc => isCell_of_isNumber (isNumber_of_mem_decimal hc)
  have hlatency := content_padded_cell (p := isNumber) (by decide) h.latency.1 h.latency.2
  have hbandwidth := content_padded_cell (p := isNumber) (by decide) h.bandwidth.1 h.bandwidth.2
  have hthroughput :=
    content_padded_cell (p := isNumber) (by decide) h.throughput.1 h.throughput.2
  simp only [Row.pieces, tablePattern, contents, hop, hsize, hlatency, hbandwidth, hthroughput,
    hdigits, hword, if_true, Option.bind_some, Row.kept]
  by_cases hl : r.latency.all isNumber = true <;>
    by_cases hb : r.bandwidth.all isNumber = true <;>
    by_cases ht : r.throughput.all isNumber = true <;> simp [hl, hb, ht]

theorem sep_notMem_padded {t : Text} (ht : ∀ c ∈ t, isCell c = true) : '|' ∉ padded t := by
  intro h
  have hmem : '|' ∈ t := by simpa [padded] using h
  exact absurd (ht '|' hmem) (by decide)

theorem Row.sep_notMem_pieces {r : Row} (h : r.Clean) : ∀ piece ∈ r.pieces, '|' ∉ piece := by
  have hop := sep_notMem_padded fun c hc => isCell_of_avoids (by decide) (h.operation.2 c hc)
  have hsize : '|' ∉ padded (decimal r.sizeBytes) :=
    sep_notMem_padded fun c hc => isCell_of_isNumber (isNumber_of_mem_decimal hc)
  simp [Row.pieces, hop, hsize, sep_notMem_padded h.latency.2, sep_notMem_padded h.bandwidth.2,
    sep_notMem_padded h.throughput.2]

theorem Row.ofCells_contents {r : Row} (h : r.Clean) :
    (contents Char.isWhitespace tablePattern r.pieces).bind Row.ofCells =
      if r.kept then some r else none := by
  rw [Row.contents_pieces h]
  split
  · simp [Row.ofCells, decimal]
  · rfl

/-- The rows that `parse_table` finds in a printed file are the ones with plain numbers. -/
theorem parseTable_reportText {before after : Text} (hbefore : '|' ∉ before)
    (hafter : '|' ∉ after) {rows : List Row} (hrows : ∀ r ∈ rows, r.Clean) :
    parseTable (reportText before rows after) = rows.filter Row.kept := by
  have htext : header ++ rows.flatMap Row.line =
      (headerPieces ++ rows.map Row.pieces).flatMap
        fun pieces => '|' :: joined '|' pieces ['\n'] := by
    rw [List.flatMap_append, List.flatMap_map, header_eq, funext Row.line_eq]
  -- the header lines have the shape of a row, but nothing numeric in the second cell
  have hheader : headerPieces.filterMap (contents Char.isWhitespace tablePattern) = [] := by
    decide
  have hlines : ∀ pieces ∈ headerPieces ++ rows.map Row.pieces,
      pieces.length = tablePattern.length ∧ ∀ piece ∈ pieces, '|' ∉ piece := by
    intro pieces hmem
    rcases List.mem_append.mp hmem with hmem | hmem
    · exact headerPieces_lines pieces hmem
    · obtain ⟨r, hr, rfl⟩ := List.mem_map.mp hmem
      exact ⟨rfl, Row.sep_notMem_pieces (hrows r hr)⟩
  rw [parseTable, reportText, htext,
    findAll_table isClass_tablePattern (by decide) (by simp) hbefore hafter
      (fun pieces hmem => (hlines pieces hmem).1) fun pieces hmem => (hlines pieces hmem).2,
    List.filterMap_append, hheader, List.nil_append, List.filterMap_map, List.filterMap_filterMap]
  rw [← List.filterMap_eq_filter]
  exact List.filterMap_congr fun r hr => Row.ofCells_contents (hrows r hr)

/-! ## Two benchmarks, one table -/

/-- How a benchmark writes the operations. -/
structure Naming where
  name : Operation → Text
  word : ∀ op, name op ≠ [] ∧ ∀ c ∈ name op, isWord c = true
  lower_eq : ∀ op, lower (name op) = lower op.name

theorem operation_name_word (op : Operation) : op.name ≠ [] ∧ ∀ c ∈ op.name, isWord c = true := by
  cases op <;> exact ⟨by decide, List.all_eq_true.mp (by decide)⟩

theorem operation_lower_word (op : Operation) :
    lower op.name ≠ [] ∧ ∀ c ∈ lower op.name, isWord c = true := by
  cases op <;> exact ⟨by decide, List.all_eq_true.mp (by decide)⟩

theorem lower_lower_name (op : Operation) : lower (lower op.name) = lower op.name := by
  cases op <;> decide

def ncclNaming : Naming := ⟨Operation.name, operation_name_word, fun _ => rfl⟩

def tcpNaming : Naming := ⟨fun op => lower op.name, operation_lower_word, lower_lower_name⟩

/-- One measurement, with the format of its latency and the format of the two rates. -/
structure Measurement (α β : Type) where
  op : Operation
  sizeBytes : Nat
  latency : α
  bandwidth : β
  throughput : β

variable {α β : Type} [Printed α] [Printed β]

def Measurement.row (naming : Naming) (m : Measurement α β) : Row where
  operation := naming.name m.op
  sizeBytes := m.sizeBytes
  latency := Printed.text m.latency
  bandwidth := Printed.text m.bandwidth
  throughput := Printed.text m.throughput

def Measurement.plain (m : Measurement α β) : Bool :=
  Printed.plain m.latency && (Printed.plain m.bandwidth && Printed.plain m.throughput)

theorem Measurement.row_clean (naming : Naming) (m : Measurement α β) : (m.row naming).Clean where
  operation := naming.word m.op
  latency := ⟨Printed.text_ne_nil m.latency, Printed.isCell_of_mem m.latency⟩
  bandwidth := ⟨Printed.text_ne_nil m.bandwidth, Printed.isCell_of_mem m.bandwidth⟩
  throughput := ⟨Printed.text_ne_nil m.throughput, Printed.isCell_of_mem m.throughput⟩

theorem Measurement.kept_row (naming : Naming) (m : Measurement α β) :
    (m.row naming).kept = m.plain := by
  simp [Row.kept, Measurement.row, Measurement.plain, Printed.all_isNumber]

/-- The file that a benchmark writes. It measures an operation once for a size, and only the
table has separators. -/
structure Report (α β : Type) where
  before : Text
  rows : List (Measurement α β)
  after : Text
  before_plain : '|' ∉ before
  after_plain : '|' ∉ after
  distinct : (rows.map fun m => (m.op, m.sizeBytes)).Nodup

abbrev NcclReport := Report Double Double

abbrev TcpReport := Report (Fixed 2) (Fixed 4)

def Report.text (naming : Naming) (f : Report α β) : Text :=
  reportText f.before (f.rows.map (Measurement.row naming)) f.after

theorem Report.parseTable_text (naming : Naming) (f : Report α β) :
    parseTable (f.text naming) =
      (f.rows.filter Measurement.plain).map (Measurement.row naming) := by
  have hclean : ∀ r ∈ f.rows.map (Measurement.row naming), r.Clean := by
    intro r hr
    obtain ⟨m, -, rfl⟩ := List.mem_map.mp hr
    exact m.row_clean naming
  have hkept : (Row.kept ∘ Measurement.row naming : Measurement α β → Bool) =
      Measurement.plain := funext fun m => m.kept_row naming
  rw [Report.text, parseTable_reportText f.before_plain f.after_plain hclean, List.filter_map,
    hkept]

end OShm.Nccl
