import Mathlib.Algebra.Group.Nat.Defs
import OShm.Ramfs.FlushPaths

/-! # Names that can be persisted

The temporary name is the name of the file with a dot in front and two clocks, a process
number and a suffix behind. It has to keep the limits of a component and of a path as
the name itself does, and nothing checks that it does.
-/

namespace OShm.Ramfs

open OShm.Kernel

def entryPath (dir name : CString) : CString := dir ++ slash :: name

theorem entryPath_inj {dir a b : CString} : entryPath dir a = entryPath dir b ↔ a = b := by
  simp [entryPath]

theorem entryPath_length (dir name : CString) :
    (entryPath dir name).length = dir.length + name.length + 1 := by
  simp [entryPath, Nat.add_assoc]

/-- What the temporary name has more than the name of the file. -/
def FlushArgs.extraLength (A : FlushArgs) : Nat :=
  (formatHex A.sec).length + (formatHex A.ns).length + (formatDecimal A.pid).length + 8

theorem FlushArgs.tmpText_length (A : FlushArgs) :
    A.tmpText.length = A.filename.length + A.extraLength := by
  have hsuffix : (ascii ".tmp").length = 4 := by decide
  simp only [FlushArgs.tmpText, FlushArgs.extraLength, List.length_append, List.length_cons,
    List.length_nil, hsuffix]
  omega

/-- The path fits into the buffer and leads to a component of the directory. -/
structure Reaches (dir name path : CString) : Prop where
  whole : path = entryPath dir name
  direct : slash ∉ name
  length : name.length ≤ nameMax

/-- Both paths of the flush are good for the calls it makes. -/
structure Persistable (A : FlushArgs) (dir : CString) : Prop where
  tmp : Reaches dir A.tmpText A.tmpPath
  final : Reaches dir A.filename A.finalPath
  differ : A.tmpPath ≠ A.finalPath

theorem snprintf_eq_iff (text : CString) : snprintf text = text ↔ text.length < pathMax := by
  rw [snprintf, List.take_eq_self_iff]
  simp only [pathMax]
  omega

theorem FlushArgs.tmpPath_snprintf {A : FlushArgs} {dir : CString} (hsync : A.syncDir = some dir) :
    A.tmpPath = snprintf (entryPath dir A.tmpText) := by
  simp [FlushArgs.tmpPath, FlushArgs.tmpText, entryPath, hsync]

theorem FlushArgs.finalPath_snprintf {A : FlushArgs} {dir : CString}
    (hsync : A.syncDir = some dir) : A.finalPath = snprintf (entryPath dir A.filename) := by
  simp [FlushArgs.finalPath, entryPath, hsync]

theorem finalPath_of_fits {A : FlushArgs} {dir : CString} (hsync : A.syncDir = some dir)
    (hfits : (entryPath dir A.filename).length < pathMax) :
    A.finalPath = entryPath dir A.filename := by
  rw [FlushArgs.finalPath_snprintf hsync]
  exact (snprintf_eq_iff _).mpr hfits

/-- A file with a legal name can be persisted exactly when the temporary name is legal as
well. -/
theorem persistable_iff (A : FlushArgs) (dir : CString) (hsync : A.syncDir = some dir)
    (hname : A.filename.length ≤ nameMax) (hfits : (entryPath dir A.filename).length < pathMax) :
    Persistable A dir ↔ A.filename.length + A.extraLength ≤ nameMax ∧
      dir.length + A.filename.length + A.extraLength + 1 < pathMax := by
  have hfinal : Reaches dir A.filename A.finalPath :=
    ⟨finalPath_of_fits hsync hfits, slash_not_mem_lastComponent A.path, hname⟩
  have htmp : A.tmpPath = entryPath dir A.tmpText ↔
      dir.length + A.filename.length + A.extraLength + 1 < pathMax := by
    rw [FlushArgs.tmpPath_snprintf hsync, snprintf_eq_iff, entryPath_length, A.tmpText_length,
      ← Nat.add_assoc dir.length]
  constructor
  · intro h
    have hlen := h.tmp.length
    rw [A.tmpText_length] at hlen
    exact ⟨hlen, htmp.mp h.tmp.whole⟩
  · rintro ⟨hlen, hpath⟩
    refine ⟨⟨htmp.mpr hpath, slash_not_mem_tmpText A, ?_⟩, hfinal, ?_⟩
    · rw [A.tmpText_length]
      exact hlen
    · rw [htmp.mpr hpath, hfinal.whole, Ne, entryPath_inj]
      intro heq
      have hsame := congrArg List.length heq
      rw [A.tmpText_length, FlushArgs.extraLength] at hsame
      omega

/-! ## Every clock and every process -/

/-- The widest clocks and process number take 42 digits. -/
theorem extraLength_le {A : FlushArgs} (hsec : A.sec < 2 ^ 64) (hns : A.ns < 2 ^ 64)
    (hpid : A.pid < 2 ^ 31) : A.extraLength ≤ 50 := by
  have hhex : ∀ n : Nat, n < 2 ^ 64 → (formatHex n).length ≤ 16 := by
    intro n hn
    rw [formatHex, List.length_map]
    exact (Nat.length_toDigits_le_iff (by decide) (by decide)).mpr hn
  have hdec : (formatDecimal A.pid).length ≤ 10 := by
    rw [formatDecimal, List.length_map]
    refine (Nat.length_toDigits_le_iff (by decide) (by decide)).mpr ?_
    omega
  have hs := hhex A.sec hsec
  have hn := hhex A.ns hns
  unfold FlushArgs.extraLength
  omega

def flushArgsAt (dir path : CString) (sec ns pid : Nat) : FlushArgs :=
  ⟨some dir, path, sec, ns, pid⟩

theorem extraLength_widest (dir path : CString) :
    (flushArgsAt dir path (2 ^ 64 - 1) (2 ^ 64 - 1) (2 ^ 31 - 1)).extraLength = 50 := by
  show (formatHex (2 ^ 64 - 1)).length + (formatHex (2 ^ 64 - 1)).length +
    (formatDecimal (2 ^ 31 - 1)).length + 8 = 50
  decide

/-- At any time and by any process. -/
def AlwaysPersistable (dir path : CString) : Prop :=
  ∀ sec ns pid, sec < 2 ^ 64 → ns < 2 ^ 64 → pid < 2 ^ 31 →
    Persistable (flushArgsAt dir path sec ns pid) dir

/-- A legal name can always be persisted exactly when it is 50 bytes shorter than it has
to be, on its own and behind the directory. -/
theorem alwaysPersistable_iff (dir path : CString) (hname : (lastComponent path).length ≤ nameMax)
    (hfits : (entryPath dir (lastComponent path)).length < pathMax) :
    AlwaysPersistable dir path ↔ (lastComponent path).length + 50 ≤ nameMax ∧
      dir.length + (lastComponent path).length + 51 < pathMax := by
  constructor
  · intro h
    have hwidest := h (2 ^ 64 - 1) (2 ^ 64 - 1) (2 ^ 31 - 1) (by decide) (by decide) (by decide)
    have hbounds :=
      (persistable_iff (flushArgsAt dir path _ _ _) dir rfl hname hfits).mp hwidest
    have hfile : (flushArgsAt dir path (2 ^ 64 - 1) (2 ^ 64 - 1) (2 ^ 31 - 1)).filename =
        lastComponent path := rfl
    rw [extraLength_widest, hfile] at hbounds
    exact hbounds
  · rintro ⟨hlen, hpath⟩ sec ns pid hsec hns hpid
    have hextra : (flushArgsAt dir path sec ns pid).extraLength ≤ 50 :=
      extraLength_le hsec hns hpid
    refine (persistable_iff (flushArgsAt dir path sec ns pid) dir rfl hname hfits).mpr ?_
    change (lastComponent path).length + _ ≤ _ ∧
      dir.length + (lastComponent path).length + _ + 1 < _
    omega

theorem alwaysPersistable_iff_short :
    (lastComponent (ascii "/r/x")).length ≤ nameMax ∧
      AlwaysPersistable (ascii "/p") (ascii "/r/x") :=
  ⟨by decide, (alwaysPersistable_iff _ _ (by decide) (by decide)).mpr (by decide)⟩

def longestName : CString := List.replicate nameMax 120

theorem longestName_filename : lastComponent (slash :: longestName) = longestName := by
  refine @lastComponent_join [] longestName fun h => ?_
  exact absurd (List.eq_of_mem_replicate h) (by decide)

theorem longestName_length : longestName.length = nameMax := List.length_replicate

/-- The temporary name of the longest name is too long for any file system. -/
theorem longest_name_not_persistable :
    ¬ ∀ dir path : CString, (lastComponent path).length ≤ nameMax →
      (entryPath dir (lastComponent path)).length < pathMax → AlwaysPersistable dir path := by
  intro h
  have hname : (lastComponent (slash :: longestName)).length = nameMax := by
    rw [longestName_filename, longestName_length]
  have hfile : (flushArgsAt (ascii "/p") (slash :: longestName) 1 2 3).filename = longestName :=
    longestName_filename
  have halways := h (ascii "/p") (slash :: longestName) (Nat.le_of_eq hname) (by
    rw [entryPath_length, hname]
    decide)
  have hlen := (halways 1 2 3 (by decide) (by decide) (by decide)).tmp.length
  rw [FlushArgs.tmpText_length, hfile, longestName_length, FlushArgs.extraLength] at hlen
  omega

end OShm.Ramfs
