import OShm.Acpi.MyAcpi

/-! # When a change of an ACPI table is sound

`ChangeACPITable` copies as many bytes as the old table has, sums as many as the new header
says, and does not compare the index with the number of entries.
-/

namespace OShm.Acpi

open OShm.Lib.FlatMemory

/-! ## What was meant -/

def Within (r : Nat × Nat) (start length : Nat) : Prop :=
  ∀ a, r.1 ≤ a → a < r.1 + r.2 → start ≤ a ∧ a < start + length

theorem within_start_iff {start n length : Nat} : Within (start, n) start length ↔ n ≤ length := by
  constructor
  · intro h
    by_contra hlt
    have hlast := h (start + length) (Nat.le_add_right _ _)
      (Nat.add_lt_add_left (Nat.lt_of_not_le hlt) _)
    omega
  · intro hle a hlo hhi
    simp only at hlo hhi
    omega

theorem within_byte_iff {start i length : Nat} :
    Within (start + i, 1) start length ↔ i < length := by
  constructor
  · intro h
    have hbyte := h (start + i) (Nat.le_refl _) (Nat.lt_succ_self _)
    omega
  · intro hlt a hlo hhi
    simp only at hlo hhi
    omega

def entryTotal (m : Memory) (xsdt : Nat) : Nat := (lengthOf m xsdt - headerSize) / 8

/-- The table of `length` bytes at `table` is now the replacement of `size` bytes, with a
checksum of its own, and nothing else was touched. -/
structure Rewritten (m : Memory) (r : Change) (table length newTable size : Nat) : Prop where
  content : ∀ i < size, i ≠ checksumOffset → r.memory (table + i) = m (newTable + i)
  checksum : byteSum r.memory table (lengthOf r.memory table) = 0
  source : ∀ x ∈ r.source, Within x newTable size
  written : ∀ x ∈ r.written, Within x table length
  summed : ∀ x ∈ r.summed, Within x table length

/-- A change of an entry rewrites its table, and a change behind the last entry does
nothing. -/
def ChangeSound (configTable : List ConfigurationTable) (m : Memory)
    (root index newTable size : Nat) : Prop :=
  let xsdt := xsdtAddress m root
  let table := entryAt m xsdt index
  if index < entryTotal m xsdt then
    Rewritten m (changeAcpiTable configTable m index newTable) table (lengthOf m table) newTable
      size
  else (changeAcpiTable configTable m index newTable).memory = m

/-! ## The steps of a change -/

/-- Memory between the two assignments of the checksum. -/
def cleared (m : Memory) (table newTable : Nat) : Memory :=
  store (copy m table newTable (lengthOf m table)) (table + checksumOffset) 0

def summedUp (m : Memory) (xsdt index table : Nat) : Memory :=
  store m (table + checksumOffset)
    (calculateCheckSum8 m (entryAt m xsdt index) (lengthOf m table))

/-- The change as ranges and memory, without the search for the tables. -/
def changeAt (m : Memory) (xsdt index newTable : Nat) : Change :=
  let table := entryAt m xsdt index
  let cut := cleared m table newTable
  ⟨summedUp cut xsdt index table, [(newTable, lengthOf m table)],
    [(table, lengthOf m table), (table + checksumOffset, 1)],
    [(entryAt cut xsdt index, lengthOf cut table)]⟩

theorem changeAcpiTable_of_root {configTable : List ConfigurationTable} {root : Nat}
    (hroot : findRoot configTable = some root) (m : Memory) (index newTable : Nat) :
    changeAcpiTable configTable m index newTable =
      changeAt m (xsdtAddress m root) index newTable := by
  simp only [changeAcpiTable, hroot]
  rfl

section Steps

variable {m : Memory} {xsdt index table newTable size i : Nat}

theorem cleared_inside (hi : i < lengthOf m table) (hne : i ≠ checksumOffset) :
    cleared m table newTable (table + i) = m (newTable + i) := by
  rw [cleared, store_other (by omega), copy_inside hi]

theorem cleared_outside {a : Nat} (ha : a < table ∨ table + lengthOf m table ≤ a)
    (hne : a ≠ table + checksumOffset) : cleared m table newTable a = m a := by
  rw [cleared, store_other hne, copy_outside ha]

theorem summedUp_other {a : Nat} (hne : a ≠ table + checksumOffset) :
    summedUp m xsdt index table a = m a :=
  store_other hne

theorem lengthOf_store (v : Byte) :
    lengthOf (store m (table + checksumOffset) v) table = lengthOf m table := by
  refine load_congr fun i hi => store_other ?_
  unfold checksumOffset
  omega

theorem lengthOf_summedUp : lengthOf (summedUp m xsdt index table) table = lengthOf m table :=
  lengthOf_store _

theorem lengthOf_cleared (newTable : Nat) (h : checksumOffset < lengthOf m table) :
    lengthOf (cleared m table newTable) table = lengthOf m newTable := by
  unfold checksumOffset at h
  refine load_congr fun i hi => ?_
  rw [Nat.add_assoc, Nat.add_assoc]
  refine cleared_inside (by omega) ?_
  unfold checksumOffset
  omega

theorem entryAt_cleared (newTable : Nat) (h : checksumOffset < lengthOf m table)
    (hslot : slot xsdt index + 8 ≤ table ∨ table + lengthOf m table ≤ slot xsdt index) :
    entryAt (cleared m table newTable) xsdt index = entryAt m xsdt index := by
  refine load_congr fun i hi => cleared_outside ?_ ?_ <;> omega

/-! ## A change of an entry -/

/-- What the tables must be like for a change to be sound. -/
structure Replaceable (m : Memory) (table newTable size : Nat) : Prop where
  source : lengthOf m table ≤ size
  header : checksumOffset < lengthOf m table
  length : lengthOf m newTable ≤ lengthOf m table
  sum : checksumOffset < lengthOf m newTable ∨ byteSum m newTable (lengthOf m newTable) = 0
  /-- The bytes of the replacement that are not copied are there already. -/
  tail : ∀ i, lengthOf m table ≤ i → i < size → m (table + i) = m (newTable + i)

theorem byteSum_of_short (h : lengthOf m newTable ≤ checksumOffset)
    (hle : lengthOf m newTable ≤ lengthOf m table) :
    byteSum (summedUp (cleared m table newTable) xsdt index table) table (lengthOf m newTable) =
      byteSum m newTable (lengthOf m newTable) := by
  refine byteSum_congr fun i hi => ?_
  rw [summedUp_other (by omega), cleared_inside (by omega) (by omega)]

theorem byteSum_of_long {n : Nat} (h : checksumOffset < n)
    (hentry : entryAt (cleared m table newTable) xsdt index = table)
    (hlength : lengthOf (cleared m table newTable) table = n) :
    byteSum (summedUp (cleared m table newTable) xsdt index table) table n = 0 := by
  have hzero : store (cleared m table newTable) (table + checksumOffset) 0 =
      cleared m table newTable :=
    store_eq_self_iff.mpr store_same.symm
  rw [summedUp, hentry, hlength, byteSum_store_eq_zero_iff h, hzero, calculateCheckSum8]

section Entry

variable (htable : entryAt m xsdt index = table)
  (hslot : slot xsdt index + 8 ≤ table ∨ table + lengthOf m table ≤ slot xsdt index)

include htable hslot

/-- The ranges show what the tables were like, and the content what was behind them. -/
theorem replaceable_of_rewritten
    (h : Rewritten m (changeAt m xsdt index newTable) table (lengthOf m table) newTable size) :
    Replaceable m table newTable size := by
  have hsource : lengthOf m table ≤ size :=
    within_start_iff.mp (h.source (newTable, lengthOf m table) (by simp [changeAt, htable]))
  have hheader : checksumOffset < lengthOf m table :=
    within_byte_iff.mp (h.written (table + checksumOffset, 1) (by simp [changeAt, htable]))
  have hentry := (entryAt_cleared newTable hheader hslot).trans htable
  have hlength := lengthOf_cleared newTable hheader
  have hle : lengthOf m newTable ≤ lengthOf m table :=
    within_start_iff.mp (h.summed (table, lengthOf m newTable)
      (by simp [changeAt, htable, hentry, hlength]))
  refine ⟨hsource, hheader, hle, ?_, fun i hi hsize => ?_⟩
  · by_cases hshort : lengthOf m newTable ≤ checksumOffset
    · have hsum := h.checksum
      simp only [changeAt, htable, lengthOf_summedUp, hlength,
        byteSum_of_short hshort hle] at hsum
      exact Or.inr hsum
    · exact Or.inl (Nat.lt_of_not_le hshort)
  · have hcontent := h.content i hsize (by omega)
    simp only [changeAt, htable] at hcontent
    rwa [summedUp_other (by omega), cleared_outside (by omega) (by omega)] at hcontent

theorem rewritten_of_replaceable (h : Replaceable m table newTable size) :
    Rewritten m (changeAt m xsdt index newTable) table (lengthOf m table) newTable size := by
  have hheader := h.header
  have hentry := (entryAt_cleared newTable hheader hslot).trans htable
  have hlength := lengthOf_cleared newTable hheader
  refine ⟨fun i hi hne => ?_, ?_, ?_, ?_, ?_⟩
  · simp only [changeAt, htable]
    rw [summedUp_other (by omega)]
    by_cases hin : i < lengthOf m table
    · exact cleared_inside hin hne
    · rw [cleared_outside (by omega) (by omega)]
      exact h.tail i (by omega) hi
  · simp only [changeAt, htable, lengthOf_summedUp, hlength]
    by_cases hshort : lengthOf m newTable ≤ checksumOffset
    · rw [byteSum_of_short hshort h.length]
      exact h.sum.resolve_left (Nat.not_lt.mpr hshort)
    · exact byteSum_of_long (Nat.lt_of_not_le hshort) hentry hlength
  · simpa [changeAt, htable] using within_start_iff.mpr h.source
  · simpa [changeAt, htable] using
      ⟨within_start_iff.mpr (Nat.le_refl (lengthOf m table)), within_byte_iff.mpr hheader⟩
  · simpa [changeAt, htable, hentry, hlength] using within_start_iff.mpr h.length

theorem rewritten_iff :
    Rewritten m (changeAt m xsdt index newTable) table (lengthOf m table) newTable size ↔
      Replaceable m table newTable size :=
  ⟨replaceable_of_rewritten htable hslot, rewritten_of_replaceable htable hslot⟩

end Entry

/-! ## A change behind the last entry -/

/-- What the stray copy and the stray checksum store is there already. -/
structure AlreadyThere (m : Memory) (xsdt index table newTable : Nat) : Prop where
  content : ∀ i < lengthOf m table, i ≠ checksumOffset → m (newTable + i) = m (table + i)
  checksum : m (table + checksumOffset) =
    calculateCheckSum8 (store m (table + checksumOffset) 0)
      (entryAt (store m (table + checksumOffset) 0) xsdt index) (lengthOf m table)

theorem cleared_of_content
    (h : ∀ i < lengthOf m table, i ≠ checksumOffset → m (newTable + i) = m (table + i)) :
    cleared m table newTable = store m (table + checksumOffset) 0 := by
  funext a
  by_cases hsum : a = table + checksumOffset
  · rw [hsum, cleared, store_same, store_same]
  · rw [store_other hsum]
    by_cases hin : table ≤ a ∧ a < table + lengthOf m table
    · obtain ⟨i, rfl⟩ := Nat.exists_eq_add_of_le hin.1
      rw [cleared_inside (by omega) (by omega), h i (by omega) (by omega)]
    · exact cleared_outside (by omega) hsum

theorem unchanged_iff :
    summedUp (cleared m table newTable) xsdt index table = m ↔
      AlreadyThere m xsdt index table newTable := by
  constructor
  · intro h
    have hcontent : ∀ i < lengthOf m table, i ≠ checksumOffset →
        m (newTable + i) = m (table + i) := by
      intro i hi hne
      have hsame := congrFun h (table + i)
      rwa [summedUp_other (by omega), cleared_inside hi hne] at hsame
    refine ⟨hcontent, ?_⟩
    have hsum := congrFun h (table + checksumOffset)
    rw [cleared_of_content hcontent, summedUp, store_same, lengthOf_store] at hsum
    exact hsum.symm
  · intro h
    rw [cleared_of_content h.content, summedUp, lengthOf_store, ← h.checksum]
    funext a
    by_cases hsum : a = table + checksumOffset
    · rw [hsum, store_same]
    · rw [store_other hsum, store_other hsum]

end Steps

/-! ## All changes -/

/-- The table of an entry and the XSDT do not overlap, and the XSDT does not wrap. -/
structure Apart (m : Memory) (xsdt index : Nat) : Prop where
  wraps : xsdt + lengthOf m xsdt ≤ 2 ^ 64
  disjoint : xsdt + lengthOf m xsdt ≤ entryAt m xsdt index ∨
    entryAt m xsdt index + lengthOf m (entryAt m xsdt index) ≤ xsdt

theorem Apart.slot {m : Memory} {xsdt index : Nat} (h : Apart m xsdt index)
    (hindex : index < entryTotal m xsdt) :
    Acpi.slot xsdt index + 8 ≤ entryAt m xsdt index ∨
      entryAt m xsdt index + lengthOf m (entryAt m xsdt index) ≤ Acpi.slot xsdt index := by
  have hwraps := h.wraps
  have hdisjoint := h.disjoint
  unfold entryTotal headerSize at hindex
  have hslot : Acpi.slot xsdt index = xsdt + headerSize + 8 * index := by
    unfold Acpi.slot headerSize
    exact Nat.mod_eq_of_lt (by omega)
  rw [hslot]
  unfold headerSize
  omega

/-- A change of an entry is sound exactly when the old table has a checksum and no more
bytes than the replacement, whose length is not larger and covers its checksum or needs
none, with nothing left to copy. Behind the last entry it is sound only by chance. -/
theorem changeAcpiTable_sound_iff {configTable : List ConfigurationTable} {m : Memory}
    {root index : Nat} (newTable size : Nat) (hroot : findRoot configTable = some root)
    (hapart : index < entryTotal m (xsdtAddress m root) → Apart m (xsdtAddress m root) index) :
    ChangeSound configTable m root index newTable size ↔
      if index < entryTotal m (xsdtAddress m root) then
        Replaceable m (entryAt m (xsdtAddress m root) index) newTable size
      else AlreadyThere m (xsdtAddress m root) index (entryAt m (xsdtAddress m root) index)
        newTable := by
  simp only [ChangeSound, changeAcpiTable_of_root hroot]
  by_cases hindex : index < entryTotal m (xsdtAddress m root)
  · rw [if_pos hindex, if_pos hindex]
    exact rewritten_iff rfl ((hapart hindex).slot hindex)
  · rw [if_neg hindex, if_neg hindex]
    exact unchanged_iff

/-- `UefiMain` passes a header of zeros, which can replace only tables that are not longer and
have zeros behind them up to its size. -/
theorem emptyTable_replaceable_iff {m : Memory} {table emptyTable : Nat}
    (hzero : ∀ i < headerSize, m (emptyTable + i) = 0) :
    Replaceable m table emptyTable headerSize ↔
      checksumOffset < lengthOf m table ∧ lengthOf m table ≤ headerSize ∧
        ∀ i, lengthOf m table ≤ i → i < headerSize → m (table + i) = 0 := by
  have hlength : lengthOf m emptyTable = 0 := by
    have hload : load 4 m (emptyTable + 4) = load 4 (ofBytes []) 0 := load_congr fun i hi => by
      rw [Nat.add_assoc]
      exact hzero (4 + i) (by unfold headerSize; omega)
    exact hload
  constructor
  · intro h
    exact ⟨h.header, h.source, fun i hi hsize => (h.tail i hi hsize).trans (hzero i hsize)⟩
  · rintro ⟨hheader, hsource, htail⟩
    refine ⟨hsource, hheader, by omega, Or.inr (by rw [hlength]; rfl), fun i hi hsize => ?_⟩
    rw [htail i hi hsize, hzero i hsize]

/-- An RSDP at 100, an XSDT at 200 with entries 300 and 400 for tables of 36 and 40 bytes,
and at 500 a header of 36 bytes with the given length in it. -/
def twoTables (newLength : UInt8) : Memory :=
  ofBytes [(124, 200), (204, 52), (236, 44), (237, 1), (244, 144), (245, 1), (304, 36),
    (404, 40), (504, newLength)]

theorem changeAcpiTable_sound_sameLength :
    ChangeSound [⟨.other 7, 0⟩, ⟨.acpi, 100⟩] (twoTables 36) 100 0 500 36 := by
  refine (changeAcpiTable_sound_iff 500 36 rfl fun _ => ⟨by decide, by decide⟩).mpr ?_
  rw [if_pos (by decide)]
  refine ⟨by decide, by decide, by decide, by decide, fun i hi hsize => ?_⟩
  have hlength : lengthOf (twoTables 36) (entryAt (twoTables 36)
      (xsdtAddress (twoTables 36) 100) 0) = 36 := by decide
  omega

/-- The header of zeros that `UefiMain` passes is shorter than the second table, so bytes
behind it are copied. -/
theorem emptyTable_not_sound :
    ¬ ChangeSound [⟨.acpi, 100⟩] (twoTables 0) 100 1 500 36 := by
  simp only [ChangeSound, @changeAcpiTable_of_root [⟨.acpi, 100⟩] 100 rfl]
  rw [if_pos (by decide)]
  intro h
  have hsource := ((rewritten_iff rfl (by decide)).mp h).source
  exact absurd hsource (by decide)

end OShm.Acpi
