import OShm.Acpi.ChangeTable

/-! # The UEFI application that installs the table

`CalculateChecksum` and `UefiMain` of `MyAddAcpiApp.c`. The table is laid out in fresh
memory, its checksum byte is set to zero and then to the checksum of the whole table.
-/

namespace OShm.Acpi

open OShm.Lib.CLayout OShm.Lib.FlatMemory

/-! ## The checksum -/

def checksumLoop (m : Memory) (buffer : Nat) : Nat → Nat → UInt8 → UInt8
  | 0, _, sum => sum
  | n + 1, index, sum =>
      checksumLoop m buffer n (index + 1) (sum.toNat + (m (buffer + index)).toNat).toUInt8

/-- `CalculateChecksum`. The sum is at most `0xFF`, so that the subtraction stays above zero
and only the last cast can cut. -/
def calculateChecksum (m : Memory) (buffer size : Nat) : UInt8 :=
  (0xFF - (checksumLoop m buffer size 0 0).toNat + 1).toUInt8

theorem checksumLoop_byteSum (m : Memory) (buffer n index : Nat) :
    checksumLoop m buffer n index (byteSum m buffer index) = byteSum m buffer (index + n) := by
  induction n generalizing index with
  | zero => rfl
  | succ n ih =>
      have hnext : ((byteSum m buffer index).toNat + (m (buffer + index)).toNat).toUInt8 =
          byteSum m buffer (index + 1) := by
        rw [byteSum, ← UInt8.toNat_inj]
        simp
      rw [checksumLoop, hnext, ih, Nat.add_right_comm, Nat.add_assoc]

/-- The two packages compute the same checksum. -/
theorem calculateChecksum_eq (m : Memory) (buffer size : Nat) :
    calculateChecksum m buffer size = calculateCheckSum8 m buffer size := by
  have hloop : checksumLoop m buffer size 0 0 = byteSum m buffer size := by
    have h := checksumLoop_byteSum m buffer size 0
    rwa [Nat.zero_add] at h
  have hneg : ∀ x : UInt8, (0xFF - x.toNat + 1).toUInt8 = -x := by
    intro x
    have hx : x.toNat < 256 := x.toNat_lt
    rw [← UInt8.toNat_inj, UInt8.toNat_neg]
    simp only [UInt8.size, Nat.toUInt8_eq, UInt8.toNat_ofNat']
    omega
  rw [calculateChecksum, hloop, hneg]
  rfl

/-- The byte `c` of the buffer is set to zero, then to the checksum. -/
def putChecksum (m : Memory) (buffer size c : Nat) : Memory :=
  let m := store m (buffer + c) 0
  store m (buffer + c) (calculateChecksum m buffer size)

theorem putChecksum_byte (m : Memory) (buffer size c : Nat) :
    putChecksum m buffer size c (buffer + c) = -byteSum (store m (buffer + c) 0) buffer size := by
  rw [putChecksum, store_same, calculateChecksum_eq, calculateCheckSum8]

theorem putChecksum_eq_store (m : Memory) (buffer size c : Nat) :
    putChecksum m buffer size c =
      store m (buffer + c) (putChecksum m buffer size c (buffer + c)) := by
  rw [putChecksum, store_same, store_store]

theorem byteSum_putChecksum (m : Memory) (buffer : Nat) {size c : Nat} (hc : c < size) :
    byteSum (putChecksum m buffer size c) buffer size = 0 := by
  rw [putChecksum_eq_store, byteSum_store_eq_zero_iff hc, putChecksum_byte]

/-- The checksum makes the bytes of the buffer sum up to 0 modulo 256, no other byte in its
place does, and the finished buffer has the checksum 0. -/
theorem putChecksum_law (m : Memory) (buffer size c : Nat) (hc : c < size) :
    (∑ i ∈ Finset.range size, (putChecksum m buffer size c (buffer + i)).toNat) % 256 = 0 ∧
      (∀ v : UInt8,
        (∑ i ∈ Finset.range size, (store m (buffer + c) v (buffer + i)).toNat) % 256 = 0 →
          v = putChecksum m buffer size c (buffer + c)) ∧
      calculateChecksum (putChecksum m buffer size c) buffer size = 0 := by
  have hsum := byteSum_putChecksum m buffer hc
  refine ⟨byteSum_eq_zero_iff.mp hsum, ?_, ?_⟩
  · intro v hv
    rw [putChecksum_byte]
    exact (byteSum_store_eq_zero_iff hc).mp (byteSum_eq_zero_iff.mpr hv)
  · rw [calculateChecksum_eq, calculateCheckSum8, hsum]
    rfl

def threeBytes : Memory := ofBytes [(0, 200), (1, 7), (2, 100)]

theorem putChecksum_law_threeBytes :
    putChecksum threeBytes 0 3 1 1 = 212 ∧
      (∑ i ∈ Finset.range 3, (putChecksum threeBytes 0 3 1 (0 + i)).toNat) % 256 = 0 ∧
      calculateChecksum (putChecksum threeBytes 0 3 1) 0 3 = 0 := by
  obtain ⟨hsum, _, hagain⟩ := putChecksum_law threeBytes 0 3 1 (by decide)
  exact ⟨by decide, hsum, hagain⟩

/-! ## The table -/

/-- `SIGNATURE_32` and `SIGNATURE_64`: the first character in the lowest byte. -/
def signature (text : String) : Nat :=
  text.toList.foldr (fun ch rest => ch.toNat + 256 * rest) 0

/-- `CopyMem` of `n` characters of a literal into zeroed memory. -/
def copyMem (size : Nat) (text : String) (n : Nat) : Vector Byte size :=
  Vector.ofFn fun i => ((text.toList.take n).map fun ch => ch.toNat.toUInt8).getD i 0

def filledTable : MyAddAcpiTable where
  header :=
    { signature := (signature "MYTB").toUInt32
      length := 112
      revision := 1
      checksum := 0
      oemId := copyMem 6 "MYOEM " 6
      oemTableId := (signature "MYACPITB").toUInt64
      oemRevision := 1
      creatorId := (signature "MYID").toUInt32
      creatorRevision := 1 }
  myData1 := 0x12345678
  myData2 := 0x8877665544332211
  myString := copyMem 64 "This is my custom ACPI table for storing information" 50

def MyAddAcpiTable.withChecksum (t : MyAddAcpiTable) (v : Byte) : MyAddAcpiTable :=
  { t with header := { t.header with checksum := v } }

theorem bytes_set_checksum (t : MyAddAcpiTable) (v : Byte) :
    t.bytes.set checksumOffset v = (t.withChecksum v).bytes := by
  simp [MyAddAcpiTable.bytes, MyAddAcpiTable.members, DescriptionHeader.bytes,
    DescriptionHeader.members, MyAddAcpiTable.withChecksum, image, Packing.align, roundUp,
    checksumOffset]

theorem filledTable_bytes_length : filledTable.bytes.length = 112 := by decide

abbrev EfiStatus := Nat

/-- The answers of the boot services and of the ACPI table protocol, an error or the result. -/
structure Services where
  locateProtocol : Except EfiStatus Unit
  allocateZeroPool : Option Nat
  installAcpiTable : Except EfiStatus Unit

def efiOutOfResources : EfiStatus := 2 ^ 63 + 9

/-- `UefiMain`, to the bytes of the table that was installed. -/
def uefiMain (S : Services) (m : Memory) : Except EfiStatus (List Byte) × Memory :=
  match S.locateProtocol with
  | .error status => (.error status, m)
  | .ok () =>
      match S.allocateZeroPool with
      | none => (.error efiOutOfResources, m)
      | some myTable =>
          let m := storeBytes m myTable filledTable.bytes
          let m := putChecksum m myTable (lengthOf m myTable) checksumOffset
          match S.installAcpiTable with
          | .error status => (.error status, m)
          | .ok () => (.ok (bytesAt m myTable (lengthOf m myTable)), m)

theorem lengthOf_filledTable (m : Memory) (a : Nat) :
    lengthOf (storeBytes m a filledTable.bytes) a = filledTable.bytes.length := by
  have hbytes : lengthOf (storeBytes m a filledTable.bytes) a =
      load 4 (fun i => filledTable.bytes.getD i 0) 4 := by
    refine load_congr fun i hi => ?_
    rw [Nat.add_assoc]
    refine storeBytes_inside ?_
    rw [filledTable_bytes_length]
    omega
  rw [hbytes, filledTable_bytes_length]
  decide

theorem lengthOf_putChecksum (m : Memory) (table size : Nat) :
    lengthOf (putChecksum m table size checksumOffset) table = lengthOf m table := by
  rw [putChecksum, lengthOf_store, lengthOf_store]

theorem uefiMain_ok {S : Services} {m : Memory} {bytes : List Byte}
    (h : (uefiMain S m).1 = .ok bytes) :
    ∃ a, S.allocateZeroPool = some a ∧
      bytes = bytesAt (putChecksum (storeBytes m a filledTable.bytes) a filledTable.bytes.length
        checksumOffset) a filledTable.bytes.length := by
  unfold uefiMain at h
  split at h
  · cases h
  · split at h
    · cases h
    · rename_i a ha
      split at h
      · cases h
      · cases h
        exact ⟨a, ha, by rw [lengthOf_putChecksum, lengthOf_filledTable]⟩

theorem uefiMain_installed {S : Services} {m : Memory} {bytes : List Byte}
    (h : (uefiMain S m).1 = .ok bytes) :
    (∃ v, bytes = (filledTable.withChecksum v).bytes) ∧
      (∑ i ∈ Finset.range bytes.length, (bytes.getD i 0).toNat) % 256 = 0 := by
  obtain ⟨a, _, rfl⟩ := uefiMain_ok h
  constructor
  · refine ⟨calculateChecksum (store (storeBytes m a filledTable.bytes) (a + checksumOffset) 0) a
      filledTable.bytes.length, ?_⟩
    rw [putChecksum, bytesAt_store, bytesAt_store, bytesAt_storeBytes, List.set_set,
      bytes_set_checksum]
  · have hoffset : checksumOffset < filledTable.bytes.length := by
      rw [filledTable_bytes_length]
      decide
    rw [bytesAt_length, Finset.sum_congr rfl fun i hi =>
      congrArg UInt8.toNat (bytesAt_getD (Finset.mem_range.mp hi))]
    exact byteSum_eq_zero_iff.mp (byteSum_putChecksum _ a hoffset)

/-- The attribute shows the 50 characters that were copied. -/
theorem uefiMain_shown {S : Services} {m : Memory} {bytes buf : List Byte}
    (h : (uefiMain S m).1 = .ok bytes) (hbuf : buf.length = Vdso.pageSize) :
    mytbShow (some bytes) buf = (50, filledTable.text ++ 0 :: buf.drop 51) := by
  obtain ⟨⟨v, rfl⟩, _⟩ := uefiMain_installed h
  have htext : (filledTable.withChecksum v).text = filledTable.text := rfl
  have hlen : filledTable.text.length = 50 := by decide
  rw [mytbShow_eq _ hbuf, htext, hlen]
  rfl

end OShm.Acpi
