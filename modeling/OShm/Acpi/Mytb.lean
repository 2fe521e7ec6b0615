import Mathlib.Algebra.Group.Nat.Defs
import OShm.Lib.CLayout
import OShm.Kernel.Task
import OShm.Vdso.Vtask

/-! # The MYTB table from firmware to `/sys/kernel/mytb`

The UEFI application lays the table out byte packed; the kernel module reads it through a
structure of its own with natural alignment. Both start with the packed ACPI header.
-/

namespace OShm.Acpi

open OShm.Lib.CLayout OShm.Lib.ByteFile OShm.Kernel

abbrev Byte := UInt8

def enodev : Errno := 19

def littleEndian (size value : Nat) : List Byte :=
  (List.range size).map fun i => (value / 256 ^ i % 256).toUInt8

@[simp] theorem littleEndian_length (size value : Nat) :
    (littleEndian size value).length = size := by
  simp [littleEndian]

def char : CType := scalar 1 (by decide)
def u8 : CType := scalar 1 (by decide)
def u32 : CType := scalar 4 (by decide)
def u64 : CType := scalar 8 (by decide)

/-! ## The firmware's side -/

structure DescriptionHeader where
  signature : UInt32
  length : UInt32
  revision : UInt8
  checksum : UInt8
  oemId : Vector Byte 6
  oemTableId : UInt64
  oemRevision : UInt32
  creatorId : UInt32
  creatorRevision : UInt32

def DescriptionHeader.members (h : DescriptionHeader) : List (CType × List Byte) :=
  [(u32, littleEndian 4 h.signature.toNat), (u32, littleEndian 4 h.length.toNat),
    (u8, [h.revision]), (u8, [h.checksum]), (array u8 6, h.oemId.toList),
    (u64, littleEndian 8 h.oemTableId.toNat), (u32, littleEndian 4 h.oemRevision.toNat),
    (u32, littleEndian 4 h.creatorId.toNat), (u32, littleEndian 4 h.creatorRevision.toNat)]

/-- The header is byte packed on both sides. -/
def headerType : CType := struct .bytes [u32, u32, u8, u8, array u8 6, u64, u32, u32, u32]

def DescriptionHeader.bytes (h : DescriptionHeader) : List Byte := image .bytes 0 0 h.members

structure MyAddAcpiTable where
  header : DescriptionHeader
  myData1 : UInt32
  myData2 : UInt64
  myString : Vector Byte 64

def MyAddAcpiTable.members (t : MyAddAcpiTable) : List (CType × List Byte) :=
  [(headerType, t.header.bytes), (u32, littleEndian 4 t.myData1.toNat),
    (u64, littleEndian 8 t.myData2.toNat), (array char 64, t.myString.toList)]

def MyAddAcpiTable.bytes (t : MyAddAcpiTable) : List Byte := image .bytes 0 0 t.members

/-- The bytes of the string before its first NUL, all of them when there is none. -/
def MyAddAcpiTable.text (t : MyAddAcpiTable) : List Byte := t.myString.toList.takeWhile (· ≠ 0)

/-! ## The kernel's side -/

/-- The members of `struct my_acpi_table`. -/
def myAcpiTable : List CType := [headerType, u32, u64, array char 64]

/-- `offsetof(struct my_acpi_table, my_string)`. -/
def myStringOffset : Nat := (offsets .natural 0 myAcpiTable).getD 3 0

def strnlen (s : List Byte) (max : Nat) : Nat := ((s.take max).takeWhile (· ≠ 0)).length

def memcpy (dst src : List Byte) (n : Nat) : List Byte := src.take n ++ dst.drop n

/-- `mytb_show` on the table `acpi_get_table` finds, if any: the returned length and the
page of the attribute. -/
def mytbShow (table : Option (List Byte)) (buf : List Byte) : Int × List Byte :=
  match table with
  | none => (-(enodev : Int), buf)
  | some mytb =>
      let myString := mytb.drop myStringOffset
      let len := strnlen myString 64
      let buf := if len > 0 then memcpy buf myString len else buf
      let buf := if len < Vdso.pageSize then buf.set len 0 else buf
      (len, buf)

/-! ## Agreement -/

/-- Natural alignment leaves no gap behind the packed header. -/
theorem offsets_agree : offsets .bytes 0 myAcpiTable = offsets .natural 0 myAcpiTable := by
  decide

theorem header_bytes_length (h : DescriptionHeader) : h.bytes.length = headerType.size := by
  have hsize : headerType.size = 36 := by decide
  rw [hsize]
  simp [DescriptionHeader.bytes, DescriptionHeader.members, image, Packing.align, roundUp, array,
    u8, u32, u64, scalar]

theorem members_length (t : MyAddAcpiTable) : ∀ m ∈ t.members, m.2.length = m.1.size := by
  intro m hm
  simp only [MyAddAcpiTable.members, List.mem_cons, List.not_mem_nil, or_false] at hm
  rcases hm with rfl | rfl | rfl | rfl
  · exact header_bytes_length t.header
  · exact littleEndian_length 4 _
  · exact littleEndian_length 8 _
  · simp [array, char, scalar]

theorem readAt_member (t : MyAddAcpiTable) {i o : Nat} {c : CType} {v : List Byte}
    (hm : t.members[i]? = some (c, v)) (ho : (offsets .natural 0 myAcpiTable)[i]? = some o) :
    readAt t.bytes o c.size = v := by
  rw [← offsets_agree] at ho
  exact (readAt_image .bytes 0 (members_length t) hm ho).2

theorem readAt_myString (t : MyAddAcpiTable) :
    (t.bytes.drop myStringOffset).take 64 = t.myString.toList :=
  readAt_member t (i := 3) rfl (by decide)

theorem take_strnlen (s : List Byte) (max : Nat) :
    s.take (strnlen s max) = (s.take max).takeWhile (· ≠ 0) := by
  have hprefix : (s.take max).takeWhile (· ≠ 0) <+: s :=
    (List.takeWhile_prefix _).trans (List.take_prefix max s)
  exact (List.prefix_iff_eq_take.mp hprefix).symm

theorem mytbShow_eq (t : MyAddAcpiTable) {buf : List Byte} (hbuf : buf.length = Vdso.pageSize) :
    mytbShow (some t.bytes) buf =
      ((t.text.length : Int), t.text ++ 0 :: buf.drop (t.text.length + 1)) := by
  have htake : (t.bytes.drop myStringOffset).take
      (strnlen (t.bytes.drop myStringOffset) 64) = t.text := by
    rw [take_strnlen, readAt_myString]
    rfl
  have hlen : strnlen (t.bytes.drop myStringOffset) 64 = t.text.length := by
    rw [strnlen, readAt_myString]
    rfl
  have hle : t.text.length ≤ 64 := by
    have hsub : t.text.length ≤ t.myString.toList.length := (List.takeWhile_sublist _).length_le
    simpa using hsub
  have hroom : t.text.length < buf.length := by
    rw [hbuf, Vdso.pageSize]
    omega
  have hcopy : (if t.text.length > 0 then memcpy buf (t.bytes.drop myStringOffset) t.text.length
      else buf) = t.text ++ buf.drop t.text.length := by
    split
    · rw [memcpy, ← hlen, htake, hlen]
    · next h =>
        have hnil : t.text = [] := List.length_eq_zero_iff.mp (by omega)
        rw [hnil]
        rfl
  have hpage : t.text.length < Vdso.pageSize := hbuf ▸ hroom
  simp only [mytbShow, hlen, hcopy, if_pos hpage]
  rw [List.set_append_right _ _ (Nat.le_refl _), Nat.sub_self, List.drop_eq_getElem_cons hroom,
    List.set_cons_zero]

/-- The attribute shows the string up to its first NUL, whatever else the table holds. -/
theorem mytbShow_string (t : MyAddAcpiTable) {buf : List Byte} (hbuf : buf.length = Vdso.pageSize) :
    mytbShow (some t.bytes) buf =
        ((t.text.length : Int), t.text ++ 0 :: buf.drop (t.text.length + 1)) ∧
      ∀ t' : MyAddAcpiTable, t'.myString = t.myString →
        mytbShow (some t'.bytes) buf = mytbShow (some t.bytes) buf := by
  refine ⟨mytbShow_eq t hbuf, ?_⟩
  intro t' h
  have htext : t'.text = t.text := by rw [MyAddAcpiTable.text, h, MyAddAcpiTable.text]
  rw [mytbShow_eq t hbuf, mytbShow_eq t' hbuf, htext]

def fullTable : MyAddAcpiTable where
  header := ⟨0x4254594d, 112, 1, 0, Vector.replicate 6 32, 0, 1, 0, 1⟩
  myData1 := 0x12345678
  myData2 := 0x8877665544332211
  myString := Vector.replicate 64 65

theorem mytbShow_string_full :
    mytbShow (some fullTable.bytes) (List.replicate Vdso.pageSize 0) =
      (64, List.replicate 64 65 ++ 0 :: List.replicate (Vdso.pageSize - 65) 0) := by
  have htext : fullTable.text = List.replicate 64 65 := by decide
  have hbuf : (List.replicate Vdso.pageSize (0 : Byte)).length = Vdso.pageSize :=
    List.length_replicate ..
  have h := (mytbShow_string fullTable hbuf).1
  simp only [htext, List.length_replicate, List.drop_replicate] at h
  exact h

end OShm.Acpi
