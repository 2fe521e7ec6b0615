import OShm.Acpi.Mytb
import OShm.Lib.FlatMemory

/-! # The UEFI application that lists and changes the ACPI tables

`PrintAllACPITables` and `ChangeACPITable` of `MyAcpi.c` over physical memory. Both take
the first configuration table of ACPI for the RSDP and go from there to the XSDT and its
entries.
-/

namespace OShm.Acpi

open OShm.Lib.CLayout OShm.Lib.FlatMemory

/-- The GUIDs of configuration tables, `gEfiAcpiTableGuid` and `gEfiAcpi20TableGuid` by
name. -/
inductive VendorGuid where
  | acpi
  | acpi20
  | other (n : Nat)
  deriving DecidableEq, Repr

structure ConfigurationTable where
  vendorGuid : VendorGuid
  vendorTable : Nat

/-- The loop over the configuration tables, up to the one it breaks at. -/
def findRoot : List ConfigurationTable → Option Nat
  | [] => none
  | c :: configTable =>
      if c.vendorGuid = .acpi ∨ c.vendorGuid = .acpi20 then some c.vendorTable
      else findRoot configTable

/-! ## Members of the tables -/

def xsdtAddress (m : Memory) (root : Nat) : Nat := load 8 m (root + 24)

def headerSize : Nat := 36

def signatureOf (m : Memory) (head : Nat) : Nat := load 4 m head

def lengthOf (m : Memory) (head : Nat) : Nat := load 4 m (head + 4)

def checksumOffset : Nat := 9

def oemIdAt (m : Memory) (a : Nat) : List Byte := (List.range 6).map fun i => m (a + i)

def slot (xsdt i : Nat) : Nat := (xsdt + headerSize + 8 * i) % 2 ^ 64

def entryAt (m : Memory) (xsdt i : Nat) : Nat := load 8 m (slot xsdt i)

/-- `EntryCount`: the `UINT32` length minus a `UINTN`, divided. -/
def entryCount (length : Nat) : Nat := (length + 2 ^ 64 - headerSize) % 2 ^ 64 / 8

def facpSignature : Nat := 0x50434146

inductive FacpPointer where
  | firmwareCtrl
  | dsdt
  | xFirmwareCtrl
  | xDsdt
  deriving DecidableEq, Repr

def FacpPointer.read (m : Memory) (facp : Nat) : FacpPointer → Nat
  | .firmwareCtrl => load 4 m (facp + 36)
  | .dsdt => load 4 m (facp + 40)
  | .xFirmwareCtrl => load 8 m (facp + 132)
  | .xDsdt => load 8 m (facp + 140)

def facpPointers : List FacpPointer := [.firmwareCtrl, .dsdt, .xFirmwareCtrl, .xDsdt]

/-! ## Printing -/

inductive Line where
  | rsdp (signature length : Nat) (oemId : List Byte) (checksum : Byte)
  | title (signature : Nat)
  | header (address length : Nat) (oemId : List Byte) (checksum : Byte)
  | notPresent (p : FacpPointer)
  deriving DecidableEq, Repr

def headerLines (m : Memory) (head : Nat) (isRoot : Bool) : List Line :=
  (if isRoot then [] else [.title (signatureOf m head)]) ++
    [.header head (lengthOf m head) (oemIdAt m (head + 10)) (m (head + checksumOffset))]

/-- What is done with one of the pointers, `print` being the call for a table. -/
def printPointer (m : Memory) (print : Nat → Option (List Line)) (head : Nat)
    (p : FacpPointer) : Option (List Line) :=
  if p.read m head = 0 then some [.notPresent p] else print (p.read m head)

/-- `PrintHeader`. The fuel is the number of nested calls. -/
def printHeader (m : Memory) : Nat → Nat → Bool → Option (List Line)
  | 0, _, _ => none
  | fuel + 1, head, isRoot =>
      if signatureOf m head = facpSignature then do
        let a ← printPointer m (printHeader m fuel · false) head .firmwareCtrl
        let b ← printPointer m (printHeader m fuel · false) head .dsdt
        let c ← printPointer m (printHeader m fuel · false) head .xFirmwareCtrl
        let d ← printPointer m (printHeader m fuel · false) head .xDsdt
        return headerLines m head isRoot ++ a ++ b ++ c ++ d
      else some (headerLines m head isRoot)

/-- The lines printed and the offsets in the XSDT at which entries were read. -/
structure Walk where
  lines : List Line
  entries : List Nat
  deriving DecidableEq, Repr

def printEntries (m : Memory) (xsdt fuel : Nat) : Nat → Nat → Option Walk
  | 0, _ => some ⟨[], []⟩
  | count + 1, i => do
      let lines ← printHeader m fuel (entryAt m xsdt i) false
      let rest ← printEntries m xsdt fuel count (i + 1)
      return ⟨lines ++ rest.lines, (headerSize + 8 * i) :: rest.entries⟩

def printAllAcpiTables (configTable : List ConfigurationTable) (m : Memory) (fuel : Nat) :
    Option Walk :=
  match findRoot configTable with
  | none => some ⟨[], []⟩
  | some root => do
      let xsdt := xsdtAddress m root
      let head ← printHeader m fuel xsdt false
      let body ← printEntries m xsdt fuel (entryCount (lengthOf m xsdt)) 0
      return ⟨.rsdp (load 8 m root) (load 4 m (root + 20)) (oemIdAt m (root + 9)) (m (root + 8)) ::
        head ++ body.lines, body.entries⟩

/-! ## Changing -/

/-- `CalculateCheckSum8` of EDK2: the two's complement of the sum of the bytes. -/
def calculateCheckSum8 (m : Memory) (a n : Nat) : Byte := -byteSum m a n

/-- Memory after a change, with the ranges read from the replacement, written and summed as
pairs of an address and a length. -/
structure Change where
  memory : Memory
  source : List (Nat × Nat)
  written : List (Nat × Nat)
  summed : List (Nat × Nat)

/-- `ChangeACPITable`; `newTable` is the address of the replacement. -/
def changeAcpiTable (configTable : List ConfigurationTable) (m : Memory) (index newTable : Nat) :
    Change :=
  match findRoot configTable with
  | none => ⟨m, [], [], []⟩
  | some root =>
      let xsdt := xsdtAddress m root
      let table := entryAt m xsdt index
      let length := lengthOf m table
      let m := copy m table newTable length
      let m := store m (table + checksumOffset) 0
      -- the entry and the length are read again, after the copy
      let entry := entryAt m xsdt index
      let newLength := lengthOf m table
      ⟨store m (table + checksumOffset) (calculateCheckSum8 m entry newLength),
        [(newTable, length)], [(table, length), (table + checksumOffset, 1)],
        [(entry, newLength)]⟩

end OShm.Acpi
