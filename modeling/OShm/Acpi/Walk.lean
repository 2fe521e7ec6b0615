import OShm.Acpi.MyAcpi
import OShm.Lib.Descent

/-! # When the listing of the ACPI tables ends

`PrintHeader` calls itself for every table that a FACP points to, and takes any table with
that signature for one. It ends where these pointers do not lead back.
-/

namespace OShm.Acpi

open Relation OShm.Lib.FlatMemory OShm.Lib.Descent

/-- The tables for which `PrintHeader` calls itself. -/
def followed (m : Memory) (head : Nat) : List Nat :=
  if signatureOf m head = facpSignature then
    (facpPointers.map fun p => p.read m head).filter (· ≠ 0)
  else []

/-! ## `PrintHeader` -/

theorem printPointer_isSome (m : Memory) (print : Nat → Option (List Line)) (head : Nat)
    (p : FacpPointer) :
    (printPointer m print head p).isSome =
      (p.read m head = 0 || (print (p.read m head)).isSome) := by
  unfold printPointer
  split
  · next h => simp [h]
  · next h => simp [h]

theorem isSome_bind_const {α β : Type} {o : Option α} {f : α → Option β} {b : Bool}
    (h : ∀ a, (f a).isSome = b) : (o.bind f).isSome = (o.isSome && b) := by
  cases o with
  | none => rfl
  | some a => simp [h a]

/-- A call ends within a number of nested calls exactly when the recursion over the
pointers does. -/
theorem printHeader_isSome (m : Memory) (fuel head : Nat) (isRoot : Bool) :
    (printHeader m fuel head isRoot).isSome = ends (followed m) fuel head := by
  induction fuel generalizing head isRoot with
  | zero => rfl
  | succ fuel ih =>
      rw [printHeader, ends, followed]
      by_cases hfacp : signatureOf m head = facpSignature
      · rw [if_pos hfacp, if_pos hfacp]
        have hlast := fun (f : List Line → List Line) => isSome_bind_const
          (o := printPointer m (printHeader m fuel · false) head .xDsdt)
          (f := fun d => pure (f d)) (b := true) fun _ => rfl
        simp only [Option.bind_eq_bind]
        rw [isSome_bind_const fun a => isSome_bind_const fun b => isSome_bind_const fun c =>
          hlast fun d => headerLines m head isRoot ++ a ++ b ++ c ++ d]
        simp [printPointer_isSome, ih, facpPointers]
      · simp [hfacp]

theorem followed_lt {m : Memory} {a b : Nat} (h : b ∈ followed m a) : b < 256 ^ 8 := by
  unfold followed at h
  split at h
  · obtain ⟨hmem, -⟩ := List.mem_filter.mp h
    obtain ⟨p, -, rfl⟩ := List.mem_map.mp hmem
    have hfour := fun a => load_lt 4 m a
    have height := fun a => load_lt 8 m a
    cases p with
    | firmwareCtrl => exact (hfour _).trans (by decide)
    | dsdt => exact (hfour _).trans (by decide)
    | xFirmwareCtrl => exact height _
    | xDsdt => exact height _
  · cases h

theorem reached_finite (m : Memory) (a : Nat) :
    {b | ReflTransGen (fun x y => y ∈ followed m x) a b}.Finite := by
  refine ((Set.finite_lt_nat (256 ^ 8)).insert a).subset fun b hb => ?_
  rcases ReflTransGen.cases_tail hb with rfl | ⟨c, -, hcb⟩
  · exact Or.inl rfl
  · exact Or.inr (followed_lt hcb)

theorem printHeader_ends_iff (m : Memory) (head : Nat) (isRoot : Bool) :
    (∃ fuel, (printHeader m fuel head isRoot).isSome) ↔ Acyclic (followed m) head := by
  rw [← exists_ends_iff (reached_finite m head)]
  simp only [printHeader_isSome]

/-! ## The loop over the entries -/

theorem printEntries_isSome (m : Memory) (xsdt fuel count i : Nat) :
    (printEntries m xsdt fuel count i).isSome = true ↔
      ∀ j < count, ends (followed m) fuel (entryAt m xsdt (i + j)) = true := by
  induction count generalizing i with
  | zero => simp [printEntries]
  | succ count ih =>
      rw [printEntries]
      simp only [Option.bind_eq_bind]
      rw [isSome_bind_const fun lines => isSome_bind_const (b := true) fun rest => rfl]
      rw [Bool.and_true, Bool.and_eq_true, printHeader_isSome, ih, Nat.forall_lt_succ_left']
      simp [Nat.add_assoc, Nat.add_comm 1]

theorem exists_fuel {m : Memory} {xsdt count : Nat} (hheader : Acyclic (followed m) xsdt)
    (hentries : ∀ i < count, Acyclic (followed m) (entryAt m xsdt i)) :
    ∃ fuel, (printHeader m fuel xsdt false).isSome = true ∧
      (printEntries m xsdt fuel count 0).isSome = true := by
  have hall : ∀ a ∈ xsdt :: (List.range count).map (entryAt m xsdt),
      ∃ n, ends (followed m) n a = true := by
    intro a ha
    rw [exists_ends_iff (reached_finite m a)]
    rcases List.mem_cons.mp ha with rfl | ha
    · exact hheader
    · obtain ⟨i, hi, rfl⟩ := List.mem_map.mp ha
      exact hentries i (List.mem_range.mp hi)
  obtain ⟨fuel, hfuel⟩ := exists_all_ends hall
  rw [List.all_eq_true] at hfuel
  refine ⟨fuel, ?_, ?_⟩
  · rw [printHeader_isSome]
    exact hfuel xsdt List.mem_cons_self
  · refine (printEntries_isSome m xsdt fuel count 0).mpr fun j hj => hfuel _ ?_
    rw [Nat.zero_add]
    exact List.mem_cons_of_mem _ (List.mem_map_of_mem (List.mem_range.mpr hj))

theorem entries_printEntries {m : Memory} {xsdt fuel count i : Nat} {w : Walk}
    (h : printEntries m xsdt fuel count i = some w) :
    w.entries = (List.range' i count).map fun j => headerSize + 8 * j := by
  induction count generalizing i w with
  | zero =>
      obtain rfl : ⟨[], []⟩ = w := by simpa [printEntries] using h
      rfl
  | succ count ih =>
      rw [printEntries] at h
      simp only [Option.bind_eq_bind, Option.bind_eq_some_iff] at h
      obtain ⟨lines, -, rest, hrest, hw⟩ := h
      obtain rfl : _ = w := by simpa using hw
      simp [ih hrest, List.range'_succ]

/-! ## The whole listing -/

theorem entryCount_of_le {m : Memory} {head : Nat} (h : headerSize ≤ lengthOf m head) :
    entryCount (lengthOf m head) = (lengthOf m head - headerSize) / 8 := by
  have hlt : lengthOf m head < 2 ^ 32 := load_lt 4 m (head + 4)
  unfold entryCount headerSize at *
  omega

theorem entryCount_of_lt {length : Nat} (h : length < headerSize) : 0 < entryCount length := by
  unfold entryCount headerSize at *
  omega

/-- The listing ends, and every entry that it reads is inside the XSDT. -/
def WalkEnds (configTable : List ConfigurationTable) (m : Memory) : Prop :=
  ∃ fuel w, printAllAcpiTables configTable m fuel = some w ∧
    ∀ root, findRoot configTable = some root → ∀ o ∈ w.entries,
      o + 8 ≤ lengthOf m (xsdtAddress m root)

/-- The XSDT has room for its header, and from it and its entries no chain of FACP pointers
comes back to where it was. -/
structure Orderly (m : Memory) (xsdt : Nat) : Prop where
  length : headerSize ≤ lengthOf m xsdt
  header : Acyclic (followed m) xsdt
  entries : ∀ i < (lengthOf m xsdt - headerSize) / 8, Acyclic (followed m) (entryAt m xsdt i)

theorem printAllAcpiTables_of_root {configTable : List ConfigurationTable} {m : Memory}
    {root fuel : Nat} {w : Walk} (hroot : findRoot configTable = some root)
    (h : printAllAcpiTables configTable m fuel = some w) :
    (printHeader m fuel (xsdtAddress m root) false).isSome ∧
      ∃ body, printEntries m (xsdtAddress m root) fuel
          (entryCount (lengthOf m (xsdtAddress m root))) 0 = some body ∧
        w.entries = body.entries := by
  simp only [printAllAcpiTables, hroot, Option.bind_eq_bind, Option.bind_eq_some_iff] at h
  obtain ⟨head, hhead, body, hbody, hw⟩ := h
  obtain rfl : _ = w := by simpa using hw
  exact ⟨by simp [hhead], body, hbody, rfl⟩

theorem orderly_of_walkEnds {configTable : List ConfigurationTable} {m : Memory} {root : Nat}
    (hroot : findRoot configTable = some root) (h : WalkEnds configTable m) :
    Orderly m (xsdtAddress m root) := by
  obtain ⟨fuel, w, hw, hinside⟩ := h
  obtain ⟨hhead, body, hbody, hentries⟩ := printAllAcpiTables_of_root hroot hw
  have hread := entries_printEntries hbody
  -- a shorter XSDT wraps the count, and its entry 0 is already outside
  have hlength : headerSize ≤ lengthOf m (xsdtAddress m root) := by
    by_contra hlt
    have hcount := entryCount_of_lt (Nat.lt_of_not_le hlt)
    have hfirst : headerSize + 8 * 0 ∈ w.entries := by
      rw [hentries, hread]
      exact List.mem_map_of_mem (List.mem_range'_1.mpr ⟨Nat.le_refl 0, by omega⟩)
    have hbelow := hinside root hroot _ hfirst
    omega
  refine ⟨hlength, (printHeader_ends_iff m _ false).mp ⟨fuel, hhead⟩, fun i hi => ?_⟩
  have hsome : (printEntries m (xsdtAddress m root) fuel
      (entryCount (lengthOf m (xsdtAddress m root))) 0).isSome = true := by
    rw [hbody]
    rfl
  rw [printEntries_isSome, entryCount_of_le hlength] at hsome
  have hends := hsome i hi
  rw [Nat.zero_add, ← printHeader_isSome m fuel _ false] at hends
  exact (printHeader_ends_iff m _ false).mp ⟨fuel, hends⟩

theorem walkEnds_of_orderly {configTable : List ConfigurationTable} {m : Memory} {root : Nat}
    (hroot : findRoot configTable = some root) (h : Orderly m (xsdtAddress m root)) :
    WalkEnds configTable m := by
  have hcount := entryCount_of_le h.length
  obtain ⟨fuel, hhead, hbody⟩ := exists_fuel h.header (hcount ▸ h.entries)
  obtain ⟨head, hhead⟩ := Option.isSome_iff_exists.mp hhead
  obtain ⟨body, hbody⟩ := Option.isSome_iff_exists.mp hbody
  have hwalk : ∃ lines, printAllAcpiTables configTable m fuel = some ⟨lines, body.entries⟩ := by
    simp only [printAllAcpiTables, hroot, hhead, hbody, Option.bind_eq_bind, Option.bind_some]
    exact ⟨_, rfl⟩
  obtain ⟨lines, hwalk⟩ := hwalk
  refine ⟨fuel, _, hwalk, ?_⟩
  intro root' hroot' o ho
  obtain rfl : root = root' := Option.some.inj (hroot.symm.trans hroot')
  rw [show (Walk.mk lines body.entries).entries = body.entries from rfl,
    entries_printEntries hbody] at ho
  obtain ⟨i, hi, rfl⟩ := List.mem_map.mp ho
  have hi := (List.mem_range'_1.mp hi).2
  rw [Nat.zero_add, hcount] at hi
  have hlength := h.length
  omega

/-- The listing ends inside the XSDT exactly when there is no ACPI table, or the XSDT has
room for its header and the FACP pointers do not lead back. -/
theorem walkEnds_iff (configTable : List ConfigurationTable) (m : Memory) :
    WalkEnds configTable m ↔
      ∀ root, findRoot configTable = some root → Orderly m (xsdtAddress m root) := by
  constructor
  · exact fun h root hroot => orderly_of_walkEnds hroot h
  · intro h
    cases hroot : findRoot configTable with
    | none => exact ⟨0, ⟨[], []⟩, by simp [printAllAcpiTables, hroot], by simp⟩
    | some root => exact walkEnds_of_orderly hroot (h root hroot)

/-- An RSDP at 100, an XSDT at 200 with one entry, and a FACP at 300 that names itself as
its DSDT. -/
def selfDsdt : Memory :=
  ofBytes [(124, 200), (204, 44), (236, 44), (237, 1), (300, 0x46), (301, 0x41), (302, 0x43),
    (303, 0x50), (340, 44), (341, 1)]

theorem selfDsdt_never_ends : ¬ WalkEnds [⟨.acpi20, 100⟩] selfDsdt := by
  intro h
  have horderly := @orderly_of_walkEnds [⟨.acpi20, 100⟩] selfDsdt 100 rfl h
  have hcycle : 300 ∈ followed selfDsdt 300 := by decide
  exact horderly.entries 0 (by decide) 300 ReflTransGen.refl (TransGen.single hcycle)

end OShm.Acpi
