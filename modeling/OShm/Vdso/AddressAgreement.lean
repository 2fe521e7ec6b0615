import OShm.Vdso.MapVdso

/-! # The task structure seen from user space

`map_vdso` decides where the vtask pages are, `vtask_fault` which frames they show, and
`__vdso_get_task_struct_info` finds the pages again from the address of `vdso_data`.
All three have to mean the same byte.
-/

namespace OShm.Vdso

open OShm.Kernel

/-- The page behind a user address in the vtask mapping, faulted in by the task at
`task`, which is the only one in its `mm`. -/
def userPage (L : TaskLayout) (task : Addr) (areas : List Vma) (u : ULong) : Option Page :=
  match areas.find? fun v => v.start.toNat ≤ u.toNat ∧ u.toNat < v.stop with
  | none => none
  | some v =>
      if v.kind = .vtask then taskPage L task ((u - v.start).toNat / pageSize) else none

def userPhys (L : TaskLayout) (task : Addr) (areas : List Vma) (u : ULong) : Option Nat :=
  match userPage L task areas u with
  | some (.frame pfn) => some (frameAddr pfn u.toNat)
  | _ => none

/-- `__vdso_get_task_struct_info`; `none` is a signal on the way. `mem` reads an `int`
from physical memory. -/
def getTaskStructInfo (L : TaskLayout) (task : Addr) (areas : List Vma) (mem : Nat → Nat)
    (vdata : ULong) (infoNull : Bool) : Option (Except Errno TaskInfo) :=
  if infoNull then some (.error einval)
  else
    let base := vtaskBase vdata
    if base = 0 then some (.error einval)
    else
      match userPage L task areas (base + (vtaskLen - BitVec.ofNat 64 pageSize)) with
      | some (.metadata md) =>
          if md.magic ≠ taskMagic then some (.error einval)
          else
            let ptr := base + BitVec.ofNat 64 md.taskOffset
            match userPhys L task areas (ptr + BitVec.ofNat 64 L.pid) with
            | some a => some (.ok ⟨mem a, ptr⟩)
            | none => none
      | _ => none

theorem userPage_vtask (L : TaskLayout) (task : Addr) {v : Vma} (areas : List Vma) {u : ULong}
    {off : Nat} (hkind : v.kind = .vtask) (hu : u.toNat = v.start.toNat + off)
    (hoff : off < v.len.toNat) :
    userPage L task (v :: areas) u = taskPage L task (off / pageSize) := by
  have hin : v.start.toNat ≤ u.toNat ∧ u.toNat < v.stop := by
    unfold Vma.stop
    omega
  have hsub : (u - v.start).toNat = off := by
    rw [BitVec.toNat_sub_of_le]
    · omega
    · rw [BitVec.le_def]
      omega
  unfold userPage
  rw [List.find?_cons_of_pos (by simpa using hin)]
  simp only [hkind, if_true, hsub]

theorem userPhys_task (L : TaskLayout) (task : Nat) {v : Vma} (areas : List Vma) {u : ULong}
    {k : Nat} (hkind : v.kind = .vtask) (hlen : v.len = vtaskLen) (hpage : pageSize ∣ v.start.toNat)
    (hu : u.toNat = v.start.toNat + (task % pageSize + k)) (hk : k < L.size) :
    userPhys L task (v :: areas) u = some (task + k) := by
  have hsize := L.size_le
  have hin : task % pageSize + k < v.len.toNat := by
    rw [hlen, vtaskLen_toNat]
    simp only [pageSize] at hsize ⊢
    omega
  have hframe : (task % pageSize + k) / pageSize < metadataPgoff := by
    simp only [metadataPgoff, vtaskSize, vvarTaskStructNrPages, pageSize] at hsize ⊢
    omega
  unfold userPhys
  rw [userPage_vtask L task areas hkind hu hin, taskPage_frame L task hframe]
  simp only [frameAddr, pageSize, Option.some.injEq] at hpage hu ⊢
  omega

/-- The user side gets from any address in the first vvar page to the vtask pages. -/
theorem vtaskBase_of_vvar {base : ULong} {off : Nat} (hpage : pageSize ∣ base.toNat)
    (hle : base.toNat + 24576 ≤ 2 ^ 56) (hoff : off < pageSize) :
    vtaskBase (base + vtaskLen + BitVec.ofNat 64 off) = base := by
  have hvdata : (base + vtaskLen + BitVec.ofNat 64 off).toNat = base.toNat + 24576 + off := by
    simp only [pageSize] at hoff
    rw [BitVec.toNat_add, BitVec.toNat_add, vtaskLen_toNat, BitVec.toNat_ofNat]
    omega
  have hround : ((base + vtaskLen + BitVec.ofNat 64 off) >>> 12 <<< 12).toNat =
      base.toNat + 24576 := by
    simp only [pageSize] at hpage hoff
    rw [BitVec.toNat_shiftLeft, BitVec.toNat_ushiftRight, hvdata, Nat.shiftLeft_eq,
      Nat.shiftRight_eq_div_pow]
    omega
  apply BitVec.eq_of_toNat_eq
  unfold vtaskBase
  have hlen : (BitVec.ofNat 64 (vvarTaskStructNrPages * pageSize)).toNat = 24576 := rfl
  rw [BitVec.toNat_sub_of_le, hround, hlen]
  · omega
  · rw [BitVec.le_def, hround, hlen]
    omega

theorem taskPtr_toNat (L : TaskLayout) (task : Nat) {base : ULong} {k : Nat}
    (hle : base.toNat + 24576 ≤ 2 ^ 56) (hk : k < L.size) :
    (base + BitVec.ofNat 64 (task % pageSize) + BitVec.ofNat 64 k).toNat =
      base.toNat + (task % pageSize + k) := by
  have hsize := L.size_le
  simp only [pageSize] at hsize ⊢
  rw [BitVec.toNat_add, BitVec.toNat_add, BitVec.toNat_ofNat, BitVec.toNat_ofNat]
  omega

theorem getTaskStructInfo_eq (L : TaskLayout) (task : Nat) (areas : List Vma) (mem : Nat → Nat)
    {base : ULong} {off : Nat} (hpage : pageSize ∣ base.toNat)
    (hle : base.toNat + 24576 ≤ 2 ^ 56) (hoff : off < pageSize) (hne : base ≠ 0) :
    getTaskStructInfo L task (⟨base, vtaskLen, .vtask⟩ :: areas) mem
        (base + vtaskLen + BitVec.ofNat 64 off) false =
      some (.ok ⟨mem (task + L.pid), base + BitVec.ofNat 64 (task % pageSize)⟩) := by
  have hmeta : userPage L task (⟨base, vtaskLen, .vtask⟩ :: areas)
      (base + (vtaskLen - BitVec.ofNat 64 pageSize)) =
        some (.metadata ⟨taskMagic, task % pageSize, L.size⟩) := by
    have hat : (base + (vtaskLen - BitVec.ofNat 64 pageSize)).toNat = base.toNat + 20480 := by
      have hlast : (vtaskLen - BitVec.ofNat 64 pageSize).toNat = 20480 := rfl
      rw [BitVec.toNat_add, hlast]
      omega
    have hin : 20480 < vtaskLen.toNat := by decide
    rw [userPage_vtask L task areas rfl hat hin]
    exact taskPage_metadata L task
  have hpid : userPhys L task (⟨base, vtaskLen, .vtask⟩ :: areas)
      (base + BitVec.ofNat 64 (task % pageSize) + BitVec.ofNat 64 L.pid) =
        some (task + L.pid) := by
    have hlt : L.pid < L.size := by
      have hle := L.pid_le
      omega
    exact userPhys_task L task areas rfl rfl hpage (taskPtr_toNat L task hle hlt) hlt
  simp only [getTaskStructInfo, Bool.false_eq_true, if_false, vtaskBase_of_vvar hpage hle hoff,
    if_neg hne, hmeta, ne_eq, not_true_eq_false, hpid]

theorem mapVdso_success {M : MmOps} {image : VdsoImage} {hint : ULong} {mm : Mm}
    (hbase : isErrValue (M.getUnmappedArea mm.areas hint image.mapLen) = false)
    (hret : (mapVdso M image hint false mm).2 = 0) : (mapVdso M image hint false mm).1 =
      mapped image (M.getUnmappedArea mm.areas hint image.mapLen + vtaskLen) mm := by
  have hmap : MapsOrRollsBack M image hint mm := mapsOrRollsBack_of_base hbase
  simp only [MapsOrRollsBack, hbase, Bool.false_eq_true, if_false] at hmap
  rw [hmap] at hret ⊢
  cases hfail : installFailure M image _ mm.areas with
  | none => rfl
  | some e =>
      have hzero : e = 0 := by simpa [hfail] using hret
      exact absurd hzero (installFailure_ne_zero hfail)

/-- For every range that was found: the three mappings lie side by side and fill it, and
the structure a lone task is pointed at is its own, byte for byte. -/
theorem vtask_address_agreement (M : MmOps) (image : VdsoImage) (hint : ULong) (mm : Mm)
    (L : TaskLayout) (task : Nat) (mem : Nat → Nat) {base : ULong}
    (hgua : M.getUnmappedArea mm.areas hint image.mapLen = base)
    (hbase : isErrValue base = false) (hret : (mapVdso M image hint false mm).2 = 0) :
    ∃ vtask vvar text : Vma,
      (mapVdso M image hint false mm).1.areas = vtask :: vvar :: text :: mm.areas ∧
      (vtask.kind = .vtask ∧ vvar.kind = .vvar ∧ text.kind = .vdso) ∧
      (vtask.Disjoint vvar ∧ vtask.Disjoint text ∧ vvar.Disjoint text) ∧
      (vtask.start = base ∧ vvar.start.toNat = vtask.stop ∧ text.start.toNat = vvar.stop ∧
        text.stop = base.toNat + image.mapLen.toNat) ∧
      ∀ off < pageSize,
        (base ≠ 0 → ∃ info, getTaskStructInfo L task (mapVdso M image hint false mm).1.areas mem
          (vvar.start + BitVec.ofNat 64 off) false = some (.ok info)) ∧
        ∀ info, getTaskStructInfo L task (mapVdso M image hint false mm).1.areas mem
            (vvar.start + BitVec.ofNat 64 off) false = some (.ok info) →
          ∀ k < L.size, userPhys L task (mapVdso M image hint false mm).1.areas
            (info.taskStructPtr + BitVec.ofNat 64 k) = some (task + k) := by
  subst hgua
  have hfits := M.fits image hbase
  rw [mapVdso_success hbase hret]
  generalize M.getUnmappedArea mm.areas hint image.mapLen = base at *
  have hvtask := vtaskArea_eq base
  refine ⟨vtaskArea (base + vtaskLen), image.vvarArea (base + vtaskLen),
    image.textArea (base + vtaskLen), rfl, ⟨rfl, rfl, rfl⟩, ⟨?_, ?_, ?_⟩,
    ⟨by rw [hvtask], hfits.vvar_start, hfits.text_start, hfits.text_stop⟩, ?_⟩
  · exact Or.inl (Nat.le_of_eq hfits.vvar_start.symm)
  · refine Or.inl ?_
    rw [hfits.text_start, ← hfits.vvar_start]
    exact Nat.le_add_right _ _
  · exact Or.inl (Nat.le_of_eq hfits.text_start.symm)
  · intro off hoff
    have hcall := @getTaskStructInfo_eq L task (image.vvarArea (base + vtaskLen) ::
      image.textArea (base + vtaskLen) :: mm.areas) mem base off hfits.page hfits.room hoff
    simp only [mapped, hvtask]
    constructor
    · intro hne
      exact ⟨_, hcall hne⟩
    · intro info hinfo k hk
      by_cases hne : base = 0
      · have hzero := vtaskBase_of_vvar hfits.page hfits.room hoff
        simp only [getTaskStructInfo, VdsoImage.vvarArea, Bool.false_eq_true, if_false, hzero,
          if_pos hne, Option.some.injEq, reduceCtorEq] at hinfo
      · have hptr : info.taskStructPtr = base + BitVec.ofNat 64 (task % pageSize) := by
          have hsame := (hcall hne).symm.trans hinfo
          simp only [Option.some.injEq, Except.ok.injEq] at hsame
          rw [← hsame]
        rw [hptr]
        exact userPhys_task L task _ rfl rfl hfits.page (taskPtr_toNat L task hfits.room hk) hk

def roomyOps : MmOps := plainOps 0x10000000 (Or.inl (by decide)) (Or.inl (by decide))

theorem vtask_address_agreement_roomy :
    (mapVdso roomyOps onePage 0 false emptyMm).2 = 0 ∧
    ∃ vtask vvar text : Vma,
      (mapVdso roomyOps onePage 0 false emptyMm).1.areas = [vtask, vvar, text] ∧
      vtask.start = 0x10000000 ∧ text.stop = 0x10000000 + 45056 := by
  have hret : (mapVdso roomyOps onePage 0 false emptyMm).2 = 0 := by decide
  obtain ⟨vtask, vvar, text, hareas, -, -, ⟨hstart, -, -, hstop⟩, -⟩ :=
    vtask_address_agreement roomyOps onePage 0 emptyMm ⟨9600, 2512, by decide, by decide⟩
      0x12345678 id rfl rfl hret
  exact ⟨hret, vtask, vvar, text, hareas, hstart, hstop⟩

end OShm.Vdso
