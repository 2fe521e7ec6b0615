import Mathlib.Algebra.Group.Nat.Defs
import OShm.Vdso.Vtask

/-! # `map_vdso`

The vtask pages, the vvar pages and the image are three mappings side by side, in
this order, in one range that `get_unmapped_area` finds. The functions of the memory
manager are parameters; their laws are what `map_vdso` relies on.
-/

namespace OShm.Vdso

open OShm.Kernel

abbrev ULong := BitVec 64

def isErrValue (x : ULong) : Bool := 2 ^ 64 - 4095 ≤ x.toNat

/-- The largest `TASK_SIZE_MAX`, that of five page table levels. -/
def taskSizeMax : Nat := 2 ^ 56 - pageSize

structure VdsoImage where
  size : ULong
  symVvarStart : ULong
  size_page : pageSize ∣ size.toNat
  /-- The image is an object in the memory of the kernel. -/
  size_le : size.toNat ≤ taskSizeMax
  /-- The linker script puts four vvar pages in front of the image. -/
  vvar_start : symVvarStart = -BitVec.ofNat 64 (4 * pageSize)

inductive VmaKind where
  | vdso
  | vvar
  | vtask
  | other (id : Nat)
  deriving DecidableEq, Repr

structure Vma where
  start : ULong
  len : ULong
  kind : VmaKind
  deriving DecidableEq, Repr

namespace Vma

def stop (v : Vma) : Nat := v.start.toNat + v.len.toNat

/-- The area ends before the other one begins, or the other way round. -/
def Disjoint (v w : Vma) : Prop := v.stop ≤ w.start.toNat ∨ w.stop ≤ v.start.toNat

instance (v w : Vma) : Decidable (v.Disjoint w) := inferInstanceAs (Decidable (_ ∨ _))

def Free (v : Vma) (areas : List Vma) : Prop := ∀ w ∈ areas, v.Disjoint w

instance (v : Vma) (areas : List Vma) : Decidable (v.Free areas) :=
  inferInstanceAs (Decidable (∀ w ∈ areas, v.Disjoint w))

end Vma

/-- `get_unmapped_area`, `_install_special_mapping` and `do_munmap`. -/
structure MmOps where
  getUnmappedArea : List Vma → ULong → ULong → ULong
  /-- The error of an installation, `none` when it adds the area. -/
  installSpecialMapping : List Vma → Vma → Option Errno
  doMunmap : List Vma → ULong → ULong → List Vma
  area_page : ∀ areas addr len, isErrValue (getUnmappedArea areas addr len) = false →
    pageSize ∣ (getUnmappedArea areas addr len).toNat
  area_le : ∀ areas addr len, isErrValue (getUnmappedArea areas addr len) = false →
    (getUnmappedArea areas addr len).toNat + len.toNat ≤ taskSizeMax
  /-- An area that overlaps another one is refused. -/
  install_free : ∀ areas v, installSpecialMapping areas v = none → v.Free areas
  install_errno : ∀ areas v e, installSpecialMapping areas v = some e → 0 < e
  /-- Exactly the area that was installed last is removed. -/
  munmap_self : ∀ areas v, pageSize ∣ v.start.toNat → pageSize ∣ v.len.toNat → v.Free areas →
    doMunmap (v :: areas) v.start v.len = areas
  /-- An address inside a page is refused. -/
  munmap_unaligned : ∀ areas start len, ¬ pageSize ∣ start.toNat →
    doMunmap areas start len = areas

/-- The part of `struct mm_struct` that `map_vdso` reads and writes. -/
structure Mm where
  areas : List Vma
  /-- `context.vdso`. -/
  vdso : ULong
  vdsoImage : Option VdsoImage
  /-- `context.vtask`. -/
  vtask : ULong

def vtaskLen : ULong := BitVec.ofNat 64 vtaskSize

/-- The length `map_vdso` asks `get_unmapped_area` for. -/
def VdsoImage.mapLen (image : VdsoImage) : ULong := image.size - image.symVvarStart + vtaskLen

/-! The three areas, by the address of the vvar pages. -/

def VdsoImage.textArea (image : VdsoImage) (addr : ULong) : Vma :=
  ⟨addr - image.symVvarStart, image.size, .vdso⟩

def VdsoImage.vvarArea (image : VdsoImage) (addr : ULong) : Vma :=
  ⟨addr, -image.symVvarStart, .vvar⟩

def vtaskArea (addr : ULong) : Vma := ⟨addr - vtaskLen, vtaskLen, .vtask⟩

def intOf (x : ULong) : Int := (x.setWidth 32).toInt

def installAreas (M : MmOps) (image : VdsoImage) (addr : ULong) (mm : Mm) : Mm × Int :=
  let text := image.textArea addr
  match M.installSpecialMapping mm.areas text with
  | some e => (mm, -e)
  | none =>
      let areas := text :: mm.areas
      let vvar := image.vvarArea addr
      match M.installSpecialMapping areas vvar with
      | some e => ({ mm with areas := M.doMunmap areas text.start text.len }, -e)
      | none =>
          let areas := vvar :: areas
          let vtask := vtaskArea addr
          match M.installSpecialMapping areas vtask with
          | some e =>
              let areas := M.doMunmap areas vvar.start vvar.len
              let areas := M.doMunmap areas text.start text.len
              ({ mm with areas := areas }, -e)
          | none => (⟨vtask :: areas, text.start, some image, vtask.start⟩, 0)

/-- `killed` is the answer of `mmap_write_lock_killable`. -/
def mapVdso (M : MmOps) (image : VdsoImage) (addr : ULong) (killed : Bool) (mm : Mm) : Mm × Int :=
  if killed then (mm, -eintr)
  else
    let addr := M.getUnmappedArea mm.areas addr image.mapLen
    let addr := addr + vtaskLen
    if isErrValue addr then (mm, intOf addr) else installAreas M image addr mm

/-! ## The layout of a found range -/

@[simp] theorem vtaskLen_toNat : vtaskLen.toNat = 24576 := rfl

theorem VdsoImage.vvarLen_toNat (image : VdsoImage) : (-image.symVvarStart).toNat = 16384 := by
  rw [image.vvar_start, BitVec.neg_neg]
  rfl

theorem VdsoImage.sub_vvarStart (image : VdsoImage) (x : ULong) :
    x - image.symVvarStart = x + 16384#64 := by
  rw [image.vvar_start, BitVec.sub_eq_add_neg, BitVec.neg_neg]
  rfl

theorem VdsoImage.mapLen_toNat (image : VdsoImage) :
    image.mapLen.toNat = image.size.toNat + 40960 := by
  have hsize := image.size_le
  unfold VdsoImage.mapLen
  rw [image.sub_vvarStart, BitVec.toNat_add, BitVec.toNat_add, vtaskLen_toNat]
  simp only [taskSizeMax, pageSize] at hsize
  simp only [BitVec.toNat_ofNat]
  omega

/-- Where the range that `get_unmapped_area` found begins and what fits into it. -/
structure VdsoImage.Fits (image : VdsoImage) (base : ULong) : Prop where
  page : pageSize ∣ base.toNat
  le : base.toNat + image.mapLen.toNat ≤ taskSizeMax

theorem MmOps.fits (M : MmOps) (image : VdsoImage) {areas : List Vma} {addr : ULong}
    (h : isErrValue (M.getUnmappedArea areas addr image.mapLen) = false) :
    image.Fits (M.getUnmappedArea areas addr image.mapLen) :=
  ⟨M.area_page _ _ _ h, M.area_le _ _ _ h⟩

theorem vtaskArea_eq (base : ULong) :
    vtaskArea (base + vtaskLen) = ⟨base, vtaskLen, .vtask⟩ := by
  unfold vtaskArea
  rw [BitVec.add_sub_cancel]

namespace VdsoImage.Fits

variable {image : VdsoImage} {base : ULong}

theorem addr_toNat (h : image.Fits base) : (base + vtaskLen).toNat = base.toNat + 24576 := by
  have hle := h.le
  simp only [taskSizeMax, pageSize] at hle
  rw [BitVec.toNat_add, vtaskLen_toNat]
  omega

theorem addr_ok (h : image.Fits base) : isErrValue (base + vtaskLen) = false := by
  have hle := h.le
  have hlen := image.mapLen_toNat
  simp only [taskSizeMax, pageSize] at hle
  simp only [isErrValue, h.addr_toNat, decide_eq_false_iff_not]
  omega

theorem room (h : image.Fits base) : base.toNat + 24576 ≤ 2 ^ 56 := by
  have hle := h.le
  have hlen := image.mapLen_toNat
  simp only [taskSizeMax, pageSize] at hle
  omega

theorem vvar_start (h : image.Fits base) :
    (image.vvarArea (base + vtaskLen)).start.toNat = (vtaskArea (base + vtaskLen)).stop := by
  unfold Vma.stop
  rw [vtaskArea_eq]
  exact h.addr_toNat

theorem text_start (h : image.Fits base) : (image.textArea (base + vtaskLen)).start.toNat =
    (image.vvarArea (base + vtaskLen)).stop := by
  have hle := h.le
  have hlen := image.mapLen_toNat
  have haddr := h.addr_toNat
  simp only [taskSizeMax, pageSize] at hle
  simp only [textArea, vvarArea, Vma.stop, image.sub_vvarStart, image.vvarLen_toNat]
  rw [BitVec.toNat_add, haddr, BitVec.toNat_ofNat]
  omega

theorem text_stop (h : image.Fits base) :
    (image.textArea (base + vtaskLen)).stop = base.toNat + image.mapLen.toNat := by
  have hstart := h.text_start
  have hvvar := h.vvar_start
  have hlen := image.mapLen_toNat
  unfold Vma.stop at hstart hvvar ⊢
  rw [hstart, hvvar, vtaskArea_eq]
  simp only [vvarArea, textArea, image.vvarLen_toNat, vtaskLen_toNat]
  omega

theorem vvar_page (h : image.Fits base) :
    pageSize ∣ (image.vvarArea (base + vtaskLen)).start.toNat := by
  have hpage := h.page
  have haddr := h.addr_toNat
  simp only [vvarArea, pageSize] at hpage ⊢
  omega

theorem text_page (h : image.Fits base) :
    pageSize ∣ (image.textArea (base + vtaskLen)).start.toNat := by
  have hpage := h.page
  have hstart := h.text_start
  have haddr := h.addr_toNat
  simp only [Vma.stop, vvarArea, image.vvarLen_toNat] at hstart
  simp only [pageSize] at hpage ⊢
  omega

end VdsoImage.Fits

/-! ## Failures -/

def installFailure (M : MmOps) (image : VdsoImage) (addr : ULong) (areas : List Vma) :
    Option Int :=
  let text := image.textArea addr
  let vvar := image.vvarArea addr
  match M.installSpecialMapping areas text with
  | some e => some (-e)
  | none =>
      match M.installSpecialMapping (text :: areas) vvar with
      | some e => some (-e)
      | none =>
          match M.installSpecialMapping (vvar :: text :: areas) (vtaskArea addr) with
          | some e => some (-e)
          | none => none

theorem installFailure_ne_zero {M : MmOps} {image : VdsoImage} {addr : ULong} {areas : List Vma}
    {e : Int} (h : installFailure M image addr areas = some e) : e ≠ 0 := by
  have neg : ∀ {areas v e}, M.installSpecialMapping areas v = some e → -(e : Int) ≠ 0 := by
    intro areas v e he
    have hpos := M.install_errno areas v e he
    simpa using Nat.ne_of_gt hpos
  simp only [installFailure] at h
  split at h
  · rename_i he
    cases h
    exact neg he
  · split at h
    · rename_i he
      cases h
      exact neg he
    · split at h
      · rename_i he
        cases h
        exact neg he
      · cases h

def mapped (image : VdsoImage) (addr : ULong) (mm : Mm) : Mm where
  areas := vtaskArea addr :: image.vvarArea addr :: image.textArea addr :: mm.areas
  vdso := (image.textArea addr).start
  vdsoImage := some image
  vtask := (vtaskArea addr).start

/-- At aligned addresses what is installed can be removed again. -/
theorem installAreas_of_page {M : MmOps} {image : VdsoImage} {addr : ULong} (mm : Mm)
    (htext : pageSize ∣ (image.textArea addr).start.toNat) (hvvar : pageSize ∣ addr.toNat) :
    installAreas M image addr mm =
      match installFailure M image addr mm.areas with
      | some e => (mm, e)
      | none => (mapped image addr mm, 0) := by
  simp only [installAreas, installFailure]
  cases hin₁ : M.installSpecialMapping mm.areas (image.textArea addr) with
  | some e => rfl
  | none =>
      have hun₁ := M.munmap_self _ _ htext image.size_page (M.install_free _ _ hin₁)
      cases hin₂ : M.installSpecialMapping (_ :: mm.areas) (image.vvarArea addr) with
      | some e => simp only [hun₁]
      | none =>
          have hlen : pageSize ∣ (image.vvarArea addr).len.toNat := by
            show pageSize ∣ (-image.symVvarStart).toNat
            rw [image.vvarLen_toNat]
            decide
          have hun₂ := M.munmap_self _ _ hvvar hlen (M.install_free _ _ hin₂)
          cases hin₃ : M.installSpecialMapping (_ :: _ :: mm.areas) (vtaskArea addr) with
          | some e => simp only [hun₂, hun₁]
          | none => rfl

/-- Inside a page nothing can be removed, so whatever got installed stays. -/
theorem installAreas_unaligned {M : MmOps} {image : VdsoImage} {addr : ULong} (mm : Mm)
    (htext : ¬ pageSize ∣ (image.textArea addr).start.toNat) (hvvar : ¬ pageSize ∣ addr.toNat)
    (hin : M.installSpecialMapping mm.areas (image.textArea addr) = none) :
    mm.areas.length < (installAreas M image addr mm).1.areas.length := by
  have hun₁ := fun areas len => M.munmap_unaligned areas _ len htext
  have hun₂ := fun areas len => M.munmap_unaligned areas (image.vvarArea addr).start len hvvar
  simp only [installAreas, hin]
  cases M.installSpecialMapping (_ :: mm.areas) (image.vvarArea addr) with
  | some e => simp [hun₁]
  | none =>
      cases M.installSpecialMapping (_ :: _ :: mm.areas) (vtaskArea addr) with
      | some e =>
          simp only [hun₂, hun₁, List.length_cons]
          omega
      | none =>
          simp only [List.length_cons]
          omega

/-! An error value becomes a small address inside a page when `VTASK_SIZE` is added. -/

theorem isErrValue_iff (x : ULong) : isErrValue x = true ↔ 2 ^ 64 - 4095 ≤ x.toNat := by
  simp [isErrValue]

theorem addr_of_err {base : ULong} (h : isErrValue base = true) :
    (base + vtaskLen).toNat + 2 ^ 64 = base.toNat + 24576 := by
  have hge := (isErrValue_iff base).mp h
  have hlt := base.isLt
  rw [BitVec.toNat_add, vtaskLen_toNat]
  omega

theorem err_missed {base : ULong} (h : isErrValue base = true) :
    isErrValue (base + vtaskLen) = false := by
  have haddr := addr_of_err h
  have hlt := base.isLt
  simp only [isErrValue, decide_eq_false_iff_not]
  omega

theorem vvar_unaligned {base : ULong} (h : isErrValue base = true) :
    ¬ pageSize ∣ (base + vtaskLen).toNat := by
  have haddr := addr_of_err h
  have hge := (isErrValue_iff base).mp h
  have hlt := base.isLt
  simp only [pageSize]
  omega

theorem text_unaligned (image : VdsoImage) {base : ULong} (h : isErrValue base = true) :
    ¬ pageSize ∣ (image.textArea (base + vtaskLen)).start.toNat := by
  have haddr := addr_of_err h
  have hge := (isErrValue_iff base).mp h
  have hlt := base.isLt
  unfold VdsoImage.textArea
  rw [image.sub_vvarStart, BitVec.toNat_add, BitVec.toNat_ofNat]
  simp only [pageSize]
  omega

/-- A failure is reported and leaves no trace; without one everything is mapped. -/
def MapsOrRollsBack (M : MmOps) (image : VdsoImage) (hint : ULong) (mm : Mm) : Prop :=
  let base := M.getUnmappedArea mm.areas hint image.mapLen
  mapVdso M image hint false mm =
    if isErrValue base then (mm, intOf base)
    else
      match installFailure M image (base + vtaskLen) mm.areas with
      | some e => (mm, e)
      | none => (mapped image (base + vtaskLen) mm, 0)

theorem mapsOrRollsBack_of_base {M : MmOps} {image : VdsoImage} {hint : ULong} {mm : Mm}
    (h : isErrValue (M.getUnmappedArea mm.areas hint image.mapLen) = false) :
    MapsOrRollsBack M image hint mm := by
  have hfits := M.fits image h
  simp only [MapsOrRollsBack, mapVdso, h, hfits.addr_ok, Bool.false_eq_true, if_false]
  exact installAreas_of_page mm hfits.text_page hfits.vvar_page

/-- `map_vdso` reports every failure and undoes what it did exactly when
`get_unmapped_area` succeeds or the first installation fails with the same error. -/
theorem mapVdso_rolls_back_iff (M : MmOps) (image : VdsoImage) (hint : ULong) (mm : Mm) :
    MapsOrRollsBack M image hint mm ↔
      isErrValue (M.getUnmappedArea mm.areas hint image.mapLen) = false ∨
      ∃ e : Errno, M.installSpecialMapping mm.areas
        (image.textArea (M.getUnmappedArea mm.areas hint image.mapLen + vtaskLen)) = some e ∧
        -(e : Int) = intOf (M.getUnmappedArea mm.areas hint image.mapLen) := by
  cases hbase : isErrValue (M.getUnmappedArea mm.areas hint image.mapLen) with
  | false => exact iff_of_true (mapsOrRollsBack_of_base hbase) (Or.inl rfl)
  | true =>
      simp only [MapsOrRollsBack, mapVdso, hbase, err_missed hbase, Bool.false_eq_true, if_false,
        if_true]
      cases hin : M.installSpecialMapping mm.areas
          (image.textArea (M.getUnmappedArea mm.areas hint image.mapLen + vtaskLen)) with
      | some e => simp [installAreas, hin]
      | none =>
          have hgrown := installAreas_unaligned mm (text_unaligned image hbase)
            (vvar_unaligned hbase) hin
          constructor
          · intro heq
            rw [heq] at hgrown
            exact absurd hgrown (Nat.lt_irrefl _)
          · rintro (hfalse | ⟨e, he, -⟩)
            · cases hfalse
            · cases he

theorem add_le_taskSizeMax {a b : Nat} (ha : a ≤ 2 ^ 47) (hb : b ≤ 2 ^ 47) :
    a + b ≤ taskSizeMax := by
  simp only [taskSizeMax, pageSize]
  omega

/-- A memory manager that finds the ranges `gua` and refuses only areas that overlap. -/
def plainOps (gua : ULong) (page : pageSize ∣ gua.toNat ∨ isErrValue gua = true)
    (le : gua.toNat ≤ 2 ^ 47 ∨ isErrValue gua = true) : MmOps where
  getUnmappedArea _ _ len := if len.toNat ≤ 2 ^ 47 then gua else -BitVec.ofNat 64 enomem
  installSpecialMapping areas v := if v.Free areas then none else some enomem
  doMunmap areas start len :=
    if pageSize ∣ start.toNat then areas.eraseP fun v => v.start = start ∧ v.len = len else areas
  area_page := by
    intro areas addr len h
    split at h
    · rename_i hlen
      rw [if_pos hlen]
      exact page.resolve_right (by simp [h])
    · cases h
  area_le := by
    intro areas addr len h
    split at h
    · rename_i hlen
      rw [if_pos hlen]
      exact add_le_taskSizeMax (le.resolve_right (by simp [h])) hlen
    · cases h
  install_free := by
    intro areas v h
    split at h
    · assumption
    · cases h
  install_errno := by
    intro areas v e h
    split at h
    · cases h
    · cases h
      decide
  munmap_self := by
    intro areas v hpage _ _
    simp [hpage]
  munmap_unaligned := by
    intro areas start len h
    rw [if_neg h]

def onePage : VdsoImage where
  size := 4096
  symVvarStart := -BitVec.ofNat 64 (4 * pageSize)
  size_page := by decide
  size_le := by decide
  vvar_start := rfl

def emptyMm : Mm := ⟨[], 0, none, 0⟩

/-- Without room for the mappings `map_vdso` installs them at the bottom of the address
space and returns 0. -/
theorem map_error_missed : ¬ ∀ M image hint mm, MapsOrRollsBack M image hint mm := by
  intro h
  have hmap := h (plainOps (-BitVec.ofNat 64 enomem) (Or.inr rfl) (Or.inr rfl)) onePage 0 emptyMm
  have hret := congrArg Prod.snd hmap
  exact absurd hret (by decide)

end OShm.Vdso
