import OShm.Lib.CLayout
import OShm.Vdso.MapVdso

/-! # Where the image is placed

`map_vdso_randomized` draws an address above the stack such that the image and its vvar
pages end before the next boundary of a page middle directory. The vtask pages came
later: `map_vdso` asks for them as well, and the draw does not leave room for them.
-/

namespace OShm.Vdso

open OShm.Lib.CLayout

def pageShift : Nat := 12

def pmdShift : Nat := 21
def pmdSize : ULong := BitVec.ofNat 64 (2 ^ pmdShift)

/-- The top of the address space of four page table levels, less a guard page. -/
def defaultMapWindow : ULong := BitVec.ofNat 64 (2 ^ 47 - pageSize)

def pageAlign (x : ULong) : ULong := alignUp pageShift x

/-- The end of the draw: a boundary of a page middle directory, or the window's end. -/
def placementEnd (start : ULong) (len : BitVec 32) : ULong :=
  let stop := alignDown pmdShift (start + len.setWidth 64 + pmdSize - 1)
  if defaultMapWindow ≤ stop then defaultMapWindow else stop

/-- The number of pages drawn from the random word, in `unsigned`. -/
def vdsoOffset (start stop : ULong) (rnd : BitVec 32) : BitVec 32 :=
  (rnd.setWidth 64 % (((stop - start) >>> pageShift) + 1)).setWidth 32

/-- `vdso_addr`, where `align_vdso_addr` changes nothing. -/
def vdsoAddr (start : ULong) (len rnd : BitVec 32) : ULong :=
  let start := pageAlign start
  let stop := placementEnd start len - len.setWidth 64
  if start < stop then start + (vdsoOffset start stop rnd <<< pageShift).setWidth 64 else start

def VdsoImage.placedLen (image : VdsoImage) : BitVec 32 :=
  (image.size - image.symVvarStart).setWidth 32

def mapVdsoRandomized (M : MmOps) (image : VdsoImage) (startStack : ULong) (rnd : BitVec 32)
    (killed : Bool) (mm : Mm) : Mm × Int :=
  mapVdso M image (vdsoAddr startStack image.placedLen rnd) killed mm

/-! ## The computation in numbers -/

theorem VdsoImage.placedLen_toNat (image : VdsoImage) :
    image.placedLen.toNat = (image.size.toNat + 16384) % 2 ^ 32 := by
  have hsize := image.size_le
  simp only [taskSizeMax, pageSize] at hsize
  unfold VdsoImage.placedLen
  rw [image.sub_vvarStart, BitVec.toNat_setWidth, BitVec.toNat_add, BitVec.toNat_ofNat]
  omega

@[simp] theorem defaultMapWindow_toNat : defaultMapWindow.toNat = 2 ^ 47 - 4096 := rfl

theorem setWidth_toNat (x : BitVec 32) : (x.setWidth 64).toNat = x.toNat := by
  have hlt := x.isLt
  rw [BitVec.toNat_setWidth]
  omega

theorem pageAlign_toNat {x : ULong} (h : x.toNat < defaultMapWindow.toNat) :
    (pageAlign x).toNat = (x.toNat + 4095) / 4096 * 4096 ∧
      (pageAlign x).toNat ≤ defaultMapWindow.toNat := by
  rw [defaultMapWindow_toNat] at h ⊢
  have hround : (pageAlign x).toNat = (x.toNat + 4095) / 4096 * 4096 :=
    alignUp_toNat (by decide) (by
      simp only [pageShift]
      omega)
  exact ⟨hround, by omega⟩

theorem placementEnd_toNat {start : ULong} (h : start.toNat ≤ defaultMapWindow.toNat)
    (len : BitVec 32) :
    (placementEnd start len).toNat =
      min ((start.toNat + len.toNat + (2 ^ 21 - 1)) / 2 ^ 21 * 2 ^ 21) (2 ^ 47 - 4096) := by
  rw [defaultMapWindow_toNat] at h
  have hlen := len.isLt
  have hsum : (start + len.setWidth 64 + pmdSize - 1).toNat =
      start.toNat + len.toNat + (2 ^ 21 - 1) := by
    have hpmd : pmdSize.toNat = 2 ^ 21 := rfl
    have hone : (1 : ULong).toNat = 1 := rfl
    rw [BitVec.toNat_sub, BitVec.toNat_add, BitVec.toNat_add, setWidth_toNat, hpmd, hone]
    omega
  have hdown : (alignDown pmdShift (start + len.setWidth 64 + pmdSize - 1)).toNat =
      (start.toNat + len.toNat + (2 ^ 21 - 1)) / 2 ^ 21 * 2 ^ 21 := by
    rw [alignDown_toNat (by decide), hsum]
    rfl
  simp only [placementEnd, BitVec.le_def, defaultMapWindow_toNat, hdown]
  split
  · rw [defaultMapWindow_toNat]
    omega
  · rw [hdown]
    omega

structure Bounded (start len stop : Nat) : Prop where
  page : 4096 ∣ stop
  lt : stop < start + len + 2 ^ 21
  len_le : len ≤ stop

theorem placementEnd_bounded {start : ULong} (h : start.toNat ≤ defaultMapWindow.toNat)
    (len : BitVec 32) : Bounded start.toNat len.toNat (placementEnd start len).toNat := by
  have hlen := len.isLt
  rw [placementEnd_toNat h]
  constructor <;> omega

def slotCount (start len stop : Nat) : Nat := (stop - len - start) / pageSize

theorem vdsoOffset_toNat (start stop : ULong) (rnd : BitVec 32) (hlt : start.toNat < stop.toNat)
    (hgap : stop.toNat - start.toNat < 2 ^ 21) :
    (vdsoOffset start stop rnd).toNat =
      rnd.toNat % ((stop.toNat - start.toNat) / 4096 + 1) := by
  have hsub : (stop - start).toNat = stop.toNat - start.toNat :=
    BitVec.toNat_sub_of_le (BitVec.le_def.mpr (Nat.le_of_lt hlt))
  have hcount : (((stop - start) >>> pageShift) + 1).toNat =
      (stop.toNat - start.toNat) / 4096 + 1 := by
    have hone : (1 : ULong).toNat = 1 := rfl
    have hpage : 2 ^ pageShift = 4096 := rfl
    rw [BitVec.toNat_add, BitVec.toNat_ushiftRight, Nat.shiftRight_eq_div_pow, hsub, hone, hpage]
    omega
  have hmod : rnd.toNat % ((stop.toNat - start.toNat) / 4096 + 1) <
      (stop.toNat - start.toNat) / 4096 + 1 := Nat.mod_lt _ (Nat.succ_pos _)
  unfold vdsoOffset
  rw [BitVec.toNat_setWidth, BitVec.toNat_umod, setWidth_toNat, hcount]
  omega

theorem pages_toNat {x : BitVec 32} (h : x.toNat < 512) :
    ((x <<< pageShift).setWidth 64).toNat = x.toNat * 4096 := by
  have hpage : 2 ^ pageShift = 4096 := rfl
  rw [setWidth_toNat, BitVec.toNat_shiftLeft, Nat.shiftLeft_eq, hpage]
  omega

theorem vdsoAddr_toNat {start : ULong} (h : start.toNat < defaultMapWindow.toNat)
    (len rnd : BitVec 32) :
    (vdsoAddr start len rnd).toNat = (pageAlign start).toNat +
      rnd.toNat % (slotCount (pageAlign start).toNat len.toNat
        (placementEnd (pageAlign start) len).toNat + 1) * pageSize := by
  obtain ⟨-, hwindow⟩ := pageAlign_toNat h
  have hb := placementEnd_bounded hwindow len
  simp only [vdsoAddr, slotCount, pageSize]
  generalize pageAlign start = s at *
  generalize placementEnd s len = stop at *
  have hstop : (stop - len.setWidth 64).toNat = stop.toNat - len.toNat := by
    rw [BitVec.toNat_sub_of_le, setWidth_toNat]
    rw [BitVec.le_def, setWidth_toNat]
    exact hb.len_le
  have hlt := hb.lt
  rw [defaultMapWindow_toNat] at hwindow
  split
  · rename_i hgt
    rw [BitVec.lt_def, hstop] at hgt
    have hoff := vdsoOffset_toNat s (stop - len.setWidth 64) rnd (by omega) (by omega)
    rw [hstop] at hoff
    have hmod : rnd.toNat % ((stop.toNat - len.toNat - s.toNat) / 4096 + 1) <
        (stop.toNat - len.toNat - s.toNat) / 4096 + 1 := Nat.mod_lt _ (Nat.succ_pos _)
    rw [BitVec.toNat_add, pages_toNat (by omega), hoff]
    omega
  · rename_i hgt
    rw [BitVec.lt_def, hstop] at hgt
    have hzero : stop.toNat - len.toNat - s.toNat = 0 := by omega
    simp [hzero, Nat.mod_one]

/-! ## The range that is mapped -/

/-- Behind the stack there is room for everything that `map_vdso` asks for. -/
def RangeFits (image : VdsoImage) (start : ULong) : Prop :=
  (pageAlign start).toNat + image.mapLen.toNat ≤
    (placementEnd (pageAlign start) image.placedLen).toNat

instance (image : VdsoImage) (start : ULong) : Decidable (RangeFits image start) :=
  inferInstanceAs (Decidable (_ ≤ _))

/-- If it can, the whole range ends before the end of the draw. -/
def StaysBelow (image : VdsoImage) (start : ULong) (rnd : BitVec 32) : Prop :=
  RangeFits image start →
    (vdsoAddr start image.placedLen rnd).toNat + image.mapLen.toNat ≤
      (placementEnd (pageAlign start) image.placedLen).toNat

/-- How many pages are free between the image, placed at the stack, and the next boundary
of a page middle directory. -/
def VdsoImage.freePages (image : VdsoImage) (start : ULong) : Nat :=
  let first := (start.toNat + 4095) / 4096 * 4096
  let len := image.size.toNat + 16384
  (min ((first + len + (2 ^ 21 - 1)) / 2 ^ 21 * 2 ^ 21) (2 ^ 47 - 4096) - len - first) / 4096

theorem slotCount_eq {image : VdsoImage} {start : ULong}
    (h : start.toNat < defaultMapWindow.toNat) (hlen : image.size.toNat + 16384 < 2 ^ 32) :
    slotCount (pageAlign start).toNat image.placedLen.toNat
      (placementEnd (pageAlign start) image.placedLen).toNat = image.freePages start := by
  obtain ⟨hround, hwindow⟩ := pageAlign_toNat h
  rw [placementEnd_toNat hwindow, image.placedLen_toNat, Nat.mod_eq_of_lt hlen, hround]
  rfl

theorem vdsoAddr_page {start : ULong} (h : start.toNat < defaultMapWindow.toNat)
    (len rnd : BitVec 32) : pageSize ∣ (vdsoAddr start len rnd).toNat := by
  rw [vdsoAddr_toNat h, (pageAlign_toNat h).1]
  exact Nat.dvd_add (Nat.dvd_mul_left _ _) (Nat.dvd_mul_left _ _)

theorem rangeFits_iff {image : VdsoImage} {start : ULong}
    (h : start.toNat < defaultMapWindow.toNat) :
    RangeFits image start ↔ image.size.toNat + 16384 < 2 ^ 32 ∧
      vvarTaskStructNrPages ≤ image.freePages start := by
  obtain ⟨hround, hwindow⟩ := pageAlign_toNat h
  obtain ⟨hstop, hlt, -⟩ := placementEnd_bounded hwindow image.placedLen
  have hlen := image.placedLen_toNat
  have hpage := image.size_page
  have hslots := @slotCount_eq image start h
  unfold RangeFits
  rw [image.mapLen_toNat]
  unfold slotCount at hslots
  generalize (placementEnd (pageAlign start) image.placedLen).toNat = stop at *
  generalize image.freePages start = free at *
  simp only [pageSize, vvarTaskStructNrPages] at *
  omega

theorem range_below_iff {image : VdsoImage} {start : ULong}
    (h : start.toNat < defaultMapWindow.toNat) (hfits : RangeFits image start) (rnd : BitVec 32) :
    (vdsoAddr start image.placedLen rnd).toNat + image.mapLen.toNat ≤
        (placementEnd (pageAlign start) image.placedLen).toNat ↔
      rnd.toNat % (image.freePages start + 1) + vvarTaskStructNrPages ≤ image.freePages start := by
  obtain ⟨hsize, -⟩ := (rangeFits_iff h).mp hfits
  obtain ⟨hround, hwindow⟩ := pageAlign_toNat h
  obtain ⟨hstop, hlt, -⟩ := placementEnd_bounded hwindow image.placedLen
  have hlen := image.placedLen_toNat
  have hpage := image.size_page
  have hslots := slotCount_eq h hsize
  rw [vdsoAddr_toNat h, image.mapLen_toNat, hslots]
  unfold RangeFits at hfits
  rw [image.mapLen_toNat] at hfits
  unfold slotCount at hslots
  generalize rnd.toNat % (image.freePages start + 1) = n
  generalize (placementEnd (pageAlign start) image.placedLen).toNat = stop at *
  simp only [pageSize, vvarTaskStructNrPages] at *
  omega

theorem vdsoAddr_ok {start : ULong} (h : start.toNat < defaultMapWindow.toNat)
    (len rnd : BitVec 32) : isErrValue (vdsoAddr start len rnd) = false := by
  obtain ⟨-, hwindow⟩ := pageAlign_toNat h
  have hlt := (placementEnd_bounded hwindow len).lt
  have hmod := Nat.mod_lt rnd.toNat (Nat.succ_pos (slotCount (pageAlign start).toNat len.toNat
    (placementEnd (pageAlign start) len).toNat))
  rw [defaultMapWindow_toNat] at hwindow
  rw [isErrValue, vdsoAddr_toNat h, decide_eq_false_iff_not]
  simp only [slotCount, pageSize, Nat.succ_eq_add_one] at hmod ⊢
  omega

theorem mapVdsoRandomized_stop {M : MmOps} {image : VdsoImage} {start : ULong} {rnd : BitVec 32}
    {killed : Bool} {mm : Mm} (h : start.toNat < defaultMapWindow.toNat)
    (hgrant : M.getUnmappedArea mm.areas (vdsoAddr start image.placedLen rnd) image.mapLen =
      vdsoAddr start image.placedLen rnd)
    (hret : (mapVdsoRandomized M image start rnd killed mm).2 = 0) :
    (mapVdsoRandomized M image start rnd killed mm).1.vdso.toNat + image.size.toNat =
      (vdsoAddr start image.placedLen rnd).toNat + image.mapLen.toNat := by
  cases killed with
  | true => simp [mapVdsoRandomized, mapVdso, Kernel.eintr] at hret
  | false =>
      have hok := vdsoAddr_ok h image.placedLen rnd
      rw [← hgrant] at hok
      have hfits := M.fits image hok
      have hmap := mapsOrRollsBack_of_base hok
      simp only [MapsOrRollsBack, hok, Bool.false_eq_true, if_false] at hmap
      rw [hgrant] at hmap hfits
      unfold mapVdsoRandomized at hret ⊢
      rw [hmap] at hret ⊢
      cases hfail : installFailure M image (vdsoAddr start image.placedLen rnd + vtaskLen)
          mm.areas with
      | some e =>
          rw [hfail] at hret
          exact absurd hret (installFailure_ne_zero hfail)
      | none => exact hfits.text_stop

/-- The drawn address is a page above the stack. The range behind it stays below the end
of the draw exactly when the draw leaves six of the free pages, or there are not six. That range
is what is mapped if the address is free. -/
theorem randomized_placement_iff (image : VdsoImage) (start : ULong) (rnd : BitVec 32)
    (h : start.toNat < defaultMapWindow.toNat) :
    pageSize ∣ (vdsoAddr start image.placedLen rnd).toNat ∧
      (pageAlign start).toNat ≤ (vdsoAddr start image.placedLen rnd).toNat ∧
      (StaysBelow image start rnd ↔ (image.size.toNat + 16384 < 2 ^ 32 →
        vvarTaskStructNrPages ≤ image.freePages start →
        rnd.toNat % (image.freePages start + 1) + vvarTaskStructNrPages ≤
          image.freePages start)) ∧
      ∀ M killed mm, M.getUnmappedArea mm.areas (vdsoAddr start image.placedLen rnd)
          image.mapLen = vdsoAddr start image.placedLen rnd →
        (mapVdsoRandomized M image start rnd killed mm).2 = 0 →
        (StaysBelow image start rnd ↔ (RangeFits image start →
          (mapVdsoRandomized M image start rnd killed mm).1.vdso.toNat + image.size.toNat ≤
            (placementEnd (pageAlign start) image.placedLen).toNat)) := by
  refine ⟨vdsoAddr_page h _ _, ?_, ?_, ?_⟩
  · rw [vdsoAddr_toNat h]
    exact Nat.le_add_right _ _
  · rw [← and_imp, ← rangeFits_iff h]
    exact imp_congr_right fun hfits => range_below_iff h hfits rnd
  · intro M killed mm hgrant hret
    rw [mapVdsoRandomized_stop h hgrant hret]
    exact Iff.rfl

def boundaryStack : ULong := 0x7ffc00000000#64

theorem boundaryStack_page : pageSize ∣ boundaryStack.toNat := by decide

theorem boundaryStack_le : boundaryStack.toNat ≤ 2 ^ 47 := by decide

def grantingOps : MmOps :=
  plainOps boundaryStack (Or.inl boundaryStack_page) (Or.inl boundaryStack_le)

theorem randomized_placement_iff_first :
    boundaryStack.toNat < defaultMapWindow.toNat ∧ StaysBelow onePage boundaryStack 0 ∧
      (mapVdsoRandomized grantingOps onePage boundaryStack 0 false emptyMm).2 = 0 ∧
      (mapVdsoRandomized grantingOps onePage boundaryStack 0 false emptyMm).1.vdso.toNat + 4096 ≤
        (placementEnd (pageAlign boundaryStack) onePage.placedLen).toNat := by
  have hplace := randomized_placement_iff onePage boundaryStack 0 (by decide)
  have hbelow : StaysBelow onePage boundaryStack 0 := hplace.2.2.1.mpr fun _ _ => by decide
  have hret : (mapVdsoRandomized grantingOps onePage boundaryStack 0 false emptyMm).2 = 0 := by
    decide
  exact ⟨by decide, hbelow, hret,
    (hplace.2.2.2 grantingOps false emptyMm (by decide) hret).mp hbelow (by decide)⟩

theorem last_slot_passes_end :
    ¬ ∀ (image : VdsoImage) (start : ULong) (rnd : BitVec 32),
      start.toNat < defaultMapWindow.toNat → StaysBelow image start rnd := by
  intro h
  have hbelow := h onePage boundaryStack 507 (by decide) (by decide)
  exact absurd hbelow (by decide)

/-- Wherever the range fits, the last page that can be drawn is too far up. -/
theorem exists_draw_past_end {image : VdsoImage} {start : ULong}
    (h : start.toNat < defaultMapWindow.toNat) (hfits : RangeFits image start) :
    ∃ rnd, ¬ StaysBelow image start rnd := by
  refine ⟨BitVec.ofNat 32 (image.freePages start), ?_⟩
  intro hbelow
  have hdraw := (range_below_iff h hfits _).mp (hbelow hfits)
  have hlt : image.freePages start < 2 ^ 32 := by
    have hb := (placementEnd_bounded (pageAlign_toNat h).2 image.placedLen).lt
    rw [← slotCount_eq h ((rangeFits_iff h).mp hfits).1]
    simp only [slotCount, pageSize]
    omega
  rw [BitVec.toNat_ofNat, Nat.mod_eq_of_lt hlt, Nat.mod_eq_of_lt (Nat.lt_succ_self _),
    vvarTaskStructNrPages] at hdraw
  omega

end OShm.Vdso
