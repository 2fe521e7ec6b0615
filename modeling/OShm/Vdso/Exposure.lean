import OShm.Vdso.Vtask

/-! # What the vtask frames show

`vtask_fault` maps the frame of `current` and the four after it, whatever the size of
the structure. Behind a structure that ends before the fifth frame the others belong
to somebody else.
-/

namespace OShm.Vdso

open OShm.Kernel

def FrameMeets (pfn addr size : Nat) : Prop :=
  ∃ b, addr ≤ b ∧ b < addr + size ∧ b / pageSize = pfn

/-- Every frame that a fault of the task installs has a part of it. -/
def ExposesTaskOnly (taskSize : Nat) (taskPhysAddr : Addr) : Prop :=
  ∀ pgoff mem pfn, vtaskFaultSized taskSize taskPhysAddr pgoff mem = .nopage pfn →
    FrameMeets pfn taskPhysAddr taskSize

theorem vtaskFaultSized_nopage_iff {taskSize : Nat} {a : Addr} {pgoff : Nat} {mem : Bool}
    {pfn : Nat} :
    vtaskFaultSized taskSize a pgoff mem = .nopage pfn ↔
      mem = true ∧ pgoff < metadataPgoff ∧ pfn = a / pageSize + pgoff := by
  have hlast : vtaskSize / pageSize = metadataPgoff + 1 := rfl
  simp only [vtaskFaultSized]
  split
  · rename_i hmeta
    cases mem <;> simp [hmeta]
  · rename_i hmeta
    split
    · rename_i hbeyond
      simp only [reduceCtorEq, false_iff, not_and]
      omega
    · cases mem with
      | false => simp
      | true =>
          simp only [if_true, VmFault.nopage.injEq, true_and]
          omega

theorem frameMeets_iff {a size pgoff : Nat} (hsize : 0 < size) :
    FrameMeets (a / pageSize + pgoff) a size ↔ pgoff * pageSize < a % pageSize + size := by
  simp only [FrameMeets, pageSize]
  constructor
  · rintro ⟨b, hle, hlt, hframe⟩
    omega
  · intro h
    -- its first byte, or the first byte of the frame
    by_cases hfirst : pgoff = 0
    · exact ⟨a, Nat.le_refl a, by omega, by omega⟩
    · have hstart : (a / 4096 + pgoff) * 4096 = a - a % 4096 + pgoff * 4096 := by omega
      refine ⟨(a / 4096 + pgoff) * 4096, ?_, ?_, Nat.mul_div_cancel _ (by decide)⟩ <;>
        rw [hstart] <;> omega

/-- User space sees only frames of its task exactly when the task ends in the fifth. -/
theorem exposesTaskOnly_iff (taskSize : Nat) (a : Addr) (hsize : 0 < taskSize) :
    ExposesTaskOnly taskSize a ↔ 4 * pageSize < a % pageSize + taskSize := by
  constructor
  · intro h
    have hlast : vtaskFaultSized taskSize a 4 true = .nopage (a / pageSize + 4) :=
      vtaskFaultSized_nopage_iff.mpr ⟨rfl, by decide, rfl⟩
    exact (frameMeets_iff hsize).mp (h 4 true _ hlast)
  · intro h pgoff mem pfn hfault
    obtain ⟨-, hpgoff, rfl⟩ := vtaskFaultSized_nopage_iff.mp hfault
    have hlt : pgoff ≤ 4 := Nat.le_of_lt_succ hpgoff
    refine (frameMeets_iff hsize).mpr ?_
    exact Nat.lt_of_le_of_lt (Nat.mul_le_mul_right pageSize hlt) h

theorem exposesTaskOnly_iff_fourPages :
    ExposesTaskOnly (4 * pageSize) 0x100040 ↔
      4 * pageSize < 0x100040 % pageSize + 4 * pageSize :=
  exposesTaskOnly_iff (4 * pageSize) 0x100040 (by decide)

/-- Three frames behind a structure of two pages are shown as well. -/
theorem two_page_task_exposes_more :
    ¬ ∀ taskSize a, 0 < taskSize → taskSize ≤ 4 * pageSize → ExposesTaskOnly taskSize a := by
  intro h
  have hexposes := h 8192 0x100000 (by decide) (by decide)
  have hlong := (frameMeets_iff (by decide)).mp
    (hexposes 4 true _ (vtaskFaultSized_nopage_iff.mpr ⟨rfl, by decide, rfl⟩))
  exact absurd hlong (by decide)

end OShm.Vdso
