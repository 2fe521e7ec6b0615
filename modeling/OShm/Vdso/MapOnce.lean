import Mathlib.Data.List.Perm.Subperm
import OShm.Lib.Transition
import OShm.Vdso.MapVdso

/-! # `map_vdso_once`

The system call that maps the image a second time looks for a special mapping first, under the
lock of the `mm`, and gives the lock back before `map_vdso` takes it again. Threads of the process
may come in between, so every thread can add one copy.
-/

namespace OShm.Vdso

open OShm.Lib OShm.Kernel

def eexist : Errno := 17

def VmaKind.isSpecial : VmaKind → Bool
  | .vdso | .vvar | .vtask => true
  | .other _ => false

/-- A call of `map_vdso_once` that has found no special mapping. -/
structure OnceCall where
  cur : Addr
  image : VdsoImage
  addr : ULong

structure OnceState where
  mm : Mm
  pending : List OnceCall

inductive OnceAction where
  /-- A call up to the first `mmap_write_unlock`. -/
  | check (call : OnceCall)
  /-- Its call of `map_vdso`; `killed` is the answer of `mmap_write_lock_killable`. -/
  | map (cur : Addr) (killed : Bool)
  /-- The process unmaps one of its areas. -/
  | munmap (v : Vma)

inductive OnceEvent where
  | passed
  | returned (cur : Addr) (ret : Int)
  | unmapped
  deriving DecidableEq, Repr

namespace OnceState

def step (M : MmOps) (s : OnceState) : OnceAction → Option (OnceState × OnceEvent)
  | .check call =>
      if s.pending.any fun c => c.cur = call.cur then none
      else if s.mm.areas.any fun v => v.kind.isSpecial then some (s, .returned call.cur (-eexist))
      else some ({ s with pending := call :: s.pending }, .passed)
  | .map cur killed =>
      match s.pending.find? fun c => c.cur = cur with
      | none => none
      | some call =>
          let r := mapVdso M call.image call.addr killed s.mm
          some (⟨r.1, s.pending.filter fun c => c.cur ≠ cur⟩, .returned cur r.2)
  | .munmap v => some ({ s with mm := { s.mm with areas := s.mm.areas.erase v } }, .unmapped)

end OnceState

def once (M : MmOps) : System OnceState OnceAction OnceEvent := ⟨OnceState.step M⟩

/-! ## What one call of `map_vdso` adds -/

def copies (kind : VmaKind) (areas : List Vma) : Nat := areas.countP fun v => v.kind = kind

theorem VdsoImage.text_page_iff (image : VdsoImage) (addr : ULong) :
    pageSize ∣ (image.textArea addr).start.toNat ↔ pageSize ∣ addr.toNat := by
  unfold VdsoImage.textArea
  rw [image.sub_vvarStart, BitVec.toNat_add, BitVec.toNat_ofNat]
  simp only [pageSize]
  omega

theorem copies_mapped_le (image : VdsoImage) (addr : ULong) (kind : VmaKind) (areas : List Vma) :
    copies kind (vtaskArea addr :: image.vvarArea addr :: image.textArea addr :: areas) ≤
      copies kind areas + 1 := by
  cases kind <;> simp [copies, vtaskArea, VdsoImage.vvarArea, VdsoImage.textArea]

theorem copies_installAreas_le (M : MmOps) (image : VdsoImage) (addr : ULong) (mm : Mm)
    (kind : VmaKind) :
    copies kind (installAreas M image addr mm).1.areas ≤ copies kind mm.areas + 1 := by
  have hall := copies_mapped_le image addr kind mm.areas
  have hsub : ∀ {xs ys : List Vma}, xs.Sublist ys → copies kind xs ≤ copies kind ys :=
    fun h => h.countP_le
  by_cases hpage : pageSize ∣ addr.toNat
  · rw [installAreas_of_page mm ((image.text_page_iff addr).mpr hpage) hpage]
    split
    · exact Nat.le_succ _
    · exact hall
  · have htext : ¬ pageSize ∣ (image.textArea addr).start.toNat :=
      fun h => hpage ((image.text_page_iff addr).mp h)
    have hun₁ := fun areas len => M.munmap_unaligned areas _ len htext
    have hun₂ := fun areas len =>
      M.munmap_unaligned areas (image.vvarArea addr).start len hpage
    -- nothing can be unmapped here, so a prefix of the three areas stays
    unfold installAreas
    simp only [hun₁, hun₂]
    split
    · exact Nat.le_succ _
    · split
      · exact (hsub (List.sublist_append_right [_, _] _)).trans hall
      · split
        · exact (hsub (List.sublist_cons_self _ _)).trans hall
        · exact hall

theorem copies_mapVdso_le (M : MmOps) (image : VdsoImage) (addr : ULong) (killed : Bool) (mm : Mm)
    (kind : VmaKind) :
    copies kind (mapVdso M image addr killed mm).1.areas ≤ copies kind mm.areas + 1 := by
  unfold mapVdso
  split
  · exact Nat.le_succ _
  · simp only
    split
    · exact Nat.le_succ _
    · exact copies_installAreas_le M image _ mm kind

/-! ## Runs -/

/-- The copies that are there and those still to come are no more than the callers. -/
structure OnceState.Bounded (callers : List Addr) (s : OnceState) : Prop where
  mem : ∀ c ∈ s.pending, c.cur ∈ callers
  nodup : (s.pending.map OnceCall.cur).Nodup
  le : ∀ kind : VmaKind, kind.isSpecial = true →
    copies kind s.mm.areas + s.pending.length ≤ callers.length

def OnceAction.By (callers : List Addr) : OnceAction → Prop
  | .check call => call.cur ∈ callers
  | _ => True

namespace OnceState.Bounded

variable {M : MmOps} {callers : List Addr} {s : OnceState}

/-- The check passes only where there is no copy, and each thread has one call at a time. -/
theorem check (hs : s.Bounded callers) {call : OnceCall} (hby : call.cur ∈ callers)
    (hidle : ∀ c ∈ s.pending, c.cur ≠ call.cur)
    (hnone : ∀ v ∈ s.mm.areas, v.kind.isSpecial = false) :
    { s with pending := call :: s.pending }.Bounded callers := by
  have hnodup : ((call :: s.pending).map OnceCall.cur).Nodup := by
    refine List.nodup_cons.mpr ⟨?_, hs.nodup⟩
    intro hmem
    obtain ⟨c, hc, heq⟩ := List.mem_map.mp hmem
    exact hidle c hc heq
  have hmem : ∀ c ∈ call :: s.pending, c.cur ∈ callers := List.forall_mem_cons.mpr ⟨hby, hs.mem⟩
  refine ⟨hmem, hnodup, ?_⟩
  intro kind hkind
  have hzero : copies kind s.mm.areas = 0 := by
    refine List.countP_eq_zero.mpr fun v hv => ?_
    have hv := hnone v hv
    intro heq
    rw [of_decide_eq_true heq, hkind] at hv
    cases hv
  have hsub : (call :: s.pending).map OnceCall.cur ⊆ callers := by
    intro a ha
    obtain ⟨c, hc, rfl⟩ := List.mem_map.mp ha
    exact hmem c hc
  have hlen := (hnodup.subperm hsub).length_le
  rw [List.length_map] at hlen
  rw [hzero, Nat.zero_add]
  exact hlen

theorem map (hs : s.Bounded callers) {call : OnceCall} (hcall : call ∈ s.pending) {mm : Mm}
    (hcopies : ∀ kind, copies kind mm.areas ≤ copies kind s.mm.areas + 1) :
    OnceState.Bounded callers ⟨mm, s.pending.filter fun c => c.cur ≠ call.cur⟩ := by
  refine ⟨fun c hc => hs.mem c (List.mem_of_mem_filter hc),
    hs.nodup.sublist (List.filter_sublist.map _), ?_⟩
  intro kind hkind
  have hlt : (s.pending.filter fun c => c.cur ≠ call.cur).length < s.pending.length :=
    List.length_filter_lt_length_iff_exists.mpr ⟨call, hcall, by simp⟩
  have hle := hs.le kind hkind
  have hone := hcopies kind
  change copies kind mm.areas + (s.pending.filter fun c => c.cur ≠ call.cur).length ≤ _
  omega

theorem step (hs : s.Bounded callers) {a : OnceAction} {s' : OnceState} {e : OnceEvent}
    (hby : a.By callers) (h : (once M).step s a = some (s', e)) : s'.Bounded callers := by
  change s.step M a = some (s', e) at h
  cases a with
  | check call =>
      simp only [OnceState.step] at h
      split at h
      · cases h
      · rename_i hidle
        split at h
        · cases h
          exact hs
        · rename_i hnone
          cases h
          exact hs.check hby (by simpa using hidle) (by simpa using hnone)
  | map cur killed =>
      simp only [OnceState.step] at h
      split at h
      · cases h
      · rename_i call hfind
        cases h
        obtain rfl : call.cur = cur := by simpa using List.find?_some hfind
        exact hs.map (List.mem_of_find?_eq_some hfind) (copies_mapVdso_le M _ _ _ _)
  | munmap v =>
      cases h
      refine ⟨hs.mem, hs.nodup, fun kind hkind => ?_⟩
      have hle : copies kind (s.mm.areas.erase v) ≤ copies kind s.mm.areas :=
        (List.erase_sublist).countP_le
      exact (Nat.add_le_add_right hle _).trans (hs.le kind hkind)

end OnceState.Bounded

/-- However the calls of the threads of a process interleave, and whatever their `map_vdso` leaves
behind when it fails: of each special mapping there are no more copies than threads. -/
theorem mapVdsoOnce_copies (M : MmOps) {callers : List Addr} {mm : Mm} {s : OnceState}
    {acts : List OnceAction} {tr : List OnceEvent} (hby : ∀ a ∈ acts, a.By callers)
    (hmm : ∀ kind : VmaKind, kind.isSpecial = true → copies kind mm.areas ≤ callers.length)
    (hr : (once M).run ⟨mm, []⟩ acts = some (s, tr)) {kind : VmaKind}
    (hkind : kind.isSpecial = true) : copies kind s.mm.areas ≤ callers.length := by
  have hstart : OnceState.Bounded callers ⟨mm, []⟩ :=
    ⟨fun c hc => absurd hc List.not_mem_nil, List.nodup_nil, hmm⟩
  have hs : s.Bounded callers :=
    (once M).along_invariant (fun hs ha h => OnceState.Bounded.step hs ha h) hstart
      ((once M).along_of_forall hby) hr
  exact Nat.le_of_add_right_le (hs.le kind hkind)

theorem pageSize_dvd_zero : pageSize ∣ (0 : ULong).toNat ∨ isErrValue 0 = true :=
  Or.inl (by decide)

theorem zero_le_window : (0 : ULong).toNat ≤ 2 ^ 47 ∨ isErrValue 0 = true := Or.inl (by decide)

def stackedArea (areas : List Vma) (len : ULong) : ULong :=
  if areas.length < 8 ∧ len.toNat ≤ 0x10000000000 then
    BitVec.ofNat 64 ((areas.length + 1) * 0x10000000000)
  else -BitVec.ofNat 64 enomem

theorem stackedArea_found {areas : List Vma} {len : ULong}
    (h : isErrValue (stackedArea areas len) = false) :
    areas.length < 8 ∧ len.toNat ≤ 0x10000000000 ∧
      (stackedArea areas len).toNat = (areas.length + 1) * 0x10000000000 := by
  unfold stackedArea at h ⊢
  split at h
  · rename_i hfit
    refine ⟨hfit.1, hfit.2, ?_⟩
    rw [if_pos hfit, BitVec.toNat_ofNat]
    omega
  · cases h

theorem stackedArea_page (areas : List Vma) (_ len : ULong)
    (h : isErrValue (stackedArea areas len) = false) :
    pageSize ∣ (stackedArea areas len).toNat := by
  obtain ⟨_, _, haddr⟩ := stackedArea_found h
  simp only [haddr, pageSize]
  omega

theorem stackedArea_le (areas : List Vma) (_ len : ULong)
    (h : isErrValue (stackedArea areas len) = false) :
    (stackedArea areas len).toNat + len.toNat ≤ taskSizeMax := by
  obtain ⟨hfew, hlen, haddr⟩ := stackedArea_found h
  simp only [haddr, taskSizeMax, pageSize]
  omega

def stackedOps : MmOps where
  __ := plainOps 0 pageSize_dvd_zero zero_le_window
  getUnmappedArea areas _ len := stackedArea areas len
  area_page := stackedArea_page
  area_le := stackedArea_le

def overlappingMaps : List OnceAction :=
  [.check ⟨1, onePage, 0⟩, .check ⟨2, onePage, 0⟩, .map 1 false, .map 2 false]

theorem mapVdsoOnce_copies_overlapping :
    ∃ s tr, (once stackedOps).run ⟨emptyMm, []⟩ overlappingMaps = some (s, tr) ∧
      tr = [.passed, .passed, .returned 1 0, .returned 2 0] ∧
      copies .vtask s.mm.areas = 2 ∧ copies .vtask s.mm.areas ≤ [1, 2].length := by
  have hrun : ((once stackedOps).run ⟨emptyMm, []⟩ overlappingMaps).map
      (fun r => (r.2, copies .vtask r.1.mm.areas)) =
        some ([.passed, .passed, .returned 1 0, .returned 2 0], 2) := by decide
  obtain ⟨⟨s, tr⟩, hr, heq⟩ := Option.map_eq_some_iff.mp hrun
  obtain ⟨htr, hcopies⟩ := Prod.mk.inj heq
  have hby : ∀ a ∈ overlappingMaps, a.By [1, 2] := by
    simp [overlappingMaps, OnceAction.By]
  have hinit : ∀ kind : VmaKind, kind.isSpecial = true →
      copies kind emptyMm.areas ≤ [1, 2].length := by simp [emptyMm, copies]
  exact ⟨s, tr, hr, htr, hcopies, mapVdsoOnce_copies stackedOps hby hinit hr rfl⟩

end OShm.Vdso
