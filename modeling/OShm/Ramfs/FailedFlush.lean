import OShm.Ramfs.LinkedDisk

/-! # What a failed flush leaves behind

No error path of the flush unlinks its temporary file, nor the target that its touch created.
-/

namespace OShm.Ramfs

open OShm.Kernel OShm.Lib.PathWalk

def FlushArgs.dir (A : FlushArgs) : CString := A.syncDir.getD []

section Statement

variable (N : Namei) (p : Process) (A : FlushArgs) (src : Bytes) (d : LinkedDisk)

/-- A call fails in that stage and the flush leaves the disk so. -/
inductive FailsIn (st : FlushStage) (d' : LinkedDisk) : Prop where
  | intro {answers : List (Except Errno Nat)} {e : Errno} (ans : Except Errno Nat)
      (stage : (linkedRun N p A src d answers).pc.stage = some st)
      (fails : (linkedStep N p A src (linkedRun N p A src d answers) ans).pc = .done (.error e))
      (left : (linkedStep N p A src (linkedRun N p A src d answers) ans).disk = d')

def SameEntries (d' : LinkedDisk) : Prop :=
  ∀ D, N.base p d.sights A.dir = some D → ∀ c, d'.entry (D, c) = none ↔ d.entry (D, c) = none

/-- An open of the path creates an entry of the bound directory. -/
def Adds (path : CString) : Prop :=
  ∃ l, N.openTarget p d.sights path = some l ∧ l.2.length ≤ nameMax ∧ d.entry l = none ∧
    N.base p d.sights A.dir = some l.1

/-- The flush cannot open its temporary file. -/
def Unopened : Prop := A.syncDir = none ∨ ∃ e, d.openPath N p A.tmpPath = .error e

/-- What the flush would create by then is there already, or lies elsewhere. -/
def NothingNew : FlushStage → Prop
  | .opening => True
  | .copying => ¬ Adds N p A d A.tmpPath
  | .installing => ¬ Adds N p A d A.tmpPath ∧ ¬ Adds N p A d A.finalPath

end Statement

section Failed

variable {N : Namei} {p : Process} {A : FlushArgs} {src : Bytes} {d d' : LinkedDisk}
  {st : FlushStage}

theorem adds_name_iff {D : Dir} {c : CString} (hc : IsName c) (hlen : c.length ≤ nameMax)
    (hbase : N.base p d.sights A.dir = some D)
    (hlink : ∀ text, d.sights (D, c) ≠ some (.link text)) :
    Adds N p A d (A.dir ++ slash :: c) ↔ d.entry (D, c) = none := by
  have hlocate : N.locate p d.sights (A.dir ++ slash :: c) = some (D, c) := by
    rw [N.locate_join hc, hbase, Option.map_some]
  have htarget := N.openTarget_plain hlocate hlink
  constructor
  · rintro ⟨l, hl, -, hnone, -⟩
    cases htarget.symm.trans hl
    exact hnone
  · intro hnone
    exact ⟨_, htarget, hlen, hnone, hbase⟩

/-- Every error a flush returns is that of a call, but for a missing binding. -/
theorem failsIn_of_error {answers : List (Except Errno Nat)} {e : Errno}
    (h : (linkedRun N p A src d answers).pc = .done (.error e)) :
    A.syncDir = none ∧ (linkedRun N p A src d answers).disk = d ∨
      ∃ st, FailsIn N p A src d st (linkedRun N p A src d answers).disk := by
  induction answers using List.reverseRecOn with
  | nil =>
      refine Or.inl ⟨?_, rfl⟩
      cases hsync : A.syncDir with
      | none => rfl
      | some dir => simp [linkedRun, flushStart, hsync] at h
  | append_singleton answers ans ih =>
      have hlast : linkedRun N p A src d (answers ++ [ans]) =
          linkedStep N p A src (linkedRun N p A src d answers) ans := by
        rw [linkedRun_append]
        rfl
      rw [hlast] at h ⊢
      cases hstage : (linkedRun N p A src d answers).pc.stage with
      | some st => exact Or.inr ⟨st, .intro ans hstage h rfl⟩
      | none =>
          rw [linkedStep_ended ans hstage] at h ⊢
          exact ih h

theorem FailsIn.visits (h : FailsIn N p A src d st d') :
    A.syncDir ≠ none ∧ Visits N p A src d st d' := by
  obtain ⟨ans, hstage, hfails, rfl⟩ := h
  have hfollows := (linkedRun_reached _).follows hstage ans
  generalize linkedStep N p A src (linkedRun N p A src d _) ans = s at hfollows hfails
  cases hfollows with
  | going h hpc => simp [hfails, FlushPc.stage] at hpc
  | failed hsync hv => exact ⟨hsync, hv⟩
  | returned hsync hv hr => cases hfails

theorem LinkedDisk.openPath_entries {i : Nat} {d₁ : LinkedDisk} {path : CString} {D : Dir}
    (hbase : N.base p d.sights A.dir = some D) (ho : d.openPath N p path = .ok (i, d₁)) :
    (∀ c, d₁.entry (D, c) = none ↔ d.entry (D, c) = none) ↔ ¬ Adds N p A d path := by
  obtain ⟨l, hl, heffect⟩ := LinkedDisk.openPath_ok ho
  constructor
  · rintro hsame ⟨l', hl', -, hnone, hdir⟩
    cases hl.symm.trans hl'
    cases hbase.symm.trans hdir
    have hentry := (hsame l.2).mpr hnone
    cases heffect.entry_self.symm.trans hentry
  · intro hadds c
    rw [heffect.entry_eq_none, and_iff_right_iff_imp]
    rintro hnone rfl
    exact hadds ⟨_, hl, heffect.short, hnone, hbase⟩

theorem adds_congr {d₁ : LinkedDisk} {path : CString} (hsights : d₁.sights = d.sights)
    (hentry : ∀ D, N.base p d.sights A.dir = some D →
      ∀ c, d₁.entry (D, c) = none ↔ d.entry (D, c) = none) :
    Adds N p A d₁ path ↔ Adds N p A d path := by
  unfold Adds
  rw [hsights]
  constructor
  · rintro ⟨l, hl, hlen, hnone, hdir⟩
    exact ⟨l, hl, hlen, (hentry _ hdir l.2).mp hnone, hdir⟩
  · rintro ⟨l, hl, hlen, hnone, hdir⟩
    exact ⟨l, hl, hlen, (hentry _ hdir l.2).mpr hnone, hdir⟩

theorem sameEntries_of_nothingNew (hv : Visits N p A src d st d') (hnew : NothingNew N p A d st) :
    SameEntries N p A d d' := by
  cases hv with
  | opening => exact fun _ _ _ => Iff.rfl
  | copying n ho => exact fun D hD => (LinkedDisk.openPath_entries hD ho).mpr hnew
  | installing ho ht =>
      rename_i i d₁
      obtain ⟨l, -, heffect⟩ := LinkedDisk.openPath_ok ho
      have hcopied : SameEntries N p A d (d₁.setData i src) :=
        fun D hD => (LinkedDisk.openPath_entries hD ho).mpr hnew.1
      have hsights : (d₁.setData i src).sights = d.sights :=
        LinkedDisk.setData_sights.trans heffect.sights
      rcases ht with rfl | ⟨j, hopen⟩
      · exact hcopied
      · intro D hD c
        have hadds : ¬ Adds N p A (d₁.setData i src) A.finalPath :=
          fun h => hnew.2 ((adds_congr hsights hcopied).mp h)
        exact ((LinkedDisk.openPath_entries (hsights.symm ▸ hD) hopen).mpr hadds c).trans
          (hcopied D hD c)

/-! Each stage has a call that fails after everything is created. -/

theorem failsIn_copying {dir : CString} {i : Nat} {d₁ : LinkedDisk} (src : Bytes)
    (hsync : A.syncDir = some dir) (ho : d.openPath N p A.tmpPath = .ok (i, d₁)) :
    FailsIn N p A src d .copying (d₁.setData i []) := by
  have hrun := @linkedRun_opened N p A src d dir i d₁ hsync ho
  refine @FailsIn.intro N p A src d _ _ (List.replicate 6 (.ok 0)) eio (.error eio) ?_ ?_ ?_
  all_goals rw [hrun]; rfl

theorem failsIn_installing {dir : CString} {i : Nat} {d₁ d₂ : LinkedDisk}
    (hsync : A.syncDir = some dir) (ho : d.openPath N p A.tmpPath = .ok (i, d₁))
    (ht : Touches N p A (d₁.setData i src) d₂) : FailsIn N p A src d .installing d₂ := by
  obtain ⟨answers, hrun⟩ := linkedRun_touched hsync ho ht
  refine @FailsIn.intro N p A src d _ _ answers eio (.error eio) ?_ ?_ ?_
  all_goals rw [hrun]; rfl

theorem touch_adds {i : Nat} {d₁ : LinkedDisk} (ho : d.openPath N p A.tmpPath = .ok (i, d₁))
    {f : Loc} (hf : N.openTarget p d.sights A.finalPath = some f) (hlen : f.2.length ≤ nameMax)
    (hnone : d.entry f = none) :
    ∃ d₂, Touches N p A (d₁.setData i src) d₂ ∧ d₂.entry f ≠ none := by
  obtain ⟨l, -, heffect⟩ := LinkedDisk.openPath_ok ho
  have hsights : (d₁.setData i src).sights = d.sights :=
    LinkedDisk.setData_sights.trans heffect.sights
  have hdir : ∀ e, (d₁.setData i src).entry f ≠ some (.dir e) := by
    intro e he
    rw [LinkedDisk.setData_entry] at he
    by_cases hfl : f = l
    · subst hfl
      cases heffect.entry_self.symm.trans he
    · rw [heffect.entry_of_ne hfl, hnone] at he
      cases he
  obtain ⟨j, d₂, hopen⟩ := LinkedDisk.openPath_of_target (hsights.symm ▸ hf) hlen hdir
  obtain ⟨f', hf', hopened⟩ := LinkedDisk.openPath_ok hopen
  rw [hsights, hf] at hf'
  cases hf'
  exact ⟨d₂, Or.inr ⟨j, hopen⟩, by simp [hopened.entry_self]⟩

theorem nothingNew_of_sameEntries
    (h : ∀ d', FailsIn N p A src d st d' → SameEntries N p A d d')
    (hopened : ¬ Unopened N p A d) : NothingNew N p A d st := by
  simp only [Unopened, not_or] at hopened
  obtain ⟨dir, hsync⟩ := Option.ne_none_iff_exists'.mp hopened.1
  obtain ⟨⟨i, d₁⟩, ho⟩ : ∃ x, d.openPath N p A.tmpPath = .ok x := by
    cases ho : d.openPath N p A.tmpPath with
    | error e => exact absurd ⟨e, ho⟩ hopened.2
    | ok x => exact ⟨x, rfl⟩
  have htmp : (∀ D, N.base p d.sights A.dir = some D →
      ∀ c, d₁.entry (D, c) = none ↔ d.entry (D, c) = none) → ¬ Adds N p A d A.tmpPath := by
    intro hsame hadds
    obtain ⟨l, -, -, -, hdir⟩ := id hadds
    exact (LinkedDisk.openPath_entries hdir ho).mp (hsame _ hdir) hadds
  cases st with
  | opening => trivial
  | copying => exact htmp (h (d₁.setData i []) (failsIn_copying src hsync ho))
  | installing =>
      refine ⟨htmp (h (d₁.setData i src) (failsIn_installing hsync ho (Or.inl rfl))), ?_⟩
      rintro ⟨f, hf, hlen, hnone, hdir⟩
      obtain ⟨d₂, ht, hentry⟩ := @touch_adds N p A src d i d₁ ho f hf hlen hnone
      exact hentry ((h d₂ (failsIn_installing hsync ho ht) f.1 hdir f.2).mpr hnone)

theorem sameEntries_of_unopened (hv : Visits N p A src d st d') (hsync : A.syncDir ≠ none)
    (h : Unopened N p A d) : SameEntries N p A d d' := by
  obtain ⟨e, he⟩ := h.resolve_left hsync
  cases hv with
  | opening => exact fun _ _ _ => Iff.rfl
  | copying n ho => cases he.symm.trans ho
  | installing ho ht => cases he.symm.trans ho

end Failed

end OShm.Ramfs
