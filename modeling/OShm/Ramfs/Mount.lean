import OShm.Lib.OwnedHeap
import OShm.Ramfs.Rebind

/-! # The life of a ramfs

A ramfs begins with a file system context, becomes a super block when `ramfs_get_tree` succeeds
and ends in `ramfs_kill_sb` when its last reference is given back. Its `ramfs_fs_info` belongs to
the context first and to the super block then; `ramfs_bind` hangs a string on it. The functions
are those of the source, in the order in which the file system core may call them.
-/

namespace OShm.Ramfs

open OShm.Kernel OShm.Lib OShm.Lib.Ledger

structure FsInfo where
  mode : Nat
  syncDir : Option Addr
  deriving DecidableEq, Repr

def ramfsDefaultMode : Nat := 0o755

def sIallugo : Nat := 0o7777

structure FsContext where
  /-- `s_fs_info`. -/
  fsInfo : Option Addr
  /-- The super block whose root the context holds. -/
  root : Option Nat
  deriving DecidableEq, Repr

/-- `struct super_block` of a ramfs. -/
structure MountedSb where
  /-- `s_fs_info`. -/
  fsInfo : Option Addr
  /-- The context that made it is still open. -/
  opener : Bool
  /-- References of mounts, paths and open files, which their holders will give back. -/
  users : Nat
  /-- References that nobody can give back. -/
  lost : Nat
  deriving DecidableEq, Repr

structure Mounts where
  heap : Heap
  /-- The `ramfs_fs_info` at an address. -/
  info : Addr → FsInfo
  /-- The string at an address. -/
  text : Addr → CString
  ctx : Nat → Option FsContext
  sb : Nat → Option MountedSb

/-- What `fs_parse` makes of a mount option. -/
inductive FsParse where
  /-- `-ENOPARAM`. -/
  | noparam
  | error (e : Errno)
  /-- `Opt_mode` and the number. -/
  | mode (v : Nat)
  deriving DecidableEq, Repr

namespace Mounts

def initial : Mounts :=
  ⟨.empty, fun _ => ⟨0, none⟩, fun _ => [], fun _ => none, fun _ => none⟩

/-! ## The functions of the file system -/

/-- `ramfs_init_fs_context` with the object that `kzalloc` gave. -/
def initFsContext (s : Mounts) (fc : Nat) (a : Addr) : Mounts :=
  { s with
    heap := s.heap.alloc a
    info := Function.update s.info a ⟨ramfsDefaultMode, none⟩
    ctx := Function.update s.ctx fc (some ⟨some a, none⟩) }

/-- `ramfs_parse_param` with what `fs_parse` answered. -/
def parseParam (s : Mounts) (fsi : Addr) : FsParse → Mounts × Except Errno Unit
  | .noparam => (s, .ok ())
  | .error e => (s, .error e)
  | .mode v =>
      ({ s with
          heap := s.heap.use (some fsi)
          info := Function.update s.info fsi { s.info fsi with mode := v &&& sIallugo } }, .ok ())

def killSb (s : Mounts) (n : Nat) (b : MountedSb) : Mounts :=
  match b.fsInfo with
  | none => { s with sb := Function.update s.sb n none }
  | some fsi =>
      { s with
        heap := ((s.heap.use (some fsi)).free (s.info fsi).syncDir).free (some fsi)
        sb := Function.update s.sb n none }

/-- `sget_fc` hands the private data of the context to the new super block `n`;
`ramfs_fill_super` starts with no directory to sync to. -/
def fillSuper (s : Mounts) (fc n : Nat) (fsi : Addr) : Mounts :=
  { s with
    heap := s.heap.use (some fsi)
    info := Function.update s.info fsi { s.info fsi with syncDir := none }
    ctx := Function.update s.ctx fc (some ⟨none, some n⟩)
    sb := Function.update s.sb n (some ⟨some fsi, true, 0, 0⟩) }

/-- `ramfs_get_tree`. Without a root dentry the super block is shut down again. -/
def getTree (s : Mounts) (fc n : Nat) (fsi : Addr) (root : Bool) : Mounts × Except Errno Unit :=
  let s' := s.fillSuper fc n fsi
  if root then (s', .ok ())
  else
    ({ s'.killSb n ⟨some fsi, true, 0, 0⟩ with
        ctx := Function.update s'.ctx fc (some ⟨none, none⟩) }, .error enomem)

/-- A super block with fewer references; it is killed with the last one. -/
def drop (s : Mounts) (n : Nat) (b : MountedSb) : Mounts :=
  if b.opener = false ∧ b.users = 0 ∧ b.lost = 0 then s.killSb n b
  else { s with sb := Function.update s.sb n (some b) }

def freeFc (s : Mounts) (fc : Nat) (c : FsContext) : Mounts :=
  { s with heap := s.heap.free c.fsInfo, ctx := Function.update s.ctx fc none }

/-- The reference of a context to the super block it made. -/
def putRoot (s : Mounts) (c : FsContext) : Mounts :=
  match c.root with
  | none => s
  | some n =>
      match s.sb n with
      | none => s
      | some b => s.drop n { b with opener := false }

/-- `put_fs_context`: the root first, then the private data goes through `ramfs_free_fc`. -/
def putFsContext (s : Mounts) (fc : Nat) (c : FsContext) : Mounts := (s.putRoot c).freeFc fc c

/-- The end of `ramfs_bind`: the old string is freed, then `kstrdup` answers. -/
def setSyncDir (s : Mounts) (fsi : Addr) (dir : CString) (mem : Option Addr) : Mounts :=
  let heap := (s.heap.use (some fsi)).free (s.info fsi).syncDir
  match mem with
  | none =>
      { s with
        heap := heap
        info := Function.update s.info fsi { s.info fsi with syncDir := none } }
  | some a =>
      { s with
        heap := heap.alloc a
        info := Function.update s.info fsi { s.info fsi with syncDir := some a }
        text := Function.update s.text a dir }

/-- References that stay behind, by super block. -/
def lose (s : Mounts) (count : Nat → Nat) : Mounts :=
  { s with sb := fun n => (s.sb n).map fun b => { b with lost := b.lost + count n } }

end Mounts

/-- Where the path of a reference lies. -/
def BindCall.place (c : BindCall) : PathRef → Option Fs
  | .firstSync => c.first.toOption.bind (·.sb)
  | .ramfsMount => c.mount.toOption.bind (·.sb)
  | .secondSync => c.second.toOption.bind (·.sb)
  | .unset => none

/-- The references that a call takes and does not give back. -/
def keptRefs (refs : List (Event PathRef)) : List PathRef :=
  refs.filterMap fun
    | .acquire r => if refs.contains (.release r) then none else some r
    | .release _ => none

/-- How many references to the ramfs `n` the call leaves behind. -/
def BindCall.leaks (c : BindCall) (refs : List (Event PathRef)) (n : Nat) : Nat :=
  ((keptRefs refs).filter fun r => c.place r = some (.ramfs n)).length

/-! ## Runs -/

inductive MountAction where
  | initFsContext (fc : Nat) (mem : Option Addr)
  | parseParam (fc : Nat) (p : FsParse)
  | getTree (fc n : Nat) (alloc root : Bool)
  | putFsContext (fc : Nat)
  /-- Another mount, path or open file. -/
  | get (n : Nat)
  | put (n : Nat)
  /-- `stale` is the ramfs that the path lies on which the variable for the ramfs path holds
  before it is set, if there is one. -/
  | bind (c : BindCall) (mem : Option Addr) (stale : Option Nat)

inductive MountEvent where
  | did (ret : Except Errno Unit)
  | bind (c : BindCall) (ret : Except Errno Unit)

namespace Mounts

/-- What `kmalloc` may answer. -/
def Answers (h : Heap) (mem : Option Addr) : Prop := ∀ a, mem = some a → a ∉ h.live

instance (h : Heap) (mem : Option Addr) : Decidable (Answers h mem) :=
  match mem with
  | none => isTrue fun _ h => by simp at h
  | some a =>
      if ha : a ∈ h.live then isFalse fun hm => hm a rfl ha
      else isTrue fun x hx => by
        obtain rfl : a = x := Option.some.inj hx
        exact ha

/-- `path_put` of the variable that was never set. It takes a reference that nobody would give
back, or one that its holder counts on. -/
def putStale (s : Mounts) : Option Nat → Mounts
  | none => s
  | some n =>
      match s.sb n with
      | some b =>
          if 0 < b.lost then s.drop n { b with lost := b.lost - 1 }
          else { s with heap := s.heap.use none }
      | none => { s with heap := s.heap.use none }

/-- `ramfs_bind` on these file systems. -/
def bind (s : Mounts) (c : BindCall) (mem : Option Addr) (stale : Option Nat) :
    Option (Mounts × MountEvent) :=
  match c.check with
  | .error (e, refs) =>
      let s := if .release .unset ∈ refs then s.putStale stale else s
      some (s.lose (c.leaks refs), .bind c (.error e))
  | .ok n =>
      match s.sb n, c.syncDir with
      | some ⟨some fsi, _, _, _⟩, some dir =>
          if mem.isSome = c.mem ∧
              Answers ((s.heap.use (some fsi)).free (s.info fsi).syncDir) mem then
            if c.mem then
              some ((s.setSyncDir fsi dir mem).lose (c.leaks lookupRefs), .bind c (.ok ()))
            else
              some ((s.setSyncDir fsi dir mem).lose (c.leaks undoneRefs),
                .bind c (.error enomem))
          else none
      | _, _ => none

def step (s : Mounts) : MountAction → Option (Mounts × MountEvent)
  | .initFsContext fc mem =>
      match s.ctx fc, mem with
      | none, none => some (s, .did (.error enomem))
      | none, some a =>
          if a ∈ s.heap.live then none else some (s.initFsContext fc a, .did (.ok ()))
      | some _, _ => none
  | .parseParam fc p =>
      match s.ctx fc with
      | some ⟨some fsi, _⟩ => some ((s.parseParam fsi p).1, .did (s.parseParam fsi p).2)
      | _ => none
  | .getTree fc n alloc root =>
      match s.ctx fc, s.sb n with
      | some ⟨some fsi, _⟩, none =>
          if alloc then some ((s.getTree fc n fsi root).1, .did (s.getTree fc n fsi root).2)
          else some (s, .did (.error enomem))
      | _, _ => none
  | .putFsContext fc =>
      match s.ctx fc with
      | some c => some (s.putFsContext fc c, .did (.ok ()))
      | none => none
  | .get n =>
      match s.sb n with
      | some b =>
          some ({ s with sb := Function.update s.sb n (some { b with users := b.users + 1 }) },
            .did (.ok ()))
      | none => none
  | .put n =>
      match s.sb n with
      | some b =>
          if b.users = 0 then none
          else some (s.drop n { b with users := b.users - 1 }, .did (.ok ()))
      | none => none
  | .bind c mem stale => s.bind c mem stale

end Mounts

def mounts : System Mounts MountAction MountEvent := ⟨Mounts.step⟩

/-- A variable that is given back without having been set holds null pointers. -/
def MountAction.Unset : MountAction → Prop
  | .bind _ _ stale => stale = none
  | _ => True

instance : (a : MountAction) → Decidable a.Unset
  | .bind _ _ stale => inferInstanceAs (Decidable (stale = none))
  | .initFsContext _ _ | .parseParam _ _ | .getTree _ _ _ _ | .putFsContext _ | .get _ | .put _ =>
      isTrue trivial

/-! ## Who holds what -/

inductive Owner where
  | ctx (fc : Nat)
  | sb (n : Nat)
  /-- `sync_dir` of the super block's private data. -/
  | dir (n : Nat)
  deriving DecidableEq, Repr

namespace Mounts

variable {s s' : Mounts}

def sbInfo (s : Mounts) (n : Nat) : Option Addr := (s.sb n).bind (·.fsInfo)

def slot (s : Mounts) : Owner → Option Addr
  | .ctx fc => (s.ctx fc).bind (·.fsInfo)
  | .sb n => s.sbInfo n
  | .dir n => (s.sbInfo n).bind fun a => (s.info a).syncDir

def bound (s : Mounts) : Bindings := fun n => (s.slot (.dir n)).map s.text

def Safe (s : Mounts) : Prop := s.heap.Owned s.slot

theorem slot_ext {f : Owner → Option Addr} (hctx : ∀ fc, s'.slot (.ctx fc) = f (.ctx fc))
    (hsb : ∀ n, s'.slot (.sb n) = f (.sb n)) (hdir : ∀ n, s'.slot (.dir n) = f (.dir n)) :
    s'.slot = f := by
  funext o
  cases o with
  | ctx fc => exact hctx fc
  | sb n => exact hsb n
  | dir n => exact hdir n

theorem Safe.dir_of_ne (hs : s.Safe) {n m : Nat} {a : Addr} {i : FsInfo}
    (ha : s.sbInfo n = some a) (hm : m ≠ n) :
    ((s.sbInfo m).bind fun x => (Function.update s.info a i x).syncDir) = s.slot (.dir m) := by
  cases hx : s.sbInfo m with
  | none => simp [slot, hx]
  | some x =>
      have hne : x ≠ a := by
        rintro rfl
        have hsame : Owner.sb m = Owner.sb n := hs.once hx ha
        simp [hm] at hsame
      simp [slot, hx, hne]

theorem Safe.dir_of_ctx (hs : s.Safe) {fc m : Nat} {a : Addr} {i : FsInfo}
    (ha : s.slot (.ctx fc) = some a) :
    ((s.sbInfo m).bind fun x => (Function.update s.info a i x).syncDir) = s.slot (.dir m) := by
  cases hx : s.sbInfo m with
  | none => simp [slot, hx]
  | some x =>
      have hne : x ≠ a := by
        rintro rfl
        have hsame : Owner.sb m = Owner.ctx fc := hs.once hx ha
        simp at hsame
      simp [slot, hx, hne]

/-! ## Each function keeps it -/

theorem safe_initial : initial.Safe := by
  have hslot : initial.slot = fun _ => none := slot_ext (fun _ => rfl) (fun _ => rfl) fun _ => rfl
  rw [Safe, hslot]
  exact Heap.owned_empty

theorem Safe.initFsContext_slot (hs : s.Safe) {fc : Nat} {a : Addr} (ha : a ∉ s.heap.live) :
    (s.initFsContext fc a).slot = Function.update s.slot (.ctx fc) (some a) := by
  refine slot_ext (fun x => ?_) (fun _ => rfl) fun n => ?_
  · by_cases hx : x = fc
    · simp [slot, Mounts.initFsContext, hx]
    · simp [slot, Mounts.initFsContext, hx]
  · change ((s.sbInfo n).bind fun x => (Function.update s.info a _ x).syncDir) = s.slot (.dir n)
    cases hx : s.sbInfo n with
    | none => simp [slot, hx]
    | some x =>
        have hlive : x ∈ s.heap.live := hs.live (show s.slot (.sb n) = some x from hx)
        have hne : x ≠ a := by
          rintro rfl
          exact ha hlive
        simp [slot, hx, hne]

theorem Safe.initFsContext (hs : s.Safe) {fc : Nat} {a : Addr} (hfc : s.ctx fc = none)
    (ha : a ∉ s.heap.live) : (s.initFsContext fc a).Safe :=
  Heap.Owned.alloc hs (by simp [slot, hfc]) ha (hs.initFsContext_slot ha)

theorem Safe.of_slot (hs : s.Safe) (hheap : s'.heap = s.heap) (hslot : s'.slot = s.slot) :
    s'.Safe := by
  rw [Safe, hheap, hslot]
  exact hs

theorem Safe.parseParam_slot (hs : s.Safe) {fc : Nat} {fsi : Addr}
    (hfc : s.slot (.ctx fc) = some fsi) (p : FsParse) : (s.parseParam fsi p).1.slot = s.slot := by
  cases p with
  | noparam => rfl
  | error e => rfl
  | mode v => exact slot_ext (fun _ => rfl) (fun _ => rfl) fun n => hs.dir_of_ctx hfc

theorem Safe.parseParam (hs : s.Safe) {fc : Nat} {fsi : Addr} (hfc : s.slot (.ctx fc) = some fsi)
    (p : FsParse) : (s.parseParam fsi p).1.Safe := by
  refine hs.of_slot ?_ (hs.parseParam_slot hfc p)
  cases p with
  | noparam => rfl
  | error e => rfl
  | mode v => exact hs.use_eq hfc

theorem killSb_slot (s : Mounts) (n : Nat) (b : MountedSb) :
    (s.killSb n b).slot = Function.update (Function.update s.slot (.dir n) none) (.sb n) none := by
  have hsb : (s.killSb n b).sb = Function.update s.sb n none := by
    unfold killSb
    split <;> rfl
  have hinfo : (s.killSb n b).info = s.info := by
    unfold killSb
    split <;> rfl
  have hctx : (s.killSb n b).ctx = s.ctx := by
    unfold killSb
    split <;> rfl
  refine slot_ext (fun fc => by simp [slot, hctx]) (fun m => ?_) fun m => ?_
  · by_cases hm : m = n
    · simp [slot, sbInfo, hsb, hm]
    · simp [slot, sbInfo, hsb, hm]
  · by_cases hm : m = n
    · simp [slot, sbInfo, hsb, hm]
    · simp [slot, sbInfo, hsb, hinfo, hm]

theorem Safe.killSb (hs : s.Safe) {n : Nat} {b : MountedSb} (hb : s.sbInfo n = b.fsInfo) :
    (s.killSb n b).Safe := by
  rw [Safe, killSb_slot]
  have hsb : s.slot (.sb n) = b.fsInfo := hb
  cases hf : b.fsInfo with
  | none =>
      rw [hf] at hb hsb
      have hdir : s.slot (.dir n) = none := by simp [slot, hb]
      have h₁ : (s.heap.free none).Owned _ := Heap.Owned.free hs hdir rfl
      have h₂ : ((s.heap.free none).free none).Owned _ :=
        h₁.free (o := .sb n) (by simpa using hsb) rfl
      have hheap : (s.killSb n b).heap = s.heap := by simp [Mounts.killSb, hf]
      rw [hheap]
      exact h₂
  | some fsi =>
      rw [hf] at hb hsb
      have hdir : s.slot (.dir n) = (s.info fsi).syncDir := by simp [slot, hb]
      have h₁ : (s.heap.free (s.info fsi).syncDir).Owned _ := Heap.Owned.free hs hdir rfl
      have h₂ : ((s.heap.free (s.info fsi).syncDir).free (some fsi)).Owned _ :=
        h₁.free (o := .sb n) (by simpa using hsb) rfl
      have hheap : (s.killSb n b).heap =
          (s.heap.free (s.info fsi).syncDir).free (some fsi) := by
        simp [Mounts.killSb, hf, hs.use_eq hsb]
      rw [hheap]
      exact h₂

theorem Safe.fillSuper_slot (hs : s.Safe) {fc n : Nat} {fsi : Addr}
    (hfc : s.slot (.ctx fc) = some fsi) (hn : s.sb n = none) :
    (s.fillSuper fc n fsi).slot =
      Function.update (Function.update s.slot (.sb n) (s.slot (.ctx fc))) (.ctx fc) none := by
  refine slot_ext (fun x => ?_) (fun m => ?_) fun m => ?_
  · by_cases hx : x = fc
    · simp [slot, fillSuper, hx]
    · simp [slot, fillSuper, hx]
  · by_cases hm : m = n
    · simpa [slot, sbInfo, fillSuper, hm] using hfc.symm
    · simp [slot, sbInfo, fillSuper, hm]
  · by_cases hm : m = n
    · simp [slot, sbInfo, fillSuper, hm, hn]
    · have hkeep := hs.dir_of_ctx (m := m) (i := { s.info fsi with syncDir := none }) hfc
      simpa [slot, sbInfo, fillSuper, hm] using hkeep

theorem Safe.fillSuper (hs : s.Safe) {fc n : Nat} {fsi : Addr}
    (hfc : s.slot (.ctx fc) = some fsi) (hn : s.sb n = none) : (s.fillSuper fc n fsi).Safe := by
  have hheap : (s.fillSuper fc n fsi).heap = s.heap := hs.use_eq hfc
  rw [Safe, hheap]
  exact hs.move (by simp [slot, sbInfo, hn]) (by simp) (hs.fillSuper_slot hfc hn)

theorem getTree_failed_slot (s : Mounts) (fc n : Nat) (fsi : Addr) :
    (s.getTree fc n fsi false).1.slot =
      ((s.fillSuper fc n fsi).killSb n ⟨some fsi, true, 0, 0⟩).slot := by
  refine slot_ext (fun x => ?_) (fun _ => rfl) fun _ => rfl
  by_cases hx : x = fc
  · simp [slot, getTree, killSb, fillSuper, hx]
  · simp [slot, getTree, killSb, fillSuper, hx]

theorem Safe.getTree (hs : s.Safe) {fc n : Nat} {fsi : Addr} (hfc : s.slot (.ctx fc) = some fsi)
    (hn : s.sb n = none) (root : Bool) : (s.getTree fc n fsi root).1.Safe := by
  have hfill := hs.fillSuper hfc hn
  cases root with
  | true => exact hfill
  | false =>
      have hb : (s.fillSuper fc n fsi).sbInfo n = some fsi := by simp [sbInfo, Mounts.fillSuper]
      have hkill := hfill.killSb (b := ⟨some fsi, true, 0, 0⟩) hb
      exact hkill.of_slot rfl (getTree_failed_slot s fc n fsi)

theorem recount_slot {n : Nat} {b : MountedSb} (hb : s.sbInfo n = b.fsInfo) :
    slot { s with sb := Function.update s.sb n (some b) } = s.slot := by
  have hinfo : ∀ m, Mounts.sbInfo { s with sb := Function.update s.sb n (some b) } m =
      s.sbInfo m := by
    intro m
    by_cases hm : m = n
    · subst hm
      simp [sbInfo, ← hb]
    · simp [sbInfo, hm]
  refine slot_ext (fun _ => rfl) hinfo fun m => ?_
  simp only [slot, hinfo]

theorem Safe.recount (hs : s.Safe) {n : Nat} {b : MountedSb} (hb : s.sbInfo n = b.fsInfo) :
    Safe { s with sb := Function.update s.sb n (some b) } :=
  hs.of_slot rfl (recount_slot hb)

theorem Safe.drop (hs : s.Safe) {n : Nat} {b : MountedSb} (hb : s.sbInfo n = b.fsInfo) :
    (s.drop n b).Safe := by
  unfold Mounts.drop
  split
  · exact hs.killSb hb
  · exact hs.recount hb

theorem freeFc_slot (s : Mounts) (fc : Nat) (c : FsContext) :
    (s.freeFc fc c).slot = Function.update s.slot (.ctx fc) none := by
  refine slot_ext (fun x => ?_) (fun _ => rfl) fun _ => rfl
  by_cases hx : x = fc
  · simp [slot, freeFc, hx]
  · simp [slot, freeFc, hx]

theorem Safe.freeFc (hs : s.Safe) {fc : Nat} {c : FsContext} (hc : s.ctx fc = some c) :
    (s.freeFc fc c).Safe :=
  Heap.Owned.free hs (by simp [slot, hc]) (freeFc_slot s fc c)

theorem drop_ctx (s : Mounts) (n : Nat) (b : MountedSb) : (s.drop n b).ctx = s.ctx := by
  unfold drop killSb
  split
  · split <;> rfl
  · rfl

/-- Either nothing is given back, or the reference of the context that made a super block. -/
theorem putRoot_cases (s : Mounts) (c : FsContext) :
    s.putRoot c = s ∨
      ∃ n b, s.sb n = some b ∧ s.putRoot c = s.drop n { b with opener := false } := by
  unfold putRoot
  cases hr : c.root with
  | none => exact Or.inl rfl
  | some n =>
      cases hb : s.sb n with
      | none => exact Or.inl (by simp [hb])
      | some b => exact Or.inr ⟨n, b, hb, by simp [hb]⟩

theorem Safe.putFsContext (hs : s.Safe) {fc : Nat} {c : FsContext} (hc : s.ctx fc = some c) :
    (s.putFsContext fc c).Safe := by
  unfold Mounts.putFsContext
  rcases s.putRoot_cases c with h | ⟨n, b, hb, h⟩
  · rw [h]
    exact hs.freeFc hc
  · rw [h]
    have hdrop : (s.drop n { b with opener := false }).Safe := hs.drop (by simp [sbInfo, hb])
    exact hdrop.freeFc (by rw [drop_ctx, hc])

theorem lose_slot (s : Mounts) (count : Nat → Nat) : (s.lose count).slot = s.slot := by
  have hinfo : ∀ m, (s.lose count).sbInfo m = s.sbInfo m := by
    intro m
    cases hb : s.sb m <;> simp [sbInfo, lose, hb]
  refine slot_ext (fun _ => rfl) hinfo fun m => ?_
  simp only [slot, hinfo]
  rfl

theorem Safe.lose (hs : s.Safe) (count : Nat → Nat) : (s.lose count).Safe :=
  hs.of_slot rfl (lose_slot s count)

theorem Safe.setSyncDir_slot (hs : s.Safe) {n : Nat} {fsi : Addr} (hn : s.sbInfo n = some fsi)
    (dir : CString) (mem : Option Addr) :
    (s.setSyncDir fsi dir mem).slot = Function.update s.slot (.dir n) mem := by
  have hsb : (s.setSyncDir fsi dir mem).sb = s.sb := by cases mem <;> rfl
  have hctx : (s.setSyncDir fsi dir mem).ctx = s.ctx := by cases mem <;> rfl
  have hinfo : (s.setSyncDir fsi dir mem).info =
      Function.update s.info fsi { s.info fsi with syncDir := mem } := by cases mem <;> rfl
  have hsame : ∀ m, (s.setSyncDir fsi dir mem).sbInfo m = s.sbInfo m := by simp [sbInfo, hsb]
  refine slot_ext (fun fc => by simp [slot, hctx]) (fun m => by simp [slot, hsame]) fun m => ?_
  by_cases hm : m = n
  · subst hm
    simp [slot, hsame, hn, hinfo]
  · have hkeep := hs.dir_of_ne (i := { s.info fsi with syncDir := mem }) hn hm
    rw [Function.update_of_ne (by simp [hm]), ← hkeep]
    simp only [slot, hsame, hinfo]

theorem Safe.setSyncDir (hs : s.Safe) {n : Nat} {fsi : Addr} (hn : s.sbInfo n = some fsi)
    (dir : CString) {mem : Option Addr}
    (hmem : Answers ((s.heap.use (some fsi)).free (s.info fsi).syncDir) mem) :
    (s.setSyncDir fsi dir mem).Safe := by
  have hsb : s.slot (.sb n) = some fsi := hn
  have hdir : s.slot (.dir n) = (s.info fsi).syncDir := by simp [slot, hn]
  rw [hs.use_eq hsb] at hmem
  have hfree : (s.heap.free (s.info fsi).syncDir).Owned _ := Heap.Owned.free hs hdir rfl
  rw [Safe, hs.setSyncDir_slot hn]
  cases mem with
  | none =>
      have hheap : (s.setSyncDir fsi dir none).heap = s.heap.free (s.info fsi).syncDir := by
        simp [Mounts.setSyncDir, hs.use_eq hsb]
      rw [hheap]
      exact hfree
  | some a =>
      have hheap : (s.setSyncDir fsi dir (some a)).heap =
          (s.heap.free (s.info fsi).syncDir).alloc a := by
        simp [Mounts.setSyncDir, hs.use_eq hsb]
      rw [hheap]
      refine hfree.alloc (o := .dir n) (by simp) (hmem a rfl) ?_
      rw [Function.update_idem]

/-! ## What one step can do -/

inductive Effect (s : Mounts) : Mounts → MountEvent → Prop where
  | nothing (ret : Except Errno Unit) : Effect s s (.did ret)
  | opened {fc : Nat} {a : Addr} (hfc : s.ctx fc = none) (ha : a ∉ s.heap.live) :
      Effect s (s.initFsContext fc a) (.did (.ok ()))
  | parsed {fc : Nat} {fsi : Addr} (hfc : s.slot (.ctx fc) = some fsi) (p : FsParse) :
      Effect s (s.parseParam fsi p).1 (.did (s.parseParam fsi p).2)
  | tree {fc n : Nat} {fsi : Addr} (hfc : s.slot (.ctx fc) = some fsi) (hn : s.sb n = none)
      (root : Bool) : Effect s (s.getTree fc n fsi root).1 (.did (s.getTree fc n fsi root).2)
  | closed {fc : Nat} {c : FsContext} (hc : s.ctx fc = some c) :
      Effect s (s.putFsContext fc c) (.did (.ok ()))
  | got {n : Nat} {b : MountedSb} (hb : s.sb n = some b) :
      Effect s { s with sb := Function.update s.sb n (some { b with users := b.users + 1 }) }
        (.did (.ok ()))
  | dropped {n : Nat} {b : MountedSb} (hb : s.sb n = some b) :
      Effect s (s.drop n { b with users := b.users - 1 }) (.did (.ok ()))
  | refused {c : BindCall} {e : Errno} {refs : List (Event PathRef)}
      (hc : c.check = .error (e, refs)) :
      Effect s (s.lose (c.leaks refs)) (.bind c (.error e))
  | bound {c : BindCall} {n : Nat} {fsi a : Addr} {dir : CString} (hc : c.check = .ok n)
      (hmem : c.mem = true) (hn : s.sbInfo n = some fsi) (hdir : c.syncDir = some dir)
      (ha : Answers ((s.heap.use (some fsi)).free (s.info fsi).syncDir) (some a)) :
      Effect s ((s.setSyncDir fsi dir (some a)).lose (c.leaks lookupRefs)) (.bind c (.ok ()))
  | unbound {c : BindCall} {n : Nat} {fsi : Addr} {dir : CString} (hc : c.check = .ok n)
      (hmem : c.mem = false) (hn : s.sbInfo n = some fsi) :
      Effect s ((s.setSyncDir fsi dir none).lose (c.leaks undoneRefs)) (.bind c (.error enomem))

theorem effect_of_bind {c : BindCall} {mem : Option Addr} {e : MountEvent}
    (h : s.bind c mem none = some (s', e)) : s.Effect s' e := by
  simp only [bind, putStale, ite_self] at h
  split at h
  · rename_i hc
    cases h
    exact .refused hc
  rename_i n hc
  split at h
  · rename_i fsi _ _ _ dir hn hdir
    split at h
    · rename_i hmem
      have hinfo : s.sbInfo n = some fsi := by simp [sbInfo, hn]
      cases mem with
      | none =>
          have hm : c.mem = false := by simpa using hmem.1.symm
          rw [hm, if_neg (by simp)] at h
          cases h
          exact .unbound hc hm hinfo
      | some a =>
          have hm : c.mem = true := by simpa using hmem.1.symm
          rw [hm, if_pos rfl] at h
          cases h
          exact .bound hc hm hinfo hdir hmem.2
    · cases h
  · cases h

theorem effect_of_step {a : MountAction} {e : MountEvent} (ha : a.Unset)
    (h : mounts.step s a = some (s', e)) : s.Effect s' e := by
  cases a with
  | initFsContext fc mem =>
      simp only [mounts, step] at h
      split at h
      · cases h
        exact .nothing _
      · rename_i hfc
        split at h
        · cases h
        · rename_i ha
          cases h
          exact .opened hfc ha
      · cases h
  | parseParam fc p =>
      simp only [mounts, step] at h
      split at h
      · rename_i fsi _ hfc
        cases h
        have hslot : s.slot (.ctx fc) = some fsi := by simp [slot, hfc]
        exact .parsed hslot p
      · cases h
  | getTree fc n alloc root =>
      simp only [mounts, step] at h
      split at h
      · rename_i hfc hn
        split at h
        · cases h
          exact .tree (by simp [slot, hfc]) hn root
        · cases h
          exact .nothing _
      · cases h
  | putFsContext fc =>
      simp only [mounts, step] at h
      split at h
      · rename_i hc
        cases h
        exact .closed hc
      · cases h
  | get n =>
      simp only [mounts, step] at h
      split at h
      · rename_i hb
        cases h
        exact .got hb
      · cases h
  | put n =>
      simp only [mounts, step] at h
      split at h
      · rename_i hb
        split at h
        · cases h
        · cases h
          exact .dropped hb
      · cases h
  | bind c mem stale =>
      obtain rfl : stale = none := ha
      exact effect_of_bind h

theorem Effect.safe {e : MountEvent} (h : s.Effect s' e) (hs : s.Safe) : s'.Safe := by
  cases h with
  | nothing => exact hs
  | opened hfc ha => exact hs.initFsContext hfc ha
  | parsed hfc p => exact hs.parseParam hfc p
  | tree hfc hn root => exact hs.getTree hfc hn root
  | closed hc => exact hs.putFsContext hc
  | got hb => exact hs.recount (by simp [sbInfo, hb])
  | dropped hb => exact hs.drop (by simp [sbInfo, hb])
  | refused hc => exact hs.lose _
  | bound hc hmem hn hdir ha => exact (hs.setSyncDir hn _ ha).lose _
  | unbound hc hmem hn => exact (hs.setSyncDir hn _ (by simp [Answers])).lose _

end Mounts

/-- Over every run from boot, whatever the allocations, lookups and mount options answer, no
object is used or freed after it was freed, every pointer of a context, of a super block and of
its private data is to a live object of its own, and every live object is one of these. The path
that `ramfs_bind` gives back when its first lookup fails must happen to be no path. -/
theorem mounts_memory_safe {s : Mounts} {acts : List MountAction} {tr : List MountEvent}
    (hunset : ∀ a ∈ acts, a.Unset) (hr : mounts.run .initial acts = some (s, tr)) :
    s.heap.fault = false ∧ s.heap.live.Nodup ∧
      (∀ o a, s.slot o = some a → a ∈ s.heap.live ∧ ∀ o', s.slot o' = some a → o' = o) ∧
      ∀ a ∈ s.heap.live, ∃ o, s.slot o = some a := by
  have keep : ∀ {s a s' e}, s.Safe → a.Unset → mounts.step s a = some (s', e) → s'.Safe :=
    fun hs ha h => (Mounts.effect_of_step ha h).safe hs
  have hs : s.Safe :=
    mounts.along_invariant keep Mounts.safe_initial (mounts.along_of_forall hunset) hr
  exact ⟨hs.sound, hs.nodup, fun o a ho => ⟨hs.live ho, fun o' ho' => hs.once ho' ho⟩,
    fun a ha => hs.covered ha⟩

def bindNowhere : BindCall := { bindTo "/none" true with first := .error enoent }

/-- Two contexts, of which the second one gets no root dentry; the first ramfs is bound twice,
the second string at the address of the first one, and a third call does not find its directory. -/
def mountTwice : List MountAction :=
  [.initFsContext 0 (some 10), .parseParam 0 (.mode 0o1777), .getTree 0 1 true true, .get 1,
    .putFsContext 0, .initFsContext 2 (some 11), .getTree 2 3 true false, .putFsContext 2,
    .bind (bindTo "/p" true) (some 20) none, .bind (bindTo "/q" true) (some 20) none,
    .bind bindNowhere none none, .put 1]

theorem mounts_memory_safe_twice :
    ∃ s tr, mounts.run .initial mountTwice = some (s, tr) ∧ s.heap.live = [20, 10] ∧
      s.heap.fault = false := by
  have hrun : (mounts.run .initial mountTwice).map (fun r => r.1.heap.live) = some [20, 10] := by
    decide
  obtain ⟨⟨s, tr⟩, hr, hlive⟩ := Option.map_eq_some_iff.mp hrun
  exact ⟨s, tr, hr, hlive, (mounts_memory_safe (by decide) hr).1⟩

/-- A path that is left in the unset variable is given back under the feet of its holder. -/
theorem stale_path_faults :
    ∃ s tr, mounts.run .initial [.initFsContext 0 (some 10), .getTree 0 1 true true,
      .bind bindNowhere none (some 1)] = some (s, tr) ∧ s.heap.fault = true :=
  ⟨_, _, rfl, rfl⟩

end OShm.Ramfs
