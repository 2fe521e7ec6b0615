import OShm.Lib.Ledger
import OShm.Lib.Transition
import OShm.Ramfs.Proc
import OShm.Ramfs.Vfs

/-! # Binding again

`ramfs_bind` call by call, whatever the lookups and allocations in it answer. It frees the
old string before it has the new one, it looks `sync_dir` up twice into one variable, and
it keeps the references it took when it succeeds.
-/

namespace OShm.Ramfs

open OShm.Kernel OShm.Lib OShm.Lib.Ledger

/-- What the caller learns of the dentry that a lookup found. -/
structure Found where
  /-- `d_sb`. -/
  sb : Option Fs
  isDir : Bool
  deriving DecidableEq, Repr

/-- The references that a call takes. The variable for the ramfs path holds nothing before
its lookup. -/
inductive PathRef where
  | firstSync
  | ramfsMount
  | secondSync
  | unset
  deriving DecidableEq, Repr

structure BindAnswers where
  first : Except Errno Found
  mount : Except Errno Found
  second : Except Errno Found
  /-- Whether the super block has private data. -/
  fsInfo : Bool
  /-- Whether `kstrdup` succeeds. -/
  mem : Bool

structure BindCall extends BindAnswers where
  ramfsPath : Option CString
  syncDir : Option CString

/-- `fsi->sync_dir` by super block. -/
abbrev Bindings := Nat → Option CString

structure BindResult where
  bound : Bindings
  ret : Except Errno Unit
  refs : List (Event PathRef)

/-- The references of a call that came to its last lookup. -/
def lookupRefs : List (Event PathRef) :=
  [.acquire .firstSync, .acquire .ramfsMount, .acquire .secondSync]

/-- What such a call gives back when it fails. -/
def undoneRefs : List (Event PathRef) :=
  lookupRefs ++ [.release .ramfsMount, .release .secondSync]

namespace BindCall

/-- `ramfs_bind` up to where it changes anything: an error with the references by then, or
the super block of the ramfs. -/
def check (c : BindCall) : Except (Errno × List (Event PathRef)) Nat :=
  match c.first with
  | .error e => .error (e, [.release .unset])
  | .ok _ =>
      if c.ramfsPath = none ∨ c.syncDir = none then .error (einval, [.acquire .firstSync])
      else
        match c.mount with
        | .error e => .error (e, [.acquire .firstSync])
        | .ok m =>
            let looked : List (Event PathRef) :=
              [.acquire .firstSync, .acquire .ramfsMount, .release .ramfsMount]
            match m.sb with
            | some (.ramfs sb) =>
                match c.second with
                | .error e => .error (e, looked)
                | .ok d =>
                    if d.isDir = false then .error (enotdir, undoneRefs)
                    else if c.fsInfo = false then .error (einval, undoneRefs)
                    else .ok sb
            | _ => .error (einval, looked)

def run (c : BindCall) (b : Bindings) : BindResult :=
  match c.check with
  | .error (e, refs) => ⟨b, .error e, refs⟩
  | .ok sb =>
      -- the old string is free before there is a new one
      let b := Function.update b sb none
      if c.mem then ⟨Function.update b sb c.syncDir, .ok (), lookupRefs⟩
      else ⟨b, .error enomem, undoneRefs⟩

/-! ## What a call does -/

section Run

variable {c : BindCall} {b : Bindings} {sb : Nat}

theorem run_refused {e : Errno} {refs : List (Event PathRef)} (h : c.check = .error (e, refs)) :
    c.run b = ⟨b, .error e, refs⟩ := by
  simp only [run, h]

theorem run_replaced (h : c.check = .ok sb) (hmem : c.mem = true) :
    c.run b = ⟨Function.update b sb c.syncDir, .ok (), lookupRefs⟩ := by
  simp only [run, h, hmem, if_true, Function.update_idem]

theorem run_lost (h : c.check = .ok sb) (hmem : c.mem = false) :
    c.run b = ⟨Function.update b sb none, .error enomem, undoneRefs⟩ := by
  simp only [run, h, hmem, Bool.false_eq_true, if_false]

end Run

/-- After an error the bindings are the old ones, after success exactly one is new. -/
structure AllOrNothing (b : Bindings) (c : BindCall) : Prop where
  failed : ∀ e, (c.run b).ret = .error e → (c.run b).bound = b
  done : (c.run b).ret = .ok () →
    ∃ sb, c.check = .ok sb ∧ (c.run b).bound = Function.update b sb c.syncDir

/-- The call does not run out of memory where there is a string to lose. -/
def KeepsOld (b : Bindings) (c : BindCall) : Prop :=
  ∀ sb, c.check = .ok sb → c.mem = false → b sb = none

theorem allOrNothing_iff (b : Bindings) (c : BindCall) : AllOrNothing b c ↔ KeepsOld b c := by
  constructor
  · intro h sb hcheck hmem
    have hrun := @run_lost c b sb hcheck hmem
    have hsame := h.failed enomem (by rw [hrun])
    rw [hrun] at hsame
    rw [← hsame]
    exact Function.update_self _ _ _
  · intro h
    cases hcheck : c.check with
    | error x =>
        have hrun := @run_refused c b x.1 x.2 hcheck
        refine ⟨fun e _ => by rw [hrun], fun hok => ?_⟩
        rw [hrun] at hok
        cases hok
    | ok sb =>
        cases hmem : c.mem with
        | true =>
            have hrun := @run_replaced c b sb hcheck hmem
            refine ⟨fun e herr => ?_, fun _ => ⟨sb, hcheck, by rw [hrun]⟩⟩
            rw [hrun] at herr
            cases herr
        | false =>
            have hrun := @run_lost c b sb hcheck hmem
            have hold : Function.update b sb none = b := by
              rw [← h sb hcheck hmem]
              exact Function.update_eq_self sb b
            refine ⟨fun e _ => by rw [hrun, hold], fun hok => ?_⟩
            rw [hrun] at hok
            cases hok

end BindCall

/-! ## Sequences of calls -/

def rebinding : System Bindings BindCall BindResult :=
  ⟨fun b c => some ((c.run b).bound, c.run b)⟩

/-- The string of the last call that bound this ramfs and returned 0. -/
def lastBound (sb : Nat) : Option CString → List BindCall → List BindResult → Option CString
  | old, c :: calls, r :: results =>
      match r.ret, c.check with
      | .ok (), .ok sb' => lastBound sb (if sb' = sb then c.syncDir else old) calls results
      | _, _ => lastBound sb old calls results
  | old, _, _ => old

theorem lastBound_of_run {b b' : Bindings} {calls : List BindCall} {results : List BindResult}
    (hr : rebinding.run b calls = some (b', results))
    (h : rebinding.Along BindCall.KeepsOld b calls) (sb : Nat) :
    b' sb = lastBound sb (b sb) calls results := by
  induction calls generalizing b results with
  | nil =>
      obtain ⟨rfl, rfl⟩ : b = b' ∧ [] = results := by simpa using hr
      rfl
  | cons c calls ih =>
      obtain ⟨m, r, rest, hstep, hrest, rfl⟩ := rebinding.run_cons_iff.mp hr
      have htail := ih hrest (h.2 m r hstep)
      obtain ⟨rfl, rfl⟩ : (c.run b).bound = m ∧ c.run b = r := by simpa [rebinding] using hstep
      have hkeep := (BindCall.allOrNothing_iff b c).mpr h.1
      rw [htail, lastBound]
      cases hret : (c.run b).ret with
      | error e => simp only [hkeep.failed e hret]
      | ok u =>
          obtain ⟨sb', hcheck, hbound⟩ := hkeep.done hret
          simp only [hcheck, hbound, Function.update_apply, eq_comm]

/-- A run is all or nothing in every call exactly when no call loses a string for want of
memory. Then each ramfs is bound by the last call that returned 0. -/
theorem rebinding_all_or_nothing {b b' : Bindings} {calls : List BindCall}
    {results : List BindResult} (hr : rebinding.run b calls = some (b', results)) :
    (rebinding.Along BindCall.AllOrNothing b calls ↔
        rebinding.Along BindCall.KeepsOld b calls) ∧
      (rebinding.Along BindCall.KeepsOld b calls →
        ∀ sb, b' sb = lastBound sb (b sb) calls results) := by
  have hsame : BindCall.AllOrNothing = BindCall.KeepsOld := by
    funext b c
    exact propext (BindCall.allOrNothing_iff b c)
  rw [hsame]
  exact ⟨Iff.rfl, lastBound_of_run hr⟩

def bindTo (dir : String) (mem : Bool) : BindCall where
  first := .ok ⟨some (.disk 0), true⟩
  mount := .ok ⟨some (.ramfs 1), true⟩
  second := .ok ⟨some (.disk 0), true⟩
  fsInfo := true
  mem := mem
  ramfsPath := some (ascii "/r")
  syncDir := some (ascii dir)

theorem rebinding_all_or_nothing_twice :
    ∃ b' results, rebinding.run (fun _ => none) [bindTo "/p" true, bindTo "/q" true] =
        some (b', results) ∧ b' 1 = some (ascii "/q") := by
  have hkeeps : ∀ b dir, BindCall.KeepsOld b (bindTo dir true) := by
    intro b dir sb _ hmem
    cases hmem
  refine ⟨_, _, rfl, ?_⟩
  exact (@rebinding_all_or_nothing (fun _ => none) _ [bindTo "/p" true, bindTo "/q" true] _
    rfl).2 ⟨hkeeps _ _, fun _ _ _ => ⟨hkeeps _ _, fun _ _ _ => trivial⟩⟩ 1

/-- Without memory for the new string the old one is gone. -/
theorem rebinding_loses_string : ¬ ∀ b c, BindCall.AllOrNothing b c := by
  intro h
  have hsame := (h (fun _ => some (ascii "/p")) (bindTo "/q" false)).failed enomem rfl
  exact absurd (congrFun hsame 1) (by decide)

/-! ## References -/

/-- What every call does with its references: the one of its first lookup is not given
back, and if that lookup fails it gives back what it never took. -/
structure Unbalanced (refs : List (Event PathRef)) : Prop where
  first_kept : .release .firstSync ∉ refs
  unset_new : .acquire .unset ∉ refs
  begun : .release .unset ∈ refs ∨ .acquire .firstSync ∈ refs

instance (e : Event PathRef) (refs : List (Event PathRef)) : Decidable (e ∈ refs) :=
  List.instDecidableMemOfLawfulBEq e refs

instance (refs : List (Event PathRef)) : Decidable (Unbalanced refs) :=
  decidable_of_iff (.release .firstSync ∉ refs ∧ .acquire .unset ∉ refs ∧
      (.release .unset ∈ refs ∨ .acquire .firstSync ∈ refs))
    ⟨fun h => ⟨h.1, h.2.1, h.2.2⟩, fun h => ⟨h.1, h.2, h.3⟩⟩

theorem BindCall.check_unbalanced {c : BindCall} {e : Errno} {refs : List (Event PathRef)}
    (h : c.check = .error (e, refs)) : Unbalanced refs := by
  simp only [check] at h
  -- one goal for each exit before the old string is freed
  split at h
  · cases h
    decide
  split at h
  · cases h
    decide
  split at h
  · cases h
    decide
  split at h
  · split at h
    · cases h
      decide
    split at h
    · cases h
      decide
    split at h
    · cases h
      decide
    · cases h
  · cases h
    decide

theorem unbalanced_lookupRefs : Unbalanced lookupRefs := by decide

theorem unbalanced_undoneRefs : Unbalanced undoneRefs := by decide

theorem BindCall.run_unbalanced (c : BindCall) (b : Bindings) : Unbalanced (c.run b).refs := by
  cases hcheck : c.check with
  | error x =>
      rw [@run_refused c b x.1 x.2 hcheck]
      exact check_unbalanced hcheck
  | ok sb =>
      cases hmem : c.mem with
      | true =>
          rw [run_replaced hcheck hmem]
          exact unbalanced_lookupRefs
      | false =>
          rw [run_lost hcheck hmem]
          exact unbalanced_undoneRefs

def runRefs : Nat → List BindResult → List (Event (Nat × PathRef))
  | _, [] => []
  | i, r :: results => r.refs.map (Event.map fun x => (i, x)) ++ runRefs (i + 1) results

theorem le_of_mem_runRefs {i : Nat} {results : List BindResult} {e : Event (Nat × PathRef)}
    (h : e ∈ runRefs i results) : i ≤ e.subject.1 := by
  induction results generalizing i with
  | nil => cases h
  | cons r results ih =>
      rcases List.mem_append.mp h with h | h
      · obtain ⟨x, -, rfl⟩ := List.mem_map.mp h
        cases x <;> exact Nat.le_refl i
      · exact Nat.le_of_succ_le (ih h)

theorem mem_runRefs_cons {i : Nat} {r : BindResult} {results : List BindResult}
    {e : Event PathRef} :
    e.map (fun x => (i, x)) ∈ runRefs i (r :: results) ↔ e ∈ r.refs := by
  have hinj : Function.Injective (Event.map fun x : PathRef => (i, x)) := by
    intro a b hab
    cases a <;> cases b <;> simp_all [Event.map]
  constructor
  · intro h
    rcases List.mem_append.mp h with h | h
    · exact (List.mem_map_of_injective hinj).mp h
    · have hle := le_of_mem_runRefs h
      have hsubject : (e.map fun x => (i, x)).subject.1 = i := by cases e <;> rfl
      omega
  · intro h
    exact List.mem_append_left _ (List.mem_map_of_mem h)

/-- No sequence of calls gives back what it took and only that: its first call never does. -/
theorem bind_refs_unsettled {b b' : Bindings} {c : BindCall} {calls : List BindCall}
    {results : List BindResult} (hr : rebinding.run b (c :: calls) = some (b', results)) :
    ¬ Settled (runRefs 0 results) := by
  obtain ⟨m, r, rest, hstep, -, rfl⟩ := rebinding.run_cons_iff.mp hr
  obtain ⟨rfl, rfl⟩ : (c.run b).bound = m ∧ c.run b = r := by simpa [rebinding] using hstep
  obtain ⟨hkept, hnew, hbegun⟩ := c.run_unbalanced b
  rcases hbegun with hunset | hfirst
  · apply not_settled_of_unacquired (mem_runRefs_cons.mpr hunset)
    exact fun h => hnew (mem_runRefs_cons.mp h)
  · apply not_settled_of_unreleased (mem_runRefs_cons.mpr hfirst)
    exact fun h => hkept (mem_runRefs_cons.mp h)

theorem bind_refs_unsettled_once :
    ∃ b' results, rebinding.run (fun _ => none) [bindTo "/p" true] = some (b', results) ∧
      ¬ Settled (runRefs 0 results) :=
  ⟨_, _, rfl, @bind_refs_unsettled (fun _ => none) _ (bindTo "/p" true) [] _ rfl⟩

theorem successful_bind_unsettled : ¬ ∀ b c, Settled (BindCall.run c b).refs := by
  intro h
  have hsettled := h (fun _ => none) (bindTo "/p" true)
  exact not_settled_of_unreleased (r := .ramfsMount) (by decide) (by decide) hsettled

/-! ## The call over a directory tree -/

def World.found (W : World) (st : Store) (path : CString) : Except Errno Found :=
  match W.kernPathAny st path with
  | none => .error enoent
  | some x => .ok ⟨some (W.superBlock x), x.isLeft⟩

/-- The call when nobody changes the tree meanwhile. -/
def World.bindCall (W : World) (st : Store) (ramfsPath syncDir : CString) (mem : Bool) :
    BindCall where
  first := W.found st syncDir
  mount := W.found st ramfsPath
  second := W.found st syncDir
  fsInfo := true
  mem := mem
  ramfsPath := some ramfsPath
  syncDir := some syncDir

/-- The binding of paths in a tree is this call with the answers of the tree. -/
theorem World.ramfsBind_eq_run (W : World) (st : Store) (ramfsPath syncDir : CString)
    (mem : Bool) :
    W.ramfsBind st ramfsPath syncDir mem =
      ({ W with syncDir := ((W.bindCall st ramfsPath syncDir mem).run W.syncDir).bound },
        ((W.bindCall st ramfsPath syncDir mem).run W.syncDir).ret) := by
  simp only [World.ramfsBind, World.bindCall, BindCall.run, BindCall.check, World.found]
  cases W.kernPathAny st syncDir with
  | none => rfl
  | some dir =>
      cases W.kernPathAny st ramfsPath with
      | none => simp
      | some mount =>
          cases hb : W.superBlock mount with
          | disk sb => simp [hb]
          | ramfs sb =>
              cases dir with
              | inr l => simp [hb]
              | inl d => cases mem <;> simp [hb]

/-! ## `/proc/fs/ramfs/bind` -/

/-- The two strings in the buffer: what is before the first space, and what is behind it
without spaces in front and line ends behind. -/
def bindStrings (buf : Bytes) : Option (CString × CString) :=
  let text := cString buf
  match text.dropWhile (· ≠ space) with
  | [] => none
  | _ :: rest => some (text.takeWhile (· ≠ space), stripLineEnds (rest.dropWhile (· = space)))

/-- `ramfs_proc_bind_write`; `alloc` and `copied` are the answers to `kmalloc` and
`copy_from_user`. -/
def ramfsProcBindWrite (alloc copied : Bool) (x : BindAnswers) (buf : Bytes) (b : Bindings) :
    Bindings × Int :=
  if alloc = false then (b, -(enomem : Int))
  else if copied = false then (b, -(efault : Int))
  else
    match bindStrings buf with
    | none => (b, -(einval : Int))
    | some (ramfsPath, syncDir) =>
        let r := BindCall.run ⟨x, some ramfsPath, some syncDir⟩ b
        match r.ret with
        | .ok () => (r.bound, (buf.length : Int))
        | .error e => (r.bound, -(e : Int))

end OShm.Ramfs
