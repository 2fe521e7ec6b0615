import OShm.Kernel.Task

/-! # The `set_thread_socket_attrs` system call -/

namespace OShm.Net

open OShm.Kernel

def findTaskByVpid (tasks : List TaskStruct) (pid : Int) : Option TaskStruct :=
  tasks.find? fun t => (t.pid : Int) = pid ∧ t.hashed

def target (tasks : List TaskStruct) (cur : TaskStruct) (pid : Int) : Option TaskStruct :=
  if pid = 0 then some cur else findTaskByVpid tasks pid

/-- The caller has the capability or is the user of the target. -/
def mayChange (cur task : TaskStruct) (capSysResource : Bool) : Bool :=
  capSysResource || cur.euid == task.euid || cur.euid == task.uid

def assignAttrs (task : TaskStruct) (maxSockets priorityLevel : Int) : TaskStruct :=
  let task := if -1 ≤ maxSockets then { task with maxSocketAllowed := maxSockets } else task
  if 0 ≤ priorityLevel ∧ priorityLevel ≤ 100 then { task with priorityLevel := priorityLevel }
  else task

def setThreadSocketAttrs (tasks : List TaskStruct) (cur : TaskStruct) (capSysResource : Bool)
    (pid maxSockets priorityLevel : Int) (flags : Nat) : List TaskStruct × Int :=
  if flags ≠ 0 then (tasks, -einval)
  else
    match target tasks cur pid with
    | none => (tasks, -esrch)
    | some task =>
        if !mayChange cur task capSysResource then (tasks, -eperm)
        else
          (tasks.map fun t =>
            if t.self = task.self then assignAttrs t maxSockets priorityLevel else t, 0)

/-- Everything the call can do to one task of the list. -/
structure AttrsChange (t t' : TaskStruct) : Prop where
  keeps : { t' with maxSocketAllowed := t.maxSocketAllowed, priorityLevel := t.priorityLevel } = t
  limit : t'.maxSocketAllowed = t.maxSocketAllowed ∨ -1 ≤ t'.maxSocketAllowed
  level : t'.priorityLevel = t.priorityLevel ∨ (0 ≤ t'.priorityLevel ∧ t'.priorityLevel ≤ 100)

theorem AttrsChange.refl (t : TaskStruct) : AttrsChange t t := ⟨rfl, Or.inl rfl, Or.inl rfl⟩

theorem assignAttrs_change (t : TaskStruct) (maxSockets priorityLevel : Int) :
    AttrsChange t (assignAttrs t maxSockets priorityLevel) := by
  unfold assignAttrs
  by_cases hm : -1 ≤ maxSockets <;> by_cases hp : 0 ≤ priorityLevel ∧ priorityLevel ≤ 100
  · simp only [hm, hp, if_true, and_self]
    exact ⟨rfl, Or.inr hm, Or.inr hp⟩
  · simp only [hm, hp, if_true, if_false]
    exact ⟨rfl, Or.inr hm, Or.inl rfl⟩
  · simp only [hm, hp, if_true, if_false, and_self]
    exact ⟨rfl, Or.inl rfl, Or.inr hp⟩
  · simp only [hm, hp, if_false]
    exact .refl t

/-! ## What the call does -/

section Call

variable (tasks : List TaskStruct) (cur : TaskStruct) (cap : Bool)
  (pid maxSockets priorityLevel : Int) (flags : Nat)

def Refused : Prop :=
  flags ≠ 0 ∨ ∀ task, target tasks cur pid = some task → mayChange cur task cap = false

variable {tasks cur cap pid maxSockets priorityLevel flags}

theorem target_mem (hcur : cur ∈ tasks) {task : TaskStruct}
    (h : target tasks cur pid = some task) : task ∈ tasks := by
  unfold target at h
  split at h
  · exact Option.some.inj h ▸ hcur
  · exact List.mem_of_find?_eq_some h

theorem setThreadSocketAttrs_of_refused (h : Refused tasks cur cap pid flags) :
    (setThreadSocketAttrs tasks cur cap pid maxSockets priorityLevel flags).2 < 0 ∧
      (setThreadSocketAttrs tasks cur cap pid maxSockets priorityLevel flags).1 = tasks := by
  have hinval : -(einval : Int) < 0 := by decide
  have hsrch : -(esrch : Int) < 0 := by decide
  have hperm : -(eperm : Int) < 0 := by decide
  unfold setThreadSocketAttrs
  by_cases hflags : flags ≠ 0
  · rw [if_pos hflags]
    exact ⟨hinval, rfl⟩
  · rw [if_neg hflags]
    have hmay := h.resolve_left hflags
    cases htask : target tasks cur pid with
    | none => exact ⟨hsrch, rfl⟩
    | some task =>
        simp only [hmay task htask, Bool.not_false, if_true]
        exact ⟨hperm, trivial⟩

theorem setThreadSocketAttrs_of_accepted {task : TaskStruct} (hflags : flags = 0)
    (htask : target tasks cur pid = some task) (hmay : mayChange cur task cap = true) :
    setThreadSocketAttrs tasks cur cap pid maxSockets priorityLevel flags =
      (tasks.map fun t =>
        if t.self = task.self then assignAttrs t maxSockets priorityLevel else t, 0) := by
  simp [setThreadSocketAttrs, hflags, htask, hmay]

theorem exists_target_of_not_refused (h : ¬ Refused tasks cur cap pid flags) :
    flags = 0 ∧ ∃ task, target tasks cur pid = some task ∧ mayChange cur task cap = true := by
  simpa only [Refused, not_or, not_not, not_forall, Bool.not_eq_false, exists_prop] using h

/-- The call keeps the list in place and changes single tasks of it. -/
theorem setThreadSocketAttrs_map (tasks : List TaskStruct) (cur : TaskStruct) (cap : Bool)
    (pid maxSockets priorityLevel : Int) (flags : Nat) :
    ∃ f : TaskStruct → TaskStruct, (∀ t, AttrsChange t (f t)) ∧
      (setThreadSocketAttrs tasks cur cap pid maxSockets priorityLevel flags).1 = tasks.map f := by
  by_cases hrefused : Refused tasks cur cap pid flags
  · refine ⟨id, AttrsChange.refl, ?_⟩
    rw [(setThreadSocketAttrs_of_refused hrefused).2, List.map_id]
  · obtain ⟨hflags, task, htask, hmay⟩ := exists_target_of_not_refused hrefused
    refine ⟨_, fun t => ?_, by rw [setThreadSocketAttrs_of_accepted hflags htask hmay]⟩
    split
    · exact assignAttrs_change t maxSockets priorityLevel
    · exact .refl t

end Call

/-! ## All or nothing -/

section AllOrNothing

variable (tasks : List TaskStruct) (cur : TaskStruct) (cap : Bool)
  (pid maxSockets priorityLevel : Int) (flags : Nat)

/-- The call returns 0 and both attributes of the target are the ones asked for, with
nothing else changed, or it returns an error and nothing is changed. -/
def AllOrNothing : Prop :=
  ((setThreadSocketAttrs tasks cur cap pid maxSockets priorityLevel flags).2 = 0 ∧
    ∃ task, target tasks cur pid = some task ∧
      (setThreadSocketAttrs tasks cur cap pid maxSockets priorityLevel flags).1 =
        tasks.map fun t =>
          if t.self = task.self then
            { t with maxSocketAllowed := maxSockets, priorityLevel := priorityLevel }
          else t) ∨
  ((setThreadSocketAttrs tasks cur cap pid maxSockets priorityLevel flags).2 < 0 ∧
    (setThreadSocketAttrs tasks cur cap pid maxSockets priorityLevel flags).1 = tasks)

/-- Each attribute of the task is assigned or is what was asked for already. -/
def Assigns (task : TaskStruct) : Prop :=
  (-1 ≤ maxSockets ∨ task.maxSocketAllowed = maxSockets) ∧
    ((0 ≤ priorityLevel ∧ priorityLevel ≤ 100) ∨ task.priorityLevel = priorityLevel)

variable {tasks cur cap pid maxSockets priorityLevel flags}

theorem assignAttrs_eq_iff (t : TaskStruct) :
    assignAttrs t maxSockets priorityLevel =
        { t with maxSocketAllowed := maxSockets, priorityLevel := priorityLevel } ↔
      Assigns maxSockets priorityLevel t := by
  cases t
  unfold assignAttrs Assigns
  by_cases hm : -1 ≤ maxSockets <;> by_cases hp : 0 ≤ priorityLevel ∧ priorityLevel ≤ 100 <;>
    simp [hm, hp]

/-- The call is all or nothing exactly when it is refused or both values are in range. -/
theorem setThreadSocketAttrs_allOrNothing_iff
    (hdistinct : ∀ t ∈ tasks, ∀ u ∈ tasks, t.self = u.self → t = u) (hcur : cur ∈ tasks) :
    AllOrNothing tasks cur cap pid maxSockets priorityLevel flags ↔
      Refused tasks cur cap pid flags ∨
        ∀ task, target tasks cur pid = some task → Assigns maxSockets priorityLevel task := by
  by_cases hrefused : Refused tasks cur cap pid flags
  · exact iff_of_true (Or.inr (setThreadSocketAttrs_of_refused hrefused)) (Or.inl hrefused)
  · obtain ⟨hflags, task, htask, hmay⟩ := exists_target_of_not_refused hrefused
    have hmem := target_mem hcur htask
    have hcall := @setThreadSocketAttrs_of_accepted tasks cur cap pid maxSockets priorityLevel
      flags task hflags htask hmay
    constructor
    · intro h
      refine Or.inr fun task' htask' => ?_
      obtain rfl : task = task' := Option.some.inj (htask.symm.trans htask')
      rcases h with ⟨-, u, hu, hlist⟩ | ⟨hneg, -⟩
      · obtain rfl : task = u := Option.some.inj (htask.symm.trans hu)
        have hat := List.map_inj_left.mp ((congrArg Prod.fst hcall).symm.trans hlist) task hmem
        exact (assignAttrs_eq_iff task).mp (by simpa using hat)
      · rw [hcall] at hneg
        exact absurd hneg (Int.lt_irrefl 0)
    · rintro (h | h)
      · have hno := (h.resolve_left (not_not.mpr hflags)) task htask
        rw [hmay] at hno
        cases hno
      · refine Or.inl ⟨by rw [hcall], task, htask, ?_⟩
        rw [hcall]
        refine List.map_congr_left fun t ht => ?_
        by_cases hself : t.self = task.self
        · obtain rfl := hdistinct t ht task hmem hself
          rw [if_pos rfl, if_pos rfl]
          exact (assignAttrs_eq_iff t).mpr (h t htask)
        · rw [if_neg hself, if_neg hself]

end AllOrNothing

def oneTask : TaskStruct := ⟨16, 1, 1, none, none, none, -1, 0, 50, 5, 5, true⟩

theorem setThreadSocketAttrs_allOrNothing_own :
    AllOrNothing [oneTask] oneTask false 0 3 100 0 :=
  (setThreadSocketAttrs_allOrNothing_iff (by decide) (by decide)).mpr
    (Or.inr fun _ _ => ⟨Or.inl (by decide), Or.inl (by decide)⟩)

/-- A limit of -2 and a level of 101 are reported as set and are not. -/
theorem setThreadSocketAttrs_ignores :
    setThreadSocketAttrs [oneTask] oneTask false 0 (-2) 101 0 = ([oneTask], 0) ∧
      ¬ AllOrNothing [oneTask] oneTask false 0 (-2) 101 0 := by
  have hcall : setThreadSocketAttrs [oneTask] oneTask false 0 (-2) 101 0 = ([oneTask], 0) := by
    decide
  refine ⟨hcall, ?_⟩
  rintro (⟨-, task, htask, hlist⟩ | ⟨hneg, -⟩)
  · obtain rfl : oneTask = task := Option.some.inj htask
    rw [hcall] at hlist
    exact absurd hlist (by decide)
  · rw [hcall] at hneg
    exact absurd hneg (by decide)

end OShm.Net
