import Mathlib.Data.List.DropRight
import OShm.Lib.CBuffer
import OShm.Ramfs.Rebind

/-! # The bind command in its buffer

`ramfs_proc_bind_write` cuts its buffer into two strings where they stand. Here it runs on
the buffer, with every access checked, and is compared with the strings themselves.
-/

namespace OShm.Ramfs

open OShm.Kernel OShm.Lib OShm.Lib.CBuffer

/-! ## The handler on its buffer -/

/-- The loop that takes line ends off the string at `start`. The pointer `end` of the source
is `start + n - 1`, so it is in front of the string when `n` is 0. -/
def trimEnds (start : Nat) : Nat → Bytes → Option Bytes
  | 0, buf => some buf
  | n + 1, buf => do
      let b ← load buf (start + n)
      if isLineEnd b then trimEnds start n (← store buf (start + n) 0)
      else some buf

/-- From the buffer to the two strings, where the answer `none` inside stands for a buffer
without a space. -/
def cutBuffer (kbuf : Bytes) : Option (Option (CString × CString)) := do
  match ← strchr 0 kbuf 0 space with
  | none => return none
  | some i =>
      let kbuf ← store kbuf i 0
      let syncDir ← scan (· ≠ space) kbuf (i + 1)
      let n ← strlen 0 kbuf syncDir
      let kbuf ← trimEnds syncDir n kbuf
      return some (← stringAt 0 kbuf 0, ← stringAt 0 kbuf syncDir)

structure BindWriteRun where
  /-- The arguments of each call of `ramfs_bind`. -/
  calls : List (CString × CString)
  bound : Bindings
  ret : Int

/-- `ramfs_proc_bind_write` with its accesses to the buffer; `fresh` is the byte behind the
command before it is set. No result stands for an access outside the `count + 1` bytes. -/
def ramfsProcBindWriteAt (alloc copied : Bool) (fresh : UInt8) (x : BindAnswers) (buf : Bytes)
    (b : Bindings) : Option BindWriteRun :=
  if alloc = false then some ⟨[], b, -(enomem : Int)⟩
  else if copied = false then some ⟨[], b, -(efault : Int)⟩
  else do
    let kbuf ← store (buf ++ [fresh]) buf.length 0
    match ← cutBuffer kbuf with
    | none => return ⟨[], b, -(einval : Int)⟩
    | some (ramfsPath, syncDir) =>
        let r := BindCall.run ⟨x, some ramfsPath, some syncDir⟩ b
        return ⟨[(ramfsPath, syncDir)], r.bound,
          match r.ret with
          | .ok () => (buf.length : Int)
          | .error e => -(e : Int)⟩

/-! ## Strings in the buffer -/

theorem nul_not_mem_cString (buf : Bytes) : (0 : UInt8) ∉ cString buf := by
  intro h
  have := List.mem_takeWhile_imp h
  simp at this

/-- What stands in the buffer: the text and the NUL that ends it. -/
theorem buffer_eq_cString (buf : Bytes) : ∃ tail, buf ++ [0] = cString buf ++ 0 :: tail := by
  induction buf with
  | nil => exact ⟨[], rfl⟩
  | cons c buf ih =>
      by_cases hc : c = 0
      · exact ⟨buf ++ [0], by simp [cString, hc]⟩
      · obtain ⟨tail, htail⟩ := ih
        refine ⟨tail, ?_⟩
        simp only [cString] at htail
        simp [cString, hc, htail]

theorem stripLineEnds_concat (w : Bytes) (c : UInt8) :
    stripLineEnds (w ++ [c]) = if isLineEnd c then stripLineEnds w else w ++ [c] :=
  List.rdropWhile_concat isLineEnd w c

theorem stripLineEnds_subset (w : Bytes) : stripLineEnds w ⊆ w :=
  (List.rdropWhile_prefix isLineEnd w).subset

theorem stripLineEnds_append {w ends : Bytes} (hw : ∀ c ∈ w.getLast?, isLineEnd c = false)
    (hends : ∀ c ∈ ends, isLineEnd c = true) : stripLineEnds (w ++ ends) = w := by
  induction ends using List.reverseRecOn with
  | nil =>
      rw [List.append_nil]
      refine List.rdropWhile_eq_self_iff.mpr fun hne => ?_
      simp [hw _ (List.getLast?_eq_some_getLast hne)]
  | append_singleton ends e ih =>
      rw [← List.append_assoc, stripLineEnds_concat, if_pos (hends e (by simp))]
      exact ih fun d hd => hends d (List.mem_append_left _ hd)

/-- The loop leaves the stripped string with a NUL behind it. -/
theorem trimEnds_append (pre w tail : Bytes) :
    ∃ tail', trimEnds pre.length w.length (pre ++ w ++ 0 :: tail) =
      some (pre ++ stripLineEnds w ++ 0 :: tail') := by
  -- the loop goes from the end of the string to its front
  induction w using List.reverseRecOn generalizing tail with
  | nil => exact ⟨tail, rfl⟩
  | append_singleton w c ih =>
      have hbuf : pre ++ (w ++ [c]) ++ 0 :: tail = (pre ++ w) ++ c :: 0 :: tail := by simp
      have hload := load_append (pre ++ w) (0 :: tail) c
      have hstore := store_append (pre ++ w) (0 :: tail) c 0
      rw [List.length_append] at hload hstore
      rw [hbuf, stripLineEnds_concat, List.length_append, List.length_singleton, trimEnds, hload]
      cases hc : isLineEnd c with
      | false => exact ⟨tail, by simp [hc]⟩
      | true =>
          obtain ⟨tail', htail⟩ := ih (0 :: tail)
          refine ⟨tail', ?_⟩
          simp only [Option.bind_eq_bind, Option.bind_some, if_true, hc, hstore]
          simpa using htail

theorem cutBuffer_refused {text tail : Bytes} (hnul : 0 ∉ text) (hspace : space ∉ text) :
    cutBuffer (text ++ 0 :: tail) = some none := by
  have hchr := strchr_append text tail hspace hnul (b := (0 : UInt8)) (Or.inr rfl)
  rw [if_neg (by decide)] at hchr
  simp [cutBuffer, hchr]

theorem cutBuffer_cut {path blanks dir tail : Bytes} (hpath : 0 ∉ path) (hspace : space ∉ path)
    (hblanks : ∀ c ∈ blanks, c = space) (hdir : 0 ∉ dir) (hhead : dir.head? ≠ some space) :
    cutBuffer (path ++ space :: (blanks ++ dir) ++ 0 :: tail) =
      some (some (path, stripLineEnds dir)) := by
  -- the buffer up to the second string, once the space is overwritten
  let pre := path ++ 0 :: blanks
  have hpre : pre.length = path.length + 1 + blanks.length := by
    simp only [pre, List.length_append, List.length_cons]
    omega
  have hchr : strchr 0 (path ++ space :: (blanks ++ dir) ++ 0 :: tail) 0 space =
      some (some path.length) := by
    have h := strchr_append path (blanks ++ dir ++ 0 :: tail) hspace hpath (b := space)
      (Or.inl rfl)
    simpa using h
  have hstore : store (path ++ space :: (blanks ++ dir) ++ 0 :: tail) path.length 0 =
      some (pre ++ dir ++ 0 :: tail) := by
    simpa [pre] using store_append path (blanks ++ dir ++ 0 :: tail) space 0
  have hscan : scan (· ≠ space) (pre ++ dir ++ 0 :: tail) (path.length + 1) =
      some pre.length := by
    -- the loop stops at the string, or at the NUL when the string is empty
    obtain ⟨c, after, hafter, hc⟩ : ∃ c after, dir ++ 0 :: tail = c :: after ∧ c ≠ space := by
      cases dir with
      | nil => exact ⟨0, tail, rfl, by decide⟩
      | cons c dir => exact ⟨c, dir ++ 0 :: tail, rfl, by simpa using hhead⟩
    have h := scan_append (fun b => decide (b ≠ space)) (path ++ [0]) blanks after (b := c)
      (by simpa using hblanks) (by simpa using hc)
    rw [← hafter] at h
    rw [hpre]
    simpa [pre] using h
  obtain ⟨tail', htrim⟩ := trimEnds_append pre dir tail
  have hlen := strlen_append pre dir tail hdir
  have hfirst : stringAt 0 (pre ++ stripLineEnds dir ++ 0 :: tail') 0 = some path := by
    have h := stringAt_append [] path (blanks ++ stripLineEnds dir ++ 0 :: tail') hpath
    simpa [pre] using h
  have hsecond := stringAt_append pre (stripLineEnds dir) tail'
    fun h => hdir (stripLineEnds_subset dir h)
  simp only [cutBuffer, Option.bind_eq_bind, Option.bind_some, hchr, hstore, hscan, hlen, htrim,
    hfirst, hsecond, Option.pure_def]

/-! ## The handler and its strings -/

/-- The buffer is cut into the two strings of the command, and no access leaves it. -/
theorem cutBuffer_eq_bindStrings (buf : Bytes) :
    cutBuffer (buf ++ [0]) = some (bindStrings buf) := by
  obtain ⟨tail, htail⟩ := buffer_eq_cString buf
  have hnul := nul_not_mem_cString buf
  rw [htail, bindStrings]
  cases hrest : (cString buf).dropWhile (· ≠ space) with
  | nil =>
      have hspace : space ∉ cString buf := by
        intro h
        simpa using List.dropWhile_eq_nil_iff.mp hrest space h
      exact cutBuffer_refused hnul hspace
  | cons c rest =>
      have hsplit : (cString buf).takeWhile (· ≠ space) ++ c :: rest = cString buf := by
        rw [← hrest]
        exact List.takeWhile_append_dropWhile
      obtain rfl : c = space := by
        have h := List.head?_dropWhile_not (fun b => decide (b ≠ space)) (cString buf)
        rw [hrest] at h
        simpa using h
      rw [← hsplit, List.mem_append, List.mem_cons] at hnul
      have hdir : (0 : UInt8) ∉ rest := fun h => hnul (Or.inr (Or.inr h))
      have hblanks : rest = rest.takeWhile (· = space) ++ rest.dropWhile (· = space) :=
        List.takeWhile_append_dropWhile.symm
      have hcut := @cutBuffer_cut ((cString buf).takeWhile (· ≠ space))
        (rest.takeWhile (· = space)) (rest.dropWhile (· = space)) tail
        (fun h => hnul (Or.inl h))
        (fun h => by simpa using List.mem_takeWhile_imp h)
        (fun c hc => by simpa using List.mem_takeWhile_imp hc)
        (fun h => hdir ((List.dropWhile_suffix _).mem h))
        (by
          have h := List.head?_dropWhile_not (fun b => decide (b = space)) rest
          intro hhead
          simp [hhead] at h)
      rw [← hblanks, hsplit] at hcut
      exact hcut

theorem procBindWriteAt_eq (alloc copied : Bool) (fresh : UInt8) (x : BindAnswers) (buf : Bytes)
    (b : Bindings) :
    ramfsProcBindWriteAt alloc copied fresh x buf b =
      some ⟨if alloc && copied then (bindStrings buf).toList else [],
        (ramfsProcBindWrite alloc copied x buf b).1,
        (ramfsProcBindWrite alloc copied x buf b).2⟩ := by
  have hstore := store_append buf [] fresh 0
  have hcut := cutBuffer_eq_bindStrings buf
  cases alloc with
  | false => rfl
  | true =>
      cases copied with
      | false => rfl
      | true =>
          cases hstrings : bindStrings buf with
          | none => simp [ramfsProcBindWriteAt, ramfsProcBindWrite, hstore, hcut, hstrings]
          | some p =>
              cases hret : (BindCall.run ⟨x, some p.1, some p.2⟩ b).ret <;>
                simp [ramfsProcBindWriteAt, ramfsProcBindWrite, hstore, hcut, hstrings, hret]

/-! ## Commands -/

/-- A path and a directory as a user writes them: blanks between them, line ends behind. -/
structure Command where
  path : Bytes
  blanks : Nat
  dir : Bytes
  ends : Bytes
  path_nul : 0 ∉ path
  path_space : space ∉ path
  blanks_pos : 1 ≤ blanks
  dir_nul : 0 ∉ dir
  dir_head : dir.head? ≠ some space
  dir_last : ∀ c ∈ dir.getLast?, isLineEnd c = false
  ends_line : ∀ c ∈ ends, isLineEnd c = true

namespace Command

def format (c : Command) : Bytes :=
  c.path ++ List.replicate c.blanks space ++ c.dir ++ c.ends

variable (c : Command)

theorem nul_not_mem_format : 0 ∉ c.format := by
  have hends : (0 : UInt8) ∉ c.ends := fun h => absurd (c.ends_line 0 h) (by decide)
  have hblank : (0 : UInt8) ≠ space := by decide
  simp [format, c.path_nul, c.dir_nul, hends, hblank]

theorem cString_format : cString c.format = c.format := by
  refine List.takeWhile_eq_self_iff.mpr fun b hb => ?_
  have hne : b ≠ 0 := fun h => c.nul_not_mem_format (h ▸ hb)
  simpa using hne

theorem dropWhile_blanks :
    (List.replicate (c.blanks - 1) space ++ (c.dir ++ c.ends)).dropWhile (· = space) =
      c.dir ++ c.ends := by
  rw [List.dropWhile_append_of_pos (by simp)]
  cases hdir : c.dir with
  | nil =>
      cases hends : c.ends with
      | nil => rfl
      | cons e ends =>
          have he : e ≠ space := by
            rintro rfl
            exact absurd (c.ends_line space (by simp [hends])) (by decide)
          simp [he]
  | cons d dir =>
      have hd : d ≠ space := by simpa [hdir] using c.dir_head
      simp [hd]

theorem bindStrings_format : bindStrings c.format = some (c.path, c.dir) := by
  have hformat : c.format =
      c.path ++ space :: (List.replicate (c.blanks - 1) space ++ (c.dir ++ c.ends)) := by
    have hblanks : c.blanks = c.blanks - 1 + 1 := (Nat.sub_add_cancel c.blanks_pos).symm
    rw [format, hblanks, List.replicate_succ]
    simp
  have hpath : ∀ b ∈ c.path, decide (b ≠ space) = true := by
    intro b hb
    have hne : b ≠ space := fun h => c.path_space (h ▸ hb)
    simpa using hne
  have hrest := c.dropWhile_blanks
  have hstrip := stripLineEnds_append c.dir_last c.ends_line
  rw [bindStrings, cString_format, hformat]
  simp only [List.takeWhile_append_of_pos hpath, List.dropWhile_append_of_pos hpath]
  simp [hrest, hstrip]

end Command

/-- A formatted command is cut into its path and its directory, which are handed to
`ramfs_bind` once. Whatever the bytes, no access leaves the buffer, and without a space
before the first NUL there is no call. -/
theorem bind_command_parsed (fresh : UInt8) (x : BindAnswers) (b : Bindings) :
    (∀ c : Command, ∃ r, ramfsProcBindWriteAt true true fresh x c.format b = some r ∧
        r.calls = [(c.path, c.dir)]) ∧
      (∀ alloc copied buf, ramfsProcBindWriteAt alloc copied fresh x buf b ≠ none) ∧
      ∀ buf, space ∉ cString buf →
        ramfsProcBindWriteAt true true fresh x buf b = some ⟨[], b, -(einval : Int)⟩ := by
  refine ⟨fun c => ?_, fun alloc copied buf => ?_, fun buf hspace => ?_⟩
  · refine ⟨_, procBindWriteAt_eq true true fresh x c.format b, ?_⟩
    simp [c.bindStrings_format]
  · simp [procBindWriteAt_eq]
  · have hnone : bindStrings buf = none := by
      have hrest : (cString buf).dropWhile (· ≠ space) = [] := by
        refine List.dropWhile_eq_nil_iff.mpr fun c hc => ?_
        have hne : c ≠ space := fun h => hspace (h ▸ hc)
        simpa using hne
      simp only [bindStrings, hrest]
    simp [procBindWriteAt_eq, ramfsProcBindWrite, hnone]

theorem bind_command_parsed_lines :
    (∃ r, ramfsProcBindWriteAt true true 7 (bindTo "/p" true).toBindAnswers
        (ascii "/r  /my dir\r\n") (fun _ => none) = some r ∧
        r.calls = [(ascii "/r", ascii "/my dir")]) ∧
      ramfsProcBindWriteAt true true 7 (bindTo "/p" true).toBindAnswers
        (ascii "/r" ++ 0 :: ascii " /d") (fun _ => none) =
        some ⟨[], fun _ => none, -(einval : Int)⟩ := by
  obtain ⟨hcut, -, hrefused⟩ := bind_command_parsed 7 (bindTo "/p" true).toBindAnswers
    fun _ => none
  refine ⟨?_, hrefused _ (by decide)⟩
  exact hcut ⟨ascii "/r", 2, ascii "/my dir", ascii "\r\n", by decide, by decide, by decide,
    by decide, by decide, fun c hc => by cases hc; decide, List.all_eq_true.mp (by decide)⟩

end OShm.Ramfs
