import OShm.Gptfs.Consistency

/-! # Reported sizes

`st_size` is kept beside the bytes of a file. A truncation to more bytes than there are, and
a write that empties a file of the session, change one of the two only.
-/

namespace OShm.Gptfs

open OShm.Lib OShm.Lib.PathString

/-- A read of the whole file returns `b`. -/
def WholeFile (s : State) (p : Str) (b : Bytes) : Prop :=
  ∀ size, b.length ≤ size → (s.read p size 0).2 = .ok (.bytes b)

/-- For every file of every session, `getattr` reports the size that can be read. -/
def SizesAgree (s : State) : Prop :=
  ∀ n : Name, s.hasType (Node.session n).path sIfdir → ∀ k : Special,
    ∃ a b, s.stat (Node.special n k).path = some a ∧ WholeFile s (Node.special n k).path b ∧
      a.size = some b.length

/-- The calls that keep the sizes right: a truncation does not grow the file; a write finds
the error file empty if the call then answers, and the output file empty if it raises. -/
def SizeSafe (s : State) (a : Op × Env) : Prop :=
  match a.1 with
  | .truncate p length => length ≤ ((s.data p).getD []).length
  | .write p data offset =>
      "/input".toList.isSuffixOf p = true → ∀ d, getSessionDir p = some d →
        match callGptApi s.apiKey a.2.chat (State.written ((s.data p).getD []) data offset) with
        | .ok _ => (s.data (join '/' d Special.error.name)).getD [] = []
        | .error _ => (s.data (join '/' d Special.output.name)).getD [] = []
  | _ => True

theorem Op.assigns_size {op : Op} {env : Env} {f : Attr → Attr} {ret : Value}
    (h : op.assigns env = some (f, ret)) (a : Attr) : (f a).size = a.size := by
  cases Op.assigns_cases h <;> rfl

namespace Session

def Sized (s : Session) : Prop := ∀ k, (s.attr (some k)).size = some (s.data k).length

theorem written_length (old data : Bytes) (offset : Nat) :
    (State.written old data offset).length = offset + data.length := by
  unfold State.written
  split
  · omega
  · split
    · simp only [List.length_append, List.length_take, List.length_replicate]
      omega
    · simp only [List.length_append, List.length_take]
      omega

theorem fresh_sized (mode : Nat) (now : Time) : (fresh mode now).Sized := by
  intro k
  rfl

theorem sized_updateAttr_iff (s : Session) (k : Option Special) {f : Attr → Attr}
    (hf : ∀ a, (f a).size = a.size) : (s.updateAttr k f).Sized ↔ s.Sized := by
  have hsize : ∀ j, ((s.updateAttr k f).attr j).size = (s.attr j).size := by
    intro j
    by_cases hj : j = k
    · subst hj
      simp [updateAttr, hf]
    · simp [updateAttr, hj]
  simp only [Sized, hsize, updateAttr_data]

theorem sized_truncate_iff {s : Session} (hs : s.Sized) (k : Special) (length : Nat) :
    ((s.setData k ((s.data k).take length)).updateAttr (some k)
      fun a => { a with size := some length }).Sized ↔ length ≤ (s.data k).length := by
  constructor
  · intro h
    have hk := h k
    simp [updateAttr, setData] at hk
    omega
  · intro hle j
    by_cases hj : j = k
    · subst hj
      simp [updateAttr, setData]
      omega
    · simpa [updateAttr, setData, hj] using hs j

section Request

variable (s : Session) (apiKey : Bool) (data : Bytes) (offset : Nat) (env : Env)

/-- The session when the service is called: the new input, and two empty files. -/
def asked : Session :=
  let content := State.written (s.data .input) data offset
  let s := (s.setData .input content).updateAttr (some .input) fun a =>
    { a with size := some (max (offset + data.length) content.length), mtime := env.clock 0 }
  (s.setData .output []).setData .error []

theorem asked_data (k : Special) :
    (s.asked data offset env).data k =
      match k with
      | .input => State.written (s.data .input) data offset
      | _ => [] := by
  cases k <;> simp [asked, setData]

theorem asked_size (k : Special) :
    ((s.asked data offset env).attr (some k)).size =
      match k with
      | .input => some (offset + data.length)
      | k => (s.attr (some k)).size := by
  have hlen := written_length (s.data .input) data offset
  cases k <;> simp [asked, updateAttr, hlen]

theorem write_eq_asked :
    s.write apiKey data offset env =
      match callGptApi apiKey env.chat (State.written (s.data .input) data offset) with
      | .error text => (s.asked data offset env).fail text env
      | .ok response => (s.asked data offset env).respond response env := by
  have hprompt := s.asked_data data offset env .input
  simp only [asked] at hprompt
  simp only [write, converse, hprompt]
  rfl

theorem write_input :
    (s.write apiKey data offset env).data .input = State.written (s.data .input) data offset ∧
      ((s.write apiKey data offset env).attr (some .input)).size = some (offset + data.length) := by
  have hdata := s.asked_data data offset env .input
  have hsize := s.asked_size data offset env .input
  rw [write_eq_asked]
  split <;> simp [fail, respond, setData, updateAttr, hdata, hsize]

variable {s apiKey data offset env}

/-- An answer is in the output file, and the error file is emptied with its old size. -/
theorem write_answered {response : Bytes}
    (h : callGptApi apiKey env.chat (State.written (s.data .input) data offset) = .ok response) :
    (s.write apiKey data offset env).data .output = response ∧
      ((s.write apiKey data offset env).attr (some .output)).size = some response.length ∧
      (s.write apiKey data offset env).data .error = [] ∧
      ((s.write apiKey data offset env).attr (some .error)).size = (s.attr (some .error)).size := by
  have hdata := s.asked_data data offset env .error
  have hsize := s.asked_size data offset env .error
  simp only [write_eq_asked, h]
  simp [respond, setData, updateAttr, hdata, hsize]

/-- An exception is in the error file, and the output file is emptied with its old size. -/
theorem write_raised {text : Bytes}
    (h : callGptApi apiKey env.chat (State.written (s.data .input) data offset) = .error text) :
    (s.write apiKey data offset env).data .output = [] ∧
      ((s.write apiKey data offset env).attr (some .output)).size = (s.attr (some .output)).size ∧
      (s.write apiKey data offset env).data .error = ascii "Error processing request: " ++ text ∧
      ((s.write apiKey data offset env).attr (some .error)).size =
        some (ascii "Error processing request: " ++ text).length := by
  have hdata := s.asked_data data offset env .output
  have hsize := s.asked_size data offset env .output
  simp only [write_eq_asked, h]
  simp [fail, setData, updateAttr, hdata, hsize]

end Request

theorem sized_write_iff {s : Session} (hs : s.Sized) (apiKey : Bool) (data : Bytes) (offset : Nat)
    (env : Env) : (s.write apiKey data offset env).Sized ↔
      match callGptApi apiKey env.chat (State.written (s.data .input) data offset) with
      | .ok _ => s.data .error = []
      | .error _ => s.data .output = [] := by
  obtain ⟨hinput, hinputSize⟩ := s.write_input apiKey data offset env
  have hlen := written_length (s.data .input) data offset
  cases hcall : callGptApi apiKey env.chat (State.written (s.data .input) data offset) with
  | ok response =>
      obtain ⟨houtput, houtputSize, herror, herrorSize⟩ := write_answered hcall
      constructor
      · intro h
        have hk := h .error
        rw [herrorSize, herror, hs .error] at hk
        simpa using hk
      · intro hempty k
        cases k with
        | input => rw [hinputSize, hinput, hlen]
        | output => rw [houtputSize, houtput]
        | error => rw [herrorSize, herror, hs .error, hempty]
  | error text =>
      obtain ⟨houtput, houtputSize, herror, herrorSize⟩ := write_raised hcall
      constructor
      · intro h
        have hk := h .output
        rw [houtputSize, houtput, hs .output] at hk
        simpa using hk
      · intro hempty k
        cases k with
        | input => rw [hinputSize, hinput, hlen]
        | output => rw [houtputSize, houtput, hs .output, hempty]
        | error => rw [herrorSize, herror]

/-- Only truncations and writes change a size or the bytes of a file. -/
theorem Sized.step_of_ne {s t : Session} (hs : s.Sized) {op : Op} {env : Env} {apiKey : Bool}
    {fd : Nat} {k : Option Special} (htrunc : ∀ p length, op ≠ .truncate p length)
    (hwrite : ∀ p data offset, op ≠ .write p data offset)
    (h : (s.step op env apiKey fd k).1 = some t) : t.Sized := by
  unfold Session.step at h
  split at h
  · next f ret ha =>
      obtain rfl := Option.some.inj h
      exact (s.sized_updateAttr_iff k (Op.assigns_size ha)).mpr hs
  · split at h
    case h_3 => cases h
    case h_5 => exact absurd rfl (htrunc _ _)
    case h_6 => exact absurd rfl (hwrite _ _ _)
    all_goals
      obtain rfl := Option.some.inj h
      exact hs

end Session

namespace Tree

def Sized (A : Tree) : Prop := ∀ n s, A.sessions n = some s → s.Sized

theorem read_concrete {A : Tree} {n : Name} {s : Session} (hs : A.sessions n = some s)
    (k : Special) (size : Nat) :
    (A.concrete.read (Node.special n k).path size 0).2 = .ok (.bytes ((s.data k).take size)) := by
  have hfiles : A.concrete.files (Node.special n k).path = some (s.attr (some k)) := by
    rw [concrete_files, attr_inside, hs]
    rfl
  simp only [State.read, fullPath_path, hfiles, reduceCtorEq, if_false, isSpecialFile_special,
    if_true, concrete_data, bytes_special, hs, Option.map_some, Option.getD_some, List.drop_zero]

theorem wholeFile_concrete_iff {A : Tree} {n : Name} {s : Session} (hs : A.sessions n = some s)
    (k : Special) (b : Bytes) :
    WholeFile A.concrete (Node.special n k).path b ↔ b = s.data k := by
  simp only [WholeFile, read_concrete hs, Except.ok.injEq, Value.bytes.injEq]
  constructor
  · intro h
    have hall := h (b.length + (s.data k).length) (by omega)
    rw [List.take_of_length_le (by omega)] at hall
    exact hall.symm
  · rintro rfl size hsize
    exact List.take_of_length_le hsize

theorem sizesAgree_concrete_iff {A : Tree} (ht : A.Typed) : SizesAgree A.concrete ↔ A.Sized := by
  constructor
  · intro h n s hs k
    have htype : A.concrete.hasType (Node.session n).path sIfdir = true := by
      rw [hasType_concrete, attr_inside, hs]
      exact decide_eq_true (ht.session n s hs none)
    obtain ⟨a, b, ha, hb, hsize⟩ := h n htype k
    obtain rfl := (wholeFile_concrete_iff hs k b).mp hb
    obtain rfl : s.attr (some k) = a := by simpa [attr_inside, hs] using ha
    exact hsize
  · intro h n htype k
    rw [hasType_concrete, attr_inside] at htype
    cases hs : A.sessions n with
    | none => simp [hs] at htype
    | some s =>
        refine ⟨s.attr (some k), s.data k, ?_, (wholeFile_concrete_iff hs k _).mpr rfl, h n s hs k⟩
        simp [attr_inside, hs]

theorem sized_put_iff {A : Tree} (hA : A.Sized) (n : Name) (t : Option Session) :
    (A.put n t).Sized ↔ ∀ s, t = some s → s.Sized := by
  constructor
  · intro h s hs
    exact h n s (by simpa using hs)
  · intro h m s hs
    by_cases hm : m = n
    · subst hm
      exact h s (by simpa using hs)
    · exact hA m s (by simpa [hm] using hs)

theorem sizeSafe_write_iff {A : Tree} {n : Name} {s : Session} (hs : A.sessions n = some s)
    (data : Bytes) (offset : Nat) (env : Env) :
    SizeSafe A.concrete (.write (Node.special n .input).path data offset, env) ↔
      match callGptApi A.apiKey env.chat (State.written (s.data .input) data offset) with
      | .ok _ => s.data .error = []
      | .error _ => s.data .output = [] := by
  have hend : "/input".toList.isSuffixOf (Node.special n .input).path = true := by
    rw [endsWith_input_special]
    rfl
  simp only [SizeSafe, hend, true_implies, getSessionDir_special, Option.some.injEq,
    forall_eq', join_session, concrete_data, bytes_special, hs, Option.map_some,
    Option.getD_some]
  rfl

theorem sized_step_iff {A : Tree} {n : Name} {s : Session} (hs : A.sessions n = some s)
    (ht : s.Typed) (hsized : s.Sized) {op : Op} (env : Env) {k : Option Special}
    (hx : op.path = (Node.inside n k).path) (hsuits : A.concrete.suits op = true) :
    (∀ t, (s.step op env A.apiKey A.fd k).1 = some t → t.Sized) ↔
      SizeSafe A.concrete (op, env) := by
  have hregular : A.concrete.hasType (Node.inside n k).path sIfreg = true → k ≠ none := by
    rintro htype rfl
    rw [hasType_concrete, attr_inside, hs] at htype
    have hkind : Session.kind none = sIfreg := (ht none).symm.trans (of_decide_eq_true htype)
    exact absurd hkind (by decide)
  cases op with
  | truncate p length =>
      obtain rfl : p = (Node.inside n k).path := hx
      obtain ⟨j, rfl⟩ := Option.ne_none_iff_exists'.mp (hregular hsuits)
      simp only [Session.step, Op.assigns, Option.some.injEq, forall_eq', SizeSafe, concrete_data,
        bytes_special, hs, Option.map_some, Option.getD_some]
      exact Session.sized_truncate_iff hsized j length
  | write p data offset =>
      obtain rfl : p = (Node.inside n k).path := hx
      obtain ⟨j, rfl⟩ := Option.ne_none_iff_exists'.mp (hregular hsuits)
      cases j with
      | input =>
          rw [sizeSafe_write_iff hs]
          simp only [Session.step, Op.assigns, Option.some.injEq, forall_eq']
          exact Session.sized_write_iff hsized A.apiKey data offset env
      | output | error =>
          simp only [Session.step, Op.assigns, Option.some.injEq, forall_eq', hsized, SizeSafe,
            endsWith_input_special, reduceCtorEq, decide_false, Bool.false_eq_true, false_implies]
  | _ =>
      simp only [SizeSafe, iff_true]
      intro t h
      refine hsized.step_of_ne ?_ ?_ h <;> simp

theorem sizeSafe_of_not_regular {s : State} {op : Op} (env : Env) (hsuits : s.suits op = true)
    (h : s.hasType op.path sIfreg = false) : SizeSafe s (op, env) := by
  cases op with
  | truncate p length =>
      have hreg : s.hasType p sIfreg = true := hsuits
      exact absurd (hreg.symm.trans h) (by decide)
  | write p data offset =>
      have hreg : s.hasType p sIfreg = true := hsuits
      exact absurd (hreg.symm.trans h) (by decide)
  | _ => trivial

theorem sized_apply_iff {A : Tree} (ht : A.Typed) (hA : A.Sized) {op : Op} (env : Env)
    (h : A.concrete.Promised op) :
    (A.apply env op).1.Sized ↔ SizeSafe A.concrete (op, env) := by
  obtain ⟨hp, hsuits⟩ := h
  cases hx : nodeOf op.path with
  | none =>
      have hreg : A.concrete.hasType op.path sIfreg = false := by
        rw [State.hasType, A.stat_nowhere hp hx]
        rfl
      simp only [Tree.apply, hx, sizeSafe_of_not_regular env hsuits hreg, iff_true]
      exact hA
  | some x =>
      have hpath := path_of_nodeOf hx
      cases x with
      | root =>
          have hreg : A.concrete.hasType op.path sIfreg = false := by
            rw [hpath, hasType_concrete]
            simp [attr, ht.root, sIfdir, sIfreg]
          have hsame : (A.atRoot op env).1.sessions = A.sessions := by
            unfold atRoot
            split
            · rfl
            · split <;> rfl
          simp only [Tree.apply, hx, sizeSafe_of_not_regular env hsuits hreg, iff_true]
          intro n s hs
          exact hA n s (hsame ▸ hs)
      | inside n k =>
          have happly : (A.apply env op).1.Sized ↔
              (A.put n (op.inSession env A.apiKey A.fd k (A.sessions n)).1).Sized := by
            simp only [Tree.apply, hx]
            rfl
          rw [happly, sized_put_iff hA]
          cases hs : A.sessions n with
          | some s => exact sized_step_iff hs (ht.session n s hs) (hA n s hs) env hpath hsuits
          | none =>
              have hreg : A.concrete.hasType op.path sIfreg = false := by
                rw [hpath, hasType_concrete, attr_inside, hs]
                rfl
              simp only [sizeSafe_of_not_regular env hsuits hreg, iff_true, Op.inSession]
              intro t h
              split at h
              · obtain rfl := Option.some.inj h
                exact Session.fresh_sized _ _
              · cases h

end Tree

/-- In a run under the promises of FUSE, all reported sizes are right in all states exactly
when every call is safe in the state it is made in. -/
theorem gptfs_sizes_iff (apiKey : Bool) (now : Time) {acts : List (Op × Env)} {s : State}
    {tr : List (Op × Result)} (h : gptfs.run (init apiKey now) acts = some (s, tr)) :
    gptfs.Throughout SizesAgree (init apiKey now) acts ↔
      gptfs.Along SizeSafe (init apiKey now) acts := by
  have hsizes : SizesAgree (init apiKey now) := by
    rw [← Tree.bare_concrete, Tree.sizesAgree_concrete_iff (Tree.bare_typed apiKey now)]
    intro n s hs
    cases hs
  have hexact : ∀ {s a s' e}, Treelike s → SizesAgree s → gptfs.step s a = some (s', e) →
      (SizesAgree s' ↔ SizeSafe s a) := by
    rintro s a s' e ⟨A, ht, rfl⟩ hagree hs
    obtain ⟨hp, ht', rfl, -⟩ := gptfs_step_tree ht hs
    rw [Tree.sizesAgree_concrete_iff ht']
    exact Tree.sized_apply_iff ht ((Tree.sizesAgree_concrete_iff ht).mp hagree) a.2 hp
  exact gptfs.throughout_iff_along Treelike.step hexact (treelike_init apiKey now) hsizes h

def firstQuestion : List (Op × Env) :=
  let env : Env := ⟨fun i => i, fun _ => .content [111, 107], fun _ => []⟩
  [(.mkdir "/a".toList 0o755, env), (.write "/a/input".toList [104, 105] 0, env)]

theorem gptfs_sizes_iff_firstQuestion :
    gptfs.Throughout SizesAgree (init true 0) firstQuestion := by
  have hrun : (gptfs.run (init true 0) firstQuestion).isSome = true := by decide
  obtain ⟨⟨s, tr⟩, h⟩ := Option.isSome_iff_exists.mp hrun
  apply (gptfs_sizes_iff true 0 h).mpr
  refine ⟨trivial, ?_⟩
  intro m e hm
  refine ⟨?_, fun _ _ _ => trivial⟩
  obtain ⟨-, rfl, -⟩ := gptfs_step_iff.mp hm
  intro _ d hd
  obtain rfl : "/a".toList = d := Option.some.inj hd
  rfl

def growing : List (Op × Env) :=
  let env : Env := ⟨fun i => i, fun _ => .content [], fun _ => []⟩
  [(.mkdir "/a".toList 0o755, env), (.truncate "/a/input".toList 5, env)]

/-- A truncation to five bytes leaves a file empty and reports the new size. -/
theorem grown_file_reads_empty : ∃ s tr, gptfs.run (init true 0) growing = some (s, tr) ∧
    ¬ SizesAgree s := by
  have hrun : (gptfs.run (init true 0) growing).map (fun r =>
      (r.1.hasType "/a".toList sIfdir, (r.1.stat "/a/input".toList).map (·.size),
        (r.1.read "/a/input".toList 5 0).2)) = some (true, some (some 5), .ok (.bytes [])) := by
    rfl
  obtain ⟨⟨s, tr⟩, h, hobs⟩ := Option.map_eq_some_iff.mp hrun
  refine ⟨s, tr, h, ?_⟩
  intro hagree
  simp only [Prod.mk.injEq] at hobs
  obtain ⟨hdir, hstat, hread⟩ := hobs
  obtain ⟨a, b, ha, hb, hsize⟩ := hagree ⟨"a".toList, by decide⟩ hdir .input
  have hfive : a.size = some 5 := by
    have h := congrArg (Option.map (·.size)) ha
    exact Option.some.inj (h.symm.trans hstat)
  have hlen : b.length = 5 := Option.some.inj (hsize.symm.trans hfive)
  have hempty : b = [] := by
    have h := hb 5 (Nat.le_of_eq hlen)
    have heq := h.symm.trans hread
    simpa using heq
  rw [hempty] at hlen
  exact absurd hlen (by decide)

end OShm.Gptfs
