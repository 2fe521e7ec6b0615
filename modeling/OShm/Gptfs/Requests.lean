import OShm.Gptfs.Size

/-! # Requests and where their answers go

A write to the input file of a session is a request. A request that comes in pieces leaves
what it leaves in one piece. A failed one is not kept apart from an answer: the texts of
most failures are put in the output file, and the size of a file that is emptied stays.
-/

namespace OShm.Gptfs

open OShm.Lib OShm.Lib.PathString

/-! ## What a caller sees of a file -/

/-- The bytes that can be read from a file, and the size reported for it. -/
structure State.Shows (s : State) (p : Str) (b : Bytes) (size : Option Nat) : Prop where
  bytes : WholeFile s p b
  size : (s.stat p).map (·.size) = some size

theorem Tree.stat_size_concrete {A : Tree} {n : Name} {t : Session} (hs : A.sessions n = some t)
    (k : Special) :
    (A.concrete.stat (Node.special n k).path).map (·.size) = some (t.attr (some k)).size := by
  simp [attr_inside, hs]

theorem Tree.shows_concrete_iff {A : Tree} {n : Name} {t : Session} (hs : A.sessions n = some t)
    (k : Special) (b : Bytes) (size : Option Nat) :
    A.concrete.Shows (Node.special n k).path b size ↔
      b = t.data k ∧ size = (t.attr (some k)).size := by
  constructor
  · intro h
    have heq := h.size.symm.trans (stat_size_concrete hs k)
    exact ⟨(wholeFile_concrete_iff hs k b).mp h.bytes, Option.some.inj heq⟩
  · rintro ⟨rfl, rfl⟩
    exact ⟨(wholeFile_concrete_iff hs k _).mpr rfl, stat_size_concrete hs k⟩

theorem normal_special (n : Name) (k : Special) : Normal '/' (Node.special n k).path :=
  ⟨[n.1, k.name], by simpa using ⟨n.2, k.name_component⟩, by simp [Node.path, render]⟩

theorem Tree.step_write {A : Tree} {n : Name} {t : Session} (hs : A.sessions n = some t)
    (ht : t.Typed) (data : Bytes) (offset : Nat) (env : Env) :
    gptfs.step A.concrete (.write (Node.special n .input).path data offset, env) =
      some ((A.put n (some (t.write A.apiKey data offset env))).concrete,
        .write (Node.special n .input).path data offset, .ok (.int data.length)) := by
  have hpromised : A.concrete.Promised (.write (Node.special n .input).path data offset) := by
    refine ⟨normal_special n .input, ?_⟩
    show A.concrete.hasType (Node.special n .input).path sIfreg = true
    rw [hasType_concrete, attr_inside, hs]
    exact decide_eq_true (ht (some .input))
  have hwrite := write_concrete hs data offset env
  refine gptfs_step_iff.mpr ⟨hpromised, ?_, ?_⟩
  · simp only [State.apply, hwrite]
  · simp only [State.apply, hwrite]

/-! ## Requests in pieces -/

/-- The pieces of a request, each with what its call gets from outside. -/
abbrev Pieces := List (Bytes × Env)

def Pieces.payload (cs : Pieces) : Bytes := cs.flatMap Prod.fst

def Pieces.writes (p : Str) : Nat → Pieces → List (Op × Env)
  | _, [] => []
  | offset, (data, env) :: cs =>
      (.write p data offset, env) :: Pieces.writes p (offset + data.length) cs

def Session.writeAll (s : Session) (apiKey : Bool) : Nat → Pieces → Session
  | _, [] => s
  | offset, (data, env) :: cs =>
      (s.write apiKey data offset env).writeAll apiKey (offset + data.length) cs

theorem Session.writeAll_snoc (s : Session) (apiKey : Bool) (offset : Nat) (cs : Pieces)
    (data : Bytes) (env : Env) :
    s.writeAll apiKey offset (cs ++ [(data, env)]) =
      (s.writeAll apiKey offset cs).write apiKey data (offset + cs.payload.length) env := by
  induction cs generalizing s offset with
  | nil => rfl
  | cons c cs ih =>
      obtain ⟨first, env'⟩ := c
      simp only [List.cons_append, writeAll, ih, Pieces.payload, List.flatMap_cons,
        List.length_append, Nat.add_assoc]

theorem Tree.run_writes {A : Tree} {n : Name} {t : Session} (hs : A.sessions n = some t)
    (ht : t.Typed) (offset : Nat) (cs : Pieces) :
    ∃ tr, gptfs.run A.concrete (cs.writes (Node.special n .input).path offset) =
      some ((A.put n (some (t.writeAll A.apiKey offset cs))).concrete, tr) := by
  induction cs generalizing A t offset with
  | nil => exact ⟨[], by simp [Pieces.writes, Session.writeAll, A.put_self n hs]⟩
  | cons c cs ih =>
      obtain ⟨data, env⟩ := c
      have hstep := step_write hs ht data offset env
      obtain ⟨tr, hrest⟩ := ih (put_sessions_same A n _) (ht.write A.apiKey data offset env)
        (offset + data.length)
      rw [put_put] at hrest
      exact ⟨_, gptfs.run_cons_iff.mpr ⟨_, _, tr, hstep, hrest, rfl⟩⟩

/-- The last piece finds the others in the input file, so that it makes the payload whole. -/
theorem Session.writeAll_last (s : Session) (apiKey : Bool) {cs : Pieces} (hne : cs ≠ []) :
    ∃ (t : Session) (data : Bytes) (offset : Nat) (env : Env), (data, env) ∈ cs ∧
      s.writeAll apiKey 0 cs = t.write apiKey data offset env ∧
      State.written (t.data .input) data offset = cs.payload := by
  induction cs using List.reverseRecOn with
  | nil => exact absurd rfl hne
  | append_singleton cs c ih =>
      obtain ⟨data, env⟩ := c
      have hpayload : Pieces.payload (cs ++ [(data, env)]) = Pieces.payload cs ++ data := by
        simp [Pieces.payload]
      refine ⟨_, data, _, env, by simp, s.writeAll_snoc apiKey 0 cs data env, ?_⟩
      rw [hpayload, Nat.zero_add]
      by_cases hcs : cs = []
      · subst hcs
        rfl
      · obtain ⟨t, last, offset, env', -, hwrite, hwhole⟩ := ih hcs
        have hinput : (s.writeAll apiKey 0 cs).data .input = Pieces.payload cs := by
          rw [hwrite, (t.write_input apiKey last offset env').1, hwhole]
        rw [hinput, State.written]
        split
        · next hzero => rw [List.length_eq_zero_iff.mp hzero, List.nil_append]
        · simp

theorem Tree.session_of_hasType {A : Tree} {n : Name} {type : Nat} {k : Option Special}
    (h : A.concrete.hasType (Node.inside n k).path type = true) : ∃ t, A.sessions n = some t := by
  rw [hasType_concrete, attr_inside] at h
  cases hs : A.sessions n with
  | none => simp [hs] at h
  | some t => exact ⟨t, rfl⟩

/-- The session shows a request and its answer. -/
structure Answered (s : State) (n : Name) (request answer : Bytes) : Prop where
  input : s.Shows (Node.special n .input).path request (some request.length)
  output : s.Shows (Node.special n .output).path answer (some answer.length)
  error : WholeFile s (Node.special n .error).path []

theorem Tree.answered_of_pieces {A : Tree} {n : Name} {t : Session} (hs : A.sessions n = some t)
    (ht : t.Typed) {cs : Pieces} (hne : cs ≠ []) {chat : Bytes → Chat}
    (hchat : ∀ c ∈ cs, c.2.chat = chat) {answer : Bytes}
    (hanswer : callGptApi A.apiKey chat cs.payload = .ok answer) :
    ∃ s' tr', gptfs.run A.concrete (cs.writes (Node.special n .input).path 0) = some (s', tr') ∧
      Answered s' n cs.payload answer := by
  obtain ⟨tr', hrun⟩ := run_writes hs ht 0 cs
  obtain ⟨u, data, offset, env, hmem, hlast, hwhole⟩ := t.writeAll_last A.apiKey hne
  have hlength := Session.written_length (u.data .input) data offset
  have hinput := u.write_input A.apiKey data offset env
  have houtput := @Session.write_answered u A.apiKey data offset env answer
    (by rw [hwhole, hchat _ hmem, hanswer])
  rw [hwhole] at hlength hinput
  rw [← hlast] at hinput houtput
  have hput := put_sessions_same A n (some (t.writeAll A.apiKey 0 cs))
  refine ⟨_, tr', hrun, ?_, ?_, ?_⟩
  · exact (shows_concrete_iff hput .input _ _).mpr ⟨hinput.1.symm, by rw [hinput.2, hlength]⟩
  · exact (shows_concrete_iff hput .output _ _).mpr ⟨houtput.1.symm, houtput.2.1.symm⟩
  · exact (wholeFile_concrete_iff hput .error _).mpr houtput.2.2.1.symm

def okEnv (now : Time) : Env := ⟨fun i => now + i, fun _ => .content [111, 107], fun _ => []⟩

/-- A request that comes in pieces leaves what it leaves in one piece, if the service answers
it: the payload as input, and the answer to the whole payload as output. -/
theorem chunked_request_answered {apiKey : Bool} {now : Time} {acts : List (Op × Env)} {s : State}
    {tr : List (Op × Result)} (hr : gptfs.run (init apiKey now) acts = some (s, tr)) {n : Name}
    (hn : s.hasType (Node.session n).path sIfdir = true) {cs : Pieces} (hpayload : cs.payload ≠ [])
    {env : Env} (hchat : ∀ c ∈ cs, c.2.chat = env.chat) {answer : Bytes}
    (hanswer : callGptApi s.apiKey env.chat cs.payload = .ok answer) :
    (∃ s' tr', gptfs.run s (cs.writes (Node.special n .input).path 0) = some (s', tr') ∧
        Answered s' n cs.payload answer) ∧
      ∃ s' tr', gptfs.run s [(.write (Node.special n .input).path cs.payload 0, env)] =
          some (s', tr') ∧ Answered s' n cs.payload answer := by
  obtain ⟨A, ht, rfl⟩ := treelike_of_run hr
  obtain ⟨t, hs⟩ := Tree.session_of_hasType hn
  have htyped := ht.session n t hs
  constructor
  · refine Tree.answered_of_pieces hs htyped ?_ hchat hanswer
    rintro rfl
    exact hpayload rfl
  · have hwhole : Pieces.payload [(cs.payload, env)] = cs.payload := by simp [Pieces.payload]
    have hsingle := @Tree.answered_of_pieces A n t hs htyped [(cs.payload, env)] (by simp)
      env.chat (by simp) answer (by rw [hwhole]; exact hanswer)
    rw [hwhole] at hsingle
    exact hsingle

theorem chunked_request_answered_twoBytes :
    ∃ s tr, gptfs.run (init true 0) [(.mkdir "/a".toList 0o755, okEnv 0)] = some (s, tr) ∧
      ∃ s' tr', gptfs.run s [(.write "/a/input".toList [104] 0, okEnv 5),
          (.write "/a/input".toList [105] 1, okEnv 9)] = some (s', tr') ∧
        Answered s' ⟨"a".toList, by decide⟩ [104, 105] [111, 107] := by
  have hrun : (gptfs.run (init true 0) [(.mkdir "/a".toList 0o755, okEnv 0)]).map
      (fun r => (r.1.hasType "/a".toList sIfdir, r.1.apiKey)) = some (true, true) := by rfl
  obtain ⟨⟨s, tr⟩, h, hobs⟩ := Option.map_eq_some_iff.mp hrun
  obtain ⟨hdir, hkey⟩ := Prod.mk.inj hobs
  refine ⟨s, tr, h, ?_⟩
  exact (@chunked_request_answered true 0 _ s tr h ⟨"a".toList, by decide⟩ hdir
    [([104], okEnv 5), ([105], okEnv 9)] (by decide) (okEnv 0) (by simp [okEnv]) [111, 107]
    (by
      have hkey' : s.apiKey = true := hkey
      rw [hkey']
      rfl)).1

/-- The answer matters: if the service answers the first piece and raises on the whole
request, the output file keeps the size of the first answer. -/
theorem raised_request_size_differs :
    let env : Env := ⟨fun i => i, fun p => if p.length = 1 then .content [111, 107]
      else .unencodable [], fun _ => []⟩
    let sizeAfter (acts : List (Op × Env)) := (gptfs.run (init true 0)
      ((.mkdir "/a".toList 0o755, env) :: acts)).map fun r =>
        (r.1.stat "/a/output".toList).map (·.size)
    sizeAfter (Pieces.writes "/a/input".toList 0 [([104], env), ([105], env)]) =
        some (some (some 2)) ∧
      sizeAfter [(.write "/a/input".toList [104, 105] 0, env)] = some (some (some 0)) :=
  ⟨rfl, rfl⟩

/-! ## Where answers and failures go -/

/-- How a request ends: with an answer of the service, or not. A missing key and every
exception are failures. -/
inductive Outcome where
  | answer (message : Bytes)
  | failure

def outcome (apiKey : Bool) (chat : Bytes → Chat) (prompt : Bytes) : Outcome :=
  if apiKey then
    match chat prompt with
    | .content message => .answer message
    | _ => .failure
  else .failure

/-- An answer is in the output file and the error file is empty, or the output file is empty
and the error file has a message, with the sizes to match. -/
def Routed (s : State) (n : Name) : Outcome → Prop
  | .answer message =>
      s.Shows (Node.special n .output).path message (some message.length) ∧
        s.Shows (Node.special n .error).path [] (some 0)
  | .failure =>
      s.Shows (Node.special n .output).path [] (some 0) ∧
        ∃ message, message ≠ [] ∧
          s.Shows (Node.special n .error).path message (some message.length)

/-- There is a key, and the service answers while the error file has size 0, or it raises an
exception whose text cannot be encoded while the output file has. -/
def RoutesWell (s : State) (n : Name) (chat : Bytes → Chat) (prompt : Bytes) : Prop :=
  s.apiKey = true ∧
    match chat prompt with
    | .content _ => (s.stat (Node.special n .error).path).map (·.size) = some (some 0)
    | .raised _ => False
    | .unencodable _ => (s.stat (Node.special n .output).path).map (·.size) = some (some 0)

namespace Tree

section Routing

variable {A : Tree} {n : Name} {t : Session} {data : Bytes} {offset : Nat} {env : Env}

/-- A failure whose text is returned as an answer leaves the text in the output file. -/
theorem not_routed_of_returned {response : Bytes} (hne : response ≠ [])
    (h : callGptApi A.apiKey env.chat (State.written (t.data .input) data offset) =
      .ok response) :
    ¬ Routed (A.put n (some (t.write A.apiKey data offset env))).concrete n .failure := by
  rintro ⟨houtput, -⟩
  have hdata := ((shows_concrete_iff (put_sessions_same A n _) .output _ _).mp houtput).1
  rw [(Session.write_answered h).1] at hdata
  exact hne hdata.symm

theorem routed_answer_iff {message : Bytes} (hs : A.sessions n = some t)
    (h : callGptApi A.apiKey env.chat (State.written (t.data .input) data offset) =
      .ok message) :
    Routed (A.put n (some (t.write A.apiKey data offset env))).concrete n (.answer message) ↔
      (A.concrete.stat (Node.special n .error).path).map (·.size) = some (some 0) := by
  obtain ⟨houtput, hsize, herror, hold⟩ := Session.write_answered h
  have hput := put_sessions_same A n (some (t.write A.apiKey data offset env))
  rw [Routed, shows_concrete_iff hput, shows_concrete_iff hput, houtput, hsize, herror, hold,
    stat_size_concrete hs]
  simp only [true_and, Option.some.injEq]
  exact eq_comm

theorem routed_failure_iff {text : Bytes} (hs : A.sessions n = some t)
    (h : callGptApi A.apiKey env.chat (State.written (t.data .input) data offset) =
      .error text) :
    Routed (A.put n (some (t.write A.apiKey data offset env))).concrete n .failure ↔
      (A.concrete.stat (Node.special n .output).path).map (·.size) = some (some 0) := by
  obtain ⟨houtput, hold, herror, hsize⟩ := Session.write_raised h
  have hput := put_sessions_same A n (some (t.write A.apiKey data offset env))
  have hmessage : ascii "Error processing request: " ++ text ≠ [] := by simp [ascii]
  simp only [Routed, shows_concrete_iff hput, houtput, herror, hsize, hold, stat_size_concrete hs,
    true_and, Option.some.injEq]
  constructor
  · exact fun hrouted => hrouted.1.symm
  · exact fun hzero => ⟨hzero.symm, _, hmessage, rfl, rfl⟩

theorem routed_iff (hs : A.sessions n = some t) :
    Routed (A.put n (some (t.write A.apiKey data offset env))).concrete n
        (outcome A.apiKey env.chat (State.written (t.data .input) data offset)) ↔
      RoutesWell A.concrete n env.chat (State.written (t.data .input) data offset) := by
  show _ ↔ A.apiKey = true ∧ _
  cases hkey : A.apiKey with
  | false =>
      have hcall : callGptApi A.apiKey env.chat (State.written (t.data .input) data offset) =
          .ok (ascii
            "Error: API key not found. Please set OPENAI_API_KEY environment variable.") := by
        simp [callGptApi, hkey]
      have hno := not_routed_of_returned (n := n) (by decide) hcall
      rw [hkey] at hno
      simpa [outcome] using hno
  | true =>
      cases hchat : env.chat (State.written (t.data .input) data offset) with
      | content message =>
          have hcall : callGptApi A.apiKey env.chat
              (State.written (t.data .input) data offset) = .ok message := by
            simp [callGptApi, hkey, hchat]
          have hiff := routed_answer_iff hs hcall
          rw [hkey] at hiff
          simpa [outcome, hchat] using hiff
      | raised text =>
          have hcall : callGptApi A.apiKey env.chat
              (State.written (t.data .input) data offset) = .ok (ascii "Error: " ++ text) := by
            simp [callGptApi, hkey, hchat]
          have hno := not_routed_of_returned (n := n) (by simp [ascii]) hcall
          rw [hkey] at hno
          simpa [outcome, hchat] using hno
      | unencodable text =>
          have hcall : callGptApi A.apiKey env.chat
              (State.written (t.data .input) data offset) = .error text := by
            simp [callGptApi, hkey, hchat]
          have hiff := routed_failure_iff hs hcall
          rw [hkey] at hiff
          simpa [outcome, hchat] using hiff

end Routing

end Tree

/-- A request in a reachable state is kept apart as an answer or a failure exactly when the
key is there and the service answers, with an error file of size 0 before, or raises what
cannot be encoded, with an output file of size 0 before. -/
theorem request_routed_iff {apiKey : Bool} {now : Time} {acts : List (Op × Env)} {s s' : State}
    {tr : List (Op × Result)} (hr : gptfs.run (init apiKey now) acts = some (s, tr)) {n : Name}
    {data : Bytes} {offset : Nat} {env : Env} {e : Op × Result}
    (hstep : gptfs.step s (.write (Node.special n .input).path data offset, env) = some (s', e)) :
    Routed s' n (outcome s.apiKey env.chat
        (State.written ((s.data (Node.special n .input).path).getD []) data offset)) ↔
      RoutesWell s n env.chat
        (State.written ((s.data (Node.special n .input).path).getD []) data offset) := by
  obtain ⟨A, ht, rfl⟩ := treelike_of_run hr
  have hpromised : A.concrete.hasType (Node.special n .input).path sIfreg = true :=
    (gptfs_step_iff.mp hstep).1.2
  obtain ⟨t, hs⟩ := Tree.session_of_hasType hpromised
  have hwrite := Tree.step_write hs (ht.session n t hs) data offset env
  obtain ⟨rfl, -⟩ := Prod.mk.inj (Option.some.inj (hwrite.symm.trans hstep))
  have hdata : (A.concrete.data (Node.special n .input).path).getD [] = t.data .input := by
    simp [Tree.bytes_special, hs]
  rw [hdata]
  exact Tree.routed_iff hs

/-- A first request that is answered. -/
theorem request_routed_iff_first :
    ∃ s tr s' e, gptfs.run (init true 0) [(.mkdir "/a".toList 0o755, okEnv 0)] = some (s, tr) ∧
      gptfs.step s (.write "/a/input".toList [104] 0, okEnv 5) = some (s', e) ∧
      Routed s' ⟨"a".toList, by decide⟩ (.answer [111, 107]) := by
  have hrun : (gptfs.run (init true 0) [(.mkdir "/a".toList 0o755, okEnv 0)]).map
      (fun r => (r.1.apiKey, (r.1.stat "/a/error".toList).map (·.size),
        (gptfs.step r.1 (.write "/a/input".toList [104] 0, okEnv 5)).isSome)) =
      some (true, some (some 0), true) := by rfl
  obtain ⟨⟨s, tr⟩, h, hobs⟩ := Option.map_eq_some_iff.mp hrun
  simp only [Prod.mk.injEq] at hobs
  obtain ⟨hkey, hsize, hsome⟩ := hobs
  obtain ⟨⟨s', e⟩, hstep⟩ := Option.isSome_iff_exists.mp hsome
  refine ⟨s, tr, s', e, h, hstep, ?_⟩
  have hiff := @request_routed_iff true 0 _ s s' tr h ⟨"a".toList, by decide⟩ [104] 0 (okEnv 5) e
    hstep
  rw [hkey] at hiff
  exact hiff.mpr ⟨hkey, hsize⟩

/-- When the service cannot be reached, the error file is empty and the output file has the
text. -/
theorem unreachable_service_in_output :
    ∃ s tr, gptfs.run (init true 0)
        [(.mkdir "/a".toList 0o755, okEnv 0),
          (.write "/a/input".toList [104] 0,
            ⟨fun i => i, fun _ => .raised (ascii "no route"), fun _ => []⟩)] = some (s, tr) ∧
      (s.read "/a/output".toList 100 0).2 = .ok (.bytes (ascii "Error: no route")) ∧
      (s.read "/a/error".toList 100 0).2 = .ok (.bytes []) ∧
      ¬ Routed s ⟨"a".toList, by decide⟩ .failure := by
  have hrun : (gptfs.run (init true 0)
      [(.mkdir "/a".toList 0o755, okEnv 0),
        (.write "/a/input".toList [104] 0,
          ⟨fun i => i, fun _ => .raised (ascii "no route"), fun _ => []⟩)]).map
      (fun r => ((r.1.read "/a/output".toList 100 0).2, (r.1.read "/a/error".toList 100 0).2)) =
      some (.ok (.bytes (ascii "Error: no route")), .ok (.bytes [])) := by rfl
  obtain ⟨⟨s, tr⟩, h, hobs⟩ := Option.map_eq_some_iff.mp hrun
  obtain ⟨houtput, herror⟩ := Prod.mk.inj hobs
  refine ⟨s, tr, h, houtput, herror, ?_⟩
  rintro ⟨hempty, -⟩
  have hread := hempty.bytes 100 (Nat.zero_le _)
  exact absurd (hread.symm.trans houtput) (by decide)

end OShm.Gptfs
