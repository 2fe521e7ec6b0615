import Mathlib.Algebra.Group.Nat.Defs
import OShm.Lib.Digits
import OShm.Ramfs.Mount

/-! # The mode option as text

`ramfs_show_options` writes the mode of a ramfs for `/proc/mounts`, and `ramfs_parse_param` takes
it from the text of a mount call. What lies between is the kernel's core: it splits the text into
options and reads numbers. Of it only the laws of `OptionCore` are used.
-/

namespace OShm.Ramfs

open OShm.Kernel OShm.Lib

def comma : UInt8 := 44
def equals : UInt8 := 61

def formatOctal (n : Nat) : CString := (Nat.toDigits 8 n).map fun c => c.toNat.toUInt8

def ramfsShowOptions (mode : Nat) : CString :=
  if mode ≠ ramfsDefaultMode then ascii ",mode=" ++ formatOctal mode else []

def octalDigit (c : UInt8) : Option Nat :=
  if 48 ≤ c.toNat ∧ c.toNat < 56 then some (c.toNat - 48) else none

/-- The text of an option with a value. -/
structure OptionText (key value : CString) : Prop where
  key_ne_nil : key ≠ []
  equals_not_mem : equals ∉ key
  comma_not_mem : comma ∉ key ++ value

/-- What a mount call does with its text before it comes to `ramfs_parse_param`, and `fs_parse`
with `ramfs_fs_parameters`. -/
structure OptionCore where
  /-- The options of a text, each with its value. -/
  split : CString → List (CString × Option CString)
  fsParse : CString → Option CString → FsParse
  split_nil : split [] = []
  /-- Nothing stands before the first comma. -/
  split_comma : ∀ text, split (comma :: text) = split text
  split_option : ∀ {key value}, OptionText key value →
    split (key ++ equals :: value) = [(key, some value)]
  /-- `fsparam_u32oct("mode", Opt_mode)`. -/
  parse_octal : ∀ {text v}, text ≠ [] → Digits.scan 8 octalDigit text 0 = (v, []) → v < 2 ^ 32 →
    fsParse (ascii "mode") (some text) = .mode v

namespace Mounts

/-- `ramfs_parse_param` for one option after the other, up to the first error. -/
def parseEach (F : OptionCore) (s : Mounts) (fsi : Addr) :
    List (CString × Option CString) → Mounts × Except Errno Unit
  | [] => (s, .ok ())
  | (key, value) :: rest =>
      match s.parseParam fsi (F.fsParse key value) with
      | (s, .ok ()) => parseEach F s fsi rest
      | (s, .error e) => (s, .error e)

def parseOptions (F : OptionCore) (s : Mounts) (fsi : Addr) (text : CString) :
    Mounts × Except Errno Unit :=
  s.parseEach F fsi (F.split text)

end Mounts

/-! ## Reading what was written -/

theorem octalDigit_digitChar : ∀ d < 8, octalDigit (Nat.digitChar d).toNat.toUInt8 = some d := by
  decide

theorem scan_formatOctal (n : Nat) : Digits.scan 8 octalDigit (formatOctal n) 0 = (n, []) := by
  have h : Digits.scan 8 octalDigit (formatOctal n ++ []) 0 = (n, []) :=
    Digits.scan_map_toDigits (by omega) octalDigit_digitChar n []
  rwa [List.append_nil] at h

theorem formatOctal_ne_nil (n : Nat) : formatOctal n ≠ [] := by
  rw [formatOctal, ne_eq, List.map_eq_nil_iff]
  exact Nat.toDigits_ne_nil

theorem optionText_mode (n : Nat) : OptionText (ascii "mode") (formatOctal n) where
  key_ne_nil := by decide
  equals_not_mem := by decide
  comma_not_mem := by
    have hkey : comma ∉ ascii "mode" := by decide
    have hvalue : comma ∉ formatOctal n := Digits.not_mem_map (by omega) (by decide) n
    rw [List.mem_append]
    exact not_or.mpr ⟨hkey, hvalue⟩

theorem OptionCore.split_mode (F : OptionCore) (n : Nat) :
    F.split (ascii ",mode=" ++ formatOctal n) = [(ascii "mode", some (formatOctal n))] := by
  have htext : ascii ",mode=" ++ formatOctal n =
      comma :: (ascii "mode" ++ equals :: formatOctal n) := rfl
  rw [htext, F.split_comma, F.split_option (optionText_mode n)]

/-! ## The mode of a mounted ramfs -/

namespace Mounts

variable {s s' : Mounts}

theorem and_sIallugo (v : Nat) : v &&& sIallugo = v % 2 ^ 12 := Nat.and_two_pow_sub_one_eq_mod v 12

def ModesBounded (s : Mounts) : Prop := ∀ a, (s.info a).mode < 2 ^ 12

theorem ModesBounded.update (h : s.ModesBounded) {a : Addr} {i : FsInfo} (hi : i.mode < 2 ^ 12)
    (hinfo : s'.info = Function.update s.info a i) : s'.ModesBounded := by
  intro x
  rw [hinfo]
  by_cases hx : x = a
  · simpa [hx] using hi
  · simpa [hx] using h x

theorem ModesBounded.setDir (h : s.ModesBounded) {a : Addr} {dir : Option Addr}
    (hinfo : s'.info = Function.update s.info a { s.info a with syncDir := dir }) :
    s'.ModesBounded := by
  have hmode : ({ s.info a with syncDir := dir } : FsInfo).mode < 2 ^ 12 := h a
  exact h.update hmode hinfo

theorem drop_info (s : Mounts) (n : Nat) (b : MountedSb) : (s.drop n b).info = s.info := by
  unfold drop killSb
  split
  · split <;> rfl
  · rfl

theorem Effect.modesBounded {e : MountEvent} (h : s.Effect s' e) (hb : s.ModesBounded) :
    s'.ModesBounded := by
  have of_info : ∀ {t : Mounts}, t.info = s.info → t.ModesBounded := by
    intro t ht x
    rw [ht]
    exact hb x
  cases h with
  | nothing => exact hb
  | opened hfc ha => exact hb.update (by decide) rfl
  | parsed hfc p =>
      cases p with
      | noparam => exact hb
      | error e => exact hb
      | mode v =>
          refine hb.update ?_ rfl
          change v &&& sIallugo < 2 ^ 12
          rw [and_sIallugo]
          exact Nat.mod_lt v (by decide)
  | tree hfc hn root =>
      cases root with
      | true => exact hb.setDir rfl
      | false => exact hb.setDir rfl
  | closed hc =>
      rename_i fc c
      have hroot : (s.putRoot c).info = s.info := by
        rcases s.putRoot_cases c with h | ⟨n, b, hb, h⟩
        · rw [h]
        · rw [h, drop_info]
      exact of_info hroot
  | got hb => exact of_info rfl
  | dropped hb => exact of_info (drop_info _ _ _)
  | refused hc => exact of_info rfl
  | bound hc hmem hn hdir ha => exact hb.setDir rfl
  | unbound hc hmem hn => exact hb.setDir rfl

theorem parseOptions_showOptions (F : OptionCore) (s : Mounts) {a : Addr} {mode : Nat}
    (hmode : mode < 2 ^ 12) (hfresh : (s.info a).mode = ramfsDefaultMode) :
    ∃ s', s.parseOptions F a (ramfsShowOptions mode) = (s', .ok ()) ∧ (s'.info a).mode = mode ∧
      ∀ x, x ≠ a → s'.info x = s.info x := by
  by_cases hdef : mode = ramfsDefaultMode
  · refine ⟨s, ?_, hfresh.trans hdef.symm, fun _ _ => rfl⟩
    simp [ramfsShowOptions, hdef, parseOptions, parseEach, F.split_nil]
  · have hparse : F.fsParse (ascii "mode") (some (formatOctal mode)) = .mode mode :=
      F.parse_octal (formatOctal_ne_nil mode) (scan_formatOctal mode)
        (Nat.lt_trans hmode (by decide))
    refine ⟨(s.parseParam a (.mode mode)).1, ?_, ?_, fun x hx => Function.update_of_ne hx _ _⟩
    · rw [ramfsShowOptions, if_pos hdef, parseOptions, F.split_mode]
      simp only [parseEach, hparse, parseParam]
    · simp only [parseParam, Function.update_self, and_sIallugo, Nat.mod_eq_of_lt hmode]

end Mounts

/-- In every run, mounting a new ramfs with the options that `ramfs_show_options` prints for a
mounted one is accepted and leaves both with the same mode, whatever the mode was set to. -/
theorem show_options_round_trip (F : OptionCore) {s : Mounts} {acts : List MountAction}
    {tr : List MountEvent} (hunset : ∀ a ∈ acts, a.Unset)
    (hr : mounts.run .initial acts = some (s, tr)) {n fc : Nat} {fsi a : Addr}
    (hn : s.sbInfo n = some fsi) (ha : a ∉ s.heap.live) :
    ∃ s', (s.initFsContext fc a).parseOptions F a (ramfsShowOptions (s.info fsi).mode) =
        (s', .ok ()) ∧
      (s'.info a).mode = (s.info fsi).mode ∧ (s'.info fsi).mode = (s.info fsi).mode := by
  have keep : ∀ {s a s' e}, s.Safe ∧ s.ModesBounded → a.Unset → mounts.step s a = some (s', e) →
      s'.Safe ∧ s'.ModesBounded := by
    intro s a s' e hs ha h
    have heff := Mounts.effect_of_step ha h
    exact ⟨heff.safe hs.1, heff.modesBounded hs.2⟩
  obtain ⟨hsafe, hbound⟩ := mounts.along_invariant keep
    ⟨Mounts.safe_initial, fun _ => Nat.two_pow_pos 12⟩ (mounts.along_of_forall hunset) hr
  have hlive : fsi ∈ s.heap.live := hsafe.live (show s.slot (.sb n) = some fsi from hn)
  have hne : fsi ≠ a := fun heq => ha (heq ▸ hlive)
  have hfresh : ((s.initFsContext fc a).info a).mode = ramfsDefaultMode := by
    simp [Mounts.initFsContext]
  obtain ⟨s', hparse, hmode, hother⟩ := Mounts.parseOptions_showOptions F _ (hbound fsi) hfresh
  refine ⟨s', hparse, hmode, ?_⟩
  rw [hother fsi hne]
  simp [Mounts.initFsContext, hne]

/-! ## A core that meets the laws -/

def keyValue (opt : CString) : Option (CString × Option CString) :=
  match opt.takeWhile (· ≠ equals), opt.dropWhile (· ≠ equals) with
  | [], _ => none
  | key, [] => some (key, none)
  | key, _ :: value => some (key, some value)

theorem keyValue_option {key value : CString} (h : OptionText key value) :
    keyValue (key ++ equals :: value) = some (key, some value) := by
  have hkey : ∀ c ∈ key, (c ≠ equals : Bool) = true := by
    intro c hc
    have hne : c ≠ equals := fun heq => h.equals_not_mem (heq ▸ hc)
    simpa using hne
  have hdrop : (key ++ equals :: value).dropWhile (· ≠ equals) = equals :: value := by
    rw [List.dropWhile_append_of_pos hkey]
    simp
  have htake : (key ++ equals :: value).takeWhile (· ≠ equals) = key := by
    rw [List.takeWhile_append_of_pos hkey]
    simp
  obtain ⟨c, rest, rfl⟩ := List.exists_cons_of_ne_nil h.key_ne_nil
  rw [keyValue, hdrop, htake]

def readOctal (key : CString) : Option CString → FsParse
  | none => if key = ascii "mode" then .error einval else .noparam
  | some text =>
      if key = ascii "mode" then
        match text, Digits.scan 8 octalDigit text 0 with
        | _ :: _, (v, []) => if v < 2 ^ 32 then .mode v else .error einval
        | _, _ => .error einval
      else .noparam

theorem keyValue_nil : keyValue [] = none := rfl

theorem splitOn_comma (text : CString) :
    (comma :: text).splitOn comma = [] :: text.splitOn comma := by
  rw [List.splitOn, List.splitOnP_cons_eq_if_modifyHead, if_pos (by simp), List.splitOn]

theorem splitOn_option {key value : CString} (h : OptionText key value) :
    (key ++ equals :: value).splitOn comma = [key ++ equals :: value] := by
  apply List.splitOnP_eq_singleton
  intro c hc
  have hne : comma ≠ equals := by decide
  refine beq_eq_false_iff_ne.mpr fun heq => ?_
  subst heq
  have hmem : comma ∈ key ++ value := by
    rcases List.mem_append.mp hc with hc | hc
    · exact List.mem_append_left _ hc
    · exact List.mem_append_right _ ((List.mem_cons.mp hc).resolve_left hne)
  exact h.comma_not_mem hmem

theorem readOctal_mode {text : CString} {v : Nat} (hne : text ≠ [])
    (hscan : Digits.scan 8 octalDigit text 0 = (v, [])) (hv : v < 2 ^ 32) :
    readOctal (ascii "mode") (some text) = .mode v := by
  obtain ⟨c, rest, rfl⟩ := List.exists_cons_of_ne_nil hne
  simp only [readOctal, if_true, hscan, if_pos hv]

def plainCore : OptionCore where
  split text := (text.splitOn comma).filterMap keyValue
  fsParse := readOctal
  split_nil := rfl
  split_comma text := by rw [splitOn_comma, List.filterMap_cons_none keyValue_nil]
  split_option h := by rw [splitOn_option h, List.filterMap_cons_some (keyValue_option h)]; rfl
  parse_octal := readOctal_mode

/-- The ramfs was mounted with a sticky bit that the default mode does not have. -/
theorem show_options_round_trip_sticky :
    ∃ s tr, mounts.run .initial mountTwice = some (s, tr) ∧
      ramfsShowOptions (s.info 10).mode = ascii ",mode=1777" ∧
      ∃ s', (s.initFsContext 5 30).parseOptions plainCore 30
          (ramfsShowOptions (s.info 10).mode) = (s', .ok ()) ∧ (s'.info 30).mode = 0o1777 := by
  have hrun : (mounts.run .initial mountTwice).map
      (fun r => (r.1.sbInfo 1, r.1.heap.live, (r.1.info 10).mode)) =
        some (some 10, [20, 10], 0o1777) := by decide
  obtain ⟨⟨s, tr⟩, hr, heq⟩ := Option.map_eq_some_iff.mp hrun
  obtain ⟨hn, hrest⟩ := Prod.mk.inj heq
  obtain ⟨hlive, hmode⟩ := Prod.mk.inj hrest
  have hfree : 30 ∉ s.heap.live := by
    rw [hlive]
    decide
  obtain ⟨s', hparse, hnew, -⟩ :=
    @show_options_round_trip plainCore s _ tr (by decide) hr 1 5 10 30 hn hfree
  refine ⟨s, tr, hr, ?_, s', hparse, hnew.trans hmode⟩
  rw [hmode]
  decide

end OShm.Ramfs
