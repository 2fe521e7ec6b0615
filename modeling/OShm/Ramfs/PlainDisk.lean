import OShm.Ramfs.LinkedDisk

/-! # A flush into a directory without links

The files that a flush by path reads and writes are those that the flush by inode does, as long
as no path is that of a link and every file has one name.
-/

namespace OShm.Ramfs

open OShm.Kernel OShm.Lib.ByteFile LinkedDisk

/-- The entry is that node, and no other entry leads to it. -/
inductive Stands (d : LinkedDisk) (l : Loc) : Option Node → Prop where
  | free (h : d.entry l = none) : Stands d l none
  | dir {e : Dir} (h : d.entry l = some (.dir e)) : Stands d l (some .dir)
  | file {i : Nat} {data : Bytes} (h : d.entry l = some (.inode i)) (hb : d.body i = .file data)
      (hone : ∀ l', d.entry l' = some (.inode i) → l' = l) : Stands d l (some (.file data))

namespace Stands

variable {d d₁ : LinkedDisk} {a b l l' : Loc} {i : Nat} {v : Option Node} {data : Bytes}

theorem not_link (h : Stands d l v) (text : CString) : d.sights l ≠ some (.link text) := by
  cases h with
  | free h => simp [LinkedDisk.sights, h]
  | dir h => simp [LinkedDisk.sights, h]
  | file h hb hone => simp [LinkedDisk.sights, h, hb, Body.sight]

theorem of_inode (h : Stands d l v) (he : d.entry l = some (.inode i)) :
    ∃ data, v = some (.file data) ∧ d.body i = .file data := by
  cases h with
  | free h => cases h.symm.trans he
  | dir h => cases h.symm.trans he
  | file h hb hone =>
      cases h.symm.trans he
      exact ⟨_, rfl, hb⟩

theorem one_name (h : Stands d l v) (he : d.entry l = some (.inode i))
    (he' : d.entry l' = some (.inode i)) : l' = l := by
  cases h with
  | free h => cases h.symm.trans he
  | dir h => cases h.symm.trans he
  | file h hb hone =>
      cases h.symm.trans he
      exact hone l' he'

theorem setBody_self (h : Stands d l v) (he : d.entry l = some (.inode i)) (data : Bytes) :
    Stands (d.setBody i (.file data)) l (some (.file data)) :=
  .file he (Function.update_self _ _ _) fun _ he' => h.one_name he he'

theorem setBody_other (h : Stands d l v) {b : Body} (he : d.entry l' = some (.inode i))
    (hne : l ≠ l') : Stands (d.setBody i b) l v := by
  cases h with
  | free h => exact .free h
  | dir h => exact .dir h
  | @file j data h hb hone =>
      have hj : j ≠ i := by
        rintro rfl
        exact hne (hone l' he).symm
      exact .file h ((Function.update_of_ne hj _ _).trans hb) hone

theorem create_self (d : LinkedDisk) (l : Loc) : Stands (d.create l) l (some (.file [])) := by
  refine .file create_entry_self create_body_self fun l' he => ?_
  by_contra hne
  have hold : d.entry l' = some (.inode d.next) := (create_entry_of_ne hne).symm.trans he
  exact Nat.lt_irrefl _ (d.inode_lt l' _ hold)

theorem create_other (h : Stands d l v) (hne : l ≠ l') : Stands (d.create l') l v := by
  have hentry : (d.create l').entry l = d.entry l := create_entry_of_ne hne
  cases h with
  | free h => exact .free (hentry.trans h)
  | dir h => exact .dir (hentry.trans h)
  | @file j data h hb hone =>
      have hj : j < d.next := d.inode_lt l j h
      have hbody : (d.create l').body j = d.body j := create_body_of_ne (Nat.ne_of_lt hj)
      refine .file (hentry.trans h) (hbody.trans hb) fun m hm => ?_
      by_cases hml : m = l'
      · subst hml
        cases hm.symm.trans create_entry_self
        exact absurd hj (Nat.lt_irrefl _)
      · exact hone m ((create_entry_of_ne hml).symm.trans hm)

theorem move_old (d : LinkedDisk) (a b : Loc) : Stands (d.move a b) a none :=
  .free move_entry_old

theorem move_new (h : Stands d a (some (.file data))) (hab : a ≠ b) :
    Stands (d.move a b) b (some (.file data)) := by
  cases h with
  | file h hb hone =>
      refine .file ((move_entry_new hab).trans h) hb fun m hm => ?_
      by_contra hmb
      by_cases hma : m = a
      · rw [hma] at hm
        cases hm.symm.trans move_entry_old
      · exact hma (hone m ((move_entry_of_ne hma hmb).symm.trans hm))

theorem move_other (h : Stands d l v) (ha : l ≠ a) (hb : l ≠ b) : Stands (d.move a b) l v := by
  have hentry : (d.move a b).entry l = d.entry l := move_entry_of_ne ha hb
  cases h with
  | free h => exact .free (hentry.trans h)
  | dir h => exact .dir (hentry.trans h)
  | @file j data h hbody hone =>
      refine .file (hentry.trans h) hbody fun m hm => ?_
      by_cases hma : m = a
      · rw [hma] at hm
        cases hm.symm.trans move_entry_old
      by_cases hmb : m = b
      · have hab : a ≠ b := fun hab => hma (hmb.trans hab.symm)
        rw [hmb, move_entry_new hab] at hm
        exact absurd (hone a hm) (Ne.symm ha)
      · exact hone m ((move_entry_of_ne hma hmb).symm.trans hm)

end Stands

/-- The two paths of a flush are those of entries of the bound directory. -/
structure InDir (N : Namei) (p : Process) (A : FlushArgs) (t : Sights) (s : CString) (D : Dir) :
    Prop where
  bound : A.syncDir = some s
  room : s.length + 2 ≤ pathMax
  base : N.base p t s = some D
  tmp_name : IsName (A.tmpName s)
  tmp_short : (A.tmpName s).length ≤ nameMax
  target_name : IsName (A.filename.take (nameRoom s))
  target_short : (A.filename.take (nameRoom s)).length ≤ nameMax

/-- Both disks have the same entries in the directory `D`, which the string `s` leads to. -/
def Shows (s : CString) (D : Dir) (d : LinkedDisk) (k : Disk) : Prop :=
  ∀ c, IsName c → Stands d (D, c) (k (s ++ slash :: c))

section Flushes

variable {N : Namei} {p : Process} {A : FlushArgs} {t : Sights} {s : CString} {D : Dir}
  {src : Bytes} {d d₁ : LinkedDisk} {k : Disk} {pc : FlushPc} {fd : Option Nat} {c : CString}
  {data : Bytes}

namespace InDir

variable (h : InDir N p A t s D)

include h

theorem tmpPath : A.tmpPath = s ++ slash :: A.tmpName s := FlushArgs.tmpPath_eq h.bound h.room

theorem finalPath : A.finalPath = s ++ slash :: A.filename.take (nameRoom s) :=
  FlushArgs.finalPath_eq h.bound h.room

theorem locate (hc : IsName c) : N.locate p t (s ++ slash :: c) = some (D, c) := by
  rw [N.locate_join hc, h.base]
  rfl

end InDir

/-- One path gets another node, and so does its entry. -/
theorem Shows.update (h : Shows s D d k) {v : Option Node} (hnew : Stands d₁ (D, c) v)
    (hothers : ∀ l v, l ≠ (D, c) → Stands d l v → Stands d₁ l v) :
    Shows s D d₁ (Function.update k (s ++ slash :: c) v) := by
  intro c' hc'
  by_cases heq : c' = c
  · subst heq
    simpa using hnew
  · have hpath : s ++ slash :: c' ≠ s ++ slash :: c := by simpa using heq
    rw [Function.update_of_ne hpath]
    exact hothers _ _ (by simpa using heq) (h c' hc')

theorem Shows.openAt (hin : InDir N p A t s D) (h : Shows s D d k) (ht : d.sights = t)
    (hc : IsName c) : d.openPath N p (s ++ slash :: c) = d.openAt (D, c) := by
  have htarget : N.openTarget p d.sights (s ++ slash :: c) = some (D, c) := by
    refine N.openTarget_plain ?_ (h c hc).not_link
    rw [ht]
    exact hin.locate hc
  rw [LinkedDisk.openPath, htarget]

/-- An open of a path under which there is nothing makes an empty file. -/
theorem Shows.open_free (h : Shows s D d k) (hc : IsName c) (hlen : c.length ≤ nameMax)
    (hk : k (s ++ slash :: c) = none) :
    d.openAt (D, c) = .ok (d.next, d.create (D, c)) ∧
      Shows s D (d.create (D, c)) (Function.update k (s ++ slash :: c) (some (.file []))) := by
  have hs := h c hc
  rw [hk] at hs
  cases hs with
  | free he =>
      refine ⟨?_, h.update (.create_self d _) fun l v hne hl => hl.create_other hne⟩
      simp only [LinkedDisk.openAt, if_neg (Nat.not_lt.mpr hlen), he]

theorem Shows.open_dir (h : Shows s D d k) (hc : IsName c) (hlen : c.length ≤ nameMax)
    (hk : k (s ++ slash :: c) = some .dir) : d.openAt (D, c) = .error eisdir := by
  have hs := h c hc
  rw [hk] at hs
  cases hs with
  | dir he => simp only [LinkedDisk.openAt, if_neg (Nat.not_lt.mpr hlen), he]

theorem Shows.open_file (h : Shows s D d k) (hc : IsName c) (hlen : c.length ≤ nameMax)
    (hk : k (s ++ slash :: c) = some (.file data)) :
    ∃ i, d.entry (D, c) = some (.inode i) ∧ d.body i = .file data ∧
      d.openAt (D, c) = .ok (i, d) := by
  have hs := h c hc
  rw [hk] at hs
  cases hs with
  | @file i _ he hb _ =>
      refine ⟨i, he, hb, ?_⟩
      simp only [LinkedDisk.openAt, if_neg (Nat.not_lt.mpr hlen), he]

theorem Shows.setFile (h : Shows s D d k) (hc : IsName c) {i : Nat}
    (he : d.entry (D, c) = some (.inode i)) (data : Bytes) :
    Shows s D (d.setBody i (.file data))
      (Function.update k (s ++ slash :: c) (some (.file data))) :=
  h.update ((h c hc).setBody_self he data) fun _ _ hne hl => hl.setBody_other he hne

/-! ## One call of both flushes -/

structure Alike (A : FlushArgs) (t : Sights) (s : CString) (D : Dir) (f : LinkedFlush)
    (x : FlushPc × Disk) : Prop where
  pc : f.pc = x.1
  shows : Shows s D f.disk x.2
  sights : f.pc.stage ≠ none → f.disk.sights = t
  opened : f.pc.stage = some .copying ∨ f.pc.stage = some .installing →
    ∃ i, f.disk.entry (D, A.tmpName s) = some (.inode i) ∧ f.fd = some i

namespace Alike

theorem ended (h : Shows s D d k) (r : Except Errno Unit) :
    Alike A t s D ⟨.done r, fd, d⟩ (.done r, k) where
  pc := rfl
  shows := h
  sights hst := absurd rfl hst
  opened hst := by rcases hst with hst | hst <;> cases hst

theorem goesOn (h : Alike A t s D ⟨pc, fd, d⟩ (pc, k)) {pc' : FlushPc}
    (hstage : pc'.stage = pc.stage) : Alike A t s D ⟨pc', fd, d⟩ (pc', k) where
  pc := rfl
  shows := h.shows
  sights hst := h.sights (hstage ▸ hst)
  opened hst := h.opened (hstage ▸ hst)

theorem openTmp (hin : InDir N p A t s D) (h : Alike A t s D ⟨.openTmp, fd, d⟩ (.openTmp, k))
    (n : Nat) :
    Alike A t s D (linkedStep N p A src ⟨.openTmp, fd, d⟩ (.ok n))
      (flushStep A src (.openTmp, k) (.ok n)) := by
  have ht : d.sights = t := h.sights (by simp [FlushPc.stage])
  have hshows : Shows s D d k := h.shows
  have hopen := hshows.openAt hin ht hin.tmp_name
  rcases hk : k (s ++ slash :: A.tmpName s) with _ | (data | _)
  · obtain ⟨hat, hnew⟩ := hshows.open_free hin.tmp_name hin.tmp_short hk
    obtain ⟨_, _, he⟩ := openPath_ok (hopen.trans hat)
    have hentry : (d.create (D, A.tmpName s)).entry (D, A.tmpName s) = some (.inode d.next) :=
      create_entry_self
    have hset : (d.create (D, A.tmpName s)).setData d.next [] =
        (d.create (D, A.tmpName s)).setBody d.next (.file []) := by
      rw [setData, create_body_self]
      rfl
    have hagain := hnew.setFile hin.tmp_name hentry []
    rw [Function.update_idem, ← hset] at hagain
    simp only [linkedStep, flushStep, hin.tmpPath, hopen, hat, hk]
    refine ⟨rfl, hagain, fun _ => ?_, fun _ => ⟨_, hentry, rfl⟩⟩
    exact setData_sights.trans (he.sights.trans ht)
  · obtain ⟨i, he, hb, hat⟩ := hshows.open_file hin.tmp_name hin.tmp_short hk
    have hset : d.setData i [] = d.setBody i (.file []) := by
      rw [LinkedDisk.setData, hb]
      rfl
    have hnew := hshows.setFile hin.tmp_name he []
    rw [← hset] at hnew
    simp only [linkedStep, flushStep, hin.tmpPath, hopen, hat, hk]
    exact ⟨rfl, hnew, fun _ => setData_sights.trans ht, fun _ => ⟨i, he, rfl⟩⟩
  · have hat := hshows.open_dir hin.tmp_name hin.tmp_short hk
    simp only [linkedStep, flushStep, hin.tmpPath, hopen, hat, hk]
    exact .ended hshows _

theorem tmpFile (hin : InDir N p A t s D) (h : Alike A t s D ⟨pc, fd, d⟩ (pc, k))
    (hpc : pc.stage = some .copying ∨ pc.stage = some .installing) :
    ∃ i data, d.entry (D, A.tmpName s) = some (.inode i) ∧ fd = some i ∧
      k (s ++ slash :: A.tmpName s) = some (.file data) ∧ d.body i = .file data := by
  obtain ⟨i, he, hfd⟩ := h.opened hpc
  obtain ⟨data, hk, hb⟩ := (h.shows _ hin.tmp_name).of_inode he
  exact ⟨i, data, he, hfd, hk, hb⟩

theorem pwrite (hin : InDir N p A t s D) {pos : Nat} {buf : Bytes}
    (h : Alike A t s D ⟨.write pos buf, fd, d⟩ (.write pos buf, k)) (out : Bytes) :
    Shows s D (d.pwrite fd pos out) (k.pwrite A.tmpPath pos out) ∧
      (d.pwrite fd pos out).sights = t ∧ (d.pwrite fd pos out).entry = d.entry := by
  obtain ⟨i, data, he, rfl, hk, hb⟩ := h.tmpFile hin (Or.inl rfl)
  have ht : d.sights = t := h.sights (by simp [FlushPc.stage])
  have hwrite : (d.body i).write pos out = .file (writeAt 0 data pos out) := by
    rw [hb]
    rfl
  simp only [LinkedDisk.pwrite, Disk.pwrite, hin.tmpPath, hk, hwrite]
  refine ⟨h.shows.setFile hin.tmp_name he _, ?_, rfl⟩
  rw [sights_setBody (by rw [hb]; rfl), ht]

theorem write (hin : InDir N p A t s D) {pos : Nat} {buf : Bytes}
    (h : Alike A t s D ⟨.write pos buf, fd, d⟩ (.write pos buf, k)) (n : Nat) :
    Alike A t s D (linkedStep N p A src ⟨.write pos buf, fd, d⟩ (.ok n))
      (flushStep A src (.write pos buf, k) (.ok n)) := by
  by_cases hn : n < buf.length
  · simp only [linkedStep, flushStep, if_pos hn]
    exact .ended (h.pwrite hin (buf.take n)).1 _
  · simp only [linkedStep, flushStep, if_neg hn]
    obtain ⟨hshows, hsights, hentry⟩ := h.pwrite hin buf
    obtain ⟨i, he, hfd⟩ := h.opened (Or.inl rfl)
    exact ⟨rfl, hshows, fun _ => hsights, fun _ => ⟨i, (congrFun hentry _).trans he, hfd⟩⟩

theorem touch (hin : InDir N p A t s D) (h : Alike A t s D ⟨.touch, fd, d⟩ (.touch, k)) (n : Nat) :
    Alike A t s D (linkedStep N p A src ⟨.touch, fd, d⟩ (.ok n))
      (flushStep A src (.touch, k) (.ok n)) := by
  obtain ⟨i, he, hfd⟩ := h.opened (Or.inl rfl)
  have ht : d.sights = t := h.sights (by simp [FlushPc.stage])
  have hshows : Shows s D d k := h.shows
  have hopen := hshows.openAt hin ht hin.target_name
  have hsame : Alike A t s D ⟨.call .lookupDentry, fd, d⟩ (.call .lookupDentry, k) :=
    ⟨rfl, hshows, fun _ => ht, fun _ => ⟨i, he, hfd⟩⟩
  rcases hk : k (s ++ slash :: A.filename.take (nameRoom s)) with _ | (data | _)
  · obtain ⟨hat, hnew⟩ := hshows.open_free hin.target_name hin.target_short hk
    obtain ⟨_, _, heffect⟩ := openPath_ok (hopen.trans hat)
    simp only [linkedStep, flushStep, hin.finalPath, hopen, hat, hk]
    have hsome : d.entry (D, A.tmpName s) ≠ none := by
      intro hnone
      cases hnone.symm.trans he
    exact ⟨rfl, hnew, fun _ => heffect.sights.trans ht,
      fun _ => ⟨i, (heffect.entry_of_some hsome).trans he, hfd⟩⟩
  · obtain ⟨j, _, _, hat⟩ := hshows.open_file hin.target_name hin.target_short hk
    simp only [linkedStep, flushStep, hin.finalPath, hopen, hat, hk]
    exact hsame
  · have hat := hshows.open_dir hin.target_name hin.target_short hk
    simp only [linkedStep, flushStep, hin.finalPath, hopen, hat, hk]
    exact hsame

end Alike

/-- A file goes to the place of another one. -/
theorem Shows.move (h : Shows s D d k) {c' : CString} (hc : IsName c) (hne : c ≠ c')
    (hk : k (s ++ slash :: c) = some (.file data)) :
    Shows s D (d.move (D, c) (D, c')) (Function.update
      (Function.update k (s ++ slash :: c') (some (.file data))) (s ++ slash :: c) none) := by
  have hpath : ∀ {x y : CString}, x ≠ y → s ++ slash :: x ≠ s ++ slash :: y := by simp
  have hloc : ∀ {x y : CString}, x ≠ y → ((D, x) : Loc) ≠ (D, y) := by simp
  intro x hx
  by_cases hold : x = c
  · subst hold
    rw [Function.update_self]
    exact .move_old d _ _
  rw [Function.update_of_ne (hpath hold)]
  by_cases hnew : x = c'
  · subst hnew
    have hs := h c hc
    rw [hk] at hs
    rw [Function.update_self]
    exact hs.move_new (hloc hne)
  · rw [Function.update_of_ne (hpath hnew)]
    exact (h x hx).move_other (hloc hold) (hloc hnew)

namespace Alike

theorem rename (hin : InDir N p A t s D) (h : Alike A t s D ⟨.rename, fd, d⟩ (.rename, k))
    (n : Nat) :
    Alike A t s D (linkedStep N p A src ⟨.rename, fd, d⟩ (.ok n))
      (flushStep A src (.rename, k) (.ok n)) := by
  obtain ⟨i, data, he, _, hk, _⟩ := h.tmpFile hin (Or.inr rfl)
  have ht : d.sights = t := h.sights (by simp [FlushPc.stage])
  have hshows : Shows s D d k := h.shows
  have hfound : ∀ {x}, IsName x → N.locate p d.sights (s ++ slash :: x) = some (D, x) := by
    intro x hx
    rw [ht]
    exact hin.locate hx
  have hfa := hfound hin.tmp_name
  have hfb := hfound hin.target_name
  have hpath : s ++ slash :: A.tmpName s = s ++ slash :: A.filename.take (nameRoom s) ↔
      A.tmpName s = A.filename.take (nameRoom s) := by simp
  have hloc : ((D, A.tmpName s) : Loc) = (D, A.filename.take (nameRoom s)) ↔
      A.tmpName s = A.filename.take (nameRoom s) := by simp
  have hs := hshows _ hin.target_name
  generalize hkb : k (s ++ slash :: A.filename.take (nameRoom s)) = v at hs
  cases hs with
  | free he' =>
      have hne : A.tmpName s ≠ A.filename.take (nameRoom s) := by
        intro heq
        rw [heq] at he
        cases he.symm.trans he'
      simp only [linkedStep, flushStep, LinkedDisk.rename, Disk.rename, hin.tmpPath, hin.finalPath,
        hfa, hfb, hk, hkb, he, he', hpath, hloc, hne, reduceCtorEq, or_false, if_false]
      exact .ended (hshows.move hin.tmp_name hne hk) _
  | dir he' =>
      simp only [linkedStep, flushStep, LinkedDisk.rename, Disk.rename, hin.tmpPath, hin.finalPath,
        hfa, hfb, hk, hkb, he, he']
      exact .ended hshows _
  | @file j data' he' _ _ =>
      -- one inode under both names is one name
      have hsame : A.tmpName s = A.filename.take (nameRoom s) ∨
          some (LinkedEntry.inode j) = some (.inode i) ↔
            A.tmpName s = A.filename.take (nameRoom s) := by
        refine ⟨fun h' => h'.elim id fun heq => ?_, Or.inl⟩
        exact hloc.mp ((hshows _ hin.tmp_name).one_name he (he'.trans heq)).symm
      simp only [linkedStep, flushStep, LinkedDisk.rename, Disk.rename, hin.tmpPath, hin.finalPath,
        hfa, hfb, hk, hkb, he, he', hpath, hloc, hsame]
      by_cases hne : A.tmpName s = A.filename.take (nameRoom s)
      · simp only [if_pos hne]
        exact .ended hshows _
      · simp only [if_neg hne]
        exact .ended (hshows.move hin.tmp_name hne hk) _

theorem step (hin : InDir N p A t s D) {f : LinkedFlush} {x : FlushPc × Disk}
    (h : Alike A t s D f x) (ans : Except Errno Nat) :
    Alike A t s D (linkedStep N p A src f ans) (flushStep A src x ans) := by
  obtain ⟨pc, fd, d⟩ := f
  obtain ⟨_, k⟩ := x
  obtain rfl : pc = _ := h.pc
  cases pc with
  | call c =>
      cases ans with
      | error e => exact .ended h.shows _
      | ok n => exact h.goesOn c.next_stage
  | openTmp =>
      cases ans with
      | error e => exact .ended h.shows _
      | ok n => exact h.openTmp hin n
  | read pos =>
      cases ans with
      | error e => exact .ended h.shows _
      | ok n =>
          cases hread : kernelRead src pos n with
          | nil =>
              simp only [linkedStep, flushStep, hread]
              exact h.goesOn rfl
          | cons b buf =>
              simp only [linkedStep, flushStep, hread]
              exact h.goesOn rfl
  | write pos buf =>
      cases ans with
      | error e => exact .ended h.shows _
      | ok n => exact h.write hin n
  | touch =>
      cases ans with
      | error e =>
          exact ⟨rfl, h.shows, fun _ => h.sights (by simp [FlushPc.stage]),
            fun _ => h.opened (Or.inl rfl)⟩
      | ok n => exact h.touch hin n
  | rename =>
      cases ans with
      | error e => exact .ended h.shows _
      | ok n => exact h.rename hin n
  | done r => exact h

end Alike

/-! ## Whole flushes -/

theorem linkedRun_alike (hin : InDir N p A d.sights s D) (hk : Shows s D d k)
    (answers : List (Except Errno Nat)) :
    Alike A d.sights s D (linkedRun N p A src d answers) (flushRun A src k answers) := by
  have hstart : Alike A d.sights s D ⟨flushStart A, none, d⟩ (flushStart A, k) := by
    rcases flushStart_cases A with heq | heq
    · rw [heq]
      exact .ended hk _
    · rw [heq]
      exact ⟨rfl, hk, fun _ => rfl, fun hst => by rcases hst with hst | hst <;> cases hst⟩
  unfold linkedRun flushRun
  generalize LinkedFlush.mk (flushStart A) none d = f at hstart
  generalize (flushStart A, k) = x at hstart
  induction answers generalizing f x with
  | nil => exact hstart
  | cons ans answers ih => exact ih _ _ (hstart.step hin ans)

/-- In a directory without links the flush by inode and the flush by path are at the same call,
and have left the same entries, wherever they stop. -/
theorem linkedRun_simulates (hin : InDir N p A d.sights s D) (hk : Shows s D d k)
    (answers : List (Except Errno Nat)) :
    (linkedRun N p A src d answers).pc = (flushRun A src k answers).1 ∧
      Shows s D (linkedRun N p A src d answers).disk (flushRun A src k answers).2 :=
  ⟨(linkedRun_alike hin hk answers).pc, (linkedRun_alike hin hk answers).shows⟩

/-- What is proved by path holds of the inodes: a flush that returns 0 leaves the source in the
target, and the entries of other names alone. -/
theorem linkedRun_success (hin : InDir N p A d.sights s D) (hk : Shows s D d k)
    {answers : List (Except Errno Nat)}
    (hdone : (linkedRun N p A src d answers).pc = .done (.ok ())) :
    Stands (linkedRun N p A src d answers).disk (D, A.filename.take (nameRoom s))
        (some (.file src)) ∧
      ∀ c, IsName c → c ≠ A.tmpName s → c ≠ A.filename.take (nameRoom s) →
        Stands (linkedRun N p A src d answers).disk (D, c) (k (s ++ slash :: c)) := by
  obtain ⟨hpc, hshows⟩ : (linkedRun N p A src d answers).pc = (flushRun A src k answers).1 ∧
      Shows s D (linkedRun N p A src d answers).disk (flushRun A src k answers).2 :=
    linkedRun_simulates hin hk answers
  obtain ⟨htarget, hothers⟩ := flushRun_success (hpc.symm.trans hdone)
  rw [hin.finalPath] at htarget hothers
  rw [hin.tmpPath] at hothers
  constructor
  · rw [← htarget]
    exact hshows _ hin.target_name
  · intro c hc htmp hfinal
    rw [← hothers _ (by simpa using htmp) (by simpa using hfinal)]
    exact hshows c hc

end Flushes

example : InDir (treeNamei fun _ => 0) ⟨0, 0, 0, 1⟩ firstFlush emptyDir.sights (ascii "/p") 1 :=
  ⟨rfl, by decide, rfl, ⟨⟨by decide, by decide⟩, by decide⟩, by decide,
    ⟨⟨by decide, by decide⟩, by decide⟩, by decide⟩

end OShm.Ramfs
