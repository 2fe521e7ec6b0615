import Mathlib.Data.List.Nodup
import OShm.Nccl.Report

/-! # Dividing the measurements of two files

`plot_comparison` filters the rows of an operation out of both frames and divides the columns
by position. A row that only one file has, or that `parse_table` has dropped, moves all the
later rows of that file up by one. Where the numbers of rows differ, `numpy` and `matplotlib`
raise, unless one side has a single row, which is then divided by every row of the other.
-/

namespace OShm.Nccl

/-- `nccl_df['operation'].str.lower() == op.lower()`. -/
def rowsOf (op : Operation) (df : List Row) : List Row :=
  df.filter fun r => lower r.operation = lower op.name

/-- An operation on two `numpy` arrays. No result stands for the exception it raises. -/
def elementwise {α β : Type} (xs : List α) (ys : List β) : Option (List (α × β)) :=
  if xs.length = ys.length then some (xs.zip ys)
  else
    match xs, ys with
    | [x], ys => some (ys.map fun y => (x, y))
    | xs, [y] => some (xs.map fun x => (x, y))
    | _, _ => none

inductive Kind
  | bandwidth
  | latency
  deriving DecidableEq, Repr

/-- One element of `bandwidth_speedup` or `latency_speedup`, with the rows it divides. -/
structure Ratio where
  kind : Kind
  op : Operation
  nccl : Row
  tcp : Row
  deriving DecidableEq, Repr

def ratiosOf (kind : Kind) (op : Operation) (pairs : List (Row × Row)) : List Ratio :=
  pairs.map fun (nccl, tcp) => ⟨kind, op, nccl, tcp⟩

def operations : List Operation := [.allReduce, .broadcast]

/-- The first loop. The frame of a file without rows has no column `operation`, and a bar
chart has a bar of the second frame for every bar of the first. -/
def drawsCharts (ncclDf tcpDf : List Row) : Bool :=
  !ncclDf.isEmpty && !tcpDf.isEmpty &&
    operations.all fun op => (elementwise (rowsOf op ncclDf) (rowsOf op tcpDf)).isSome

/-- The second loop: the ratios it computes before it ends or raises. A line has a point for
every size of the first frame. -/
def speedups (ncclDf tcpDf : List Row) : List Operation → List Ratio
  | [] => []
  | op :: ops =>
      match elementwise (rowsOf op ncclDf) (rowsOf op tcpDf) with
      | none => []
      | some pairs =>
          if pairs.length = (rowsOf op ncclDf).length then
            ratiosOf .bandwidth op pairs ++
              (ratiosOf .latency op pairs ++ speedups ncclDf tcpDf ops)
          else ratiosOf .bandwidth op pairs

def plotComparison (ncclDf tcpDf : List Row) : List Ratio :=
  if drawsCharts ncclDf tcpDf then speedups ncclDf tcpDf operations else []

/-! ## Columns of different lengths -/

section

variable {α β : Type}

/-- The lengths that two arrays of one operation may have. -/
def Fit (n k : Nat) : Prop := n = k ∨ n = 1 ∨ k = 1

theorem elementwise_cases {xs : List α} {ys : List β} {pairs : List (α × β)}
    (h : elementwise xs ys = some pairs) :
    (xs.length = ys.length ∧ pairs = xs.zip ys) ∨
      (∃ x, xs = [x] ∧ ys.length ≠ 1 ∧ pairs = ys.map fun y => (x, y)) ∨
      (∃ y, ys = [y] ∧ xs.length ≠ 1 ∧ pairs = xs.map fun x => (x, y)) := by
  unfold elementwise at h
  split at h
  · rename_i hlen
    exact Or.inl ⟨hlen, (Option.some.inj h).symm⟩
  · rename_i hlen
    split at h
    · rename_i x
      exact Or.inr (Or.inl ⟨x, rfl, fun hone => hlen hone.symm, (Option.some.inj h).symm⟩)
    · rename_i y _
      exact Or.inr (Or.inr ⟨y, rfl, hlen, (Option.some.inj h).symm⟩)
    · cases h

theorem isSome_elementwise {xs : List α} {ys : List β} :
    (elementwise xs ys).isSome = true ↔ Fit xs.length ys.length := by
  constructor
  · intro h
    obtain ⟨pairs, hpairs⟩ := Option.isSome_iff_exists.mp h
    obtain ⟨hlen, -⟩ | ⟨x, rfl, -⟩ | ⟨y, rfl, -⟩ := elementwise_cases hpairs
    · exact Or.inl hlen
    · exact Or.inr (Or.inl rfl)
    · exact Or.inr (Or.inr rfl)
  · intro hfit
    unfold elementwise
    split
    · rfl
    · rename_i hlen
      split
      · rfl
      · rfl
      · rename_i hxs hys
        rcases hfit with hfit | hfit | hfit
        · exact absurd hfit hlen
        · obtain ⟨x, rfl⟩ := List.length_eq_one_iff.mp hfit
          exact absurd rfl (hxs x)
        · obtain ⟨y, rfl⟩ := List.length_eq_one_iff.mp hfit
          exact absurd rfl (hys y)

theorem length_elementwise_iff {xs : List α} {ys : List β} {pairs : List (α × β)}
    (h : elementwise xs ys = some pairs) :
    pairs.length = xs.length ↔ xs.length = ys.length ∨ ys.length = 1 := by
  obtain ⟨hlen, rfl⟩ | ⟨x, rfl, hys, rfl⟩ | ⟨y, rfl, -, rfl⟩ := elementwise_cases h
  · simp [hlen]
  · simp [hys, eq_comm]
  · simp

theorem mem_of_mem_elementwise {xs : List α} {ys : List β} {pairs : List (α × β)} {p : α × β}
    (h : elementwise xs ys = some pairs) (hp : p ∈ pairs) : p.1 ∈ xs ∧ p.2 ∈ ys := by
  obtain ⟨-, rfl⟩ | ⟨x, rfl, -, rfl⟩ | ⟨y, rfl, -, rfl⟩ := elementwise_cases h
  · exact List.of_mem_zip hp
  · obtain ⟨y, hy, rfl⟩ := List.mem_map.mp hp
    exact ⟨List.mem_singleton_self x, hy⟩
  · obtain ⟨x, hx, rfl⟩ := List.mem_map.mp hp
    exact ⟨hx, List.mem_singleton_self y⟩

theorem nodup_elementwise {xs : List α} {ys : List β} {pairs : List (α × β)}
    (hxs : xs.Nodup) (hys : ys.Nodup) (h : elementwise xs ys = some pairs) : pairs.Nodup := by
  obtain ⟨hlen, rfl⟩ | ⟨x, rfl, -, rfl⟩ | ⟨y, rfl, -, rfl⟩ := elementwise_cases h
  · refine List.Nodup.of_map Prod.fst ?_
    rwa [List.map_fst_zip (Nat.le_of_eq hlen)]
  · exact hys.map fun a b hab => (Prod.mk.inj hab).2
  · exact hxs.map fun a b hab => (Prod.mk.inj hab).1

variable {f : α → Nat} {g : β → Nat}

theorem zip_alike_iff {xs : List α} {ys : List β} (hlen : xs.length = ys.length) :
    (∀ p ∈ xs.zip ys, f p.1 = g p.2) ↔ xs.map f = ys.map g := by
  induction xs generalizing ys with
  | nil =>
      cases ys with
      | nil => simp
      | cons y ys => simp at hlen
  | cons x xs ih =>
      cases ys with
      | nil => simp at hlen
      | cons y ys =>
          rw [List.zip_cons_cons, List.forall_mem_cons, ih (Nat.succ.inj hlen), List.map_cons,
            List.map_cons, List.cons.injEq]

theorem eq_nil_of_single (x : Nat) {ys : List β} (hys : (ys.map g).Nodup)
    (hlen : ys.length ≠ 1) (h : ∀ y ∈ ys, x = g y) : ys = [] := by
  cases ys with
  | nil => rfl
  | cons y ys =>
      cases ys with
      | nil => exact absurd rfl hlen
      | cons z ys =>
          have heq : g y = g z := by rw [← h y (by simp), ← h z (by simp)]
          simp [heq] at hys

/-- The quotients are of like values exactly when the columns agree or give no quotient. -/
theorem elementwise_alike_iff {xs : List α} {ys : List β} {pairs : List (α × β)}
    (hxs : (xs.map f).Nodup) (hys : (ys.map g).Nodup) (h : elementwise xs ys = some pairs) :
    (∀ p ∈ pairs, f p.1 = g p.2) ↔ xs = [] ∨ ys = [] ∨ xs.map f = ys.map g := by
  obtain ⟨hlen, rfl⟩ | ⟨x, rfl, hlen, rfl⟩ | ⟨y, rfl, hlen, rfl⟩ := elementwise_cases h
  · rw [zip_alike_iff hlen]
    constructor
    · exact fun heq => Or.inr (Or.inr heq)
    · rintro (rfl | rfl | heq)
      · rw [List.length_eq_zero_iff.mp hlen.symm]
        rfl
      · rw [List.length_eq_zero_iff.mp hlen]
        rfl
      · exact heq
  · constructor
    · intro halike
      refine Or.inr (Or.inl (eq_nil_of_single (f x) hys hlen fun y hy => ?_))
      exact halike (x, y) (List.mem_map.mpr ⟨y, hy, rfl⟩)
    · rintro (hnil | rfl | heq)
      · cases hnil
      · simp
      · have hone : ys.length = 1 := by simpa using (congrArg List.length heq).symm
        exact absurd hone hlen
  · constructor
    · intro halike
      refine Or.inl (eq_nil_of_single (g y) hxs hlen fun x hx => ?_)
      exact (halike (x, y) (List.mem_map.mpr ⟨x, hx, rfl⟩)).symm
    · rintro (rfl | hnil | heq)
      · simp
      · cases hnil
      · have hone : xs.length = 1 := by simpa using congrArg List.length heq
        exact absurd hone hlen

theorem mem_zip_of_alike {xs : List α} {ys : List β} (hxs : (xs.map f).Nodup)
    (heq : xs.map f = ys.map g) {x : α} {y : β} (hx : x ∈ xs) (hy : y ∈ ys) (hxy : f x = g y) :
    (x, y) ∈ xs.zip ys := by
  induction xs generalizing ys with
  | nil => cases hx
  | cons a xs ih =>
      cases ys with
      | nil => cases hy
      | cons b ys =>
          rw [List.map_cons, List.map_cons, List.cons.injEq] at heq
          rw [List.map_cons, List.nodup_cons] at hxs
          rcases List.mem_cons.mp hx with rfl | hx
          · rcases List.mem_cons.mp hy with rfl | hy
            · exact List.mem_cons_self
            · exact absurd (heq.2 ▸ hxy ▸ List.mem_map_of_mem hy) hxs.1
          · rcases List.mem_cons.mp hy with rfl | hy
            · exact absurd (heq.1 ▸ hxy ▸ List.mem_map_of_mem hx) hxs.1
            · exact List.mem_cons_of_mem _ (ih hxs.2 heq.2 hx hy)

end

/-! ## The ratios of a run -/

section

variable {ncclDf tcpDf : List Row}

/-- A line can be drawn with `n` sizes and the ratios of `n` rows to `k` rows. -/
def LineFit (n k : Nat) : Prop := n = k ∨ k = 1

theorem mem_ratiosOf {kind : Kind} {op : Operation} {pairs : List (Row × Row)} {r : Ratio} :
    r ∈ ratiosOf kind op pairs ↔ r.kind = kind ∧ r.op = op ∧ (r.nccl, r.tcp) ∈ pairs := by
  rw [ratiosOf, List.mem_map]
  constructor
  · rintro ⟨⟨nccl, tcp⟩, hmem, rfl⟩
    exact ⟨rfl, rfl, hmem⟩
  · rintro ⟨rfl, rfl, hmem⟩
    exact ⟨(r.nccl, r.tcp), hmem, rfl⟩

theorem mem_speedups_cons {op : Operation} {ops : List Operation} {pairs : List (Row × Row)}
    (h : elementwise (rowsOf op ncclDf) (rowsOf op tcpDf) = some pairs) {r : Ratio} :
    r ∈ speedups ncclDf tcpDf (op :: ops) ↔
      (r.op = op ∧ (r.nccl, r.tcp) ∈ pairs ∧
        (r.kind = .latency → LineFit (rowsOf op ncclDf).length (rowsOf op tcpDf).length)) ∨
      (LineFit (rowsOf op ncclDf).length (rowsOf op tcpDf).length ∧
        r ∈ speedups ncclDf tcpDf ops) := by
  have hfit := length_elementwise_iff h
  rw [speedups, h]
  -- where the line cannot be drawn, the bandwidth ratios are there already
  by_cases hline : LineFit (rowsOf op ncclDf).length (rowsOf op tcpDf).length
  · simp only [if_pos (hfit.mpr hline), List.mem_append, mem_ratiosOf, hline]
    cases r.kind <;> simp
  · simp only [if_neg (mt hfit.mp hline), mem_ratiosOf, hline]
    cases r.kind <;> simp

theorem op_mem_of_mem_speedups {ops : List Operation} {r : Ratio}
    (h : r ∈ speedups ncclDf tcpDf ops) : r.op ∈ ops := by
  induction ops with
  | nil => cases h
  | cons op ops ih =>
      cases hpairs : elementwise (rowsOf op ncclDf) (rowsOf op tcpDf) with
      | none => simp [speedups, hpairs] at h
      | some pairs =>
          rcases (mem_speedups_cons hpairs).mp h with ⟨rfl, -⟩ | ⟨-, h⟩
          · exact List.mem_cons_self
          · exact List.mem_cons_of_mem op (ih h)

theorem nodup_ratiosOf {kind : Kind} {op : Operation} {pairs : List (Row × Row)}
    (h : pairs.Nodup) : (ratiosOf kind op pairs).Nodup := by
  refine List.Nodup.map (fun a b hab => ?_) h
  rw [Ratio.mk.injEq] at hab
  exact Prod.ext hab.2.2.1 hab.2.2.2

theorem nodup_speedups (hnccl : ∀ op, (rowsOf op ncclDf).Nodup)
    (htcp : ∀ op, (rowsOf op tcpDf).Nodup) {ops : List Operation} (hops : ops.Nodup) :
    (speedups ncclDf tcpDf ops).Nodup := by
  induction ops with
  | nil => exact List.nodup_nil
  | cons op ops ih =>
      rw [List.nodup_cons] at hops
      rw [speedups]
      cases hpairs : elementwise (rowsOf op ncclDf) (rowsOf op tcpDf) with
      | none => exact List.nodup_nil
      | some pairs =>
          have hnodup := nodup_elementwise (hnccl op) (htcp op) hpairs
          simp only
          split
          · -- ratios of two kinds differ, and so do those of two operations
            refine (nodup_ratiosOf hnodup).append
              ((nodup_ratiosOf hnodup).append (ih hops.2) ?_) ?_
            · intro r hr hlater
              exact hops.1 ((mem_ratiosOf.mp hr).2.1 ▸ op_mem_of_mem_speedups hlater)
            · intro r hr hlater
              have hr := mem_ratiosOf.mp hr
              rcases List.mem_append.mp hlater with hlatency | hlater
              · exact absurd (hr.1.symm.trans (mem_ratiosOf.mp hlatency).1) (by decide)
              · exact hops.1 (hr.2.1 ▸ op_mem_of_mem_speedups hlater)
          · exact nodup_ratiosOf hnodup

/-- The loop computes ratios for the operation: the charts are drawn, and for the second
operation the lines of the first are. -/
def Reached (ncclDf tcpDf : List Row) (op : Operation) : Prop :=
  drawsCharts ncclDf tcpDf = true ∧
    (op = .broadcast →
      LineFit (rowsOf .allReduce ncclDf).length (rowsOf .allReduce tcpDf).length)

theorem exists_elementwise (h : drawsCharts ncclDf tcpDf = true) (op : Operation) :
    ∃ pairs, elementwise (rowsOf op ncclDf) (rowsOf op tcpDf) = some pairs := by
  rw [drawsCharts, Bool.and_eq_true, List.all_eq_true] at h
  exact Option.isSome_iff_exists.mp (h.2 op (by cases op <;> decide))

theorem mem_plotComparison {r : Ratio} :
    r ∈ plotComparison ncclDf tcpDf ↔
      Reached ncclDf tcpDf r.op ∧
        ∃ pairs, elementwise (rowsOf r.op ncclDf) (rowsOf r.op tcpDf) = some pairs ∧
          (r.nccl, r.tcp) ∈ pairs ∧
          (r.kind = .latency →
            LineFit (rowsOf r.op ncclDf).length (rowsOf r.op tcpDf).length) := by
  by_cases hcharts : drawsCharts ncclDf tcpDf = true
  · obtain ⟨first, hfirst⟩ := exists_elementwise hcharts .allReduce
    obtain ⟨second, hsecond⟩ := exists_elementwise hcharts .broadcast
    rw [plotComparison, if_pos hcharts, operations, mem_speedups_cons hfirst,
      mem_speedups_cons hsecond, Reached]
    cases hop : r.op with
    | allReduce => simp [hcharts, hfirst, speedups]
    | broadcast => simp [hcharts, hsecond, speedups]
  · simp [plotComparison, Reached, hcharts]

end

/-! ## The rows of a file -/

section

variable {α β : Type} [Printed α] [Printed β]

/-- The measurements of an operation that `parse_table` reads back. -/
def Report.kept (f : Report α β) (op : Operation) : List (Measurement α β) :=
  f.rows.filter fun m => decide (m.op = op) && m.plain

def Report.keptSizes (f : Report α β) (op : Operation) : List Nat :=
  (f.kept op).map Measurement.sizeBytes

theorem lower_name_inj {op op' : Operation} (h : lower op.name = lower op'.name) : op = op' := by
  cases op <;> cases op' <;> first | rfl | exact absurd h (by decide)

theorem Measurement.lower_operation_iff (naming : Naming) (m : Measurement α β) (op : Operation) :
    lower (m.row naming).operation = lower op.name ↔ m.op = op := by
  rw [Measurement.row, naming.lower_eq]
  exact ⟨lower_name_inj, fun h => h ▸ rfl⟩

theorem Report.rowsOf_parseTable (naming : Naming) (f : Report α β) (op : Operation) :
    rowsOf op (parseTable (f.text naming)) = (f.kept op).map (Measurement.row naming) := by
  rw [f.parseTable_text, rowsOf, List.filter_map, List.filter_filter, Report.kept]
  congr 2
  funext m
  simp [m.lower_operation_iff naming op]

theorem Report.map_sizeBytes_rowsOf (naming : Naming) (f : Report α β) (op : Operation) :
    (rowsOf op (parseTable (f.text naming))).map Row.sizeBytes = f.keptSizes op := by
  rw [f.rowsOf_parseTable, List.map_map]
  rfl

theorem Report.length_rowsOf (naming : Naming) (f : Report α β) (op : Operation) :
    (rowsOf op (parseTable (f.text naming))).length = (f.keptSizes op).length := by
  rw [← f.map_sizeBytes_rowsOf naming, List.length_map]

theorem Report.nodup_keptSizes (f : Report α β) (op : Operation) : (f.keptSizes op).Nodup := by
  have hsub : ((f.kept op).map fun m => (m.op, m.sizeBytes)).Nodup :=
    f.distinct.sublist (List.filter_sublist.map _)
  have hop : ∀ m ∈ f.kept op, m.op = op := by
    intro m hm
    simp only [Report.kept, List.mem_filter, Bool.and_eq_true, decide_eq_true_eq] at hm
    exact hm.2.1
  have hpair : ((f.kept op).map fun m => (m.op, m.sizeBytes)) =
      (f.keptSizes op).map fun size => (op, size) := by
    rw [Report.keptSizes, List.map_map]
    exact List.map_congr_left fun m hm => by rw [Function.comp, hop m hm]
  rw [hpair] at hsub
  exact List.Nodup.of_map _ hsub

theorem Report.nodup_rowsOf (naming : Naming) (f : Report α β) (op : Operation) :
    (rowsOf op (parseTable (f.text naming))).Nodup :=
  List.Nodup.of_map Row.sizeBytes (f.map_sizeBytes_rowsOf naming op ▸ f.nodup_keptSizes op)

theorem Report.row_mem_iff (naming : Naming) {f : Report α β} {m : Measurement α β}
    (hm : m ∈ f.rows) :
    m.row naming ∈ rowsOf m.op (parseTable (f.text naming)) ↔ m.plain = true := by
  rw [f.rowsOf_parseTable]
  constructor
  · intro h
    obtain ⟨m', hm', heq⟩ := List.mem_map.mp h
    simp only [Report.kept, List.mem_filter, Bool.and_eq_true] at hm'
    rw [← m.kept_row naming, ← heq, m'.kept_row naming]
    exact hm'.2.2
  · intro hplain
    exact List.mem_map_of_mem (List.mem_filter.mpr ⟨hm, by simp [hplain]⟩)

theorem Report.parseTable_isEmpty_iff (naming : Naming) (f : Report α β) :
    (parseTable (f.text naming)).isEmpty = true ↔ ∀ op, f.keptSizes op = [] := by
  rw [f.parseTable_text, List.isEmpty_iff, List.map_eq_nil_iff]
  simp only [Report.keptSizes, Report.kept, List.map_eq_nil_iff, List.filter_eq_nil_iff]
  constructor
  · intro h op m hm
    simp [h m hm]
  · intro h m hm
    simpa using h m.op m hm

end

/-! ## Like with like -/

/-- The ratios for a file of `nccl_perf_test` and a file of `tcp_gpu_comm_test`. -/
def comparison (f : NcclReport) (g : TcpReport) : List Ratio :=
  plotComparison (parseTable (f.text ncclNaming)) (parseTable (g.text tcpNaming))

/-- Every ratio divides measurements of one operation and one size, and what both files have
measured gives one ratio of each kind. -/
structure LikeWithLike (f : NcclReport) (g : TcpReport) : Prop where
  alike : ∀ r ∈ comparison f g,
    lower r.nccl.operation = lower r.tcp.operation ∧ r.nccl.sizeBytes = r.tcp.sizeBytes
  complete : ∀ m ∈ f.rows, ∀ k ∈ g.rows, m.op = k.op → m.sizeBytes = k.sizeBytes →
    ∀ kind, (comparison f g).count ⟨kind, m.op, m.row ncclNaming, k.row tcpNaming⟩ = 1

structure Reaches (f : NcclReport) (g : TcpReport) (op : Operation) : Prop where
  nccl : ∃ o, f.keptSizes o ≠ []
  tcp : ∃ o, g.keptSizes o ≠ []
  charts : ∀ o, Fit (f.keptSizes o).length (g.keptSizes o).length
  line : op = .broadcast →
    LineFit (f.keptSizes .allReduce).length (g.keptSizes .allReduce).length

section

variable {f : NcclReport} {g : TcpReport} {op : Operation}

theorem forall_mem_operations {P : Operation → Prop} : (∀ op ∈ operations, P op) ↔ ∀ op, P op :=
  ⟨fun h op => h op (by cases op <;> decide), fun h op _ => h op⟩

theorem reached_iff :
    Reached (parseTable (f.text ncclNaming)) (parseTable (g.text tcpNaming)) op ↔
      Reaches f g op := by
  have hnccl : (!(parseTable (f.text ncclNaming)).isEmpty) = true ↔
      ∃ o, f.keptSizes o ≠ [] := by
    rw [Bool.not_eq_true', ← Bool.not_eq_true, f.parseTable_isEmpty_iff, Classical.not_forall]
  have htcp : (!(parseTable (g.text tcpNaming)).isEmpty) = true ↔ ∃ o, g.keptSizes o ≠ [] := by
    rw [Bool.not_eq_true', ← Bool.not_eq_true, g.parseTable_isEmpty_iff, Classical.not_forall]
  simp only [Reached, drawsCharts, Bool.and_eq_true, hnccl, htcp, List.all_eq_true,
    isSome_elementwise, Report.length_rowsOf, forall_mem_operations]
  exact ⟨fun ⟨⟨⟨hn, ht⟩, hcharts⟩, hline⟩ => ⟨hn, ht, hcharts, hline⟩,
    fun h => ⟨⟨⟨h.nccl, h.tcp⟩, h.charts⟩, h.line⟩⟩

theorem nodup_comparison (f : NcclReport) (g : TcpReport) : (comparison f g).Nodup := by
  unfold comparison plotComparison
  split
  · exact nodup_speedups (f.nodup_rowsOf ncclNaming) (g.nodup_rowsOf tcpNaming) (by decide)
  · exact List.nodup_nil

/-- The columns of an operation agree, or one of them is empty. -/
def Aligned (f : NcclReport) (g : TcpReport) (op : Operation) : Prop :=
  f.keptSizes op = [] ∨ g.keptSizes op = [] ∨ f.keptSizes op = g.keptSizes op

theorem alike_pairs_iff {pairs : List (Row × Row)}
    (h : elementwise (rowsOf op (parseTable (f.text ncclNaming)))
      (rowsOf op (parseTable (g.text tcpNaming))) = some pairs) :
    (∀ p ∈ pairs, p.1.sizeBytes = p.2.sizeBytes) ↔ Aligned f g op := by
  have hf := f.map_sizeBytes_rowsOf ncclNaming op
  have hg := g.map_sizeBytes_rowsOf tcpNaming op
  rw [elementwise_alike_iff (hf ▸ f.nodup_keptSizes op) (hg ▸ g.nodup_keptSizes op) h, Aligned,
    ← hf, ← hg, List.map_eq_nil_iff, List.map_eq_nil_iff]

theorem alike_iff :
    (∀ r ∈ comparison f g,
      lower r.nccl.operation = lower r.tcp.operation ∧ r.nccl.sizeBytes = r.tcp.sizeBytes) ↔
      ∀ op, Reaches f g op → Aligned f g op := by
  constructor
  · intro h op hreach
    have hreached := reached_iff.mpr hreach
    obtain ⟨pairs, hpairs⟩ := exists_elementwise hreached.1 op
    refine (alike_pairs_iff hpairs).mp fun p hp => ?_
    refine (h ⟨.bandwidth, op, p.1, p.2⟩ (mem_plotComparison.mpr ?_)).2
    exact ⟨hreached, pairs, hpairs, hp, fun hkind => by cases hkind⟩
  · intro h r hr
    obtain ⟨hreached, pairs, hpairs, hmem, -⟩ := mem_plotComparison.mp hr
    have hrows := mem_of_mem_elementwise hpairs hmem
    simp only [rowsOf, List.mem_filter, decide_eq_true_eq] at hrows
    have haligned := h r.op (reached_iff.mp hreached)
    exact ⟨hrows.1.2.trans hrows.2.2.symm, (alike_pairs_iff hpairs).mpr haligned _ hmem⟩

/-- Two measurements of one operation and size meet in aligned columns. -/
theorem mem_comparison {m : Measurement Double Double} {k : Measurement (Fixed 2) (Fixed 4)}
    (hm : m ∈ f.rows) (hk : k ∈ g.rows) (hop : m.op = k.op) (hsize : m.sizeBytes = k.sizeBytes)
    (hreach : Reaches f g m.op) (haligned : Aligned f g m.op) (hmplain : m.plain = true)
    (hkplain : k.plain = true) (kind : Kind) :
    ⟨kind, m.op, m.row ncclNaming, k.row tcpNaming⟩ ∈ comparison f g := by
  have hf := f.map_sizeBytes_rowsOf ncclNaming m.op
  have hg := g.map_sizeBytes_rowsOf tcpNaming m.op
  have hmrow := (Report.row_mem_iff ncclNaming hm).mpr hmplain
  have hkrow := hop ▸ (Report.row_mem_iff tcpNaming hk).mpr hkplain
  have heq : f.keptSizes m.op = g.keptSizes m.op := by
    rcases haligned with hnil | hnil | heq
    · rw [← hf, List.map_eq_nil_iff] at hnil
      exact absurd (hnil ▸ hmrow) List.not_mem_nil
    · rw [← hg, List.map_eq_nil_iff] at hnil
      exact absurd (hnil ▸ hkrow) List.not_mem_nil
    · exact heq
  have hlen : (rowsOf m.op (parseTable (f.text ncclNaming))).length =
      (rowsOf m.op (parseTable (g.text tcpNaming))).length := by
    rw [Report.length_rowsOf, Report.length_rowsOf, heq]
  refine mem_plotComparison.mpr ⟨reached_iff.mpr hreach, _, if_pos hlen, ?_, fun _ => Or.inl hlen⟩
  exact mem_zip_of_alike (hf ▸ f.nodup_keptSizes m.op) (hf.trans (heq.trans hg.symm)) hmrow hkrow
    hsize

theorem plain_of_mem_comparison {m : Measurement Double Double}
    {k : Measurement (Fixed 2) (Fixed 4)} (hm : m ∈ f.rows) (hk : k ∈ g.rows)
    (hop : m.op = k.op) {kind : Kind}
    (h : ⟨kind, m.op, m.row ncclNaming, k.row tcpNaming⟩ ∈ comparison f g) :
    Reaches f g m.op ∧ m.plain = true ∧ k.plain = true := by
  obtain ⟨hreached, pairs, hpairs, hmem, -⟩ := mem_plotComparison.mp h
  obtain ⟨hmrow, hkrow⟩ := mem_of_mem_elementwise hpairs hmem
  exact ⟨reached_iff.mp hreached, (Report.row_mem_iff ncclNaming hm).mp hmrow,
    (Report.row_mem_iff tcpNaming hk).mp (hop ▸ hkrow)⟩

end

/-- The comparison is one of like with like exactly for files that the expression reads in
the same sizes, up to operations that one side does not have, and that drop no measurement
the other file has as well. -/
theorem comparison_likeWithLike_iff (f : NcclReport) (g : TcpReport) :
    LikeWithLike f g ↔
      (∀ op, Reaches f g op → Aligned f g op) ∧
        ∀ m ∈ f.rows, ∀ k ∈ g.rows, m.op = k.op → m.sizeBytes = k.sizeBytes →
          Reaches f g m.op ∧ m.plain = true ∧ k.plain = true := by
  constructor
  · intro h
    refine ⟨alike_iff.mp h.alike, fun m hm k hk hop hsize => ?_⟩
    have hcount := h.complete m hm k hk hop hsize .bandwidth
    exact plain_of_mem_comparison hm hk hop (List.count_pos_iff.mp (by rw [hcount]; decide))
  · rintro ⟨haligned, hplain⟩
    refine ⟨alike_iff.mpr haligned, fun m hm k hk hop hsize kind => ?_⟩
    obtain ⟨hreach, hmplain, hkplain⟩ := hplain m hm k hk hop hsize
    exact List.count_eq_one_of_mem (nodup_comparison f g) (mem_comparison hm hk hop hsize hreach
      (haligned m.op hreach) hmplain hkplain kind)

def sampleDouble : Double := .finite false 152513 1 ⟨by decide, by decide⟩

def ncclSample (sizeBytes : Nat) (op : Operation) : Measurement Double Double :=
  ⟨op, sizeBytes, sampleDouble, sampleDouble, sampleDouble⟩

def tcpSample (sizeBytes : Nat) (op : Operation) : Measurement (Fixed 2) (Fixed 4) :=
  ⟨op, sizeBytes, ⟨false, 43904⟩, ⟨false, 11⟩, ⟨false, 6⟩⟩

/-- The files have the size 64 in common, and the measurements for 8 bytes are divided by
those for 64. -/
theorem shifted_rows_divided : ∃ (f : NcclReport) (g : TcpReport),
    f.rows = operations.map (ncclSample 8) ++ operations.map (ncclSample 64) ∧
      g.rows = operations.map (tcpSample 64) ++ operations.map (tcpSample 256) ∧
      ⟨.bandwidth, .allReduce, (ncclSample 8 .allReduce).row ncclNaming,
        (tcpSample 64 .allReduce).row tcpNaming⟩ ∈ comparison f g ∧
      ¬ LikeWithLike f g := by
  let f : NcclReport := ⟨[], operations.map (ncclSample 8) ++ operations.map (ncclSample 64), [],
    by decide, by decide, by decide⟩
  let g : TcpReport := ⟨[], operations.map (tcpSample 64) ++ operations.map (tcpSample 256), [],
    by decide, by decide, by decide⟩
  have hreach : Reaches f g .allReduce :=
    ⟨⟨.allReduce, by decide⟩, ⟨.allReduce, by decide⟩, fun o => by cases o <;> exact Or.inl rfl,
      fun hop => by cases hop⟩
  have hpairs : elementwise (rowsOf .allReduce (parseTable (f.text ncclNaming)))
      (rowsOf .allReduce (parseTable (g.text tcpNaming))) =
      some (([8, 64].map fun size => (ncclSample size .allReduce).row ncclNaming).zip
        ([64, 256].map fun size => (tcpSample size .allReduce).row tcpNaming)) := by
    rw [Report.rowsOf_parseTable, Report.rowsOf_parseTable]
    rfl
  have hmem := (@mem_plotComparison _ _ ⟨.bandwidth, .allReduce, _, _⟩).mpr
    ⟨reached_iff.mpr hreach, _, hpairs, List.mem_cons_self, fun hkind => by cases hkind⟩
  refine ⟨f, g, rfl, rfl, hmem, fun h => ?_⟩
  exact absurd (h.alike _ hmem).2 (by decide)

end OShm.Nccl
