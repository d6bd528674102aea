import Mathlib.Data.List.Nodup
import Mathlib.Data.List.ProdSigma
import QueueDpdk.Lib.Machine
import QueueDpdk.Lib.Sums
import QueueDpdk.Options.Setup

/-!
# The statistics (`nf-chain/src/main.c`, `mica/main.c`)

`print_stats` keeps the counters of its last call, for every queue and in total.  The two programs
differ in the ports they go through.

* `printQueue`, `printStats` — one queue, and one call.
* `printStats_spec` — what a call prints: the totals are over the queues that have changed.
* `stats_exact_iff` — when the totals and the differences of a run are exact.
-/

set_option autoImplicit false

namespace QueueDpdk.Stats

open Lib Options

/-- The fields of `struct port_statistics`. -/
inductive Counter where
  | tx
  | rx
  | dropped
deriving DecidableEq, Repr

abbrev PortStatistics := Counter → UInt64

/-- A port and a queue, the indices of the arrays.  With more than `MAX_RX_QUEUE_PER_LCORE` queues the
    loops run past the end of the arrays; here every cell has counters of its own. -/
abbrev Cell := ℕ × ℕ

/-- `port_statistics`. -/
abbrev Counters := Cell → PortStatistics

/-- `mica` has the one port `portid`. -/
inductive Program where
  | nfChain (enabledPortMask : UInt32)
  | mica
deriving DecidableEq, Repr

structure StatsCfg where
  program : Program
  queues : UInt16
  verbose : Bool

/-- The ports `print_stats` goes through. -/
def Program.ports : Program → List ℕ
  | .nfChain mask =>
    (List.range RTE_MAX_ETHPORTS).filter (fun portid => portEnabled mask (UInt16.ofNat portid))
  | .mica => [0]

/-- The queues of the ports, in the order of the loops. -/
def StatsCfg.cells (c : StatsCfg) : List Cell := c.program.ports ×ˢ List.range c.queues.toNat

/-- The static variables: `prev_tx`, `prev_rx` and `prev_dropped`, and the `total_packets_*_prev`. -/
structure StatsState where
  prev : Counters
  totalPrev : PortStatistics

def StatsState.init : StatsState := ⟨fun _ _ => 0, fun _ => 0⟩

/-- What is printed for a queue. -/
structure QueueLine where
  cell : Cell
  count : PortStatistics
  diff : PortStatistics

/-- What a call prints. -/
structure Printed where
  lines : List QueueLine
  active : ℕ
  total : PortStatistics
  diff : PortStatistics

/-- What the loops over the ports and the queues accumulate. -/
structure Scan where
  lines : List QueueLine
  active : ℕ
  total : PortStatistics
  prev : Counters

def diffOf (now prev : PortStatistics) : PortStatistics := fun k => now k - prev k

/-- `diff_tx == 0 && diff_rx == 0 && diff_dropped == 0`. -/
def isIdle (diff : PortStatistics) : Bool :=
  decide (diff .tx = 0 ∧ diff .rx = 0 ∧ diff .dropped = 0)

/-- The body of the loops. -/
def printQueue (verbose : Bool) (now : Counters) (scan : Scan) (cell : Cell) : Scan :=
  let diff := diffOf (now cell) (scan.prev cell)
  if isIdle diff then scan
  else
    { lines := if verbose then scan.lines ++ [⟨cell, now cell, diff⟩] else scan.lines
      active := scan.active + 1
      total := fun k => scan.total k + now cell k
      prev := Function.update scan.prev cell (now cell) }

/-- `print_stats` when the counters are `now`. -/
def printStats (c : StatsCfg) (s : StatsState) (now : Counters) : StatsState × Printed :=
  let scan := c.cells.foldl (printQueue c.verbose now) ⟨[], 0, fun _ => 0, s.prev⟩
  (⟨scan.prev, scan.total⟩,
    ⟨scan.lines, scan.active, scan.total, diffOf scan.total s.totalPrev⟩)

/-- The calls of a run.  Each one reads the counters as they have become. -/
def calls (c : StatsCfg) : Machine StatsState Counters Printed := ⟨printStats c⟩

/-! ## One call -/

section Call

variable {c : StatsCfg} {s : StatsState} {last now : Counters}

theorem isIdle_diffOf (now prev : PortStatistics) :
    isIdle (diffOf now prev) = true ↔ now = prev := by
  have hsub : ∀ a b : UInt64, a - b = 0 ↔ a = b := by
    intro a b
    rw [UInt64.sub_eq_iff_eq_add, UInt64.zero_add]
  unfold isIdle diffOf
  rw [decide_eq_true_eq, hsub, hsub, hsub]
  constructor
  · rintro ⟨htx, hrx, hdropped⟩
    funext k
    cases k with
    | tx => exact htx
    | rx => exact hrx
    | dropped => exact hdropped
  · rintro rfl
    exact ⟨rfl, rfl, rfl⟩

theorem StatsCfg.cells_nodup (c : StatsCfg) : c.cells.Nodup := by
  refine List.Nodup.product ?_ List.nodup_range
  cases c.program with
  | nfChain mask => exact List.nodup_range.filter _
  | mica => exact List.nodup_singleton 0

/-- A queue that has changed. -/
def moved (last now : Counters) (cell : Cell) : Bool := !isIdle (diffOf (now cell) (last cell))

theorem moved_eq_false {cell : Cell} : moved last now cell = false ↔ now cell = last cell := by
  rw [moved, Bool.not_eq_false', isIdle_diffOf]

/-- The sum of a counter over some queues. -/
def sumOver (cells : List Cell) (counters : Counters) (k : Counter) : ℕ :=
  (cells.map (fun cell => (counters cell k).toNat)).sum

/-- The loops have gone through some queues. -/
structure Scanned (verbose : Bool) (last now : Counters) (cells : List Cell) (scan : Scan) :
    Prop where
  prev : ∀ cell, scan.prev cell = if cell ∈ cells then now cell else last cell
  total : ∀ k, (scan.total k).toNat = sumOver (cells.filter (moved last now)) now k % 2 ^ 64
  lines : verbose = true → scan.lines = (cells.filter (moved last now)).map
    (fun cell => ⟨cell, now cell, diffOf (now cell) (last cell)⟩)

/-- One more queue. -/
theorem Scanned.snoc {verbose : Bool} {cells : List Cell} {scan : Scan} {cell : Cell}
    (h : Scanned verbose last now cells scan) (hnew : cell ∉ cells) :
    Scanned verbose last now (cells ++ [cell]) (printQueue verbose now scan cell) := by
  have hprev : scan.prev cell = last cell := by
    rw [h.prev, if_neg hnew]
  have hmem : ∀ cell', cell' ≠ cell → (cell' ∈ cells ++ [cell] ↔ cell' ∈ cells) := by
    intro cell' hne
    simp [hne]
  unfold printQueue
  rw [hprev]
  dsimp only
  split
  · rename_i hidle
    have hskip : (cells ++ [cell]).filter (moved last now) = cells.filter (moved last now) := by
      simp [List.filter_append, moved, hidle]
    refine ⟨fun cell' => ?_, ?_, ?_⟩
    · by_cases hc : cell' = cell
      · subst hc
        rw [hprev, if_pos (List.mem_append_right _ List.mem_cons_self),
          (isIdle_diffOf _ _).mp hidle]
      · rw [h.prev, if_congr (hmem cell' hc) rfl rfl]
    · rw [hskip]
      exact h.total
    · rw [hskip]
      exact h.lines
  · rename_i hactive
    have hadd : (cells ++ [cell]).filter (moved last now) =
        cells.filter (moved last now) ++ [cell] := by
      simp [List.filter_append, moved, hactive]
    refine ⟨fun cell' => ?_, fun k => ?_, fun hv => ?_⟩
    · by_cases hc : cell' = cell
      · subst hc
        rw [if_pos (List.mem_append_right _ List.mem_cons_self)]
        exact Function.update_self ..
      · rw [if_congr (hmem cell' hc) rfl rfl, ← h.prev]
        exact Function.update_of_ne hc ..
    · rw [UInt64.toNat_add, h.total, hadd, sumOver, sumOver, List.map_append, List.sum_append,
        Nat.mod_add_mod]
      simp
    · rw [hadd, List.map_append, if_pos hv, h.lines hv]
      rfl

/-- **A call of `print_stats`.** -/
theorem printStats_spec (c : StatsCfg) (s : StatsState) (now : Counters) :
    ∃ scan, Scanned c.verbose s.prev now c.cells scan ∧
      printStats c s now = (⟨scan.prev, scan.total⟩,
        ⟨scan.lines, scan.active, scan.total, diffOf scan.total s.totalPrev⟩) := by
  refine ⟨_, ?_, rfl⟩
  have hscan : ∀ cells : List Cell, cells.Nodup → Scanned c.verbose s.prev now cells
      (cells.foldl (printQueue c.verbose now) ⟨[], 0, fun _ => 0, s.prev⟩) := by
    intro cells
    induction cells using List.reverseRecOn with
    | nil =>
      intro _
      exact ⟨by simp, fun _ => rfl, fun _ => rfl⟩
    | append_singleton cells cell ih =>
      intro hnd
      rw [List.nodup_append] at hnd
      rw [List.foldl_append, List.foldl_cons, List.foldl_nil]
      refine (ih hnd.1).snoc (fun hmem => ?_)
      exact hnd.2.2 cell hmem cell List.mem_cons_self rfl
  exact hscan c.cells c.cells_nodup

end Call

/-! ## Exactness -/

/-- A property of all calls of a run, in terms of the counters at the calls before. -/
def EachCall (P : List Counters → Counters → Prop) (run : List Counters) : Prop :=
  ∀ before now after, run = before ++ now :: after → P before now

/-- The counters at the last call, zero before the first one. -/
def lastCall (before : List Counters) : Counters := before.getLastD (fun _ _ => 0)

/-- Between the calls the counters do not decrease. -/
def Nondecreasing (run : List Counters) : Prop :=
  EachCall (fun before now => ∀ cell k, lastCall before cell k ≤ now cell k) run

/-- A call prints the sums over all queues and the packets added since the last call, and the
    differences it prints for the queues add up. -/
structure ExactCall (c : StatsCfg) (last now : Counters) (p : Printed) : Prop where
  total : ∀ k, (p.total k).toNat = sumOver c.cells now k
  diff : ∀ k, (p.diff k).toNat =
    (c.cells.map (fun cell => (now cell k).toNat - (last cell k).toNat)).sum
  lines : c.verbose = true → ∀ k,
    (p.lines.map (fun line => (line.diff k).toNat)).sum = (p.diff k).toNat

/-- So does every call of a run. -/
def Exact (c : StatsCfg) (run : List Counters) : Prop :=
  EachCall (fun before now =>
    ExactCall c (lastCall before) now ((calls c).step ((calls c).final .init before) now).2) run

/-- The queues that have not changed have counted nothing yet, and the sums fit into 64 bits. -/
structure CountedCall (c : StatsCfg) (last now : Counters) : Prop where
  idle : ∀ cell ∈ c.cells, now cell = last cell → ∀ k, now cell k = 0
  fits : ∀ k, sumOver c.cells now k < 2 ^ 64

def Counted (c : StatsCfg) (run : List Counters) : Prop :=
  EachCall (fun before now => CountedCall c (lastCall before) now) run

theorem eachCall_snoc {P : List Counters → Counters → Prop} {run : List Counters}
    {now : Counters} : EachCall P (run ++ [now]) ↔ EachCall P run ∧ P run now := by
  constructor
  · intro h
    refine ⟨fun before x after hsplit => ?_, h run now [] rfl⟩
    apply h before x (after ++ [now])
    rw [hsplit]
    simp
  · rintro ⟨h, hlast⟩ before x after hsplit
    rcases List.eq_nil_or_concat after with rfl | ⟨after, y, rfl⟩
    · obtain ⟨rfl, hx⟩ := List.append_inj' hsplit rfl
      obtain rfl := (List.cons.inj hx).1
      exact hlast
    · rw [List.concat_eq_append, ← List.cons_append, ← List.append_assoc] at hsplit
      exact h before x after (List.append_inj' hsplit rfl).1

@[simp] theorem lastCall_snoc (before : List Counters) (now : Counters) :
    lastCall (before ++ [now]) = now := by
  simp [lastCall]

/-- What the static variables hold for the queues after a call. -/
def PrevIs (c : StatsCfg) (last : Counters) (s : StatsState) : Prop :=
  ∀ cell ∈ c.cells, s.prev cell = last cell

section Calls

variable {c : StatsCfg} {s : StatsState} {last now : Counters}

theorem moved_congr (h : PrevIs c last s) :
    c.cells.filter (moved s.prev now) = c.cells.filter (moved last now) := by
  apply List.filter_congr
  intro cell hcell
  rw [moved, moved, h cell hcell]

theorem prevIs_call (c : StatsCfg) (s : StatsState) (now : Counters) :
    PrevIs c now (printStats c s now).1 := by
  obtain ⟨scan, hscan, hcall⟩ := printStats_spec c s now
  intro cell hcell
  rw [hcall]
  exact (hscan.prev cell).trans (if_pos hcell)

theorem total_call (h : PrevIs c last s) (k : Counter) :
    ((printStats c s now).2.total k).toNat =
      sumOver (c.cells.filter (moved last now)) now k % 2 ^ 64 := by
  obtain ⟨scan, hscan, hcall⟩ := printStats_spec c s now
  rw [hcall, ← moved_congr h]
  exact hscan.total k

/-- **Totals** are exact just in case nothing is left out. -/
theorem total_exact_iff (h : PrevIs c last s) :
    (∀ k, ((printStats c s now).2.total k).toNat = sumOver c.cells now k) ↔
      CountedCall c last now := by
  have hle : ∀ k, sumOver (c.cells.filter (moved last now)) now k ≤ sumOver c.cells now k :=
    fun k => sum_filter_le _ _ _
  constructor
  · intro htotal
    have hfits : ∀ k, sumOver c.cells now k < 2 ^ 64 := by
      intro k
      rw [← htotal k]
      exact UInt64.toNat_lt _
    refine ⟨fun cell hcell hsame k => ?_, hfits⟩
    have hall := htotal k
    rw [total_call h, Nat.mod_eq_of_lt (Nat.lt_of_le_of_lt (hle k) (hfits k))] at hall
    have hzero := sum_filter_eq_iff.mp hall cell hcell (moved_eq_false.mpr hsame)
    exact UInt64.toNat_inj.mp hzero
  · intro hcounted k
    rw [total_call h, Nat.mod_eq_of_lt (Nat.lt_of_le_of_lt (hle k) (hcounted.fits k))]
    apply sum_filter_eq_iff.mpr
    intro cell hcell hidle
    rw [hcounted.idle cell hcell (moved_eq_false.mp hidle) k]
    rfl

theorem diffOf_toNat {a b : PortStatistics} {k : Counter} (h : (b k).toNat ≤ (a k).toNat) :
    (diffOf a b k).toNat = (a k).toNat - (b k).toNat :=
  UInt64.toNat_sub_of_le _ _ (UInt64.le_iff_toNat_le.mpr h)

/-- **A call is exact** if this one and the one before left nothing out. -/
theorem exact_call (h : PrevIs c last s) (hle : ∀ cell k, last cell k ≤ now cell k)
    (hprev : ∀ k, (s.totalPrev k).toNat = sumOver c.cells last k)
    (hcounted : CountedCall c last now) : ExactCall c last now (printStats c s now).2 := by
  have htotal := (total_exact_iff h).mpr hcounted
  have hsum : ∀ k, sumOver c.cells last k ≤ sumOver c.cells now k :=
    fun k => List.sum_le_sum (fun cell _ => UInt64.le_iff_toNat_le.mp (hle cell k))
  have hdiff : ∀ k, ((printStats c s now).2.diff k).toNat =
      (c.cells.map (fun cell => (now cell k).toNat - (last cell k).toNat)).sum := by
    intro k
    rw [sum_sub (fun cell _ => UInt64.le_iff_toNat_le.mp (hle cell k))]
    have hpk := hprev k
    have htk := htotal k
    refine (diffOf_toNat ?_).trans ?_
    · rw [hpk]
      exact Nat.le_trans (hsum k) (Nat.le_of_eq htk.symm)
    · rw [hpk]
      exact congrArg (· - _) htk
  refine ⟨htotal, hdiff, fun hv k => ?_⟩
  obtain ⟨scan, hscan, hcall⟩ := printStats_spec c s now
  rw [hdiff k, hcall]
  show (scan.lines.map _).sum = _
  rw [hscan.lines hv, moved_congr h, List.map_map]
  have hline : ∀ cell ∈ c.cells.filter (moved last now),
      ((fun line : QueueLine => (line.diff k).toNat) ∘
        fun cell => ⟨cell, now cell, diffOf (now cell) (s.prev cell)⟩) cell =
      (now cell k).toNat - (last cell k).toNat := by
    intro cell hcell
    show (diffOf (now cell) (s.prev cell) k).toNat = _
    rw [h cell (List.mem_of_mem_filter hcell)]
    exact diffOf_toNat (UInt64.le_iff_toNat_le.mp (hle cell k))
  rw [List.map_congr_left hline]
  -- a queue that has not changed adds nothing
  apply sum_filter_eq_iff.mpr
  intro cell _ hidle
  rw [moved_eq_false.mp hidle]
  exact Nat.sub_self _

/-- What is kept after a run are the counters of the last call. -/
theorem prevIs_run (c : StatsCfg) (run : List Counters) :
    PrevIs c (lastCall run) ((calls c).final .init run) := by
  induction run using List.reverseRecOn with
  | nil => exact fun cell _ => rfl
  | append_singleton run now _ =>
    rw [Machine.final_snoc, lastCall_snoc]
    exact prevIs_call c _ now

/-- As long as nothing is left out, so are the totals. -/
theorem totalPrev_run {run : List Counters} (hcounted : Counted c run) (k : Counter) :
    (((calls c).final .init run).totalPrev k).toNat = sumOver c.cells (lastCall run) k := by
  induction run using List.reverseRecOn with
  | nil =>
    have hzero : sumOver c.cells (lastCall []) k = 0 := by
      unfold sumOver
      rw [List.sum_eq_zero_iff]
      intro n hn
      obtain ⟨cell, -, rfl⟩ := List.mem_map.mp hn
      rfl
    rw [hzero]
    rfl
  | append_singleton run now _ =>
    rw [Counted, eachCall_snoc] at hcounted
    rw [Machine.final_snoc, lastCall_snoc]
    exact (total_exact_iff (prevIs_run c run)).mpr hcounted.2 k

end Calls

/-- **The statistics of a run** are exact just in case, at every call, the queues that have not
    changed since the last one have counted nothing yet, and the sums fit into 64 bits. -/
theorem stats_exact_iff (c : StatsCfg) {run : List Counters} (hrun : Nondecreasing run) :
    Exact c run ↔ Counted c run := by
  induction run using List.reverseRecOn with
  | nil =>
    have hnone : ∀ P, EachCall P ([] : List Counters) := by
      intro P before now after hsplit
      simp at hsplit
    exact iff_of_true (hnone _) (hnone _)
  | append_singleton run now ih =>
    rw [Nondecreasing, eachCall_snoc] at hrun
    have hiff := ih hrun.1
    have hprev := prevIs_run c run
    rw [Exact, Counted, eachCall_snoc, eachCall_snoc]
    constructor
    · rintro ⟨hexact, hcall⟩
      exact ⟨hiff.mp hexact, (total_exact_iff hprev).mp hcall.total⟩
    · rintro ⟨hcounted, hcall⟩
      exact ⟨hiff.mpr hcounted, exact_call hprev hrun.2 (totalPrev_run hcounted) hcall⟩

/-- Packets received on the queues of port 0. -/
def received (counts : List UInt64) : Counters := fun cell k =>
  if cell.1 = 0 ∧ k = .rx then counts.getD cell.2 0 else 0

theorem received_le {counts counts' : List UInt64}
    (h : ∀ i, counts.getD i 0 ≤ counts'.getD i 0) (cell : Cell) (k : Counter) :
    received counts cell k ≤ received counts' cell k := by
  unfold received
  split
  · exact h cell.2
  · exact UInt64.le_refl 0

/-- Two queues, two calls. -/
theorem nondecreasing_two {a b a' b' : UInt64} (ha : a ≤ a') (hb : b ≤ b') :
    Nondecreasing ([] ++ [received [a, b]] ++ [received [a', b']]) := by
  rw [Nondecreasing, eachCall_snoc, eachCall_snoc]
  refine ⟨⟨?_, fun cell k => UInt64.zero_le⟩, ?_⟩
  · intro before now after hsplit
    simp at hsplit
  · rw [lastCall_snoc]
    apply received_le
    rintro (_ | _ | i)
    · exact ha
    · exact hb
    · exact UInt64.le_refl 0

/-- Both queues are active before a call. -/
theorem counted_two {counts : List UInt64} {last : Counters}
    (hactive : ∀ cell ∈ [(0, 0), (0, 1)], received counts cell .rx ≠ last cell .rx)
    (hfits : sumOver [(0, 0), (0, 1)] (received counts) .rx < 2 ^ 64) :
    CountedCall ⟨.nfChain 1, 2, true⟩ last (received counts) := by
  have hcells : StatsCfg.cells ⟨.nfChain 1, 2, true⟩ = [(0, 0), (0, 1)] := by decide +kernel
  constructor
  · intro cell hcell hsame
    rw [hcells] at hcell
    exact absurd (congrFun hsame .rx) (hactive cell hcell)
  · rw [hcells]
    intro k
    cases k with
    | tx => exact Nat.two_pow_pos 64
    | rx => exact hfits
    | dropped => exact Nat.two_pow_pos 64

theorem stats_exact_active :
    Exact ⟨.nfChain 1, 2, true⟩ ([] ++ [received [5, 3]] ++ [received [7, 4]]) := by
  apply (stats_exact_iff ⟨.nfChain 1, 2, true⟩ (nondecreasing_two (by decide) (by decide))).mpr
  rw [Counted, eachCall_snoc, eachCall_snoc]
  refine ⟨⟨?_, counted_two (by decide +kernel) (by decide +kernel)⟩,
    counted_two (by decide +kernel) (by decide +kernel)⟩
  intro before now after hsplit
  simp at hsplit

/-- A queue that rests between the calls is missing from the second total. -/
theorem stats_idle_queue :
    Nondecreasing ([] ++ [received [5, 3]] ++ [received [5, 4]]) ∧
      ¬Exact ⟨.nfChain 1, 2, true⟩ ([] ++ [received [5, 3]] ++ [received [5, 4]]) := by
  refine ⟨nondecreasing_two (by decide) (by decide), fun h => ?_⟩
  have htotal := (h [received [5, 3]] (received [5, 4]) [] rfl).total .rx
  revert htotal
  decide +kernel

end QueueDpdk.Stats
