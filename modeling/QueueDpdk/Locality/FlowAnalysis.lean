import Mathlib.Data.Int.Order.Basic
import QueueDpdk.Lib.DefaultDict
import QueueDpdk.Locality.Bursts

/-!
# Statistics per queue (`flow_analysis` in `locality/locality-bench.py` and
`locality/analysis/locality.py`)

Both scripts compute means and deviations by the same expressions over floating-point numbers; here
these are the parameters `mean` and `std`. They differ in the order of the queues.

* `flowAnalysis_spec` — the statistics of a queue are those of its bursts.
* `flowAnalysis_perm` — the two scripts write the same statistics, in different orders;
  `flowAnalysis_sorted` that of `locality-bench.py`.
-/

set_option autoImplicit false

namespace QueueDpdk.Locality

open Lib

/-- The statistics of a queue. -/
structure QueueStats (F : Type) where
  coda : ℤ
  flussiMedia : F
  flussiStd : F
  pacchettiConsecMedia : F
  pacchettiConsecStd : F

/-- What is written for each queue, and the numbers over all queues. -/
structure FlowStats (F : Type) where
  queueStats : List (QueueStats F)
  flowsMean : F
  flowsStd : F
  consecMean : F
  consecStd : F

/-- The flows and the longest run of each burst, by queue. -/
def burstsPerQueue (bursts : List Burst) : List (ℤ × List (ℕ × ℕ)) :=
  collect Burst.coda (fun b => (b.flussi, b.pacchettiConsecutivi)) bursts

section Stats

variable {F : Type} (mean std : List ℕ → F)

def queueStats (queue : ℤ) (data : List (ℕ × ℕ)) : QueueStats F :=
  { coda := queue
    flussiMedia := mean (data.map Prod.fst)
    flussiStd := std (data.map Prod.fst)
    pacchettiConsecMedia := mean (data.map Prod.snd)
    pacchettiConsecStd := std (data.map Prod.snd) }

/-- The loop over the queues. -/
def flowStats (items : List (ℤ × List (ℕ × ℕ))) : FlowStats F :=
  let allFlows := items.flatMap (fun item => item.2.map Prod.fst)
  let allConsec := items.flatMap (fun item => item.2.map Prod.snd)
  { queueStats := items.map (fun item => queueStats mean std item.1 item.2)
    flowsMean := mean allFlows
    flowsStd := std allFlows
    consecMean := mean allConsec
    consecStd := std allConsec }

/-- `flow_analysis` of `locality-bench.py`. No queue is there twice, so that sorting the items sorts
    the queues. -/
def Bench.flowAnalysis (bursts : List Burst) : FlowStats F :=
  flowStats mean std ((burstsPerQueue bursts).mergeSort (fun a b => decide (a.1 ≤ b.1)))

/-- `flow_analysis` of `analysis/locality.py`. -/
def Analysis.flowAnalysis (bursts : List Burst) : FlowStats F :=
  flowStats mean std (burstsPerQueue bursts)

/-- Sorting does not change the statistics. -/
theorem flowAnalysis_perm (bursts : List Burst) :
    (Bench.flowAnalysis mean std bursts).queueStats.Perm
      (Analysis.flowAnalysis mean std bursts).queueStats :=
  (List.mergeSort_perm _ _).map _

/-- What the statistics depend on. -/
def Burst.sample (b : Burst) : ℤ × ℕ × ℕ := (b.coda, b.flussi, b.pacchettiConsecutivi)

section Samples

variable {α : Type} {xs : List α} {f : α → ℤ × ℕ × ℕ} {bursts bursts' : List Burst}

/-- The dictionary of bursts that come from other items. -/
theorem burstsPerQueue_map (h : bursts.map Burst.sample = xs.map f) :
    burstsPerQueue bursts = collect (fun x => (f x).1) (fun x => (f x).2) xs := by
  have hsample : burstsPerQueue bursts = collect Prod.fst Prod.snd (bursts.map Burst.sample) := by
    simp [burstsPerQueue, collect, List.foldl_map, Burst.sample]
  rw [hsample, h]
  simp [collect, List.foldl_map]

theorem burstsPerQueue_congr (h : bursts.map Burst.sample = bursts'.map Burst.sample) :
    burstsPerQueue bursts = burstsPerQueue bursts' := burstsPerQueue_map h

/-- **The statistics of a queue** are those of its bursts. -/
theorem flowAnalysis_spec (h : bursts.map Burst.sample = xs.map f) (q : QueueStats F) :
    q ∈ (Analysis.flowAnalysis mean std bursts).queueStats ↔
      ∃ x ∈ xs, q = queueStats mean std (f x).1
        ((xs.filter fun y => (f y).1 = (f x).1).map fun y => (f y).2) := by
  obtain ⟨queues, -, hmem, heq⟩ := collect_eq (fun x => (f x).1) (fun x => (f x).2) xs
  simp only [Analysis.flowAnalysis, flowStats, burstsPerQueue_map h, heq, List.map_map,
    List.mem_map, Function.comp]
  constructor
  · rintro ⟨queue, hqueue, rfl⟩
    obtain ⟨x, hx, rfl⟩ := (hmem queue).mp hqueue
    exact ⟨x, hx, rfl⟩
  · rintro ⟨x, hx, rfl⟩
    exact ⟨(f x).1, (hmem _).mpr ⟨x, hx, rfl⟩, rfl⟩

/-- No queue has its statistics twice. -/
theorem nodup_burstsPerQueue (bursts : List Burst) :
    ((burstsPerQueue bursts).map Prod.fst).Nodup := by
  obtain ⟨queues, hnodup, -, heq⟩ := collect_eq Burst.coda
    (fun b => (b.flussi, b.pacchettiConsecutivi)) bursts
  rw [burstsPerQueue, heq, List.map_map]
  exact (List.map_id queues).symm ▸ hnodup

/-- `locality-bench.py` writes the queues in ascending order. -/
theorem flowAnalysis_sorted (bursts : List Burst) :
    ((Bench.flowAnalysis mean std bursts).queueStats.map QueueStats.coda).Pairwise (· < ·) := by
  have htrans : ∀ a b c : ℤ × List (ℕ × ℕ), decide (a.1 ≤ b.1) = true →
      decide (b.1 ≤ c.1) = true → decide (a.1 ≤ c.1) = true := fun a b c hab hbc =>
    decide_eq_true (Int.le_trans (of_decide_eq_true hab) (of_decide_eq_true hbc))
  have htotal : ∀ a b : ℤ × List (ℕ × ℕ),
      (decide (a.1 ≤ b.1) || decide (b.1 ≤ a.1)) = true := fun a b => by
    simpa using Int.le_total a.1 b.1
  have hsorted := List.pairwise_mergeSort htrans htotal (burstsPerQueue bursts)
  have hnodup : ((burstsPerQueue bursts).mergeSort (fun a b => decide (a.1 ≤ b.1))).Pairwise
      fun a b => a.1 ≠ b.1 :=
    List.pairwise_map.mp ((((List.mergeSort_perm _ _).map Prod.fst).nodup_iff).mpr
      (nodup_burstsPerQueue bursts))
  simp only [Bench.flowAnalysis, flowStats, List.pairwise_map]
  exact hsorted.imp₂ (fun a b hle hne => lt_of_le_of_ne (of_decide_eq_true hle) hne) hnodup

end Samples

end Stats

end QueueDpdk.Locality
