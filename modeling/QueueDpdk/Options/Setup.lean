import Mathlib.Data.Nat.Bitwise
import QueueDpdk.Lib.Bytes
import QueueDpdk.Options.Args
import QueueDpdk.PollLoop.Indices
import QueueDpdk.PollLoop.Partition

/-!
# nf-chain: from the command line to the polled queues

`main` parses the options, checks them with `qflow_check` and `check_lcore_params`, fills the
receive queues of the lcores from `--config` and checks the ports.  `poll_loop` polls as many queues
as `-q` says.

* `launch` — the start of `main`; `Launch` is what it leaves to the loops.
* `initLcoreRxQueues_spec` — an lcore gets the entries of `--config` that name it, in order.
* `poll_indices` — when every poll of every lcore has an entry and is within the arrays.
-/

set_option autoImplicit false

namespace QueueDpdk.Options

open Lib PollLoop

def MAX_RX_QUEUE_PER_PORT : ℕ := 2048
def RTE_MAX_LCORE : ℕ := 128

/-- What the EAL has set up, the lcores in the order of `RTE_LCORE_FOREACH` and the ports, beside
    its functions for options. -/
structure Eal extends OptionLib where
  lcores : List UInt32
  validPort : UInt16 → Bool
  nodup : lcores.Nodup
  pos : 1 ≤ lcores.length
  le : lcores.length ≤ RTE_MAX_LCORE

/-- `rte_lcore_count()`. -/
def Eal.lcoreCount (e : Eal) : UInt32 := UInt32.ofNat e.lcores.length

/-- `check_lcore_params`. -/
def checkLcoreParams (e : Eal) : List LcoreParams → Int
  | [] => 0
  | p :: ps =>
    if MAX_RX_QUEUE_PER_PORT ≤ p.queueId.toNat then -1
    else if p.lcoreId.toUInt32 ∉ e.lcores then -1
    else checkLcoreParams e ps

/-- `enabled_port_mask & (1 << portid)`. -/
def portEnabled (mask : UInt32) (portId : UInt16) : Prop := mask &&& (1 <<< portId.toUInt32) ≠ 0

instance (mask : UInt32) (portId : UInt16) : Decidable (portEnabled mask portId) :=
  inferInstanceAs (Decidable (_ ≠ _))

/-- `check_port_config`. -/
def checkPortConfig (e : Eal) (mask : UInt32) : List LcoreParams → Int
  | [] => 0
  | p :: ps =>
    if ¬portEnabled mask p.portId then -1
    else if e.validPort p.portId = false then -1
    else checkPortConfig e mask ps

/-- `struct lcore_rx_queue`. -/
structure LcoreRxQueue where
  portId : UInt16
  queueId : UInt8
  deriving DecidableEq, Repr

/-- The part of `struct lcore_conf` that is read before the loops; memory beyond the entries that
    were filled in is zero. -/
structure LcoreConf where
  nRxQueue : UInt16
  rxQueueList : Int → LcoreRxQueue

def LcoreConf.zero : LcoreConf := ⟨0, fun _ => ⟨0, 0⟩⟩

/-- The body of `init_lcore_rx_queues`. -/
def addRxQueue (conf : UInt32 → LcoreConf) (p : LcoreParams) : Option (UInt32 → LcoreConf) :=
  let lcore := p.lcoreId.toUInt32
  let nbRxQueue := (conf lcore).nRxQueue
  if MAX_RX_QUEUE_PER_LCORE ≤ nbRxQueue.toNat then none
  else some (Function.update conf lcore
    ⟨nbRxQueue + 1, Function.update (conf lcore).rxQueueList nbRxQueue.toNat
      ⟨p.portId, p.queueId⟩⟩)

/-- `init_lcore_rx_queues`. -/
def initLcoreRxQueues (params : List LcoreParams) : Option (UInt32 → LcoreConf) :=
  params.foldlM addRxQueue (fun _ => LcoreConf.zero)

/-- What `main` leaves to the loops. -/
structure Launch where
  args : NfArgs
  conf : UInt32 → LcoreConf

/-- `main` up to `check_port_config`; `none` if it exits. -/
def launch (e : Eal) (opts : List Opt) : Option Launch := do
  let args ← parseArgs e.toOptionLib NfArgs.init opts
  if qflowCheck args.qflow args.queues.toUInt32 e.lcoreCount < 0 then none
  else if checkLcoreParams e args.lcoreParams < 0 then none
  else
    let conf ← initLcoreRxQueues args.lcoreParams
    if checkPortConfig e args.enabledPortMask args.lcoreParams < 0 then none
    else some ⟨args, conf⟩

/-- `rx_portid` of the modes with several lcores: the port of the first entry, or the first enabled
    port. -/
def rxPortid (mask : UInt32) (conf : LcoreConf) : Option UInt16 :=
  if 0 < conf.nRxQueue ∧ (conf.rxQueueList 0).portId.toNat < RTE_MAX_ETHPORTS then
    some (conf.rxQueueList 0).portId
  else ((List.range RTE_MAX_ETHPORTS).map UInt16.ofNat).find? (fun p => portEnabled mask p)

/-- `portid` of a poll at index `i`; `none` if `poll_loop` returns before its loop. -/
def Launch.portid (r : Launch) (l : UInt32) (i : Int) : Option UInt16 :=
  if r.args.qflow.mode = .single then some ((r.conf l).rxQueueList i).portId
  else rxPortid r.args.enabledPortMask (r.conf l)

/-! ## The receive queues of a lcore -/

/-- The entries of `--config` for a lcore. -/
def entriesFor (l : UInt32) (params : List LcoreParams) : List LcoreParams :=
  params.filter (fun p => p.lcoreId.toUInt32 = l)

/-- The entries have been filled in, in order. -/
structure Filled (entries : List LcoreParams) (conf : LcoreConf) : Prop where
  fits : (entries.length : Int) ≤ MAX_RX_QUEUE_PER_LCORE
  count : conf.nRxQueue.toNat = entries.length
  listed : ∀ (j : ℕ) (p : LcoreParams), entries[j]? = some p → conf.rxQueueList j = ⟨p.portId, p.queueId⟩

theorem Filled.zero : Filled [] LcoreConf.zero := ⟨by decide, rfl, by simp⟩

theorem entriesFor_snoc_self (params : List LcoreParams) (p : LcoreParams) :
    entriesFor p.lcoreId.toUInt32 (params ++ [p]) =
      entriesFor p.lcoreId.toUInt32 params ++ [p] := by
  simp [entriesFor]

theorem entriesFor_snoc_of_ne {l : UInt32} {p : LcoreParams} (h : l ≠ p.lcoreId.toUInt32)
    (params : List LcoreParams) : entriesFor l (params ++ [p]) = entriesFor l params := by
  simp [entriesFor, h.symm]

/-- One more entry. -/
theorem Filled.snoc {entries : List LcoreParams} {conf : LcoreConf} (h : Filled entries conf)
    (p : LcoreParams) (hfits : ¬MAX_RX_QUEUE_PER_LCORE ≤ conf.nRxQueue.toNat) :
    Filled (entries ++ [p]) ⟨conf.nRxQueue + 1,
      Function.update conf.rxQueueList conf.nRxQueue.toNat ⟨p.portId, p.queueId⟩⟩ := by
  have hlt : conf.nRxQueue.toNat < 2048 := Int.ofNat_lt.mp (Int.not_le.mp hfits)
  refine ⟨?_, ?_, fun j p' hj => ?_⟩
  · rw [List.length_append, List.length_singleton, ← h.count]
    exact Int.ofNat_le.mpr hlt
  · rw [UInt16.toNat_add, Nat.mod_eq_of_lt (by simp; omega), List.length_append, ← h.count]
    rfl
  · by_cases hlast : j = entries.length
    · rw [hlast, List.getElem?_concat_length] at hj
      obtain rfl := Option.some.inj hj
      simp [hlast, h.count]
    · have hlt' : j < (entries ++ [p]).length := (List.getElem?_eq_some_iff.mp hj).1
      rw [List.length_append, List.length_singleton] at hlt'
      have hold : j < entries.length := by omega
      rw [List.getElem?_append_left hold] at hj
      have hne : (j : Int) ≠ conf.nRxQueue.toNat := by
        rw [h.count]
        omega
      exact (Function.update_of_ne hne _ _).trans (h.listed j p' hj)

/-- **`init_lcore_rx_queues` gives every lcore its entries.** -/
theorem initLcoreRxQueues_spec {params : List LcoreParams} {conf : UInt32 → LcoreConf}
    (h : initLcoreRxQueues params = some conf) (l : UInt32) :
    Filled (entriesFor l params) (conf l) := by
  refine foldlM_inv (I := fun ps (conf : UInt32 → LcoreConf) => ∀ l,
    Filled (entriesFor l ps) (conf l)) (fun _ => Filled.zero) ?_ params conf h l
  intro ps p conf conf' ih hp l
  unfold addRxQueue at hp
  dsimp only at hp
  split at hp
  · cases hp
  · rename_i hfits
    obtain rfl := Option.some.inj hp
    by_cases hl : l = p.lcoreId.toUInt32
    · rw [hl, Function.update_self, entriesFor_snoc_self]
      exact (ih _).snoc p hfits
    · rw [Function.update_of_ne hl, entriesFor_snoc_of_ne hl]
      exact ih l

/-! ## The ports -/

theorem checkPortConfig_spec {e : Eal} {mask : UInt32} {params : List LcoreParams}
    (h : 0 ≤ checkPortConfig e mask params) : ∀ p ∈ params, portEnabled mask p.portId := by
  induction params with
  | nil => exact fun _ hp => absurd hp (List.not_mem_nil)
  | cons p ps ih =>
    unfold checkPortConfig at h
    split at h
    · exact absurd h (by decide)
    · rename_i hport
      split at h
      · exact absurd h (by decide)
      · intro p' hp'
        rcases List.mem_cons.mp hp' with rfl | hp'
        · exact not_not.mp hport
        · exact ih h p' hp'

/-- The mask holds a bit for each port. -/
theorem portEnabled_iff (mask : UInt32) (portId : UInt16) :
    portEnabled mask portId ↔ mask.toNat.testBit (portId.toNat % 32) = true := by
  unfold portEnabled
  rw [mask_bit_iff, UInt16.toNat_toUInt32]

theorem not_portEnabled_zero (portId : UInt16) : ¬portEnabled 0 portId := by
  rw [portEnabled_iff]
  simp

/-- A mask that is not empty enables a port. -/
theorem exists_portEnabled {mask : UInt32} (h : mask ≠ 0) :
    ∃ k < RTE_MAX_ETHPORTS, portEnabled mask (UInt16.ofNat k) := by
  have hne : mask.toNat ≠ 0 := fun h0 => h (UInt32.toNat_inj.mp h0)
  obtain ⟨k, hk⟩ := Nat.exists_testBit_of_ne_zero hne
  have hlt : k < 32 := by
    by_contra hge
    have hbig := Nat.ge_two_pow_of_testBit hk
    have hle : 2 ^ 32 ≤ 2 ^ k := Nat.pow_le_pow_right (by decide) (Nat.not_lt.mp hge)
    exact absurd mask.toNat_lt (Nat.not_lt.mpr (Nat.le_trans hle hbig))
  refine ⟨k, hlt, (portEnabled_iff _ _).mpr ?_⟩
  rw [UInt16.toNat_ofNat_of_lt' (Nat.lt_trans hlt (by decide)), Nat.mod_eq_of_lt hlt]
  exact hk

/-! ## The slices -/

namespace Eal

variable (e : Eal)

theorem lcoreCount_toNat : e.lcoreCount.toNat = e.lcores.length :=
  UInt32.toNat_ofNat_of_lt' (Nat.lt_of_le_of_lt e.le (by decide))

/-- Every slice starts at a queue. -/
theorem queueStart_nonneg (mode : QflowMode) (queues : UInt16) {l : UInt32} (hl : l ∈ e.lcores) :
    0 ≤ queueStart mode queues (lcorePos e.lcores l) e.lcoreCount := by
  unfold queueStart
  split
  · obtain ⟨k, hk, rfl⟩ := List.getElem_of_mem hl
    have hpos : lcorePos e.lcores e.lcores[k] = UInt32.ofNat k := by
      unfold lcorePos
      rw [PartitionedSetup.lcorePosFrom_getElem e.nodup k hk, UInt32.zero_add]
    rw [hpos, toSigned_of_nonneg (Int.natCast_nonneg _)]
    · exact Int.natCast_nonneg _
    · -- the quotient is small: a single lcore is at position 0
      have hlt := (queues.toUInt32 * UInt32.ofNat k).toNat_lt
      rw [UInt32.toNat_div, lcoreCount_toNat]
      by_cases hone : e.lcores.length = 1
      · have hk0 : k = 0 := by omega
        simp [hk0]
      · have hpos := e.pos
        have htwo : 2 ≤ e.lcores.length := by omega
        have hdiv : (queues.toUInt32 * UInt32.ofNat k).toNat / e.lcores.length ≤
            (queues.toUInt32 * UInt32.ofNat k).toNat / 2 := Nat.div_le_div_left htwo (by decide)
        omega
  · exact Int.le_refl 0

end Eal

namespace Launch

variable (r : Launch) (e : Eal)

/-- What `poll_loop` of a lcore reads before its loop. -/
def loopCfg {l : UInt32} (hl : l ∈ e.lcores) : LoopCfg :=
  .ofOpts r.args.qflow
    (queueStart r.args.qflow.mode r.args.queues (lcorePos e.lcores l) e.lcoreCount)
    (queueEnd r.args.qflow.mode r.args.queues (lcorePos e.lcores l) e.lcoreCount)
    (e.queueStart_nonneg _ _ hl) (fun h => if_neg h)

/-- A poll of queue `q` on a port is in order: the arrays over the queues have an entry for it, in
    Single mode `--config` gave the lcore that entry, and the port is enabled. -/
structure PollOk (l : UInt32) (q : Int) (port : UInt16) : Prop where
  range : 0 ≤ q ∧ q < MAX_RX_QUEUE_PER_LCORE
  entry : r.args.qflow.mode = .single → q < (r.conf l).nRxQueue.toNat ∧
    ∃ p ∈ r.args.lcoreParams, p.lcoreId.toUInt32 = l ∧
      (r.conf l).rxQueueList q = ⟨p.portId, p.queueId⟩
  enabled : portEnabled r.args.enabledPortMask port

/-- Every poll of every lcore is. -/
def PollsOk : Prop :=
  ∀ (l : UInt32) (hl : l ∈ e.lcores) (q : Int) (port : UInt16),
    Polls (r.loopCfg e hl) q → r.portid l q = some port → r.PollOk l q port

/-- In Single mode there are as many entries as queues; in the others there are at most 2048
    queues, or no port at all. -/
def Served : Prop :=
  if r.args.qflow.mode = .single then
    ∀ l ∈ e.lcores, r.args.queues.toNat ≤ (entriesFor l r.args.lcoreParams).length
  else r.args.enabledPortMask = 0 ∨ (r.args.queues.toNat : Int) ≤ MAX_RX_QUEUE_PER_LCORE

end Launch

/-- What `main` has checked. -/
structure Launched (e : Eal) (r : Launch) : Prop where
  check : 0 ≤ qflowCheck r.args.qflow r.args.queues.toUInt32 e.lcoreCount
  filled : ∀ l, Filled (entriesFor l r.args.lcoreParams) (r.conf l)
  ports : ∀ p ∈ r.args.lcoreParams, portEnabled r.args.enabledPortMask p.portId

theorem launched {e : Eal} {opts : List Opt} {r : Launch} (h : launch e opts = some r) :
    Launched e r := by
  obtain ⟨args, -, h⟩ := Option.bind_eq_some_iff.mp h
  split at h
  · cases h
  · rename_i hcheck
    split at h
    · cases h
    · obtain ⟨conf, hconf, h⟩ := Option.bind_eq_some_iff.mp h
      split at h
      · cases h
      · rename_i hports
        obtain rfl := Option.some.inj h
        exact ⟨Int.not_lt.mp hcheck, initLcoreRxQueues_spec hconf,
          checkPortConfig_spec (Int.not_lt.mp hports)⟩

section Launched

variable {e : Eal} {r : Launch} {l : UInt32} {q : Int} {port : UInt16}

/-- The entries below `n_rx_queue` are those of `--config`. -/
theorem Launched.entry (h : Launched e r) (hq : 0 ≤ q)
    (hlt : q < (entriesFor l r.args.lcoreParams).length) :
    q < (r.conf l).nRxQueue.toNat ∧ ∃ p ∈ r.args.lcoreParams, p.lcoreId.toUInt32 = l ∧
      (r.conf l).rxQueueList q = ⟨p.portId, p.queueId⟩ := by
  obtain ⟨j, rfl⟩ := Int.eq_ofNat_of_zero_le hq
  have hj : j < (entriesFor l r.args.lcoreParams).length := Int.ofNat_lt.mp hlt
  obtain ⟨hmem, hlcore⟩ := List.mem_filter.mp (List.getElem_mem hj)
  rw [(h.filled l).count]
  exact ⟨hlt, _, hmem, of_decide_eq_true hlcore,
    (h.filled l).listed j _ (List.getElem?_eq_getElem hj)⟩

/-- The port of the modes with several lcores is enabled. -/
theorem Launched.rxPortid_enabled (h : Launched e r)
    (hport : rxPortid r.args.enabledPortMask (r.conf l) = some port) :
    portEnabled r.args.enabledPortMask port := by
  unfold rxPortid at hport
  split at hport
  · rename_i hfirst
    obtain rfl := Option.some.inj hport
    have hpos : (0 : Int) < (entriesFor l r.args.lcoreParams).length := by
      rw [← (h.filled l).count]
      exact Int.ofNat_lt.mpr (UInt16.lt_iff_toNat_lt.mp hfirst.1)
    obtain ⟨-, p, hp, -, hentry⟩ := h.entry (Int.le_refl 0) hpos
    rw [hentry]
    exact h.ports p hp
  · simpa using List.find?_some hport

/-- There is one unless the mask is empty. -/
theorem Launched.exists_rxPortid (hmask : r.args.enabledPortMask ≠ 0) (l : UInt32) :
    ∃ port, rxPortid r.args.enabledPortMask (r.conf l) = some port := by
  unfold rxPortid
  split
  · exact ⟨_, rfl⟩
  · apply Option.isSome_iff_exists.mp
    obtain ⟨k, hk, henabled⟩ := exists_portEnabled hmask
    rw [List.find?_isSome]
    exact ⟨UInt16.ofNat k, List.mem_map_of_mem (List.mem_range.mpr hk), decide_eq_true henabled⟩

theorem Launched.rxPortid_none (h : Launched e r) (hmask : r.args.enabledPortMask = 0)
    (l : UInt32) : rxPortid r.args.enabledPortMask (r.conf l) = none := by
  cases hport : rxPortid r.args.enabledPortMask (r.conf l) with
  | none => rfl
  | some port =>
    have henabled := h.rxPortid_enabled hport
    rw [hmask] at henabled
    exact absurd henabled (not_portEnabled_zero port)

/-- The slices of Partitioned mode. -/
def Launched.setup (h : Launched e r) (hm : r.args.qflow.mode = .partitioned) : PartitionedSetup :=
  .ofCheck r.args.qflow r.args.queues e.lcores hm e.nodup e.pos
    (Nat.lt_of_le_of_lt e.le (by decide)) h.check

/-- The end of a slice is within the queues. -/
theorem Launched.queueEnd_le (h : Launched e r) (hl : l ∈ e.lcores) :
    (r.loopCfg e hl).queueEnd ≤ r.args.queues.toNat := by
  by_cases hm : r.args.qflow.mode = .partitioned
  · obtain ⟨k, hk, rfl⟩ := List.getElem_of_mem hl
    have hend := (h.setup hm).queueEnd_getElem hk
    have hle := (h.setup hm).slices.bound_le_last (Nat.succ_le_of_lt hk)
    exact Int.le_trans (Int.le_of_eq hend) (Int.ofNat_le.mpr hle)
  · exact Int.le_of_eq (if_neg hm)

/-- Without Partitioned mode every lcore polls all queues. -/
theorem polls_unpartitioned (hm : r.args.qflow.mode ≠ .partitioned) (hl : l ∈ e.lcores) {x : ℕ}
    (hx : x < r.args.queues.toNat) : Polls (r.loopCfg e hl) x := by
  have hstart : (r.loopCfg e hl).queueStart = 0 := if_neg hm
  have hend : (r.loopCfg e hl).queueEnd = r.args.queues.toNat := if_neg hm
  refine exists_poll ?_ ?_
  · rw [hstart]
    exact Int.natCast_nonneg x
  · rw [hend]
    exact Int.ofNat_lt.mpr hx

/-- Every queue is polled by some lcore. -/
theorem Launched.exists_lcore (h : Launched e r) {x : ℕ} (hx : x < r.args.queues.toNat) :
    ∃ l, ∃ hl : l ∈ e.lcores, Polls (r.loopCfg e hl) x := by
  by_cases hm : r.args.qflow.mode = .partitioned
  · obtain ⟨l, ⟨hl, hstart, hend⟩, -⟩ := (h.setup hm).lcore_existsUnique hx
    exact ⟨l, hl, exists_poll hstart hend⟩
  · exact ⟨e.lcores.get ⟨0, e.pos⟩, List.get_mem _ _, polls_unpartitioned hm _ hx⟩

theorem polls_single (hm : r.args.qflow.mode = .single) (hl : l ∈ e.lcores) {x : ℕ}
    (hx : x < r.args.queues.toNat) : Polls (r.loopCfg e hl) x := by
  have hnot : r.args.qflow.mode ≠ .partitioned := by
    rw [hm]
    decide
  exact polls_unpartitioned hnot hl hx

end Launched

/-- **When the polls are in order.** -/
theorem poll_indices {e : Eal} {opts : List Opt} {r : Launch} (h : launch e opts = some r) :
    r.PollsOk e ↔ r.Served e := by
  have hr := launched h
  unfold Launch.Served
  split
  · rename_i hm
    constructor
    · intro hok l hl
      by_contra hlt
      have hpoll := polls_single hm hl (Nat.not_le.mp hlt)
      have hentry := (hok l hl _ _ hpoll (if_pos hm)).entry hm
      rw [(hr.filled l).count] at hentry
      exact absurd hentry.1 (Int.lt_irrefl _)
    · intro hserved l hl q port hpoll hport
      obtain ⟨hstart, hend⟩ := poll_mem hpoll
      have h0 : 0 ≤ q := Int.le_trans (e.queueStart_nonneg _ _ hl) hstart
      have hlt : q < (entriesFor l r.args.lcoreParams).length :=
        Int.lt_of_lt_of_le (Int.lt_of_lt_of_le hend (hr.queueEnd_le hl))
          (Int.ofNat_le.mpr (hserved l hl))
      obtain ⟨hn, p, hp, hlcore, hentry⟩ := hr.entry h0 hlt
      refine ⟨⟨h0, Int.lt_of_lt_of_le hlt (hr.filled l).fits⟩,
        fun _ => ⟨hn, p, hp, hlcore, hentry⟩, ?_⟩
      have hport' : ((r.conf l).rxQueueList q).portId = port :=
        Option.some.inj ((if_pos hm).symm.trans hport)
      rw [← hport', hentry]
      exact hr.ports p hp
  · rename_i hm
    constructor
    · intro hok
      by_contra hno
      obtain ⟨hmask, hbig⟩ := not_or.mp hno
      have hlt : 2048 < r.args.queues.toNat := Int.ofNat_lt.mp (Int.not_le.mp hbig)
      obtain ⟨l, hl, hpoll⟩ := hr.exists_lcore hlt
      obtain ⟨port, hport⟩ := Launched.exists_rxPortid hmask l
      have hrange := (hok l hl _ port hpoll ((if_neg hm).trans hport)).range
      exact absurd hrange.2 (Int.lt_irrefl _)
    · intro hserved l hl q port hpoll hport
      have hport' : rxPortid r.args.enabledPortMask (r.conf l) = some port :=
        (if_neg hm).symm.trans hport
      obtain ⟨hstart, hend⟩ := poll_mem hpoll
      have h0 : 0 ≤ q := Int.le_trans (e.queueStart_nonneg _ _ hl) hstart
      rcases hserved with hmask | hle
      · rw [hr.rxPortid_none hmask l] at hport'
        cases hport'
      · exact ⟨⟨h0, Int.lt_of_lt_of_le (Int.lt_of_lt_of_le hend (hr.queueEnd_le hl)) hle⟩,
          fun hs => absurd hs hm, hr.rxPortid_enabled hport'⟩

/-- `rte_strsplit` on text: the last of the tokens keeps the rest. -/
def strsplit (delim : Char) : ℕ → List Char → List (List Char)
  | 0, _ => []
  | _, [] => []
  | 1, c :: s => [if c = delim then [] else c :: s]
  | n + 2, c :: s => (c :: s).takeWhile (· ≠ delim) ::
      strsplit delim (n + 1) (((c :: s).dropWhile (· ≠ delim)).drop 1)

/-- One lcore, any port, and no address to read. -/
def Eal.single : Eal where
  rteStrsplit string maxtokens delim := strsplit delim maxtokens string
  cmdlineParseEtheraddr _ := false
  lcores := [0]
  validPort _ := true
  nodup := List.nodup_singleton 0
  pos := Nat.le_refl 1
  le := by decide

/-- `-q queues -p 1 --config (0,0,0)`. -/
def oneEntry (queues : String) : List Opt :=
  [.q queues.toList, .p "1".toList, .long "config" "(0,0,0)".toList]

/-- One queue is served. -/
theorem poll_indices_one : ∃ r, launch Eal.single (oneEntry "1") = some r ∧ r.PollsOk Eal.single := by
  obtain ⟨r, hr⟩ := Option.isSome_iff_exists.mp
    (show (launch Eal.single (oneEntry "1")).isSome = true by decide +kernel)
  have hargs : (launch Eal.single (oneEntry "1")).map Launch.args = some
      { NfArgs.init with queues := 1, enabledPortMask := 1, lcoreParams := [⟨0, 0, 0⟩] } := by
    decide +kernel
  rw [hr] at hargs
  have hargs' := Option.some.inj hargs
  have hm : r.args.qflow.mode = .single := by rw [hargs']; rfl
  have hq : r.args.queues.toNat = 1 := by rw [hargs']; rfl
  have hcount : (entriesFor 0 r.args.lcoreParams).length = 1 := by rw [hargs']; rfl
  have hserved : r.Served Eal.single := by
    unfold Launch.Served
    rw [if_pos hm]
    intro l hl
    rw [List.mem_singleton.mp hl, hq, hcount]
  exact ⟨r, hr, (poll_indices hr).mpr hserved⟩

/-- Three queues for one entry are accepted, and the second one is polled. -/
theorem poll_without_entry :
    ∃ r, launch Eal.single (oneEntry "3") = some r ∧ ¬r.PollsOk Eal.single := by
  obtain ⟨r, hr⟩ := Option.isSome_iff_exists.mp
    (show (launch Eal.single (oneEntry "3")).isSome = true by decide +kernel)
  have hargs : (launch Eal.single (oneEntry "3")).map Launch.args = some
      { NfArgs.init with queues := 3, enabledPortMask := 1, lcoreParams := [⟨0, 0, 0⟩] } := by
    decide +kernel
  rw [hr] at hargs
  have hargs' := Option.some.inj hargs
  have hm : r.args.qflow.mode = .single := by rw [hargs']; rfl
  have hq : 1 < r.args.queues.toNat := by rw [hargs']; decide
  have hl : (0 : UInt32) ∈ Eal.single.lcores := List.mem_singleton.mpr rfl
  refine ⟨r, hr, fun hok => ?_⟩
  have hentry := (hok 0 hl 1 _ (polls_single hm hl hq) (if_pos hm)).entry hm
  have hcount : (entriesFor 0 r.args.lcoreParams).length = 1 := by rw [hargs']; rfl
  rw [((launched hr).filled 0).count, hcount] at hentry
  exact absurd hentry.1 (Int.lt_irrefl _)

end QueueDpdk.Options
