import QueueDpdk.PollLoop.Structure
import QueueDpdk.Lib.Slices

/-!
# mica: the queues of the lcores

mica deals the queues out: every polling lcore gets `queues / active_io_lcores` of them, the first
`queues % active_io_lcores` one more.  `poll_loop` computes the range of an lcore, the queue setup
in `main` the lcore of a queue, and a third loop the size of the mempools, all in 16 bits.

* `firstQueue` / `assignedQueues`, `ownerLcIdx`, `lcQueues` — the three of them.
* `MicaSetup.micaCfg` — the loop of an lcore over its range.
* `mica_partition` — they agree in every accepted setup of Partitioned mode, nothing wraps, and no
  loop uses a queue outside the range of its lcore.
-/

set_option autoImplicit false

namespace QueueDpdk.PollLoop.Mica

open Lib

/-- `active_io_lcores`, by two `RTE_MIN`. -/
def activeIoLcores (nbLcores queues maxTxQueues : UInt16) : UInt16 :=
  let active := if nbLcores < queues then nbLcores else queues
  if active < maxTxQueues then active else maxTxQueues

/-- `first_queue` of `poll_loop`. -/
def firstQueue (mode : QflowMode) (queues active : UInt16) (lcoreIdx : UInt32) : UInt16 :=
  if mode = .single then 0
  else if lcoreIdx < active.toUInt32 then
    if mode = .partitioned then
      let queuesPerLcore := queues / active
      let extraQueues := queues % active
      (lcoreIdx * queuesPerLcore.toUInt32 +
        if lcoreIdx < extraQueues.toUInt32 then lcoreIdx else extraQueues.toUInt32).toUInt16
    else 0
  else queues

/-- `assigned_queues` of `poll_loop`. -/
def assignedQueues (mode : QflowMode) (queues active : UInt16) (lcoreIdx : UInt32) : UInt16 :=
  if mode = .single then queues
  else if lcoreIdx < active.toUInt32 then
    if mode = .partitioned then
      let queuesPerLcore := queues / active
      let extraQueues := queues % active
      queuesPerLcore + if lcoreIdx < extraQueues.toUInt32 then 1 else 0
    else queues
  else 0

/-- `last_queue` of `poll_loop`. -/
def lastQueue (mode : QflowMode) (queues active : UInt16) (lcoreIdx : UInt32) : UInt16 :=
  firstQueue mode queues active lcoreIdx + assignedQueues mode queues active lcoreIdx

/-- `boundary`: the first queue of the lcores without an extra one. -/
def boundary (queues active : UInt16) : UInt16 := queues % active * (queues / active + 1)

/-- `owner_lc_idx`, for the `int` loop index `x` of the queue setup. -/
def ownerLcIdx (queues active : UInt16) (x : Nat) : UInt16 :=
  let queuesPerLcore := queues / active
  let extraQueues := queues % active
  if x < (boundary queues active).toNat then UInt16.ofNat (x / (queuesPerLcore.toNat + 1))
  else UInt16.ofNat
    (extraQueues.toNat + (x - (boundary queues active).toNat) / queuesPerLcore.toNat)

/-- `lc_queues`, the number of queues the mempool of lcore `lcIdx` is sized for. -/
def lcQueues (queues active lcIdx : UInt16) : UInt16 :=
  queues / active + if lcIdx < queues % active then 1 else 0

/-- The mempools `main` creates in `RTE_LCORE_FOREACH`, each with the lcore and its size. -/
def mbufPools (queues active : UInt16) : List UInt32 → UInt16 → List (UInt32 × UInt16)
  | [], _ => []
  | lc :: lcs, lcIdx =>
    if active ≤ lcIdx then []
    else (lc, lcQueues queues active lcIdx) :: mbufPools queues active lcs (lcIdx + 1)

/-- The walk over `RTE_LCORE_FOREACH` to the lcore with index `owner_lc_idx`. -/
def ownerLcore (ownerIdx : UInt16) : List UInt32 → UInt16 → Option UInt32
  | [], _ => none
  | lc :: lcs, tmpIdx => if tmpIdx = ownerIdx then some lc else ownerLcore ownerIdx lcs (tmpIdx + 1)

/-- A setup of Partitioned mode that `main` accepts: the lcores in the order of
    `RTE_LCORE_FOREACH`, which is also that of `rte_lcore_index`. -/
structure MicaSetup where
  queues : UInt16
  lcores : List UInt32
  maxTxQueues : UInt16
  nodup : lcores.Nodup
  lcores_pos : 1 ≤ lcores.length
  lcores_le : lcores.length ≤ queues.toNat
  queues_le : queues.toNat ≤ 2048
  tx_pos : 1 ≤ maxTxQueues.toNat

namespace MicaSetup

variable (p : MicaSetup)

/-- `nb_lcores = rte_lcore_count()`. -/
def nbLcores : UInt16 := UInt16.ofNat p.lcores.length

/-- `active_io_lcores`. -/
def active : UInt16 := activeIoLcores p.nbLcores p.queues p.maxTxQueues

theorem lcores_lt : p.lcores.length < 2 ^ 16 :=
  Nat.lt_of_le_of_lt p.lcores_le p.queues.toNat_lt

theorem active_toNat :
    p.active.toNat = min (min p.lcores.length p.queues.toNat) p.maxTxQueues.toNat := by
  have hnb : p.nbLcores.toNat = p.lcores.length := UInt16.toNat_ofNat_of_lt' p.lcores_lt
  unfold active activeIoLcores
  simp only [UInt16.lt_iff_toNat_lt, hnb]
  split <;> split <;> omega

theorem active_pos : 1 ≤ p.active.toNat := by
  have := p.lcores_pos
  have := p.lcores_le
  have := p.tx_pos
  rw [active_toNat]
  omega

theorem active_le : p.active.toNat ≤ p.queues.toNat := by
  rw [active_toNat]
  omega

theorem active_le_lcores : p.active.toNat ≤ p.lcores.length := by
  rw [active_toNat]
  omega

/-- The ranges in exact arithmetic. -/
def slices : Slices p.active.toNat 0 (0 + p.queues.toNat) :=
  dealtSlices 0 p.queues.toNat p.active.toNat p.active_pos p.active_le

/-! ## The ranges -/

theorem quotient_le : p.queues.toNat / p.active.toNat ≤ 2048 :=
  Nat.le_trans (Nat.div_le_self _ _) p.queues_le

theorem remainder_lt : p.queues.toNat % p.active.toNat < p.active.toNat :=
  Nat.mod_lt _ p.active_pos

theorem lt_active_iff {k : ℕ} (hk : k < p.lcores.length) :
    UInt32.ofNat k < p.active.toUInt32 ↔ k < p.active.toNat := by
  have hk' : k < 2 ^ 32 := Nat.lt_trans (Nat.lt_trans hk p.lcores_lt) (by decide)
  rw [UInt32.lt_iff_toNat_lt, UInt32.toNat_ofNat_of_lt' hk', UInt16.toNat_toUInt32]

theorem lt_extra_iff {k : ℕ} (hk : k < p.lcores.length) :
    UInt32.ofNat k < (p.queues % p.active).toUInt32 ↔ k < p.queues.toNat % p.active.toNat := by
  have hk' : k < 2 ^ 32 := Nat.lt_trans (Nat.lt_trans hk p.lcores_lt) (by decide)
  rw [UInt32.lt_iff_toNat_lt, UInt32.toNat_ofNat_of_lt' hk', UInt16.toNat_toUInt32,
    UInt16.toNat_mod]

/-- `first_queue` of a polling lcore is the exact bound. -/
theorem firstQueue_toNat {k : ℕ} (hk : k < p.active.toNat) :
    (firstQueue .partitioned p.queues p.active (UInt32.ofNat k)).toNat = p.slices.bound k := by
  have hkl : k < p.lcores.length := Nat.lt_of_lt_of_le hk p.active_le_lcores
  have hk' : k < 2 ^ 32 := Nat.lt_trans (Nat.lt_trans hkl p.lcores_lt) (by decide)
  have hq := p.queues_le
  have hbound := p.slices.bound_le_last hk.le
  have heq : p.slices.bound k = k * (p.queues.toNat / p.active.toNat) +
      min k (p.queues.toNat % p.active.toNat) := by
    show dealtBound 0 _ _ k = _
    rw [dealtBound, Nat.zero_add]
  have hmin : (if UInt32.ofNat k < (p.queues % p.active).toUInt32 then UInt32.ofNat k
      else (p.queues % p.active).toUInt32).toNat = min k (p.queues.toNat % p.active.toNat) := by
    simp only [p.lt_extra_iff hkl]
    split
    · rw [UInt32.toNat_ofNat_of_lt' hk']
      omega
    · rw [UInt16.toNat_toUInt32, UInt16.toNat_mod]
      omega
  unfold firstQueue
  rw [if_neg (by decide), if_pos ((p.lt_active_iff hkl).mpr hk), if_pos rfl]
  simp only [UInt32.toNat_toUInt16, UInt32.toNat_add, UInt32.toNat_mul, hmin,
    UInt16.toNat_toUInt32, UInt16.toNat_div, UInt32.toNat_ofNat_of_lt' hk']
  rw [heq] at hbound ⊢
  omega

/-- `assigned_queues` of a polling lcore. -/
theorem assignedQueues_toNat {k : ℕ} (hk : k < p.active.toNat) :
    (assignedQueues .partitioned p.queues p.active (UInt32.ofNat k)).toNat =
      p.queues.toNat / p.active.toNat + if k < p.queues.toNat % p.active.toNat then 1 else 0 := by
  have hkl : k < p.lcores.length := Nat.lt_of_lt_of_le hk p.active_le_lcores
  have hquot := p.quotient_le
  unfold assignedQueues
  rw [if_neg (by decide), if_pos ((p.lt_active_iff hkl).mpr hk), if_pos rfl]
  simp only [p.lt_extra_iff hkl, UInt16.toNat_add, UInt16.toNat_div]
  split <;> simp <;> omega

/-- `last_queue` of a polling lcore is the next exact bound. -/
theorem lastQueue_toNat {k : ℕ} (hk : k < p.active.toNat) :
    (lastQueue .partitioned p.queues p.active (UInt32.ofNat k)).toNat = p.slices.bound (k + 1) := by
  have hq := p.queues_le
  have hbound : p.slices.bound (k + 1) ≤ 0 + p.queues.toNat :=
    p.slices.bound_le_last (Nat.succ_le_of_lt hk)
  have hnext : p.slices.bound (k + 1) = p.slices.bound k +
      (p.queues.toNat / p.active.toNat + if k < p.queues.toNat % p.active.toNat then 1 else 0) :=
    dealtBound_succ _ _ _ _
  unfold lastQueue
  rw [UInt16.toNat_add, p.firstQueue_toNat hk, p.assignedQueues_toNat hk, ← hnext]
  exact Nat.mod_eq_of_lt (by omega)

/-- The other lcores get nothing. -/
theorem idle {k : ℕ} (hk : k < p.lcores.length) (hact : p.active.toNat ≤ k) :
    firstQueue .partitioned p.queues p.active (UInt32.ofNat k) = p.queues ∧
      assignedQueues .partitioned p.queues p.active (UInt32.ofNat k) = 0 := by
  have hge : ¬UInt32.ofNat k < p.active.toUInt32 := by
    rw [p.lt_active_iff hk]
    omega
  unfold firstQueue assignedQueues
  rw [if_neg (by decide), if_neg hge, if_neg (by decide), if_neg hge]
  exact ⟨rfl, rfl⟩

/-! ## The owner of a queue -/

/-- `boundary` does not wrap. -/
theorem boundary_toNat : (boundary p.queues p.active).toNat =
    p.queues.toNat % p.active.toNat * (p.queues.toNat / p.active.toNat + 1) := by
  have hq := p.queues_le
  have hbound : dealtBound 0 p.queues.toNat p.active.toNat
      (p.queues.toNat % p.active.toNat) ≤ 0 + p.queues.toNat :=
    p.slices.bound_le_last p.remainder_lt.le
  rw [dealtBound_low (Nat.le_refl _)] at hbound
  have hquot := p.quotient_le
  unfold boundary
  rw [UInt16.toNat_mul, UInt16.toNat_add, UInt16.toNat_mod, UInt16.toNat_div, UInt16.toNat_one,
    Nat.mod_eq_of_lt (a := p.queues.toNat / p.active.toNat + 1) (by omega)]
  exact Nat.mod_eq_of_lt (by omega)

/-- `owner_lc_idx` is the owner in exact arithmetic. -/
theorem ownerLcIdx_toNat {x : ℕ} (hx : x < p.queues.toNat) :
    (ownerLcIdx p.queues p.active x).toNat =
      dealtOwner p.queues.toNat p.active.toNat x := by
  have howner := (dealtSlices_owns p.active_pos p.active_le hx).1
  have hact : p.active.toNat < 2 ^ 16 := p.active.toNat_lt
  unfold dealtOwner at howner ⊢
  unfold ownerLcIdx
  rw [p.boundary_toNat]
  simp only [UInt16.toNat_div, UInt16.toNat_mod]
  split
  · rename_i hlt
    rw [if_pos hlt] at howner
    exact UInt16.toNat_ofNat_of_lt' (Nat.lt_trans howner hact)
  · rename_i hge
    rw [if_neg hge] at howner
    exact UInt16.toNat_ofNat_of_lt' (Nat.lt_trans howner hact)

/-- The walk over the lcores finds the one with the index looked for. -/
theorem ownerLcore_getElem {idx : UInt16} (lcores : List UInt32) :
    ∀ (d : ℕ) (tmpIdx : UInt16), tmpIdx.toNat + d = idx.toNat → ∀ h : d < lcores.length,
      ownerLcore idx lcores tmpIdx = some lcores[d] := by
  induction lcores with
  | nil => intro d _ _ h; exact absurd h (Nat.not_lt_zero d)
  | cons lc lcs ih =>
    intro d tmpIdx hd h
    unfold ownerLcore
    cases d with
    | zero => exact if_pos (UInt16.toNat_inj.mp hd)
    | succ d =>
      have hidx : idx.toNat < 2 ^ 16 := idx.toNat_lt
      have hne : tmpIdx ≠ idx := by
        rintro rfl
        omega
      rw [if_neg hne]
      refine ih d (tmpIdx + 1) ?_ (Nat.lt_of_succ_lt_succ h)
      rw [UInt16.toNat_add, UInt16.toNat_one, Nat.mod_eq_of_lt (by omega)]
      omega

/-- Every polling lcore has a mempool, sized by its `lc_queues`. -/
theorem mem_mbufPools (queues active : UInt16) (lcores : List UInt32) :
    ∀ (d : ℕ) (lcIdx : UInt16), lcIdx.toNat + d < active.toNat → ∀ h : d < lcores.length,
      (lcores[d], lcQueues queues active (UInt16.ofNat (lcIdx.toNat + d))) ∈
        mbufPools queues active lcores lcIdx := by
  induction lcores with
  | nil => intro d _ _ h; exact absurd h (Nat.not_lt_zero d)
  | cons lc lcs ih =>
    intro d lcIdx hd h
    have hact : active.toNat < 2 ^ 16 := active.toNat_lt
    have hlt : ¬active ≤ lcIdx := by
      rw [UInt16.le_iff_toNat_le]
      omega
    unfold mbufPools
    rw [if_neg hlt]
    cases d with
    | zero =>
      rw [Nat.add_zero, UInt16.ofNat_toNat]
      exact List.mem_cons_self
    | succ d =>
      have hnext : (lcIdx + 1).toNat = lcIdx.toNat + 1 := by
        rw [UInt16.toNat_add, UInt16.toNat_one, Nat.mod_eq_of_lt (by omega)]
      have hmem := ih d (lcIdx + 1) (by omega) (Nat.lt_of_succ_lt_succ h)
      rw [hnext, Nat.add_assoc, Nat.add_comm 1 d] at hmem
      exact List.mem_cons_of_mem _ hmem

/-- The mempool of a polling lcore is sized for the queues it polls. -/
theorem lcQueues_eq {k : ℕ} (hk : k < p.active.toNat) :
    lcQueues p.queues p.active (UInt16.ofNat k) =
      assignedQueues .partitioned p.queues p.active (UInt32.ofNat k) := by
  have hkl : k < p.lcores.length := Nat.lt_of_lt_of_le hk p.active_le_lcores
  have hk' : k < 2 ^ 16 := Nat.lt_trans hkl p.lcores_lt
  have hextra : UInt16.ofNat k < p.queues % p.active ↔
      UInt32.ofNat k < (p.queues % p.active).toUInt32 := by
    rw [p.lt_extra_iff hkl, UInt16.lt_iff_toNat_lt, UInt16.toNat_ofNat_of_lt' hk',
      UInt16.toNat_mod]
  unfold lcQueues assignedQueues
  simp only [hextra, (p.lt_active_iff hkl).mpr hk, reduceCtorEq, if_true, if_false]

/-- The range of lcore number `k`. -/
def range (k : ℕ) : ℕ × ℕ :=
  ((firstQueue .partitioned p.queues p.active (UInt32.ofNat k)).toNat,
    (lastQueue .partitioned p.queues p.active (UInt32.ofNat k)).toNat)

theorem mem_range_iff {k : ℕ} (hk : k < p.active.toNat) (x : ℕ) :
    ((p.range k).1 ≤ x ∧ x < (p.range k).2) ↔ p.slices.Owns k x := by
  unfold range
  rw [p.firstQueue_toNat hk, p.lastQueue_toNat hk]
  rfl

/-- What `poll_loop` of the `k`-th polling lcore reads before its loop. -/
def micaCfg (o : QflowOpts) (hm : o.mode = .partitioned) {k : ℕ} (hk : k < p.active.toNat) :
    MicaCfg :=
  .ofOpts o (firstQueue .partitioned p.queues p.active (UInt32.ofNat k))
    (lastQueue .partitioned p.queues p.active (UInt32.ofNat k))
    (by
      rw [UInt16.le_iff_toNat_le, p.firstQueue_toNat hk, p.lastQueue_toNat hk]
      exact (p.slices.nonempty k hk).le)
    (fun h => absurd hm h)

/-- The loop of an lcore uses the queues of its range only. -/
theorem loop_range (o : QflowOpts) (hm : o.mode = .partitioned) {k : ℕ} (hk : k < p.active.toNat)
    (x : ℕ → PollInput) (t : ℕ) {q : Int}
    (hq : ((micaLoop (p.micaCfg o hm hk)).eventAt (.init (p.micaCfg o hm hk)) x t).queue? =
      some q) :
    ((p.range k).1 : Int) ≤ q ∧ q < (p.range k).2 := by
  have hlast : (p.micaCfg o hm hk).last ≤ MAX_RX_QUEUE_PER_LCORE := by
    have hq := p.queues_le
    have hle : p.slices.bound (k + 1) ≤ 0 + p.queues.toNat :=
      p.slices.bound_le_last (Nat.succ_le_of_lt hk)
    have heq : (p.micaCfg o hm hk).last = p.slices.bound (k + 1) :=
      congrArg Nat.cast (p.lastQueue_toNat hk)
    rw [heq, MAX_RX_QUEUE_PER_LCORE]
    omega
  have hmode : (p.micaCfg o hm hk).mode ≠ .shared := by
    show o.mode ≠ .shared
    rw [hm]
    decide
  obtain ⟨h1, h2, -⟩ := (sweepsOf_micaLoop hmode hlast x).queues t q hq
  exact ⟨h1, h2⟩

theorem dealt_owns {x : ℕ} (hx : x < p.queues.toNat) :
    dealtOwner p.queues.toNat p.active.toNat x < p.active.toNat ∧
      p.slices.Owns (dealtOwner p.queues.toNat p.active.toNat x) x :=
  dealtSlices_owns p.active_pos p.active_le hx

end MicaSetup

/-- **Queue partition and owner agreement of mica.**  The ranges of the polling lcores are
    non-empty, ascending and disjoint, hold every queue, and are computed without wrapping; the
    other lcores get nothing.  For every queue the setup finds the polling lcore whose range holds
    it, whose mempool exists and is sized for the queues of that range; and the loop of an lcore
    uses no queue outside its range. -/
theorem mica_partition (p : MicaSetup) :
    (∀ k < p.active.toNat,
      (p.range k).1 = k * (p.queues.toNat / p.active.toNat) +
        min k (p.queues.toNat % p.active.toNat) ∧
      (assignedQueues .partitioned p.queues p.active (UInt32.ofNat k)).toNat =
        p.queues.toNat / p.active.toNat +
          (if k < p.queues.toNat % p.active.toNat then 1 else 0) ∧
      (p.range k).2 = (p.range k).1 +
        (assignedQueues .partitioned p.queues p.active (UInt32.ofNat k)).toNat ∧
      (p.range k).1 < (p.range k).2 ∧ (p.range k).2 ≤ p.queues.toNat ∧
      ∀ j < k, (p.range j).2 ≤ (p.range k).1) ∧
    (boundary p.queues p.active).toNat =
      p.queues.toNat % p.active.toNat * (p.queues.toNat / p.active.toNat + 1) ∧
    (∀ x < p.queues.toNat,
      ∃! k, k < p.active.toNat ∧ (p.range k).1 ≤ x ∧ x < (p.range k).2) ∧
    (∀ k, p.active.toNat ≤ k → k < p.lcores.length →
      assignedQueues .partitioned p.queues p.active (UInt32.ofNat k) = 0) ∧
    (∀ x < p.queues.toNat, ∃ (k : ℕ) (h : k < p.lcores.length),
      (ownerLcIdx p.queues p.active x).toNat = k ∧ k < p.active.toNat ∧
      (p.range k).1 ≤ x ∧ x < (p.range k).2 ∧
      ownerLcore (ownerLcIdx p.queues p.active x) p.lcores 0 = some p.lcores[k] ∧
      (p.lcores[k], lcQueues p.queues p.active (UInt16.ofNat k)) ∈
        mbufPools p.queues p.active p.lcores 0) ∧
    (∀ k < p.active.toNat, lcQueues p.queues p.active (UInt16.ofNat k) =
      assignedQueues .partitioned p.queues p.active (UInt32.ofNat k)) ∧
    (∀ (o : QflowOpts) (hm : o.mode = .partitioned) (k : ℕ) (hk : k < p.active.toNat)
        (x : ℕ → PollInput) (t : ℕ) (q : Int),
      ((micaLoop (p.micaCfg o hm hk)).eventAt (.init (p.micaCfg o hm hk)) x t).queue? = some q →
        ((p.range k).1 : Int) ≤ q ∧ q < (p.range k).2) := by
  refine ⟨fun k hk => ?_, p.boundary_toNat, fun x hx => ?_, fun k hact hk => (p.idle hk hact).2,
    fun x hx => ?_, fun k hk => p.lcQueues_eq hk, fun o hm k hk x t q => p.loop_range o hm hk x t⟩
  · have hfirst : (p.range k).1 = p.slices.bound k := p.firstQueue_toNat hk
    have hlast : (p.range k).2 = p.slices.bound (k + 1) := p.lastQueue_toNat hk
    have hassigned := p.assignedQueues_toNat hk
    refine ⟨?_, hassigned, ?_, ?_, ?_, fun j hj => ?_⟩
    · rw [hfirst]
      show dealtBound 0 _ _ k = _
      rw [dealtBound, Nat.zero_add]
    · rw [hfirst, hlast, hassigned]
      exact dealtBound_succ _ _ _ _
    · rw [hfirst, hlast]
      exact p.slices.nonempty k hk
    · rw [hlast]
      exact Nat.le_trans (p.slices.bound_le_last (Nat.succ_le_of_lt hk))
        (Nat.le_of_eq (Nat.zero_add _))
    · rw [hfirst, show (p.range j).2 = p.slices.bound (j + 1) from
        p.lastQueue_toNat (Nat.lt_trans hj hk)]
      exact p.slices.ascending hj hk
  · obtain ⟨hk, hown⟩ := p.dealt_owns hx
    refine ⟨_, ⟨hk, (p.mem_range_iff hk x).mpr hown⟩, ?_⟩
    rintro j ⟨hj, hmem⟩
    exact p.slices.owns_unique ((p.mem_range_iff hj x).mp hmem) hown hj hk
  · obtain ⟨hk, hown⟩ := p.dealt_owns hx
    have hkl := Nat.lt_of_lt_of_le hk p.active_le_lcores
    obtain ⟨h1, h2⟩ := (p.mem_range_iff hk x).mpr hown
    refine ⟨_, hkl, p.ownerLcIdx_toNat hx, hk, h1, h2, ?_, ?_⟩
    · exact MicaSetup.ownerLcore_getElem p.lcores _ 0
        ((Nat.zero_add _).trans (p.ownerLcIdx_toNat hx).symm) hkl
    · have hmem := MicaSetup.mem_mbufPools p.queues p.active p.lcores _ 0
        (Nat.lt_of_le_of_lt (Nat.le_of_eq (Nat.zero_add _)) hk) hkl
      rwa [UInt16.toNat_zero, Nat.zero_add] at hmem

/-- Five queues for two lcores: the first one polls the extra queue. -/
theorem mica_partition_fiveQueues : ∃ p : MicaSetup, p.queues = 5 ∧ p.lcores = [1, 3] ∧
    (p.range 0 = (0, 3) ∧ p.range 1 = (3, 5)) ∧
    (boundary p.queues p.active).toNat = 3 ∧
    (∃! k, k < p.active.toNat ∧ (p.range k).1 ≤ 2 ∧ 2 < (p.range k).2) ∧
    lcQueues p.queues p.active (UInt16.ofNat 0) =
      assignedQueues .partitioned p.queues p.active (UInt32.ofNat 0) := by
  obtain ⟨-, hboundary, howner, -, -, hpool, -⟩ :=
    mica_partition ⟨5, [1, 3], 8, by decide, by decide, by decide, by decide, by decide⟩
  exact ⟨_, rfl, rfl, by decide, hboundary, howner 2 (by decide), hpool 0 (by decide)⟩

end QueueDpdk.PollLoop.Mica
