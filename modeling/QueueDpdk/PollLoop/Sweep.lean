import QueueDpdk.PollLoop.Sched

/-!
# Sweeps end

The index of the for loop is moved back by the Aggressive block and overwritten twice by the
Latency block; `sweepMeasure` is the quantity that decreases all the same: first the queues still
ahead, then the re-polls left for the current queue, then a diversion that is due.

* `LoopMove.measure_lt` — every move inside a sweep decreases it, lost locks included, as long as
  no left-over resume index is used.
* `sweep_ends` — without Shared mode every sweep of every infinite run ends.
-/

set_option autoImplicit false

namespace QueueDpdk.PollLoop

open Lib

/-- The moves left in the sweep: at most 202 for each queue ahead, two for each re-poll of the
    current one (the poll and a diversion it makes due) and one for a diversion that is due. -/
def sweepMeasure (c : LoopCfg) (s : LoopState) : Nat :=
  (c.queueEnd - s.i).toNat * (2 * QFLOW_MAX_CONSECUTIVE_POLLS + 2) + 2 * s.maxLoops +
    s.injectQueue.toNat

def PollEvent.isSweepEnd : PollEvent → Bool
  | .sweepEnd => true
  | _ => false

theorem LoopMove.isSweepEnd_eq {c : LoopCfg} {s s' : LoopState} {x : PollInput} {e : PollEvent}
    (hm : LoopMove c s x e s') : e.isSweepEnd = decide (c.queueEnd ≤ s.i) := by
  cases hm with
  | sweepEnd hend => exact (decide_eq_true hend).symm
  | _ hi => exact (decide_eq_false (Int.not_le.mpr hi)).symm

/-- The most moves a sweep can make. -/
def sweepBound (c : LoopCfg) : Nat :=
  (c.queueEnd - c.queueStart).toNat * (2 * QFLOW_MAX_CONSECUTIVE_POLLS + 2) +
    2 * QFLOW_MAX_CONSECUTIVE_POLLS + 1

theorem sweepMeasure_le {c : LoopCfg} {s : LoopState} (hi : c.queueStart ≤ s.i)
    (hb : s.maxLoops ≤ QFLOW_MAX_CONSECUTIVE_POLLS) : sweepMeasure c s ≤ sweepBound c := by
  have hinj : s.injectQueue.toNat ≤ 1 := Bool.toNat_le _
  unfold sweepMeasure sweepBound
  unfold QFLOW_MAX_CONSECUTIVE_POLLS at hb ⊢
  omega

/-- Every move inside a sweep decreases the measure, unless it uses a left-over resume index or
    loses the lock of a diverted poll and goes on elsewhere. -/
theorem LoopMove.measure_lt {c : LoopCfg} {s s' : LoopState} {x : PollInput} {e : PollEvent}
    (hm : LoopMove c s x e s') (hb : s.maxLoops ≤ QFLOW_MAX_CONSECUTIVE_POLLS)
    (he : e.isSweepEnd = false) (hs : e.isStale = false)
    (hl : e.isLost = true → s'.i = s.i) : sweepMeasure c s' < sweepMeasure c s := by
  have hinj : (countPoll c s).injectQueue.toNat ≤ 1 := Bool.toNat_le _
  have hdue : injects c s = true → s.injectQueue.toNat = 1 := by
    intro hd
    simp only [injects, Bool.and_eq_true] at hd
    rw [hd.2]
    rfl
  unfold sweepMeasure
  unfold QFLOW_MAX_CONSECUTIVE_POLLS at hb ⊢
  cases hm with
  | sweepEnd => cases he
  | skip hi =>
    simp only [countSkip]
    omega
  | busy hi =>
    simp only
    omega
  | lost _ _ hd =>
    have hback : c.latencyQueue + 1 = s.i := hl rfl
    simp [hback, hdue hd]
  | diverted _ _ hd => simp [hdue hd]
  | stale => cases hs
  | repoll _ _ _ _ _ hr =>
    have hpos := repolls_budget hr
    simp only [countPoll_i]
    omega
  | advance hi =>
    simp only [QFLOW_MAX_CONSECUTIVE_POLLS]
    omega

/-! ## The budget belongs to the current queue -/

/-- In the middle of an aggressive run the current queue is not penalised. -/
structure InSweep (c : LoopCfg) (s : LoopState) : Prop extends Settled c s where
  running : s.maxLoops < QFLOW_MAX_CONSECUTIVE_POLLS → penalised c s = false

theorem InSweep.budget_of_penalised {c : LoopCfg} {s : LoopState} (h : InSweep c s)
    (hp : penalised c s = true) : s.maxLoops = QFLOW_MAX_CONSECUTIVE_POLLS := by
  by_contra hne
  rw [h.running (Nat.lt_of_le_of_ne h.budget hne)] at hp
  cases hp

theorem InSweep.init (c : LoopCfg) : InSweep c (LoopState.init c) :=
  ⟨Settled.init c, fun h => absurd h (Nat.lt_irrefl _)⟩

theorem penaltyAfter_full (c : LoopCfg) : toUnsigned (penaltyAfter c MAX_PKT_BURST) = c.turns := by
  have h0 : (0 : Int) ≤ c.turns := Int.natCast_nonneg _
  have h1 := c.turns_lt
  have h2 : MAX_PKT_BURST > MAX_PKT_BURST / 2 := by decide
  rw [penaltyAfter, if_pos h2, toUnsigned_toSigned, Int.mul_one, toUnsigned_of_nonneg h0 h1]

theorem LoopMove.inSweep {c : LoopCfg} {s s' : LoopState} {x : PollInput} {e : PollEvent}
    (hm : LoopMove c s x e s') (h : InSweep c s) (hl : e.isLost = false)
    (hb : e.isBusy = true → s.maxLoops = QFLOW_MAX_CONSECUTIVE_POLLS) : InSweep c s' := by
  refine ⟨hm.settled h.toSettled hl, ?_⟩
  cases hm with
  | sweepEnd => exact fun hlt => absurd hlt (Nat.lt_irrefl _)
  | skip _ hp =>
    intro hlt
    have := h.running hlt
    rw [hp] at this
    cases this
  | busy => exact fun hlt => absurd (hb rfl) (Nat.ne_of_lt hlt)
  | lost => cases hl
  | diverted _ hp => exact fun _ => hp
  | stale _ _ _ _ hs => rw [h.restores] at hs; cases hs
  | repoll _ hp _ _ _ hr =>
    intro _
    obtain ⟨-, hn, -⟩ : c.aggressive = true ∧ x.nbRx = MAX_PKT_BURST ∧ 0 < s.maxLoops := by
      simpa [repolls] using hr
    rw [← hp]
    by_cases hfirst : 0 < c.turns ∧ s.maxLoops = QFLOW_MAX_CONSECUTIVE_POLLS
    · rw [hp]
      simp [penalised, hitAfter, hfirst, hn, penaltyAfter_full]
    · simp [penalised, hitAfter, hfirst]
  | advance => exact fun hlt => absurd hlt (Nat.lt_irrefl _)

theorem inSweep_step {c : LoopCfg} (hmode : c.mode ≠ .shared) {s : LoopState} (x : PollInput)
    (h : InSweep c s) : InSweep c ((pollLoop c).step s x).1 := by
  have hm := step_move h.start_le x
  have hb := hm.not_busy hmode
  exact hm.inSweep h (PollEvent.not_lost hb) (fun hbusy => by rw [hb] at hbusy; cases hbusy)

/-- **Every sweep ends**, after at most `sweepMeasure` iterations. -/
theorem sweep_ends {c : LoopCfg} (hmode : c.mode ≠ .shared) {s : LoopState} (h : InSweep c s)
    (x : ℕ → PollInput) :
    ∃ k ≤ sweepMeasure c s, c.queueEnd ≤ ((pollLoop c).stateAt s x k).i ∧
      InSweep c ((pollLoop c).stateAt s x k) ∧
      ∀ j < k, ((pollLoop c).stateAt s x j).i < c.queueEnd := by
  have hstep : ∀ s x, InSweep c s → ¬c.queueEnd ≤ s.i →
      InSweep c ((pollLoop c).step s x).1 ∧
        sweepMeasure c ((pollLoop c).step s x).1 < sweepMeasure c s := by
    intro s x hs hi
    have hm := step_move hs.start_le x
    have he := hm.isSweepEnd_eq.trans (decide_eq_false hi)
    have hl := PollEvent.not_lost (hm.not_busy hmode)
    exact ⟨inSweep_step hmode x hs,
      hm.measure_lt hs.budget he (hs.not_stale hm) (fun h => by rw [hl] at h; cases h)⟩
  obtain ⟨k, hk, hdone, hinv, hbefore⟩ :=
    (pollLoop c).reaches (D := fun s => c.queueEnd ≤ s.i) (sweepMeasure c) hstep _ s x
      (Nat.le_refl _) h
  exact ⟨k, hk, hdone, hinv, fun j hj => by have := hbefore j hj; omega⟩

/-! ## The sweeps of an infinite run -/

/-- The number of the sweep in which event `t` of a stream lies. -/
def sweepNumber (ev : ℕ → PollEvent) (t : ℕ) : ℕ := epoch PollEvent.isSweepEnd ev t

/-- The state before step `t` of a run. -/
def stateBefore (c : LoopCfg) (x : ℕ → PollInput) (t : ℕ) : LoopState :=
  (pollLoop c).stateAt (LoopState.init c) x t

/-- The event of step `t`. -/
def eventOf (c : LoopCfg) (x : ℕ → PollInput) (t : ℕ) : PollEvent :=
  (pollLoop c).eventAt (LoopState.init c) x t

/-- The number of the sweep in which step `t` is made. -/
def sweepAt (c : LoopCfg) (x : ℕ → PollInput) (t : ℕ) : ℕ := sweepNumber (eventOf c x) t

/-- Step `T` is the first of sweep `k`. -/
structure SweepStart (c : LoopCfg) (x : ℕ → PollInput) (k T : ℕ) : Prop where
  number : sweepAt c x T = k
  after : T = 0 ∨ ∃ t, T = t + 1 ∧ (eventOf c x t).isSweepEnd = true
  inSweep : InSweep c (stateBefore c x T)
  index : (stateBefore c x T).i = c.queueStart
  budget : (stateBefore c x T).maxLoops = QFLOW_MAX_CONSECUTIVE_POLLS

theorem SweepStart.zero (c : LoopCfg) (x : ℕ → PollInput) : SweepStart c x 0 0 :=
  ⟨rfl, Or.inl rfl, InSweep.init c, rfl, rfl⟩

theorem eventOf_isSweepEnd {c : LoopCfg} {x : ℕ → PollInput} {t : ℕ}
    (h : Settled c (stateBefore c x t)) :
    (eventOf c x t).isSweepEnd = decide (c.queueEnd ≤ (stateBefore c x t).i) :=
  (step_move h.start_le (x t)).isSweepEnd_eq

/-- **Every sweep is followed by the next one**: the steps of sweep `k` are `T, …, T + L`, the
    last of which ends it. -/
theorem SweepStart.next {c : LoopCfg} (hmode : c.mode ≠ .shared) {x : ℕ → PollInput} {k T : ℕ}
    (h : SweepStart c x k T) :
    ∃ L, SweepStart c x (k + 1) (T + L + 1) ∧
      c.queueEnd ≤ (stateBefore c x (T + L)).i ∧
      (∀ j < L, (eventOf c x (T + j)).isSweepEnd = false) ∧
      ∀ t, sweepAt c x t = k ↔ T ≤ t ∧ t ≤ T + L := by
  obtain ⟨L, -, hend, hinL, hbefore⟩ := sweep_ends hmode h.inSweep (fun j => x (T + j))
  have hshift : ∀ j, stateBefore c x (T + j) =
      (pollLoop c).stateAt (stateBefore c x T) (fun j => x (T + j)) j :=
    fun j => (pollLoop c).stateAt_add _ x T j
  have hinv : ∀ t, InSweep c (stateBefore c x t) := fun t =>
    (pollLoop c).stateAt_inv (fun s y hs => inSweep_step hmode y hs) (InSweep.init c) x t
  rw [← hshift] at hend
  have hin : ∀ j < L, (eventOf c x (T + j)).isSweepEnd = false := by
    intro j hj
    rw [eventOf_isSweepEnd (hinv _).toSettled, hshift]
    exact decide_eq_false (Int.not_le.mpr (hbefore j hj))
  have hmark : (eventOf c x (T + L)).isSweepEnd = true := by
    rw [eventOf_isSweepEnd (hinv _).toSettled]
    exact decide_eq_true hend
  have hstate : stateBefore c x (T + L + 1) =
      { stateBefore c x (T + L) with
        i := c.queueStart, maxLoops := QFLOW_MAX_CONSECUTIVE_POLLS } :=
    congrArg Prod.fst (step_eq (hinv (T + L)).start_le (LoopMove.sweepEnd (x := x (T + L)) hend))
  have hspan := epoch_eq_iff h.after hin hmark
  refine ⟨L, ⟨?_, Or.inr ⟨T + L, rfl, hmark⟩, hinv _, by rw [hstate], by rw [hstate]⟩, hend, hin,
    fun t => ?_⟩
  · have hlast : sweepAt c x (T + L) = k := by
      rw [← h.number]
      exact (hspan (T + L)).mpr ⟨by omega, Nat.le_refl _⟩
    show sweepAt c x (T + L) + (if (eventOf c x (T + L)).isSweepEnd then 1 else 0) = k + 1
    rw [hlast, hmark]
    rfl
  · rw [← h.number]
    exact hspan t

end QueueDpdk.PollLoop
