import QueueDpdk.Lib.Machine
import QueueDpdk.Qflow

/-!
# The queue scheduler of `poll_loop`

The for loop of `poll_loop`, which `nf-chain/src/main.c` and `mica/main.c` share line by line, cut
down to what decides which queue is polled next: the loop index, the Penalty counters `hit`, the
consecutive-poll budget `max_loops` and the three Latency variables.  One step of the machine is
one iteration of the for loop, or the end of a sweep (the for loop is left and entered again by
the enclosing `while (!force_quit)`).  What is done with the packets is the subject
of `PollLoop.Transmit` and `Chain.Loop`.

* `iteration` — the loop body, block by block in the source's order.
* `LoopMove` — everything a step can do; `step_move` proves it, and later files never unfold
  `iteration`.
* `Settled` — the invariant "no resume index is left over", kept by every move except a diverted
  poll whose trylock fails.
-/

set_option autoImplicit false

namespace QueueDpdk.PollLoop

open Lib

/-- What `poll_loop` reads once before its loop: the policy knobs and the slice of queues
    `[queue_start, queue_end)`, which starts at 0 unless the mode is Partitioned. -/
structure LoopCfg where
  mode : QflowMode
  aggressive : Bool
  penalty : UInt32
  latencyMode : Bool
  latencyPeriod : Int
  latencyQueue : Int
  queueStart : Int
  queueEnd : Int
  start_nonneg : 0 ≤ queueStart
  start_zero : mode ≠ .partitioned → queueStart = 0

/-- `penalty` as a number: the sweeps a penalised queue is skipped, 0 if Penalty is off. -/
def LoopCfg.turns (c : LoopCfg) : Int := c.penalty.toNat

/-- `has_latency_queue`. -/
def LoopCfg.hasLatencyQueue (c : LoopCfg) : Bool :=
  decide (c.queueStart ≤ c.latencyQueue ∧ c.latencyQueue < c.queueEnd)

/-- `latency_mode && has_latency_queue`. -/
def LoopCfg.latencyOn (c : LoopCfg) : Bool := c.latencyMode && c.hasLatencyQueue

/-- The same policy with Latency disabled. -/
def LoopCfg.withoutLatency (c : LoopCfg) : LoopCfg := { c with latencyMode := false }

/-- The slice of all queues starts at 0. -/
theorem LoopCfg.zero_nonneg : (0 : Int) ≤ 0 := Int.le_refl 0

/-- The knobs `poll_loop` takes from the options, for a slice of queues. -/
def LoopCfg.ofOpts (o : QflowOpts) (queueStart queueEnd : Int) (h : 0 ≤ queueStart)
    (h' : o.mode ≠ .partitioned → queueStart = 0) : LoopCfg :=
  ⟨o.mode, o.aggressive, o.penaltyKnob, o.latency, o.latencyPeriod, o.latencyQueue, queueStart,
    queueEnd, h, h'⟩

/-- The default of two queues with all three policies on. -/
def LoopCfg.allPolicies (mode : QflowMode) : LoopCfg :=
  .ofOpts { qflowOptsInit with aggressive := true, penalty := true, latency := true, mode := mode }
    0 2 LoopCfg.zero_nonneg (fun _ => rfl)

/-- The variables of the for loop; `resumeI = -1` when no diversion is under way. -/
structure LoopState where
  i : Int
  maxLoops : Nat
  hit : Int → Int
  latencyCount : Int
  injectQueue : Bool
  resumeI : Int

/-- The state in which the first sweep starts: every Penalty counter holds `penalty`. -/
def LoopState.init (c : LoopCfg) : LoopState :=
  ⟨c.queueStart, QFLOW_MAX_CONSECUTIVE_POLLS, fun _ => toSigned c.turns, 0, false, -1⟩

/-- What the environment decides in one iteration: the outcome of `rte_spinlock_trylock` (looked
    at in Shared mode only) and the number of packets `rte_eth_rx_burst` returns. -/
structure PollInput where
  lock : Bool
  nbRx : Nat
  deriving DecidableEq, Repr

/-- What an iteration does: it skips a penalised queue, loses the lock of a queue, or polls one.
    `diverted` marks the iteration in which the Latency policy replaced the queue, `latencyPoll` is
    the source's flag of that name. -/
inductive PollEvent where
  | skip (q : Int)
  | busy (q : Int) (diverted : Bool)
  | poll (q : Int) (nbRx : Nat) (diverted latencyPoll : Bool)
  | sweepEnd
  deriving DecidableEq, Repr

/-- `(penalty > 0) && (hit[qi] < penalty)`; the comparison is unsigned. -/
def penalised (c : LoopCfg) (s : LoopState) : Bool :=
  decide (0 < c.turns ∧ toUnsigned (s.hit (s.i - c.queueStart)) < c.turns)

/-- `hit[qi]++`. -/
def countSkip (c : LoopCfg) (s : LoopState) : LoopState :=
  { s with
    hit := Function.update s.hit (s.i - c.queueStart)
      (toSigned (s.hit (s.i - c.queueStart) + 1)) }

/-- `latency_mode && has_latency_queue && inject_queue`. -/
def injects (c : LoopCfg) (s : LoopState) : Bool := c.latencyOn && s.injectQueue

/-- The diversion to the latency queue. -/
def injectLatency (c : LoopCfg) (s : LoopState) : LoopState :=
  if injects c s then { s with resumeI := s.i, i := c.latencyQueue, injectQueue := false } else s

/-- The Latency block after a poll, with the value it gives `latency_poll`. -/
def accountLatency (c : LoopCfg) (s : LoopState) : LoopState × Bool :=
  if c.latencyOn then
    if s.resumeI ≠ -1 ∧ s.i = c.latencyQueue then
      ({ s with i := s.resumeI - 1, resumeI := -1 }, true)
    else if s.i ≠ c.latencyQueue then
      if s.latencyCount + 1 = c.latencyPeriod then
        ({ s with latencyCount := 0, injectQueue := true }, false)
      else ({ s with latencyCount := s.latencyCount + 1 }, false)
    else (s, false)
  else (s, false)

/-- `penalty * (nb_rx > MAX_PKT_BURST / 2)`, stored into an `int`. -/
def penaltyAfter (c : LoopCfg) (nbRx : Nat) : Int :=
  toSigned (c.turns * if nbRx > MAX_PKT_BURST / 2 then 1 else 0)

/-- The Penalty update: only the first poll of a run writes the counter. -/
def accountPenalty (c : LoopCfg) (qi : Int) (nbRx : Nat) (s : LoopState) : LoopState :=
  if 0 < c.turns ∧ s.maxLoops = QFLOW_MAX_CONSECUTIVE_POLLS then
    { s with
      hit := Function.update s.hit (if c.mode = .partitioned then qi else s.i)
        (penaltyAfter c nbRx) }
  else s

/-- `aggressive && nb_rx == MAX_PKT_BURST && max_loops > 0`. -/
def repolls (c : LoopCfg) (nbRx : Nat) (s : LoopState) : Bool :=
  decide (c.aggressive = true ∧ nbRx = MAX_PKT_BURST ∧ 0 < s.maxLoops)

/-- The Aggressive block. -/
def accountAggressive (c : LoopCfg) (nbRx : Nat) (s : LoopState) : LoopState :=
  if repolls c nbRx s then { s with i := s.i - 1, maxLoops := s.maxLoops - 1 }
  else { s with maxLoops := QFLOW_MAX_CONSECUTIVE_POLLS }

/-- One iteration of the for loop, `++i` included. -/
def iteration (c : LoopCfg) (s : LoopState) (x : PollInput) : LoopState × PollEvent :=
  let qi := s.i - c.queueStart
  if penalised c s then ({ countSkip c s with i := s.i + 1 }, .skip s.i)
  else
    let d := injectLatency c s
    if c.mode = .shared ∧ x.lock = false then
      ({ d with i := d.i + 1 }, .busy d.i (injects c s))
    else
      let r := accountLatency c d
      let f := if r.2 then r.1 else accountAggressive c x.nbRx (accountPenalty c qi x.nbRx r.1)
      ({ f with i := f.i + 1 }, .poll d.i x.nbRx (injects c s) r.2)

/-- An iteration, or the start of the next sweep. -/
def step (c : LoopCfg) (s : LoopState) (x : PollInput) : LoopState × PollEvent :=
  if s.i < c.queueEnd then iteration c s x
  else ({ s with i := c.queueStart, maxLoops := QFLOW_MAX_CONSECUTIVE_POLLS }, .sweepEnd)

/-- The scheduler of one lcore. -/
def pollLoop (c : LoopCfg) : Machine LoopState PollInput PollEvent := ⟨step c⟩

/-! ## What an iteration can do -/

theorem repolls_budget {c : LoopCfg} {n : Nat} {s : LoopState} (h : repolls c n s = true) :
    0 < s.maxLoops := by
  simp only [repolls, decide_eq_true_eq] at h
  exact h.2.2

/-- The Latency counters after a regular poll. -/
def countPoll (c : LoopCfg) (s : LoopState) : LoopState :=
  if c.latencyOn = true ∧ s.i ≠ c.latencyQueue then
    if s.latencyCount + 1 = c.latencyPeriod then
      { s with latencyCount := 0, injectQueue := true }
    else { s with latencyCount := s.latencyCount + 1 }
  else s

/-- The Penalty counters after a regular poll of queue `s.i`. -/
def hitAfter (c : LoopCfg) (nbRx : Nat) (s : LoopState) : Int → Int :=
  if 0 < c.turns ∧ s.maxLoops = QFLOW_MAX_CONSECUTIVE_POLLS then
    Function.update s.hit (s.i - c.queueStart) (penaltyAfter c nbRx)
  else s.hit

@[simp] theorem countPoll_i (c : LoopCfg) (s : LoopState) : (countPoll c s).i = s.i := by
  unfold countPoll
  split <;> (try split) <;> rfl

@[simp] theorem countPoll_hit (c : LoopCfg) (s : LoopState) : (countPoll c s).hit = s.hit := by
  unfold countPoll
  split <;> (try split) <;> rfl

@[simp] theorem countPoll_maxLoops (c : LoopCfg) (s : LoopState) :
    (countPoll c s).maxLoops = s.maxLoops := by
  unfold countPoll
  split <;> (try split) <;> rfl

@[simp] theorem countPoll_resumeI (c : LoopCfg) (s : LoopState) :
    (countPoll c s).resumeI = s.resumeI := by
  unfold countPoll
  split <;> (try split) <;> rfl

/-- The Latency block takes a poll of the latency queue for the end of a diversion. -/
def restores (c : LoopCfg) (s : LoopState) : Bool :=
  c.latencyOn && decide (s.resumeI ≠ -1 ∧ s.i = c.latencyQueue)

/-- **The moves of the scheduler.**  `lost` leaves a resume index behind, and `stale` is a regular
    poll of the latency queue that uses one. -/
inductive LoopMove (c : LoopCfg) (s : LoopState) (x : PollInput) :
    PollEvent → LoopState → Prop where
  | sweepEnd (hend : c.queueEnd ≤ s.i) :
      LoopMove c s x .sweepEnd
        { s with i := c.queueStart, maxLoops := QFLOW_MAX_CONSECUTIVE_POLLS }
  | skip (hi : s.i < c.queueEnd) (hp : penalised c s = true) :
      LoopMove c s x (.skip s.i) { countSkip c s with i := s.i + 1 }
  | busy (hi : s.i < c.queueEnd) (hp : penalised c s = false) (hd : injects c s = false)
      (hm : c.mode = .shared) (hl : x.lock = false) :
      LoopMove c s x (.busy s.i false) { s with i := s.i + 1 }
  | lost (hi : s.i < c.queueEnd) (hp : penalised c s = false) (hd : injects c s = true)
      (hm : c.mode = .shared) (hl : x.lock = false) :
      LoopMove c s x (.busy c.latencyQueue true)
        { s with resumeI := s.i, i := c.latencyQueue + 1, injectQueue := false }
  | diverted (hi : s.i < c.queueEnd) (hp : penalised c s = false) (hd : injects c s = true)
      (hl : ¬(c.mode = .shared ∧ x.lock = false)) :
      LoopMove c s x (.poll c.latencyQueue x.nbRx true true)
        { s with injectQueue := false, resumeI := -1 }
  | stale (hi : s.i < c.queueEnd) (hp : penalised c s = false) (hd : injects c s = false)
      (hl : ¬(c.mode = .shared ∧ x.lock = false)) (hs : restores c s = true) :
      LoopMove c s x (.poll s.i x.nbRx false true) { s with i := s.resumeI, resumeI := -1 }
  | repoll (hi : s.i < c.queueEnd) (hp : penalised c s = false) (hd : injects c s = false)
      (hl : ¬(c.mode = .shared ∧ x.lock = false)) (hs : restores c s = false)
      (hr : repolls c x.nbRx s = true) :
      LoopMove c s x (.poll s.i x.nbRx false false)
        { countPoll c s with hit := hitAfter c x.nbRx s, maxLoops := s.maxLoops - 1 }
  | advance (hi : s.i < c.queueEnd) (hp : penalised c s = false) (hd : injects c s = false)
      (hl : ¬(c.mode = .shared ∧ x.lock = false)) (hs : restores c s = false)
      (hr : repolls c x.nbRx s = false) :
      LoopMove c s x (.poll s.i x.nbRx false false)
        { countPoll c s with hit := hitAfter c x.nbRx s, i := s.i + 1,
                             maxLoops := QFLOW_MAX_CONSECUTIVE_POLLS }

/-- No resume index is left over and the loop index is in the slice or at its end. -/
structure Settled (c : LoopCfg) (s : LoopState) : Prop where
  resume : s.resumeI = -1
  start_le : c.queueStart ≤ s.i
  budget : s.maxLoops ≤ QFLOW_MAX_CONSECUTIVE_POLLS

theorem LoopCfg.turns_lt (c : LoopCfg) : c.turns < 2 ^ 32 := by
  have := c.penalty.toNat_lt
  unfold LoopCfg.turns
  omega

theorem Settled.init (c : LoopCfg) : Settled c (LoopState.init c) :=
  ⟨rfl, Int.le_refl _, Nat.le_refl _⟩

theorem Settled.restores {c : LoopCfg} {s : LoopState} (h : Settled c s) :
    restores c s = false := by
  simp [PollLoop.restores, h.resume]

/-- A poll that ends no diversion leaves the Latency block through its counting branches. -/
theorem accountLatency_counts {c : LoopCfg} {s : LoopState} (hs : restores c s = false) :
    accountLatency c s = (countPoll c s, false) := by
  unfold accountLatency countPoll
  by_cases hl : c.latencyOn = true
  · by_cases hq : s.i = c.latencyQueue
    · have hr : s.resumeI = -1 := by simpa [restores, hl, hq] using hs
      simp [hl, hr, hq]
    · by_cases hc : s.latencyCount + 1 = c.latencyPeriod <;> simp [hl, hq, hc]
  · simp [hl]

theorem accountLatency_restores {c : LoopCfg} {s : LoopState} (hs : restores c s = true) :
    accountLatency c s = ({ s with i := s.resumeI - 1, resumeI := -1 }, true) := by
  obtain ⟨hl, hr, hq⟩ : c.latencyOn = true ∧ s.resumeI ≠ -1 ∧ s.i = c.latencyQueue := by
    simpa [restores] using hs
  simp [accountLatency, hl, hr, hq]

/-- A diverted poll restores the interrupted index and touches nothing else. -/
theorem accountLatency_of_inject {c : LoopCfg} {s : LoopState} (hd : injects c s = true)
    (hi : s.i ≠ -1) :
    accountLatency c (injectLatency c s) =
      ({ s with i := s.i - 1, resumeI := -1, injectQueue := false }, true) := by
  have hl : c.latencyOn = true := by
    simp only [injects, Bool.and_eq_true] at hd
    exact hd.1
  simp [injectLatency, hd, accountLatency, hl, hi]

theorem LoopCfg.hitIndex (c : LoopCfg) (i : Int) :
    (if c.mode = .partitioned then i - c.queueStart else i) = i - c.queueStart := by
  split
  · rfl
  · rename_i h
    rw [c.start_zero h, Int.sub_zero]

/-- The base-policy blocks after a regular poll of queue `s.i`. -/
theorem account_regular (c : LoopCfg) (nbRx : Nat) (s : LoopState) :
    accountAggressive c nbRx (accountPenalty c (s.i - c.queueStart) nbRx (countPoll c s)) =
      if repolls c nbRx s then
        { countPoll c s with hit := hitAfter c nbRx s, i := s.i - 1, maxLoops := s.maxLoops - 1 }
      else
        { countPoll c s with hit := hitAfter c nbRx s,
                             maxLoops := QFLOW_MAX_CONSECUTIVE_POLLS } := by
  have hidx := c.hitIndex s.i
  by_cases hp : 0 < c.turns ∧ s.maxLoops = QFLOW_MAX_CONSECUTIVE_POLLS
  · simp [accountAggressive, accountPenalty, repolls, hitAfter, hp, hidx]
  · simp [accountAggressive, accountPenalty, repolls, hitAfter, hp]

/-- **Inversion of a step**: every step is one of the moves. -/
theorem step_move {c : LoopCfg} {s : LoopState} (h : c.queueStart ≤ s.i) (x : PollInput) :
    LoopMove c s x (step c s x).2 (step c s x).1 := by
  have hne : s.i ≠ -1 := by
    have := c.start_nonneg
    omega
  unfold step
  split
  · rename_i hi
    unfold iteration
    cases hp : penalised c s with
    | true => simpa using LoopMove.skip hi hp
    | false =>
      cases hd : injects c s with
      | true =>
        by_cases hm : c.mode = .shared ∧ x.lock = false
        · simpa [hm, injectLatency, hd] using LoopMove.lost hi hp hd hm.1 hm.2
        · have hacc := accountLatency_of_inject hd hne
          have hi' : (injectLatency c s).i = c.latencyQueue := by simp [injectLatency, hd]
          simpa [hm, hacc, hi'] using LoopMove.diverted (x := x) hi hp hd hm
      | false =>
        have hdiv : injectLatency c s = s := by simp [injectLatency, hd]
        by_cases hm : c.mode = .shared ∧ x.lock = false
        · simpa [hm, hdiv] using LoopMove.busy hi hp hd hm.1 hm.2
        · cases hs : restores c s with
          | true =>
            simpa [hm, hdiv, accountLatency_restores hs] using LoopMove.stale hi hp hd hm hs
          | false =>
            have hacc := accountLatency_counts hs
            cases hr : repolls c x.nbRx s with
            | true =>
              simpa [hm, hdiv, hacc, account_regular, hr] using
                LoopMove.repoll hi hp hd hm hs hr
            | false =>
              simpa [hm, hdiv, hacc, account_regular, hr] using
                LoopMove.advance hi hp hd hm hs hr
  · rename_i hi
    exact LoopMove.sweepEnd (Int.not_lt.mp hi)

/-- The guards of the moves exclude each other. -/
theorem LoopMove.unique {c : LoopCfg} {s s₁ s₂ : LoopState} {x : PollInput} {e₁ e₂ : PollEvent}
    (h₁ : LoopMove c s x e₁ s₁) (h₂ : LoopMove c s x e₂ s₂) : e₁ = e₂ ∧ s₁ = s₂ := by
  cases h₁ <;> cases h₂ <;> first | exact ⟨rfl, rfl⟩ | omega | simp_all

theorem step_eq {c : LoopCfg} {s s' : LoopState} {x : PollInput} {e : PollEvent}
    (h : c.queueStart ≤ s.i) (hm : LoopMove c s x e s') : step c s x = (s', e) := by
  obtain ⟨he, hs⟩ := (step_move h x).unique hm
  rw [← he, ← hs]

/-- The event of a failed trylock on a diverted poll. -/
def PollEvent.isLost : PollEvent → Bool
  | .busy _ true => true
  | _ => false

def PollEvent.isPoll : PollEvent → Bool
  | .poll _ _ _ _ => true
  | _ => false

def PollEvent.isBusy : PollEvent → Bool
  | .busy _ _ => true
  | _ => false

/-- The event of a regular poll that uses a left-over resume index. -/
def PollEvent.isStale : PollEvent → Bool
  | .poll _ _ false true => true
  | _ => false

/-- Every move keeps the state settled, except a diverted poll whose trylock fails. -/
theorem LoopMove.settled {c : LoopCfg} {s s' : LoopState} {x : PollInput} {e : PollEvent}
    (hm : LoopMove c s x e s') (h : Settled c s) (he : e.isLost = false) : Settled c s' := by
  have hnot := h.restores
  obtain ⟨hr, hi, hb⟩ := h
  cases hm with
  | sweepEnd => exact ⟨hr, Int.le_refl _, Nat.le_refl _⟩
  | skip => exact ⟨hr, by simp; omega, hb⟩
  | busy => exact ⟨hr, by simp; omega, hb⟩
  | lost => cases he
  | diverted => exact ⟨rfl, hi, hb⟩
  | stale _ _ _ _ hs => rw [hnot] at hs; cases hs
  | repoll => exact ⟨by simpa using hr, by simpa using hi, by simp; omega⟩
  | advance => exact ⟨by simpa using hr, by simp; omega, Nat.le_refl _⟩

/-- Outside Shared mode no trylock is made, so none is ever lost. -/
theorem LoopMove.not_busy {c : LoopCfg} {s s' : LoopState} {x : PollInput} {e : PollEvent}
    (hm : LoopMove c s x e s') (hmode : c.mode ≠ .shared) : e.isBusy = false := by
  cases hm <;> first | rfl | contradiction

theorem PollEvent.not_lost {e : PollEvent} (h : e.isBusy = false) : e.isLost = false := by
  cases e with
  | busy => cases h
  | _ => rfl

theorem Settled.not_stale {c : LoopCfg} {s s' : LoopState} {x : PollInput} {e : PollEvent}
    (h : Settled c s) (hm : LoopMove c s x e s') : e.isStale = false := by
  cases hm with
  | stale _ _ _ _ hs => rw [h.restores] at hs; cases hs
  | _ => rfl

theorem settled_step {c : LoopCfg} (hmode : c.mode ≠ .shared) {s : LoopState} (x : PollInput)
    (h : Settled c s) : Settled c ((pollLoop c).step s x).1 :=
  (step_move h.start_le x).settled h (PollEvent.not_lost ((step_move h.start_le x).not_busy hmode))

end QueueDpdk.PollLoop
