import QueueDpdk.PollLoop.Sched

/-!
# The scheduler of mica

`mica/main.c` holds its own copy of `poll_loop`.  Its slice is kept in two `uint16_t`, it counts
the skipped polls of Single mode, and an lcore without queues returns before the loop.

* `Mica.iteration` — the loop body of the copy, written out from `mica/main.c`.
* `Mica.step_loop` — without the skip counter a step of the copy is the step of nf-chain's
  scheduler for the same slice and options.
* `Mica.trace_loop` — the same for whole runs; `events_eq`, `stateAt_loop` and `eventAt_eq` are
  the forms in which the theorems about nf-chain's loop are carried over.
-/

set_option autoImplicit false

namespace QueueDpdk.PollLoop.Mica

open Lib

/-- What mica's `poll_loop` reads once before its loop.  `first_zero` holds for every lcore that
    gets to the loop: only Partitioned mode starts a slice elsewhere. -/
structure MicaCfg where
  mode : QflowMode
  aggressive : Bool
  penalty : UInt32
  latencyMode : Bool
  latencyPeriod : Int
  latencyQueue : Int
  firstQueue : UInt16
  lastQueue : UInt16
  first_le : firstQueue ≤ lastQueue
  first_zero : mode ≠ .partitioned → firstQueue = 0

/-- The knobs mica's `poll_loop` takes from the options, for a slice of queues. -/
def MicaCfg.ofOpts (o : QflowOpts) (firstQueue lastQueue : UInt16) (h : firstQueue ≤ lastQueue)
    (h' : o.mode ≠ .partitioned → firstQueue = 0) : MicaCfg :=
  ⟨o.mode, o.aggressive, o.penaltyKnob, o.latency, o.latencyPeriod, o.latencyQueue, firstQueue,
    lastQueue, h, h'⟩

/-- The default of two queues with all three policies on. -/
def MicaCfg.allPolicies (mode : QflowMode) : MicaCfg :=
  .ofOpts { qflowOptsInit with aggressive := true, penalty := true, latency := true, mode := mode }
    0 2 (by decide) (fun _ => rfl)

/-- `const int qi = i - first_queue` and its siblings promote the slice to `int`. -/
def MicaCfg.first (c : MicaCfg) : Int := c.firstQueue.toNat

def MicaCfg.last (c : MicaCfg) : Int := c.lastQueue.toNat

def MicaCfg.turns (c : MicaCfg) : Int := c.penalty.toNat

/-- `has_latency_queue`. -/
def MicaCfg.hasLatencyQueue (c : MicaCfg) : Bool :=
  decide (c.first ≤ c.latencyQueue ∧ c.latencyQueue < c.last)

/-- The same policy with Latency disabled. -/
def MicaCfg.withoutLatency (c : MicaCfg) : MicaCfg := { c with latencyMode := false }

/-- The variables of the loop and the global `skip_count`. -/
structure MicaState where
  i : Int
  maxLoops : Nat
  hit : Int → Int
  latencyCount : Int
  injectQueue : Bool
  resumeI : Int
  skipCount : UInt32

/-- The state in which the first sweep starts. -/
def MicaState.init (c : MicaCfg) : MicaState :=
  ⟨c.first, QFLOW_MAX_CONSECUTIVE_POLLS, fun _ => toSigned c.turns, 0, false, -1, 0⟩

/-- `(penalty > 0) && (hit[qi] < penalty)`. -/
def penalised (c : MicaCfg) (s : MicaState) (qi : Int) : Bool :=
  decide (0 < c.turns ∧ toUnsigned (s.hit qi) < c.turns)

/-- The skip of a penalised queue. -/
def skipQueue (c : MicaCfg) (s : MicaState) (qi : Int) : MicaState :=
  { s with
    hit := Function.update s.hit qi (toSigned (s.hit qi + 1))
    skipCount := if c.mode = .single then s.skipCount + 1 else s.skipCount }

/-- `latency_mode && has_latency_queue && inject_queue`. -/
def diverts (c : MicaCfg) (s : MicaState) : Bool :=
  c.latencyMode && c.hasLatencyQueue && s.injectQueue

/-- The diversion to the latency queue. -/
def divert (c : MicaCfg) (s : MicaState) : MicaState :=
  if diverts c s then { s with resumeI := s.i, i := c.latencyQueue, injectQueue := false } else s

/-- The Latency block after a poll, with the value it gives `latency_poll`. -/
def latencyBlock (c : MicaCfg) (s : MicaState) : MicaState × Bool :=
  if c.latencyMode && c.hasLatencyQueue then
    if s.resumeI ≠ -1 ∧ s.i = c.latencyQueue then
      ({ s with i := s.resumeI - 1, resumeI := -1 }, true)
    else if s.i ≠ c.latencyQueue then
      if s.latencyCount + 1 = c.latencyPeriod then
        ({ s with latencyCount := 0, injectQueue := true }, false)
      else ({ s with latencyCount := s.latencyCount + 1 }, false)
    else (s, false)
  else (s, false)

/-- The Penalty block after a regular poll. -/
def penaltyBlock (c : MicaCfg) (qi : Int) (nbRx : Nat) (s : MicaState) : MicaState :=
  if 0 < c.turns ∧ s.maxLoops = QFLOW_MAX_CONSECUTIVE_POLLS then
    { s with
      hit := Function.update s.hit (if c.mode = .partitioned then qi else s.i)
        (toSigned (c.turns * if nbRx > MAX_PKT_BURST / 2 then 1 else 0)) }
  else s

/-- The Aggressive block after a regular poll. -/
def aggressiveBlock (c : MicaCfg) (nbRx : Nat) (s : MicaState) : MicaState :=
  if c.aggressive = true ∧ nbRx = MAX_PKT_BURST ∧ 0 < s.maxLoops then
    { s with i := s.i - 1, maxLoops := s.maxLoops - 1 }
  else { s with maxLoops := QFLOW_MAX_CONSECUTIVE_POLLS }

/-- One iteration of the for loop, `++i` included. -/
def iteration (c : MicaCfg) (s : MicaState) (x : PollInput) : MicaState × PollEvent :=
  let qi := s.i - c.first
  if penalised c s qi then ({ skipQueue c s qi with i := s.i + 1 }, .skip s.i)
  else
    let d := divert c s
    if c.mode = .shared ∧ x.lock = false then ({ d with i := d.i + 1 }, .busy d.i (diverts c s))
    else
      let l := latencyBlock c d
      let f := if l.2 then l.1 else aggressiveBlock c x.nbRx (penaltyBlock c qi x.nbRx l.1)
      ({ f with i := f.i + 1 }, .poll d.i x.nbRx (diverts c s) l.2)

/-- An iteration, or the start of the next sweep. -/
def step (c : MicaCfg) (s : MicaState) (x : PollInput) : MicaState × PollEvent :=
  if s.i < c.last then iteration c s x
  else ({ s with i := c.first, maxLoops := QFLOW_MAX_CONSECUTIVE_POLLS }, .sweepEnd)

/-- The scheduler of one lcore of mica. -/
def micaLoop (c : MicaCfg) : Machine MicaState PollInput PollEvent := ⟨step c⟩

/-! ## The two copies -/

/-- nf-chain's configuration with the same slice and options. -/
def MicaCfg.nfChain (c : MicaCfg) : LoopCfg where
  mode := c.mode
  aggressive := c.aggressive
  penalty := c.penalty
  latencyMode := c.latencyMode
  latencyPeriod := c.latencyPeriod
  latencyQueue := c.latencyQueue
  queueStart := c.first
  queueEnd := c.last
  start_nonneg := Int.natCast_nonneg _
  start_zero := fun h => by rw [MicaCfg.first, c.first_zero h]; rfl

/-- The state without the skip counter. -/
def MicaState.loop (s : MicaState) : LoopState :=
  ⟨s.i, s.maxLoops, s.hit, s.latencyCount, s.injectQueue, s.resumeI⟩

theorem init_loop (c : MicaCfg) : (MicaState.init c).loop = LoopState.init c.nfChain := by
  simp only [MicaState.init, LoopState.init, MicaState.loop, MicaCfg.turns, LoopCfg.turns,
    MicaCfg.nfChain]

theorem divert_loop (c : MicaCfg) (s : MicaState) :
    injectLatency c.nfChain s.loop = (divert c s).loop := by
  have hinj : injects c.nfChain s.loop = diverts c s := rfl
  unfold injectLatency divert
  rw [hinj]
  split <;> rfl

theorem latencyBlock_loop (c : MicaCfg) (s : MicaState) :
    accountLatency c.nfChain s.loop = ((latencyBlock c s).1.loop, (latencyBlock c s).2) := by
  have hon : c.nfChain.latencyOn = (c.latencyMode && c.hasLatencyQueue) := rfl
  have hq : c.nfChain.latencyQueue = c.latencyQueue := rfl
  have hp : c.nfChain.latencyPeriod = c.latencyPeriod := rfl
  unfold accountLatency latencyBlock
  simp only [hon, hq, hp, MicaState.loop]
  split
  · split
    · rfl
    · split
      · split <;> rfl
      · rfl
  · rfl

theorem penaltyBlock_loop (c : MicaCfg) (qi : Int) (nbRx : Nat) (s : MicaState) :
    accountPenalty c.nfChain qi nbRx s.loop = (penaltyBlock c qi nbRx s).loop := by
  have ht : c.nfChain.turns = c.turns := rfl
  have hm : c.nfChain.mode = c.mode := rfl
  unfold accountPenalty penaltyBlock
  simp only [penaltyAfter, ht, hm, MicaState.loop]
  split <;> rfl

theorem aggressiveBlock_loop (c : MicaCfg) (nbRx : Nat) (s : MicaState) :
    accountAggressive c.nfChain nbRx s.loop = (aggressiveBlock c nbRx s).loop := by
  have ha : c.nfChain.aggressive = c.aggressive := rfl
  unfold accountAggressive aggressiveBlock
  simp only [repolls, ha, MicaState.loop, decide_eq_true_eq]
  split <;> rfl

/-- **A step of the copy is the step of the original.** -/
theorem step_loop (c : MicaCfg) (s : MicaState) (x : PollInput) :
    PollLoop.step c.nfChain s.loop x = ((step c s x).1.loop, (step c s x).2) := by
  have hpen : PollLoop.penalised c.nfChain s.loop = penalised c s (s.i - c.first) := rfl
  have hm : c.nfChain.mode = c.mode := rfl
  have hi : s.loop.i - c.nfChain.queueStart = s.i - c.first := rfl
  unfold PollLoop.step step
  split
  · rename_i hlt
    rw [if_pos (show s.i < c.last from hlt)]
    unfold PollLoop.iteration iteration
    simp only [hpen, hm, hi, divert_loop, latencyBlock_loop, penaltyBlock_loop,
      aggressiveBlock_loop]
    split
    · rfl
    · split
      · rfl
      · split <;> rfl
  · rename_i hge
    rw [if_neg (show ¬s.i < c.last from hge)]
    rfl

/-- **The two programs run one scheduler**: the run of mica's loop, its skip counter aside, is the
    run of nf-chain's loop on the same inputs. -/
theorem trace_loop (c : MicaCfg) (xs : List PollInput) :
    ((micaLoop c).trace (MicaState.init c) xs).map (Move.map MicaState.loop id) =
      (pollLoop c.nfChain).trace (LoopState.init c.nfChain) xs := by
  rw [← init_loop]
  refine (micaLoop c).trace_map (I := fun _ => True) (P := fun _ => True) ?_ xs _ trivial
    (fun _ _ => trivial)
  intro s x _ _
  exact ⟨trivial, step_loop c s x⟩

theorem events_eq (c : MicaCfg) (xs : List PollInput) :
    (pollLoop c.nfChain).events (LoopState.init c.nfChain) xs =
      (micaLoop c).events (MicaState.init c) xs := by
  unfold Machine.events
  rw [← trace_loop, List.map_map]
  rfl

theorem keptInputs_eq (c : MicaCfg) (drop : PollEvent → Bool) (xs : List PollInput) :
    (pollLoop c.nfChain).keptInputs drop (LoopState.init c.nfChain) xs =
      (micaLoop c).keptInputs drop (MicaState.init c) xs := by
  rw [← init_loop]
  exact (micaLoop c).keptInputs_map (step_loop c) xs _

/-- The same for infinite runs. -/
theorem stateAt_loop (c : MicaCfg) (x : ℕ → PollInput) (t : ℕ) :
    (pollLoop c.nfChain).stateAt (LoopState.init c.nfChain) x t =
      ((micaLoop c).stateAt (MicaState.init c) x t).loop := by
  induction t with
  | zero => exact (init_loop c).symm
  | succ t ih =>
    rw [Machine.stateAt_succ, Machine.stateAt_succ, ih]
    exact congrArg Prod.fst (step_loop c _ (x t))

theorem eventAt_eq (c : MicaCfg) (x : ℕ → PollInput) (t : ℕ) :
    (pollLoop c.nfChain).eventAt (LoopState.init c.nfChain) x t =
      (micaLoop c).eventAt (MicaState.init c) x t := by
  unfold Machine.eventAt
  rw [stateAt_loop]
  exact congrArg Prod.snd (step_loop c _ (x t))

end QueueDpdk.PollLoop.Mica
