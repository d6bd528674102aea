import QueueDpdk.PollLoop.Mica

/-!
# The Latency policy on top of a base policy

Single and Partitioned mode, where no trylock can fail, in nf-chain and in mica.

* `latency_transparent` — deleting the diverted polls from a run with Latency leaves the run of
  the base policy alone, with equal Penalty counters and equal budgets after every step.
* `latency_period_exact` — a diverted poll comes after exactly `latency_period` regular polls of
  other queues, and it is the next poll executed after them.

Both rest on `step_move`; the second on `PeriodInv`, which says what `latency_count` and
`inject_queue` remember about the run so far.
-/

set_option autoImplicit false

namespace QueueDpdk.PollLoop

open Lib

def PollEvent.isDiverted : PollEvent → Bool
  | .poll _ _ true _ => true
  | _ => false

/-! ## Transparency -/

/-- The variables of the base policy. -/
structure BaseState where
  i : Int
  maxLoops : Nat
  hit : Int → Int

def LoopState.base (s : LoopState) : BaseState := ⟨s.i, s.maxLoops, s.hit⟩

/-- A step as the base policy sees it: its event and the base variables after it. -/
def baseView (m : Move LoopState PollEvent) : PollEvent × BaseState := (m.event, m.dst.base)

/-- `t` is the state of the run without Latency that shadows `s`. -/
structure Shadows (c : LoopCfg) (s t : LoopState) : Prop where
  left : Settled c s
  right : Settled c.withoutLatency t
  base : s.base = t.base

theorem injects_withoutLatency (c : LoopCfg) (t : LoopState) :
    injects c.withoutLatency t = false := rfl

theorem countPoll_withoutLatency (c : LoopCfg) (t : LoopState) :
    countPoll c.withoutLatency t = t := by
  simp [countPoll, LoopCfg.withoutLatency, LoopCfg.latencyOn]

/-- A move that is not diverted is a move of the base policy alone, from every shadow. -/
theorem LoopMove.shadow {c : LoopCfg} {s s' t : LoopState} {x : PollInput} {e : PollEvent}
    (hm : LoopMove c s x e s') (hmode : c.mode ≠ .shared) (hset : Settled c s)
    (he : e.isDiverted = false) (hb : s.base = t.base) :
    LoopMove c.withoutLatency t x e
      { t with i := s'.i, maxLoops := s'.maxLoops, hit := s'.hit } := by
  obtain ⟨hi, hl, hh⟩ : s.i = t.i ∧ s.maxLoops = t.maxLoops ∧ s.hit = t.hit := by
    simpa [LoopState.base] using hb
  have hpen : penalised c.withoutLatency t = penalised c s := by
    simp only [penalised, hi, hh]; rfl
  have hinj := injects_withoutLatency c t
  have hres : restores c.withoutLatency t = false := rfl
  have hrep : ∀ n, repolls c.withoutLatency n t = repolls c n s := by
    intro n; simp only [repolls, hl]; rfl
  have hhit : hitAfter c.withoutLatency x.nbRx t = hitAfter c x.nbRx s := by
    simp only [hitAfter, hi, hl, hh]; rfl
  have hcount := countPoll_withoutLatency c t
  have hlock : ¬(c.withoutLatency.mode = .shared ∧ x.lock = false) := fun h => hmode h.1
  cases hm with
  | sweepEnd hend =>
    rw [hh]
    exact LoopMove.sweepEnd (c := c.withoutLatency) (hi ▸ hend)
  | skip hlt hp =>
    simpa [hi, hl, hh, countSkip, LoopCfg.withoutLatency] using
      LoopMove.skip (c := c.withoutLatency) (x := x) (hi ▸ hlt) (hpen.trans hp)
  | busy _ _ _ hsh _ => exact absurd hsh hmode
  | lost _ _ _ hsh _ => exact absurd hsh hmode
  | diverted => cases he
  | stale _ _ _ _ hs => rw [hset.restores] at hs; cases hs
  | repoll hlt hp _ _ _ hr =>
    have := LoopMove.repoll (hi ▸ hlt) (hpen.trans hp) hinj hlock hres ((hrep _).trans hr)
    simpa [hcount, hhit, hi, hl] using this
  | advance hlt hp _ _ _ hr =>
    have := LoopMove.advance (hi ▸ hlt) (hpen.trans hp) hinj hlock hres ((hrep _).trans hr)
    simpa [hcount, hhit, hi] using this

/-- A diverted poll stutters on the base variables. -/
theorem LoopMove.diverted_base {c : LoopCfg} {s s' : LoopState} {x : PollInput} {e : PollEvent}
    (hm : LoopMove c s x e s') (he : e.isDiverted = true) : s'.base = s.base := by
  cases hm <;> first | rfl | cases he

theorem Shadows.init (c : LoopCfg) :
    Shadows c (LoopState.init c) (LoopState.init c.withoutLatency) :=
  ⟨Settled.init c, Settled.init c.withoutLatency, rfl⟩

theorem Shadows.diverted {c : LoopCfg} (hmode : c.mode ≠ .shared) {s t : LoopState}
    (x : PollInput) (h : Shadows c s t) (he : ((pollLoop c).step s x).2.isDiverted = true) :
    Shadows c ((pollLoop c).step s x).1 t := by
  have hm := step_move h.left.start_le x
  exact ⟨hm.settled h.left (PollEvent.not_lost (hm.not_busy hmode)), h.right,
    (hm.diverted_base he).trans h.base⟩

theorem Shadows.regular {c : LoopCfg} (hmode : c.mode ≠ .shared) {s t : LoopState}
    (x : PollInput) (h : Shadows c s t) (he : ((pollLoop c).step s x).2.isDiverted = false) :
    baseView ((pollLoop c).move s x) = baseView ((pollLoop c.withoutLatency).move t x) ∧
      Shadows c ((pollLoop c).step s x).1 ((pollLoop c.withoutLatency).step t x).1 := by
  have hm := step_move h.left.start_le x
  have hstep := step_eq h.right.start_le (hm.shadow hmode h.left he h.base)
  have hright : Settled c.withoutLatency (step c.withoutLatency t x).1 :=
    settled_step (c := c.withoutLatency) hmode x h.right
  refine ⟨?_, hm.settled h.left (PollEvent.not_lost (hm.not_busy hmode)), hright, ?_⟩
  · simp only [baseView, Machine.move, pollLoop, hstep]; rfl
  · simp only [pollLoop, hstep]; rfl

theorem transparent_pollLoop {c : LoopCfg} (hmode : c.mode ≠ .shared) (xs : List PollInput) :
    (((pollLoop c).trace (LoopState.init c) xs).filter (fun m => !m.event.isDiverted)).map
        baseView =
      ((pollLoop c.withoutLatency).trace (LoopState.init c.withoutLatency)
        ((pollLoop c).keptInputs PollEvent.isDiverted (LoopState.init c) xs)).map baseView :=
  ((pollLoop c).run_erase (fun _ _ x h he => h.diverted hmode x he)
    (fun _ _ x h he => h.regular hmode x he) xs _ _ (Shadows.init c)).1

/-- A step of mica's loop as the base policy sees it. -/
def Mica.baseView (m : Move Mica.MicaState PollEvent) : PollEvent × BaseState :=
  (m.event, m.dst.loop.base)

theorem Mica.transparent_micaLoop {c : MicaCfg} (hmode : c.mode ≠ .shared)
    (xs : List PollInput) :
    (((micaLoop c).trace (.init c) xs).filter (fun m => !m.event.isDiverted)).map baseView =
      ((micaLoop c.withoutLatency).trace (.init c.withoutLatency)
        ((micaLoop c).keptInputs PollEvent.isDiverted (.init c) xs)).map baseView := by
  have h := transparent_pollLoop (c := c.nfChain) hmode xs
  have hwithout : c.nfChain.withoutLatency = c.withoutLatency.nfChain := rfl
  rw [hwithout, keptInputs_eq, ← trace_loop, ← trace_loop, List.filter_map, List.map_map,
    List.map_map] at h
  exact h

/-- **The Latency policy is transparent to the base policy**, in nf-chain and in mica.  Take any
    run with Latency and delete its diverted polls: what remains, event by event and with the loop
    index, the budget and the Penalty counters after each of them, is the run with Latency disabled
    on the inputs of the remaining steps. -/
theorem latency_transparent (xs : List PollInput) :
    (∀ c : LoopCfg, c.mode ≠ .shared →
      (((pollLoop c).trace (.init c) xs).filter (fun m => !m.event.isDiverted)).map baseView =
        ((pollLoop c.withoutLatency).trace (.init c.withoutLatency)
          ((pollLoop c).keptInputs PollEvent.isDiverted (.init c) xs)).map baseView) ∧
    (∀ c : Mica.MicaCfg, c.mode ≠ .shared →
      (((Mica.micaLoop c).trace (.init c) xs).filter (fun m => !m.event.isDiverted)).map
          Mica.baseView =
        ((Mica.micaLoop c.withoutLatency).trace (.init c.withoutLatency)
          ((Mica.micaLoop c).keptInputs PollEvent.isDiverted (.init c) xs)).map Mica.baseView) :=
  ⟨fun _ hmode => transparent_pollLoop hmode xs,
    fun _ hmode => Mica.transparent_micaLoop hmode xs⟩

theorem latency_transparent_allPolicies :
    let c := LoopCfg.allPolicies .single
    let m := Mica.MicaCfg.allPolicies .single
    let xs := List.replicate 7 (PollInput.mk true MAX_PKT_BURST)
    (((pollLoop c).trace (.init c) xs).filter (fun m => !m.event.isDiverted)).map baseView =
        ((pollLoop c.withoutLatency).trace (.init c.withoutLatency)
          ((pollLoop c).keptInputs PollEvent.isDiverted (.init c) xs)).map baseView ∧
      (((Mica.micaLoop m).trace (.init m) xs).filter (fun m => !m.event.isDiverted)).map
          Mica.baseView =
        ((Mica.micaLoop m.withoutLatency).trace (.init m.withoutLatency)
          ((Mica.micaLoop m).keptInputs PollEvent.isDiverted (.init m) xs)).map Mica.baseView :=
  ⟨(latency_transparent _).1 (.allPolicies .single) (by decide),
    (latency_transparent _).2 (.allPolicies .single) (by decide)⟩

/-! ## Period -/

/-- A regular poll of a queue other than `Q`. -/
def PollEvent.countsFor (Q : Int) : PollEvent → Bool
  | .poll q _ false _ => decide (q ≠ Q)
  | _ => false

/-- The regular polls of queues other than `Q` since the last diverted poll, or since the start. -/
def sinceDiverted (Q : Int) (es : List PollEvent) : Nat :=
  (es.reverse.takeWhile (fun e => !e.isDiverted)).countP (PollEvent.countsFor Q)

theorem sinceDiverted_snoc (Q : Int) (es : List PollEvent) (e : PollEvent) :
    sinceDiverted Q (es ++ [e]) =
      if e.isDiverted then 0 else sinceDiverted Q es + if e.countsFor Q then 1 else 0 := by
  unfold sinceDiverted
  rw [List.reverse_append, List.reverse_singleton, List.singleton_append]
  cases hd : e.isDiverted <;> simp [hd, List.countP_cons]

/-- What the Latency variables remember of the events so far: the count, or, once it has reached
    the period, that a diversion is due. -/
def PeriodInv (c : LoopCfg) (es : List PollEvent) (s : LoopState) : Prop :=
  if s.injectQueue then s.latencyCount = 0 ∧ (sinceDiverted c.latencyQueue es : Int) = c.latencyPeriod
  else s.latencyCount = sinceDiverted c.latencyQueue es ∧ s.latencyCount < c.latencyPeriod

theorem PeriodInv.init {c : LoopCfg} (hP : 1 ≤ c.latencyPeriod) :
    PeriodInv c [] (LoopState.init c) := by
  refine ⟨rfl, ?_⟩
  show (0 : Int) < c.latencyPeriod
  omega

/-- An event that counts for nothing and leaves the Latency variables alone. -/
theorem PeriodInv.frame {c : LoopCfg} {es : List PollEvent} {s s' : LoopState} {e : PollEvent}
    (h : PeriodInv c es s) (hi : s'.injectQueue = s.injectQueue)
    (hc : s'.latencyCount = s.latencyCount) (hd : e.isDiverted = false)
    (hn : e.countsFor c.latencyQueue = false) : PeriodInv c (es ++ [e]) s' := by
  unfold PeriodInv at h ⊢
  rw [hi, hc, sinceDiverted_snoc, hd, hn]
  simpa using h

/-- A regular poll of `s.i` counts, and the poll that completes the period makes a diversion due. -/
theorem PeriodInv.poll {c : LoopCfg} {es : List PollEvent} {s s' : LoopState} {n : Nat}
    {lp : Bool} (hon : c.latencyOn = true) (hd : injects c s = false) (h : PeriodInv c es s)
    (hi : s'.injectQueue = (countPoll c s).injectQueue)
    (hc : s'.latencyCount = (countPoll c s).latencyCount) :
    PeriodInv c (es ++ [.poll s.i n false lp]) s' := by
  have hq : s.injectQueue = false := by simpa [injects, hon] using hd
  obtain ⟨h1, h2⟩ : s.latencyCount = sinceDiverted c.latencyQueue es ∧
      s.latencyCount < c.latencyPeriod := by simpa [PeriodInv, hq] using h
  unfold PeriodInv
  rw [hi, hc, sinceDiverted_snoc]
  by_cases hQ : s.i = c.latencyQueue
  · simp [countPoll, PollEvent.isDiverted, PollEvent.countsFor, hQ, hq, h1 ▸ h2, h1]
  · by_cases hlast : s.latencyCount + 1 = c.latencyPeriod
    · simp [countPoll, PollEvent.isDiverted, PollEvent.countsFor, hQ, hon, hlast]
      omega
    · simp [countPoll, PollEvent.isDiverted, PollEvent.countsFor, hQ, hon, hlast, hq]
      omega

theorem LoopMove.period {c : LoopCfg} {es : List PollEvent} {s s' : LoopState} {x : PollInput}
    {e : PollEvent} (hm : LoopMove c s x e s') (hmode : c.mode ≠ .shared) (hset : Settled c s)
    (hP : 1 ≤ c.latencyPeriod) (hon : c.latencyOn = true) (h : PeriodInv c es s) :
    PeriodInv c (es ++ [e]) s' := by
  cases hm with
  | sweepEnd => exact h.frame rfl rfl rfl rfl
  | skip => exact h.frame rfl rfl rfl rfl
  | busy _ _ _ hsh _ => exact absurd hsh hmode
  | lost _ _ _ hsh _ => exact absurd hsh hmode
  | diverted _ _ hd =>
    have hq : s.injectQueue = true := by
      simp only [injects, Bool.and_eq_true] at hd
      exact hd.2
    have h0 : s.latencyCount = 0 := by
      unfold PeriodInv at h
      rw [hq] at h
      exact h.1
    unfold PeriodInv
    rw [sinceDiverted_snoc]
    refine ⟨h0, ?_⟩
    show s.latencyCount < c.latencyPeriod
    omega
  | stale _ _ _ _ hs => rw [hset.restores] at hs; cases hs
  | repoll _ _ hd => exact h.poll hon hd rfl rfl
  | advance _ _ hd => exact h.poll hon hd rfl rfl

/-- The Latency variables of every reachable state agree with the events so far. -/
theorem period_run {c : LoopCfg} (hmode : c.mode ≠ .shared) (hP : 1 ≤ c.latencyPeriod)
    (hon : c.latencyOn = true) (xs : List PollInput) :
    Settled c ((pollLoop c).final (LoopState.init c) xs) ∧
      PeriodInv c ((pollLoop c).events (LoopState.init c) xs)
        ((pollLoop c).final (LoopState.init c) xs) := by
  refine (pollLoop c).history_inv (H := fun tr s => Settled c s ∧ PeriodInv c (tr.map Move.event) s)
    ⟨Settled.init c, PeriodInv.init hP⟩ ?_ xs
  intro tr s x ⟨hs, hper⟩
  rw [List.map_append]
  exact ⟨settled_step hmode x hs, (step_move hs.start_le x).period hmode hs hP hon hper⟩

/-- A poll is diverted exactly when the diversion is due. -/
theorem LoopMove.isDiverted_eq {c : LoopCfg} {s s' : LoopState} {x : PollInput} {e : PollEvent}
    (hm : LoopMove c s x e s') (hp : e.isPoll = true) : e.isDiverted = injects c s := by
  cases hm with
  | diverted _ _ hd => exact hd.symm
  | stale _ _ hd => exact hd.symm
  | repoll _ _ hd => exact hd.symm
  | advance _ _ hd => exact hd.symm
  | _ => cases hp

theorem PeriodInv.injects_iff {c : LoopCfg} {es : List PollEvent} {s : LoopState}
    (hon : c.latencyOn = true) (h : PeriodInv c es s) :
    injects c s = true ↔ (sinceDiverted c.latencyQueue es : Int) = c.latencyPeriod := by
  unfold PeriodInv at h
  cases hq : s.injectQueue with
  | true =>
    rw [hq] at h
    simp [injects, hon, hq, h.2]
  | false =>
    rw [hq] at h
    obtain ⟨h1, h2⟩ : s.latencyCount = sinceDiverted c.latencyQueue es ∧
      s.latencyCount < c.latencyPeriod := h
    simp only [injects, hon, hq, Bool.and_false, Bool.false_eq_true, false_iff]
    omega

theorem LoopMove.diverted_queue {c : LoopCfg} {s s' : LoopState} {x : PollInput} {e : PollEvent}
    (hm : LoopMove c s x e s') (hd : e.isDiverted = true) :
    c.latencyOn = true ∧ ∃ n, e = .poll c.latencyQueue n true true := by
  cases hm with
  | diverted _ _ hinj =>
    simp only [injects, Bool.and_eq_true] at hinj
    exact ⟨hinj.1, _, rfl⟩
  | _ => cases hd

/-- What Latency makes of the events of an lcore that polls its queue `Q`: a diverted poll is a
    poll of `Q` after exactly `P` regular polls of other queues since the previous one (or since
    the start), and once there have been that many, the next poll is the diverted one. -/
structure PeriodExact (P Q : Int) (es : List PollEvent) : Prop where
  diverted : ∀ pre e post, es = pre ++ e :: post → e.isDiverted = true →
    (∃ n, e = .poll Q n true true) ∧ (sinceDiverted Q pre : Int) = P
  due : ∀ pre e post, es = pre ++ e :: post → e.isPoll = true → (sinceDiverted Q pre : Int) = P →
    e.isDiverted = true

section Period

variable {c : LoopCfg} (hmode : c.mode ≠ .shared) (xs : List PollInput)

include hmode in
theorem periodExact_pollLoop (hP : 1 ≤ c.latencyPeriod) (hon : c.latencyOn = true) :
    PeriodExact c.latencyPeriod c.latencyQueue ((pollLoop c).events (.init c) xs) := by
  have hcut : ∀ pre e post, (pollLoop c).events (.init c) xs = pre ++ e :: post →
      (e.isDiverted = true → (∃ n, e = .poll c.latencyQueue n true true) ∧
        (sinceDiverted c.latencyQueue pre : Int) = c.latencyPeriod) ∧
      (e.isPoll = true → (sinceDiverted c.latencyQueue pre : Int) = c.latencyPeriod →
        e.isDiverted = true) := by
    intro pre e post h
    obtain ⟨ys, x, zs, -, rfl, rfl, -⟩ := (pollLoop c).events_split_cons h
    obtain ⟨hs, hper⟩ := period_run hmode hP hon ys
    have hm := step_move hs.start_le x
    refine ⟨fun hd => ⟨(hm.diverted_queue hd).2, ?_⟩, fun hp hcount => ?_⟩
    · obtain ⟨n, hn⟩ := (hm.diverted_queue hd).2
      have hpoll : ((pollLoop c).step _ x).2.isPoll = true := congrArg PollEvent.isPoll hn
      exact (hper.injects_iff hon).mp ((hm.isDiverted_eq hpoll).symm.trans hd)
    · exact (hm.isDiverted_eq hp).trans ((hper.injects_iff hon).mpr hcount)
  exact ⟨fun pre e post h => (hcut pre e post h).1, fun pre e post h => (hcut pre e post h).2⟩

include hmode in
/-- Without the latency queue in the slice no poll is diverted. -/
theorem not_diverted_pollLoop (hQ : c.hasLatencyQueue = false) :
    ∀ e ∈ (pollLoop c).events (.init c) xs, e.isDiverted = false := by
  intro e he
  obtain ⟨m, hmem, rfl⟩ := List.mem_map.mp he
  obtain ⟨-, hinv⟩ := (pollLoop c).trace_inv (I := Settled c) (P := fun _ => True)
    (fun s x h _ => settled_step hmode x h) xs _ (Settled.init c) (by simp)
  obtain ⟨x, hx⟩ := (pollLoop c).mem_trace hmem
  have hm := step_move (hinv m hmem).1.start_le x
  by_contra hd
  rw [hx] at hd
  have hon := (hm.diverted_queue ((Bool.not_eq_false _).mp hd)).1
  simp [LoopCfg.latencyOn, hQ] at hon

end Period

/-- **The Latency period is exact**, in nf-chain and in mica.  On an lcore whose slice contains the
    latency queue the diverted polls come after exactly `latency_period` regular polls of other
    queues, in whatever sweep.  On an lcore whose slice does not contain it no poll is diverted. -/
theorem latency_period_exact (xs : List PollInput) :
    (∀ c : LoopCfg, c.mode ≠ .shared → 1 ≤ c.latencyPeriod →
      (c.latencyMode = true → c.hasLatencyQueue = true →
        PeriodExact c.latencyPeriod c.latencyQueue ((pollLoop c).events (.init c) xs)) ∧
      (c.hasLatencyQueue = false →
        ∀ e ∈ (pollLoop c).events (.init c) xs, e.isDiverted = false)) ∧
    (∀ c : Mica.MicaCfg, c.mode ≠ .shared → 1 ≤ c.latencyPeriod →
      (c.latencyMode = true → c.hasLatencyQueue = true →
        PeriodExact c.latencyPeriod c.latencyQueue ((Mica.micaLoop c).events (.init c) xs)) ∧
      (c.hasLatencyQueue = false →
        ∀ e ∈ (Mica.micaLoop c).events (.init c) xs, e.isDiverted = false)) := by
  have hnf : ∀ c : LoopCfg, c.mode ≠ .shared → 1 ≤ c.latencyPeriod →
      (c.latencyMode = true → c.hasLatencyQueue = true →
        PeriodExact c.latencyPeriod c.latencyQueue ((pollLoop c).events (.init c) xs)) ∧
      (c.hasLatencyQueue = false →
        ∀ e ∈ (pollLoop c).events (.init c) xs, e.isDiverted = false) :=
    fun c hmode hP => ⟨fun hL hQ => periodExact_pollLoop hmode xs hP (by
      simp [LoopCfg.latencyOn, hL, hQ]), not_diverted_pollLoop hmode xs⟩
  refine ⟨hnf, fun c hmode hP => ?_⟩
  have h := hnf c.nfChain hmode hP
  rw [Mica.events_eq] at h
  exact h

/-- After four full bursts of queue 1 the fifth poll is the diverted one. -/
theorem latency_period_exact_allPolicies :
    let c := LoopCfg.allPolicies .single
    let m := Mica.MicaCfg.allPolicies .single
    let xs := ⟨true, 0⟩ :: List.replicate 5 ⟨true, MAX_PKT_BURST⟩
    (pollLoop c).events (.init c) xs =
        [.poll 0 0 false false] ++ List.replicate 4 (.poll 1 MAX_PKT_BURST false false) ++
          [.poll 0 MAX_PKT_BURST true true] ∧
      PeriodExact 4 0 ((pollLoop c).events (.init c) xs) ∧
      PeriodExact 4 0 ((Mica.micaLoop m).events (.init m) xs) :=
  ⟨by decide,
    ((latency_period_exact _).1 (.allPolicies .single) (by decide) (by decide)).1 rfl (by decide),
    ((latency_period_exact _).2 (.allPolicies .single) (by decide) (by decide)).1 rfl (by decide)⟩

end QueueDpdk.PollLoop
