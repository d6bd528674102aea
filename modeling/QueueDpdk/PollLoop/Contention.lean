import QueueDpdk.PollLoop.Mica
import QueueDpdk.PollLoop.Sweep

/-!
# Shared mode under lock contention

Any number of lcores poll all queues, in any order of turns, and every `rte_spinlock_trylock` has
an arbitrary outcome.  What one lcore does is a run of `pollLoop` (`Machine.fleet_trace`), so the
results are about its part of the interleaving; an lcore of mica does the same
(`Mica.lcoreTrace_eq`).

* `contention_sweep` — with Latency, a sweep stays intact exactly when every failed trylock on a
  diverted poll is harmless (`LossesHarmless`): the `continue` that leaves the loop body lies
  between saving `resume_i` and restoring it, so it returns to the interrupted queue only if that
  queue is the successor of the latency queue, and the saved index must not be used by a regular
  poll before the next diversion overwrites it.
* `contention_budget` — without Latency, every first poll of a queue has the full budget exactly
  when no poll follows a lost re-poll in its sweep (`RunsComplete`): `max_loops` is reset only
  where a poll completes, so a lock lost in the middle of an aggressive run hands the rest of its
  budget to the next queue.
-/

set_option autoImplicit false

namespace QueueDpdk.PollLoop

open Lib

/-- The moves of lcore `k` in an interleaving of lcores that run the same loop. -/
def lcoreTrace (c : LoopCfg) {κ : Type} [DecidableEq κ] (k : κ) (xs : List (κ × PollInput)) :
    List (Move LoopState PollEvent) :=
  ((Machine.fleet (fun _ : κ => pollLoop c)).trace (fun _ => LoopState.init c) xs).filterMap
    (Machine.seenBy k)

theorem lcoreTrace_eq (c : LoopCfg) {κ : Type} [DecidableEq κ] (k : κ)
    (xs : List (κ × PollInput)) :
    lcoreTrace c k xs = (pollLoop c).trace (LoopState.init c) (Machine.inputsOf k xs) :=
  Machine.fleet_trace (fun _ : κ => pollLoop c) k xs _

/-- The moves of lcore `k` in an interleaving of lcores that run mica's loop. -/
def Mica.lcoreTrace (c : Mica.MicaCfg) {κ : Type} [DecidableEq κ] (k : κ)
    (xs : List (κ × PollInput)) : List (Move LoopState PollEvent) :=
  (((Machine.fleet (fun _ : κ => micaLoop c)).trace (fun _ => .init c) xs).filterMap
    (Machine.seenBy k)).map (Move.map MicaState.loop id)

theorem Mica.lcoreTrace_eq (c : Mica.MicaCfg) {κ : Type} [DecidableEq κ] (k : κ)
    (xs : List (κ × PollInput)) :
    Mica.lcoreTrace c k xs = PollLoop.lcoreTrace c.nfChain k xs := by
  rw [PollLoop.lcoreTrace_eq, Mica.lcoreTrace, Machine.fleet_trace, trace_loop]

/-! ## Latency -/

/-- The event is a diversion, whether its trylock succeeds or not. -/
def PollEvent.isDiversion : PollEvent → Bool
  | .busy _ d => d
  | .poll _ _ d _ => d
  | _ => false

/-- A regular poll of queue `Q`. -/
def PollEvent.isRegularPollOf (Q : Int) : PollEvent → Bool
  | .poll q _ false _ => decide (q = Q)
  | _ => false

/-- What a move does to the loop index when nothing disturbs the sweep: a diversion returns to the
    interrupted queue, an aggressive re-poll stays, every other visit goes on to the next queue;
    and a regular poll uses no saved resume index. -/
def MoveIntact (c : LoopCfg) (m : Move LoopState PollEvent) : Prop :=
  match m.event with
  | .sweepEnd => c.queueEnd ≤ m.src.i ∧ m.dst.i = c.queueStart
  | .skip q => q = m.src.i ∧ m.dst.i = q + 1
  | .busy q false => q = m.src.i ∧ m.dst.i = q + 1
  | .busy q true => q = c.latencyQueue ∧ m.dst.i = m.src.i
  | .poll q _ true _ => q = c.latencyQueue ∧ m.dst.i = m.src.i
  | .poll q n false latencyPoll =>
    q = m.src.i ∧ latencyPoll = false ∧ m.dst.i = if repolls c n m.src then q else q + 1

/-- An lcore's sweeps are intact: every move is, and no sweep goes on for ever. -/
structure SweepIntact (c : LoopCfg) (tr : List (Move LoopState PollEvent)) : Prop where
  moves : ∀ m ∈ tr, MoveIntact c m
  ends : ∀ a w b, tr = a ++ w ++ b → (∀ m ∈ w, m.event.isSweepEnd = false) →
    w.length ≤ sweepBound c

/-- Every failed trylock on a diverted poll interrupted the successor of the latency queue, and the
    latency queue gets no regular poll before the next diversion. -/
def LossesHarmless (c : LoopCfg) (tr : List (Move LoopState PollEvent)) : Prop :=
  ∀ pre m post, tr = pre ++ m :: post → m.event.isLost = true →
    m.src.i = c.latencyQueue + 1 ∧
    ∀ m' ∈ post.takeWhile (fun m => !m.event.isDiversion),
      m'.event.isRegularPollOf c.latencyQueue = false

/-- What holds in every reachable state, contention or not. -/
structure InRange (c : LoopCfg) (s : LoopState) : Prop where
  start_le : c.queueStart ≤ s.i
  resume : s.resumeI ≠ -1 → c.queueStart ≤ s.resumeI ∧ c.latencyOn = true
  budget : s.maxLoops ≤ QFLOW_MAX_CONSECUTIVE_POLLS

theorem InRange.init (c : LoopCfg) : InRange c (LoopState.init c) :=
  ⟨Int.le_refl _, fun h => absurd rfl h, Nat.le_refl _⟩

theorem latencyOn_of_injects {c : LoopCfg} {s : LoopState} (hd : injects c s = true) :
    c.latencyOn = true ∧ c.queueStart ≤ c.latencyQueue := by
  simp only [injects, LoopCfg.latencyOn, LoopCfg.hasLatencyQueue, Bool.and_eq_true,
    decide_eq_true_eq] at hd ⊢
  exact ⟨⟨hd.1.1, hd.1.2⟩, hd.1.2.1⟩

theorem LoopMove.inRange {c : LoopCfg} {s s' : LoopState} {x : PollInput} {e : PollEvent}
    (hm : LoopMove c s x e s') (h : InRange c s) : InRange c s' := by
  obtain ⟨hi, hr, hb⟩ := h
  cases hm with
  | sweepEnd => exact ⟨Int.le_refl _, hr, Nat.le_refl _⟩
  | skip => exact ⟨by show c.queueStart ≤ s.i + 1; omega, hr, hb⟩
  | busy => exact ⟨by show c.queueStart ≤ s.i + 1; omega, hr, hb⟩
  | lost _ _ hd =>
    obtain ⟨hon, hQ⟩ := latencyOn_of_injects hd
    exact ⟨by show c.queueStart ≤ c.latencyQueue + 1; omega, fun _ => ⟨hi, hon⟩, hb⟩
  | diverted => exact ⟨hi, fun h => absurd rfl h, hb⟩
  | stale _ _ _ _ hs =>
    have hne : s.resumeI ≠ -1 := by
      simp only [restores, Bool.and_eq_true, decide_eq_true_eq] at hs
      exact hs.2.1
    exact ⟨(hr hne).1, fun h => absurd rfl h, hb⟩
  | repoll =>
    refine ⟨by simpa using hi, by simpa using hr, ?_⟩
    show s.maxLoops - 1 ≤ QFLOW_MAX_CONSECUTIVE_POLLS
    omega
  | advance =>
    refine ⟨?_, by simpa using hr, Nat.le_refl _⟩
    show c.queueStart ≤ s.i + 1
    omega

theorem inRange_step {c : LoopCfg} {s : LoopState} (x : PollInput) (h : InRange c s) :
    InRange c ((pollLoop c).step s x).1 :=
  (step_move h.start_le x).inRange h

/-- A move that is not intact lost the lock of a diverted poll or used a left-over index. -/
theorem LoopMove.intact {c : LoopCfg} {s s' : LoopState} {x : PollInput} {e : PollEvent}
    (hm : LoopMove c s x e s') (hl : e.isLost = true → s.i = c.latencyQueue + 1)
    (hs : restores c s = true → e.isRegularPollOf c.latencyQueue = false) :
    MoveIntact c ⟨s, e, s'⟩ := by
  cases hm with
  | sweepEnd hend => exact ⟨hend, rfl⟩
  | skip => exact ⟨rfl, rfl⟩
  | busy => exact ⟨rfl, rfl⟩
  | lost => exact ⟨rfl, (hl rfl).symm⟩
  | diverted => exact ⟨rfl, rfl⟩
  | stale _ _ _ _ hst =>
    have hQ : s.i = c.latencyQueue := by
      simp only [restores, Bool.and_eq_true, decide_eq_true_eq] at hst
      exact hst.2.2
    have := hs hst
    simp [PollEvent.isRegularPollOf, hQ] at this
  | repoll _ _ _ _ _ hr => exact ⟨rfl, rfl, by rw [if_pos hr]; exact countPoll_i c s⟩
  | advance _ _ _ _ _ hr => exact ⟨rfl, rfl, by rw [hr]; rfl⟩

/-- The last diversion of the trace was lost. -/
def LeftOver (tr : List (Move LoopState PollEvent)) : Prop :=
  ∃ a m b, tr = a ++ m :: b ∧ m.event.isLost = true ∧ ∀ m' ∈ b, m'.event.isDiversion = false

theorem LeftOver.snoc {tr : List (Move LoopState PollEvent)} (h : LeftOver tr)
    {m : Move LoopState PollEvent} (hm : m.event.isDiversion = false) : LeftOver (tr ++ [m]) := by
  obtain ⟨a, m₀, b, rfl, hlost, hb⟩ := h
  refine ⟨a, m₀, b ++ [m], by simp, hlost, ?_⟩
  intro m' hm'
  rcases List.mem_append.mp hm' with h | h
  · exact hb m' h
  · rw [List.mem_singleton.mp h]
    exact hm

/-- A resume index is left over only by a lost diversion. -/
theorem leftOver_run {c : LoopCfg} (xs : List PollInput) :
    InRange c ((pollLoop c).final (LoopState.init c) xs) ∧
      (((pollLoop c).final (LoopState.init c) xs).resumeI ≠ -1 →
        LeftOver ((pollLoop c).trace (LoopState.init c) xs)) := by
  refine (pollLoop c).history_inv (H := fun tr s => InRange c s ∧ (s.resumeI ≠ -1 → LeftOver tr))
    ⟨InRange.init c, fun h => absurd rfl h⟩ ?_ xs
  rintro tr s x ⟨hin, hleft⟩
  refine ⟨inRange_step x hin, ?_⟩
  have hm := step_move hin.start_le x
  show (step c s x).1.resumeI ≠ -1 → LeftOver (tr ++ [⟨s, (step c s x).2, (step c s x).1⟩])
  generalize (step c s x).2 = e at hm ⊢
  generalize (step c s x).1 = s' at hm ⊢
  intro hne
  cases hm with
  | lost => exact ⟨tr, _, [], rfl, rfl, by simp⟩
  | diverted => exact absurd rfl hne
  | stale => exact absurd rfl hne
  | sweepEnd => exact (hleft hne).snoc rfl
  | skip => exact (hleft hne).snoc rfl
  | busy => exact (hleft hne).snoc rfl
  | repoll => exact (hleft (by simpa using hne)).snoc rfl
  | advance => exact (hleft (by simpa using hne)).snoc rfl

theorem MoveIntact.not_stale {c : LoopCfg} {m : Move LoopState PollEvent} (h : MoveIntact c m) :
    m.event.isStale = false := by
  obtain ⟨s, e, s'⟩ := m
  cases e with
  | poll q n d latencyPoll =>
    cases d with
    | true => rfl
    | false =>
      obtain ⟨-, hlp, -⟩ := h
      rw [hlp]
      rfl
  | _ => rfl

theorem MoveIntact.back {c : LoopCfg} {m : Move LoopState PollEvent} (h : MoveIntact c m)
    (hl : m.event.isLost = true) : m.dst.i = m.src.i := by
  obtain ⟨s, e, s'⟩ := m
  cases e with
  | busy q d =>
    cases d with
    | true => exact h.2
    | false => cases hl
  | _ => cases hl

theorem PollEvent.not_regular {e : PollEvent} (hd : e.isDiversion = true) (Q : Int) :
    e.isRegularPollOf Q = false := by
  cases e with
  | poll q n d latencyPoll => rw [show d = true from hd]; rfl
  | _ => rfl

/-- A lost diversion goes on behind the latency queue and leaves its resume index over. -/
theorem LoopMove.lost_inv {c : LoopCfg} {s s' : LoopState} {x : PollInput} {e : PollEvent}
    (hm : LoopMove c s x e s') (hin : InRange c s) (hl : e.isLost = true) :
    s'.i = c.latencyQueue + 1 ∧ s'.resumeI ≠ -1 := by
  cases hm with
  | lost =>
    refine ⟨rfl, ?_⟩
    have h0 := c.start_nonneg
    have h1 := hin.start_le
    show s.i ≠ -1
    omega
  | _ => cases hl

/-- While a resume index is left over, an intact run does not poll the latency queue. -/
theorem LoopMove.keeps_leftOver {c : LoopCfg} {s s' : LoopState} {x : PollInput} {e : PollEvent}
    (hm : LoopMove c s x e s') (hin : InRange c s) (hne : s.resumeI ≠ -1)
    (hd : e.isDiversion = false) (hs : e.isStale = false) :
    e.isRegularPollOf c.latencyQueue = false ∧ s'.resumeI ≠ -1 := by
  have hqueue : restores c s = false → s.i ≠ c.latencyQueue := by
    intro hres hQ
    simp [restores, (hin.resume hne).2, hne, hQ] at hres
  cases hm with
  | sweepEnd => exact ⟨rfl, hne⟩
  | skip => exact ⟨rfl, hne⟩
  | busy => exact ⟨rfl, hne⟩
  | lost => cases hd
  | diverted => cases hd
  | stale => cases hs
  | repoll _ _ _ _ hres => exact ⟨decide_eq_false (hqueue hres), by simpa using hne⟩
  | advance _ _ _ _ hres => exact ⟨decide_eq_false (hqueue hres), by simpa using hne⟩

theorem leftOver_unused {c : LoopCfg} :
    ∀ (xs : List PollInput) (s : LoopState), InRange c s → s.resumeI ≠ -1 →
      (∀ m ∈ (pollLoop c).trace s xs, m.event.isStale = false) →
      ∀ m ∈ ((pollLoop c).trace s xs).takeWhile (fun m => !m.event.isDiversion),
        m.event.isRegularPollOf c.latencyQueue = false := by
  intro xs
  induction xs with
  | nil => intro s _ _ _ m hm; cases hm
  | cons x xs ih =>
    intro s hin hne hstale m hmem
    rw [Machine.trace_cons, List.takeWhile_cons] at hmem
    split at hmem
    · rename_i hd
      have hd' : ((pollLoop c).step s x).2.isDiversion = false := (Bool.not_eq_true' _).mp hd
      have hs := hstale _ List.mem_cons_self
      obtain ⟨hpoll, hnext⟩ := (step_move hin.start_le x).keeps_leftOver hin hne hd' hs
      rcases List.mem_cons.mp hmem with rfl | hrest
      · exact hpoll
      · exact ih _ (inRange_step x hin) hnext
          (fun m' hm' => hstale m' (List.mem_cons_of_mem _ hm')) m hrest
    · cases hmem

section Runs

variable {c : LoopCfg} (xs : List PollInput)

theorem moves_intact_of_harmless
    (h : LossesHarmless c ((pollLoop c).trace (LoopState.init c) xs)) :
    ∀ m ∈ (pollLoop c).trace (LoopState.init c) xs, MoveIntact c m := by
  intro m hm
  obtain ⟨pre, post, hsplit⟩ := List.append_of_mem hm
  obtain ⟨ys, x, zs, -, rfl, hmove, -⟩ := (pollLoop c).trace_split_cons hsplit
  obtain ⟨hin, hleft⟩ := leftOver_run (c := c) ys
  have hstep := step_move hin.start_le x
  rw [hmove]
  refine hstep.intact ?_ ?_
  · intro hl
    rw [hmove] at hsplit
    exact (h _ _ _ hsplit hl).1
  · intro hres
    have hne : ((pollLoop c).final (LoopState.init c) ys).resumeI ≠ -1 := by
      simp only [restores, Bool.and_eq_true, decide_eq_true_eq] at hres
      exact hres.2.1
    by_cases hd : ((pollLoop c).step ((pollLoop c).final (LoopState.init c) ys) x).2.isDiversion
    · exact PollEvent.not_regular hd c.latencyQueue
    · -- the lost diversion that left the index over covers this poll
      obtain ⟨a, m₀, b, hpre, hlost, hb⟩ := hleft hne
      rw [hpre, hmove, List.append_assoc, List.cons_append] at hsplit
      refine (h a m₀ _ hsplit hlost).2 ((pollLoop c).move _ x) ?_
      rw [List.takeWhile_append_of_pos (by simpa using hb), List.takeWhile_cons_of_pos]
      · simp [Machine.move]
      · simpa [Machine.move] using hd

theorem sweep_length_le (hint : ∀ m ∈ (pollLoop c).trace (LoopState.init c) xs, MoveIntact c m)
    {a w b : List (Move LoopState PollEvent)}
    (hsplit : (pollLoop c).trace (LoopState.init c) xs = a ++ w ++ b)
    (hw : ∀ m ∈ w, m.event.isSweepEnd = false) : w.length ≤ sweepBound c := by
  have hmem : ∀ m ∈ w, m ∈ (pollLoop c).trace (LoopState.init c) xs := by
    intro m hm
    rw [hsplit]
    exact List.mem_append_left _ (List.mem_append_right _ hm)
  obtain ⟨hfin, hall⟩ := (pollLoop c).trace_inv (I := InRange c) (P := fun _ => True)
    (fun s x h _ => inRange_step x h) xs _ (InRange.init c) (by simp)
  rw [List.append_assoc] at hsplit
  obtain ⟨ys, zs, rfl, -, hrest⟩ := (pollLoop c).trace_split hsplit
  obtain ⟨us, vs, rfl, rfl, -⟩ := (pollLoop c).trace_split hrest.symm
  have hstart := (pollLoop c).final_inv (fun s x h => inRange_step x h) ys (InRange.init c)
  have hlen := (pollLoop c).length_le_of_measure (sweepMeasure c) us _ (fun m hm => by
    obtain ⟨x, hx⟩ := (pollLoop c).mem_trace hm
    have hin := (hall m (hmem m hm)).1
    have hok := hint m (hmem m hm)
    have hend := hw m hm
    rw [hx] at hok hend ⊢
    exact (step_move hin.start_le x).measure_lt hin.budget hend hok.not_stale hok.back)
  rw [Machine.length_trace]
  exact Nat.le_trans hlen (sweepMeasure_le hstart.start_le hstart.budget)

theorem harmless_of_intact
    (h : ∀ m ∈ (pollLoop c).trace (LoopState.init c) xs, MoveIntact c m) :
    LossesHarmless c ((pollLoop c).trace (LoopState.init c) xs) := by
  intro pre m post hsplit hlost
  have hmem : m ∈ (pollLoop c).trace (LoopState.init c) xs := by
    rw [hsplit]
    exact List.mem_append_right _ List.mem_cons_self
  obtain ⟨ys, x, zs, rfl, -, rfl, rfl⟩ := (pollLoop c).trace_split_cons hsplit
  have hin := (leftOver_run (c := c) ys).1
  obtain ⟨hnext, hne⟩ := (step_move hin.start_le x).lost_inv hin hlost
  refine ⟨((h _ hmem).back hlost).symm.trans hnext, ?_⟩
  refine leftOver_unused zs _ (inRange_step x hin) hne (fun m hm => ?_)
  refine (h m ?_).not_stale
  rw [hsplit]
  exact List.mem_append_right _ (List.mem_cons_of_mem _ hm)

end Runs

theorem sweepIntact_iff {c : LoopCfg} {κ : Type} [DecidableEq κ] (k : κ)
    (xs : List (κ × PollInput)) :
    SweepIntact c (lcoreTrace c k xs) ↔ LossesHarmless c (lcoreTrace c k xs) := by
  rw [lcoreTrace_eq]
  constructor
  · intro h
    exact harmless_of_intact _ h.moves
  · intro h
    have hmoves := moves_intact_of_harmless _ h
    exact ⟨hmoves, fun a w b hsplit hw => sweep_length_le _ hmoves hsplit hw⟩

/-- **Latency under contention**, in nf-chain and in mica.  In every interleaving and for every
    outcome of the trylocks, the sweeps of an lcore are intact if and only if its lost diversions
    are harmless. -/
theorem contention_sweep {κ : Type} [DecidableEq κ] (k : κ) (xs : List (κ × PollInput)) :
    (∀ c : LoopCfg, SweepIntact c (lcoreTrace c k xs) ↔ LossesHarmless c (lcoreTrace c k xs)) ∧
    (∀ c : Mica.MicaCfg, SweepIntact c.nfChain (Mica.lcoreTrace c k xs) ↔
      LossesHarmless c.nfChain (Mica.lcoreTrace c k xs)) := by
  refine ⟨fun c => sweepIntact_iff k xs, fun c => ?_⟩
  rw [Mica.lcoreTrace_eq]
  exact sweepIntact_iff k xs

/-- Two queues, latency queue 0, period 1: after the first sweep of lcore 0 a diversion is due.
    Lcore 1 holds the lock of queue 0, and lcore 0 goes on at queue 1 without ever polling the
    interrupted queue 0 in that sweep. -/
theorem contention_skips_queue :
    let c := LoopCfg.ofOpts
      { qflowOptsInit with latency := true, latencyPeriod := 1, mode := .shared } 0 2 (by decide)
      (fun _ => rfl)
    let xs : List (Fin 2 × PollInput) :=
      [(0, ⟨true, 0⟩), (0, ⟨true, 0⟩), (0, ⟨true, 0⟩), (1, ⟨true, 0⟩), (0, ⟨false, 0⟩)]
    ¬SweepIntact c (lcoreTrace c 0 xs) := by
  intro c xs h
  have hm := h.moves _ (List.mem_of_getElem? (i := 3) rfl)
  have hback : (1 : Int) = 0 := hm.2
  omega

/-! ## Aggressive runs and Penalty -/

/-- The polls of `q` since the last end of a sweep. -/
def pollsThisSweep (q : Int) (tr : List (Move LoopState PollEvent)) : Nat :=
  (tr.reverse.takeWhile (fun m => !m.event.isSweepEnd)).countP (fun m => m.event.isRegularPollOf q)

theorem pollsThisSweep_snoc (q : Int) (tr : List (Move LoopState PollEvent))
    (m : Move LoopState PollEvent) :
    pollsThisSweep q (tr ++ [m]) =
      if m.event.isSweepEnd then 0
      else pollsThisSweep q tr + if m.event.isRegularPollOf q then 1 else 0 := by
  unfold pollsThisSweep
  rw [List.reverse_append, List.reverse_singleton, List.singleton_append]
  cases hd : m.event.isSweepEnd <;> simp [hd, List.countP_cons]

/-- A poll has the budget its run has left: the full one if it is the first poll of its queue in the
    sweep, one less for every poll before it.  It is followed by a re-poll as long as bursts are
    full and budget is left, and a first poll sets the Penalty counter to `N` or 0. -/
structure PollFull (c : LoopCfg) (pre : List (Move LoopState PollEvent))
    (m : Move LoopState PollEvent) (q : Int) (n : Nat) : Prop where
  budget : m.src.maxLoops + pollsThisSweep q pre = QFLOW_MAX_CONSECUTIVE_POLLS
  repoll : m.dst.i = q ↔ c.aggressive = true ∧ n = MAX_PKT_BURST ∧
    pollsThisSweep q pre < QFLOW_MAX_CONSECUTIVE_POLLS
  counter : pollsThisSweep q pre = 0 → 0 < c.turns →
    m.dst.hit (q - c.queueStart) = toSigned (if n > MAX_PKT_BURST / 2 then c.turns else 0)

/-- Every poll of the trace has the budget its run has left. -/
def RunsFull (c : LoopCfg) (tr : List (Move LoopState PollEvent)) : Prop :=
  ∀ pre m post, tr = pre ++ m :: post → ∀ q n d lp, m.event = .poll q n d lp → PollFull c pre m q n

/-- After a failed trylock in the middle of a run, the sweep polls nothing any more. -/
def RunsComplete (tr : List (Move LoopState PollEvent)) : Prop :=
  ∀ pre m post, tr = pre ++ m :: post → ∀ q d, m.event = .busy q d → 0 < pollsThisSweep q pre →
    ∀ m' ∈ post.takeWhile (fun m => !m.event.isSweepEnd), m'.event.isPoll = false

/-- In this sweep the lock of a re-poll was lost. -/
def LostRun (tr : List (Move LoopState PollEvent)) : Prop :=
  ∃ a m b q d, tr = a ++ m :: b ∧ m.event = .busy q d ∧ 0 < pollsThisSweep q a ∧
    ∀ m' ∈ b, m'.event.isSweepEnd = false

theorem LostRun.snoc {tr : List (Move LoopState PollEvent)} (h : LostRun tr)
    {m : Move LoopState PollEvent} (hm : m.event.isSweepEnd = false) : LostRun (tr ++ [m]) := by
  obtain ⟨a, m₀, b, q, d, rfl, hev, hpos, hb⟩ := h
  refine ⟨a, m₀, b ++ [m], q, d, by simp, hev, hpos, ?_⟩
  intro m' hm'
  rcases List.mem_append.mp hm' with h | h
  · exact hb m' h
  · rw [List.mem_singleton.mp h]
    exact hm

theorem injects_of_no_latency {c : LoopCfg} (hlat : c.latencyMode = false) (s : LoopState) :
    injects c s = false := by
  simp [injects, LoopCfg.latencyOn, hlat]

theorem restores_of_no_latency {c : LoopCfg} (hlat : c.latencyMode = false) (s : LoopState) :
    restores c s = false := by
  simp [restores, LoopCfg.latencyOn, hlat]

theorem LoopMove.not_lost_of_no_latency {c : LoopCfg} (hlat : c.latencyMode = false)
    {s s' : LoopState} {x : PollInput} {e : PollEvent} (hm : LoopMove c s x e s') :
    e.isLost = false := by
  cases hm with
  | lost _ _ hd => rw [injects_of_no_latency hlat] at hd; cases hd
  | _ => rfl

/-- A sweep polls its queues in ascending order: the queues ahead are still unpolled. -/
structure Ahead (c : LoopCfg) (tr : List (Move LoopState PollEvent)) (s : LoopState) : Prop where
  settled : Settled c s
  ahead : ∀ q, s.i < q → pollsThisSweep q tr = 0

theorem Ahead.init (c : LoopCfg) : Ahead c [] (LoopState.init c) :=
  ⟨Settled.init c, fun _ _ => rfl⟩

theorem LoopMove.ahead {c : LoopCfg} (hlat : c.latencyMode = false)
    {tr : List (Move LoopState PollEvent)} {s s' : LoopState} {x : PollInput} {e : PollEvent}
    (hm : LoopMove c s x e s') (h : Ahead c tr s) : Ahead c (tr ++ [⟨s, e, s'⟩]) s' := by
  have hinj := injects_of_no_latency hlat s
  have hlost := hm.not_lost_of_no_latency hlat
  refine ⟨hm.settled h.settled hlost, ?_⟩
  intro q hq
  rw [pollsThisSweep_snoc]
  cases hm with
  | sweepEnd => rfl
  | skip =>
    have hlt : s.i + 1 < q := hq
    exact h.ahead q (by omega)
  | busy =>
    have hlt : s.i + 1 < q := hq
    exact h.ahead q (by omega)
  | lost => cases hlost
  | diverted _ _ hd => rw [hinj] at hd; cases hd
  | stale _ _ _ _ hs => rw [restores_of_no_latency hlat] at hs; cases hs
  | repoll =>
    have hlt : s.i < q := by simpa using hq
    have hne : s.i ≠ q := by omega
    simpa [PollEvent.isSweepEnd, PollEvent.isRegularPollOf, hne] using h.ahead q hlt
  | advance =>
    have hlt : s.i + 1 < q := hq
    have hne : s.i ≠ q := by omega
    simpa [PollEvent.isSweepEnd, PollEvent.isRegularPollOf, hne] using h.ahead q (by omega)

/-- The budget is what the polls of the sweep left of it, unless the lock of a re-poll was lost. -/
def BudgetLeft (c : LoopCfg) (tr : List (Move LoopState PollEvent)) (s : LoopState) : Prop :=
  InSweep c s ∧ s.maxLoops + pollsThisSweep s.i tr = QFLOW_MAX_CONSECUTIVE_POLLS ∨ LostRun tr

/-- A move that loses no re-poll leaves the budget of the run or starts the next run with all of
    it. -/
theorem LoopMove.budget_kept {c : LoopCfg} (hlat : c.latencyMode = false)
    {tr : List (Move LoopState PollEvent)} {s s' : LoopState} {x : PollInput} {e : PollEvent}
    (hm : LoopMove c s x e s') (h : Ahead c tr s) (hin : InSweep c s)
    (hbudget : s.maxLoops + pollsThisSweep s.i tr = QFLOW_MAX_CONSECUTIVE_POLLS)
    (hfull : e.isBusy = true → s.maxLoops = QFLOW_MAX_CONSECUTIVE_POLLS) :
    s'.maxLoops + pollsThisSweep s'.i (tr ++ [⟨s, e, s'⟩]) = QFLOW_MAX_CONSECUTIVE_POLLS := by
  have hinj := injects_of_no_latency hlat s
  have hlost := hm.not_lost_of_no_latency hlat
  have hzero := h.ahead (s.i + 1) (by omega)
  rw [pollsThisSweep_snoc]
  cases hm with
  | sweepEnd => rfl
  | skip _ hp =>
    simpa [PollEvent.isSweepEnd, PollEvent.isRegularPollOf, countSkip, hzero] using
      hin.budget_of_penalised hp
  | busy => simpa [PollEvent.isSweepEnd, PollEvent.isRegularPollOf, hzero] using hfull rfl
  | lost => cases hlost
  | diverted _ _ hd => rw [hinj] at hd; cases hd
  | stale _ _ _ _ hs => rw [restores_of_no_latency hlat] at hs; cases hs
  | repoll _ _ _ _ _ hr =>
    have hpos := repolls_budget hr
    simp [PollEvent.isSweepEnd, PollEvent.isRegularPollOf]
    omega
  | advance =>
    have hne : s.i ≠ s.i + 1 := by omega
    simp [PollEvent.isSweepEnd, PollEvent.isRegularPollOf, hzero, hne]

theorem LoopMove.budgetLeft {c : LoopCfg} (hlat : c.latencyMode = false)
    {tr : List (Move LoopState PollEvent)} {s s' : LoopState} {x : PollInput} {e : PollEvent}
    (hm : LoopMove c s x e s') (h : Ahead c tr s) (hb : BudgetLeft c tr s) :
    BudgetLeft c (tr ++ [⟨s, e, s'⟩]) s' := by
  have hlost := hm.not_lost_of_no_latency hlat
  have hnext := hm.ahead hlat h
  cases he : e.isSweepEnd with
  | true =>
    cases hm with
    | sweepEnd =>
      left
      refine ⟨⟨hnext.settled, fun hlt => absurd hlt (Nat.lt_irrefl _)⟩, ?_⟩
      rw [pollsThisSweep_snoc]
      rfl
    | _ => cases he
  | false =>
    rcases hb with ⟨hin, hbudget⟩ | hlostRun
    · by_cases hcarry : e.isBusy = true ∧ 0 < pollsThisSweep s.i tr
      · -- the lock of a re-poll is lost here
        right
        obtain ⟨hbusy, hpos⟩ := hcarry
        cases hm with
        | busy => exact ⟨tr, _, [], s.i, false, rfl, rfl, hpos, by simp⟩
        | lost => cases hlost
        | _ => cases hbusy
      · left
        have hfull : e.isBusy = true → s.maxLoops = QFLOW_MAX_CONSECUTIVE_POLLS := by
          intro hbusy
          have : ¬0 < pollsThisSweep s.i tr := fun hpos => hcarry ⟨hbusy, hpos⟩
          omega
        exact ⟨hm.inSweep hin hlost hfull, hm.budget_kept hlat h hin hbudget hfull⟩
    · exact Or.inr (hlostRun.snoc he)

theorem budget_run {c : LoopCfg} (hlat : c.latencyMode = false) (xs : List PollInput) :
    Ahead c ((pollLoop c).trace (LoopState.init c) xs) ((pollLoop c).final (LoopState.init c) xs) ∧
      BudgetLeft c ((pollLoop c).trace (LoopState.init c) xs)
        ((pollLoop c).final (LoopState.init c) xs) := by
  refine (pollLoop c).history_inv (H := fun tr s => Ahead c tr s ∧ BudgetLeft c tr s)
    ⟨Ahead.init c, Or.inl ⟨InSweep.init c, rfl⟩⟩ ?_ xs
  rintro tr s x ⟨ha, hb⟩
  have hm := step_move ha.settled.start_le x
  exact ⟨hm.ahead hlat ha, hm.budgetLeft hlat ha hb⟩

/-- What a poll does when the budget is what its run has left. -/
theorem LoopMove.pollFull {c : LoopCfg} (hlat : c.latencyMode = false)
    {tr : List (Move LoopState PollEvent)} {s s' : LoopState} {x : PollInput} {e : PollEvent}
    (hm : LoopMove c s x e s') (hb : s.maxLoops + pollsThisSweep s.i tr = QFLOW_MAX_CONSECUTIVE_POLLS)
    {q : Int} {n : Nat} {d lp : Bool} (he : e = .poll q n d lp) :
    PollFull c tr ⟨s, e, s'⟩ q n := by
  have hfirst : pollsThisSweep s.i tr = 0 → s.maxLoops = QFLOW_MAX_CONSECUTIVE_POLLS := by omega
  have hleft : 0 < s.maxLoops ↔ pollsThisSweep s.i tr < QFLOW_MAX_CONSECUTIVE_POLLS := by omega
  have hcounter : pollsThisSweep s.i tr = 0 → 0 < c.turns →
      hitAfter c x.nbRx s (s.i - c.queueStart) =
        toSigned (if x.nbRx > MAX_PKT_BURST / 2 then c.turns else 0) := by
    intro h0 hN
    rw [hitAfter, if_pos ⟨hN, hfirst h0⟩, Function.update_self, penaltyAfter]
    split <;> simp
  cases hm with
  | diverted _ _ hd => rw [injects_of_no_latency hlat] at hd; cases hd
  | stale _ _ _ _ hs => rw [restores_of_no_latency hlat] at hs; cases hs
  | repoll _ _ _ _ _ hr =>
    cases he
    simp only [repolls, decide_eq_true_eq, hleft] at hr
    exact ⟨hb, iff_of_true (countPoll_i c s) hr, hcounter⟩
  | advance _ _ _ _ _ hr =>
    cases he
    simp only [repolls, decide_eq_false_iff_not, hleft] at hr
    refine ⟨hb, iff_of_false ?_ hr, hcounter⟩
    show ¬s.i + 1 = s.i
    omega
  | _ => cases he

theorem runsFull_of_complete {c : LoopCfg} (hlat : c.latencyMode = false) (xs : List PollInput)
    (h : RunsComplete ((pollLoop c).trace (LoopState.init c) xs)) :
    RunsFull c ((pollLoop c).trace (LoopState.init c) xs) := by
  intro pre m post hsplit q n d lp he
  obtain ⟨ys, x, zs, -, rfl, rfl, -⟩ := (pollLoop c).trace_split_cons hsplit
  obtain ⟨ha, hb⟩ := budget_run hlat ys
  have hm := step_move ha.settled.start_le x
  rcases hb with ⟨-, hbudget⟩ | ⟨a, m₀, b, q₀, d₀, hpre, hbusy, hpos, hb⟩
  · exact hm.pollFull hlat hbudget he
  · -- a lock lost earlier in this sweep is followed by a poll
    rw [hpre, List.append_assoc, List.cons_append] at hsplit
    have hend : (PollEvent.poll q n d lp).isSweepEnd = false := rfl
    have := h a m₀ _ hsplit q₀ d₀ hbusy hpos ((pollLoop c).move _ x) (by
      rw [List.takeWhile_append_of_pos (by simpa using hb), List.takeWhile_cons_of_pos]
      · exact List.mem_append_right _ List.mem_cons_self
      · rw [he, hend]; rfl)
    rw [he] at this
    cases this

/-- Without Latency a move ends the sweep, polls the current queue, or goes on to the next one with
    the budget as it is. -/
theorem LoopMove.kinds {c : LoopCfg} (hlat : c.latencyMode = false) {s s' : LoopState}
    {x : PollInput} {e : PollEvent} (hm : LoopMove c s x e s') :
    e.isSweepEnd = true ∨ (∃ n, e = .poll s.i n false false) ∨
      (e.isPoll = false ∧ s'.i = s.i + 1 ∧ s'.maxLoops = s.maxLoops) := by
  have hinj := injects_of_no_latency hlat s
  cases hm with
  | sweepEnd => exact Or.inl rfl
  | skip => exact Or.inr (Or.inr ⟨rfl, rfl, rfl⟩)
  | busy => exact Or.inr (Or.inr ⟨rfl, rfl, rfl⟩)
  | lost _ _ hd => rw [hinj] at hd; cases hd
  | diverted _ _ hd => rw [hinj] at hd; cases hd
  | stale _ _ _ _ hs => rw [restores_of_no_latency hlat] at hs; cases hs
  | repoll => exact Or.inr (Or.inl ⟨_, rfl⟩)
  | advance => exact Or.inr (Or.inl ⟨_, rfl⟩)

theorem LoopMove.busy_inv {c : LoopCfg} (hlat : c.latencyMode = false) {s s' : LoopState}
    {x : PollInput} {e : PollEvent} (hm : LoopMove c s x e s') {q : Int} {d : Bool}
    (he : e = .busy q d) : q = s.i ∧ s'.i = s.i + 1 ∧ s'.maxLoops = s.maxLoops := by
  cases hm with
  | busy => cases he; exact ⟨rfl, rfl, rfl⟩
  | lost _ _ hd => rw [injects_of_no_latency hlat] at hd; cases hd
  | _ => cases he

theorem PollEvent.not_regular_of_not_poll {e : PollEvent} (h : e.isPoll = false) (q : Int) :
    e.isRegularPollOf q = false := by
  cases e with
  | poll => cases h
  | _ => rfl

/-- A budget carried over to a queue the sweep has not polled yet is never used. -/
theorem carried_unpolled {c : LoopCfg} (hlat : c.latencyMode = false) :
    ∀ (zs : List PollInput) (s : LoopState) (tr : List (Move LoopState PollEvent)),
      Ahead c tr s → s.maxLoops < QFLOW_MAX_CONSECUTIVE_POLLS → pollsThisSweep s.i tr = 0 →
      (∀ pre m post, (pollLoop c).trace s zs = pre ++ m :: post →
        ∀ q n d lp, m.event = .poll q n d lp → PollFull c (tr ++ pre) m q n) →
      ∀ m ∈ ((pollLoop c).trace s zs).takeWhile (fun m => !m.event.isSweepEnd),
        m.event.isPoll = false := by
  intro zs
  induction zs with
  | nil => intro s tr _ _ _ _ m hm; cases hm
  | cons x zs ih =>
    intro s tr ha hlt hzero hfull m hmem
    have hm := step_move ha.settled.start_le x
    rw [Machine.trace_cons, List.takeWhile_cons] at hmem
    split at hmem
    · rename_i hend
      have hend' : (step c s x).2.isSweepEnd = false := (Bool.not_eq_true' _).mp hend
      rcases hm.kinds hlat with hsweep | ⟨n, hpoll⟩ | ⟨hno, hi, hkeep⟩
      · rw [hend'] at hsweep
        cases hsweep
      · have hbudget := (hfull [] _ _ rfl _ _ _ _ hpoll).budget
        rw [List.append_nil] at hbudget
        change s.maxLoops + _ = _ at hbudget
        omega
      · have hnext := hm.ahead hlat ha
        have hzero' : pollsThisSweep (step c s x).1.i (tr ++ [(pollLoop c).move s x]) = 0 := by
          rw [pollsThisSweep_snoc, hi, ha.ahead _ (by omega)]
          show (if (step c s x).2.isSweepEnd then 0
            else 0 + if (step c s x).2.isRegularPollOf (s.i + 1) then 1 else 0) = 0
          rw [hend', PollEvent.not_regular_of_not_poll hno]
          rfl
        rcases List.mem_cons.mp hmem with rfl | hrest
        · exact hno
        · refine ih _ _ hnext (by rw [hkeep]; exact hlt) hzero' ?_ m hrest
          intro pre m' post hsplit q n d lp he
          have := hfull ((pollLoop c).move s x :: pre) m' post
            (by rw [Machine.trace_cons]; exact congrArg _ hsplit) q n d lp he
          rwa [List.append_assoc]
    · cases hmem

theorem complete_of_runsFull {c : LoopCfg} (hlat : c.latencyMode = false) (xs : List PollInput)
    (h : RunsFull c ((pollLoop c).trace (LoopState.init c) xs)) :
    RunsComplete ((pollLoop c).trace (LoopState.init c) xs) := by
  -- an earlier lost re-poll of the same sweep covers the polls after a later one
  suffices hlen : ∀ (l : Nat) pre m post, pre.length = l →
      (pollLoop c).trace (LoopState.init c) xs = pre ++ m :: post → ∀ q d, m.event = .busy q d →
      0 < pollsThisSweep q pre →
      ∀ m' ∈ post.takeWhile (fun m => !m.event.isSweepEnd), m'.event.isPoll = false from
    fun pre m post hsplit => hlen pre.length pre m post rfl hsplit
  intro l
  induction l using Nat.strong_induction_on with
  | _ l ih =>
  rintro pre m post rfl hsplit q d hbusy hpos m' hm'
  have hsplit' := hsplit
  obtain ⟨ys, x, zs, rfl, rfl, rfl, rfl⟩ := (pollLoop c).trace_split_cons hsplit
  obtain ⟨ha, hb⟩ := budget_run hlat ys
  have hm := step_move ha.settled.start_le x
  obtain ⟨rfl, hi, hkeep⟩ := hm.busy_inv hlat hbusy
  rcases hb with ⟨-, hbudget⟩ | ⟨a, m₀, b, q₀, d₀, hpre, hbusy₀, hpos₀, hb⟩
  · refine carried_unpolled hlat zs _ _ (hm.ahead hlat ha) ?_ ?_ ?_ m' hm'
    · rw [hkeep]
      omega
    · rw [pollsThisSweep_snoc, hi, ha.ahead _ (by omega)]
      have hev : (step c ((pollLoop c).final (LoopState.init c) ys) x).2 = .busy _ d := hbusy
      rw [hev]
      rfl
    · intro pre m₁ post hlater q₁ n₁ d₁ lp₁ he
      refine h _ m₁ post ?_ q₁ n₁ d₁ lp₁ he
      rw [hsplit', List.append_assoc, List.append_assoc]
      exact congrArg _ (congrArg _ hlater)
  · rw [hpre, List.append_assoc, List.cons_append] at hsplit'
    refine ih a.length ?_ a m₀ _ rfl hsplit' q₀ d₀ hbusy₀ hpos₀ m' ?_
    · rw [hpre, List.length_append, List.length_cons]
      omega
    · rw [List.takeWhile_append_of_pos (by simpa using hb), List.takeWhile_cons_of_pos]
      · exact List.mem_append_right _ (List.mem_cons_of_mem _ hm')
      · rw [hbusy]
        rfl

theorem runsFull_iff {c : LoopCfg} (hlat : c.latencyMode = false) {κ : Type} [DecidableEq κ]
    (k : κ) (xs : List (κ × PollInput)) :
    RunsFull c (lcoreTrace c k xs) ↔ RunsComplete (lcoreTrace c k xs) := by
  rw [lcoreTrace_eq]
  constructor
  · intro h
    exact complete_of_runsFull hlat _ h
  · intro h
    exact runsFull_of_complete hlat _ h

/-- **Aggressive and Penalty under contention**, in nf-chain and in mica.  Without Latency, in every
    interleaving and for every outcome of the trylocks, every poll of an lcore has the budget its
    run has left if and only if no poll follows a lost re-poll in its sweep. -/
theorem contention_budget {κ : Type} [DecidableEq κ] (k : κ) (xs : List (κ × PollInput)) :
    (∀ c : LoopCfg, c.latencyMode = false →
      (RunsFull c (lcoreTrace c k xs) ↔ RunsComplete (lcoreTrace c k xs))) ∧
    (∀ c : Mica.MicaCfg, c.latencyMode = false →
      (RunsFull c.nfChain (Mica.lcoreTrace c k xs) ↔ RunsComplete (Mica.lcoreTrace c k xs))) := by
  refine ⟨fun c hlat => runsFull_iff hlat k xs, fun c hlat => ?_⟩
  rw [Mica.lcoreTrace_eq]
  exact runsFull_iff hlat k xs

/-- Lcore 0 of two polls a full queue 0 and loses its lock to lcore 1 on the re-poll. -/
def lostRepoll : List (Fin 2 × PollInput) :=
  [(0, ⟨true, MAX_PKT_BURST⟩), (1, ⟨true, 0⟩), (0, ⟨false, 0⟩), (0, ⟨true, 0⟩)]

theorem contention_budget_lostRepoll :
    let c := (LoopCfg.allPolicies .shared).withoutLatency
    let m := (Mica.MicaCfg.allPolicies .shared).withoutLatency
    (RunsFull c (lcoreTrace c 0 lostRepoll) ↔ RunsComplete (lcoreTrace c 0 lostRepoll)) ∧
    (RunsFull m.nfChain (Mica.lcoreTrace m 0 lostRepoll) ↔
      RunsComplete (Mica.lcoreTrace m 0 lostRepoll)) :=
  ⟨(contention_budget 0 lostRepoll).1 (LoopCfg.allPolicies .shared).withoutLatency rfl,
    (contention_budget 0 lostRepoll).2 (Mica.MicaCfg.allPolicies .shared).withoutLatency rfl⟩

/-- Two queues, Aggressive and Penalty: after the lost re-poll the first poll of queue 1 starts with
    99 polls, and although it returns nothing it leaves the Penalty counter of queue 1 at `N`. -/
theorem contention_carries_budget :
    let c := (LoopCfg.allPolicies .shared).withoutLatency
    ¬RunsFull c (lcoreTrace c 0 lostRepoll) := by
  intro c h
  have hsplit : lcoreTrace c 0 lostRepoll =
      (lcoreTrace c 0 lostRepoll).take 2 ++ (lcoreTrace c 0 lostRepoll).get ⟨2, by decide⟩ :: [] := rfl
  have hfull := h _ _ _ hsplit 1 0 false false (by decide +kernel)
  have hmax : ((lcoreTrace c 0 lostRepoll).get ⟨2, by decide⟩).src.maxLoops = 99 := by
    decide +kernel
  have hfirst : pollsThisSweep 1 ((lcoreTrace c 0 lostRepoll).take 2) = 0 := by decide +kernel
  have hbudget := hfull.budget
  rw [hmax, hfirst] at hbudget
  cases hbudget

end QueueDpdk.PollLoop
