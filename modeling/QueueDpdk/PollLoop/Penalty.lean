import QueueDpdk.PollLoop.Mica
import QueueDpdk.PollLoop.Sweep

/-!
# The Penalty schedule

Single and Partitioned mode, any policy, a penalty between 1 and `INT_MAX`.

* `Visit` — what a sweep has done so far with one queue of the slice: not reached it, left it
  skipped with its counter advanced by one, or polled it, the first poll fixing the counter.
* `HitAt` — the counter of a queue at the start of a sweep; `HitAt.next` steps it by one sweep.
* `PenaltySchedule` — a queue whose first burst of a sweep was at most half full is skipped in the
  next `N` sweeps and polled in the one after, otherwise it is polled in the next sweep.
* `penalty_schedule` — every queue of the slice keeps this schedule, in nf-chain and in mica.
-/

set_option autoImplicit false

namespace QueueDpdk.PollLoop

open Lib

/-- The size of the burst if the event is a regular poll of `q`. -/
def regularBurst (q : Int) : PollEvent → Option Nat
  | .poll q' n false _ => if q' = q then some n else none
  | _ => none

/-- The first regular burst of `q` among the events. -/
def firstBurst (q : Int) (es : List PollEvent) : Option Nat := es.findSome? (regularBurst q)

theorem firstBurst_snoc (q : Int) (es : List PollEvent) (e : PollEvent) :
    firstBurst q (es ++ [e]) = (firstBurst q es).or (regularBurst q e) := by
  unfold firstBurst
  rw [List.findSome?_append, List.findSome?_singleton]

section Counter

variable {c : LoopCfg} (hN : 1 ≤ c.turns) (hN' : c.turns < 2 ^ 31)

theorem penaltyAfter_le_half {n : Nat} (h : n ≤ MAX_PKT_BURST / 2) : penaltyAfter c n = 0 := by
  rw [penaltyAfter, if_neg (by omega)]
  exact toSigned_of_nonneg (by omega) (by omega)

include hN hN' in
theorem penaltyAfter_gt_half {n : Nat} (h : n > MAX_PKT_BURST / 2) :
    penaltyAfter c n = c.turns := by
  rw [penaltyAfter, if_pos h, Int.mul_one]
  exact toSigned_of_nonneg (by omega) hN'

include hN hN' in
theorem penaltyAfter_mem (n : Nat) : 0 ≤ penaltyAfter c n ∧ penaltyAfter c n ≤ c.turns := by
  by_cases h : n > MAX_PKT_BURST / 2
  · rw [penaltyAfter_gt_half hN hN' h]
    omega
  · rw [penaltyAfter_le_half (by omega)]
    omega

include hN hN' in
/-- With a counter in `[0, N]` the unsigned comparison of the source is the plain one. -/
theorem penalised_iff {s : LoopState} {h : Int} (hh : s.hit (s.i - c.queueStart) = h)
    (h0 : 0 ≤ h) (h1 : h ≤ c.turns) : penalised c s = true ↔ h < c.turns := by
  have : toUnsigned h = h := toUnsigned_of_nonneg h0 (by omega)
  simp only [penalised, hh, this, decide_eq_true_eq]
  omega

end Counter

/-! ## One queue during one sweep -/

/-- What a sweep has done so far with queue `q`, whose counter held `h` when the sweep began. -/
inductive Visit (c : LoopCfg) (q h : Int) (es : List PollEvent) (s : LoopState) : Prop where
  | pending (hpos : s.i < q ∨ s.i = q ∧ s.maxLoops = QFLOW_MAX_CONSECUTIVE_POLLS)
      (hb : firstBurst q es = none) (hh : s.hit (q - c.queueStart) = h)
  | running (n : Nat) (hpos : s.i = q) (hrun : s.maxLoops < QFLOW_MAX_CONSECUTIVE_POLLS)
      (hfull : h = c.turns) (hb : firstBurst q es = some n)
      (hh : s.hit (q - c.queueStart) = penaltyAfter c n)
  | skipped (hpos : q < s.i) (hlt : h < c.turns) (hb : firstBurst q es = none)
      (hh : s.hit (q - c.queueStart) = h + 1)
  | polled (n : Nat) (hpos : q < s.i) (hfull : h = c.turns) (hb : firstBurst q es = some n)
      (hh : s.hit (q - c.queueStart) = penaltyAfter c n)

/-- A move at another queue is no regular poll of `q` and leaves its counter alone. -/
theorem LoopMove.elsewhere {c : LoopCfg} {s s' : LoopState} {x : PollInput} {e : PollEvent}
    (hm : LoopMove c s x e s') {q : Int} (hq : s.i ≠ q) :
    regularBurst q e = none ∧ s'.hit (q - c.queueStart) = s.hit (q - c.queueStart) := by
  have hne : q - c.queueStart ≠ s.i - c.queueStart := by omega
  have hafter : hitAfter c x.nbRx s (q - c.queueStart) = s.hit (q - c.queueStart) := by
    unfold hitAfter
    split
    · exact Function.update_of_ne hne _ _
    · rfl
  cases hm with
  | skip => exact ⟨rfl, Function.update_of_ne hne _ _⟩
  | stale => exact ⟨if_neg hq, rfl⟩
  | repoll => exact ⟨if_neg hq, hafter⟩
  | advance => exact ⟨if_neg hq, hafter⟩
  | _ => exact ⟨rfl, rfl⟩

/-- The first poll of a run fixes the counter of the current queue, the re-polls leave it. -/
theorem hitAfter_here {c : LoopCfg} (hN : 1 ≤ c.turns) (n : Nat) (s : LoopState) :
    hitAfter c n s (s.i - c.queueStart) =
      if s.maxLoops = QFLOW_MAX_CONSECUTIVE_POLLS then penaltyAfter c n
      else s.hit (s.i - c.queueStart) := by
  have : (0 : Int) < c.turns := by omega
  unfold hitAfter
  by_cases h : s.maxLoops = QFLOW_MAX_CONSECUTIVE_POLLS <;> simp [h, this]

/-- The moves inside a sweep when no trylock is made and no resume index is left over. -/
inductive SweepMove (c : LoopCfg) (s : LoopState) (x : PollInput) :
    PollEvent → LoopState → Prop where
  | skip (hp : penalised c s = true) :
      SweepMove c s x (.skip s.i) { countSkip c s with i := s.i + 1 }
  | diverted : SweepMove c s x (.poll c.latencyQueue x.nbRx true true)
      { s with injectQueue := false, resumeI := -1 }
  | repoll (hp : penalised c s = false) (hpos : 0 < s.maxLoops) :
      SweepMove c s x (.poll s.i x.nbRx false false)
        { countPoll c s with hit := hitAfter c x.nbRx s, maxLoops := s.maxLoops - 1 }
  | advance (hp : penalised c s = false) :
      SweepMove c s x (.poll s.i x.nbRx false false)
        { countPoll c s with hit := hitAfter c x.nbRx s, i := s.i + 1,
                             maxLoops := QFLOW_MAX_CONSECUTIVE_POLLS }

theorem LoopMove.sweepMove {c : LoopCfg} {s s' : LoopState} {x : PollInput} {e : PollEvent}
    (hm : LoopMove c s x e s') (hmode : c.mode ≠ .shared) (hs : Settled c s)
    (he : e.isSweepEnd = false) : SweepMove c s x e s' := by
  cases hm with
  | sweepEnd => cases he
  | skip _ hp => exact .skip hp
  | busy _ _ _ hsh _ => exact absurd hsh hmode
  | lost _ _ _ hsh _ => exact absurd hsh hmode
  | diverted => exact .diverted
  | stale _ _ _ _ hst => rw [hs.restores] at hst; cases hst
  | repoll _ hp _ _ _ hr => exact .repoll hp (repolls_budget hr)
  | advance _ hp => exact .advance hp

section Visits

variable {c : LoopCfg} {q h : Int} {es : List PollEvent} {s s' : LoopState} {x : PollInput}
  {e : PollEvent} {n : Nat}

/-- The first time a sweep is at the queue, the counter decides. -/
theorem SweepMove.visit_first (hm : SweepMove c s x e s') (hN : 1 ≤ c.turns)
    (hN' : c.turns < 2 ^ 31) (h0 : 0 ≤ h) (h1 : h ≤ c.turns)
    (hfirst : s.maxLoops = QFLOW_MAX_CONSECUTIVE_POLLS) (hb : firstBurst s.i es = none)
    (hh : s.hit (s.i - c.queueStart) = h) : Visit c s.i h (es ++ [e]) s' := by
  have hpen := penalised_iff hN hN' hh h0 h1
  have hfull : penalised c s = false → h = c.turns := by
    intro hp
    have := mt hpen.mpr (by simp [hp])
    omega
  cases hm with
  | skip hp =>
    have hlt := hpen.mp hp
    refine .skipped (by simp only; omega) hlt (by rw [firstBurst_snoc, hb]; rfl) ?_
    have hsigned : toSigned (h + 1) = h + 1 := toSigned_of_nonneg (by omega) (by omega)
    simp [countSkip, hh, hsigned]
  | diverted => exact .pending (Or.inr ⟨rfl, hfirst⟩) (by rw [firstBurst_snoc, hb]; rfl) hh
  | repoll hp hpos =>
    refine .running x.nbRx (by simp) (by simp only; omega) (hfull hp) ?_ ?_
    · rw [firstBurst_snoc, hb]
      simp [regularBurst]
    · simp only
      rw [hitAfter_here hN, if_pos hfirst]
  | advance hp =>
    refine .polled x.nbRx (by simp only; omega) (hfull hp) ?_ ?_
    · rw [firstBurst_snoc, hb]
      simp [regularBurst]
    · simp only
      rw [hitAfter_here hN, if_pos hfirst]

/-- In the middle of its run the queue is not skipped and its counter stays. -/
theorem SweepMove.visit_running (hm : SweepMove c s x e s') (hN : 1 ≤ c.turns)
    (hs : InSweep c s) (hrun : s.maxLoops < QFLOW_MAX_CONSECUTIVE_POLLS) (hfull : h = c.turns)
    (hb : firstBurst s.i es = some n) (hh : s.hit (s.i - c.queueStart) = penaltyAfter c n) :
    Visit c s.i h (es ++ [e]) s' := by
  have hkeep : ∀ e, firstBurst s.i (es ++ [e]) = some n := by
    intro e
    rw [firstBurst_snoc, hb]
    rfl
  cases hm with
  | skip hp =>
    rw [hs.running hrun] at hp
    cases hp
  | diverted => exact .running n rfl hrun hfull (hkeep _) hh
  | repoll =>
    refine .running n (by simp) (by simp only; omega) hfull (hkeep _) ?_
    simp only
    rw [hitAfter_here hN, if_neg (Nat.ne_of_lt hrun), hh]
  | advance =>
    refine .polled n (by simp only; omega) hfull (hkeep _) ?_
    simp only
    rw [hitAfter_here hN, if_neg (Nat.ne_of_lt hrun), hh]

/-- From a queue before `q` the sweep comes to `q` with the whole budget or stays before it. -/
theorem SweepMove.before (hm : SweepMove c s x e s') (hs : InSweep c s) (hlt : s.i < q) :
    s'.i < q ∨ s'.i = q ∧ s'.maxLoops = QFLOW_MAX_CONSECUTIVE_POLLS := by
  cases hm with
  | skip hp =>
    have hbudget := hs.budget_of_penalised hp
    simp only [countSkip]
    omega
  | diverted => exact Or.inl hlt
  | repoll => exact Or.inl (by simpa using hlt)
  | advance =>
    show s.i + 1 < q ∨ s.i + 1 = q ∧ QFLOW_MAX_CONSECUTIVE_POLLS = QFLOW_MAX_CONSECUTIVE_POLLS
    omega

theorem SweepMove.index_le (hm : SweepMove c s x e s') : s.i ≤ s'.i := by
  cases hm with
  | skip => exact Int.le_add_one (Int.le_refl _)
  | diverted => exact Int.le_refl _
  | repoll => exact Int.le_of_eq (countPoll_i c s).symm
  | advance => exact Int.le_add_one (Int.le_refl _)

/-- Every move inside a sweep keeps the record of what the sweep did with `q`. -/
theorem Visit.step (hmode : c.mode ≠ .shared) (hN : 1 ≤ c.turns) (hN' : c.turns < 2 ^ 31)
    (h0 : 0 ≤ h) (h1 : h ≤ c.turns) (hloop : LoopMove c s x e s') (hs : InSweep c s)
    (he : e.isSweepEnd = false) (hv : Visit c q h es s) : Visit c q h (es ++ [e]) s' := by
  have hm := hloop.sweepMove hmode hs.toSettled he
  by_cases hq : s.i = q
  · -- the sweep is at `q`
    subst hq
    cases hv with
    | pending hpos hb hh =>
      have hfirst := (hpos.resolve_left (Int.lt_irrefl _)).2
      exact hm.visit_first hN hN' h0 h1 hfirst hb hh
    | running n _ hrun hfull hb hh => exact hm.visit_running hN hs hrun hfull hb hh
    | skipped hpos => exact absurd hpos (Int.lt_irrefl _)
    | polled _ hpos => exact absurd hpos (Int.lt_irrefl _)
  · -- the sweep is at another queue
    obtain ⟨hburst, hhit⟩ := hloop.elsewhere hq
    have hsame : firstBurst q (es ++ [e]) = firstBurst q es := by
      rw [firstBurst_snoc, hburst, Option.or_none]
    have hmono := hm.index_le
    cases hv with
    | pending hpos hb hh =>
      have hlt := hpos.resolve_right (fun h => hq h.1)
      exact .pending (hm.before hs hlt) (hsame.trans hb) (hhit.trans hh)
    | running _ hpos => exact absurd hpos hq
    | skipped hpos hlt hb hh =>
      exact .skipped (by omega) hlt (hsame.trans hb) (hhit.trans hh)
    | polled n hpos hfull hb hh =>
      exact .polled n (by omega) hfull (hsame.trans hb) (hhit.trans hh)

end Visits

/-! ## From sweep to sweep -/

section Streams

variable {ev : ℕ → PollEvent} {k : ℕ} {q : Int} {n m : ℕ}

/-- Queue `q` gets a regular poll in sweep `k`. -/
def PolledIn (ev : ℕ → PollEvent) (k : ℕ) (q : Int) : Prop :=
  ∃ t n, sweepNumber ev t = k ∧ regularBurst q (ev t) = some n

/-- The first regular poll of `q` in sweep `k` returns `n` packets. -/
def FirstBurst (ev : ℕ → PollEvent) (k : ℕ) (q : Int) (n : ℕ) : Prop :=
  ∃ t, sweepNumber ev t = k ∧ regularBurst q (ev t) = some n ∧
    ∀ u < t, sweepNumber ev u = k → regularBurst q (ev u) = none

/-- The schedule of one queue under a penalty of `N` turns: it is polled in the first sweep, and
    its first burst in a sweep decides in which sweep the next poll comes. -/
structure PenaltySchedule (N : Int) (ev : ℕ → PollEvent) (q : Int) : Prop where
  start : PolledIn ev 0 q
  skipped : ∀ k n, FirstBurst ev k q n → n ≤ MAX_PKT_BURST / 2 →
    ∀ j : ℕ, 1 ≤ j → (j : Int) ≤ N → ¬PolledIn ev (k + j) q
  resumed : ∀ k n, FirstBurst ev k q n → n ≤ MAX_PKT_BURST / 2 → PolledIn ev (k + N.toNat + 1) q
  next : ∀ k n, FirstBurst ev k q n → n > MAX_PKT_BURST / 2 → PolledIn ev (k + 1) q

theorem FirstBurst.polled (h : FirstBurst ev k q n) : PolledIn ev k q := by
  obtain ⟨t, hk, hb, -⟩ := h
  exact ⟨t, n, hk, hb⟩

theorem FirstBurst.unique (h : FirstBurst ev k q n) (h' : FirstBurst ev k q m) : n = m := by
  obtain ⟨t, hk, hb, hfirst⟩ := h
  obtain ⟨u, hk', hb', hfirst'⟩ := h'
  rcases Nat.lt_trichotomy t u with hlt | rfl | hlt
  · rw [hfirst' t hlt hk] at hb
    cases hb
  · rw [hb] at hb'
    exact Option.some.inj hb'
  · rw [hfirst u hlt hk'] at hb'
    cases hb'

end Streams

/-- The first `j` events from step `T` on. -/
def eventsFrom (c : LoopCfg) (x : ℕ → PollInput) (T j : ℕ) : List PollEvent :=
  (List.range j).map (fun u => eventOf c x (T + u))

theorem firstBurst_none {c : LoopCfg} {x : ℕ → PollInput} {T j : ℕ} {q : Int}
    (h : firstBurst q (eventsFrom c x T j) = none) :
    ∀ u < j, regularBurst q (eventOf c x (T + u)) = none := by
  simpa [firstBurst, eventsFrom, List.findSome?_eq_none_iff] using h

theorem firstBurst_some {c : LoopCfg} {x : ℕ → PollInput} {T : ℕ} {q : Int} {n : ℕ} :
    ∀ {j : ℕ}, firstBurst q (eventsFrom c x T j) = some n →
      ∃ u < j, regularBurst q (eventOf c x (T + u)) = some n ∧
        ∀ v < u, regularBurst q (eventOf c x (T + v)) = none := by
  intro j
  induction j with
  | zero => intro h; cases h
  | succ j ih =>
    intro h
    rw [eventsFrom, List.range_succ, List.map_append, List.map_singleton, firstBurst_snoc] at h
    cases hj : firstBurst q (eventsFrom c x T j) with
    | some m =>
      rw [eventsFrom] at hj
      rw [hj] at h
      obtain ⟨u, hu, hb⟩ := ih (hj.trans h)
      exact ⟨u, by omega, hb⟩
    | none =>
      have hnone := firstBurst_none hj
      rw [eventsFrom] at hj
      rw [hj] at h
      exact ⟨j, by omega, h, hnone⟩

/-- The counter of queue `q` holds `h` when sweep `k` begins. -/
def HitAt (c : LoopCfg) (x : ℕ → PollInput) (q : Int) (k : ℕ) (h : Int) : Prop :=
  ∃ T, SweepStart c x k T ∧ (stateBefore c x T).hit (q - c.queueStart) = h

section Schedule

variable {c : LoopCfg} (hmode : c.mode ≠ .shared) (hN : 1 ≤ c.turns) (hN' : c.turns < 2 ^ 31)
  (x : ℕ → PollInput) {q : Int} (hq : c.queueStart ≤ q) (hq' : q < c.queueEnd)

include hmode hN hN' hq in
/-- The record of a sweep, step by step. -/
theorem visit_run {k T L : ℕ} {h : Int} (hT : SweepStart c x k T)
    (hh : (stateBefore c x T).hit (q - c.queueStart) = h) (h0 : 0 ≤ h) (h1 : h ≤ c.turns)
    (hin : ∀ j < L, (eventOf c x (T + j)).isSweepEnd = false) :
    ∀ j ≤ L, Visit c q h (eventsFrom c x T j) (stateBefore c x (T + j)) := by
  have hinv : ∀ t, InSweep c (stateBefore c x t) := fun t =>
    (pollLoop c).stateAt_inv (fun s y hs => inSweep_step hmode y hs) (InSweep.init c) x t
  intro j
  induction j with
  | zero =>
    intro _
    refine .pending ?_ rfl hh
    rw [Nat.add_zero, hT.index, hT.budget]
    omega
  | succ j ih =>
    intro hj
    have hm := step_move (hinv (T + j)).start_le (x (T + j))
    have hstep := (ih (by omega)).step hmode hN hN' h0 h1 hm (hinv (T + j)) (hin j (by omega))
    rw [eventsFrom, List.range_succ, List.map_append]
    exact hstep

include hmode hN hN' hq hq' in
/-- **One sweep of the Penalty schedule**: a queue whose counter is below `N` is skipped and its
    counter advanced, a queue whose counter is at `N` is polled and its first burst decides. -/
theorem HitAt.next {k : ℕ} {h : Int} (hk : HitAt c x q k h) (h0 : 0 ≤ h) (h1 : h ≤ c.turns) :
    (h < c.turns ∧ ¬PolledIn (eventOf c x) k q ∧ HitAt c x q (k + 1) (h + 1)) ∨
    (h = c.turns ∧ ∃ n, FirstBurst (eventOf c x) k q n ∧
      HitAt c x q (k + 1) (penaltyAfter c n)) := by
  obtain ⟨T, hT, hh⟩ := hk
  obtain ⟨L, hnext, hend, hin, hspan⟩ := hT.next hmode
  have hvisit := visit_run hmode hN hN' x hq hT hh h0 h1 hin L (Nat.le_refl _)
  have hinv : InSweep c (stateBefore c x (T + L)) :=
    (pollLoop c).stateAt_inv (fun s y hs => inSweep_step hmode y hs) (InSweep.init c) x _
  have hlast : LoopMove c _ (x (T + L)) (eventOf c x (T + L)) (stateBefore c x (T + L + 1)) :=
    step_move hinv.start_le (x (T + L))
  obtain ⟨hburst, hkeep⟩ := hlast.elsewhere (q := q) (by omega)
  -- the steps of sweep `k` are the `L` steps of the visit and the step that ends the sweep
  have hinside : ∀ t, sweepAt c x t = k → (∃ u < L, t = T + u) ∨ t = T + L := by
    intro t ht
    have := (hspan t).mp ht
    rcases Nat.lt_or_ge t (T + L) with hlt | hge
    · exact Or.inl ⟨t - T, by omega, by omega⟩
    · exact Or.inr (by omega)
  cases hvisit with
  | pending hpos => omega
  | running _ hpos => omega
  | skipped _ hlt hb hhit =>
    refine Or.inl ⟨hlt, ?_, T + L + 1, hnext, hkeep.trans hhit⟩
    rintro ⟨t, n, ht, hpoll⟩
    rcases hinside t ht with ⟨u, hu, rfl⟩ | rfl
    · rw [firstBurst_none hb u hu] at hpoll
      cases hpoll
    · rw [hburst] at hpoll
      cases hpoll
  | polled n _ hfull hb hhit =>
    obtain ⟨u, hu, hpoll, hbefore⟩ := firstBurst_some hb
    refine Or.inr ⟨hfull, n, ⟨T + u, (hspan _).mpr ⟨by omega, by omega⟩, hpoll, ?_⟩, T + L + 1,
      hnext, hkeep.trans hhit⟩
    intro v hv hvk
    have := (hspan v).mp hvk
    have := hbefore (v - T) (by omega)
    rwa [show T + (v - T) = v by omega] at this

theorem HitAt.zero (c : LoopCfg) (hN' : c.turns < 2 ^ 31) (x : ℕ → PollInput) (q : Int) :
    HitAt c x q 0 c.turns := by
  refine ⟨0, SweepStart.zero c x, ?_⟩
  have hinit : stateBefore c x 0 = LoopState.init c := rfl
  have h0 : (0 : Int) ≤ c.turns := Int.natCast_nonneg _
  rw [hinit, LoopState.init, toSigned_of_nonneg h0 hN']

include hmode hN hN' hq hq' in
/-- Every sweep starts with the counter in `[0, N]`. -/
theorem HitAt.exists (k : ℕ) : ∃ h, HitAt c x q k h ∧ 0 ≤ h ∧ h ≤ c.turns := by
  induction k with
  | zero => exact ⟨c.turns, HitAt.zero c hN' x q, by omega, Int.le_refl _⟩
  | succ k ih =>
    obtain ⟨h, hk, h0, h1⟩ := ih
    rcases HitAt.next hmode hN hN' x hq hq' hk h0 h1 with ⟨hlt, -, hnext⟩ | ⟨-, n, -, hnext⟩
    · exact ⟨h + 1, hnext, by omega, by omega⟩
    · exact ⟨_, hnext, penaltyAfter_mem hN hN' n⟩

include hmode hN hN' hq hq' in
/-- A queue with counter 0 sits out: its counter counts the sweeps it is skipped in. -/
theorem HitAt.countdown {k : ℕ} (hk : HitAt c x q k 0) :
    ∀ j : ℕ, (j : Int) ≤ c.turns → HitAt c x q (k + j) j := by
  intro j
  induction j with
  | zero => intro _; exact hk
  | succ j ih =>
    intro hj
    rcases HitAt.next hmode hN hN' x hq hq' (ih (by omega)) (by omega) (by omega) with
      ⟨-, -, hnext⟩ | ⟨hfull, -⟩
    · exact hnext
    · omega

include hmode hN hN' hq hq' in
/-- The schedule of a queue of nf-chain. -/
theorem penaltySchedule_pollLoop : PenaltySchedule c.turns (eventOf c x) q := by
  have hnext := fun k h => HitAt.next (k := k) (h := h) hmode hN hN' x hq hq'
  -- a counter at `N` means that the sweep polls the queue
  have hpolled : ∀ k, HitAt c x q k c.turns → PolledIn (eventOf c x) k q := by
    intro k hk
    rcases hnext k _ hk (by omega) (Int.le_refl _) with ⟨hlt, -⟩ | ⟨-, n, hfirst, -⟩
    · omega
    · exact hfirst.polled
  -- what the first burst of sweep `k` leaves in the counter
  have hafter : ∀ k n, FirstBurst (eventOf c x) k q n →
      HitAt c x q (k + 1) (penaltyAfter c n) := by
    intro k n hfirst
    obtain ⟨h, hk, h0, h1⟩ := HitAt.exists hmode hN hN' x hq hq' k
    rcases hnext k h hk h0 h1 with ⟨-, hnot, -⟩ | ⟨-, m, hm, hafter⟩
    · exact absurd hfirst.polled hnot
    · rwa [hfirst.unique hm]
  have hcount : ∀ k n, FirstBurst (eventOf c x) k q n → n ≤ MAX_PKT_BURST / 2 →
      ∀ j : ℕ, (j : Int) ≤ c.turns → HitAt c x q (k + 1 + j) j := by
    intro k n hfirst hn
    have h := hafter k n hfirst
    rw [penaltyAfter_le_half hn] at h
    exact HitAt.countdown hmode hN hN' x hq hq' h
  refine ⟨hpolled 0 (HitAt.zero c hN' x q), ?_, ?_, ?_⟩
  · intro k n hfirst hn j hj hjN
    have hk := hcount k n hfirst hn (j - 1) (by omega)
    rw [show k + 1 + (j - 1) = k + j by omega] at hk
    rcases hnext _ _ hk (by omega) (by omega) with ⟨-, hnot, -⟩ | ⟨hfull, -⟩
    · exact hnot
    · omega
  · intro k n hfirst hn
    have hk := hcount k n hfirst hn c.turns.toNat (by omega)
    rw [Int.toNat_of_nonneg (by omega), Nat.add_right_comm] at hk
    exact hpolled _ hk
  · intro k n hfirst hn
    have hk := hafter k n hfirst
    rw [penaltyAfter_gt_half hN hN' hn] at hk
    exact hpolled _ hk

end Schedule

/-- **The Penalty schedule**, for nf-chain and for mica.  Every queue of the slice is polled in the
    first sweep.  If its first regular poll in a sweep returns at most half a burst, it has no
    regular poll in the next `N` sweeps and one in the sweep after them; if it returns more, it has
    one in the next sweep. -/
theorem penalty_schedule (x : ℕ → PollInput) :
    (∀ c : LoopCfg, c.mode ≠ .shared → 1 ≤ c.turns → c.turns < 2 ^ 31 →
      ∀ q, c.queueStart ≤ q → q < c.queueEnd → PenaltySchedule c.turns (eventOf c x) q) ∧
    (∀ c : Mica.MicaCfg, c.mode ≠ .shared → 1 ≤ c.turns → c.turns < 2 ^ 31 →
      ∀ q, c.first ≤ q → q < c.last →
        PenaltySchedule c.turns ((Mica.micaLoop c).eventAt (.init c) x) q) := by
  refine ⟨fun c hmode hN hN' q hq hq' => penaltySchedule_pollLoop hmode hN hN' x hq hq', ?_⟩
  intro c hmode hN hN' q hq hq'
  have hev : eventOf c.nfChain x = (Mica.micaLoop c).eventAt (.init c) x :=
    funext (Mica.eventAt_eq c x)
  have h := penaltySchedule_pollLoop (c := c.nfChain) hmode hN hN' x hq hq'
  rwa [hev] at h

theorem penalty_schedule_allPolicies :
    let x : ℕ → PollInput := fun t => ⟨true, t % (MAX_PKT_BURST + 1)⟩
    PenaltySchedule 5 (eventOf (.allPolicies .partitioned) x) 1 ∧
    PenaltySchedule 5 ((Mica.micaLoop (.allPolicies .partitioned)).eventAt
      (.init (.allPolicies .partitioned)) x) 1 :=
  ⟨(penalty_schedule _).1 (.allPolicies .partitioned) (by decide) (by decide) (by decide) 1
      (by decide) (by decide),
    (penalty_schedule _).2 (.allPolicies .partitioned) (by decide) (by decide) (by decide) 1
      (by decide) (by decide)⟩

end QueueDpdk.PollLoop
