import QueueDpdk.PollLoop.Mica
import QueueDpdk.PollLoop.Contention

/-!
# The structure of a sweep

Single and Partitioned mode, any policy, any bursts.

* `AggressiveRun` — the bursts of one run of polls: a re-poll follows exactly a full burst, as
  long as the budget lasts.
* `Swept` — the regular events of a sweep up to a queue: the queues in order, each skipped or
  polled in one run.
* `Progress` — what holds in the middle of a sweep; `Progress.step` keeps it.
* `sweep_structure` — every step of every infinite run lies in a sweep that ends, and every sweep
  is of this form; no queue and no counter outside the slice is ever used.
-/

set_option autoImplicit false

namespace QueueDpdk.PollLoop

open Lib

/-- `MAX_RX_QUEUE_PER_LCORE`: the length of the counter arrays and of the arrays over queues. -/
def MAX_RX_QUEUE_PER_LCORE : Int := 2048

def PollEvent.isRegularPoll : PollEvent → Bool
  | .poll _ _ false _ => true
  | _ => false

/-- The queue whose index an event uses. -/
def PollEvent.queue? : PollEvent → Option Int
  | .skip q => some q
  | .busy q _ => some q
  | .poll q _ _ _ => some q
  | .sweepEnd => none

/-- The events of a sweep in its regular order. -/
def regularEvents (es : List PollEvent) : List PollEvent := es.filter (fun e => !e.isDiversion)

/-- Queue `q` sits out the sweep that starts in `s`. -/
def sitsOut (c : LoopCfg) (s : LoopState) (q : Int) : Bool :=
  decide (0 < c.turns ∧ toUnsigned (s.hit (q - c.queueStart)) < c.turns)

/-- The bursts of one run of polls of a queue. -/
structure AggressiveRun (c : LoopCfg) (bursts : List Nat) : Prop where
  nonempty : bursts ≠ []
  repolled : ∀ (r : Nat) (h : r < bursts.length), r + 1 < bursts.length ↔
    c.aggressive = true ∧ bursts[r] = MAX_PKT_BURST ∧ r < QFLOW_MAX_CONSECUTIVE_POLLS

/-- The polls of one run. -/
def runEvents (q : Int) (bursts : List Nat) : List PollEvent :=
  bursts.map (fun n => .poll q n false false)

/-- What a sweep does with queue `q`. -/
def visitEvents (c : LoopCfg) (s : LoopState) (runs : Int → List Nat) (q : Int) :
    List PollEvent :=
  if sitsOut c s q then [.skip q] else runEvents q (runs q)

/-- The queues of the slice before `q`, in order. -/
def queuesBefore (c : LoopCfg) (q : Int) : List Int :=
  (List.range (q - c.queueStart).toNat).map (fun k : Nat => c.queueStart + k)

/-- The queues of the slice. -/
def LoopCfg.slice (c : LoopCfg) : List Int := queuesBefore c c.queueEnd

theorem mem_queuesBefore {c : LoopCfg} {q q' : Int} :
    q' ∈ queuesBefore c q ↔ c.queueStart ≤ q' ∧ q' < q := by
  simp only [queuesBefore, List.mem_map, List.mem_range]
  constructor
  · rintro ⟨k, hk, rfl⟩
    omega
  · rintro ⟨h1, h2⟩
    exact ⟨(q' - c.queueStart).toNat, by omega, by omega⟩

theorem queuesBefore_succ {c : LoopCfg} {q : Int} (h : c.queueStart ≤ q) :
    queuesBefore c (q + 1) = queuesBefore c q ++ [q] := by
  have hn : (q + 1 - c.queueStart).toNat = (q - c.queueStart).toNat + 1 := by omega
  have hq : c.queueStart + ((q - c.queueStart).toNat : Int) = q := by omega
  rw [queuesBefore, hn, List.range_succ, List.map_append, List.map_singleton, hq]
  rfl

/-- A run makes one poll and at most `QFLOW_MAX_CONSECUTIVE_POLLS` re-polls. -/
theorem AggressiveRun.length_le {c : LoopCfg} {bursts : List Nat} (h : AggressiveRun c bursts) :
    bursts.length ≤ QFLOW_MAX_CONSECUTIVE_POLLS + 1 := by
  by_contra hlt
  have := (h.repolled QFLOW_MAX_CONSECUTIVE_POLLS (by omega)).mp (by omega)
  omega

/-! ## The sweep so far -/

/-- The regular events of the queues of the slice before `q`, in order. -/
inductive Swept (c : LoopCfg) (s : LoopState) : Int → List PollEvent → Prop where
  | start : Swept c s c.queueStart []
  | skip {q : Int} {es : List PollEvent} (h : Swept c s q es) (hq : sitsOut c s q = true) :
      Swept c s (q + 1) (es ++ [.skip q])
  | run {q : Int} {es : List PollEvent} {bursts : List Nat} (h : Swept c s q es)
      (hq : sitsOut c s q = false) (hrun : AggressiveRun c bursts) :
      Swept c s (q + 1) (es ++ runEvents q bursts)

theorem Swept.start_le {c : LoopCfg} {s : LoopState} {q : Int} {es : List PollEvent}
    (h : Swept c s q es) : c.queueStart ≤ q := by
  induction h with
  | start => exact Int.le_refl _
  | skip _ _ ih => omega
  | run _ _ _ ih => omega

theorem flatMap_visit_congr {c : LoopCfg} {s : LoopState} {q : Int} {runs runs' : Int → List Nat}
    (h : ∀ q' < q, runs' q' = runs q') :
    (queuesBefore c q).flatMap (visitEvents c s runs') =
      (queuesBefore c q).flatMap (visitEvents c s runs) := by
  rw [List.flatMap_def, List.flatMap_def]
  congr 1
  apply List.map_congr_left
  intro q' hq'
  simp only [visitEvents, h q' (mem_queuesBefore.mp hq').2]

/-- The visits of the queues one after the other. -/
theorem Swept.visits {c : LoopCfg} {s : LoopState} {q : Int} {es : List PollEvent}
    (h : Swept c s q es) :
    ∃ runs : Int → List Nat, es = (queuesBefore c q).flatMap (visitEvents c s runs) ∧
      ∀ q' ∈ queuesBefore c q, sitsOut c s q' = false → AggressiveRun c (runs q') := by
  induction h with
  | start =>
    refine ⟨fun _ => [], by simp [queuesBefore], ?_⟩
    intro q' hq'
    have := mem_queuesBefore.mp hq'
    omega
  | @skip q es h hq ih =>
    obtain ⟨runs, hes, hruns⟩ := ih
    refine ⟨runs, ?_, ?_⟩
    · rw [queuesBefore_succ h.start_le, List.flatMap_append, ← hes, List.flatMap_singleton,
        visitEvents, if_pos hq]
    · intro q' hq' hs
      rw [queuesBefore_succ h.start_le, List.mem_append, List.mem_singleton] at hq'
      rcases hq' with hq' | rfl
      · exact hruns q' hq' hs
      · rw [hq] at hs
        cases hs
  | @run q es bursts h hq hrun ih =>
    obtain ⟨runs, hes, hruns⟩ := ih
    have hother : ∀ q' < q, Function.update runs q bursts q' = runs q' := fun q' hlt =>
      Function.update_of_ne (Int.ne_of_lt hlt) _ _
    refine ⟨Function.update runs q bursts, ?_, ?_⟩
    · rw [queuesBefore_succ h.start_le, List.flatMap_append, flatMap_visit_congr hother, ← hes,
        List.flatMap_singleton, visitEvents, hq, Function.update_self]
      rfl
    · intro q' hq' hs
      rw [queuesBefore_succ h.start_le, List.mem_append, List.mem_singleton] at hq'
      rcases hq' with hq' | rfl
      · rw [hother q' (mem_queuesBefore.mp hq').2]
        exact hruns q' hq' hs
      · rw [Function.update_self]
        exact hrun

theorem countP_runEvents (q : Int) (bursts : List Nat) :
    (runEvents q bursts).countP PollEvent.isRegularPoll = bursts.length := by
  unfold runEvents
  rw [List.countP_map]
  exact List.countP_eq_length.mpr (fun _ _ => rfl)

/-- Each queue gets at most 101 regular polls. -/
theorem Swept.polls_le {c : LoopCfg} {s : LoopState} {q : Int} {es : List PollEvent}
    (h : Swept c s q es) : es.countP PollEvent.isRegularPoll ≤
      (QFLOW_MAX_CONSECUTIVE_POLLS + 1) * (q - c.queueStart).toNat := by
  have hnext : ∀ {q : Int}, c.queueStart ≤ q → (q + 1 - c.queueStart).toNat =
      (q - c.queueStart).toNat + 1 := by
    intro q hq
    omega
  induction h with
  | start => simp
  | skip h _ ih =>
    rw [hnext h.start_le, Nat.mul_succ, List.countP_append]
    simp only [List.countP_singleton, PollEvent.isRegularPoll]
    exact Nat.le_trans ih (Nat.le_add_right _ _)
  | run h _ hrun ih =>
    rw [hnext h.start_le, Nat.mul_succ, List.countP_append, countP_runEvents]
    exact Nat.add_le_add ih hrun.length_le

/-! ## The middle of a sweep -/

/-- Where the sweep that started in `s₀` has got to: the queues before the loop index are done, and
    the current one has been polled with the bursts `bursts`. -/
structure Progress (c : LoopCfg) (s₀ : LoopState) (es : List PollEvent) (bursts : List Nat)
    (s : LoopState) : Prop where
  swept : ∃ done, regularEvents es = done ++ runEvents s.i bursts ∧ Swept c s₀ s.i done
  budget : bursts.length + s.maxLoops = QFLOW_MAX_CONSECUTIVE_POLLS
  repolled : ∀ n ∈ bursts, n = MAX_PKT_BURST ∧ c.aggressive = true
  polled : bursts ≠ [] → sitsOut c s₀ s.i = false
  ahead : ∀ q, s.i < q → s.hit (q - c.queueStart) = s₀.hit (q - c.queueStart)
  here : bursts = [] → s.hit (s.i - c.queueStart) = s₀.hit (s.i - c.queueStart)
  inside : bursts ≠ [] → s.i < c.queueEnd
  index_le : s.i ≤ max c.queueStart c.queueEnd

theorem Progress.start {c : LoopCfg} {s : LoopState} (hi : s.i = c.queueStart)
    (hb : s.maxLoops = QFLOW_MAX_CONSECUTIVE_POLLS) : Progress c s [] [] s where
  swept := ⟨[], rfl, hi ▸ Swept.start⟩
  budget := by rw [List.length_nil, hb, Nat.zero_add]
  repolled := fun _ h => absurd h List.not_mem_nil
  polled := fun h => absurd rfl h
  ahead := fun _ _ => rfl
  here := fun _ => rfl
  inside := fun h => absurd rfl h
  index_le := hi ▸ Int.le_max_left _ _

section Step

variable {c : LoopCfg} {s₀ s s' : LoopState} {es : List PollEvent} {bursts : List Nat}
  {x : PollInput} {e : PollEvent}

/-- Before its first poll the counter of the current queue is the one the sweep started with. -/
theorem Progress.sitsOut_eq (h : Progress c s₀ es bursts s) (hb : bursts = []) :
    sitsOut c s₀ s.i = penalised c s := by
  simp only [sitsOut, penalised, h.here hb]

theorem Progress.sitsOut_false (h : Progress c s₀ es bursts s) (hp : penalised c s = false) :
    sitsOut c s₀ s.i = false := by
  by_cases hb : bursts = []
  · rw [h.sitsOut_eq hb, hp]
  · exact h.polled hb

theorem regularEvents_snoc (es : List PollEvent) (e : PollEvent) :
    regularEvents (es ++ [e]) = regularEvents es ++ if e.isDiversion then [] else [e] := by
  unfold regularEvents
  rw [List.filter_append]
  cases he : e.isDiversion <;> simp [he]

theorem runEvents_snoc (q : Int) (bursts : List Nat) (n : Nat) :
    runEvents q (bursts ++ [n]) = runEvents q bursts ++ [.poll q n false false] := by
  unfold runEvents
  rw [List.map_append]
  rfl

/-- The current queue has been polled once more. -/
theorem Progress.swept_snoc (h : Progress c s₀ es bursts s) (n : Nat) :
    ∃ done, regularEvents (es ++ [.poll s.i n false false]) =
      done ++ runEvents s.i (bursts ++ [n]) ∧ Swept c s₀ s.i done := by
  obtain ⟨done, hes, hdone⟩ := h.swept
  refine ⟨done, ?_, hdone⟩
  rw [regularEvents_snoc, hes, runEvents_snoc]
  exact List.append_assoc _ _ _

theorem hitAfter_ahead {n : Nat} {q : Int} (hq : s.i < q) :
    hitAfter c n s (q - c.queueStart) = s.hit (q - c.queueStart) := by
  unfold hitAfter
  split
  · exact Function.update_of_ne (by omega) _ _
  · rfl

/-- The run that ends with this poll has the bursts an aggressive run has. -/
theorem Progress.run (h : Progress c s₀ es bursts s) {n : Nat} (hr : repolls c n s = false) :
    AggressiveRun c (bursts ++ [n]) where
  nonempty := by simp
  repolled := by
    intro r hlt
    have hbudget := h.budget
    rw [List.length_append, List.length_singleton] at hlt ⊢
    by_cases hlast : r < bursts.length
    · obtain ⟨hfull, ha⟩ := h.repolled bursts[r] (List.getElem_mem hlast)
      rw [List.getElem_append_left hlast]
      exact ⟨fun _ => ⟨ha, hfull, by omega⟩, fun _ => by omega⟩
    · have hlen : r = bursts.length := by omega
      subst hlen
      rw [List.getElem_append_right (Nat.le_refl _)]
      simp only [repolls, decide_eq_false_iff_not] at hr
      constructor
      · intro hlt
        omega
      · rintro ⟨ha, hn, hlt⟩
        exact absurd ⟨ha, by simpa using hn, by omega⟩ hr

/-- **One step in the middle of a sweep.** -/
theorem Progress.step (h : Progress c s₀ es bursts s) (hmode : c.mode ≠ .shared)
    (hs : InSweep c s) (hm : LoopMove c s x e s') (he : e.isSweepEnd = false) :
    ∃ bursts', Progress c s₀ (es ++ [e]) bursts' s' := by
  have hbudget := h.budget
  cases hm with
  | sweepEnd => cases he
  | busy _ _ _ hsh _ => exact absurd hsh hmode
  | lost _ _ _ hsh _ => exact absurd hsh hmode
  | stale _ _ _ _ hst => rw [hs.restores] at hst; cases hst
  | skip hi hp =>
    -- a queue is skipped before its first poll only
    have hfull := hs.budget_of_penalised hp
    have hnil : bursts = [] := List.eq_nil_of_length_eq_zero (by omega)
    obtain ⟨done, hes, hdone⟩ := h.swept
    subst hnil
    refine ⟨[], ⟨done ++ [.skip s.i], ?_, hdone.skip ((h.sitsOut_eq rfl).trans hp)⟩,
      (Nat.zero_add _).trans hfull, by simp, by simp, ?_, ?_, by simp, by simp only; omega⟩
    · rw [regularEvents_snoc, hes]
      simp [PollEvent.isDiversion, runEvents]
    · intro q hq
      have hlt : s.i < q := Int.lt_trans (Int.lt_succ s.i) hq
      exact (Function.update_of_ne (by omega) _ _).trans (h.ahead q hlt)
    · intro _
      exact (Function.update_of_ne (by simp only; omega) _ _).trans (h.ahead _ (Int.lt_succ s.i))
  | diverted =>
    obtain ⟨done, hes, hdone⟩ := h.swept
    refine ⟨bursts, ⟨done, ?_, hdone⟩, hbudget, h.repolled, h.polled, h.ahead, h.here, h.inside,
      h.index_le⟩
    rw [regularEvents_snoc, hes]
    exact List.append_nil _
  | repoll hi hp _ _ _ hr =>
    have hpos := repolls_budget hr
    obtain ⟨ha, hn, -⟩ : c.aggressive = true ∧ x.nbRx = MAX_PKT_BURST ∧ 0 < s.maxLoops := by
      simpa [repolls] using hr
    refine ⟨bursts ++ [x.nbRx], by simpa using h.swept_snoc x.nbRx, ?_, ?_, ?_, ?_, by simp,
      by simpa using hi, by simpa using h.index_le⟩
    · simp only [List.length_append, List.length_singleton]
      omega
    · intro n hmem
      rcases List.mem_append.mp hmem with hmem | hmem
      · exact h.repolled n hmem
      · rw [List.mem_singleton.mp hmem]
        exact ⟨hn, ha⟩
    · intro _
      simpa using h.sitsOut_false hp
    · intro q hq
      have hlt : s.i < q := by simpa using hq
      exact (hitAfter_ahead hlt).trans (h.ahead q hlt)
  | advance hi hp _ _ _ hr =>
    obtain ⟨done, hes, hdone⟩ := h.swept_snoc x.nbRx
    refine ⟨[], ⟨_, ?_, hdone.run (h.sitsOut_false hp) (h.run hr)⟩, Nat.zero_add _, by simp,
      by simp, ?_, ?_, by simp, by simp only; omega⟩
    · rw [hes]
      exact (List.append_nil _).symm
    · intro q hq
      have hlt : s.i < q := Int.lt_trans (Int.lt_succ s.i) hq
      exact (hitAfter_ahead hlt).trans (h.ahead q hlt)
    · intro _
      exact (hitAfter_ahead (Int.lt_succ s.i)).trans (h.ahead _ (Int.lt_succ s.i))

end Step

/-! ## The indices of a step -/

/-- The indices with which a step reads or writes `hit`. -/
def hitIndices (c : LoopCfg) (s : LoopState) (x : PollInput) : List Int :=
  let qi := s.i - c.queueStart
  if s.i < c.queueEnd then
    (if 0 < c.turns then [qi] else []) ++
      if penalised c s then []
      else
        let d := injectLatency c s
        if c.mode = .shared ∧ x.lock = false then []
        else
          let r := accountLatency c d
          if r.2 = false ∧ 0 < c.turns ∧ r.1.maxLoops = QFLOW_MAX_CONSECUTIVE_POLLS then
            [if c.mode = .partitioned then qi else r.1.i]
          else []
  else []

/-- The same for mica's copy of the loop. -/
def Mica.hitIndices (c : MicaCfg) (s : MicaState) (x : PollInput) : List Int :=
  let qi := s.i - c.first
  if s.i < c.last then
    (if 0 < c.turns then [qi] else []) ++
      if penalised c s qi then []
      else
        let d := divert c s
        if c.mode = .shared ∧ x.lock = false then []
        else
          let l := latencyBlock c d
          if l.2 = false ∧ 0 < c.turns ∧ l.1.maxLoops = QFLOW_MAX_CONSECUTIVE_POLLS then
            [if c.mode = .partitioned then qi else l.1.i]
          else []
  else []

theorem Mica.hitIndices_loop (c : MicaCfg) (s : MicaState) (x : PollInput) :
    PollLoop.hitIndices c.nfChain s.loop x = hitIndices c s x := by
  have hpen : PollLoop.penalised c.nfChain s.loop = penalised c s (s.i - c.first) := rfl
  unfold PollLoop.hitIndices hitIndices
  simp only [hpen, divert_loop, latencyBlock_loop]
  rfl

/-- Every index into the counters is the current queue's own. -/
theorem hitIndices_eq {c : LoopCfg} {s : LoopState} {x : PollInput} (h : Settled c s) {j : Int}
    (hj : j ∈ hitIndices c s x) : s.i < c.queueEnd ∧ j = s.i - c.queueStart := by
  have hne : s.i ≠ -1 := by
    have := c.start_nonneg
    have := h.start_le
    omega
  unfold hitIndices at hj
  simp only at hj
  split at hj
  · rename_i hi
    refine ⟨hi, ?_⟩
    rcases List.mem_append.mp hj with hj | hj
    · split at hj
      · exact List.mem_singleton.mp hj
      · cases hj
    · split at hj
      · cases hj
      · split at hj
        · cases hj
        · split at hj
          · rename_i hacc
            rw [List.mem_singleton.mp hj]
            cases hd : injects c s with
            | true =>
              rw [accountLatency_of_inject hd hne] at hacc
              cases hacc.1
            | false =>
              have hdiv : injectLatency c s = s := by simp [injectLatency, hd]
              rw [hdiv, accountLatency_counts h.restores, countPoll_i]
              exact c.hitIndex s.i
          · cases hj
  · cases hj

/-- Every queue index is in the slice. -/
theorem LoopMove.queue_mem {c : LoopCfg} {s s' : LoopState} {x : PollInput} {e : PollEvent}
    (hm : LoopMove c s x e s') (h : c.queueStart ≤ s.i) {q : Int} (hq : e.queue? = some q) :
    c.queueStart ≤ q ∧ q < c.queueEnd := by
  have hown : s.i < c.queueEnd → s.i = q → c.queueStart ≤ q ∧ q < c.queueEnd := by
    rintro hi rfl
    exact ⟨h, hi⟩
  have hlat : injects c s = true → c.latencyQueue = q → c.queueStart ≤ q ∧ q < c.queueEnd := by
    rintro hd rfl
    simp only [injects, LoopCfg.latencyOn, LoopCfg.hasLatencyQueue, Bool.and_eq_true,
      decide_eq_true_eq] at hd
    exact hd.1.2
  cases hm with
  | sweepEnd => cases hq
  | skip hi => exact hown hi (Option.some.inj hq)
  | busy hi => exact hown hi (Option.some.inj hq)
  | lost _ _ hd => exact hlat hd (Option.some.inj hq)
  | diverted _ _ hd => exact hlat hd (Option.some.inj hq)
  | stale hi => exact hown hi (Option.some.inj hq)
  | repoll hi => exact hown hi (Option.some.inj hq)
  | advance hi => exact hown hi (Option.some.inj hq)

/-! ## The theorem -/

/-- The events of one sweep, its end left out, that started in state `s`. -/
structure SweepStructure (c : LoopCfg) (s : LoopState) (es : List PollEvent) : Prop where
  visits : ∃ runs : Int → List Nat,
    regularEvents es = c.slice.flatMap (visitEvents c s runs) ∧
      ∀ q ∈ c.slice, sitsOut c s q = false → AggressiveRun c (runs q)
  polls : es.countP PollEvent.isRegularPoll ≤
    (QFLOW_MAX_CONSECUTIVE_POLLS + 1) * (c.queueEnd - c.queueStart).toNat
  visited : ∀ q ∈ c.slice, .skip q ∈ es ∨ ∃ n, .poll q n false false ∈ es

/-- Steps `T, …, T + L` of a stream of events are a sweep, which ends with the last of them. -/
structure SweepSteps (ev : ℕ → PollEvent) (T L : ℕ) : Prop where
  after : T = 0 ∨ ∃ u, T = u + 1 ∧ (ev u).isSweepEnd = true
  inside : ∀ j < L, (ev (T + j)).isSweepEnd = false
  ends : (ev (T + L)).isSweepEnd = true

/-- A run of the loop, given by its states, its events and the counter indices of its steps: every
    step lies in a sweep, the sweeps have the structure above, and no queue or counter outside the
    slice and its array is used. -/
structure SweepsOf (c : LoopCfg) (st : ℕ → LoopState) (ev : ℕ → PollEvent)
    (idx : ℕ → List Int) : Prop where
  sweeps : ∀ t, ∃ T L, T ≤ t ∧ t ≤ T + L ∧ SweepSteps ev T L ∧
    SweepStructure c (st T) ((List.range L).map (fun j => ev (T + j)))
  queues : ∀ t q, (ev t).queue? = some q →
    c.queueStart ≤ q ∧ q < c.queueEnd ∧ q < MAX_RX_QUEUE_PER_LCORE
  counters : ∀ t, ∀ j ∈ idx t, 0 ≤ j ∧ j < c.queueEnd - c.queueStart ∧ j < MAX_RX_QUEUE_PER_LCORE

/-- A sweep that has come to the end of the slice. -/
theorem Swept.structure {c : LoopCfg} {s : LoopState} {es : List PollEvent} {q : Int}
    (h : Swept c s q (regularEvents es)) (hq : q = max c.queueStart c.queueEnd) :
    SweepStructure c s es := by
  have hall : (q - c.queueStart).toNat = (c.queueEnd - c.queueStart).toNat := by omega
  have hslice : queuesBefore c q = c.slice := by
    unfold LoopCfg.slice queuesBefore
    rw [hall]
  have hpolls := h.polls_le
  obtain ⟨runs, hes, hruns⟩ := h.visits
  rw [hslice] at hes hruns
  refine ⟨⟨runs, hes, hruns⟩, ?_, ?_⟩
  · -- only regular events are counted
    rw [hall] at hpolls
    refine Nat.le_trans (Nat.le_of_eq ?_) hpolls
    unfold regularEvents
    rw [List.countP_filter]
    refine List.countP_congr fun e _ => ?_
    cases e with
    | poll _ _ d _ => cases d <;> simp [PollEvent.isRegularPoll, PollEvent.isDiversion]
    | _ => simp [PollEvent.isRegularPoll]
  · intro q' hq'
    have hvisit : ∀ e ∈ visitEvents c s runs q', e ∈ es := by
      intro e he
      have hmem : e ∈ regularEvents es := by
        rw [hes]
        exact List.mem_flatMap.mpr ⟨q', hq', he⟩
      exact List.mem_of_mem_filter hmem
    cases hs : sitsOut c s q' with
    | true =>
      refine Or.inl (hvisit _ ?_)
      simp [visitEvents, hs]
    | false =>
      obtain ⟨n, rest, hrun⟩ := List.exists_cons_of_ne_nil (hruns q' hq' hs).nonempty
      refine Or.inr ⟨n, hvisit _ ?_⟩
      simp [visitEvents, hs, hrun, runEvents]

section Run

variable {c : LoopCfg} (hmode : c.mode ≠ .shared) (x : ℕ → PollInput)

include hmode in
theorem inSweep_stateBefore (t : ℕ) : InSweep c (stateBefore c x t) :=
  (pollLoop c).stateAt_inv (fun _ y hs => inSweep_step hmode y hs) (InSweep.init c) x t

include hmode in
/-- The record of a sweep after any number of its steps. -/
theorem progress_run {k T L : ℕ} (hT : SweepStart c x k T)
    (hin : ∀ j < L, (eventOf c x (T + j)).isSweepEnd = false) :
    ∀ j ≤ L, ∃ bursts, Progress c (stateBefore c x T)
      ((List.range j).map (fun u => eventOf c x (T + u))) bursts (stateBefore c x (T + j)) := by
  intro j
  induction j with
  | zero => exact fun _ => ⟨[], Progress.start hT.index hT.budget⟩
  | succ j ih =>
    intro hj
    obtain ⟨bursts, hp⟩ := ih (by omega)
    have hs := inSweep_stateBefore hmode x (T + j)
    have hm := step_move hs.start_le (x (T + j))
    rw [List.range_succ, List.map_append]
    exact hp.step hmode hs hm (hin j (by omega))

include hmode in
/-- A sweep that starts ends, and what it has done by then is the whole slice. -/
theorem SweepStart.structure {k T : ℕ} (hT : SweepStart c x k T) :
    ∃ L, SweepStart c x (k + 1) (T + L + 1) ∧ SweepSteps (eventOf c x) T L ∧
      SweepStructure c (stateBefore c x T) ((List.range L).map (fun j => eventOf c x (T + j))) ∧
      ∀ t, sweepAt c x t = k ↔ T ≤ t ∧ t ≤ T + L := by
  obtain ⟨L, hnext, hend, hin, hspan⟩ := hT.next hmode
  have hs := inSweep_stateBefore hmode x (T + L)
  have hmark : (eventOf c x (T + L)).isSweepEnd = true :=
    (eventOf_isSweepEnd hs.toSettled).trans (decide_eq_true hend)
  refine ⟨L, hnext, ⟨hT.after, hin, hmark⟩, ?_, hspan⟩
  obtain ⟨bursts, hp⟩ := progress_run hmode x hT hin L (Nat.le_refl _)
  have hnil : bursts = [] := by
    by_contra hne
    have := hp.inside hne
    omega
  have hindex : (stateBefore c x (T + L)).i = max c.queueStart c.queueEnd := by
    have := hp.index_le
    have := hs.start_le
    omega
  subst hnil
  obtain ⟨done, hes, hdone⟩ := hp.swept
  rw [show runEvents _ [] = [] from rfl, List.append_nil] at hes
  rw [← hes] at hdone
  exact hdone.structure hindex

include hmode in
theorem SweepStart.exists (k : ℕ) : ∃ T, SweepStart c x k T := by
  induction k with
  | zero => exact ⟨0, SweepStart.zero c x⟩
  | succ k ih =>
    obtain ⟨T, hT⟩ := ih
    obtain ⟨L, hnext, -⟩ := hT.structure hmode x
    exact ⟨T + L + 1, hnext⟩

include hmode in
/-- The runs of nf-chain's loop. -/
theorem sweepsOf_pollLoop (hend : c.queueEnd ≤ MAX_RX_QUEUE_PER_LCORE) :
    SweepsOf c (stateBefore c x) (eventOf c x) (fun t => hitIndices c (stateBefore c x t) (x t)) := by
  have h0 := c.start_nonneg
  refine ⟨fun t => ?_, fun t q hq => ?_, fun t j hj => ?_⟩
  · obtain ⟨T, hT⟩ := SweepStart.exists hmode x (sweepAt c x t)
    obtain ⟨L, -, hsteps, hstruct, hspan⟩ := hT.structure hmode x
    obtain ⟨h1, h2⟩ := (hspan t).mp rfl
    exact ⟨T, L, h1, h2, hsteps, hstruct⟩
  · have hs := (inSweep_stateBefore hmode x t).toSettled
    obtain ⟨h1, h2⟩ := (step_move hs.start_le (x t)).queue_mem hs.start_le hq
    exact ⟨h1, h2, by omega⟩
  · have hs := (inSweep_stateBefore hmode x t).toSettled
    obtain ⟨hi, rfl⟩ := hitIndices_eq hs hj
    have := hs.start_le
    exact ⟨by omega, by omega, by omega⟩

end Run

/-- The runs of mica's loop. -/
theorem Mica.sweepsOf_micaLoop {c : MicaCfg} (hmode : c.mode ≠ .shared)
    (hend : c.last ≤ MAX_RX_QUEUE_PER_LCORE) (x : ℕ → PollInput) :
    let st := (micaLoop c).stateAt (MicaState.init c) x
    SweepsOf c.nfChain (fun t => (st t).loop) ((micaLoop c).eventAt (MicaState.init c) x)
      (fun t => hitIndices c (st t) (x t)) := by
  have h := sweepsOf_pollLoop (c := c.nfChain) hmode x hend
  have hst : stateBefore c.nfChain x =
      fun t => ((micaLoop c).stateAt (MicaState.init c) x t).loop := funext (stateAt_loop c x)
  have hev : eventOf c.nfChain x = (micaLoop c).eventAt (MicaState.init c) x :=
    funext (eventAt_eq c x)
  rw [hst, hev] at h
  simpa only [hitIndices_loop] using h

/-- **The structure of a sweep**, for nf-chain and for mica, with any policy, any slice of at most
    2048 queues and any stream of burst sizes. -/
theorem sweep_structure (x : ℕ → PollInput) :
    (∀ c : LoopCfg, c.mode ≠ .shared → c.queueEnd ≤ MAX_RX_QUEUE_PER_LCORE →
      SweepsOf c (stateBefore c x) (eventOf c x)
        (fun t => hitIndices c (stateBefore c x t) (x t))) ∧
    (∀ c : Mica.MicaCfg, c.mode ≠ .shared → c.last ≤ MAX_RX_QUEUE_PER_LCORE →
      SweepsOf c.nfChain (fun t => ((Mica.micaLoop c).stateAt (.init c) x t).loop)
        ((Mica.micaLoop c).eventAt (.init c) x)
        (fun t => Mica.hitIndices c ((Mica.micaLoop c).stateAt (.init c) x t) (x t))) :=
  ⟨fun _ hmode hend => sweepsOf_pollLoop hmode x hend,
    fun _ hmode hend => Mica.sweepsOf_micaLoop hmode hend x⟩

theorem sweep_structure_allPolicies :
    let x : ℕ → PollInput := fun t => ⟨true, t % (MAX_PKT_BURST + 1)⟩
    let c := LoopCfg.allPolicies .single
    let m := Mica.MicaCfg.allPolicies .partitioned
    SweepsOf c (stateBefore c x) (eventOf c x) (fun t => hitIndices c (stateBefore c x t) (x t)) ∧
      SweepsOf m.nfChain (fun t => ((Mica.micaLoop m).stateAt (.init m) x t).loop)
        ((Mica.micaLoop m).eventAt (.init m) x)
        (fun t => Mica.hitIndices m ((Mica.micaLoop m).stateAt (.init m) x t) (x t)) :=
  ⟨(sweep_structure _).1 (.allPolicies .single) (by decide) (by decide),
    (sweep_structure _).2 (.allPolicies .partitioned) (by decide) (by decide)⟩

end QueueDpdk.PollLoop
