import QueueDpdk.PollLoop.Mica
import QueueDpdk.PollLoop.Contention

/-!
# The modes run one scheduler

Mode constants choose the slice, the counter array and its index, and whether a trylock is made.
None of this changes the schedule.

* `LoopCfg.rebased` — Single mode over the queues of a slice, renumbered from 0;
  `partitioned_trace` renames the run of the slice to a run of it.
* `LoopCfg.single` — Single mode over all queues; `shared_trace` identifies the runs of Shared mode
  in which every trylock succeeds with the runs of it.
* `modes_run_one_scheduler` — both for both programs, and the two programs with each other.
-/

set_option autoImplicit false

namespace QueueDpdk.PollLoop

open Lib

/-! ## Partitioned mode -/

/-- Single mode over `queueEnd - queueStart` queues.  The latency queue is renamed with the others,
    and Latency is off if it is not in the slice. -/
def LoopCfg.rebased (c : LoopCfg) : LoopCfg where
  mode := .single
  aggressive := c.aggressive
  penalty := c.penalty
  latencyMode := c.latencyMode && c.hasLatencyQueue
  latencyPeriod := c.latencyPeriod
  latencyQueue := c.latencyQueue - c.queueStart
  queueStart := 0
  queueEnd := c.queueEnd - c.queueStart
  start_nonneg := LoopCfg.zero_nonneg
  start_zero := fun _ => rfl

/-- Queue `q` becomes queue `q - a`. -/
def PollEvent.renamed (a : Int) : PollEvent → PollEvent
  | .skip q => .skip (q - a)
  | .busy q diverted => .busy (q - a) diverted
  | .poll q n diverted latencyPoll => .poll (q - a) n diverted latencyPoll
  | .sweepEnd => .sweepEnd

/-- The loop index and a saved one are renamed, the counters are not. -/
def LoopState.renamed (a : Int) (s : LoopState) : LoopState :=
  { s with i := s.i - a, resumeI := if s.resumeI = -1 then -1 else s.resumeI - a }

theorem LoopState.renamed_advance (a : Int) (s : LoopState) (hit : Int → Int) (i : Int)
    (maxLoops : Nat) :
    ({ s with hit := hit, i := i, maxLoops := maxLoops } : LoopState).renamed a =
      { s.renamed a with hit := hit, i := i - a, maxLoops := maxLoops } := rfl

section Rebased

variable {c : LoopCfg} {s s' : LoopState} {x : PollInput} {e : PollEvent}

theorem LoopCfg.rebased_latencyOn (c : LoopCfg) : c.rebased.latencyOn = c.latencyOn := by
  have hlt : (0 ≤ c.latencyQueue - c.queueStart ∧
      c.latencyQueue - c.queueStart < c.queueEnd - c.queueStart) ↔
      (c.queueStart ≤ c.latencyQueue ∧ c.latencyQueue < c.queueEnd) := by omega
  have hhas : c.rebased.hasLatencyQueue = c.hasLatencyQueue := decide_eq_decide.mpr hlt
  have hmode : c.rebased.latencyMode = (c.latencyMode && c.hasLatencyQueue) := rfl
  rw [LoopCfg.latencyOn, hhas, hmode, Bool.and_assoc, Bool.and_self]
  rfl

theorem penalised_rebased : penalised c.rebased (s.renamed c.queueStart) = penalised c s := by
  simp [penalised, LoopCfg.rebased, LoopState.renamed, LoopCfg.turns]

theorem injects_rebased : injects c.rebased (s.renamed c.queueStart) = injects c s := by
  simp [injects, LoopCfg.rebased_latencyOn, LoopState.renamed]

theorem restores_rebased (h : s.resumeI = -1) :
    restores c.rebased (s.renamed c.queueStart) = false := by
  simp [restores, LoopState.renamed, h]

theorem hitAfter_rebased (n : Nat) :
    hitAfter c.rebased n (s.renamed c.queueStart) = hitAfter c n s := by
  simp [hitAfter, LoopCfg.rebased, LoopState.renamed, LoopCfg.turns, penaltyAfter]

theorem countPoll_rebased :
    countPoll c.rebased (s.renamed c.queueStart) = (countPoll c s).renamed c.queueStart := by
  have hq : (s.renamed c.queueStart).i ≠ c.rebased.latencyQueue ↔ s.i ≠ c.latencyQueue := by
    simp only [LoopState.renamed, LoopCfg.rebased]
    omega
  have hp : c.rebased.latencyPeriod = c.latencyPeriod := rfl
  have hn : (s.renamed c.queueStart).latencyCount = s.latencyCount := rfl
  unfold countPoll
  simp only [LoopCfg.rebased_latencyOn, hq, hp, hn]
  split
  · split <;> rfl
  · rfl

/-- A move of the slice is the same move of the renumbered queues. -/
theorem LoopMove.rebased (hm : LoopMove c s x e s') (hmode : c.mode ≠ .shared)
    (hs : Settled c s) :
    LoopMove c.rebased (s.renamed c.queueStart) x (e.renamed c.queueStart)
      (s'.renamed c.queueStart) := by
  have hlock : ¬(c.rebased.mode = .shared ∧ x.lock = false) := fun h => by cases h.1
  have hin : s.i < c.queueEnd → (s.renamed c.queueStart).i < c.rebased.queueEnd := by
    simp only [LoopState.renamed, LoopCfg.rebased]
    omega
  have hnext : ∀ i : Int, i - c.queueStart + 1 = i + 1 - c.queueStart := by
    intro i
    omega
  cases hm with
  | sweepEnd hend =>
    have hend' : c.rebased.queueEnd ≤ (s.renamed c.queueStart).i := by
      simp only [LoopState.renamed, LoopCfg.rebased]
      omega
    convert LoopMove.sweepEnd (x := x) hend' using 1
    · rfl
    · simp [LoopState.renamed, LoopCfg.rebased]
  | skip hi hp =>
    convert LoopMove.skip (x := x) (hin hi) (penalised_rebased.trans hp) using 1
    · rfl
    · simp [LoopState.renamed, countSkip, LoopCfg.rebased, hnext, hs.resume]
  | busy _ _ _ hsh _ => exact absurd hsh hmode
  | lost _ _ _ hsh _ => exact absurd hsh hmode
  | diverted hi hp hd hl =>
    convert LoopMove.diverted (hin hi) (penalised_rebased.trans hp) (injects_rebased.trans hd)
      hlock using 1
    · rfl
    · rfl
  | stale _ _ _ _ hst => rw [hs.restores] at hst; cases hst
  | repoll hi hp hd hl hst hr =>
    convert LoopMove.repoll (hin hi) (penalised_rebased.trans hp) (injects_rebased.trans hd) hlock
      (restores_rebased hs.resume) hr using 1
    · rfl
    · simp only [countPoll_rebased, hitAfter_rebased]
      rfl
  | advance hi hp hd hl hst hr =>
    convert LoopMove.advance (hin hi) (penalised_rebased.trans hp) (injects_rebased.trans hd) hlock
      (restores_rebased hs.resume) hr using 1
    · rfl
    · rw [countPoll_rebased, hitAfter_rebased, LoopState.renamed_advance, ← hnext]
      rfl

end Rebased

theorem init_rebased (c : LoopCfg) :
    (LoopState.init c).renamed c.queueStart = LoopState.init c.rebased := by
  simp [LoopState.init, LoopState.renamed, LoopCfg.rebased, LoopCfg.turns]

/-- **A slice is Single mode over fewer queues**: every run over the slice is, with the queues
    renamed, the run of the rebased configuration on the same bursts. -/
theorem partitioned_trace {c : LoopCfg} (hmode : c.mode ≠ .shared) (xs : List PollInput) :
    ((pollLoop c).trace (LoopState.init c) xs).map
        (Move.map (LoopState.renamed c.queueStart) (PollEvent.renamed c.queueStart)) =
      (pollLoop c.rebased).trace (LoopState.init c.rebased) xs := by
  rw [← init_rebased]
  refine (pollLoop c).trace_map (I := Settled c) (P := fun _ => True) ?_ xs _ (Settled.init c)
    (fun _ _ => trivial)
  intro s x hs _
  refine ⟨settled_step hmode x hs, step_eq ?_ ((step_move hs.start_le x).rebased hmode hs)⟩
  have := hs.start_le
  simp only [LoopState.renamed, LoopCfg.rebased]
  omega

/-! ## Shared mode -/

/-- Single mode over all queues, with the same policies. -/
def LoopCfg.single (c : LoopCfg) (h : c.mode = .shared) : LoopCfg :=
  { c with mode := .single, start_zero := fun _ => c.start_zero (by rw [h]; decide) }

/-- A move that loses no lock is a move of Single mode. -/
theorem LoopMove.single {c : LoopCfg} {s s' : LoopState} {x : PollInput} {e : PollEvent}
    (hm : LoopMove c s x e s') (h : c.mode = .shared) (he : e.isBusy = false) :
    LoopMove (c.single h) s x e s' := by
  have hlock : ¬((c.single h).mode = .shared ∧ x.lock = false) := fun h => by cases h.1
  cases hm with
  | sweepEnd hend => exact .sweepEnd hend
  | skip hi hp => exact .skip hi hp
  | busy => cases he
  | lost => cases he
  | diverted hi hp hd _ => exact .diverted hi hp hd hlock
  | stale hi hp hd _ hs => exact .stale hi hp hd hlock hs
  | repoll hi hp hd _ hs hr => exact .repoll hi hp hd hlock hs hr
  | advance hi hp hd _ hs hr => exact .advance hi hp hd hlock hs hr

/-- **Shared mode without contention is Single mode**: a run in which no trylock fails is the run
    of Single mode over all queues on the same bursts. -/
theorem shared_trace {c : LoopCfg} (h : c.mode = .shared) (xs : List PollInput)
    (hfree : ∀ m ∈ (pollLoop c).trace (LoopState.init c) xs, m.event.isBusy = false) :
    (pollLoop c).trace (LoopState.init c) xs =
      (pollLoop (c.single h)).trace (LoopState.init (c.single h)) xs := by
  have hmap := (pollLoop c).trace_map (N := pollLoop (c.single h)) (g := id) (r := id)
    (I := Settled c) (P := fun m => m.event.isBusy = false) ?_ xs _ (Settled.init c) hfree
  · rw [Move.map_id, List.map_id] at hmap
    exact hmap
  · intro s x hs he
    have hm := step_move hs.start_le x
    exact ⟨hm.settled hs (PollEvent.not_lost he), step_eq hs.start_le (hm.single h he)⟩

/-- The same for one of several lcores that run at the same time. -/
theorem shared_lcoreTrace {c : LoopCfg} (h : c.mode = .shared) {κ : Type} [DecidableEq κ] (k : κ)
    (xs : List (κ × PollInput)) (hfree : ∀ m ∈ lcoreTrace c k xs, m.event.isBusy = false) :
    lcoreTrace c k xs =
      (pollLoop (c.single h)).trace (LoopState.init (c.single h)) (Machine.inputsOf k xs) := by
  rw [lcoreTrace_eq] at hfree ⊢
  exact shared_trace h _ hfree

/-! ## mica -/

namespace Mica

/-- Single mode over the queues of the slice, renumbered from 0. -/
def MicaCfg.rebased (c : MicaCfg) : MicaCfg where
  mode := .single
  aggressive := c.aggressive
  penalty := c.penalty
  latencyMode := c.latencyMode && c.hasLatencyQueue
  latencyPeriod := c.latencyPeriod
  latencyQueue := c.latencyQueue - c.first
  firstQueue := 0
  lastQueue := c.lastQueue - c.firstQueue
  first_le := UInt16.le_iff_toNat_le.mpr (Nat.zero_le _)
  first_zero := fun _ => rfl

/-- Single mode over all queues, with the same policies. -/
def MicaCfg.single (c : MicaCfg) (h : c.mode = .shared) : MicaCfg :=
  { c with mode := .single, first_zero := fun _ => c.first_zero (by rw [h]; decide) }

theorem nfChain_rebased (c : MicaCfg) : c.rebased.nfChain = c.nfChain.rebased := by
  have hlast : c.rebased.last = c.last - c.first := by
    have := UInt16.le_iff_toNat_le.mp c.first_le
    unfold MicaCfg.rebased MicaCfg.last MicaCfg.first
    rw [UInt16.toNat_sub_of_le _ _ c.first_le]
    omega
  unfold LoopCfg.rebased
  simp only [MicaCfg.nfChain, hlast]
  rfl

theorem nfChain_single (c : MicaCfg) (h : c.mode = .shared) :
    (c.single h).nfChain = c.nfChain.single h := rfl

/-- mica's run over a slice, the queues renamed, is its run in Single mode. -/
theorem partitioned_trace {c : MicaCfg} (hmode : c.mode ≠ .shared) (xs : List PollInput) :
    ((micaLoop c).trace (MicaState.init c) xs).map
        (Move.map (fun s => s.loop.renamed c.first) (PollEvent.renamed c.first)) =
      ((micaLoop c.rebased).trace (MicaState.init c.rebased) xs).map
        (Move.map MicaState.loop id) := by
  rw [trace_loop, nfChain_rebased, ← PollLoop.partitioned_trace (c := c.nfChain) hmode,
    ← trace_loop, List.map_map]
  rfl

/-- mica's run in Shared mode, if no trylock fails, is its run in Single mode. -/
theorem shared_trace {c : MicaCfg} (h : c.mode = .shared) (xs : List PollInput)
    (hfree : ∀ m ∈ (micaLoop c).trace (MicaState.init c) xs, m.event.isBusy = false) :
    ((micaLoop c).trace (MicaState.init c) xs).map (Move.map MicaState.loop id) =
      ((micaLoop (c.single h)).trace (MicaState.init (c.single h)) xs).map
        (Move.map MicaState.loop id) := by
  rw [trace_loop, trace_loop, nfChain_single]
  apply PollLoop.shared_trace (c := c.nfChain) h
  rw [← trace_loop]
  simpa [Move.map] using hfree

end Mica

/-! ## The theorem -/

/-- **The modes run one scheduler**, in nf-chain and in mica, and the two programs run the same
    one.  A run of Partitioned mode is, with the queues of the slice renamed, the run of Single
    mode over as many queues; the part of a lcore in a run of Shared mode is, if none of its
    trylocks fails, the run of Single mode over all queues; and mica's moves are nf-chain's.  The
    moves carry the state after every step: index, Penalty counters, budget and Latency counters. -/
theorem modes_run_one_scheduler :
    (∀ c : LoopCfg, c.mode = .partitioned → ∀ xs,
      ((pollLoop c).trace (.init c) xs).map
          (Move.map (LoopState.renamed c.queueStart) (PollEvent.renamed c.queueStart)) =
        (pollLoop c.rebased).trace (.init c.rebased) xs) ∧
    (∀ (c : LoopCfg) (h : c.mode = .shared) (κ : Type) [DecidableEq κ] (k : κ)
        (xs : List (κ × PollInput)), (∀ m ∈ lcoreTrace c k xs, m.event.isBusy = false) →
      lcoreTrace c k xs =
        (pollLoop (c.single h)).trace (.init (c.single h)) (Machine.inputsOf k xs)) ∧
    (∀ c : Mica.MicaCfg, c.mode = .partitioned → ∀ xs,
      ((Mica.micaLoop c).trace (.init c) xs).map
          (Move.map (fun s => s.loop.renamed c.first) (PollEvent.renamed c.first)) =
        ((Mica.micaLoop c.rebased).trace (.init c.rebased) xs).map
          (Move.map Mica.MicaState.loop id)) ∧
    (∀ (c : Mica.MicaCfg) (h : c.mode = .shared) (κ : Type) [DecidableEq κ] (k : κ)
        (xs : List (κ × PollInput)),
      let run := ((Machine.fleet (fun _ : κ => Mica.micaLoop c)).trace (fun _ => .init c) xs).filterMap
        (Machine.seenBy k)
      (∀ m ∈ run, m.event.isBusy = false) →
      run.map (Move.map Mica.MicaState.loop id) =
        ((Mica.micaLoop (c.single h)).trace (.init (c.single h)) (Machine.inputsOf k xs)).map
          (Move.map Mica.MicaState.loop id)) ∧
    (∀ (o : QflowOpts) (first last : UInt16) (h : first ≤ last)
        (h' : o.mode ≠ .partitioned → first = 0) (xs : List PollInput),
      ((Mica.micaLoop (.ofOpts o first last h h')).trace (.init (.ofOpts o first last h h')) xs).map
          (Move.map Mica.MicaState.loop id) =
        (pollLoop (.ofOpts o first.toNat last.toNat (Int.natCast_nonneg _)
          (fun hm => by rw [h' hm]; rfl))).trace (.init (.ofOpts o first.toNat last.toNat
          (Int.natCast_nonneg _) (fun hm => by rw [h' hm]; rfl))) xs) := by
  refine ⟨?_, ?_, ?_, ?_, ?_⟩
  · intro c hc xs
    exact partitioned_trace (by rw [hc]; decide) xs
  · intro c h κ _ k xs hfree
    exact shared_lcoreTrace h k xs hfree
  · intro c hc xs
    exact Mica.partitioned_trace (by rw [hc]; decide) xs
  · intro c h κ _ k xs run hfree
    have hrun : run = (Mica.micaLoop c).trace (.init c) (Machine.inputsOf k xs) :=
      Machine.fleet_trace (fun _ : κ => Mica.micaLoop c) k xs _
    rw [hrun] at hfree ⊢
    exact Mica.shared_trace h _ hfree
  · intro o first last h h' xs
    exact Mica.trace_loop (.ofOpts o first last h h') xs

/-- A slice that starts at queue 1, and two lcores of Shared mode whose trylocks succeed. -/
theorem modes_run_one_scheduler_slice :
    let c := LoopCfg.ofOpts { qflowOptsInit with penalty := true, mode := .partitioned } 1 3
      (by decide) (fun h => absurd rfl h)
    let xs := List.replicate 7 (PollInput.mk true 20)
    let s := LoopCfg.allPolicies .shared
    let ys : List (Fin 2 × PollInput) := xs.flatMap (fun x => [(0, x), (1, x)])
    ((pollLoop c).trace (.init c) xs).map
        (Move.map (LoopState.renamed c.queueStart) (PollEvent.renamed c.queueStart)) =
      (pollLoop c.rebased).trace (.init c.rebased) xs ∧
    lcoreTrace s 0 ys =
      (pollLoop (s.single rfl)).trace (.init (s.single rfl)) (Machine.inputsOf 0 ys) := by
  obtain ⟨hslice, hshared, -⟩ := modes_run_one_scheduler
  exact ⟨hslice _ rfl _, hshared _ rfl _ 0 _ (by decide +kernel)⟩

end QueueDpdk.PollLoop
