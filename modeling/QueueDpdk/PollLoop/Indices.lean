import QueueDpdk.PollLoop.Structure

/-!
# The queues that are polled

All modes, contention included.

* `poll_mem` — every queue that a run polls is in the slice.
* `Fresh` — the state of the first sweep when it has come to a queue: the counters from there on
  hold `penalty` still, so nothing is skipped.
* `exists_poll` — every queue of the slice is polled in some run.
-/

set_option autoImplicit false

namespace QueueDpdk.PollLoop

open Lib

/-- The queues a run of `poll_loop` polls. -/
def Polls (c : LoopCfg) (q : Int) : Prop :=
  ∃ xs n diverted latencyPoll,
    PollEvent.poll q n diverted latencyPoll ∈ (pollLoop c).events (LoopState.init c) xs

section Polls

variable {c : LoopCfg} {s : LoopState} {q : Int}

/-- **No queue outside the slice is polled.** -/
theorem poll_mem (h : Polls c q) : c.queueStart ≤ q ∧ q < c.queueEnd := by
  obtain ⟨xs, n, diverted, latencyPoll, hmem⟩ := h
  obtain ⟨pre, post, hsplit⟩ := List.append_of_mem hmem
  obtain ⟨ys, x, zs, -, -, he, -⟩ := (pollLoop c).events_split_cons hsplit
  have hin : InRange c ((pollLoop c).final (LoopState.init c) ys) :=
    (pollLoop c).final_inv (fun _ y hs => inRange_step y hs) ys (InRange.init c)
  apply (step_move hin.start_le x).queue_mem hin.start_le
  have hstep : (step c ((pollLoop c).final (LoopState.init c) ys) x).2 =
      .poll q n diverted latencyPoll := he.symm
  rw [hstep]
  rfl

/-- The first sweep has come to queue `q`. -/
structure Fresh (c : LoopCfg) (q : Int) (s : LoopState) : Prop where
  index : s.i = q
  resume : s.resumeI = -1
  hits : ∀ j, q - c.queueStart ≤ j → s.hit j = toSigned c.turns

theorem Fresh.init (c : LoopCfg) : Fresh c c.queueStart (LoopState.init c) := by
  constructor <;> simp [LoopState.init]

theorem Fresh.not_penalised (h : Fresh c q s) : penalised c s = false := by
  have hturns : toUnsigned c.turns = c.turns :=
    toUnsigned_of_nonneg (Int.natCast_nonneg _) c.turns_lt
  have hhit := h.hits (s.i - c.queueStart) (h.index ▸ Int.le_refl _)
  simp [penalised, hhit, hturns]

/-- The poll of a queue that is not interrupted, with an empty burst. -/
theorem Fresh.advance (h : Fresh c q s) (hq : q < c.queueEnd) (hstart : c.queueStart ≤ q)
    (hd : injects c s = false) :
    ∃ s', step c s ⟨true, 0⟩ = (s', .poll q 0 false false) ∧ Fresh c (q + 1) s' := by
  have hs : restores c s = false := by simp [restores, h.resume]
  have hr : repolls c 0 s = false := by simp [repolls, MAX_PKT_BURST]
  have hm := LoopMove.advance (x := ⟨true, 0⟩) (h.index ▸ hq) h.not_penalised hd (by simp) hs hr
  refine ⟨_, by rw [step_eq (h.index ▸ hstart) hm, h.index], ?_, by simpa using h.resume, ?_⟩
  · rfl
  · intro j hj
    have hlater : s.hit j = toSigned c.turns := h.hits j (by omega)
    have hne : j ≠ s.i - c.queueStart := by
      rw [h.index]
      omega
    simp only [hitAfter]
    split
    · rw [Function.update_of_ne hne, hlater]
    · exact hlater

/-- A queue is polled when the first sweep comes to it, after a diversion if one is due. -/
theorem Fresh.visit (h : Fresh c q s) (hq : q < c.queueEnd) (hstart : c.queueStart ≤ q) :
    ∃ xs, .poll q 0 false false ∈ (pollLoop c).events s xs ∧
      Fresh c (q + 1) ((pollLoop c).final s xs) := by
  cases hd : injects c s with
  | false =>
    obtain ⟨s', hstep, hfresh⟩ := h.advance hq hstart hd
    refine ⟨[⟨true, 0⟩], ?_, ?_⟩
    · simp [Machine.events, Machine.move, pollLoop, hstep]
    · simpa [pollLoop, hstep] using hfresh
  | true =>
    have hm := LoopMove.diverted (x := ⟨true, 0⟩) (h.index ▸ hq) h.not_penalised hd (by simp)
    have hfirst := step_eq (h.index ▸ hstart) hm
    have hagain : Fresh c q { s with injectQueue := false, resumeI := -1 } :=
      ⟨h.index, rfl, h.hits⟩
    obtain ⟨s', hstep, hfresh⟩ := hagain.advance hq hstart (by simp [injects])
    refine ⟨[⟨true, 0⟩, ⟨true, 0⟩], ?_, ?_⟩
    · simp [Machine.events, Machine.move, pollLoop, hfirst, hstep]
    · simpa [pollLoop, hfirst, hstep] using hfresh

/-- The first sweep comes to every queue. -/
theorem exists_fresh (c : LoopCfg) (d : ℕ) (hd : c.queueStart + d ≤ c.queueEnd) :
    ∃ xs, Fresh c (c.queueStart + d) ((pollLoop c).final (LoopState.init c) xs) := by
  induction d with
  | zero => exact ⟨[], by simpa using Fresh.init c⟩
  | succ d ih =>
    obtain ⟨xs, hxs⟩ := ih (by omega)
    obtain ⟨ys, -, hys⟩ := hxs.visit (by omega) (by omega)
    refine ⟨xs ++ ys, ?_⟩
    rw [Machine.final_append]
    have hnext : c.queueStart + (d + 1 : ℕ) = c.queueStart + d + 1 := by omega
    rwa [hnext]

/-- **Every queue of the slice is polled.** -/
theorem exists_poll (hstart : c.queueStart ≤ q) (hq : q < c.queueEnd) : Polls c q := by
  obtain ⟨xs, hxs⟩ := exists_fresh c (q - c.queueStart).toNat (by omega)
  have hidx : c.queueStart + ((q - c.queueStart).toNat : ℕ) = q := by omega
  rw [hidx] at hxs
  obtain ⟨ys, hmem, -⟩ := hxs.visit hq hstart
  refine ⟨xs ++ ys, 0, false, false, ?_⟩
  unfold Machine.events at hmem ⊢
  rw [Machine.trace_append, List.map_append]
  exact List.mem_append_right _ hmem

end Polls

end QueueDpdk.PollLoop
