import QueueDpdk.Chain.Ownership

/-!
# The end of the program (`nf-chain/src/main.c`)

`poll_loop` runs on every lcore until `force_quit` is set, which the signal handler does.  A stop
packet ends the loop of the lcore that receives it.

* `program` — the lcores, in any interleaving, with `force_quit` between them.
* `ends_after_sweep` — once `force_quit` is set an lcore finishes its sweep at most.
* `pending_consumed` — which mbufs have been consumed when a stop packet ends the loop.
* `clean_shutdown_iff` — when a stop packet shuts the program down cleanly.
-/

set_option autoImplicit false

namespace QueueDpdk.Chain

open Lib PollLoop NatFlow

/-! ## The program -/

/-- Where an lcore is: at the test of the while loop, in a sweep, or out of `poll_loop`. -/
inductive Phase where
  | check
  | sweep
  | returned
deriving DecidableEq, Repr

structure LcoreState where
  chain : ChainState
  phase : Phase

/-- The lcores and the global `force_quit`. -/
structure ProgramState (κ : Type) where
  lcores : κ → LcoreState
  forceQuit : Bool

/-- A signal, or a step of an lcore. -/
inductive ProgramInput (κ : Type) where
  | signal
  | step (k : κ) (x : ChainInput)

/-- A step that an lcore makes in a sweep. -/
structure LcoreStep (κ : Type) where
  lcore : κ
  input : ChainInput
  event : ChainEvent

/-- Where an lcore is after a step in a sweep. -/
def phaseAfter (chain : ChainState) (e : ChainEvent) : Phase :=
  if chain.stopped = true then .returned
  else if e.poll = some .sweepEnd then .check
  else .sweep

/-- `poll_loop` with the loop around the sweeps. -/
def lcoreStep (c : ChainCfg) (forceQuit : Bool) (l : LcoreState) (x : ChainInput) :
    LcoreState × Option ChainEvent :=
  match l.phase with
  | .returned => (l, none)
  | .check => ({ l with phase := if forceQuit then .returned else .sweep }, none)
  | .sweep =>
    let (chain, e) := chainStep c l.chain x
    (⟨chain, phaseAfter chain e⟩, some e)

section Lcore

variable {c : ChainCfg} {forceQuit : Bool} {l : LcoreState} {x : ChainInput}

theorem lcoreStep_returned (h : l.phase = .returned) : lcoreStep c forceQuit l x = (l, none) := by
  rw [lcoreStep, h]

theorem lcoreStep_check (h : l.phase = .check) : lcoreStep c forceQuit l x =
    ({ l with phase := if forceQuit then .returned else .sweep }, none) := by
  rw [lcoreStep, h]

theorem lcoreStep_sweep (h : l.phase = .sweep) : lcoreStep c forceQuit l x =
    (⟨(chainStep c l.chain x).1, phaseAfter (chainStep c l.chain x).1 (chainStep c l.chain x).2⟩,
      some (chainStep c l.chain x).2) := by
  rw [lcoreStep, h]

end Lcore

variable {κ : Type} [DecidableEq κ]

def programStep (cfg : κ → ChainCfg) (s : ProgramState κ) :
    ProgramInput κ → ProgramState κ × Option (LcoreStep κ)
  | .signal => ({ s with forceQuit := true }, none)
  | .step k x =>
    let (l, e) := lcoreStep (cfg k) s.forceQuit (s.lcores k) x
    ({ s with lcores := Function.update s.lcores k l }, e.map (fun e => ⟨k, x, e⟩))

def program (cfg : κ → ChainCfg) : Machine (ProgramState κ) (ProgramInput κ) (Option (LcoreStep κ)) :=
  ⟨programStep cfg⟩

/-- `main` has launched the lcores. -/
def ProgramState.init (cfg : κ → ChainCfg) (heap : κ → Heap) (shards : κ → Nat → FlowManager) :
    ProgramState κ :=
  ⟨fun k => ⟨.init (cfg k) (heap k) (shards k), .check⟩, false⟩

/-- The steps that an lcore has made in its sweeps. -/
def stepsOf (k : κ) (events : List (Option (LcoreStep κ))) : List (LcoreStep κ) :=
  (events.filterMap id).filter (fun step => step.lcore = k)

/-- What an lcore has done to its mbufs. -/
def lcoreTrace (k : κ) (events : List (Option (LcoreStep κ))) : List MbufEvent :=
  (stepsOf k events).flatMap (fun step => step.event.mbufs)

/-! ## Packets by mbuf -/

/-- The packets of a run of an lcore; packet `m` is the one received in mbuf `m`. -/
def receivedPackets (c : ChainCfg) : ChainState → List ChainInput → List Packet
  | _, [] => []
  | s, x :: xs => (if (s.polls c x).isSome then x.packets else []) ++
      receivedPackets c (chainStep c s x).1 xs

/-- How often an mbuf was taken by the card or freed. -/
def consumed (tr : List MbufEvent) (m : Nat) : Nat := tr.count (.accepted m) + tr.count (.freed m)

/-- The mbufs an lcore has at hand when it receives a burst: its batch and the burst. -/
def ChainState.pending (s : ChainState) (x : ChainInput) : List Nat := s.txBatch ++ s.pktsBurst x

section Consumed

variable {c : ChainCfg} {s s' : ChainState} {x : ChainInput} {e : ChainEvent} {q : Int} {m : Nat}

theorem consumed_append (tr tr' : List MbufEvent) (m : Nat) :
    consumed (tr ++ tr') m = consumed tr m + consumed tr' m := by
  unfold consumed
  rw [List.count_append, List.count_append]
  omega

theorem consumed_eq_zero {tr : List MbufEvent} (h : ∀ a ∈ tr, a ≠ .accepted m ∧ a ≠ .freed m) :
    consumed tr m = 0 := by
  have hacc : tr.count (.accepted m) = 0 := List.count_eq_zero.mpr (fun ha => (h _ ha).1 rfl)
  have hfree : tr.count (.freed m) = 0 := List.count_eq_zero.mpr (fun ha => (h _ ha).2 rfl)
  rw [consumed, hacc, hfree]

theorem consumed_used {tr : List MbufEvent} (h : ∀ a ∈ tr, ∃ n, a = .used n) :
    consumed tr m = 0 := by
  apply consumed_eq_zero
  intro a ha
  obtain ⟨n, rfl⟩ := h a ha
  exact ⟨by simp, by simp⟩

/-- The preparation frees the packets it does not keep, once. -/
theorem prepareFrom_freed (m : Nat) : ∀ (pkts ahead : List Nat) (heap : Heap) (acl : AclSearch),
    pkts.Nodup → (prepareFrom heap acl pkts ahead).2.2.count (.freed m) =
      if m ∈ pkts ∧ aclKind (heap m) = none then 1 else 0 := by
  intro pkts
  induction pkts with
  | nil =>
    intro ahead heap acl _
    rw [if_neg (fun h => List.not_mem_nil h.1)]
    rfl
  | cons pkt rest ih =>
    intro ahead heap acl hnd
    obtain ⟨hnot, hnd⟩ := List.nodup_cons.mp hnd
    simp only [prepareFrom, prepareOnePacket_eq, List.count_append]
    have hahead : ((ahead.take 1).map MbufEvent.used).count (.freed m) = 0 := by
      rw [List.count_eq_zero, List.mem_map]
      rintro ⟨n, -, hn⟩
      cases hn
    rw [ih _ _ _ hnd, hahead]
    by_cases hm : m = pkt
    · subst hm
      by_cases hk : aclKind (heap m) = none
      · simp [hk, hnot]
      · simp [hk, hnot]
    · have hone : (MbufEvent.used pkt ::
          if aclKind (heap pkt) = none then [MbufEvent.freed pkt] else []).count (.freed m) = 0 := by
        rw [List.count_eq_zero]
        split <;> simp [hm]
      rw [hone, Function.update_of_ne hm]
      simp [hm]

/-- **The loops over a burst** up to its translation consume what the preparation does not keep. -/
theorem burst_consumed (c : ChainCfg) (s : ChainState) (q : Int) (x : ChainInput) (m : Nat) :
    consumed ((s.pktsBurst x).map MbufEvent.received ++ (s.prepare x).2.2 ++
      (s.process c q x).2.1) m =
      if m ∈ s.pktsBurst x ∧ aclKind (s.receive x m) = none then 1 else 0 := by
  have hreceived : consumed ((s.pktsBurst x).map MbufEvent.received) m = 0 := by
    apply consumed_eq_zero
    intro a ha
    obtain ⟨n, -, rfl⟩ := List.mem_map.mp ha
    exact ⟨by simp, by simp⟩
  have hprocess : consumed (s.process c q x).2.1 m = 0 := by
    apply consumed_used
    intro a ha
    obtain ⟨n, -, rfl⟩ := process_mem ha
    exact ⟨n, rfl⟩
  have haccepted : (s.prepare x).2.2.count (.accepted m) = 0 := by
    rw [List.count_eq_zero]
    intro ha
    rcases (prepare_spec s x).accesses _ ha with ⟨n, -, hn⟩ | ⟨n, -, -, hn⟩
    · cases hn
    · cases hn
  have hfreed : (s.prepare x).2.2.count (.freed m) =
      if m ∈ s.pktsBurst x ∧ aclKind (s.receive x m) = none then 1 else 0 := by
    unfold ChainState.prepare prepareAclParameter
    dsimp only
    rw [List.count_append, prepareFrom_freed m _ _ _ _ (pktsBurst_nodup s x)]
    have hahead : (((s.pktsBurst x).take PREFETCH_OFFSET).map MbufEvent.used).count (.freed m) = 0 := by
      rw [List.count_eq_zero, List.mem_map]
      rintro ⟨n, -, hn⟩
      cases hn
    rw [hahead, Nat.zero_add]
  rw [consumed_append, consumed_append, hreceived, hprocess, consumed, haccepted, hfreed]
  omega

/-- What stays in the batch is not given away. -/
theorem transmit_pending {mode : QflowMode} {txBatch pktsBurst : List Nat} {nbTx : Nat}
    (hsingle : mode = .single → txBatch = []) (hnew : ∀ n ∈ pktsBurst, n ∉ txBatch)
    (hm : m ∈ (transmit mode txBatch pktsBurst nbTx).1) :
    consumed (transmit mode txBatch pktsBurst nbTx).2 m = 0 := by
  unfold transmit at hm ⊢
  split at hm
  · rename_i hmode
    rw [hsingle hmode] at hm
    cases hm
  · rename_i hmode
    rw [if_neg hmode]
    split at hm
    · rename_i hfull
      rw [if_pos hfull]
      apply consumed_eq_zero
      intro a ha
      have hold := txBurst_mem ha
      constructor
      · rintro rfl
        exact hnew m hm hold
      · rintro rfl
        exact hnew m hm hold
    · rename_i hfits
      rw [if_neg hfits]
      rfl

/-- **A step** consumes of the mbufs that wait after it those of the burst that the preparation does
    not keep. -/
theorem ChainMove.pending (h : ChainMove c s x s' e)
    (hsingle : c.loop.mode = .single → s.txBatch = []) (hknown : ∀ n ∈ s.txBatch, n < s.nextMbuf)
    (hm : m ∈ s'.txBatch) :
    (m ∈ s.txBatch ∨ (s.polls c x).isSome ∧ m ∈ s.pktsBurst x) ∧
      consumed e.mbufs m =
        if (s.polls c x).isSome ∧ m ∈ s.pktsBurst x ∧ aclKind (s.receive x m) = none then 1
        else 0 := by
  cases h with
  | quiet hp htx hnext hstopped hpoll hmb hv =>
    rw [htx] at hm
    refine ⟨Or.inl hm, ?_⟩
    rw [hmb, if_neg]
    · rfl
    · rintro ⟨hsome, hburst, -⟩
      rcases hp with hp | hp
      · rw [hp] at hsome
        cases hsome
      · rw [ChainState.pktsBurst, hp] at hburst
        cases hburst
  | sweepEnd hp htx hnext hstopped hmb hv =>
    rw [htx, endSweep_batch] at hm
    cases hm
  | stop q hp hstop htx hnext hpoll hmb hv =>
    rw [htx] at hm
    refine ⟨Or.inl hm, ?_⟩
    rw [hmb, burst_consumed]
    exact if_congr (by simp [hp]) rfl rfl
  | sent q hp hstop htx hnext hstopped hpoll hmb hv =>
    have hnew : ∀ n ∈ s.pktsBurst x, n ∉ s.txBatch := by
      intro n hn hold
      have hlow := (mem_pktsBurst.mp hn).1
      have hhigh := hknown n hold
      omega
    rw [htx] at hm
    have hlooked : consumed
        (((s.prepare x).2.1.mIpv4 ++ (s.prepare x).2.1.mIpv6).map MbufEvent.used) m = 0 := by
      apply consumed_used
      intro a ha
      obtain ⟨n, -, rfl⟩ := List.mem_map.mp ha
      exact ⟨n, rfl⟩
    refine ⟨(transmit_batch hm).imp id (fun hburst => ⟨by simp [hp], hburst⟩), ?_⟩
    rw [hmb, consumed_append, consumed_append, burst_consumed, hlooked,
      transmit_pending hsingle hnew hm]
    exact if_congr (by simp [hp]) rfl rfl

end Consumed

/-! ## Runs of one lcore -/

section Runs

variable {c : ChainCfg} {s : ChainState}

theorem receivedPackets_snoc (s : ChainState) (xs : List ChainInput) (x : ChainInput) :
    receivedPackets c s (xs ++ [x]) = receivedPackets c s xs ++
      if (((chainLoop c).final s xs).polls c x).isSome then x.packets else [] := by
  induction xs generalizing s with
  | nil =>
    simp only [receivedPackets, List.nil_append, List.append_nil]
    rfl
  | cons y xs ih =>
    rw [List.cons_append, receivedPackets, receivedPackets, ih, List.append_assoc]
    rfl

theorem ChainMove.next {s' : ChainState} {x : ChainInput} {e : ChainEvent}
    (h : ChainMove c s x s' e) :
    s'.nextMbuf = s.nextMbuf + (if (s.polls c x).isSome then x.packets else []).length := by
  cases h with
  | quiet hp htx hnext hstopped hpoll hmb hv =>
    rw [hnext]
    rcases hp with hp | hp <;> simp [hp]
  | sweepEnd hp htx hnext hstopped hmb hv =>
    rw [hnext]
    simp [hp]
  | stop q hp hstop htx hnext hpoll hmb hv =>
    rw [hnext]
    simp [hp]
  | sent q hp hstop htx hnext hstopped hpoll hmb hv =>
    rw [hnext]
    simp [hp]

/-- Mbufs are numbered as their packets. -/
theorem nextMbuf_eq (s : ChainState) (inputs : List ChainInput) :
    ((chainLoop c).final s inputs).nextMbuf =
      s.nextMbuf + (receivedPackets c s inputs).length := by
  induction inputs using List.reverseRecOn with
  | nil => rfl
  | append_singleton inputs x ih =>
    rw [chain_final_snoc, (chainStep_cases c _ x).next, ih, receivedPackets_snoc,
      List.length_append, Nat.add_assoc]

variable (c) (heap : Heap) (shards : Nat → FlowManager)

theorem nextMbuf_init (inputs : List ChainInput) :
    ((chainLoop c).final (.init c heap shards) inputs).nextMbuf =
      (receivedPackets c (.init c heap shards) inputs).length :=
  (nextMbuf_eq _ inputs).trans (Nat.zero_add _)

theorem known_init (inputs : List ChainInput) :
    (∀ a ∈ mbufTrace c (.init c heap shards) inputs,
      a.mbuf < ((chainLoop c).final (.init c heap shards) inputs).nextMbuf) ∧
    ∀ m ∈ ((chainLoop c).final (.init c heap shards) inputs).txBatch,
      m < ((chainLoop c).final (.init c heap shards) inputs).nextMbuf :=
  known_run (fun _ hm => absurd hm List.not_mem_nil) inputs

/-- A burst that nothing but the preparation consumes, after the run before it. -/
theorem burst_after {inputs : List ChainInput} {x : ChainInput} {m : Nat} {p : Packet}
    (hpolls : (((chainLoop c).final (.init c heap shards) inputs).polls c x).isSome = true)
    (hm : m ∈ ((chainLoop c).final (.init c heap shards) inputs).pktsBurst x)
    (hp : (receivedPackets c (.init c heap shards) (inputs ++ [x]))[m]? = some p)
    (hc : consumed (chainStep c ((chainLoop c).final (.init c heap shards) inputs) x).2.mbufs m =
      if aclKind (((chainLoop c).final (.init c heap shards) inputs).receive x m) = none then 1
      else 0) :
    consumed (mbufTrace c (.init c heap shards) (inputs ++ [x])) m =
      if Kept p.mbuf then 0 else 1 := by
  obtain ⟨hlow, hhigh⟩ := mem_pktsBurst.mp hm
  have hnext := nextMbuf_init c heap shards inputs
  rw [receivedPackets_snoc, if_pos hpolls,
    List.getElem?_append_right (Nat.le_trans (Nat.le_of_eq hnext.symm) hlow), ← hnext] at hp
  have hreceive : ((chainLoop c).final (.init c heap shards) inputs).receive x m = p.mbuf := by
    unfold ChainState.receive
    rw [if_pos hlow, hp]
  have hold : consumed (mbufTrace c (.init c heap shards) inputs) m = 0 := by
    apply consumed_eq_zero
    intro a ha
    have hlt := (known_init c heap shards inputs).1 a ha
    constructor
    · rintro rfl
      exact absurd hlt (Nat.not_lt.mpr hlow)
    · rintro rfl
      exact absurd hlt (Nat.not_lt.mpr hlow)
  rw [mbufTrace_snoc, consumed_append, hold, hc, hreceive]
  unfold Kept
  by_cases hk : aclKind p.mbuf = none
  · simp [hk]
  · simp [hk]

/-- **The mbufs in the batch** have been consumed if the preparation did not keep them. -/
theorem batch_consumed (inputs : List ChainInput) :
    ∀ m ∈ ((chainLoop c).final (.init c heap shards) inputs).txBatch, ∀ p,
      (receivedPackets c (.init c heap shards) inputs)[m]? = some p →
      consumed (mbufTrace c (.init c heap shards) inputs) m = if Kept p.mbuf then 0 else 1 := by
  induction inputs using List.reverseRecOn with
  | nil =>
    intro m hm
    cases hm
  | append_singleton inputs x ih =>
    intro m hm p hp
    rw [chain_final_snoc] at hm
    obtain ⟨hwhere, hc⟩ := (chainStep_cases c _ x).pending (batch_single (fun _ => rfl) inputs)
      (known_init c heap shards inputs).2 hm
    by_cases hburst : m ∈ ((chainLoop c).final (.init c heap shards) inputs).pktsBurst x
    · have hpolls : (((chainLoop c).final (.init c heap shards) inputs).polls c x).isSome = true := by
        rcases hwhere with hold | hnew
        · have hlt := (known_init c heap shards inputs).2 m hold
          exact absurd (mem_pktsBurst.mp hburst).1 (Nat.not_le.mpr hlt)
        · exact hnew.1
      refine burst_after c heap shards hpolls hburst hp (hc.trans ?_)
      exact if_congr ⟨fun h => h.2.2, fun h => ⟨hpolls, hburst, h⟩⟩ rfl rfl
    · have hold := hwhere.resolve_right (fun h => hburst h.2)
      have hlt := (known_init c heap shards inputs).2 m hold
      rw [nextMbuf_init c heap shards inputs] at hlt
      rw [receivedPackets_snoc, List.getElem?_append_left hlt] at hp
      rw [if_neg (fun h => hburst h.2.1)] at hc
      rw [mbufTrace_snoc, consumed_append, ih m hold p hp, hc, Nat.add_zero]

/-- The mbufs at hand have been received. -/
theorem pending_lt {inputs : List ChainInput} {x : ChainInput} {q : Int} {m : Nat}
    (hp : ((chainLoop c).final (.init c heap shards) inputs).polls c x = some q)
    (hm : m ∈ ((chainLoop c).final (.init c heap shards) inputs).pending x) :
    m < (receivedPackets c (.init c heap shards) (inputs ++ [x])).length := by
  have hnext := nextMbuf_init c heap shards inputs
  rw [receivedPackets_snoc, hp, Option.isSome_some, if_pos rfl, List.length_append, ← hnext]
  rcases List.mem_append.mp hm with hbatch | hburst
  · have hlt := (known_init c heap shards inputs).2 m hbatch
    omega
  · exact (mem_pktsBurst.mp hburst).2

/-- **When a stop packet ends the loop**, of the mbufs at hand those have been consumed that the
    preparation did not keep. -/
theorem pending_consumed {inputs : List ChainInput} {x : ChainInput} {q : Int}
    (hp : ((chainLoop c).final (.init c heap shards) inputs).polls c x = some q)
    (hstop : ((chainLoop c).final (.init c heap shards) inputs).stops c q x) :
    ∀ m ∈ ((chainLoop c).final (.init c heap shards) inputs).pending x, ∀ p,
      (receivedPackets c (.init c heap shards) (inputs ++ [x]))[m]? = some p →
      consumed (mbufTrace c (.init c heap shards) (inputs ++ [x])) m =
        if Kept p.mbuf then 0 else 1 := by
  intro m hm p hpacket
  have hmove := chainStep_cases c ((chainLoop c).final (.init c heap shards) inputs) x
  cases hmove with
  | quiet hp' htx hnext hstopped hpoll hmb hv =>
    rcases hp' with hp' | hp'
    · rw [hp] at hp'
      cases hp'
    · exact absurd hp' hstop.ne_nil
  | sweepEnd hp' htx hnext hstopped hmb hv =>
    rw [hp] at hp'
    cases hp'
  | sent q' hp' hstop' htx hnext hstopped hpoll hmb hv =>
    rw [hp] at hp'
    cases hp'
    exact absurd hstop hstop'
  | stop q' hp' hstop' htx hnext hpoll hmb hv =>
    rcases List.mem_append.mp hm with hbatch | hburst
    · refine batch_consumed c heap shards (inputs ++ [x]) m ?_ p hpacket
      rw [chain_final_snoc, htx]
      exact hbatch
    · refine burst_after c heap shards (by rw [hp]; rfl) hburst hpacket ?_
      rw [hmb, burst_consumed]
      exact if_congr ⟨fun h => h.2, fun h => ⟨hburst, h⟩⟩ rfl rfl

end Runs

/-! ## Runs of the program -/

section Program

variable (cfg : κ → ChainCfg) (heap : κ → Heap) (shards : κ → Nat → FlowManager)

theorem stepsOf_snoc (k : κ) (events : List (Option (LcoreStep κ))) (e : Option (LcoreStep κ)) :
    stepsOf k (events ++ [e]) =
      stepsOf k events ++ (e.toList).filter (fun step => step.lcore = k) := by
  unfold stepsOf
  rw [List.filterMap_append, List.filter_append]
  cases e <;> rfl

/-- What an lcore has done in a run of the program is a run of that lcore. -/
structure LcoreRun (s : ProgramState κ) (events : List (Option (LcoreStep κ))) (k : κ) : Prop where
  chain : (s.lcores k).chain = (chainLoop (cfg k)).final (.init (cfg k) (heap k) (shards k))
    ((stepsOf k events).map LcoreStep.input)
  trace : lcoreTrace k events = mbufTrace (cfg k) (.init (cfg k) (heap k) (shards k))
    ((stepsOf k events).map LcoreStep.input)

variable {cfg heap shards}

/-- Nothing happens to an lcore that makes no step in a sweep. -/
theorem LcoreRun.idle {s s' : ProgramState κ} {events : List (Option (LcoreStep κ))} {k : κ}
    {e : Option (LcoreStep κ)} (h : LcoreRun cfg heap shards s events k)
    (hchain : (s'.lcores k).chain = (s.lcores k).chain) (he : ∀ step, e = some step → step.lcore ≠ k) :
    LcoreRun cfg heap shards s' (events ++ [e]) k := by
  have hsteps : stepsOf k (events ++ [e]) = stepsOf k events := by
    rw [stepsOf_snoc]
    cases e with
    | none => simp
    | some step => simp [he step rfl]
  refine ⟨?_, ?_⟩
  · rw [hchain, hsteps]
    exact h.chain
  · rw [lcoreTrace, hsteps]
    exact h.trace

/-- A step in a sweep. -/
theorem LcoreRun.step {s s' : ProgramState κ} {events : List (Option (LcoreStep κ))} {k : κ}
    {x : ChainInput} (h : LcoreRun cfg heap shards s events k)
    (hchain : (s'.lcores k).chain = (chainStep (cfg k) (s.lcores k).chain x).1) :
    LcoreRun cfg heap shards s'
      (events ++ [some ⟨k, x, (chainStep (cfg k) (s.lcores k).chain x).2⟩]) k := by
  have hsteps : stepsOf k (events ++ [some ⟨k, x, (chainStep (cfg k) (s.lcores k).chain x).2⟩]) =
      stepsOf k events ++ [⟨k, x, (chainStep (cfg k) (s.lcores k).chain x).2⟩] := by
    rw [stepsOf_snoc]
    simp
  refine ⟨?_, ?_⟩
  · rw [hchain, hsteps, List.map_append, List.map_cons, List.map_nil, chain_final_snoc, h.chain]
  · have htrace := h.trace
    unfold lcoreTrace at htrace ⊢
    rw [hsteps, List.flatMap_append, htrace, List.map_append, List.map_cons, List.map_nil,
      mbufTrace_snoc, ← h.chain]
    simp

theorem lcore_run (xs : List (ProgramInput κ)) (k : κ) :
    LcoreRun cfg heap shards ((program cfg).final (.init cfg heap shards) xs)
      ((program cfg).events (.init cfg heap shards) xs) k := by
  induction xs using List.reverseRecOn with
  | nil => exact ⟨rfl, rfl⟩
  | append_singleton xs input ih =>
    rw [Machine.final_snoc, Machine.events_snoc]
    obtain ⟨s, hs⟩ : ∃ s, s = (program cfg).final (.init cfg heap shards) xs := ⟨_, rfl⟩
    rw [← hs] at ih ⊢
    cases input with
    | signal => exact ih.idle rfl nofun
    | step j x =>
      have hlcore : ∀ i, i ≠ j →
          (((program cfg).step s (.step j x)).1.lcores i) = s.lcores i := fun i hi =>
        Function.update_of_ne hi ..
      by_cases hk : k = j
      · subst hk
        have hself : (((program cfg).step s (.step k x)).1.lcores k) =
            (lcoreStep (cfg k) s.forceQuit (s.lcores k) x).1 := Function.update_self ..
        have hevent : ((program cfg).step s (.step k x)).2 =
            (lcoreStep (cfg k) s.forceQuit (s.lcores k) x).2.map (fun e => ⟨k, x, e⟩) := rfl
        cases hphase : (s.lcores k).phase with
        | returned =>
          rw [hevent, lcoreStep_returned hphase]
          refine ih.idle ?_ nofun
          rw [hself, lcoreStep_returned hphase]
        | check =>
          rw [hevent, lcoreStep_check hphase]
          refine ih.idle ?_ nofun
          rw [hself, lcoreStep_check hphase]
        | sweep =>
          rw [hevent, lcoreStep_sweep hphase]
          apply ih.step
          rw [hself, lcoreStep_sweep hphase]
      · refine ih.idle ?_ ?_
        · rw [hlcore k hk]
        · intro step he
          obtain ⟨e, -, rfl⟩ := Option.map_eq_some_iff.mp he
          exact fun h => hk h.symm

/-- Only signals set `force_quit`. -/
theorem forceQuit_iff (xs : List (ProgramInput κ)) :
    ((program cfg).final (.init cfg heap shards) xs).forceQuit = true ↔ .signal ∈ xs := by
  induction xs using List.reverseRecOn with
  | nil => exact iff_of_false Bool.false_ne_true (List.not_mem_nil)
  | append_singleton xs input ih =>
    rw [Machine.final_snoc, List.mem_append, ← ih]
    cases input with
    | signal => exact iff_of_true rfl (Or.inr List.mem_cons_self)
    | step k x =>
      show ((program cfg).final (.init cfg heap shards) xs).forceQuit = true ↔ _
      simp

/-- The sweeps that an lcore still ends once `force_quit` is set. -/
def sweepsLeft (l : LcoreState) : ℕ := if l.phase = .sweep then 1 else 0

theorem phaseAfter_sweepEnd {chain : ChainState} {e : ChainEvent}
    (h : e.poll = some .sweepEnd) : phaseAfter chain e ≠ .sweep := by
  unfold phaseAfter
  rw [if_pos h]
  split <;> decide

/-- A step of an lcore uses up the sweeps that it has left. -/
theorem sweepsLeft_step (c : ChainCfg) (l : LcoreState) (x : ChainInput) :
    sweepsLeft (lcoreStep c true l x).1 +
      (lcoreStep c true l x).2.toList.countP (fun e => e.poll = some .sweepEnd) ≤ sweepsLeft l := by
  cases hphase : l.phase with
  | returned =>
    rw [lcoreStep_returned hphase]
    exact Nat.le_refl _
  | check =>
    rw [lcoreStep_check hphase]
    exact Nat.zero_le _
  | sweep =>
    rw [lcoreStep_sweep hphase]
    unfold sweepsLeft
    rw [hphase, if_pos rfl, Option.toList_some, List.countP_singleton]
    by_cases hend : (chainStep c l.chain x).2.poll = some .sweepEnd
    · rw [if_neg (phaseAfter_sweepEnd hend)]
      simp [hend]
    · simp only [hend, decide_false]
      split <;> simp

/-- The steps of an lcore in one step of the program. -/
theorem program_lcore (cfg : κ → ChainCfg) (s : ProgramState κ) (j k : κ) (x : ChainInput) :
    ((programStep cfg s (.step j x)).1.lcores k =
        if k = j then (lcoreStep (cfg k) s.forceQuit (s.lcores k) x).1 else s.lcores k) ∧
      ((programStep cfg s (.step j x)).2.toList.filter (fun step => step.lcore = k)).map
        LcoreStep.event =
        if k = j then (lcoreStep (cfg k) s.forceQuit (s.lcores k) x).2.toList else [] := by
  by_cases hk : k = j
  · subst hk
    rw [if_pos rfl, if_pos rfl]
    refine ⟨Function.update_self .., ?_⟩
    show (((lcoreStep (cfg k) s.forceQuit (s.lcores k) x).2.map _).toList.filter _).map _ = _
    cases (lcoreStep (cfg k) s.forceQuit (s.lcores k) x).2 <;> simp
  · rw [if_neg hk, if_neg hk]
    refine ⟨Function.update_of_ne hk .., ?_⟩
    show (((lcoreStep (cfg j) s.forceQuit (s.lcores j) x).2.map _).toList.filter _).map _ = _
    cases (lcoreStep (cfg j) s.forceQuit (s.lcores j) x).2 <;> simp [Ne.symm hk]

/-- **Once `force_quit` is set** an lcore ends the sweep it is in, and no other. -/
theorem ends_after_sweep {s : ProgramState κ} (hs : s.forceQuit = true) (k : κ)
    (ys : List (ProgramInput κ)) :
    ((stepsOf k ((program cfg).events s ys)).map LcoreStep.event).countP
      (fun e => e.poll = some .sweepEnd) ≤ sweepsLeft (s.lcores k) := by
  suffices h : ((program cfg).final s ys).forceQuit = true ∧
      sweepsLeft (((program cfg).final s ys).lcores k) +
        ((stepsOf k ((program cfg).events s ys)).map LcoreStep.event).countP
          (fun e => e.poll = some .sweepEnd) ≤ sweepsLeft (s.lcores k) by
    omega
  induction ys using List.reverseRecOn with
  | nil => exact ⟨hs, Nat.le_refl _⟩
  | append_singleton ys y ih =>
    obtain ⟨hforce, hcount⟩ := ih
    rw [Machine.final_snoc, Machine.events_snoc, stepsOf_snoc, List.map_append, List.countP_append]
    cases y with
    | signal =>
      refine ⟨rfl, ?_⟩
      simpa [program, programStep] using hcount
    | step j x =>
      refine ⟨hforce, ?_⟩
      obtain ⟨hlcore, hevent⟩ := program_lcore cfg ((program cfg).final s ys) j k x
      show sweepsLeft ((programStep cfg _ _).1.lcores k) +
        (_ + (((programStep cfg _ _).2.toList.filter _).map _).countP _) ≤ _
      rw [hlcore, hevent, hforce]
      by_cases hk : k = j
      · rw [if_pos hk, if_pos hk]
        have hstep := sweepsLeft_step (cfg k) (((program cfg).final s ys).lcores k) x
        omega
      · rw [if_neg hk, if_neg hk]
        simpa using hcount

/-! ## The stop packet -/

variable (cfg heap shards)

/-- An lcore in a sweep receives a burst with a stop packet. -/
def StopsAt (s : ProgramState κ) (k : κ) (x : ChainInput) : Prop :=
  (s.lcores k).phase = .sweep ∧
    ∃ q, (s.lcores k).chain.polls (cfg k) x = some q ∧ (s.lcores k).chain.stops (cfg k) q x

/-- **A clean shutdown**: when `poll_loop` returns because of a stop packet, `force_quit` is set, and
    every mbuf at hand has been taken by the card or freed, once. -/
structure CleanShutdown (xs : List (ProgramInput κ)) (k : κ) (x : ChainInput) : Prop where
  forceQuit : ((program cfg).final (.init cfg heap shards) (xs ++ [.step k x])).forceQuit = true
  consumed : ∀ m ∈ (((program cfg).final (.init cfg heap shards) xs).lcores k).chain.pending x,
    consumed (lcoreTrace k ((program cfg).events (.init cfg heap shards) (xs ++ [.step k x]))) m = 1

/-- The packets an lcore has received in a run. -/
def packetsOf (xs : List (ProgramInput κ)) (k : κ) : List Packet :=
  receivedPackets (cfg k) (.init (cfg k) (heap k) (shards k))
    ((stepsOf k ((program cfg).events (.init cfg heap shards) xs)).map LcoreStep.input)

variable {cfg heap shards}

/-- The burst with the stop packet is the next step of the lcore. -/
theorem StopsAt.steps {xs : List (ProgramInput κ)} {k : κ} {x : ChainInput}
    (h : StopsAt cfg ((program cfg).final (.init cfg heap shards) xs) k x) :
    (stepsOf k ((program cfg).events (.init cfg heap shards)
      (xs ++ [.step k x]))).map LcoreStep.input =
        (stepsOf k ((program cfg).events (.init cfg heap shards) xs)).map LcoreStep.input ++ [x] := by
  have hevent : ((program cfg).step ((program cfg).final (.init cfg heap shards) xs)
      (.step k x)).2 = some ⟨k, x, _⟩ :=
    congrArg (fun r => r.2.map (fun e => (⟨k, x, e⟩ : LcoreStep κ))) (lcoreStep_sweep h.1)
  rw [Machine.events_snoc, stepsOf_snoc, hevent, List.map_append]
  simp

/-- Every mbuf at hand has a packet, and it has been consumed if the preparation did not keep it. -/
theorem StopsAt.consumed {xs : List (ProgramInput κ)} {k : κ} {x : ChainInput}
    (h : StopsAt cfg ((program cfg).final (.init cfg heap shards) xs) k x) :
    ∀ m ∈ (((program cfg).final (.init cfg heap shards) xs).lcores k).chain.pending x, ∃ p,
      (packetsOf cfg heap shards (xs ++ [.step k x]) k)[m]? = some p ∧
      Chain.consumed (lcoreTrace k ((program cfg).events (.init cfg heap shards)
        (xs ++ [.step k x]))) m = if Kept p.mbuf then 0 else 1 := by
  intro m hm
  have hsteps := h.steps
  obtain ⟨-, q, hp, hstop⟩ := h
  have hbefore : LcoreRun cfg heap shards _ _ k := lcore_run xs k
  have hafter : LcoreRun cfg heap shards _ _ k := lcore_run (xs ++ [.step k x]) k
  have htrace := hafter.trace
  unfold packetsOf
  rw [hsteps] at htrace ⊢
  rw [hbefore.chain] at hp hstop hm
  have hpacket := List.getElem?_eq_getElem (pending_lt (cfg k) (heap k) (shards k) hp hm)
  refine ⟨_, hpacket, ?_⟩
  rw [htrace]
  exact pending_consumed (cfg k) (heap k) (shards k) hp hstop m hm _ hpacket

variable (cfg heap shards)

/-- **A stop packet shuts the program down cleanly** just in case a signal has come before it and
    all packets at hand are packets that the preparation frees. -/
theorem clean_shutdown_iff {xs : List (ProgramInput κ)} {k : κ} {x : ChainInput}
    (h : StopsAt cfg ((program cfg).final (.init cfg heap shards) xs) k x) :
    CleanShutdown cfg heap shards xs k x ↔
      .signal ∈ xs ∧
        ∀ m ∈ (((program cfg).final (.init cfg heap shards) xs).lcores k).chain.pending x, ∀ p,
          (packetsOf cfg heap shards (xs ++ [.step k x]) k)[m]? = some p → ¬Kept p.mbuf := by
  have hforce : ((program cfg).final (.init cfg heap shards) (xs ++ [.step k x])).forceQuit = true ↔
      .signal ∈ xs := by
    rw [forceQuit_iff]
    simp
  constructor
  · rintro ⟨hquit, hall⟩
    refine ⟨hforce.mp hquit, fun m hm p hpacket hkept => ?_⟩
    obtain ⟨p', hpacket', hconsumed⟩ := h.consumed m hm
    obtain rfl := Option.some.inj (hpacket.symm.trans hpacket')
    rw [hall m hm, if_pos hkept] at hconsumed
    cases hconsumed
  · rintro ⟨hsignal, hall⟩
    refine ⟨hforce.mpr hsignal, fun m hm => ?_⟩
    obtain ⟨p, hpacket, hconsumed⟩ := h.consumed m hm
    rw [hconsumed, if_neg (hall m hm p hpacket)]

end Program

/-- The stop packet. -/
def stopPacket (packetType : UInt32) : Mbuf :=
  ⟨packetType, 60, fun k => [0, 0, 0, 0, 0, 0, 0, 0, 0, 0, 0, 0, 8, 0, 0x45, 0, 0, 46, 0, 0, 0, 0, 64, 17,
    0, 0, 192, 168, 0, 1, 192, 168, 1, 1, 4, 210, 4, 4, 0, 26, 0, 0, 0, 0, 0, 0, 0, 0, 0x53, 0x54, 0x4f,
    0x50].getD k 0⟩

/-- A step of an lcore that receives one packet. -/
def receiveOne (pkt : Mbuf) : ChainInput :=
  ⟨true, [⟨pkt, ⟨0, 0, 0, fun m => m, fun m => m⟩⟩], 0⟩

/-- Two lcores that share a queue. -/
def twoLcores : Fin 2 → ChainCfg := fun _ => .oneQueue .shared (fun _ _ => 1)

def zeroHeap : Fin 2 → Heap := fun _ _ => ⟨0, 0, fun _ => 0⟩

/-- The shards as `nf_init` leaves them. -/
def freshShards : Fin 2 → Nat → FlowManager := fun _ _ =>
  flowManagerAllocate Memory.zero nfInitConfig.startPort nfInitConfig.externalAddr
    nfInitConfig.wanDevice nfInitConfig.expirationTime nfInitConfig.maxFlows.toUInt64 true

/-- A stop packet that the preparation frees, after a signal. -/
theorem clean_shutdown_freed :
    CleanShutdown twoLcores zeroHeap freshShards [.step 0 (receiveOne (stopPacket 1)), .signal] 0
      (receiveOne (stopPacket 1)) := by
  have hstops : StopsAt twoLcores ((program twoLcores).final (.init twoLcores zeroHeap freshShards)
      [.step 0 (receiveOne (stopPacket 1)), .signal]) 0 (receiveOne (stopPacket 1)) := by
    refine ⟨by decide +kernel, 0, by decide +kernel, ?_⟩
    unfold ChainState.stops
    decide +kernel
  refine (clean_shutdown_iff twoLcores zeroHeap freshShards hstops).mpr ⟨by simp, ?_⟩
  intro m _ p hp
  have hpackets : packetsOf twoLcores zeroHeap freshShards ([.step 0 (receiveOne (stopPacket 1)),
      .signal] ++ [.step 0 (receiveOne (stopPacket 1))]) 0 =
      (receiveOne (stopPacket 1)).packets := rfl
  rw [hpackets] at hp
  rw [List.mem_singleton.mp (List.mem_of_getElem? hp)]
  decide +kernel

/-- A stop packet: the other lcore goes on, and the packet is lost. -/
theorem stop_packet_lost :
    let xs : List (ProgramInput (Fin 2)) := [.step 0 (receiveOne (stopPacket 16))]
    StopsAt twoLcores ((program twoLcores).final (.init twoLcores zeroHeap freshShards) xs) 0
        (receiveOne (stopPacket 16)) ∧
      ¬CleanShutdown twoLcores zeroHeap freshShards xs 0 (receiveOne (stopPacket 16)) := by
  intro xs
  refine ⟨⟨by decide +kernel, 0, by decide +kernel, ?_⟩, fun h => ?_⟩
  · unfold ChainState.stops
    decide +kernel
  · exact absurd h.forceQuit (by decide +kernel)

end QueueDpdk.Chain
