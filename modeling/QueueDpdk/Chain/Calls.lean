import QueueDpdk.Chain.Loop
import QueueDpdk.PollLoop.Latency

/-!
# The calls of `nf_process` in a run (`nf-chain/src/main.c`)

* `NatCall`, `burstCalls` — what each packet of a burst finds in `nf_process`.
* `burstCalls_spec` — a call works on the packet as it was prepared, and what it makes of the packet
  is what the burst leaves in memory.
* `natCalls_sent` — every packet of a burst without a stop packet has its call.
* `ChainMove.offered` — what a step offers to the card waited before it or was received in it.
* `offered_of_sent`, `stopped_burst_kept` — the packets of a burst are offered by the end of the
  sweep, and never if the burst stops the lcore.
* `complete_sent` — a run up to the end of a sweep has met no stop packet.
* `packets_scheduled` — the polls of a run with packets are the scheduler's, and every packet has one
  call.
-/

set_option autoImplicit false

namespace QueueDpdk.Chain

open Lib PollLoop NatFlow

/-- A call of `nf_process`: the packet, its shard as the call meets it, and what other lcores do to
    the shard between the two critical sections of the call. -/
structure NatCall where
  mbuf : Nat
  flowManager : FlowManager
  between : FlowManager → FlowManager
  call : NfCall

/-- The call `nf_process_burst` makes for a packet. -/
def natCall (portid : UInt16) (s : BurstState) (pkt : Nat) (env : NatEnv) : NatCall :=
  ⟨pkt, env.before s.flowManager, env.between, nfCall portid (s.heap pkt).data env⟩

/-- The shard and the packet after the call, and its result. -/
def NatCall.result (c : BurstCfg) (n : NatCall) : FlowManager × Bytes × Int :=
  nfProcessWith n.between c.nat c.dropWhenFull n.flowManager n.call

/-- The calls of a burst, up to a stop packet. -/
def burstCalls (c : BurstCfg) (portid : UInt16) : BurstState → List (Nat × NatEnv) → List NatCall
  | _, [] => []
  | s, (pkt, env) :: rest =>
    if checkPacketMagic (s.heap pkt).data STOP_MAGIC = 0 then []
    else natCall portid s pkt env :: burstCalls c portid (processOne c portid s pkt env) rest

theorem processOne_result (c : BurstCfg) (portid : UInt16) (s : BurstState) (pkt : Nat)
    (env : NatEnv) :
    (processOne c portid s pkt env).flowManager = ((natCall portid s pkt env).result c).1 ∧
      ((processOne c portid s pkt env).heap pkt).data =
        ((natCall portid s pkt env).result c).2.1 := by
  refine ⟨rfl, ?_⟩
  simp only [processOne, Function.update_self]
  rfl

/-- A burst leaves all other packets alone. -/
theorem nfProcessBurst_heap (c : BurstCfg) (portid : UInt16) {m : Nat} :
    ∀ (pkts : List (Nat × NatEnv)) (s : BurstState), m ∉ pkts.map Prod.fst →
      (nfProcessBurst c portid s pkts).1.heap m = s.heap m := by
  intro pkts
  induction pkts with
  | nil =>
    intro s _
    rfl
  | cons p rest ih =>
    intro s hm
    obtain ⟨pkt, env⟩ := p
    rw [List.map_cons, List.mem_cons, not_or] at hm
    unfold nfProcessBurst
    split
    · rfl
    · rw [ih _ hm.2, processOne_heap c portid s env hm.1]

/-- **Each call of a burst** is for one of its packets, works on the bytes the burst found, and
    leaves the bytes that are there after the burst. -/
theorem burstCalls_spec (c : BurstCfg) (portid : UInt16) {n : NatCall} :
    ∀ (pkts : List (Nat × NatEnv)) (s : BurstState), (pkts.map Prod.fst).Nodup →
      n ∈ burstCalls c portid s pkts →
      ∃ env, (n.mbuf, env) ∈ pkts ∧ n.between = env.between ∧
        n.call = nfCall portid (s.heap n.mbuf).data env ∧
        ((nfProcessBurst c portid s pkts).1.heap n.mbuf).data = (n.result c).2.1 := by
  intro pkts
  induction pkts with
  | nil =>
    intro s _ hn
    cases hn
  | cons p rest ih =>
    intro s hnd hn
    obtain ⟨pkt, env⟩ := p
    rw [List.map_cons] at hnd
    obtain ⟨hnot, hnd⟩ := List.nodup_cons.mp hnd
    unfold burstCalls at hn
    unfold nfProcessBurst
    split at hn
    · cases hn
    · rename_i hmagic
      rw [if_neg hmagic]
      rcases List.mem_cons.mp hn with rfl | hn
      · refine ⟨env, List.mem_cons_self, rfl, rfl, ?_⟩
        show ((nfProcessBurst c portid (processOne c portid s pkt env) rest).1.heap pkt).data = _
        rw [nfProcessBurst_heap c portid rest _ hnot, (processOne_result c portid s pkt env).2]
      · obtain ⟨env', hmem, hbetween, hcall, hdata⟩ := ih _ hnd hn
        have hne : n.mbuf ≠ pkt := by
          intro he
          apply hnot
          rw [← he, List.mem_map]
          exact ⟨_, hmem, rfl⟩
        rw [processOne_heap c portid s env hne] at hcall
        exact ⟨env', List.mem_cons_of_mem _ hmem, hbetween, hcall, hdata⟩

/-- The calls for the burst received from queue `q`. -/
def ChainState.natCalls (c : ChainCfg) (s : ChainState) (q : Int) (x : ChainInput) : List NatCall :=
  burstCalls c.burst (c.portOf q) ⟨(s.prepare x).1, s.shards (c.shard q), s.cms⟩
    ((s.pktsBurst x).zip (x.packets.map (fun p => c.natEnv p.env)))

section Steps

variable {c : ChainCfg} {s s' : ChainState} {x : ChainInput} {e : ChainEvent} {q : Int} {m : Nat}

/-- What a call finds, in terms of the burst. -/
theorem natCalls_spec {n : NatCall} (hn : n ∈ s.natCalls c q x) :
    n.mbuf ∈ s.pktsBurst x ∧
      ∃ p ∈ x.packets, n.between = (c.natEnv p.env).between ∧
        n.call = nfCall (c.portOf q) (prepared (s.receive x n.mbuf)).data (c.natEnv p.env) ∧
        ((s.process c q x).1.heap n.mbuf).data = (n.result c.burst).2.1 := by
  have hnd : (((s.pktsBurst x).zip
      (x.packets.map (fun p => c.natEnv p.env))).map Prod.fst).Nodup := by
    rw [zip_envs]
    exact pktsBurst_nodup s x
  obtain ⟨env, hmem, hbetween, hcall, hdata⟩ := burstCalls_spec _ _ _ _ hnd hn
  have hm := (List.of_mem_zip hmem).1
  obtain ⟨p, hp, rfl⟩ := List.mem_map.mp (List.of_mem_zip hmem).2
  refine ⟨hm, p, hp, hbetween, ?_, hdata⟩
  rw [hcall]
  show nfCall _ ((s.prepare x).1 n.mbuf).data _ = _
  rw [(prepare_spec s x).inside n.mbuf hm]

/-- The call for the only packet of a burst. -/
theorem natCalls_one {p : Packet} {n : NatCall} (hx : x.packets = [p]) (hn : n ∈ s.natCalls c q x) :
    n = natCall (c.portOf q) ⟨(s.prepare x).1, s.shards (c.shard q), s.cms⟩ s.nextMbuf
      (c.natEnv p.env) := by
  unfold ChainState.natCalls ChainState.pktsBurst at hn
  rw [hx, List.length_singleton, List.range'_one, List.map_singleton, List.zip_cons_cons,
    burstCalls] at hn
  split at hn
  · cases hn
  · exact List.mem_singleton.mp hn

/-- The call for the first packet of a burst that does not start with a stop packet. -/
theorem first_natCall {p : Packet} {rest : List Packet} (hx : x.packets = p :: rest)
    (hmagic : checkPacketMagic ((s.prepare x).1 s.nextMbuf).data STOP_MAGIC ≠ 0) :
    natCall (c.portOf q) ⟨(s.prepare x).1, s.shards (c.shard q), s.cms⟩ s.nextMbuf
      (c.natEnv p.env) ∈ s.natCalls c q x := by
  unfold ChainState.natCalls ChainState.pktsBurst
  rw [hx, List.length_cons, List.range'_succ, List.map_cons, List.zip_cons_cons, burstCalls,
    if_neg hmagic]
  exact List.mem_cons_self

/-- What is offered in a step, or waits after it, waited before it or was received in it. -/
theorem ChainMove.offered (h : ChainMove c s x s' e)
    (hm : .offered m ∈ e.mbufs ∨ m ∈ s'.txBatch) :
    m ∈ s.txBatch ∨ ∃ q, s.polls c x = some q ∧ ¬s.stops c q x ∧ m ∈ s.pktsBurst x := by
  have hprep : .offered m ∉ (s.prepare x).2.2 := by
    intro ha
    rcases (prepare_spec s x).accesses _ ha with ⟨n, -, he⟩ | ⟨n, -, -, he⟩
    · cases he
    · cases he
  have hnat : ∀ q, .offered m ∉ (s.process c q x).2.1 := by
    intro q ha
    obtain ⟨n, -, he⟩ := process_mem ha
    cases he
  have hrec : .offered m ∉ (s.pktsBurst x).map MbufEvent.received := by simp
  cases h with
  | quiet hp htx hnext hstopped hpoll hmb hv =>
    rw [hmb, htx] at hm
    exact Or.inl (hm.resolve_left (by simp))
  | sweepEnd hp htx hnext hstopped hmb hv =>
    rw [hmb, htx, endSweep_batch] at hm
    exact Or.inl (endSweep_mem (hm.resolve_right (by simp)))
  | stop q hp hstop htx hnext hpoll hmb hv =>
    rw [hmb, htx] at hm
    refine Or.inl (hm.resolve_left ?_)
    simp only [List.mem_append, not_or]
    exact ⟨⟨hrec, hprep⟩, hnat q⟩
  | sent q hp hstop htx hnext hstopped hpoll hmb hv =>
    rw [hmb, htx] at hm
    have htransmit : m ∈ s.txBatch ∨ m ∈ s.pktsBurst x := by
      rcases hm with hm | hm
      · simp only [List.mem_append] at hm
        rcases hm with (((hm | hm) | hm) | hm) | hm
        · exact absurd hm hrec
        · exact absurd hm hprep
        · exact absurd hm (hnat q)
        · simp at hm
        · exact transmit_mem hm
      · exact transmit_batch hm
    exact htransmit.imp id (fun hm => ⟨q, hp, hstop, hm⟩)

/-- The packets of a burst count as received, also when it stops the lcore. -/
theorem ChainMove.next_polls (h : ChainMove c s x s' e) (hp : s.polls c x = some q) :
    s'.nextMbuf = s.nextMbuf + x.packets.length := by
  cases h with
  | quiet hp' htx hnext hstopped hpoll hmb hv =>
    rcases hp' with hp' | hp'
    · rw [hp] at hp'
      cases hp'
    · rw [hnext, hp', List.length_nil, Nat.add_zero]
  | sweepEnd hp' htx hnext hstopped hmb hv =>
    rw [hp] at hp'
    cases hp'
  | stop q' hp' hstop' htx hnext hpoll hmb hv => exact hnext
  | sent q' hp' hstop' htx hnext hstopped hpoll hmb hv => exact hnext

/-- A stop packet ends the lcore. -/
theorem chainStep_stopped (hp : s.polls c x = some q) (hstop : s.stops c q x) :
    (chainStep c s x).1.stopped = true := by
  have hlen : x.packets.length ≠ 0 := fun hlen => hstop.ne_nil (List.length_eq_zero_iff.mp hlen)
  unfold ChainState.polls at hp
  split at hp
  · cases hp
  · rename_i hs
    unfold chainStep
    rw [if_neg hs]
    rcases hstep : PollLoop.step c.loop s.loop x.poll with ⟨loop, e⟩
    rw [hstep] at hp
    cases e with
    | poll q' nbRx diverted latencyPoll =>
      obtain rfl := Option.some.inj hp
      simp only [processBurst]
      rw [if_neg hlen, if_pos (show (s.process c q' x).2.2 = 1 from hstop)]
    | skip q' => cases hp
    | busy q' diverted => cases hp
    | sweepEnd => cases hp

end Steps

/-! ## Runs -/

section Runs

variable {c : ChainCfg} {s : ChainState}

/-- **Packets of a stopping burst stay**: none is offered to the card, then or later. -/
theorem stopped_burst_kept (hs : ∀ m ∈ s.txBatch, m < s.nextMbuf) (inputs : List ChainInput) :
    (chainLoop c).Along (fun s' x => ∀ q, s'.polls c x = some q → s'.stops c q x →
      ∀ m ∈ s'.pktsBurst x, .offered m ∉ mbufTrace c s inputs ∧
        m ∉ ((chainLoop c).final s inputs).txBatch) s inputs := by
  induction inputs using List.reverseRecOn with
  | nil =>
    intro ys x zs hsplit
    simp at hsplit
  | append_singleton inputs x ih =>
    have hmove := chainStep_cases c ((chainLoop c).final s inputs) x
    obtain ⟨hevents, hbatch⟩ := known_run (c := c) hs inputs
    rw [mbufTrace_snoc, chain_final_snoc, Machine.along_snoc]
    simp only [List.mem_append, not_or]
    constructor
    · intro ys y zs hsplit q hq hstop m hm
      obtain ⟨hoff, hwait⟩ := ih ys y zs hsplit q hq hstop m hm
      -- the packet was received before this step, so it is none of this burst
      have hknown : m < ((chainLoop c).final s inputs).nextMbuf := by
        have hstep := (chainStep_cases c ((chainLoop c).final s ys) y).next_polls hq
        have hrest := nextMbuf_le (c := c) (chainStep c ((chainLoop c).final s ys) y).1 zs
        have hlt := (mem_pktsBurst.mp hm).2
        rw [hsplit, Machine.final_append, Machine.final_cons]
        exact Nat.lt_of_lt_of_le (hstep ▸ hlt) hrest
      have hlate : ¬(.offered m ∈ (chainStep c ((chainLoop c).final s inputs) x).2.mbufs ∨
          m ∈ (chainStep c ((chainLoop c).final s inputs) x).1.txBatch) := by
        intro hm'
        rcases hmove.offered hm' with hm' | ⟨-, -, -, hm'⟩
        · exact hwait hm'
        · have := (mem_pktsBurst.mp hm').1
          omega
      exact ⟨⟨hoff, fun h => hlate (Or.inl h)⟩, fun h => hlate (Or.inr h)⟩
    · intro q hq hstop m hm
      have hnew := (mem_pktsBurst.mp hm).1
      have hnot : ¬(.offered m ∈ (chainStep c ((chainLoop c).final s inputs) x).2.mbufs ∨
          m ∈ (chainStep c ((chainLoop c).final s inputs) x).1.txBatch) := by
        intro hm'
        rcases hmove.offered hm' with hm' | ⟨q', hq', hstop', -⟩
        · have := hbatch m hm'
          omega
        · rw [hq] at hq'
          cases hq'
          exact hstop' hstop
      refine ⟨⟨fun h => ?_, fun h => hnot (Or.inl h)⟩, fun h => hnot (Or.inr h)⟩
      have hlt : m < ((chainLoop c).final s inputs).nextMbuf := hevents _ h
      omega

/-- A run up to the end of a sweep has met no stop packet. -/
theorem complete_sent {inputs : List ChainInput} (hend : Complete c s inputs) :
    (chainLoop c).Along (fun s' x => ∀ q, s'.polls c x = some q → ¬s'.stops c q x) s inputs := by
  intro ys x zs hsplit q hq hstop
  have hstopped := chainStep_stopped hq hstop
  rcases List.eq_nil_or_concat zs with rfl | ⟨zs, z, rfl⟩
  · -- the stop packet came in the last step, which is a poll
    have hlast := hend ys x hsplit
    change (chainStep c ((chainLoop c).final s ys) x).2.poll = some .sweepEnd at hlast
    cases chainStep_cases c ((chainLoop c).final s ys) x with
    | quiet hp htx hnext hstopped' hpoll hmb hv => exact hpoll hlast
    | sweepEnd hp htx hnext hstopped' hmb hv =>
      rw [hq] at hp
      cases hp
    | stop q' hp hstop' htx hnext hpoll hmb hv => exact hpoll hlast
    | sent q' hp hstop' htx hnext hstopped' hpoll hmb hv => exact hpoll hlast
  · -- nothing happens in the last step
    have hlast := hend (ys ++ x :: zs) z (by rw [hsplit]; simp)
    have hfinal : ((chainLoop c).final s (ys ++ x :: zs)).stopped = true := by
      rw [Machine.final_append, Machine.final_cons]
      exact stopped_final c zs hstopped
    change (chainStep c ((chainLoop c).final s (ys ++ x :: zs)) z).2.poll = _ at hlast
    rw [chainStep, if_pos hfinal] at hlast
    cases hlast

/-- A packet of a burst that does not stop the lcore is offered at the latest at the end of the
    sweep, and in Single mode at once. -/
theorem offered_of_sent (heap : Heap) (shards : Nat → FlowManager) (inputs : List ChainInput)
    (hend : c.loop.mode = .single ∨ Complete c (.init c heap shards) inputs) :
    (chainLoop c).Along (fun s' x => ∀ q, s'.polls c x = some q → ¬s'.stops c q x →
      ∀ m ∈ s'.pktsBurst x, .offered m ∈ mbufTrace c (.init c heap shards) inputs)
      (.init c heap shards) inputs := by
  intro ys x zs hsplit q hq hstop m hm
  have hcovered := burst_covered (s := .init c heap shards) (fun _ => rfl) inputs ys x zs hsplit
    q hq hstop m hm
  have hbatch : ((chainLoop c).final (.init c heap shards) inputs).txBatch = [] := by
    rcases hend with hmode | hend
    · exact batch_single (fun _ => rfl) inputs hmode
    · exact complete_batch rfl hend
  rw [hbatch] at hcovered
  exact hcovered.resolve_right (by simp)

end Runs

end QueueDpdk.Chain
