import QueueDpdk.Chain.Loop

/-!
# Ownership of mbufs in the chain

Every mbuf that `rte_eth_rx_burst` hands out should go back once: taken by `rte_eth_tx_burst` or
freed.  `prepare_one_packet` frees the packets it does not keep, but it leaves them in the burst that
is translated, counted and sent.

* `MbufsConsumed` — each received mbuf is consumed once and a freed one is left alone.
* `holding_run` — as long as every packet is kept, the mbufs owned are those that wait in the batch.
* `mbufs_consumed_iff` — on runs that end with a sweep, the mbufs are consumed properly if and only
  if the preparation keeps every packet received.
-/

set_option autoImplicit false

namespace QueueDpdk.Chain

open Lib PollLoop NatFlow

/-- Each mbuf received is taken by the card or freed, once; a freed one is left alone. -/
structure MbufsConsumed (tr : List MbufEvent) : Prop where
  once : ∀ m, .received m ∈ tr → tr.count (.accepted m) + tr.count (.freed m) = 1
  late : ∀ l m r, tr = l ++ .freed m :: r → .used m ∉ r ∧ .offered m ∉ r

/-- All packets received in a step satisfy `P`. -/
def Receives (c : ChainCfg) (P : Mbuf → Prop) (s : ChainState) (x : ChainInput) : Prop :=
  ∀ q, s.polls c x = some q → ∀ p ∈ x.packets, P p.mbuf

/-- A packet that does not stop the program. -/
def NotStop (pkt : Mbuf) : Prop := checkPacketMagic pkt.data STOP_MAGIC ≠ 0
deriving Decidable

/-- A packet that `prepare_one_packet` does not free. -/
def Kept (pkt : Mbuf) : Prop := aclKind pkt ≠ none
deriving Decidable

/-! ## Mbufs as resources -/

theorem OwnedOnce.consumed {tr : List MbufEvent} (h : OwnedOnce (tr.map MbufEvent.access)) :
    MbufsConsumed tr := by
  constructor
  · intro m hm
    rw [← count_release]
    exact h.once m (List.mem_map_of_mem hm)
  · intro l m r hsplit
    have hlate := h.late (l.map MbufEvent.access) m (r.map MbufEvent.access) (by
      rw [hsplit, List.map_append, List.map_cons]
      rfl)
    refine ⟨fun hu => hlate ?_, fun ho => hlate ?_⟩
    · exact List.mem_map_of_mem (f := MbufEvent.access) hu
    · exact List.mem_map_of_mem (f := MbufEvent.access) ho

section Steps

variable {c : ChainCfg} {s s' : ChainState} {x : ChainInput} {e : ChainEvent} {q : Int} {m : Nat}

/-- A burst without a stop packet does not stop the lcore. -/
theorem Receives.not_stops (h : Receives c NotStop s x) (hp : s.polls c x = some q) :
    ¬s.stops c q x := by
  have hret : (s.process c q x).2.2 = 0 := by
    apply nfProcessBurst_spec
    · rw [zip_envs]
      exact pktsBurst_nodup s x
    · intro m hm
      rw [zip_envs] at hm
      obtain ⟨p, hpkt, hrec⟩ := receive_burst hm
      show checkPacketMagic ((s.prepare x).1 m).data STOP_MAGIC ≠ 0
      rw [(prepare_spec s x).inside m hm, hrec, checkPacketMagic_prepared]
      exact h q hp p hpkt
  unfold ChainState.stops
  omega

/-- The preparation of a burst of kept packets frees nothing. -/
theorem Receives.prepare_used (h : Receives c Kept s x) (hp : s.polls c x = some q)
    {a : MbufEvent} (ha : a ∈ (s.prepare x).2.2) : ∃ m ∈ s.pktsBurst x, a = .used m := by
  rcases (prepare_spec s x).accesses a ha with ⟨m, hm, rfl⟩ | ⟨m, hm, hk, -⟩
  · exact ⟨m, hm.elim id id, rfl⟩
  · obtain ⟨p, hpkt, hrec⟩ := receive_burst hm
    rw [hrec] at hk
    exact absurd hk (h q hp p hpkt)

/-- **A step that keeps every packet** leaves the mbufs of the batch as the ones owned. -/
theorem ChainMove.holding (h : ChainMove c s x s' e)
    (hsingle : c.loop.mode = .single → s.txBatch = []) (hstop : Receives c NotStop s x)
    (hkept : Receives c Kept s x) {tr : List MbufEvent} (hknown : ∀ a ∈ tr, a.mbuf < s.nextMbuf)
    (hold : Holding (tr.map MbufEvent.access) s.txBatch) :
    Holding ((tr ++ e.mbufs).map MbufEvent.access) s'.txBatch := by
  cases h with
  | quiet hp htx hnext hstopped hpoll hm hv =>
    rw [hm, htx, List.append_nil]
    exact hold
  | sweepEnd hp htx hnext hstopped hm hv =>
    rw [hm, htx, List.map_append]
    exact endSweep_holding hsingle hold x.nbTx
  | stop q hp hstops htx hnext hpoll hm hv => exact absurd hstops (hstop.not_stops hp)
  | sent q hp hstops htx hnext hstopped hpoll hm hv =>
    have hreceived : Holding
        (tr.map MbufEvent.access ++ ((s.pktsBurst x).map MbufEvent.received).map MbufEvent.access)
        (s.txBatch ++ s.pktsBurst x) := by
      have hacq : MbufEvent.access ∘ MbufEvent.received = Access.acquire := rfl
      rw [List.map_map, hacq]
      apply hold.acquireAll (s.pktsBurst x) (pktsBurst_nodup s x)
      intro m hm hmem
      have hlt : m < s.nextMbuf := hknown _ (acquire_mem hmem)
      have := (mem_pktsBurst.mp hm).1
      omega
    -- from the preparation to the verdicts the packets of the burst are used, and no more
    have huses : ∀ a ∈ (s.prepare x).2.2 ++ (s.process c q x).2.1 ++
        ((s.prepare x).2.1.mIpv4 ++ (s.prepare x).2.1.mIpv6).map MbufEvent.used,
        ∃ m ∈ s.pktsBurst x, a = .used m := by
      intro a ha
      simp only [List.mem_append] at ha
      rcases ha with (ha | ha) | ha
      · exact hkept.prepare_used hp ha
      · exact process_mem ha
      · obtain ⟨m, hm, rfl⟩ := List.mem_map.mp ha
        exact ⟨m, looked_mem hm, rfl⟩
    have hused := hreceived.useAll (((s.prepare x).2.2 ++ (s.process c q x).2.1 ++
      ((s.prepare x).2.1.mIpv4 ++ (s.prepare x).2.1.mIpv6).map MbufEvent.used).map
        MbufEvent.access) (by
      intro y hy
      obtain ⟨a, ha, rfl⟩ := List.mem_map.mp hy
      obtain ⟨m, hm, rfl⟩ := huses a ha
      exact ⟨m, List.mem_append_right _ hm, rfl⟩)
    have hsent := transmit_holding hsingle hused x.nbTx
    rw [hm, htx]
    simpa only [List.map_append, List.append_assoc] using hsent

/-- A packet that is not kept is used after it was freed. -/
theorem ChainMove.freed_used (h : ChainMove c s x s' e) (hstop : Receives c NotStop s x)
    (hp : s.polls c x = some q) (hm : m ∈ s.pktsBurst x) (hk : aclKind (s.receive x m) = none) :
    ∃ l r, e.mbufs = l ++ .freed m :: r ∧ .used m ∈ r := by
  obtain ⟨-, -, hmb, -⟩ := h.of_polls hp (hstop.not_stops hp) hm
  obtain ⟨l, r, hsplit⟩ := List.append_of_mem ((prepare_spec s x).freed m hm hk)
  have hnat : .used m ∈ (s.process c q x).2.1 := by
    rw [process_sent (hstop.not_stops hp)]
    exact List.mem_map_of_mem hm
  rw [hmb, hsplit]
  refine ⟨(s.pktsBurst x).map MbufEvent.received ++ l, r ++ ((s.process c q x).2.1 ++
    (((s.prepare x).2.1.mIpv4 ++ (s.prepare x).2.1.mIpv6).map MbufEvent.used ++
      (transmit c.loop.mode s.txBatch (s.pktsBurst x) x.nbTx).2)), ?_, ?_⟩
  · simp only [List.append_assoc, List.cons_append]
  · exact List.mem_append_right _ (List.mem_append_left _ hnat)

end Steps

/-! ## Runs -/

section Runs

variable (c : ChainCfg) (heap : Heap) (shards : Nat → FlowManager) (inputs : List ChainInput)

/-- **The ownership invariant** along a run that keeps every packet. -/
theorem holding_run (hstop : (chainLoop c).Along (Receives c NotStop) (.init c heap shards) inputs)
    (hkept : (chainLoop c).Along (Receives c Kept) (.init c heap shards) inputs) :
    Holding ((mbufTrace c (.init c heap shards) inputs).map MbufEvent.access)
      ((chainLoop c).final (.init c heap shards) inputs).txBatch := by
  induction inputs using List.reverseRecOn with
  | nil => exact Holding.nil
  | append_singleton inputs x ih =>
    rw [Machine.along_snoc] at hstop hkept
    have hknown := known_run (c := c) (s := .init c heap shards) (by simp [ChainState.init]) inputs
    rw [mbufTrace_snoc, chain_final_snoc]
    exact (chainStep_cases c _ x).holding (batch_single (fun _ => rfl) inputs) hstop.2 hkept.2
      hknown.1 (ih hstop.1 hkept.1)

/-- **Ownership of mbufs.**  On every run without stop packets, in every mode and whatever the card
    accepts, up to the end of a sweep: each mbuf is consumed once and left alone once freed, if and
    only if every packet received is kept by the preparation. -/
theorem mbufs_consumed_iff
    (hstop : (chainLoop c).Along (Receives c NotStop) (.init c heap shards) inputs)
    (hend : Complete c (.init c heap shards) inputs) :
    MbufsConsumed (mbufTrace c (.init c heap shards) inputs) ↔
      (chainLoop c).Along (Receives c Kept) (.init c heap shards) inputs := by
  constructor
  · intro h ys x zs hsplit q hq p hp hk
    obtain ⟨m, hm, hrec⟩ := burst_receive (s := (chainLoop c).final (.init c heap shards) ys) hp
    obtain ⟨l, r, hev, hused⟩ := (chainStep_cases c _ x).freed_used (hstop ys x zs hsplit) hq hm
      (by rw [hrec, hk])
    have htrace : mbufTrace c (.init c heap shards) inputs =
        (mbufTrace c (.init c heap shards) ys ++ l) ++ .freed m ::
          (r ++ mbufTrace c ((chainLoop c).final (.init c heap shards) (ys ++ [x])) zs) := by
      rw [hsplit, ← List.singleton_append, ← List.append_assoc, mbufTrace_append, mbufTrace_snoc,
        hev]
      simp only [List.append_assoc, List.cons_append]
    exact (h.late _ m _ htrace).1 (List.mem_append_left _ hused)
  · intro hkept
    have hold := holding_run c heap shards inputs hstop hkept
    rw [complete_batch rfl hend] at hold
    exact OwnedOnce.consumed hold.ownedOnce

end Runs

theorem receives_onePacket {c : ChainCfg} {P : Mbuf → Prop} {pkt : Mbuf} (nbTx : Nat) (h : P pkt)
    (s : ChainState) : (chainLoop c).Along (Receives c P) s (onePacket pkt nbTx) := by
  refine (chainLoop c).along_of_forall (fun x hx s q _ p hp => ?_) s
  simp only [onePacket, List.mem_cons, List.not_mem_nil, or_false] at hx
  rcases hx with rfl | rfl
  · rw [List.mem_singleton.mp hp]
    exact h
  · cases hp

/-- A packet that waits in the batch and is turned down by the card. -/
theorem mbufs_consumed_shared :
    MbufsConsumed (mbufTrace (.oneQueue .shared (fun _ _ => 0)) (.oneQueue .shared (fun _ _ => 0))
      (onePacket ipv4Packet 0)) :=
  (mbufs_consumed_iff (.oneQueue .shared (fun _ _ => 0)) _ _ (onePacket ipv4Packet 0)
    (receives_onePacket 0 (by decide +kernel) _)
    (complete_snoc ((onePacket ipv4Packet 0).take 1) (by decide +kernel))).mpr
    (receives_onePacket 0 (by decide +kernel) _)

/-- A frame of zeros is freed by the preparation and taken by the card. -/
theorem malformed_consumed_twice :
    let c := ChainCfg.oneQueue .single (fun _ _ => 0)
    let s := ChainState.oneQueue .single (fun _ _ => 0)
    let inputs := onePacket ⟨0, 60, fun _ => 0⟩ 1
    (chainLoop c).Along (Receives c NotStop) s inputs ∧ Complete c s inputs ∧
      ¬MbufsConsumed (mbufTrace c s inputs) := by
  intro c s inputs
  refine ⟨receives_onePacket 1 (by decide +kernel) s,
    complete_snoc (inputs.take 1) (by decide +kernel), fun h => ?_⟩
  have hreceived : .received 0 ∈ mbufTrace c s inputs := by decide +kernel
  have htwice : (mbufTrace c s inputs).count (.accepted 0) +
      (mbufTrace c s inputs).count (.freed 0) = 2 := by
    decide +kernel
  rw [h.once 0 hreceived] at htwice
  cases htwice

end QueueDpdk.Chain
