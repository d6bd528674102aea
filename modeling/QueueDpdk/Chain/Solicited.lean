import QueueDpdk.Chain.Calls
import QueueDpdk.NatFlow.Runs
import QueueDpdk.NatFlow.Shards

/-!
# Unsolicited packets of the WAN (`nf-chain/src/nat_main.c`, `nf-chain/src/main.c`)

For a packet from the WAN `nf_process` looks for the flow of its destination port and compares the
flow with the packet, but all that follows is a line in the log.

* `NatCall.Solicited` — the destination port belongs to a flow with this remote endpoint.
* `AdmitsSolicited` — no other packet from the WAN is changed or passed to `rte_eth_tx_burst`.
* `nfProcess_incoming` — what the function does to a packet from the WAN.
* `solicited_only_iff` — unsolicited packets are kept out only where none arrives.
-/

set_option autoImplicit false

namespace QueueDpdk.Chain

open Lib PollLoop NatFlow

/-! ## Packets -/

/-- The index of the flow an incoming packet is for. -/
def NatCall.index (n : NatCall) : Int := externalIndex n.flowManager n.call.portDst

/-- The flow at that index. -/
def NatCall.flow (n : NatCall) : FlowId := n.flowManager.state.fv n.index

/-- A packet from the WAN for a port of its shard. -/
def NatCall.Incoming (c : ChainCfg) (n : NatCall) : Prop :=
  n.call.device = c.nat.wanDevice ∧ n.flowManager.InRange n.call.portDst.toNat

/-- The destination port is allocated to a flow whose remote endpoint sent the packet. -/
structure NatCall.Solicited (n : NatCall) : Prop where
  allocated : n.flowManager.Allocated n.index
  dstIp : n.flow.dstIp = n.call.ipSrc
  dstPort : n.flow.dstPort = n.call.portSrc
  protocol : n.flow.protocol = n.call.ipProto

/-- The packet is addressed already to the flow of its destination port, if there is one. -/
def NatCall.Addressed (n : NatCall) : Prop :=
  n.flowManager.Allocated n.index →
    get32 n.call.payload DST_ADDR = n.flow.srcIp ∧ get16 n.call.payload DST_PORT = n.flow.srcPort

/-- A packet from the WAN is sent on with the address of the flow of its port, whatever the flow is;
    without one it is sent on as it is. -/
theorem nfProcess_incoming {c : ChainCfg} {n : NatCall} (h : n.Incoming c) :
    (n.flowManager.Allocated n.index ∧
      (n.result c.burst).2.1 = rewriteDst n.call.payload n.flow) ∨
    (¬n.flowManager.Allocated n.index ∧ (n.result c.burst).2.1 = n.call.payload) := by
  obtain ⟨hwan, hlow, hhigh⟩ := h
  have hrange : 0 ≤ n.index ∧ n.index < n.flowManager.state.maxFlows.toNat := by
    unfold NatCall.index externalIndex
    omega
  unfold NatCall.result nfProcessWith
  rw [if_pos (show n.call.device = c.burst.nat.wanDevice from hwan), getExternal_index]
  split
  · rename_i hget
    split at hget
    · cases hget
    · rename_i hall
      cases hget
      exact Or.inl ⟨⟨hrange, (Bool.not_eq_false _).mp hall⟩, rfl⟩
  · rename_i hget
    split at hget
    · rename_i hnone
      refine Or.inr ⟨?_, rfl⟩
      rintro ⟨-, hall⟩
      rw [NatCall.index, hnone] at hall
      cases hall
    · cases hget

/-- An incoming packet keeps its bytes exactly if there is nothing to rewrite. -/
theorem incoming_kept_iff {c : ChainCfg} {n : NatCall} (h : n.Incoming c) :
    (n.result c.burst).2.1 = n.call.payload ↔ n.Addressed := by
  rcases nfProcess_incoming h with ⟨hall, hbytes⟩ | ⟨hnone, hbytes⟩
  · rw [hbytes, rewriteDst_eq_iff]
    exact ⟨fun hsame _ => hsame, fun haddr => haddr hall⟩
  · exact ⟨fun _ hall => absurd hall hnone, fun _ => hbytes⟩

/-! ## Runs -/

/-- **No unsolicited traffic**: what is not solicited is neither changed nor transmitted. -/
def AdmitsSolicited (c : ChainCfg) (s : ChainState) (inputs : List ChainInput) : Prop :=
  (chainLoop c).Along (fun s' x => ∀ q, s'.polls c x = some q → ∀ n ∈ s'.natCalls c q x,
    n.Incoming c → ¬n.Solicited →
      (n.result c.burst).2.1 = n.call.payload ∧ .offered n.mbuf ∉ mbufTrace c s inputs) s inputs

/-- There is nothing to keep out: every incoming packet is solicited, or waits for a stop packet to
    end its burst and is addressed already to where it would be sent. -/
def OnlySolicited (c : ChainCfg) (s : ChainState) (x : ChainInput) : Prop :=
  ∀ q, s.polls c x = some q → ∀ n ∈ s.natCalls c q x, n.Incoming c →
    n.Solicited ∨ (s.stops c q x ∧ n.Addressed)

section Runs

variable (c : ChainCfg) (heap : Heap) (shards : Nat → FlowManager) (inputs : List ChainInput)

/-- **Unsolicited packets are kept out only where none arrives.**  For every state of the shards and
    everything other lcores do to them, a run admits no unsolicited traffic if only solicited
    packets arrive; and if it admits none, up to the end of a sweep or in Single mode, none arrived. -/
theorem solicited_only_iff :
    ((chainLoop c).Along (OnlySolicited c) (.init c heap shards) inputs →
      AdmitsSolicited c (.init c heap shards) inputs) ∧
    ((c.loop.mode = .single ∨ Complete c (.init c heap shards) inputs) →
      AdmitsSolicited c (.init c heap shards) inputs →
      (chainLoop c).Along (OnlySolicited c) (.init c heap shards) inputs) := by
  constructor
  · intro hall ys x zs hsplit q hq n hn hin hnot
    obtain ⟨hstop, haddr⟩ := (hall ys x zs hsplit q hq n hn hin).resolve_left hnot
    have hm := (natCalls_spec hn).1
    refine ⟨(incoming_kept_iff hin).mpr haddr, ?_⟩
    exact (stopped_burst_kept (by simp [ChainState.init]) inputs ys x zs hsplit q hq hstop
      n.mbuf hm).1
  · intro hend h ys x zs hsplit q hq n hn hin
    by_contra hno
    rw [not_or] at hno
    obtain ⟨hkept, hoff⟩ := h ys x zs hsplit q hq n hn hin hno.1
    have hm := (natCalls_spec hn).1
    have hstop : ((chainLoop c).final (.init c heap shards) ys).stops c q x := by
      by_contra hstop
      exact hoff (offered_of_sent heap shards inputs hend ys x zs hsplit q hq hstop n.mbuf hm)
    exact hno.2 ⟨hstop, (incoming_kept_iff hin).mp hkept⟩

end Runs

/-- One lcore with a queue on a port of the LAN, then one on the port of the WAN. -/
def ChainCfg.twoPorts : ChainCfg :=
  { ChainCfg.oneQueue .single (fun _ _ => 1) with
    loop := .ofOpts qflowOptsInit 0 2 LoopCfg.zero_nonneg (fun _ => rfl)
    portOf := fun q => if q = 0 then 1 else 2 }

def ChainState.twoPorts : ChainState :=
  .init .twoPorts (fun _ => ⟨0, 0, fun _ => 0⟩) (fun _ => twoFlowShard)

/-- A request from port 5000 of a LAN host to port 53, then the answer to the external port of the
    flow, the first one of the shard. -/
def requestAndAnswer : List ChainInput :=
  let env : NatEnv := ⟨0, 0, 0, fun m => m, fun m => m⟩
  [⟨true, [⟨udpPacket 1 2 5000 53, env⟩], 1⟩, ⟨true, [⟨udpPacket 2 0x01010101 53 1024, env⟩], 1⟩,
    ⟨true, [], 0⟩]

theorem requestAndAnswer_solicited : (chainLoop .twoPorts).Along (OnlySolicited .twoPorts)
    ChainState.twoPorts requestAndAnswer := by
  refine (Machine.along_cons _).mpr ⟨?_, (Machine.along_cons _).mpr ⟨?_, (Machine.along_cons _).mpr
    ⟨?_, Machine.along_nil _ _ _⟩⟩⟩ <;> intro q hq n hn hin
  · -- the request is not from the WAN
    have hpoll : ChainState.twoPorts.polls .twoPorts requestAndAnswer[0] = some 0 := by
      decide +kernel
    cases hpoll.symm.trans hq
    rw [natCalls_one rfl hn] at hin
    exact absurd hin.1 (by decide +kernel)
  · left
    have hpoll : ((chainLoop .twoPorts).final .twoPorts (requestAndAnswer.take 1)).polls .twoPorts
        requestAndAnswer[1] = some 1 := by decide +kernel
    cases hpoll.symm.trans hq
    rw [natCalls_one rfl hn]
    exact ⟨⟨by decide +kernel, by decide +kernel⟩, by decide +kernel, by decide +kernel,
      by decide +kernel⟩
  · have hpoll : ((chainLoop .twoPorts).final .twoPorts (requestAndAnswer.take 2)).polls .twoPorts
        requestAndAnswer[2] = none := by decide +kernel
    cases hpoll.symm.trans hq

theorem solicited_only_answer : AdmitsSolicited .twoPorts .twoPorts requestAndAnswer :=
  (solicited_only_iff .twoPorts (fun _ => ⟨0, 0, fun _ => 0⟩) (fun _ => twoFlowShard)
    requestAndAnswer).1 requestAndAnswer_solicited

/-- One lcore with one queue of Single mode, on the port of the WAN. -/
def ChainCfg.wanQueue : ChainCfg :=
  { ChainCfg.oneQueue .single (fun _ _ => 1) with portOf := fun _ => 2 }

/-- A packet from the WAN to port 1024, the first of the shard. -/
def wanPacket : Mbuf := { ipv4Packet with data := set16 ipv4Packet.data DST_PORT 1024 }

/-- A packet for a port that no flow was given is sent on. -/
theorem unknown_port_sent :
    ¬AdmitsSolicited .wanQueue (.oneQueue .single (fun _ _ => 1)) (onePacket wanPacket 1) := by
  intro h
  let s := ChainState.oneQueue .single (fun _ _ => 1)
  let p : Packet := ⟨wanPacket, ⟨0, 0, 0, fun m => m, fun m => m⟩⟩
  let x : ChainInput := ⟨true, [p], 1⟩
  have hpoll : s.polls .wanQueue x = some 0 := by decide +kernel
  have hcall := first_natCall (c := .wanQueue) (q := 0) (s := s) (x := x) rfl (by decide +kernel)
  have hnone : ∀ i, ¬FlowManager.Allocated (s.shards 0) i := by
    intro i hi
    have hfresh : (s.shards 0).Linked [] _ := allocate_linked Memory.zero nfInitConfig.startPort
      nfInitConfig.externalAddr nfInitConfig.wanDevice nfInitConfig.expirationTime false (by decide)
    exact absurd ((linked_mem_iff hfresh i).mpr hi) (by simp)
  obtain ⟨-, hoff⟩ := h [] x _ rfl 0 hpoll _ hcall
    ⟨rfl, by unfold FlowManager.InRange; decide +kernel⟩
    (fun hsol => hnone _ hsol.allocated)
  exact hoff (by decide +kernel)

end QueueDpdk.Chain
