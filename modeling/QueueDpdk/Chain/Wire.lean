import QueueDpdk.Chain.Frame
import QueueDpdk.NatFlow.Translation

/-!
# The translated port on the wire (`nf-chain/src/nat_main.c`)

The flow manager computes ports as host-order numbers, and `nf_process` stores them into the header
as they are, behind an IPv4 header of 20 bytes.

* `flowIndex` — the index a packet's flow has, or is about to get.
* `WirePort` — receivers read the port of that index, a port of the shard, in the outgoing packet.
* `wire_port_iff` — they do exactly for ports whose two bytes are equal.
-/

set_option autoImplicit false

namespace QueueDpdk.Chain

open Lib LibVig NatFlow

/-- The index of the flow of a packet: the one the map has for it, or the next one of the chain. -/
def flowIndex (manager : FlowManager) (call : NfCall) : Option Int :=
  match mapGet manager.state.fv keyEquals keyHash manager.state.fm call.flowId with
  | some index => some index
  | none => (dchainAllocateNewIndex manager.state.heap call.now).map Prod.snd

/-- If `nf_process` translates a packet, then afterwards the table has its flow, and the port read
    at `off` is that of its index. -/
def WirePort (config : NfConfig) (dropWhenFull : Bool) (manager : FlowManager) (call : NfCall)
    (off : ℕ) : Prop :=
  translation (fun m => m) config dropWhenFull manager call ≠ .keep →
    let result := nfProcess config dropWhenFull manager call
    ∃ i, mapGet result.1.state.fv keyEquals keyHash result.1.state.fm call.flowId = some i ∧
      (be16 result.2.1 off : ℤ) = manager.state.startPort.toNat + i ∧
      manager.state.startPort.toNat ≤ be16 result.2.1 off ∧
      be16 result.2.1 off < manager.state.startPort.toNat + manager.state.maxFlows.toNat

section Wire

variable {manager : FlowManager} {call : NfCall} {alloc free : List Int}

/-- An outgoing packet leaves with the port of its index, under which the table then has its
    flow. -/
theorem nfProcess_index (config : NfConfig) (dropWhenFull : Bool)
    (h : manager.Linked alloc free) (hlan : call.device ≠ config.wanDevice) {i : Int}
    (hi : flowIndex manager call = some i) :
    translation (fun m => m) config dropWhenFull manager call = .src (portOf manager i) ∧
    (0 ≤ i ∧ i < manager.state.maxFlows.toNat) ∧
    ∃ after ret, nfProcess config dropWhenFull manager call =
        (after, rewriteSrc config call.payload (portOf manager i), ret) ∧
      mapGet after.state.fv keyEquals keyHash after.state.fm call.flowId = some i := by
  unfold flowIndex at hi
  rcases h.lookup keys_lawful call.flowId with ⟨j, hj, hget, hkey⟩ | ⟨hget, hno⟩
  · rw [hget] at hi
    obtain rfl := Option.some.inj hi
    refine ⟨?_, h.bounds hj, manager.rejuvenate j call.now, deviceResult config.wanDevice, ?_,
      hget⟩
    · unfold translation
      rw [if_neg hlan, hget]
    · apply nfProcess_known hlan
      unfold flowManagerGetInternal
      rw [hget]
  · rw [hget] at hi
    cases free with
    | nil =>
      rw [h.insert_full] at hi
      cases hi
    | cons f free =>
      obtain ⟨chain, hnext, -⟩ := h.insert call.flowId call.now
      rw [hnext] at hi
      obtain rfl := Option.some.inj hi
      obtain ⟨after, hrun, hfv, -, hl⟩ := allocateFlow_linked h call.flowId call.device call.now
      refine ⟨?_, (h.ring.mem_iff f).mp (Or.inr List.mem_cons_self), after,
        deviceResult config.wanDevice, ?_, ?_⟩
      · unfold translation
        rw [if_neg hlan, hget]
        simp only [hnext]
      · apply nfProcess_new hlan _ hrun
        unfold flowManagerGetInternal
        rw [hget]
      · -- of the indices in use, only the new one has the key
        have hnew : f ∉ alloc := fun hf => h.disjoint hf List.mem_cons_self
        rcases hl.lookup keys_lawful call.flowId with ⟨j, hj, hfound, hkey⟩ | ⟨-, hnone⟩
        · rcases List.mem_append.mp hj with hj | hj
          · have hne : j ≠ f := fun he => hnew (he ▸ hj)
            rw [hfv, Function.update_of_ne hne, hno j hj] at hkey
            cases hkey
          · rw [hfound, List.mem_singleton.mp hj]
        · have hself := hnone f (List.mem_append_right _ List.mem_cons_self)
          rw [hfv, Function.update_self, keys_lawful.refl] at hself
          cases hself

/-- In a full table a new flow has no index, before and after. -/
theorem nfProcess_no_index (config : NfConfig) (dropWhenFull : Bool)
    (h : manager.Linked alloc free) (hlan : call.device ≠ config.wanDevice)
    (hi : flowIndex manager call = none) :
    (translation (fun m => m) config dropWhenFull manager call = .keep ↔ dropWhenFull = true) ∧
    mapGet (nfProcess config dropWhenFull manager call).1.state.fv keyEquals keyHash
      (nfProcess config dropWhenFull manager call).1.state.fm call.flowId = none := by
  unfold flowIndex at hi
  rcases h.lookup keys_lawful call.flowId with ⟨j, hj, hget, hkey⟩ | ⟨hget, hno⟩
  · rw [hget] at hi
    cases hi
  · rw [hget] at hi
    have hfull : dchainAllocateNewIndex manager.state.heap call.now = none :=
      Option.map_eq_none_iff.mp hi
    refine ⟨?_, ?_⟩
    · unfold translation
      rw [if_neg hlan, hget]
      simp only [hfull]
      cases dropWhenFull <;> simp
    · unfold nfProcess nfProcessWith flowManagerGetInternal flowManagerAllocateFlow
      rw [if_neg hlan, hget]
      simp only [hfull]
      split <;> exact hget

/-- A number of two bytes is read the same in both orders exactly if they are equal. -/
theorem netWord_eq_iff {v : ℕ} (h : v < 65536) : netWord v = v ↔ v % 256 = v / 256 := by
  unfold netWord
  omega

/-- Where receivers look for the source port of a translated packet, there is the new port, or
    behind IP options still the old one. -/
theorem be16_rewriteSrc (config : NfConfig) {data : Bytes} (h : 5 ≤ ihl data) (port : UInt16) :
    be16 (rewriteSrc config data port) (layer4 data) =
      if ihl data = 5 then netWord port.toNat else be16 data (layer4 data) := by
  split
  · rename_i hihl
    rw [layer4_of_ihl hihl]
    exact be16_set16 _ _ _
  · rename_i hihl
    have hbeyond : 38 ≤ layer4 data := by
      unfold layer4 OFF_ETHHEAD
      omega
    have hkept : ∀ k, 38 ≤ k → rewriteSrc config data port k = data k := by
      intro k hk
      apply rewriteSrc_apply port <;> unfold Within
      · unfold SRC_ADDR
        omega
      · unfold SRC_PORT
        omega
    exact be16_congr _ (hkept _ hbeyond) (hkept _ (by omega))

end Wire

/-- **Ports on the wire**: in every state of a shard, an outgoing packet leaves with the port of its
    flow exactly if the two bytes of that port are equal; behind IP options, exactly if it had that
    port before; and if the table is full, only if it is dropped. -/
theorem wire_port_iff (config : NfConfig) (dropWhenFull : Bool) {manager : FlowManager}
    (hreach : ReachableShard manager) {portid : UInt16} (hlan : portid ≠ config.wanDevice)
    {data : Bytes} {linkLen : UInt32} (hvalid : 0 ≤ isValidIpv4Pkt data linkLen) (env : NatEnv) :
    WirePort config dropWhenFull manager (nfCall portid data env) (layer4 data) ↔
      (flowIndex manager (nfCall portid data env) = none → dropWhenFull = true) ∧
      ∀ i : ℕ, flowIndex manager (nfCall portid data env) = some (i : ℤ) →
        if ihl data = 5 then
          (manager.state.startPort.toNat + i) % 256 = (manager.state.startPort.toNat + i) / 256
        else be16 data (layer4 data) = manager.state.startPort.toNat + i := by
  obtain ⟨alloc, free, hl⟩ := hreach.linked
  have hports := hreach.ports_le
  have hlan' : (nfCall portid data env).device ≠ config.wanDevice := hlan
  have hihl := ihl_of_valid hvalid
  cases hindex : flowIndex manager (nfCall portid data env) with
  | none =>
    obtain ⟨hkeep, hno⟩ := nfProcess_no_index config dropWhenFull hl hlan' hindex
    unfold WirePort
    constructor
    · intro hwire
      refine ⟨fun _ => ?_, nofun⟩
      by_contra hdrop
      obtain ⟨i, hi, -⟩ := hwire (fun he => hdrop (hkeep.mp he))
      rw [hno] at hi
      cases hi
    · rintro ⟨hdrop, -⟩ hne
      exact absurd (hkeep.mpr (hdrop rfl)) hne
  | some j =>
    obtain ⟨hsrc, ⟨h0, h1⟩, after, ret, hrun, hfound⟩ :=
      nfProcess_index config dropWhenFull hl hlan' hindex
    obtain ⟨i, rfl⟩ := Int.eq_ofNat_of_zero_le h0
    have hlt : manager.state.startPort.toNat + i < 65536 := by omega
    have hport : (portOf manager i).toNat = manager.state.startPort.toNat + i := by
      have hint : ((portOf manager i).toNat : ℤ) = _ := portOf_toNat h0 (by omega)
      omega
    -- what receivers read
    have hread := be16_rewriteSrc config hihl (portOf manager i)
    rw [hport] at hread
    have hcond : be16 (rewriteSrc config data (portOf manager i)) (layer4 data) =
        manager.state.startPort.toNat + i ↔
        if ihl data = 5 then
          (manager.state.startPort.toNat + i) % 256 = (manager.state.startPort.toNat + i) / 256
        else be16 data (layer4 data) = manager.state.startPort.toNat + i := by
      rw [hread]
      split
      · exact netWord_eq_iff hlt
      · exact Iff.rfl
    unfold WirePort
    rw [hsrc, hrun]
    dsimp only
    constructor
    · intro hwire
      obtain ⟨k, hk, hwire, -⟩ := hwire (by simp)
      rw [hfound] at hk
      obtain rfl := Option.some.inj hk
      refine ⟨nofun, fun i' hi' => ?_⟩
      obtain rfl := Int.ofNat.inj (Option.some.inj hi')
      exact hcond.mp (by exact_mod_cast hwire)
    · rintro ⟨-, hall⟩ -
      have hwire := hcond.mpr (hall i rfl)
      refine ⟨i, hfound, ?_, ?_, ?_⟩
      · show (be16 (rewriteSrc config data (portOf manager i)) (layer4 data) : ℤ) = _
        rw [hwire]
        exact Int.natCast_add _ _
      · show _ ≤ be16 (rewriteSrc config data (portOf manager i)) (layer4 data)
        omega
      · show be16 (rewriteSrc config data (portOf manager i)) (layer4 data) < _
        omega

/-- A TCP packet of 10.0.0.1. -/
def lanPacket : Bytes := Function.update ipv4Packet.data NEXT_PROTO_ID IPPROTO_TCP

/-- Port 1028 is 4 times 257. -/
theorem wire_port_1028 : WirePort nfInitConfig false (freshShard 1028)
    (nfCall 0 lanPacket ⟨0, 0, 0, fun m => m, fun m => m⟩) (layer4 lanPacket) := by
  have hindex : flowIndex (freshShard 1028)
      (nfCall 0 lanPacket ⟨0, 0, 0, fun m => m, fun m => m⟩) = some 0 := by
    decide +kernel
  refine (wire_port_iff nfInitConfig false (freshShard_reachable (.refl : Used (freshShard 1028) _))
    (show (0 : UInt16) ≠ nfInitConfig.wanDevice by decide)
    (show 0 ≤ isValidIpv4Pkt lanPacket 60 by decide +kernel) _).mpr ⟨?_, ?_⟩
  · rw [hindex]
    exact nofun
  · intro i hi
    rw [hindex] at hi
    obtain rfl := Int.ofNat.inj (Option.some.inj hi)
    decide +kernel

/-- The first port that `nf_init` gives out, 1024, is read as 4. -/
theorem wire_port_1024 :
    ¬WirePort nfInitConfig false (freshShard 1024)
      (nfCall 0 lanPacket ⟨0, 0, 0, fun m => m, fun m => m⟩) (layer4 lanPacket) := by
  intro h
  obtain ⟨i, -, -, hlow, -⟩ := h (by decide +kernel)
  exact absurd hlow (by decide +kernel)

end QueueDpdk.Chain
