import QueueDpdk.Chain.Loop
import QueueDpdk.NatFlow.Use

/-!
# What address translation may touch (`nf-chain/src/nat_main.c`)

`nf_process` finds the ports of every packet behind an IPv4 header of 20 bytes.  Its checks of
ethertype and protocol only write to the log.

* `IsIpv4`, `IsTcpUdp`, `ihl`, `layer4` — what a packet is, and where its ports are.
* `MayChange` — the bytes translation may change; `FrameKept` — it changes no others, and leaves
  packets it is not for alone, in every state of the table.
* `exists_changing_shard` — some shard makes it write where it expects the ports.
* `nat_frame_iff` — the frame is kept for TCP and UDP packets without IP options, and for no others.
-/

set_option autoImplicit false

namespace QueueDpdk.Chain

open Lib PollLoop NatFlow

/-! ## Packets -/

def HDR_CHECKSUM : Nat := OFF_ETHHEAD + 10

/-- The offsets of the checksum in the two layer-4 headers. -/
def TCP_CKSUM : Nat := 16
def UDP_CKSUM : Nat := 6

def IsIpv4 (data : Bytes) : Prop := cpuToBe16 (get16 data ETHER_TYPE) = 0x0800

def IsTcpUdp (data : Bytes) : Prop :=
  data NEXT_PROTO_ID = IPPROTO_TCP ∨ data NEXT_PROTO_ID = IPPROTO_UDP

/-- The length of the IPv4 header in words. -/
def ihl (data : Bytes) : Nat := (data OFF_ETHHEAD &&& 0xf).toNat

/-- Where the layer-4 header starts. -/
def layer4 (data : Bytes) : Nat := OFF_ETHHEAD + 4 * ihl data

/-- Where its checksum is. -/
def layer4Cksum (data : Bytes) : Nat :=
  layer4 data + if data NEXT_PROTO_ID = IPPROTO_TCP then TCP_CKSUM else UDP_CKSUM

/-- Byte `k` is one of the `n` bytes at `off`. -/
def Within (off n k : Nat) : Prop := off ≤ k ∧ k < off + n

/-- The bytes of a packet that translation may change: the checksums, and the address and the port
    of the side translated. -/
def MayChange (config : NfConfig) (portid : UInt16) (data : Bytes) (k : Nat) : Prop :=
  Within HDR_CHECKSUM 2 k ∨ Within (layer4Cksum data) 2 k ∨
    if portid = config.wanDevice then Within DST_ADDR 4 k ∨ Within (layer4 data + 2) 2 k
    else Within SRC_ADDR 4 k ∨ Within (layer4 data) 2 k

/-- **The frame of `nf_process`**, in every state of the table: it leaves packets that are not TCP or
    UDP over IPv4 alone, looks others up by the ports of their layer-4 header, and changes nothing
    but what it may change. -/
structure FrameKept (config : NfConfig) (portid : UInt16) (data : Bytes) : Prop where
  others : ¬(IsIpv4 data ∧ IsTcpUdp data) → ∀ manager, ReachableShard manager →
    ∀ dropWhenFull env, ∃ ret,
      nfProcess config dropWhenFull manager (nfCall portid data env) = (manager, data, ret)
  key : IsIpv4 data → IsTcpUdp data → ∀ env,
    (nfCall portid data env).flowId.srcPort = get16 data (layer4 data) ∧
      (nfCall portid data env).flowId.dstPort = get16 data (layer4 data + 2)
  frame : IsIpv4 data → IsTcpUdp data → ∀ manager, ReachableShard manager →
    ∀ dropWhenFull env k,
      (nfProcessWith env.between config dropWhenFull manager (nfCall portid data env)).2.1 k ≠
        data k → MayChange config portid data k

section Bytes

variable {config : NfConfig} {portid : UInt16} {data : Bytes}

theorem cpuToBe16_toNat (v : UInt16) : (cpuToBe16 v).toNat = netWord v.toNat := by
  have hlt := v.toNat_lt
  have hhigh : v.toNat / 256 < 2 ^ 8 := by
    show v.toNat / 256 < 256
    omega
  have hor := Nat.two_pow_add_eq_or_of_lt hhigh (v.toNat % 256)
  have hshift : v.toNat * 256 % 65536 = 256 * (v.toNat % 256) := by omega
  rw [cpuToBe16, UInt16.toNat_or, UInt16.toNat_shiftLeft, UInt16.toNat_shiftRight]
  show v.toNat <<< 8 % 65536 ||| v.toNat >>> 8 = netWord v.toNat
  rw [Nat.shiftLeft_eq, Nat.shiftRight_eq_div_pow]
  show v.toNat * 256 % 65536 ||| v.toNat / 256 = netWord v.toNat
  rw [hshift, netWord, Nat.mod_eq_of_lt (show v.toNat / 256 < 256 from hhigh)]
  exact hor.symm

/-- Swapping twice changes nothing. -/
@[simp] theorem cpuToBe16_cpuToBe16 (v : UInt16) : cpuToBe16 (cpuToBe16 v) = v := by
  apply UInt16.toNat_inj.mp
  rw [cpuToBe16_toNat, cpuToBe16_toNat, netWord_netWord v.toNat_lt]

/-- What `nf_process` makes of the bytes of a packet, in any state of the table. -/
theorem nfProcess_bytes (between : FlowManager → FlowManager) (config : NfConfig)
    (dropWhenFull : Bool) (manager : FlowManager) (call : NfCall) :
    (nfProcessWith between config dropWhenFull manager call).2.1 = call.payload ∨
    (call.device = config.wanDevice ∧ ∃ flow,
      (nfProcessWith between config dropWhenFull manager call).2.1 = rewriteDst call.payload flow) ∨
    (call.device ≠ config.wanDevice ∧ ∃ port,
      (nfProcessWith between config dropWhenFull manager call).2.1 =
        rewriteSrc config call.payload port) := by
  unfold nfProcessWith
  split
  · rename_i hwan
    split
    · exact Or.inr (Or.inl ⟨hwan, _, rfl⟩)
    · exact Or.inl rfl
  · rename_i hlan
    split
    · exact Or.inr (Or.inr ⟨hlan, _, rfl⟩)
    · split
      · exact Or.inr (Or.inr ⟨hlan, _, rfl⟩)
      · split
        · exact Or.inl rfl
        · exact Or.inr (Or.inr ⟨hlan, _, rfl⟩)

theorem rewriteDst_apply (flow : FlowId) {k : Nat} (h : ¬Within DST_ADDR 4 k)
    (h' : ¬Within DST_PORT 2 k) : rewriteDst data flow k = data k := by
  unfold Within at h h'
  unfold rewriteDst
  rw [set16_apply _ _ (by omega), set32_apply _ _ (by omega)]

theorem rewriteSrc_apply (port : UInt16) {k : Nat} (h : ¬Within SRC_ADDR 4 k)
    (h' : ¬Within SRC_PORT 2 k) : rewriteSrc config data port k = data k := by
  unfold Within at h h'
  unfold rewriteSrc
  rw [set16_apply _ _ (by omega), set32_apply _ _ (by omega)]

/-- Without IP options the ports are where they are expected. -/
theorem layer4_of_ihl (h : ihl data = 5) : layer4 data = SRC_PORT := by
  rw [layer4, h]
  rfl

theorem mayChange_of_ihl (h : ihl data = 5) (between : FlowManager → FlowManager)
    (dropWhenFull : Bool) (manager : FlowManager) (env : NatEnv) {k : Nat}
    (hk : (nfProcessWith between config dropWhenFull manager (nfCall portid data env)).2.1 k ≠
      data k) : MayChange config portid data k := by
  refine Or.inr (Or.inr ?_)
  rw [layer4_of_ihl h]
  rcases nfProcess_bytes between config dropWhenFull manager (nfCall portid data env) with
    hr | ⟨hwan, flow, hr⟩ | ⟨hlan, port, hr⟩
  · rw [hr] at hk
    exact absurd rfl hk
  · rw [hr] at hk
    rw [if_pos (show portid = config.wanDevice from hwan)]
    by_contra hno
    rw [not_or] at hno
    exact hk (rewriteDst_apply flow hno.1 hno.2)
  · rw [hr] at hk
    rw [if_neg (show ¬portid = config.wanDevice from hlan)]
    by_contra hno
    rw [not_or] at hno
    exact hk (rewriteSrc_apply port hno.1 hno.2)

end Bytes

/-- Another port. -/
theorem exists_port_ne (port : UInt16) : ∃ port' : UInt16, port' ≠ port := by
  refine ⟨port + 1, fun h => ?_⟩
  have hnat := congrArg UInt16.toNat h
  rw [UInt16.toNat_add, show (1 : UInt16).toNat = 1 from rfl] at hnat
  omega

/-- **Some shard makes it write** where a header of 20 bytes would have the ports behind it. -/
theorem exists_changing_shard (config : NfConfig) (portid : UInt16) (data : Bytes)
    (dropWhenFull : Bool) (env : NatEnv) :
    ∃ manager, ReachableShard manager ∧ ∃ k, (SRC_PORT ≤ k ∧ k < SRC_PORT + 4) ∧
      (nfProcess config dropWhenFull manager (nfCall portid data env)).2.1 k ≠ data k := by
  by_cases hwan : portid = config.wanDevice
  · -- a shard whose flow has the destination port of the packet, and another source port
    obtain ⟨port, hport⟩ := exists_port_ne (get16 data DST_PORT)
    obtain ⟨m, hrun, hfv, hparams, hl⟩ :=
      freshShard_allocate (get16 data DST_PORT) ⟨port, 0, 0, 0, 0, 0⟩ 0 0
    have hused : Used (freshShard (get16 data DST_PORT)) m := by
      have hfresh : Used (freshShard (get16 data DST_PORT)) (freshShard (get16 data DST_PORT)) :=
        .refl
      have := hfresh.allocateFlow ⟨port, 0, 0, 0, 0, 0⟩ 0 0
      rwa [hrun] at this
    refine ⟨m, freshShard_reachable hused, ?_⟩
    have hlt := (get16 data DST_PORT).toNat_lt
    have hports : m.state.startPort.toNat + m.state.maxFlows.toNat ≤ 65536 := by
      rw [startPort_params hparams, maxFlows_params hparams]
      show (get16 data DST_PORT).toNat + 1 ≤ 65536
      omega
    have hown : (nfCall portid data env).portDst = portOf m 0 := by
      rw [portOf_params hparams, freshShard_portOf]
      rfl
    rw [nfProcess_wan hl hports List.mem_cons_self hwan hown, hfv]
    have hne : get16 (rewriteDst data ⟨port, 0, 0, 0, 0, 0⟩) DST_PORT ≠ get16 data DST_PORT := by
      rw [rewriteDst_port]
      exact hport
    obtain ⟨k, ⟨h0, h1⟩, hk⟩ := exists_byte_ne hne
    exact ⟨k, by unfold SRC_PORT; unfold DST_PORT at h0 h1; omega, hk⟩
  · -- a fresh shard whose port is not the source port of the packet
    obtain ⟨port, hport⟩ := exists_port_ne (get16 data SRC_PORT)
    obtain ⟨m, hrun, -⟩ := freshShard_allocate port (nfCall portid data env).flowId portid env.now
    refine ⟨freshShard port, freshShard_reachable .refl, ?_⟩
    have hget := (getInternal_spec (freshShard_linked port) (nfCall portid data env).flowId
      env.now).resolve_left (by simp)
    rw [nfProcess_new hwan hget.2 hrun]
    have hne : get16 (rewriteSrc config data port) SRC_PORT ≠ get16 data SRC_PORT := by
      rw [rewriteSrc_port]
      exact hport
    obtain ⟨k, ⟨h0, h1⟩, hk⟩ := exists_byte_ne hne
    exact ⟨k, ⟨h0, by omega⟩, hk⟩

/-- With IP options it writes where it may not. -/
theorem mayChange_options {config : NfConfig} {portid : UInt16} {data : Bytes} (h : 6 ≤ ihl data)
    {k : Nat} (hk : SRC_PORT ≤ k ∧ k < SRC_PORT + 4) : ¬MayChange config portid data k := by
  have hl4 : SRC_PORT + 4 ≤ layer4 data := by
    unfold layer4 OFF_ETHHEAD SRC_PORT
    omega
  have hcksum : layer4 data ≤ layer4Cksum data := Nat.le_add_right _ _
  unfold SRC_PORT at hk hl4
  unfold MayChange Within HDR_CHECKSUM OFF_ETHHEAD
  unfold DST_ADDR SRC_ADDR
  split <;> omega

/-- The chain takes no shorter header. -/
theorem ihl_of_valid {data : Bytes} {linkLen : UInt32} (h : 0 ≤ isValidIpv4Pkt data linkLen) :
    5 ≤ ihl data := by
  simp only [isValidIpv4Pkt] at h
  by_contra hno
  have hihl : data OFF_ETHHEAD &&& 0xf < 5 := by
    rw [UInt8.lt_iff_toNat_lt]
    exact Nat.lt_of_not_le hno
  rw [if_pos hihl] at h
  split at h
  · exact absurd h (by decide)
  · split at h
    · exact absurd h (by decide)
    · exact absurd h (by decide)

/-- **The frame is kept exactly for TCP and UDP over IPv4 without options**, among all packets with
    an IPv4 header that the chain takes or with another ethertype. -/
theorem nat_frame_iff (config : NfConfig) (portid : UInt16) (data : Bytes) (linkLen : UInt32)
    (hvalid : IsIpv4 data → 0 ≤ isValidIpv4Pkt data linkLen) :
    FrameKept config portid data ↔ IsIpv4 data ∧ IsTcpUdp data ∧ ihl data = 5 := by
  constructor
  · intro h
    obtain ⟨manager, hreach, k, hrange, hk⟩ := exists_changing_shard config portid data false
      ⟨0, 0, 0, fun m => m, fun m => m⟩
    by_cases hnat : IsIpv4 data ∧ IsTcpUdp data
    · refine ⟨hnat.1, hnat.2, ?_⟩
      by_contra hne
      have hoptions : 6 ≤ ihl data :=
        Nat.lt_of_le_of_ne (ihl_of_valid (hvalid hnat.1)) (Ne.symm hne)
      exact mayChange_options hoptions hrange
        (h.frame hnat.1 hnat.2 manager hreach false ⟨0, 0, 0, fun m => m, fun m => m⟩ k hk)
    · obtain ⟨ret, hrun⟩ := h.others hnat manager hreach false ⟨0, 0, 0, fun m => m, fun m => m⟩
      rw [hrun] at hk
      exact absurd rfl hk
  · rintro ⟨hipv4, htcpudp, hihl⟩
    refine ⟨fun hno => absurd ⟨hipv4, htcpudp⟩ hno, ?_, ?_⟩
    · intro _ _ env
      rw [layer4_of_ihl hihl]
      exact ⟨rfl, rfl⟩
    · intro _ _ manager _ dropWhenFull env k hk
      exact mayChange_of_ihl hihl env.between dropWhenFull manager env hk

/-- A UDP packet without options. -/
theorem nat_frame_udp :
    FrameKept nfInitConfig 1 (Function.update ipv4Packet.data NEXT_PROTO_ID IPPROTO_UDP) :=
  (nat_frame_iff nfInitConfig 1 (Function.update ipv4Packet.data NEXT_PROTO_ID IPPROTO_UDP) 60
    (fun _ => by decide +kernel)).mpr ⟨rfl, Or.inr rfl, by decide +kernel⟩

/-- A packet of protocol 0 is translated. -/
theorem nat_frame_proto :
    0 ≤ isValidIpv4Pkt ipv4Packet.data 60 ∧ ¬FrameKept nfInitConfig 1 ipv4Packet.data := by
  refine ⟨by decide +kernel, fun h => ?_⟩
  have hno : ¬(IsIpv4 ipv4Packet.data ∧ IsTcpUdp ipv4Packet.data) := by
    rintro ⟨-, hproto⟩
    exact absurd hproto (by unfold IsTcpUdp; decide +kernel)
  obtain ⟨ret, hrun⟩ := h.others hno (freshShard 1024) (freshShard_reachable .refl) false
    ⟨0, 0, 0, fun m => m, fun m => m⟩
  have hbyte : (nfProcess nfInitConfig false (freshShard 1024) (nfCall 1 ipv4Packet.data
      ⟨0, 0, 0, fun m => m, fun m => m⟩)).2.1 SRC_ADDR ≠ ipv4Packet.data SRC_ADDR := by
    decide +kernel
  rw [hrun] at hbyte
  exact hbyte rfl

end QueueDpdk.Chain
