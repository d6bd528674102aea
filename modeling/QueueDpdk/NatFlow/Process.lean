import QueueDpdk.Lib.Bytes
import QueueDpdk.Lib.Machine
import QueueDpdk.NatFlow.Manager

/-!
# Address translation of one packet (`nf-chain/src/nat_main.c`)

* `nfProcessWith`, `nfProcess` — `nf_process`: packets of the WAN device get the address of the flow
  that owns their destination port, all others get the external address and the port of their flow.
* `nfProcess_known`, `nfProcess_new`, `nfProcess_wan` — what happens to a packet of each kind.
* `natLan` — the machine that processes packets one after the other; `LanInv` relates the ports it
  has given to the table, and `LanInv.not_full` bounds the table by the flows seen.
* `nat_correct_iff` — the ports given identify flows, and lead back to them, exactly for traffic in
  which a source port belongs to one flow.
-/

set_option autoImplicit false

namespace QueueDpdk.NatFlow

open LibVig Lib

/-! ## The function -/

/-- `struct nf_config`, as far as packets depend on it. -/
structure NfConfig where
  wanDevice : UInt16
  externalAddr : UInt32
  startPort : UInt16
  expirationTime : UInt32
  maxFlows : UInt32

/-- What `nf_init` sets. -/
def nfInitConfig : NfConfig :=
  { wanDevice := 2
    externalAddr := (1 : UInt32) <<< 24 ||| (1 : UInt32) <<< 16 ||| (1 : UInt32) <<< 8 ||| 1
    startPort := 1024
    expirationTime := 60 * 1000000
    maxFlows := 16384 }

def EXPLICIT_DROP : Int := 65535

/-- A device as the result of `nf_process`. -/
def deviceResult (dstDevice : UInt16) : Int := dstDevice.toNat

/-- Offsets of the rewritten fields, from the start of the Ethernet header. -/
def SRC_ADDR : Nat := 14 + 12
def DST_ADDR : Nat := 14 + 16
def SRC_PORT : Nat := 14 + 20
def DST_PORT : Nat := 14 + 20 + 2

/-- The arguments of `nf_process`, and what its locals hold before they are assigned. -/
structure NfCall where
  device : UInt16
  payload : Bytes
  etherType : UInt16
  ipProto : UInt8
  ipSrc : UInt32
  ipDst : UInt32
  portSrc : UInt16
  portDst : UInt16
  now : VigorTime
  staleExternalPort : UInt16
  staleDstDevice : UInt16

/-- The key of a packet. -/
def NfCall.flowId (call : NfCall) : FlowId :=
  { srcPort := call.portSrc
    dstPort := call.portDst
    srcIp := call.ipSrc
    dstIp := call.ipDst
    internalDevice := call.device
    protocol := call.ipProto }

/-- The new source of an outgoing packet. -/
def rewriteSrc (config : NfConfig) (payload : Bytes) (externalPort : UInt16) : Bytes :=
  set16 (set32 payload SRC_ADDR config.externalAddr) SRC_PORT externalPort

/-- The new destination of an incoming packet. -/
def rewriteDst (payload : Bytes) (internalFlow : FlowId) : Bytes :=
  set16 (set32 payload DST_ADDR internalFlow.srcIp) DST_PORT internalFlow.srcPort

/-- `nf_process`: the manager and the payload after it, and its result.  The checks of ethertype,
    protocol and spoofing only log.  `between` is what other lcores do to the shard while its lock is
    free between the two calls for an outgoing packet. -/
def nfProcessWith (between : FlowManager → FlowManager) (config : NfConfig) (dropWhenFull : Bool)
    (flowManager : FlowManager) (call : NfCall) : FlowManager × Bytes × Int :=
  if call.device = config.wanDevice then
    match flowManagerGetExternal flowManager call.portDst call.now with
    | (flowManager, some internalFlow) =>
      (flowManager, rewriteDst call.payload internalFlow, deviceResult internalFlow.internalDevice)
    | (flowManager, none) => (flowManager, call.payload, deviceResult call.staleDstDevice)
  else
    match flowManagerGetInternal flowManager call.flowId call.now with
    | (flowManager, some externalPort) =>
      (flowManager, rewriteSrc config call.payload externalPort, deviceResult config.wanDevice)
    | (flowManager, none) =>
      match flowManagerAllocateFlow (between flowManager) call.flowId call.device call.now with
      | (flowManager, some externalPort) =>
        (flowManager, rewriteSrc config call.payload externalPort, deviceResult config.wanDevice)
      | (flowManager, none) =>
        if dropWhenFull then (flowManager, call.payload, EXPLICIT_DROP)
        else (flowManager, rewriteSrc config call.payload call.staleExternalPort,
          deviceResult config.wanDevice)

/-- `nf_process` on a shard that no other lcore touches. -/
def nfProcess : NfConfig → Bool → FlowManager → NfCall → FlowManager × Bytes × Int :=
  nfProcessWith (fun flowManager => flowManager)

@[simp] theorem rewriteSrc_port (config : NfConfig) (payload : Bytes) (port : UInt16) :
    get16 (rewriteSrc config payload port) SRC_PORT = port := get16_set16 _ _ _

@[simp] theorem rewriteSrc_addr (config : NfConfig) (payload : Bytes) (port : UInt16) :
    get32 (rewriteSrc config payload port) SRC_ADDR = config.externalAddr := by
  unfold rewriteSrc
  rw [get32_set16 _ _ (Or.inr (by decide)), get32_set32]

@[simp] theorem rewriteDst_port (payload : Bytes) (flow : FlowId) :
    get16 (rewriteDst payload flow) DST_PORT = flow.srcPort := get16_set16 _ _ _

@[simp] theorem rewriteDst_addr (payload : Bytes) (flow : FlowId) :
    get32 (rewriteDst payload flow) DST_ADDR = flow.srcIp := by
  unfold rewriteDst
  rw [get32_set16 _ _ (Or.inr (by decide)), get32_set32]

/-- An incoming packet keeps its bytes only if it is addressed to the flow already. -/
theorem rewriteDst_eq_iff (payload : Bytes) (flow : FlowId) :
    rewriteDst payload flow = payload ↔
      get32 payload DST_ADDR = flow.srcIp ∧ get16 payload DST_PORT = flow.srcPort := by
  constructor
  · intro h
    have haddr := rewriteDst_addr payload flow
    have hport := rewriteDst_port payload flow
    rw [h] at haddr hport
    exact ⟨haddr, hport⟩
  · rintro ⟨haddr, hport⟩
    rw [rewriteDst, ← haddr, set32_get32, ← hport, set16_get16]

section Packets

variable {config : NfConfig} {dropWhenFull : Bool} {manager : FlowManager} {alloc free : List Int}

/-- A packet of a flow with an equal key in the table gets the port of that flow. -/
theorem nfProcess_known {call : NfCall} (hlan : call.device ≠ config.wanDevice)
    {manager' : FlowManager} {port : UInt16}
    (hget : flowManagerGetInternal manager call.flowId call.now = (manager', some port)) :
    nfProcess config dropWhenFull manager call =
      (manager', rewriteSrc config call.payload port, deviceResult config.wanDevice) := by
  unfold nfProcess nfProcessWith
  rw [if_neg hlan, hget]

/-- A packet of a new flow gets the port the flow is given. -/
theorem nfProcess_new {call : NfCall} (hlan : call.device ≠ config.wanDevice)
    {manager' : FlowManager} {port : UInt16}
    (hget : flowManagerGetInternal manager call.flowId call.now = (manager, none))
    (hnew : flowManagerAllocateFlow manager call.flowId call.device call.now =
      (manager', some port)) :
    nfProcess config dropWhenFull manager call =
      (manager', rewriteSrc config call.payload port, deviceResult config.wanDevice) := by
  unfold nfProcess nfProcessWith
  rw [if_neg hlan, hget]
  simp only [hnew]

/-- An incoming packet for the port of an allocated index is sent on to the flow of that index. -/
theorem nfProcess_wan (h : manager.Linked alloc free)
    (hports : manager.state.startPort.toNat + manager.state.maxFlows.toNat ≤ 65536) {i : Int}
    (hi : i ∈ alloc) {call : NfCall} (hwan : call.device = config.wanDevice)
    (hport : call.portDst = portOf manager i) :
    nfProcess config dropWhenFull manager call =
      (manager.rejuvenate i call.now, rewriteDst call.payload (manager.state.fv i),
        deviceResult (manager.state.fv i).internalDevice) := by
  obtain ⟨h0, h1⟩ := h.bounds hi
  have hindex : i = call.portDst.toNat - manager.state.startPort.toNat := by
    rw [hport, portOf_toNat h0 (by omega)]
    omega
  unfold nfProcess nfProcessWith
  rw [if_pos hwan]
  rcases getExternal_spec h call.now hindex h0 h1 with ⟨-, hget⟩ | ⟨hno, -⟩
  · rw [hget]
  · exact absurd hi hno

end Packets

/-! ## Sequences of outgoing packets -/

/-- Packets one after the other; the event of a packet is its flow and the source port it leaves
    with. -/
def natLan (config : NfConfig) (dropWhenFull : Bool) : Machine FlowManager NfCall (FlowId × UInt16) :=
  ⟨fun manager call =>
    let (manager, payload, _) := nfProcess config dropWhenFull manager call
    (manager, (call.flowId, get16 payload SRC_PORT))⟩

/-- What the ports given so far say about the table. -/
structure LanInv (start : FlowManager) (given : List (FlowId × UInt16)) (manager : FlowManager)
    (alloc free : List Int) : Prop where
  coherent : manager.Coherent alloc free
  params : manager.params = start.params
  seen : ∀ i ∈ alloc, manager.state.fv i ∈ given.map Prod.fst
  given : ∀ e ∈ given, ∃ i ∈ alloc, keyEquals (manager.state.fv i) e.1 = true ∧ e.2 = portOf start i

section Sequences

variable {config : NfConfig} {dropWhenFull : Bool} {start manager : FlowManager}
  {given : List (FlowId × UInt16)} {alloc free : List Int}

theorem startPort_params {manager manager' : FlowManager} (h : manager.params = manager'.params) :
    manager.state.startPort = manager'.state.startPort := congrArg (fun p => p.1) h

theorem portOf_params {manager manager' : FlowManager} (h : manager.params = manager'.params)
    (i : Int) : portOf manager i = portOf manager' i := by
  rw [portOf, portOf, startPort_params h]

theorem maxFlows_params {manager manager' : FlowManager} (h : manager.params = manager'.params) :
    manager.state.maxFlows = manager'.state.maxFlows := congrArg (fun p => p.2.1) h

/-- Every index holds another flow, so a table that can hold the flows seen and the one looked for
    in vain is not full. -/
theorem LanInv.not_full (h : LanInv start given manager alloc free) {id : FlowId}
    (hno : ∀ i ∈ alloc, keyEquals (manager.state.fv i) id = false)
    (hfit : (id :: given.map Prod.fst).toFinset.card ≤ start.state.maxFlows.toNat) : free ≠ [] := by
  have hl : manager.Linked alloc free := h.coherent.linked
  have hnd : alloc.Nodup := (List.nodup_append.mp hl.ring.nodup).1
  have hinj : (alloc.map manager.state.fv).Nodup := by
    refine List.Nodup.map_on ?_ hnd
    intro i hi i' hi' he
    apply h.coherent.distinct i hi i' hi'
    rw [he]
    exact keys_lawful.refl _
  have hnew : id ∉ alloc.map manager.state.fv := by
    intro hm
    obtain ⟨i, hi, rfl⟩ := List.mem_map.mp hm
    have := hno i hi
    rw [keys_lawful.refl] at this
    cases this
  have hsub : (id :: alloc.map manager.state.fv).toFinset ⊆ (id :: given.map Prod.fst).toFinset := by
    intro f hf
    rw [List.mem_toFinset, List.mem_cons] at hf ⊢
    rcases hf with rfl | hf
    · exact Or.inl rfl
    · obtain ⟨i, hi, rfl⟩ := List.mem_map.mp hf
      exact Or.inr (h.seen i hi)
  have hcard := Finset.card_le_card hsub
  rw [List.toFinset_card_of_nodup (List.nodup_cons.mpr ⟨hnew, hinj⟩), List.length_cons,
    List.length_map] at hcard
  intro hnil
  have hfull := hl.full_iff.mpr hnil
  rw [maxFlows_params h.params] at hfull
  omega

/-- One outgoing packet: it leaves with the port of an index whose key equals its own. -/
theorem LanInv.step (config : NfConfig) (dropWhenFull : Bool)
    (h : LanInv start given manager alloc free) {call : NfCall}
    (hlan : call.device ≠ config.wanDevice)
    (hfit : (call.flowId :: given.map Prod.fst).toFinset.card ≤ start.state.maxFlows.toNat) :
    ∃ alloc' free', LanInv start (given ++ [((natLan config dropWhenFull).step manager call).2])
      ((natLan config dropWhenFull).step manager call).1 alloc' free' := by
  simp only [natLan]
  rcases getInternal_spec h.coherent.linked call.flowId call.now with
    ⟨i, hi, he, hget⟩ | ⟨hno, hget⟩
  · rw [nfProcess_known hlan hget]
    obtain ⟨alloc', hperm, hc⟩ := rejuvenate_coherent h.coherent hi call.now
    refine ⟨alloc', free, hc, h.params, ?_, ?_⟩
    · intro i' hi'
      rw [List.map_append]
      exact List.mem_append_left _ (h.seen i' (hperm.mem_iff.mp hi'))
    · intro e hm
      rcases List.mem_append.mp hm with hm | hm
      · obtain ⟨i', hi', hkey, hport⟩ := h.given e hm
        exact ⟨i', hperm.mem_iff.mpr hi', hkey, hport⟩
      · rw [List.mem_singleton.mp hm]
        exact ⟨i, hperm.mem_iff.mpr hi, he, by
          rw [rewriteSrc_port, portOf_params h.params]⟩
  · obtain ⟨i, free', rfl⟩ := List.exists_cons_of_ne_nil (h.not_full hno hfit)
    obtain ⟨manager', hrun, hfv, hparams, hc⟩ :=
      allocateFlow_coherent h.coherent hno call.device call.now
    rw [nfProcess_new hlan hget hrun]
    have hnew : i ∉ alloc := fun hi => h.coherent.linked.disjoint hi List.mem_cons_self
    have hold : ∀ i' ∈ alloc, manager'.state.fv i' = manager.state.fv i' := by
      intro i' hi'
      have hne : i' ≠ i := fun he => hnew (he ▸ hi')
      rw [hfv, Function.update_of_ne hne]
    have hself : manager'.state.fv i = call.flowId := by
      rw [hfv, Function.update_self]
    refine ⟨alloc ++ [i], free', hc, hparams.trans h.params, ?_, ?_⟩
    · intro i' hi'
      rw [List.map_append]
      rcases List.mem_append.mp hi' with hi' | hi'
      · rw [hold i' hi']
        exact List.mem_append_left _ (h.seen i' hi')
      · rw [List.mem_singleton.mp hi', hself]
        exact List.mem_append_right _ List.mem_cons_self
    · intro e hm
      rcases List.mem_append.mp hm with hm | hm
      · obtain ⟨i', hi', hkey, hport⟩ := h.given e hm
        refine ⟨i', List.mem_append_left _ hi', ?_, hport⟩
        rw [hold i' hi']
        exact hkey
      · rw [List.mem_singleton.mp hm]
        refine ⟨i, List.mem_append_right _ List.mem_cons_self, ?_, ?_⟩
        · rw [hself]
          exact keys_lawful.refl _
        · rw [rewriteSrc_port, portOf_params h.params]

/-- Packets with equal keys leave with the same port. -/
theorem LanInv.merged (h : LanInv start given manager alloc free) {e e' : FlowId × UInt16}
    (he : e ∈ given) (he' : e' ∈ given) (hkey : e.1.srcPort = e'.1.srcPort) : e.2 = e'.2 := by
  obtain ⟨i, hi, hk, hport⟩ := h.given e he
  obtain ⟨i', hi', hk', hport'⟩ := h.given e' he'
  simp only [keyEquals, beq_iff_eq] at hk hk'
  have hii : i = i' := by
    apply h.coherent.distinct i hi i' hi'
    simp only [keyEquals, beq_iff_eq]
    rw [hk, hk', hkey]
  rw [hport, hport', hii]

/-- If equal keys mean equal flows, the index behind a port holds the flow that was given it. -/
theorem LanInv.owner (h : LanInv start given manager alloc free)
    (hid : ∀ e ∈ given, ∀ e' ∈ given, e.1.srcPort = e'.1.srcPort → e.1 = e'.1)
    {e : FlowId × UInt16} (he : e ∈ given) :
    ∃ i ∈ alloc, manager.state.fv i = e.1 ∧ e.2 = portOf start i := by
  obtain ⟨i, hi, hk, hport⟩ := h.given e he
  refine ⟨i, hi, ?_, hport⟩
  obtain ⟨e', he', hfv⟩ := List.mem_map.mp (h.seen i hi)
  rw [← hfv] at hk ⊢
  simp only [keyEquals, beq_iff_eq] at hk
  exact hid e' he' e he hk

/-- Flows given the same port are the same. -/
theorem LanInv.separate (h : LanInv start given manager alloc free)
    (hports : start.state.startPort.toNat + start.state.maxFlows.toNat ≤ 65536)
    (hid : ∀ e ∈ given, ∀ e' ∈ given, e.1.srcPort = e'.1.srcPort → e.1 = e'.1)
    {e e' : FlowId × UInt16} (he : e ∈ given) (he' : e' ∈ given) (heq : e.2 = e'.2) : e.1 = e'.1 := by
  obtain ⟨i, hi, hfv, hport⟩ := h.owner hid he
  obtain ⟨i', hi', hfv', hport'⟩ := h.owner hid he'
  have hb := h.coherent.linked.bounds hi
  have hb' := h.coherent.linked.bounds hi'
  rw [maxFlows_params h.params] at hb hb'
  have hii : i = i' := by
    rw [hport, hport'] at heq
    exact portOf_inj hb.1 hb'.1 (by omega) (by omega) heq
  rw [← hfv, ← hfv', hii]

/-- An incoming packet for the port of a flow goes to that flow. -/
theorem LanInv.reverse (config : NfConfig) (dropWhenFull : Bool)
    (h : LanInv start given manager alloc free)
    (hports : start.state.startPort.toNat + start.state.maxFlows.toNat ≤ 65536)
    (hid : ∀ e ∈ given, ∀ e' ∈ given, e.1.srcPort = e'.1.srcPort → e.1 = e'.1)
    {e : FlowId × UInt16} (he : e ∈ given) {wan : NfCall} (hwan : wan.device = config.wanDevice)
    (hdst : wan.portDst = e.2) :
    ∃ manager', nfProcess config dropWhenFull manager wan =
      (manager', rewriteDst wan.payload e.1, deviceResult e.1.internalDevice) := by
  obtain ⟨i, hi, hfv, hport⟩ := h.owner hid he
  refine ⟨manager.rejuvenate i wan.now, ?_⟩
  rw [← hfv]
  refine nfProcess_wan h.coherent.linked ?_ hi hwan ?_
  · rw [startPort_params h.params, maxFlows_params h.params]
    exact hports
  · rw [hdst, hport, portOf_params h.params]

/-- The event of a packet carries its flow. -/
theorem natLan_flows (config : NfConfig) (dropWhenFull : Bool) (start : FlowManager)
    (calls : List NfCall) :
    ((natLan config dropWhenFull).events start calls).map Prod.fst = calls.map NfCall.flowId := by
  induction calls using List.reverseRecOn with
  | nil => rfl
  | append_singleton calls call ih =>
    rw [Machine.events_snoc, List.map_append, List.map_append, ih]
    rfl

theorem event_of_call (config : NfConfig) (dropWhenFull : Bool) (start : FlowManager)
    {calls : List NfCall} {call : NfCall} (hcall : call ∈ calls) :
    ∃ e ∈ (natLan config dropWhenFull).events start calls, e.1 = call.flowId := by
  rw [← List.mem_map, natLan_flows]
  exact List.mem_map_of_mem hcall

theorem call_of_event {calls : List NfCall} {e : FlowId × UInt16}
    (he : e ∈ (natLan config dropWhenFull).events start calls) :
    ∃ call ∈ calls, call.flowId = e.1 := by
  rw [← List.mem_map, ← natLan_flows config dropWhenFull start]
  exact List.mem_map_of_mem he

/-- **Run invariant** of a sequence of outgoing packets whose flows fit into the table. -/
theorem lan_run_inv (config : NfConfig) (dropWhenFull : Bool) {free : List Int}
    (h0 : start.Coherent [] free) :
    ∀ calls : List NfCall, (∀ call ∈ calls, call.device ≠ config.wanDevice) →
      (calls.map NfCall.flowId).toFinset.card ≤ start.state.maxFlows.toNat →
      ∃ alloc free, LanInv start ((natLan config dropWhenFull).events start calls)
        ((natLan config dropWhenFull).final start calls) alloc free := by
  intro calls
  induction calls using List.reverseRecOn with
  | nil =>
    intro _ _
    exact ⟨[], free, h0, rfl, by simp, by simp [Machine.events]⟩
  | append_singleton calls call ih =>
    intro hlan hfit
    rw [Machine.events_snoc, Machine.final_snoc]
    have hflows : (call.flowId :: calls.map NfCall.flowId).toFinset =
        ((calls ++ [call]).map NfCall.flowId).toFinset := by
      ext f
      simp
    have hless : (calls.map NfCall.flowId).toFinset.card ≤ start.state.maxFlows.toNat := by
      refine le_trans (Finset.card_le_card ?_) hfit
      rw [← hflows, List.toFinset_cons]
      exact Finset.subset_insert _ _
    obtain ⟨alloc, free, h⟩ := ih (fun c hc => hlan c (List.mem_append_left _ hc)) hless
    refine h.step config dropWhenFull (hlan call (List.mem_append_right _ List.mem_cons_self)) ?_
    rw [natLan_flows, hflows]
    exact hfit

end Sequences

/-! ## Correctness -/

/-- Ports identify flows, and an incoming packet for the port of a flow reaches that flow. -/
structure NatCorrect (config : NfConfig) (dropWhenFull : Bool) (start : FlowManager)
    (calls : List NfCall) : Prop where
  separate : ∀ e ∈ (natLan config dropWhenFull).events start calls,
    ∀ e' ∈ (natLan config dropWhenFull).events start calls, e.1 ≠ e'.1 → e.2 ≠ e'.2
  stable : ∀ e ∈ (natLan config dropWhenFull).events start calls,
    ∀ e' ∈ (natLan config dropWhenFull).events start calls, e.1 = e'.1 → e.2 = e'.2
  reverse : ∀ e ∈ (natLan config dropWhenFull).events start calls, ∀ wan : NfCall,
    wan.device = config.wanDevice → wan.portDst = e.2 →
      let (_, payload, device) :=
        nfProcess config dropWhenFull ((natLan config dropWhenFull).final start calls) wan
      get32 payload DST_ADDR = e.1.srcIp ∧ get16 payload DST_PORT = e.1.srcPort ∧
        device = deviceResult e.1.internalDevice

/-- No two flows of the sequence share a source port. -/
def PortsIdentify (calls : List NfCall) : Prop :=
  ∀ call ∈ calls, ∀ call' ∈ calls, call.portSrc = call'.portSrc → call.flowId = call'.flowId

theorem PortsIdentify.events (config : NfConfig) (dropWhenFull : Bool) (start : FlowManager)
    {calls : List NfCall} (h : PortsIdentify calls) :
    ∀ e ∈ (natLan config dropWhenFull).events start calls,
      ∀ e' ∈ (natLan config dropWhenFull).events start calls,
        e.1.srcPort = e'.1.srcPort → e.1 = e'.1 := by
  intro e he e' he' hsrc
  obtain ⟨call, hcall, hflow⟩ := call_of_event he
  obtain ⟨call', hcall', hflow'⟩ := call_of_event he'
  rw [← hflow, ← hflow'] at hsrc ⊢
  exact h call hcall call' hcall' hsrc

/-- **Address translation is correct** exactly for sequences in which no two flows share a source
    port: the table tells flows apart by that field alone. -/
theorem nat_correct_iff (config : NfConfig) (dropWhenFull : Bool) (memory : Memory)
    (startingPort : UInt16) (natIp : UInt32) (natDevice : UInt16) (expirationTime : UInt32)
    (maxFlows : UInt64) (shared : Bool)
    (hm : 1 ≤ maxFlows.toNat ∧ maxFlows.toNat ≤ 65535)
    (hports : startingPort.toNat + maxFlows.toNat ≤ 65536) (calls : List NfCall)
    (hlan : ∀ call ∈ calls, call.device ≠ config.wanDevice)
    (hflows : (calls.map NfCall.flowId).toFinset.card ≤ maxFlows.toNat) :
    NatCorrect config dropWhenFull (flowManagerAllocate memory startingPort natIp natDevice
      expirationTime maxFlows shared) calls ↔ PortsIdentify calls := by
  have hcast := maxFlows_cast hm.2
  obtain ⟨start, hstart⟩ : ∃ start, start = flowManagerAllocate memory startingPort natIp natDevice
    expirationTime maxFlows shared := ⟨_, rfl⟩
  have hmax : start.state.maxFlows.toNat = maxFlows.toNat := by
    rw [hstart]
    exact hcast
  have hsp : start.state.startPort = startingPort := by
    rw [hstart]
    rfl
  have h0 : start.Coherent [] ((List.range maxFlows.toUInt16.toNat).map Int.ofNat) := by
    rw [hstart]
    exact allocate_coherent memory startingPort natIp natDevice expirationTime shared (by omega)
  rw [← hstart]
  obtain ⟨alloc, free, h⟩ := lan_run_inv config dropWhenFull h0 calls hlan (hmax ▸ hflows)
  have hpr : start.state.startPort.toNat + start.state.maxFlows.toNat ≤ 65536 := by
    rw [hsp, hmax]
    exact hports
  constructor
  · intro hc call hcall call' hcall' hsrc
    obtain ⟨e, he, hflow⟩ := event_of_call config dropWhenFull start hcall
    obtain ⟨e', he', hflow'⟩ := event_of_call config dropWhenFull start hcall'
    have hport : e.2 = e'.2 := by
      apply h.merged he he'
      rw [hflow, hflow']
      exact hsrc
    rw [← hflow, ← hflow']
    by_contra hne
    exact hc.separate e he e' he' hne hport
  · intro hid
    have hgiven := hid.events config dropWhenFull start
    refine ⟨?_, ?_, ?_⟩
    · intro e he e' he' hne heq
      exact hne (h.separate hpr hgiven he he' heq)
    · intro e he e' he' heq
      apply h.merged he he'
      rw [heq]
    · intro e he wan hwan hdst
      obtain ⟨manager', hrun⟩ := h.reverse config dropWhenFull hpr hgiven he hwan hdst
      simp only [hrun, rewriteDst_addr, rewriteDst_port, and_self]

/-- A shard of two flows. -/
def twoFlowShard : FlowManager :=
  flowManagerAllocate Memory.zero 1024 0x01010101 2 60000000 2 false

/-- A packet of the host `ipSrc` from its port 5000. -/
def hostCall (ipSrc : UInt32) (portSrc : UInt16) : NfCall :=
  ⟨0, fun _ => 0, 0x0800, 17, ipSrc, 0x08080808, portSrc, 53, 0, 0, 0⟩

theorem nat_correct_two_hosts :
    NatCorrect nfInitConfig false twoFlowShard [hostCall 1 5000, hostCall 2 5001] :=
  (nat_correct_iff nfInitConfig false Memory.zero 1024 0x01010101 2 60000000 2 false
    ⟨by decide, by decide⟩ (by decide) [hostCall 1 5000, hostCall 2 5001] (by decide)
    (by decide)).mpr (by unfold PortsIdentify; decide)

/-- Two hosts that use the same source port leave with the same external port. -/
theorem nat_merges_hosts :
    let calls := [hostCall 1 5000, hostCall 2 5000]
    (∀ call ∈ calls, call.device ≠ nfInitConfig.wanDevice) ∧
      (calls.map NfCall.flowId).toFinset.card ≤ 2 ∧
      ¬NatCorrect nfInitConfig false twoFlowShard calls := by
  refine ⟨by decide, by decide, fun h => ?_⟩
  have hev : (natLan nfInitConfig false).events twoFlowShard [hostCall 1 5000, hostCall 2 5000] =
      [((hostCall 1 5000).flowId, 1024), ((hostCall 2 5000).flowId, 1024)] := by
    decide +kernel
  have hsep := h.separate
  rw [hev] at hsep
  exact hsep _ List.mem_cons_self _ (List.mem_cons_of_mem _ List.mem_cons_self) (by decide) rfl

end QueueDpdk.NatFlow
