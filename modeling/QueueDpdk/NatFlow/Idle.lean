import QueueDpdk.NatFlow.Runs
import QueueDpdk.NatFlow.Shards

/-!
# Idle flows (`nf-chain/src/nat_main.c`)

The call of `flow_manager_expire` in `nf_process` is commented out, so a shard keeps the first
`max_flows` flows it sees for good.

* `keepFlow`, `keptFlows` — the flows a shard keeps, from the packets alone; `Holds` — a shard holds
  them, each at the index of its turn, and `Holds.step` that `nf_process` keeps it so.
* `IdleFlowsExpire` — the table holds flows used within the expiration time only, and refuses a new
  flow only if there are `max_flows` of them.
* `idle_flows_iff` — this holds of a run exactly if the packets leave no flow idle.
-/

set_option autoImplicit false

namespace QueueDpdk.NatFlow

open LibVig Lib

/-! ## The flows of a shard -/

/-- The flows kept after one more packet: one with a new source port joins while there is room. -/
def keepFlow (config : NfConfig) (maxFlows : ℕ) (flows : List FlowId) (call : NfCall) :
    List FlowId :=
  if call.device = config.wanDevice then flows
  else if flows.any (fun f => keyEquals f call.flowId) then flows
  else if flows.length < maxFlows then flows ++ [call.flowId]
  else flows

/-- The flows kept after some packets, in the order in which they joined. -/
def keptFlows (config : NfConfig) (maxFlows : ℕ) (calls : List NfCall) : List FlowId :=
  calls.foldl (keepFlow config maxFlows) []

/-- A shard that started as `start` holds `flows`, each at the index of its turn. -/
structure Holds (start m : FlowManager) (flows : List FlowId) : Prop where
  params : m.params = start.params
  length_le : flows.length ≤ start.state.maxFlows.toNat
  slots : ∀ (j : ℕ) f, flows[j]? = some f → m.state.fv j = f
  coherent : ∃ alloc, m.Coherent alloc ((List.range' flows.length
      (start.state.maxFlows.toNat - flows.length)).map Int.ofNat) ∧
    ∀ i, i ∈ alloc ↔ ∃ j < flows.length, i = (j : Int)

section Tables

variable {config : NfConfig} {start m : FlowManager} {flows : List FlowId}

theorem Holds.allocated_iff (h : Holds start m flows) (i : Int) :
    m.Allocated i ↔ ∃ j < flows.length, i = (j : Int) := by
  obtain ⟨alloc, hc, hmem⟩ := h.coherent
  rw [← linked_mem_iff hc.linked, hmem]

/-- No two flows of the table have equal keys. -/
theorem Holds.nodup (h : Holds start m flows) : flows.Nodup := by
  obtain ⟨alloc, hc, hmem⟩ := h.coherent
  rw [List.nodup_iff_getElem?_ne_getElem?]
  intro j k hjk hk he
  have hj : j < flows.length := Nat.lt_trans hjk hk
  have hfj := h.slots j flows[j] (List.getElem?_eq_getElem hj)
  have hfk := h.slots k flows[k] (List.getElem?_eq_getElem hk)
  rw [List.getElem?_eq_getElem hj, List.getElem?_eq_getElem hk, Option.some.injEq] at he
  have hjk' : (j : Int) = k := by
    apply hc.distinct j ((hmem j).mpr ⟨j, hj, rfl⟩) k ((hmem k).mpr ⟨k, hk, rfl⟩)
    rw [hfj, hfk, he]
    exact keys_lawful.refl _
  omega

theorem Holds.rejuvenate (h : Holds start m flows) {i : Int} (hi : m.Allocated i)
    (time : VigorTime) : Holds start (m.rejuvenate i time) flows := by
  obtain ⟨alloc, hc, hmem⟩ := h.coherent
  obtain ⟨alloc', hperm, hc'⟩ := rejuvenate_coherent hc ((linked_mem_iff hc.linked i).mpr hi) time
  exact ⟨(rejuvenate_params m i time).trans h.params, h.length_le, h.slots, alloc', hc',
    fun i' => by rw [hperm.mem_iff, hmem]⟩

/-- A new flow gets the next index. -/
theorem Holds.allocate (h : Holds start m flows) {id : FlowId}
    (hnew : flows.any (fun f => keyEquals f id) = false)
    (hroom : flows.length < start.state.maxFlows.toNat) (device : UInt16) (time : VigorTime) :
    ∃ m' port, flowManagerAllocateFlow m id device time = (m', some port) ∧
      Holds start m' (flows ++ [id]) := by
  obtain ⟨alloc, hc, hmem⟩ := h.coherent
  obtain ⟨n, hn⟩ : ∃ n, start.state.maxFlows.toNat - flows.length = n + 1 :=
    ⟨start.state.maxFlows.toNat - flows.length - 1, by omega⟩
  rw [hn, List.range'_succ, List.map_cons] at hc
  have habsent : ∀ i ∈ alloc, keyEquals (m.state.fv i) id = false := by
    intro i hi
    obtain ⟨j, hj, rfl⟩ := (hmem i).mp hi
    rw [h.slots j flows[j] (List.getElem?_eq_getElem hj)]
    exact (List.any_eq_false.mp hnew flows[j] (List.getElem_mem hj)) |> Bool.eq_false_iff.mpr
  obtain ⟨m', hrun, hfv, hparams, hc'⟩ := allocateFlow_coherent hc habsent device time
  refine ⟨m', _, hrun, hparams.trans h.params, ?_, ?_, alloc ++ [(flows.length : Int)], ?_, ?_⟩
  · rw [List.length_append]
    exact hroom
  · intro j f hf
    rw [hfv]
    rcases Nat.lt_trichotomy j flows.length with hj | rfl | hj
    · rw [List.getElem?_append_left hj] at hf
      rw [Function.update_of_ne (by
        intro he
        exact absurd (Int.ofNat.inj he) (by omega))]
      exact h.slots j f hf
    · rw [List.getElem?_concat_length] at hf
      obtain rfl := Option.some.inj hf
      exact Function.update_self ..
    · rw [List.getElem?_eq_none (by simp; omega)] at hf
      cases hf
  · rw [List.length_append, List.length_singleton,
      show start.state.maxFlows.toNat - (flows.length + 1) = n by omega]
    exact hc'
  · intro i
    rw [List.mem_append, hmem, List.mem_singleton, List.length_append, List.length_singleton]
    constructor
    · rintro (⟨j, hj, rfl⟩ | rfl)
      · exact ⟨j, by omega, rfl⟩
      · exact ⟨flows.length, by omega, rfl⟩
    · rintro ⟨j, hj, rfl⟩
      rcases Nat.lt_succ_iff_lt_or_eq.mp hj with hj | rfl
      · exact Or.inl ⟨j, hj, rfl⟩
      · exact Or.inr rfl

/-- A full shard refuses a new flow. -/
theorem Holds.full (h : Holds start m flows) (hfull : ¬flows.length < start.state.maxFlows.toNat)
    (id : FlowId) (device : UInt16) (time : VigorTime) :
    flowManagerAllocateFlow m id device time = (m, none) := by
  obtain ⟨alloc, hc, -⟩ := h.coherent
  rw [show start.state.maxFlows.toNat - flows.length = 0 by omega] at hc
  exact allocateFlow_full hc.linked id device time

/-- A lookup finds a flow of the shard with an equal key, if there is one. -/
theorem Holds.lookup (h : Holds start m flows) (id : FlowId) (time : VigorTime) :
    (flows.any (fun f => keyEquals f id) = true ∧ ∃ i port, m.Allocated i ∧
      flowManagerGetInternal m id time = (m.rejuvenate i time, some port)) ∨
    (flows.any (fun f => keyEquals f id) = false ∧
      flowManagerGetInternal m id time = (m, none)) := by
  obtain ⟨alloc, hc, hmem⟩ := h.coherent
  rcases getInternal_spec hc.linked id time with ⟨i, hi, hkey, hrun⟩ | ⟨hno, hrun⟩
  · refine Or.inl ⟨?_, i, _, (linked_mem_iff hc.linked i).mp hi, hrun⟩
    obtain ⟨j, hj, rfl⟩ := (hmem i).mp hi
    rw [h.slots j flows[j] (List.getElem?_eq_getElem hj)] at hkey
    exact List.any_eq_true.mpr ⟨flows[j], List.getElem_mem hj, hkey⟩
  · refine Or.inr ⟨?_, hrun⟩
    rw [List.any_eq_false]
    intro f hf
    obtain ⟨j, hj, rfl⟩ := List.getElem_of_mem hf
    have := hno j ((hmem j).mpr ⟨j, hj, rfl⟩)
    rw [h.slots j flows[j] (List.getElem?_eq_getElem hj)] at this
    exact Bool.eq_false_iff.mp this

/-- **Step lemma**: `nf_process` keeps the flows the packets say. -/
theorem Holds.step (h : Holds start m flows) (config : NfConfig) (dropWhenFull : Bool)
    (call : NfCall) (hport : call.device = config.wanDevice → start.InRange call.portDst.toNat) :
    Holds start (nfProcess config dropWhenFull m call).1
      (keepFlow config start.state.maxFlows.toNat flows call) := by
  by_cases hwan : call.device = config.wanDevice
  · obtain ⟨hlow, hhigh⟩ := hport hwan
    obtain ⟨alloc, hc, hmem⟩ := h.coherent
    rw [keepFlow, if_pos hwan]
    unfold nfProcess nfProcessWith
    rw [if_pos hwan]
    have hstart := startPort_params h.params
    have hmax := maxFlows_params h.params
    rcases getExternal_spec hc.linked call.now rfl
      (show (0 : Int) ≤ call.portDst.toNat - m.state.startPort.toNat by rw [hstart]; omega)
      (by rw [hstart, hmax]; omega) with ⟨hi, hrun⟩ | ⟨-, hrun⟩
    · rw [hrun]
      exact h.rejuvenate ((linked_mem_iff hc.linked _).mp hi) call.now
    · rw [hrun]
      exact h
  · rw [keepFlow, if_neg hwan]
    rcases h.lookup call.flowId call.now with ⟨hany, i, port, hi, hget⟩ | ⟨hany, hget⟩
    · rw [nfProcess_known hwan hget, if_pos hany]
      exact h.rejuvenate hi call.now
    · rw [if_neg (Bool.eq_false_iff.mp hany)]
      split
      · rename_i hroom
        obtain ⟨m', port, hrun, h'⟩ := h.allocate hany hroom call.device call.now
        rw [nfProcess_new hwan hget hrun]
        exact h'
      · rename_i hfull
        unfold nfProcess nfProcessWith
        rw [if_neg hwan, hget]
        simp only [h.full hfull]
        split <;> exact h

end Tables

/-! ## Runs -/

/-- `nf_process` on one shard, packet after packet. -/
def natRun (config : NfConfig) (dropWhenFull : Bool) : Machine FlowManager NfCall Int :=
  ⟨fun manager call =>
    let (manager, _, ret) := nfProcess config dropWhenFull manager call
    (manager, ret)⟩

/-- The expiration time in the unit of the clock. -/
def expirationNs (config : NfConfig) : ℕ := config.expirationTime.toNat * 1000

/-- The packet is one of the flow at index `i`, in the shard it leaves. -/
def Serves (config : NfConfig) (m : FlowManager) (call : NfCall) (i : Int) : Prop :=
  m.Allocated i ∧ if call.device = config.wanDevice then externalIndex m call.portDst = i
    else keyEquals (m.state.fv i) call.flowId = true

/-- The flow at index `i` had a packet within the expiration time before `now`. -/
def UsedWithin (config : NfConfig) (dropWhenFull : Bool) (start : FlowManager)
    (calls : List NfCall) (now : VigorTime) (i : Int) : Prop :=
  ∃ us call vs, calls = us ++ call :: vs ∧
    Serves config ((natRun config dropWhenFull).final start (us ++ [call])) call i ∧
    now.toNat ≤ call.now.toNat + expirationNs config

/-- The packet is refused an external port. -/
def Refused (config : NfConfig) (m : FlowManager) (call : NfCall) : Prop :=
  call.device ≠ config.wanDevice ∧ (flowManagerGetInternal m call.flowId call.now).2 = none ∧
    (flowManagerAllocateFlow m call.flowId call.device call.now).2 = none

/-- **Idle flows do not exhaust the shard**: after every packet the flows of the table have been
    used within the expiration time, and a new flow is refused only if `max_flows` flows have. -/
structure IdleFlowsExpire (config : NfConfig) (dropWhenFull : Bool) (start : FlowManager)
    (calls : List NfCall) : Prop where
  used : ∀ ys call zs, calls = ys ++ call :: zs → ∀ i,
    ((natRun config dropWhenFull).final start (ys ++ [call])).Allocated i →
      UsedWithin config dropWhenFull start (ys ++ [call]) call.now i
  refused : ∀ ys call zs, calls = ys ++ call :: zs →
    Refused config ((natRun config dropWhenFull).final start ys) call →
      ∃ flows : List FlowId, flows.Nodup ∧ flows.length = start.state.maxFlows.toNat ∧
        ∀ f ∈ flows, ∃ i,
          ((natRun config dropWhenFull).final start (ys ++ [call])).state.fv i = f ∧
          UsedWithin config dropWhenFull start (ys ++ [call]) call.now i

/-- The packet is one of flow `j` of `flows`. -/
def ServesFlow (config : NfConfig) (start : FlowManager) (flows : List FlowId) (call : NfCall)
    (j : ℕ) : Prop :=
  ∃ f, flows[j]? = some f ∧
    if call.device = config.wanDevice then call.portDst.toNat = start.state.startPort.toNat + j
    else keyEquals f call.flowId = true

/-- **No flow falls idle**: whenever a packet arrives, each flow kept so far had one within the
    expiration time. -/
def NoneIdle (config : NfConfig) (start : FlowManager) (calls : List NfCall) : Prop :=
  ∀ ys call zs, calls = ys ++ call :: zs →
    ∀ j < (keptFlows config start.state.maxFlows.toNat (ys ++ [call])).length,
      ∃ us c vs, ys ++ [call] = us ++ c :: vs ∧
        ServesFlow config start (keptFlows config start.state.maxFlows.toNat (us ++ [c])) c j ∧
        call.now.toNat ≤ c.now.toNat + expirationNs config

/-- Packets from the WAN are for ports of the shard. -/
def WanInRange (config : NfConfig) (start : FlowManager) (calls : List NfCall) : Prop :=
  ∀ call ∈ calls, call.device = config.wanDevice → start.InRange call.portDst.toNat

section Runs

variable {config : NfConfig} {dropWhenFull : Bool} {start m : FlowManager} {flows : List FlowId}
  {calls : List NfCall}

theorem Holds.serves_iff (h : Holds start m flows) (config : NfConfig) (call : NfCall) (j : ℕ) :
    Serves config m call j ↔ ServesFlow config start flows call j := by
  have hstart := startPort_params h.params
  unfold Serves ServesFlow externalIndex
  rw [h.allocated_iff, hstart]
  constructor
  · rintro ⟨⟨k, hk, hjk⟩, hserves⟩
    obtain rfl : j = k := Int.ofNat.inj hjk
    refine ⟨flows[j], List.getElem?_eq_getElem hk, ?_⟩
    rw [h.slots j flows[j] (List.getElem?_eq_getElem hk)] at hserves
    split at hserves
    · rename_i hwan
      rw [if_pos hwan]
      omega
    · rename_i hlan
      rw [if_neg hlan]
      exact hserves
  · rintro ⟨f, hf, hserves⟩
    obtain ⟨hj, -⟩ := List.getElem?_eq_some_iff.mp hf
    refine ⟨⟨j, hj, rfl⟩, ?_⟩
    rw [h.slots j f hf]
    split at hserves
    · rename_i hwan
      rw [if_pos hwan]
      omega
    · rename_i hlan
      rw [if_neg hlan]
      exact hserves

/-- The packets up to one of them. -/
theorem WanInRange.upTo (h : WanInRange config start calls) {ys zs : List NfCall} {call : NfCall}
    (hsplit : calls = ys ++ call :: zs) : WanInRange config start (ys ++ [call]) := by
  intro c hc
  apply h c
  rw [hsplit, ← List.singleton_append, ← List.append_assoc]
  exact List.mem_append_left zs hc

/-- **Run lemma**: a shard holds the flows its packets say. -/
theorem holds_run (h0 : Holds start start []) (dropWhenFull : Bool)
    (hports : WanInRange config start calls) :
    Holds start ((natRun config dropWhenFull).final start calls)
      (keptFlows config start.state.maxFlows.toNat calls) := by
  induction calls using List.reverseRecOn with
  | nil => exact h0
  | append_singleton calls call ih =>
    have h := ih (fun c hc => hports c (List.mem_append_left _ hc))
    rw [Machine.final_snoc, keptFlows, List.foldl_append]
    exact h.step config dropWhenFull call
      (hports call (List.mem_append_right _ List.mem_cons_self))

/-- The history of an index in terms of the packets. -/
theorem usedWithin_iff (h0 : Holds start start []) (hports : WanInRange config start calls)
    (now : VigorTime) (j : ℕ) :
    UsedWithin config dropWhenFull start calls now j ↔
      ∃ us c vs, calls = us ++ c :: vs ∧
        ServesFlow config start (keptFlows config start.state.maxFlows.toNat (us ++ [c])) c j ∧
        now.toNat ≤ c.now.toNat + expirationNs config := by
  have hserves : ∀ us c vs, calls = us ++ c :: vs →
      (Serves config ((natRun config dropWhenFull).final start (us ++ [c])) c j ↔
        ServesFlow config start (keptFlows config start.state.maxFlows.toNat (us ++ [c])) c j) := by
    intro us c vs hsplit
    exact (holds_run h0 dropWhenFull (hports.upTo hsplit)).serves_iff config c j
  constructor
  · rintro ⟨us, c, vs, hsplit, hs, htime⟩
    exact ⟨us, c, vs, hsplit, (hserves us c vs hsplit).mp hs, htime⟩
  · rintro ⟨us, c, vs, hsplit, hs, htime⟩
    exact ⟨us, c, vs, hsplit, (hserves us c vs hsplit).mpr hs, htime⟩

/-- A refused packet leaves the table as it found it, and full. -/
theorem Holds.refused (h : Holds start m flows) {call : NfCall}
    (hr : Refused config m call) :
    keepFlow config start.state.maxFlows.toNat flows call = flows ∧
      flows.length = start.state.maxFlows.toNat := by
  obtain ⟨hlan, hmiss, hnone⟩ := hr
  have hle := h.length_le
  rcases h.lookup call.flowId call.now with ⟨-, i, port, -, hget⟩ | ⟨hany, -⟩
  · rw [hget] at hmiss
    cases hmiss
  · have hfull : ¬flows.length < start.state.maxFlows.toNat := by
      intro hroom
      obtain ⟨m', port, hrun, -⟩ := h.allocate hany hroom call.device call.now
      rw [hrun] at hnone
      cases hnone
    rw [keepFlow, if_neg hlan, if_neg (Bool.eq_false_iff.mp hany), if_neg hfull]
    exact ⟨rfl, by omega⟩

end Runs

/-- A fresh shard holds no flows. -/
theorem ShardSetup.shard_holds (p : ShardSetup) (memory : Nat → Memory) (shared : Bool) {k : ℕ}
    (hk : k < p.nbShards.toNat) :
    Holds (p.shard memory shared k) (p.shard memory shared k) [] := by
  have hc := allocate_coherent (memory k) (UInt16.ofNat (p.slices.bound k)) p.config.externalAddr
    p.config.wanDevice p.config.expirationTime shared (p.shard_maxFlows_pos hk)
  refine ⟨rfl, Nat.zero_le _, fun j f hf => ?_, [], ?_, fun i => ?_⟩
  · cases hf
  · rw [List.range_eq_range'] at hc
    exact hc
  · simp

/-- **Idle flows stay.**  For every shard of `nf_init` and every sequence of packets, those of the
    WAN for ports of the shard, the table holds only recently used flows if and only if the packets
    let no flow fall idle. -/
theorem idle_flows_iff (p : ShardSetup) (memory : Nat → Memory) (shared dropWhenFull : Bool)
    (k : Fin p.nbShards.toNat) (calls : List NfCall) :
    (WanInRange p.config (p.shard memory shared k) calls ∧
      NoneIdle p.config (p.shard memory shared k) calls →
      IdleFlowsExpire p.config dropWhenFull (p.shard memory shared k) calls) ∧
    (WanInRange p.config (p.shard memory shared k) calls →
      IdleFlowsExpire p.config dropWhenFull (p.shard memory shared k) calls →
      NoneIdle p.config (p.shard memory shared k) calls) := by
  have h0 := p.shard_holds memory shared k.isLt
  constructor
  · rintro ⟨hports, hidle⟩
    have hused : ∀ ys call zs, calls = ys ++ call :: zs → ∀ i, FlowManager.Allocated
        ((natRun p.config dropWhenFull).final (p.shard memory shared k) (ys ++ [call])) i →
          UsedWithin p.config dropWhenFull (p.shard memory shared k) (ys ++ [call]) call.now i := by
      intro ys call zs hsplit i hi
      have hpre := hports.upTo hsplit
      obtain ⟨j, hj, rfl⟩ := ((holds_run h0 dropWhenFull hpre).allocated_iff i).mp hi
      exact (usedWithin_iff h0 hpre call.now j).mpr (hidle ys call zs hsplit j hj)
    refine ⟨hused, fun ys call zs hsplit hr => ?_⟩
    have hpre := hports.upTo hsplit
    have hbefore := holds_run h0 dropWhenFull
      (fun c hc => hpre c (List.mem_append_left _ hc))
    have hafter := holds_run h0 dropWhenFull hpre
    obtain ⟨hsame, hfull⟩ := hbefore.refused hr
    rw [keptFlows, List.foldl_append] at hafter
    change Holds _ _ (keepFlow _ _ (keptFlows _ _ ys) call) at hafter
    rw [hsame] at hafter
    refine ⟨_, hafter.nodup, hfull, fun f hf => ?_⟩
    obtain ⟨j, hj, rfl⟩ := List.getElem_of_mem hf
    exact ⟨j, hafter.slots j _ (List.getElem?_eq_getElem hj),
      hused ys call zs hsplit j ((hafter.allocated_iff j).mpr ⟨j, hj, rfl⟩)⟩
  · intro hports h ys call zs hsplit j hj
    have hpre := hports.upTo hsplit
    have hi := ((holds_run h0 dropWhenFull hpre).allocated_iff j).mpr ⟨j, hj, rfl⟩
    exact (usedWithin_iff h0 hpre call.now j).mp (h.used ys call zs hsplit j hi)

/-- As many shards as `nf_init` has ports, so that each has room for one flow. -/
def oneFlowSetup : ShardSetup :=
  ⟨nfInitConfig, 16384, nfInit_start_pos, nfInit_ports_le, by decide, by decide⟩

/-- A flow, an answer for it, and a second flow that finds no room while the first one is in use. -/
def refreshedFlow : List NfCall :=
  [hostCall 1 5000, { hostCall 0x08080808 53 with
      device := 2
      portDst := 1024
      now := 50000000000 },
    { hostCall 2 5001 with now := 100000000000 }]

theorem refreshedFlow_noneIdle :
    NoneIdle nfInitConfig (oneFlowSetup.shard (fun _ => Memory.zero) true 0) refreshedFlow := by
  refine forall_split_cons.mpr ⟨fun j hj => ?_, forall_split_cons.mpr ⟨fun j hj => ?_,
    forall_split_cons.mpr ⟨fun j hj => ?_, forall_split_nil⟩⟩⟩ <;>
    obtain rfl : j = 0 := Nat.lt_one_iff.mp hj
  · exact ⟨[], _, [], rfl, ⟨_, rfl, by decide⟩, by decide⟩
  · exact ⟨[_], _, [], rfl, ⟨_, rfl, by decide⟩, by decide⟩
  · -- the answer was within the expiration time
    exact ⟨[_], _, [_], rfl, ⟨_, rfl, by decide⟩, by decide⟩

theorem idle_flows_refreshed :
    IdleFlowsExpire nfInitConfig true (oneFlowSetup.shard (fun _ => Memory.zero) true 0)
      refreshedFlow := by
  refine (idle_flows_iff oneFlowSetup (fun _ => Memory.zero) true true ⟨0, by decide⟩
    refreshedFlow).1
    ⟨fun call hcall hwan => ?_, refreshedFlow_noneIdle⟩
  simp only [refreshedFlow, List.mem_cons, List.not_mem_nil, or_false] at hcall
  rcases hcall with rfl | rfl | rfl
  · exact absurd hwan (by decide)
  · exact ⟨by decide, by decide⟩
  · exact absurd hwan (by decide)

/-- A flow of an hour ago is still in the table, and a new one is refused. -/
theorem idle_flow_stays :
    let start := oneFlowSetup.shard (fun _ => Memory.zero) true 0
    let first := hostCall 1 5000
    let second := { hostCall 2 5001 with now := 3600000000000 }
    Refused nfInitConfig ((natRun nfInitConfig true).final start [first]) second ∧
      ¬IdleFlowsExpire nfInitConfig true start [first, second] := by
  intro start first second
  refine ⟨⟨by decide, by decide +kernel, by decide +kernel⟩, fun h => ?_⟩
  have hstays : ((natRun nfInitConfig true).final start [first, second]).Allocated 0 :=
    ⟨by decide +kernel, by decide +kernel⟩
  obtain ⟨us, c, vs, hsplit, ⟨-, hserves⟩, htime⟩ := h.used [first] second [] rfl 0 hstays
  revert us c vs
  -- the first packet came too early, the second is of another flow
  refine forall_split_cons.mpr ⟨fun htime hserves => ?_, forall_split_cons.mpr
    ⟨fun htime hserves => ?_, forall_split_nil⟩⟩
  · exact absurd htime (by decide +kernel)
  · exact absurd hserves (by decide +kernel)

end QueueDpdk.NatFlow
