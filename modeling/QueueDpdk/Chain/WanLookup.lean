import QueueDpdk.Chain.Loop
import QueueDpdk.NatFlow.Runs
import QueueDpdk.NatFlow.Shards

/-!
# Looking up packets of the WAN (`nf-chain/src/main.c`, `nf-chain/src/nat_flowmanager.c`)

A packet of the WAN device is looked up in the shard of the lcore or the queue it arrives on, at the
difference of its destination port and the start port of that shard.

* `natShards` — how many shards `main` asks for; `Receiver` — a queue and the lcore that polls it.
* `LookupSound` — the index is one of the shard, and the shard is the one that allocated the port.
* `wan_lookup_sound_iff` — a lookup is sound exactly when `nf_init` gave the port to that shard.
-/

set_option autoImplicit false

namespace QueueDpdk.Chain

open Lib PollLoop NatFlow

/-- `nat_shards` of `main`: one shard, one for each lcore, or one for each queue. -/
def natShards (mode : QflowMode) (nbLcores : UInt32) (queues : UInt16) : UInt16 :=
  match mode with
  | .single => 1
  | .partitioned => nbLcores.toUInt16
  | .shared => queues

/-- A queue polled by an lcore, after `main` has set up the shards.  In Partitioned mode
    `qflow_check` leaves no more lcores than queues. -/
structure Receiver where
  setup : ShardSetup
  chain : ChainCfg
  queue : Int
  nbLcores : UInt32
  queues : UInt16
  nat_eq : chain.nat = setup.config
  shards_eq : setup.nbShards = natShards chain.loop.mode nbLcores queues
  lcores_le : chain.loop.mode = .partitioned → nbLcores.toNat ≤ queues.toNat
  lcore_lt : chain.lcorePos < nbLcores.toNat
  queue_nonneg : 0 ≤ queue
  queue_lt : queue < queues.toNat

/-- The shard that the packets of the queue are looked up in. -/
def Receiver.shard (r : Receiver) : ℕ := r.chain.shard r.queue

/-- That shard exists. -/
theorem Receiver.shard_lt (r : Receiver) : r.shard < r.setup.nbShards.toNat := by
  have hqueues := r.queues.toNat_lt
  have hlcore := r.lcore_lt
  have hnonneg := r.queue_nonneg
  have hlt := r.queue_lt
  have hle := r.lcores_le
  rw [r.shards_eq]
  unfold Receiver.shard ChainCfg.shard natShards
  cases hmode : r.chain.loop.mode with
  | single => exact Nat.zero_lt_one
  | partitioned =>
    show r.chain.lcorePos < r.nbLcores.toUInt16.toNat
    rw [UInt32.toNat_toUInt16, Nat.mod_eq_of_lt (Nat.lt_of_le_of_lt (hle hmode) hqueues)]
    exact hlcore
  | shared =>
    show (r.queue % 65536).toNat < r.queues.toNat
    omega

/-- The lookup of a packet keeps to the shard it is made in, and that is the one to look in. -/
structure LookupSound (r : Receiver) (shards : ℕ → FlowManager) (call : NfCall) : Prop where
  index : 0 ≤ externalIndex (shards r.shard) call.portDst ∧
    externalIndex (shards r.shard) call.portDst < (shards r.shard).state.maxFlows.toNat
  owner : ∀ k < r.setup.nbShards.toNat, ∀ i, (shards k).Allocated i →
    portOf (shards k) i = call.portDst → k = r.shard

/-- The packet arrives where the shard with its destination port is used. -/
def ArrivesAtOwner (r : Receiver) (call : NfCall) : Prop :=
  (r.setup.config.startPort.toNat ≤ call.portDst.toNat ∧
    call.portDst.toNat < r.setup.config.startPort.toNat + r.setup.config.maxFlows.toNat) ∧
  dealtOwner r.setup.config.maxFlows.toNat r.setup.nbShards.toNat
    (call.portDst.toNat - r.setup.config.startPort.toNat) = r.shard

section Lookup

variable {r : Receiver} {memory : Nat → Memory} {shared : Bool} {shards : ℕ → FlowManager}

/-- The shard of the receiver owns exactly the ports of packets that arrive where they should. -/
theorem arrivesAtOwner_iff (call : NfCall) :
    ArrivesAtOwner r call ↔ r.setup.slices.Owns r.shard call.portDst.toNat :=
  (dealtSlices_owns_iff r.setup.shards_pos r.setup.shards_le r.shard_lt).symm

/-- Starting the shards and using them, in terms of the setup. -/
theorem started_run {started : List FlowManager}
    (hinit : nfInit r.setup.config memory r.setup.nbShards shared = some started)
    (hrun : ∀ (k : UInt16) (m : FlowManager), nfShard started k = some m →
      ShardRun m (shards k.toNat)) :
    ∀ k < r.setup.nbShards.toNat, ShardRun (r.setup.shard memory shared k) (shards k) := by
  intro k hk
  have hk16 := UInt16.toNat_ofNat_of_lt' (Nat.lt_trans hk r.setup.nbShards.toNat_lt)
  rw [r.setup.nfInit_eq memory shared, Option.some.injEq] at hinit
  have hshard := hrun (UInt16.ofNat k) (r.setup.shard memory shared k) (by
    rw [nfShard, ← hinit, hk16, List.getElem?_map, List.getElem?_range hk]
    rfl)
  rwa [hk16] at hshard

/-- The range of a shard does not depend on what happened to it. -/
theorem run_inRange {k : ℕ} (hk : k < r.setup.nbShards.toNat)
    (hrun : ShardRun (r.setup.shard memory shared k) (shards k)) (port : ℕ) :
    (shards k).InRange port ↔ r.setup.slices.Owns k port := by
  have hparams := (shardRun_sound (r.setup.shard_sound memory shared hk) hrun).2
  rw [← r.setup.shard_inRange memory shared hk]
  unfold FlowManager.InRange
  rw [maxFlows_params hparams, startPort_params hparams]

/-- A shard allocates its own ports only. -/
theorem run_allocated {k : ℕ} (hk : k < r.setup.nbShards.toNat)
    (hrun : ShardRun (r.setup.shard memory shared k) (shards k)) {i : Int}
    (hi : (shards k).Allocated i) :
    r.setup.slices.Owns k (portOf (shards k) i).toNat := by
  have hparams := (shardRun_sound (r.setup.shard_sound memory shared hk) hrun).2
  have hports := r.setup.shard_ports_le memory shared hk
  rw [← startPort_params hparams, ← maxFlows_params hparams] at hports
  obtain ⟨⟨h0, h1⟩, -⟩ := hi
  have hport := portOf_toNat h0 (show (shards k).state.startPort.toNat + i < 65536 by omega)
  rw [← run_inRange hk hrun]
  unfold FlowManager.InRange
  omega

end Lookup

/-- **A lookup is sound exactly when the packet arrives at the owner of its port**, for any number of
    shards in any states they can reach. -/
theorem wan_lookup_sound_iff (r : Receiver) (memory : Nat → Memory) (shared : Bool)
    (started : List FlowManager)
    (hinit : nfInit r.setup.config memory r.setup.nbShards shared = some started)
    (shards : ℕ → FlowManager)
    (hrun : ∀ (k : UInt16) (m : FlowManager), nfShard started k = some m →
      ShardRun m (shards k.toNat)) (data : Bytes) (env : NatEnv) :
    LookupSound r shards (nfCall r.chain.nat.wanDevice data env) ↔
      ArrivesAtOwner r (nfCall r.chain.nat.wanDevice data env) := by
  have hrun' := started_run hinit hrun
  rw [arrivesAtOwner_iff, ← run_inRange r.shard_lt (hrun' r.shard r.shard_lt)]
  constructor
  · rintro ⟨⟨h0, h1⟩, -⟩
    unfold externalIndex at h0 h1
    unfold FlowManager.InRange
    omega
  · intro hin
    refine ⟨?_, ?_⟩
    · obtain ⟨h0, h1⟩ := hin
      unfold externalIndex
      omega
    · intro k hk i hi hport
      have hother := run_allocated hk (hrun' k hk) hi
      rw [hport] at hother
      rw [run_inRange r.shard_lt (hrun' r.shard r.shard_lt)] at hin
      exact r.setup.slices.owns_unique hother hin hk r.shard_lt

/-- The only queue of Single mode, with the setup of `nf_init`. -/
def Receiver.single : Receiver where
  setup := ⟨nfInitConfig, 1, nfInit_start_pos, nfInit_ports_le, by decide, by decide⟩
  chain := .oneQueue .single (fun _ _ => 0)
  queue := 0
  nbLcores := 1
  queues := 1
  nat_eq := rfl
  shards_eq := rfl
  lcores_le _ := by decide
  lcore_lt := by decide
  queue_nonneg := LoopCfg.zero_nonneg
  queue_lt := by decide

/-- A packet of zeros but for its destination port. -/
def packetTo (port : UInt16) : Bytes := set16 (fun _ => 0) DST_PORT port

/-- The second of two queues in Shared mode, with two ports for each. -/
def Receiver.secondQueue : Receiver where
  setup := ⟨{ nfInitConfig with maxFlows := 4 }, 2, by decide, by decide, by decide, by decide⟩
  chain := { ChainCfg.oneQueue .shared (fun _ _ => 0) with
    nat := { nfInitConfig with maxFlows := 4 } }
  queue := 1
  nbLcores := 1
  queues := 2
  nat_eq := rfl
  shards_eq := rfl
  lcores_le h := by cases h
  lcore_lt := by decide
  queue_nonneg := by decide
  queue_lt := by decide

/-- Both shards have given their first port to a flow. -/
def usedShards (k : ℕ) : FlowManager :=
  (flowManagerAllocateFlow (Receiver.secondQueue.setup.shard (fun _ => Memory.zero) true k)
    (hostCall 1 5000).flowId 0 0).1

/-- A packet for the flow of the second shard, on the second queue. -/
theorem wan_lookup_sound_first :
    (usedShards 1).Allocated 0 ∧ portOf (usedShards 1) 0 = 1026 ∧
      LookupSound .secondQueue usedShards
        (nfCall 2 (packetTo 1026) ⟨0, 0, 0, fun m => m, fun m => m⟩) := by
  refine ⟨⟨by decide +kernel, by decide +kernel⟩, by decide +kernel, ?_⟩
  exact (wan_lookup_sound_iff .secondQueue (fun _ => Memory.zero) true _
    (Receiver.secondQueue.setup.nfInit_eq _ true) usedShards (fun k m hm => by
      rw [nfShard, List.getElem?_map, Option.map_eq_some_iff] at hm
      obtain ⟨j, hj, rfl⟩ := hm
      obtain ⟨-, rfl⟩ := List.getElem?_eq_some_iff.mp hj
      rw [List.getElem_range]
      exact .allocateFlow _ _ _ .start) (packetTo 1026)
      ⟨0, 0, 0, fun m => m, fun m => m⟩).mpr ⟨by decide, by decide⟩

/-- A packet for port 80 is looked up at a negative index. -/
theorem wan_lookup_below :
    ¬LookupSound .single (Receiver.single.setup.shard (fun _ => Memory.zero) false)
      (nfCall 2 (packetTo 80) ⟨0, 0, 0, fun m => m, fun m => m⟩) := by
  intro h
  have hindex := h.index.1
  have hvalue : externalIndex (Receiver.single.setup.shard (fun _ => Memory.zero) false 0)
      (nfCall 2 (packetTo 80) ⟨0, 0, 0, fun m => m, fun m => m⟩).portDst = -944 := by
    decide +kernel
  change 0 ≤ externalIndex (Receiver.single.setup.shard (fun _ => Memory.zero) false 0) _ at hindex
  rw [hvalue] at hindex
  exact absurd hindex (by decide)

end QueueDpdk.Chain
