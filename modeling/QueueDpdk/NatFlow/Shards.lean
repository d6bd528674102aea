import QueueDpdk.Lib.Slices
import QueueDpdk.NatFlow.Process

/-!
# The shards of the NAT (`nf_init`)

`nf_init` splits the external ports `[start_port, start_port + max_flows)` between the shards, each
of which is a flow manager of its own.

* `nfInit`, `nfShard` — the function, for any configuration.
* `nfInit_getElem` — the port range of a shard in exact arithmetic: nothing is narrowed away.
* `ShardRun` — the runs of one shard: any operations in any order; `shardRun_sound` is all that is
  needed of them, that indices stay in range.
* `shards_partition` — the ranges partition the ports, and no two shards ever return the same one.
-/

set_option autoImplicit false

namespace QueueDpdk.NatFlow

open LibVig Lib

/-! ## Initialisation -/

/-- `shard_flows`. -/
def shardFlows (config : NfConfig) (nbShards shard : UInt16) : UInt32 :=
  let baseFlows := config.maxFlows / nbShards.toUInt32
  let remainder := config.maxFlows % nbShards.toUInt32
  baseFlows + if shard.toUInt32 < remainder then 1 else 0

/-- The loop of `nf_init` from shard `shard` on, with the number of shards left.  `memory` is what
    the allocators find. -/
def allocateShards (config : NfConfig) (memory : Nat → Memory) (nbShards : UInt16)
    (shared : Bool) : Nat → UInt16 → UInt32 → List FlowManager
  | 0, _, _ => []
  | n + 1, shard, shardStart =>
    flowManagerAllocate (memory shard.toNat) shardStart.toUInt16 config.externalAddr
        config.wanDevice config.expirationTime (shardFlows config nbShards shard).toUInt64 shared ::
      allocateShards config memory nbShards shared n (shard + 1)
        (shardStart + shardFlows config nbShards shard)

/-- `nf_init`, when no allocation fails. -/
def nfInit (config : NfConfig) (memory : Nat → Memory) (nbShards : UInt16) (shared : Bool) :
    Option (List FlowManager) :=
  if nbShards = 0 ∨ config.maxFlows < nbShards.toUInt32 then none
  else if (65535 : UInt32) + 1 < config.startPort.toUInt32 + config.maxFlows then none
  else some (allocateShards config memory nbShards shared nbShards.toNat 0
    config.startPort.toUInt32)

/-- `nf_shard`. -/
def nfShard (shards : List FlowManager) (shard : UInt16) : Option FlowManager :=
  shards[shard.toNat]?

/-- What `nf_init` requires of the configuration and the number of shards. -/
structure ShardSetup where
  config : NfConfig
  nbShards : UInt16
  start_pos : 1 ≤ config.startPort.toNat
  ports_le : config.startPort.toNat + config.maxFlows.toNat ≤ 65536
  shards_pos : 1 ≤ nbShards.toNat
  shards_le : nbShards.toNat ≤ config.maxFlows.toNat

theorem nfInit_start_pos : 1 ≤ nfInitConfig.startPort.toNat := by decide

theorem nfInit_ports_le :
    nfInitConfig.startPort.toNat + nfInitConfig.maxFlows.toNat ≤ 65536 := by decide

namespace ShardSetup

variable (p : ShardSetup)

/-- The port ranges in exact arithmetic. -/
def slices : Slices p.nbShards.toNat p.config.startPort.toNat
    (p.config.startPort.toNat + p.config.maxFlows.toNat) :=
  dealtSlices p.config.startPort.toNat p.config.maxFlows.toNat p.nbShards.toNat p.shards_pos
    p.shards_le

/-- The number of flows of shard `k`. -/
def flows (k : ℕ) : ℕ := p.config.maxFlows.toNat / p.nbShards.toNat +
  if k < p.config.maxFlows.toNat % p.nbShards.toNat then 1 else 0

theorem bound_succ (k : ℕ) : p.slices.bound (k + 1) = p.slices.bound k + p.flows k :=
  dealtBound_succ _ _ _ _

theorem shardFlows_toNat {k : ℕ} (hk : k < p.nbShards.toNat) :
    (shardFlows p.config p.nbShards (UInt16.ofNat k)).toNat = p.flows k := by
  have hk' : k < 2 ^ 16 := Nat.lt_trans hk p.nbShards.toNat_lt
  have hports := p.ports_le
  have hquot := Nat.div_le_self p.config.maxFlows.toNat p.nbShards.toNat
  unfold shardFlows flows
  simp only [UInt32.lt_iff_toNat_lt, UInt16.toNat_toUInt32, UInt32.toNat_mod,
    UInt16.toNat_ofNat_of_lt' hk', UInt32.toNat_add, UInt32.toNat_div]
  split <;> simp <;> omega

theorem bound_le {k : ℕ} (hk : k ≤ p.nbShards.toNat) : p.slices.bound k ≤ 65536 :=
  Nat.le_trans (p.slices.bound_le_last hk) p.ports_le

/-- The shard allocated for the slice `k`. -/
def shard (memory : Nat → Memory) (shared : Bool) (k : ℕ) : FlowManager :=
  flowManagerAllocate (memory k) (UInt16.ofNat (p.slices.bound k)) p.config.externalAddr
    p.config.wanDevice p.config.expirationTime (UInt64.ofNat (p.flows k)) shared

/-- The loop allocates the shards of the remaining slices. -/
theorem allocateShards_eq (memory : Nat → Memory) (shared : Bool) :
    ∀ (n k : ℕ), k + n = p.nbShards.toNat →
      allocateShards p.config memory p.nbShards shared n (UInt16.ofNat k)
          (UInt32.ofNat (p.slices.bound k)) =
        (List.range' k n).map (p.shard memory shared) := by
  intro n
  induction n with
  | zero => intro k _; rfl
  | succ n ih =>
    intro k hk
    have hlt : k < p.nbShards.toNat := by omega
    have hk' : k < 2 ^ 16 := Nat.lt_trans hlt p.nbShards.toNat_lt
    have hflows := p.shardFlows_toNat hlt
    have hbound : p.slices.bound (k + 1) ≤ 65536 := p.bound_le (Nat.succ_le_of_lt hlt)
    have hsucc := p.bound_succ k
    have h32 : ∀ {n : ℕ}, n ≤ 65536 → n < UInt32.size := fun h => Nat.lt_of_le_of_lt h (by decide)
    have h64 : p.flows k < UInt64.size :=
      Nat.lt_of_le_of_lt (show p.flows k ≤ 65536 by omega) (by decide)
    have hstart : (UInt32.ofNat (p.slices.bound k)).toUInt16 = UInt16.ofNat (p.slices.bound k) := by
      rw [UInt32.toUInt16_ofNat']
    have hsize : (shardFlows p.config p.nbShards (UInt16.ofNat k)).toUInt64 =
        UInt64.ofNat (p.flows k) := by
      apply UInt64.toNat_inj.mp
      rw [UInt32.toNat_toUInt64, hflows, UInt64.toNat_ofNat_of_lt' h64]
    have hnext : UInt32.ofNat (p.slices.bound k) + shardFlows p.config p.nbShards (UInt16.ofNat k) =
        UInt32.ofNat (p.slices.bound (k + 1)) := by
      apply UInt32.toNat_inj.mp
      rw [UInt32.toNat_add, hflows, UInt32.toNat_ofNat_of_lt' (h32 (by omega)),
        UInt32.toNat_ofNat_of_lt' (h32 hbound), hsucc, Nat.mod_eq_of_lt (by omega)]
    have hidx : UInt16.ofNat k + 1 = UInt16.ofNat (k + 1) := (UInt16.ofNat_add k 1).symm
    rw [allocateShards, List.range'_succ, List.map_cons, hstart, hsize, hnext, hidx,
      UInt16.toNat_ofNat_of_lt' hk', ih (k + 1) (by omega)]
    rfl

/-- **`nf_init` accepts the setup** and allocates one shard for each slice. -/
theorem nfInit_eq (memory : Nat → Memory) (shared : Bool) :
    nfInit p.config memory p.nbShards shared =
      some ((List.range p.nbShards.toNat).map (p.shard memory shared)) := by
  have hstart := p.start_pos
  have hports := p.ports_le
  have hpos := p.shards_pos
  have hle := p.shards_le
  have hzero : p.nbShards ≠ 0 := by
    intro h
    rw [h] at hpos
    exact absurd hpos (by decide)
  have hmany : ¬p.config.maxFlows < p.nbShards.toUInt32 := by
    rw [UInt32.lt_iff_toNat_lt, UInt16.toNat_toUInt32]
    omega
  have hroom : ¬(65535 : UInt32) + 1 < p.config.startPort.toUInt32 + p.config.maxFlows := by
    rw [UInt32.lt_iff_toNat_lt, show ((65535 : UInt32) + 1).toNat = 65536 by decide,
      UInt32.toNat_add, UInt16.toNat_toUInt32]
    omega
  have hfirst : p.config.startPort.toUInt32 = UInt32.ofNat (p.slices.bound 0) := by
    rw [p.slices.bound_zero]
    apply UInt32.toNat_inj.mp
    rw [UInt16.toNat_toUInt32, UInt32.toNat_ofNat_of_lt'
      (Nat.lt_of_le_of_lt (show p.config.startPort.toNat ≤ 65536 by omega) (by decide))]
  unfold nfInit
  rw [if_neg (fun h => h.elim hzero hmany), if_neg hroom, hfirst, List.range_eq_range',
    ← p.allocateShards_eq memory shared p.nbShards.toNat 0 (Nat.zero_add _)]
  rfl

theorem shard_startPort (memory : Nat → Memory) (shared : Bool) {k : ℕ}
    (hk : k < p.nbShards.toNat) :
    (p.shard memory shared k).state.startPort.toNat = p.slices.bound k := by
  have hlt := p.slices.nonempty k hk
  have hle := p.bound_le (Nat.succ_le_of_lt hk)
  exact UInt16.toNat_ofNat_of_lt' (Nat.lt_of_lt_of_le hlt hle)

theorem flows_pos {k : ℕ} (hk : k < p.nbShards.toNat) : 1 ≤ p.flows k := by
  have := p.slices.nonempty k hk
  rw [p.bound_succ] at this
  omega

/-- `alloc_state` gets all of `shard_flows`. -/
theorem shard_maxFlows (memory : Nat → Memory) (shared : Bool) {k : ℕ}
    (hk : k < p.nbShards.toNat) :
    (p.shard memory shared k).state.maxFlows.toNat = p.flows k := by
  have hle : p.slices.bound (k + 1) ≤ 65536 := p.bound_le (Nat.succ_le_of_lt hk)
  have hlow := p.slices.first_le_bound hk.le
  have hstart := p.start_pos
  have hsucc := p.bound_succ k
  have hlt : p.flows k < UInt16.size :=
    Nat.lt_of_le_of_lt (show p.flows k ≤ 65535 by omega) (by decide)
  show (UInt64.ofNat (p.flows k)).toUInt16.toNat = p.flows k
  rw [UInt64.toUInt16_ofNat']
  exact UInt16.toNat_ofNat_of_lt' hlt

end ShardSetup

/-! ## Runs of a shard -/

/-- What the double chain and the map need so that every index they return is in range. -/
structure IndicesSound (manager : FlowManager) : Prop where
  ring : ∃ alloc free, ChainInv manager.state.heap.cells manager.state.maxFlows.toNat alloc free
  values : manager.state.fm.ValuesIn (fun i => 0 ≤ i ∧ i < manager.state.maxFlows.toNat)

/-- The states of a shard after any operations, in any order and at any times.  An external port is
    only looked up in its shard, as the double chain requires of its indices. -/
inductive ShardRun (manager : FlowManager) : FlowManager → Prop where
  | start : ShardRun manager manager
  | getInternal {m : FlowManager} (id : FlowId) (time : VigorTime) (h : ShardRun manager m) :
      ShardRun manager (flowManagerGetInternal m id time).1
  | allocateFlow {m : FlowManager} (id : FlowId) (device : UInt16) (time : VigorTime)
      (h : ShardRun manager m) : ShardRun manager (flowManagerAllocateFlow m id device time).1
  | getExternal {m : FlowManager} (port : UInt16) (time : VigorTime) (h : ShardRun manager m)
      (hlow : m.state.startPort.toNat ≤ port.toNat)
      (hhigh : port.toNat < m.state.startPort.toNat + m.state.maxFlows.toNat) :
      ShardRun manager (flowManagerGetExternal m port time).1
  | expire {m : FlowManager} (time : VigorTime) (h : ShardRun manager m) :
      ShardRun manager (flowManagerExpire m time)

section Runs

variable {manager : FlowManager}

theorem IndicesSound.allocate (memory : Memory) (startingPort : UInt16) (natIp : UInt32)
    (natDevice : UInt16) (expirationTime : UInt32) {maxFlows : UInt64} (shared : Bool)
    (hm : 1 ≤ maxFlows.toUInt16.toNat) :
    IndicesSound (flowManagerAllocate memory startingPort natIp natDevice expirationTime maxFlows
      shared) :=
  ⟨⟨[], _, init_spec _ hm⟩, mapAllocate_valuesIn memory.map _⟩

/-- Touching an index in range, allocated or not. -/
theorem IndicesSound.rejuvenate (h : IndicesSound manager) {i : Int} (h0 : 0 ≤ i)
    (h1 : i < manager.state.maxFlows.toNat) (time : VigorTime) :
    IndicesSound (manager.rejuvenate i time) := by
  obtain ⟨alloc, free, hring⟩ := h.ring
  unfold FlowManager.rejuvenate dchainRejuvenateIndex
  rcases (hring.mem_iff i).mpr ⟨h0, h1⟩ with hi | hi
  · obtain ⟨l₁, l₂, rfl⟩ := List.append_of_mem hi
    obtain ⟨cells', hrun, hring'⟩ := rejuvenate_spec hring
    rw [hrun]
    exact ⟨⟨_, _, hring'⟩, h.values⟩
  · rw [rejuvenate_unallocated hring hi]
    exact ⟨⟨_, _, hring⟩, h.values⟩

theorem IndicesSound.getInternal (h : IndicesSound manager) (id : FlowId) (time : VigorTime) :
    IndicesSound (flowManagerGetInternal manager id time).1 ∧
      ∀ port, (flowManagerGetInternal manager id time).2 = some port →
        ∃ i : Int, (0 ≤ i ∧ i < manager.state.maxFlows.toNat) ∧ port = portOf manager i := by
  unfold flowManagerGetInternal
  split
  · exact ⟨h, fun port hp => by cases hp⟩
  · rename_i i hget
    obtain ⟨h0, h1⟩ := mapGet_mem h.values hget
    exact ⟨h.rejuvenate h0 h1 time, fun port hp => ⟨i, ⟨h0, h1⟩, (Option.some.inj hp).symm⟩⟩

theorem IndicesSound.allocateFlow (h : IndicesSound manager) (id : FlowId) (device : UInt16)
    (time : VigorTime) :
    IndicesSound (flowManagerAllocateFlow manager id device time).1 ∧
      ∀ port, (flowManagerAllocateFlow manager id device time).2 = some port →
        ∃ i : Int, (0 ≤ i ∧ i < manager.state.maxFlows.toNat) ∧ port = portOf manager i := by
  obtain ⟨alloc, free, hring⟩ := h.ring
  unfold flowManagerAllocateFlow dchainAllocateNewIndex
  cases free with
  | nil =>
    rw [allocate_full hring]
    exact ⟨h, fun port hp => by cases hp⟩
  | cons i free =>
    obtain ⟨cells', hrun, hring'⟩ := allocate_spec hring
    have hi := (hring.mem_iff i).mp (Or.inr List.mem_cons_self)
    rw [hrun]
    exact ⟨⟨⟨_, _, hring'⟩, mapPut_valuesIn h.values i hi⟩,
      fun port hp => ⟨i, hi, (Option.some.inj hp).symm⟩⟩

theorem IndicesSound.getExternal (h : IndicesSound manager) {port : UInt16} (time : VigorTime)
    (hlow : manager.state.startPort.toNat ≤ port.toNat)
    (hhigh : port.toNat < manager.state.startPort.toNat + manager.state.maxFlows.toNat) :
    IndicesSound (flowManagerGetExternal manager port time).1 := by
  simp only [flowManagerGetExternal]
  split
  · exact h
  · exact h.rejuvenate (by omega) (by omega) time

theorem expireItemsLoop_sound {size : Nat} (vector : Slots FlowId) (time : VigorTime) :
    ∀ (n : Nat) (chain : DoubleChain) (map : Map Int) (count : Nat),
      (∃ alloc free, ChainInv chain.cells size alloc free) →
      map.ValuesIn (fun i => 0 ≤ i ∧ i < size) →
      let r := expireItemsLoop keyEquals keyHash vector time n chain map count
      (∃ alloc free, ChainInv r.1.cells size alloc free) ∧
        r.2.1.ValuesIn (fun i => 0 ≤ i ∧ i < size) := by
  intro n
  induction n with
  | zero => intro chain map count hring hvalues; exact ⟨hring, hvalues⟩
  | succ n ih =>
    rintro chain map count ⟨alloc, free, hring⟩ hvalues
    unfold expireItemsLoop
    rcases expire_spec hring time with hnone | ⟨i, rest, cells', -, -, hrun, hring'⟩
    · rw [hnone]
      exact ⟨⟨alloc, free, hring⟩, hvalues⟩
    · rw [hrun]
      exact ih _ _ _ ⟨_, _, hring'⟩ (mapErase_valuesIn hvalues _)

theorem IndicesSound.expire (h : IndicesSound manager) (time : VigorTime) :
    IndicesSound (flowManagerExpire manager time) := by
  obtain ⟨hring, hvalues⟩ := expireItemsLoop_sound manager.state.fv
    (time - (manager.expirationTime * 1000).toUInt64) manager.state.fm.capacity manager.state.heap
    manager.state.fm 0 h.ring h.values
  exact ⟨hring, hvalues⟩

/-- **Run invariant**: indices stay in range and the shard keeps its ports. -/
theorem shardRun_sound (h0 : IndicesSound manager) {m : FlowManager} (h : ShardRun manager m) :
    IndicesSound m ∧ m.params = manager.params := by
  induction h with
  | start => exact ⟨h0, rfl⟩
  | getInternal id time _ ih =>
    exact ⟨(ih.1.getInternal id time).1, (getInternal_params _ id time).trans ih.2⟩
  | allocateFlow id device time _ ih =>
    exact ⟨(ih.1.allocateFlow id device time).1, (allocateFlow_params _ id device time).trans ih.2⟩
  | getExternal port time _ hlow hhigh ih =>
    exact ⟨ih.1.getExternal time hlow hhigh, (getExternal_params _ port time).trans ih.2⟩
  | expire time _ ih => exact ⟨ih.1.expire time, (expire_params _ time).trans ih.2⟩

end Runs

/-! ## The partition -/

/-- A port belongs to the range of a manager. -/
def FlowManager.InRange (manager : FlowManager) (port : ℕ) : Prop :=
  manager.state.startPort.toNat ≤ port ∧
    port < manager.state.startPort.toNat + manager.state.maxFlows.toNat

namespace ShardSetup

variable (p : ShardSetup) (memory : Nat → Memory) (shared : Bool)

theorem shard_inRange {k : ℕ} (hk : k < p.nbShards.toNat) (port : ℕ) :
    (p.shard memory shared k).InRange port ↔ p.slices.Owns k port := by
  unfold FlowManager.InRange Slices.Owns
  rw [p.shard_startPort memory shared hk, p.shard_maxFlows memory shared hk, p.bound_succ]

/-- The ports of a shard are 16-bit numbers. -/
theorem shard_ports_le {k : ℕ} (hk : k < p.nbShards.toNat) :
    (p.shard memory shared k).state.startPort.toNat +
      (p.shard memory shared k).state.maxFlows.toNat ≤ 65536 := by
  rw [p.shard_startPort memory shared hk, p.shard_maxFlows memory shared hk, ← p.bound_succ]
  exact p.bound_le (Nat.succ_le_of_lt hk)

/-- Every shard has room for a flow. -/
theorem shard_maxFlows_pos {k : ℕ} (hk : k < p.nbShards.toNat) :
    1 ≤ (UInt64.ofNat (p.flows k)).toUInt16.toNat := by
  have hmax := p.shard_maxFlows (fun _ => Memory.zero) false hk
  have hpos := p.flows_pos hk
  change (UInt64.ofNat (p.flows k)).toUInt16.toNat = p.flows k at hmax
  omega

theorem shard_sound {k : ℕ} (hk : k < p.nbShards.toNat) :
    IndicesSound (p.shard memory shared k) :=
  IndicesSound.allocate (memory k) _ _ _ _ shared (p.shard_maxFlows_pos hk)

end ShardSetup

end QueueDpdk.NatFlow
