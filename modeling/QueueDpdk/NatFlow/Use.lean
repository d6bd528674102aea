import QueueDpdk.NatFlow.Runs
import QueueDpdk.NatFlow.Shards

/-!
# Shards in use

`nf_process` looks flows up and allocates them; nothing ever expires one.

* `Used`, `ReachableShard` — the states lcores bring a shard to, with the calls of any number of
  packets in any order.
* `ReachableShard.linked` — its tables agree, though flows may be in it twice.
* `Used.full` — a full shard stays full.
-/

set_option autoImplicit false

namespace QueueDpdk.NatFlow

open LibVig

/-! ## The states -/

/-- The states of a shard that lcores use as `nf_process` does: any of its calls, in any order. -/
inductive Used (manager : FlowManager) : FlowManager → Prop where
  | refl : Used manager manager
  | getInternal {m : FlowManager} (id : FlowId) (time : VigorTime) (h : Used manager m) :
      Used manager (flowManagerGetInternal m id time).1
  | allocateFlow {m : FlowManager} (id : FlowId) (device : UInt16) (time : VigorTime)
      (h : Used manager m) : Used manager (flowManagerAllocateFlow m id device time).1
  | getExternal {m : FlowManager} (port : UInt16) (time : VigorTime) (h : Used manager m)
      (hin : m.InRange port.toNat) : Used manager (flowManagerGetExternal m port time).1

/-- The states a shard can reach after it was allocated. -/
def ReachableShard (m : FlowManager) : Prop :=
  ∃ memory startingPort natIp natDevice expirationTime shared, ∃ maxFlows : UInt64,
    (1 ≤ maxFlows.toNat ∧ maxFlows.toNat ≤ 65535) ∧
    startingPort.toNat + maxFlows.toNat ≤ 65536 ∧
    Used (flowManagerAllocate memory startingPort natIp natDevice expirationTime maxFlows shared) m

/-! ## Invariants -/

section Use

variable {manager m : FlowManager} {alloc free : List Int}

/-- Looking up a port of the shard. -/
theorem getExternal_linked (h : m.Linked alloc free) {port : UInt16} (hin : m.InRange port.toNat)
    (time : VigorTime) : ∃ alloc', alloc'.Perm alloc ∧
      (flowManagerGetExternal m port time).1.Linked alloc' free := by
  obtain ⟨hlow, hhigh⟩ := hin
  rcases getExternal_spec h time rfl (show (0 : Int) ≤ port.toNat - _ by omega) (by omega) with
    ⟨hi, hrun⟩ | ⟨-, hrun⟩
  · rw [hrun]
    exact rejuvenate_linked h hi time
  · rw [hrun]
    exact ⟨alloc, .refl alloc, h⟩

theorem getInternal_linked (h : m.Linked alloc free) (id : FlowId) (time : VigorTime) :
    ∃ alloc', alloc'.Perm alloc ∧ (flowManagerGetInternal m id time).1.Linked alloc' free := by
  rcases getInternal_spec h id time with ⟨i, hi, -, hrun⟩ | ⟨-, hrun⟩
  · rw [hrun]
    exact rejuvenate_linked h hi time
  · rw [hrun]
    exact ⟨alloc, .refl alloc, h⟩

/-- The tables keep agreeing, and an index is never given back. -/
theorem Used.linked (h0 : manager.Linked alloc free) (h : Used manager m) :
    ∃ alloc' free', m.Linked alloc' free' ∧ (free = [] → free' = []) := by
  induction h with
  | refl => exact ⟨alloc, free, h0, id⟩
  | getInternal id time _ ih =>
    obtain ⟨alloc', free', hl, hfree⟩ := ih
    obtain ⟨alloc'', -, hl'⟩ := getInternal_linked hl id time
    exact ⟨alloc'', free', hl', hfree⟩
  | allocateFlow id device time _ ih =>
    obtain ⟨alloc', free', hl, hfree⟩ := ih
    cases free' with
    | nil =>
      rw [allocateFlow_full hl]
      exact ⟨alloc', [], hl, hfree⟩
    | cons i free' =>
      obtain ⟨manager', hrun, -, -, hl'⟩ := allocateFlow_linked hl id device time
      rw [hrun]
      exact ⟨alloc' ++ [i], free', hl', fun hnil => by cases hfree hnil⟩
  | getExternal port time _ hin ih =>
    obtain ⟨alloc', free', hl, hfree⟩ := ih
    obtain ⟨alloc'', -, hl'⟩ := getExternal_linked hl hin time
    exact ⟨alloc'', free', hl', hfree⟩

theorem ReachableShard.linked (h : ReachableShard m) : ∃ alloc free, m.Linked alloc free := by
  obtain ⟨memory, startingPort, natIp, natDevice, expirationTime, shared, maxFlows, hmax, -,
    hused⟩ := h
  have hpos : 1 ≤ maxFlows.toUInt16.toNat := by
    rw [maxFlows_cast hmax.2]
    exact hmax.1
  obtain ⟨alloc, free, hl, -⟩ := hused.linked
    (allocate_linked memory startingPort natIp natDevice expirationTime shared hpos)
  exact ⟨alloc, free, hl⟩

theorem Used.params (h : Used manager m) : m.params = manager.params := by
  induction h with
  | refl => rfl
  | getInternal id time _ ih => exact (getInternal_params _ id time).trans ih
  | allocateFlow id device time _ ih => exact (allocateFlow_params _ id device time).trans ih
  | getExternal port time _ _ ih => exact (getExternal_params _ port time).trans ih

/-- The ports of a shard are numbers of 16 bits. -/
theorem ReachableShard.ports_le (h : ReachableShard m) :
    m.state.startPort.toNat + m.state.maxFlows.toNat ≤ 65536 := by
  obtain ⟨memory, startingPort, natIp, natDevice, expirationTime, shared, maxFlows, hmax, hports,
    hused⟩ := h
  rw [startPort_params hused.params, maxFlows_params hused.params]
  show startingPort.toNat + maxFlows.toUInt16.toNat ≤ 65536
  rw [maxFlows_cast hmax.2]
  exact hports

/-- **A full shard stays full**, whatever lcores do. -/
theorem Used.full (h0 : manager.Linked alloc []) (h : Used manager m) :
    ∃ alloc', m.Linked alloc' [] := by
  obtain ⟨alloc', free', hl, hfree⟩ := h.linked h0
  rw [hfree rfl] at hl
  exact ⟨alloc', hl⟩

end Use

/-! ## The smallest shards -/

/-- A fresh shard of one flow, whose only port is `port`. -/
def freshShard (port : UInt16) : FlowManager :=
  flowManagerAllocate Memory.zero port 0 0 0 1 false

theorem freshShard_linked (port : UInt16) : (freshShard port).Linked [] [0] :=
  allocate_linked Memory.zero port 0 0 0 false (by decide)

theorem freshShard_reachable {port : UInt16} {m : FlowManager} (h : Used (freshShard port) m) :
    ReachableShard m := by
  have hport := port.toNat_lt
  exact ⟨Memory.zero, port, 0, 0, 0, false, 1, by decide, by
    rw [show (1 : UInt64).toNat = 1 from rfl]
    omega, h⟩

theorem freshShard_portOf (port : UInt16) : portOf (freshShard port) 0 = port := by
  have hlt : (freshShard port).state.startPort.toNat + (0 : Int) < 65536 := by
    have := port.toNat_lt
    show (port.toNat : Int) + 0 < 65536
    omega
  have hport := portOf_toNat (Int.le_refl 0) hlt
  change ((portOf (freshShard port) 0).toNat : Int) = port.toNat + 0 at hport
  apply UInt16.toNat_inj.mp
  omega

/-- Its first flow gets that port. -/
theorem freshShard_allocate (port : UInt16) (id : FlowId) (device : UInt16) (time : VigorTime) :
    ∃ m, flowManagerAllocateFlow (freshShard port) id device time = (m, some port) ∧
      m.state.fv 0 = id ∧ m.params = (freshShard port).params ∧ m.Linked [0] [] := by
  obtain ⟨m, hrun, hfv, hparams, hl⟩ := allocateFlow_linked (freshShard_linked port) id device time
  refine ⟨m, by rw [hrun, freshShard_portOf], ?_, hparams, hl⟩
  rw [hfv, Function.update_self]

end QueueDpdk.NatFlow
