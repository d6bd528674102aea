import QueueDpdk.NatFlow.Packed

/-!
# Packed and padded flow tables

A manager allocated as shared keeps packed entries, the others padded ones.

* `flowManager`, `flowTable` — the calls of a run, answered by a manager of bytes and by a table.
* `step_refines`, `run_refines` — the manager answers as the table does.  A flow is allocated after a
  lookup of it failed; a port that is not one of the shard's has to be rejected by the chain.
* `step_keeps_others` — a call changes no flow but the one it allocates.
* `layouts_agree` — packed and padded managers give the same answers.
* `layouts_differ_below` — two below the first port the chain rejects nothing, and each manager
  answers with bytes of its own choice from before the vector.
-/

set_option autoImplicit false

namespace QueueDpdk.NatFlow.Packed

open LibVig Lib
open LibVig.Raw (vectorBorrow)

/-! ## Runs -/

/-- A call, with the bytes of the caller's `struct FlowId`. -/
inductive Call where
  | getInternal (id : Bytes) (time : VigorTime)
  | allocateFlow (id : Bytes) (internalDevice : UInt16) (time : VigorTime)
  | getExternal (externalPort : UInt16) (time : VigorTime) (outFlow : Bytes)
  | expire (time : VigorTime)

/-- What the caller gets: a port, if the call succeeds, or the fields of `out_flow` after it. -/
inductive Result where
  | port (externalPort : Option UInt16)
  | flow (found : Bool) (outFlow : FlowId)
  | done
deriving DecidableEq

def step (manager : FlowManager) : Call → FlowManager × Result
  | .getInternal id time =>
    let (manager, externalPort) := flowManagerGetInternal manager id time
    (manager, .port externalPort)
  | .allocateFlow id internalDevice time =>
    let (manager, externalPort) := flowManagerAllocateFlow manager id internalDevice time
    (manager, .port externalPort)
  | .getExternal externalPort time outFlow =>
    let (manager, found, outFlow) := flowManagerGetExternal manager externalPort time outFlow
    (manager, .flow found (readFlowId outFlow))
  | .expire time => (flowManagerExpire manager time, .done)

def flowManager : Machine FlowManager Call Result := ⟨step⟩

def tableStep (table : FlowTable) : Call → FlowTable × Result
  | .getInternal id time =>
    let (table, externalPort) := table.getInternal (readFlowId id) time
    (table, .port externalPort)
  | .allocateFlow id _ time =>
    let (table, externalPort) := table.allocateFlow (readFlowId id) time
    (table, .port externalPort)
  | .getExternal externalPort time outFlow =>
    let (table, flow) := table.getExternal externalPort time
    (table, .flow flow.isSome (flow.getD (readFlowId outFlow)))
  | .expire time => (table.expire time, .done)

def flowTable : Machine FlowTable Call Result := ⟨tableStep⟩

/-- A flow is allocated after a lookup of it has failed. -/
def AfterMiss (manager : FlowManager) : Call → Prop
  | .allocateFlow id _ time => (flowManagerGetInternal manager id time).2 = none
  | _ => True

/-- A port is one of the shard's, or the chain rejects its index. -/
def PortKnown (manager : FlowManager) : Call → Prop
  | .getExternal port _ _ =>
    (0 ≤ externalIndex manager port ∧ externalIndex manager port < manager.state.maxFlows.toNat) ∨
      dchainIsIndexAllocated manager.state.heap (externalIndex manager port) = false
  | _ => True

instance (manager : FlowManager) : (call : Call) → Decidable (AfterMiss manager call)
  | .allocateFlow _ _ _ => inferInstanceAs (Decidable (_ = _))
  | .getInternal _ _ => inferInstanceAs (Decidable True)
  | .getExternal _ _ _ => inferInstanceAs (Decidable True)
  | .expire _ => inferInstanceAs (Decidable True)

instance (manager : FlowManager) : (call : Call) → Decidable (PortKnown manager call)
  | .getExternal _ _ _ => inferInstanceAs (Decidable (_ ∨ _))
  | .getInternal _ _ => inferInstanceAs (Decidable True)
  | .allocateFlow _ _ _ => inferInstanceAs (Decidable True)
  | .expire _ => inferInstanceAs (Decidable True)

/-! ## A manager of bytes is a table of flows -/

def Refines (packed : FlowManager) (table : FlowTable) : Prop :=
  ∃ manager, Stands packed manager ∧ Maintains manager table

/-- **Step lemma.** -/
theorem step_refines {packed : FlowManager} {table : FlowTable} (h : Refines packed table)
    (call : Call) (hmiss : AfterMiss packed call) (hport : PortKnown packed call) :
    (step packed call).2 = (tableStep table call).2 ∧
      Refines (step packed call).1 (tableStep table call).1 := by
  obtain ⟨manager, hs, hm⟩ := h
  cases call with
  | getInternal id time =>
    obtain ⟨hs', hanswer⟩ := hs.getInternal id time
    obtain ⟨hm', htable⟩ := hm.getInternal (readFlowId id) time
    exact ⟨congrArg Result.port (hanswer.trans htable), _, hs', hm'⟩
  | allocateFlow id device time =>
    have hnew := (hs.getInternal id time).2.symm.trans hmiss
    obtain ⟨hs', hanswer⟩ := hs.allocateFlow id device time
    obtain ⟨hm', htable⟩ := hm.allocateFlow time hnew device
    exact ⟨congrArg Result.port (hanswer.trans htable), _, hs', hm'⟩
  | getExternal port time outFlow =>
    have hindex : externalIndex packed port = NatFlow.externalIndex manager port := by
      rw [externalIndex, hs.startPort, NatFlow.externalIndex]
    simp only [PortKnown, hindex, hs.heap, hs.maxFlows] at hport
    obtain ⟨hs', hfound, hflow⟩ := hs.getExternal port time outFlow
    obtain ⟨hm', htable⟩ := hm.getExternal time hport
    rw [htable] at hfound hflow
    exact ⟨congrArg₂ Result.flow hfound hflow, _, hs', hm'⟩
  | expire time => exact ⟨rfl, _, hs.expire time, hm.expire time⟩

/-- How `flow_manager_allocate` is called: there is room for a flow. -/
structure Setup where
  startingPort : UInt16
  natIp : UInt32
  natDevice : UInt16
  expirationTime : UInt32
  maxFlows : UInt64
  flows_pos : 1 ≤ maxFlows.toUInt16.toNat

namespace Setup

variable (p : Setup)

def start (memory : Memory) (shared : Bool) : FlowManager :=
  flowManagerAllocate memory p.startingPort p.natIp p.natDevice p.expirationTime p.maxFlows shared

def table : FlowTable :=
  ⟨[], (List.range p.maxFlows.toUInt16.toNat).map Int.ofNat, p.startingPort, p.expirationTime⟩

theorem start_refines (memory : Memory) (shared : Bool) :
    Refines (p.start memory shared) p.table := by
  obtain ⟨memory', hs⟩ := stands_allocate memory p.startingPort p.natIp p.natDevice
    p.expirationTime p.maxFlows shared
  exact ⟨_, hs, maintains_allocate memory' _ _ _ _ shared p.flows_pos⟩

/-- **Run lemma**: the answers do not depend on the entries, nor on what the memory held. -/
theorem run_refines {memory : Memory} {shared : Bool} {calls : List Call}
    (hmiss : flowManager.Along AfterMiss (p.start memory shared) calls)
    (hport : flowManager.Along PortKnown (p.start memory shared) calls) :
    flowManager.events (p.start memory shared) calls = flowTable.events p.table calls := by
  refine (flowManager.run_sim (P := fun m call => AfterMiss m call ∧ PortKnown m call)
    (R := Refines) (N := flowTable) ?_ (p.start_refines memory shared) calls ?_).1
  · intro m table call h hproper
    exact step_refines h call hproper.1 hproper.2
  · intro before call after hsplit
    exact ⟨hmiss before call after hsplit, hport before call after hsplit⟩

end Setup

/-! ## Entries -/

/-- The index of the entry that a call writes to. -/
def written (manager : FlowManager) : Call → Option Int
  | .allocateFlow _ _ time => (dchainAllocateNewIndex manager.state.heap time).map Prod.snd
  | _ => none

/-- A call changes no field of an entry that it does not write to. -/
def KeepsOthers (manager : FlowManager) (call : Call) : Prop :=
  ∀ i, written manager call ≠ some i →
    (step manager call).1.state.fv.slots readFlowId i = manager.state.fv.slots readFlowId i

/-- The entries have the size that copies have. -/
def Sized (manager : FlowManager) : Prop :=
  manager.state.fv.elemSize = flowidSize manager.shared

theorem step_sized {manager : FlowManager} (h : Sized manager) (call : Call) :
    Sized (step manager call).1 := by
  cases call with
  | getInternal id time =>
    simp only [step, flowManagerGetInternal]
    split <;> exact h
  | allocateFlow id device time =>
    simp only [step, flowManagerAllocateFlow]
    split <;> exact h
  | getExternal port time outFlow =>
    simp only [step, flowManagerGetExternal]
    split <;> exact h
  | expire time => exact h

theorem step_keeps_others {manager : FlowManager} (h : Sized manager) (call : Call) :
    KeepsOthers manager call := by
  intro i hi
  cases call with
  | getInternal id time =>
    simp only [step, flowManagerGetInternal]
    split <;> rfl
  | allocateFlow id device time =>
    simp only [written] at hi
    simp only [step, flowManagerAllocateFlow]
    cases halloc : dchainAllocateNewIndex manager.state.heap time with
    | none => rfl
    | some r =>
      obtain ⟨heap, index⟩ := r
      rw [halloc] at hi
      have hne : i ≠ index := fun he => hi (congrArg some he.symm)
      have hwrite := congrFun (write_slots h index id) i
      rw [Function.update_of_ne hne] at hwrite
      exact hwrite
  | getExternal port time outFlow =>
    simp only [step, flowManagerGetExternal]
    split <;> rfl
  | expire time => rfl

theorem start_sized (p : Setup) (memory : Memory) (shared : Bool) :
    Sized (p.start memory shared) :=
  LibVig.Raw.initElems_shape _ _ _ _

/-- **Main result.**  Packed and padded tables give the same answers in every run in which flows are
allocated after a failed lookup and each port is one of the shard's or rejected by the chain.  No
call changes a field of an entry it does not write to, and neither does the initialisation. -/
theorem layouts_agree (p : Setup) (memory memory' : Memory) (calls : List Call)
    (hmiss : flowManager.Along AfterMiss (p.start memory true) calls)
    (hmiss' : flowManager.Along AfterMiss (p.start memory' false) calls)
    (hport : flowManager.Along PortKnown (p.start memory true) calls)
    (hport' : flowManager.Along PortKnown (p.start memory' false) calls) :
    flowManager.events (p.start memory true) calls =
        flowManager.events (p.start memory' false) calls ∧
      flowManager.Along KeepsOthers (p.start memory true) calls ∧
      ∀ fv : LibVig.Raw.Vector, fv.elemSize = FLOWID_PACKED_SIZE → ∀ i j, j ≠ i →
        (fv.modify (vectorBorrow fv i) vectorInitElement).slots readFlowId j =
          fv.slots readFlowId j := by
  refine ⟨?_, ?_, ?_⟩
  · rw [p.run_refines hmiss hport, p.run_refines hmiss' hport']
  · intro before call after _
    have hsized : Sized (flowManager.final (p.start memory true) before) :=
      flowManager.final_inv (I := Sized) (fun m call h => step_sized h call) before
        (start_sized p memory true)
    exact step_keeps_others hsized call
  · intro fv hfv i j hj
    rw [init_slots hfv.ge, Function.update_of_ne hj]

/-! ## Two flows -/

/-- Two flows at the ports 1024 and 1025. -/
def twoFlows : Setup where
  startingPort := 1024
  natIp := 0
  natDevice := 0
  expirationTime := 1
  maxFlows := 2
  flows_pos := by decide

/-- Zeroed memory but for the byte at an address; the vector lies from address 4096 on. -/
def memoryWith (a : Int) (b : UInt8) : Memory where
  map := ⟨fun _ => false, fun _ => 0, fun _ => 0, fun _ => 0, fun _ => 0, 0, 0⟩
  vector := fun x => if x = a then b else 0
  data := 4096
  chain := ⟨fun _ => ⟨0, 0⟩, fun _ => 0⟩

/-- A flow is missed, allocated, found from both sides and expired. -/
def oneFlow : List Call :=
  let id : Bytes := fun k => if k = 0 then 5 else 9
  [.getInternal id 7, .allocateFlow id 1 7, .getInternal id 8, .getExternal 1024 9 (fun _ => 0),
    .expire 2000, .getExternal 1024 2000 (fun _ => 0)]

/-- All answers agree, whatever lies around the vectors. -/
theorem layouts_agree_one_flow :
    flowManager.events (twoFlows.start (memoryWith 4110 1) true) oneFlow =
        flowManager.events (twoFlows.start (memoryWith 4111 2) false) oneFlow ∧
      flowManager.Along KeepsOthers (twoFlows.start (memoryWith 4110 1) true) oneFlow := by
  have h := layouts_agree twoFlows (memoryWith 4110 1) (memoryWith 4111 2) oneFlow
    (by simp only [oneFlow, Machine.along_cons, Machine.along_nil, and_true]; decide +kernel)
    (by simp only [oneFlow, Machine.along_cons, Machine.along_nil, and_true]; decide +kernel)
    (by simp only [oneFlow, Machine.along_cons, Machine.along_nil, and_true]; decide +kernel)
    (by simp only [oneFlow, Machine.along_cons, Machine.along_nil, and_true]; decide +kernel)
  exact ⟨h.1, h.2.1⟩

/-- Port 1022 has index -2, whose cell is the head of the ring: in an empty table the chain takes it
for allocated, and the flow is read 30 bytes before the vector, or 32. -/
theorem layouts_differ_below :
    ¬∀ (p : Setup) (memory : Memory) (calls : List Call),
      flowManager.Along AfterMiss (p.start memory true) calls →
      flowManager.Along AfterMiss (p.start memory false) calls →
      flowManager.events (p.start memory true) calls =
        flowManager.events (p.start memory false) calls := by
  intro h
  have hsame := h twoFlows (memoryWith 4066 1) [.getExternal 1022 7 (fun _ => 0)]
    (by simp only [Machine.along_cons, Machine.along_nil, and_true]; decide +kernel)
    (by simp only [Machine.along_cons, Machine.along_nil, and_true]; decide +kernel)
  exact absurd hsame (by decide +kernel)

end QueueDpdk.NatFlow.Packed
