import QueueDpdk.LibVig.Coherence

/-!
# The flow manager (`nf-chain/src/state.c`, `nf-chain/src/nat_flowmanager.c`)

* `FlowId`, `keyEquals`, `keyHash`, `allocState` — `flow.h` and `state.c`; the map compares the first
  two bytes of a key, its source port.
* `flowManagerGetInternal`, `flowManagerAllocateFlow`, `flowManagerGetExternal`,
  `flowManagerExpire` — the four operations, each inside the lock of the manager.
* `FlowManager.Linked`, `FlowManager.Coherent` — the invariants of the table, and a theorem for each
  operation.
* `portOf` — the external port of an index.
-/

set_option autoImplicit false

namespace QueueDpdk.NatFlow

open LibVig

/-! ## State -/

structure FlowId where
  srcPort : UInt16
  dstPort : UInt16
  srcIp : UInt32
  dstIp : UInt32
  internalDevice : UInt16
  protocol : UInt8
deriving DecidableEq, Repr

def keyEquals (k1 k2 : FlowId) : Bool :=
  let key1 := k1.srcPort
  let key2 := k2.srcPort
  key1 == key2

def keyHash (k : FlowId) : Nat := k.srcPort.toNat

theorem keys_lawful : LawfulKeys keyEquals keyHash where
  refl a := by simp [keyEquals]
  symm a b h := by
    simp only [keyEquals, beq_iff_eq] at h ⊢
    exact h.symm
  hash a b h := by
    simp only [keyEquals, beq_iff_eq] at h
    simp only [keyHash, h]

def vectorInitElement (elem : FlowId) : FlowId :=
  { elem with srcIp := 0, dstIp := 0, srcPort := 0, dstPort := 0, protocol := 0 }

structure State where
  fm : Map Int
  fv : Slots FlowId
  heap : DoubleChain
  startPort : UInt16
  natIp : UInt32
  natDevice : UInt16
  maxFlows : UInt16

/-- What the allocators of libVig find in the memory they are given. -/
structure Memory where
  map : Map Int
  vector : Slots FlowId
  chain : DoubleChain

/-- Zeroed memory. -/
def Memory.zero : Memory where
  map := ⟨fun _ => false, fun _ => 0, fun _ => 0, fun _ => 0, fun _ => 0, 0, 0⟩
  vector := fun _ => ⟨0, 0, 0, 0, 0, 0⟩
  chain := ⟨fun _ => ⟨0, 0⟩, fun _ => 0⟩

/-- `alloc_state`, when no allocation fails. -/
def allocState (memory : Memory) (maxFlows startingPort : UInt16) (natIp : UInt32)
    (natDevice : UInt16) : State :=
  { fm := mapAllocate memory.map maxFlows.toNat
    fv := vectorAllocate maxFlows.toNat vectorInitElement memory.vector
    heap := dchainAllocate memory.chain maxFlows.toNat
    startPort := startingPort
    natIp := natIp
    natDevice := natDevice
    maxFlows := maxFlows }

/-! ## Operations -/

/-- `struct FlowManager`, without its lock. -/
structure FlowManager where
  state : State
  expirationTime : UInt32
  shared : Bool

/-- Both sizes of `flowid_copy` reach past the last field; what differs is the padding. -/
def flowidCopy (_manager : FlowManager) (src : FlowId) : FlowId := src

def flowManagerAllocate (memory : Memory) (startingPort : UInt16) (natIp : UInt32)
    (natDevice : UInt16) (expirationTime : UInt32) (maxFlows : UInt64) (shared : Bool) :
    FlowManager :=
  { state := allocState memory maxFlows.toUInt16 startingPort natIp natDevice
    expirationTime := expirationTime
    shared := shared }

/-- `alloc_state` gets the number of flows of `flow_manager_allocate` as it is. -/
theorem maxFlows_cast {maxFlows : UInt64} (h : maxFlows.toNat ≤ 65535) :
    maxFlows.toUInt16.toNat = maxFlows.toNat := by
  rw [UInt64.toNat_toUInt16]
  exact Nat.mod_eq_of_lt (by omega)

/-- `start_port + index`, converted to `uint16_t`. -/
def portOf (manager : FlowManager) (index : Int) : UInt16 :=
  UInt16.ofInt (manager.state.startPort.toNat + index)

def FlowManager.setTable (manager : FlowManager) (fm : Map Int) (fv : Slots FlowId)
    (heap : DoubleChain) : FlowManager :=
  { manager with state := { manager.state with fm := fm, fv := fv, heap := heap } }

/-- `dchain_rejuvenate_index`, whose result the callers ignore. -/
def FlowManager.rejuvenate (manager : FlowManager) (index : Int) (time : VigorTime) : FlowManager :=
  manager.setTable manager.state.fm manager.state.fv
    ((dchainRejuvenateIndex manager.state.heap index time).getD manager.state.heap)

/-- The index is the one used last. -/
def FlowManager.Youngest (manager : FlowManager) (index : Int) : Prop :=
  (manager.state.heap.cells ALLOC_LIST_HEAD).prev = index + INDEX_SHIFT

/-- `flow_manager_allocate_flow`, with the port it writes when it succeeds. -/
def flowManagerAllocateFlow (manager : FlowManager) (id : FlowId) (_internalDevice : UInt16)
    (time : VigorTime) : FlowManager × Option UInt16 :=
  match dchainAllocateNewIndex manager.state.heap time with
  | none => (manager, none)
  | some (heap, index) =>
    let fv := Function.update manager.state.fv index (flowidCopy manager id)
    let fm := mapPut fv keyHash manager.state.fm index index
    (manager.setTable fm fv heap, some (portOf manager index))

/-- `flow_manager_expire`.  The product is taken in 32 bits, the difference in 64. -/
def flowManagerExpire (manager : FlowManager) (time : VigorTime) : FlowManager :=
  let lastTime : VigorTime := time - (manager.expirationTime * 1000).toUInt64
  let (heap, fm, _) := expireItemsSingleMap keyEquals keyHash manager.state.heap manager.state.fv
    manager.state.fm lastTime
  manager.setTable fm manager.state.fv heap

/-- `flow_manager_get_internal`, with the port it writes when it succeeds. -/
def flowManagerGetInternal (manager : FlowManager) (id : FlowId) (time : VigorTime) :
    FlowManager × Option UInt16 :=
  match mapGet manager.state.fv keyEquals keyHash manager.state.fm id with
  | none => (manager, none)
  | some index => (manager.rejuvenate index time, some (portOf manager index))

/-- `flow_manager_get_external`, with the flow it writes when it succeeds. -/
def flowManagerGetExternal (manager : FlowManager) (externalPort : UInt16) (time : VigorTime) :
    FlowManager × Option FlowId :=
  let index : Int := externalPort.toNat - manager.state.startPort.toNat
  if dchainIsIndexAllocated manager.state.heap index = false then (manager, none)
  else
    let outFlow := flowidCopy manager (manager.state.fv index)
    (manager.rejuvenate index time, some outFlow)

/-- The index `flow_manager_get_external` computes. -/
def externalIndex (manager : FlowManager) (externalPort : UInt16) : Int :=
  externalPort.toNat - manager.state.startPort.toNat

/-- `flow_manager_get_external` looks at the chain and the vector at that index only. -/
theorem getExternal_index (manager : FlowManager) (externalPort : UInt16)
    (time : VigorTime) :
    flowManagerGetExternal manager externalPort time =
      if dchainIsIndexAllocated manager.state.heap (externalIndex manager externalPort) = false
      then (manager, none)
      else (manager.rejuvenate (externalIndex manager externalPort) time,
        some (manager.state.fv (externalIndex manager externalPort))) := rfl

/-! ## What no operation changes -/

/-- The constants of a shard. -/
def FlowManager.params (manager : FlowManager) : UInt16 × UInt16 × UInt32 × Bool :=
  (manager.state.startPort, manager.state.maxFlows, manager.expirationTime, manager.shared)

@[simp] theorem rejuvenate_params (manager : FlowManager) (index : Int) (time : VigorTime) :
    (manager.rejuvenate index time).params = manager.params := rfl

theorem getInternal_params (manager : FlowManager) (id : FlowId) (time : VigorTime) :
    (flowManagerGetInternal manager id time).1.params = manager.params := by
  unfold flowManagerGetInternal
  split <;> rfl

theorem allocateFlow_params (manager : FlowManager) (id : FlowId) (device : UInt16)
    (time : VigorTime) : (flowManagerAllocateFlow manager id device time).1.params =
      manager.params := by
  unfold flowManagerAllocateFlow
  split <;> rfl

theorem getExternal_params (manager : FlowManager) (port : UInt16) (time : VigorTime) :
    (flowManagerGetExternal manager port time).1.params = manager.params := by
  simp only [flowManagerGetExternal]
  split <;> rfl

theorem expire_params (manager : FlowManager) (time : VigorTime) :
    (flowManagerExpire manager time).params = manager.params := rfl

/-! ## Ports -/

theorem portOf_toNat {manager : FlowManager} {i : Int} (h0 : 0 ≤ i)
    (h1 : manager.state.startPort.toNat + i < 65536) :
    ((portOf manager i).toNat : Int) = manager.state.startPort.toNat + i := by
  unfold portOf UInt16.ofInt
  have hmod : ((manager.state.startPort.toNat : Int) + i) % 2 ^ 16 =
      manager.state.startPort.toNat + i := Int.emod_eq_of_lt (by omega) (by omega)
  rw [hmod, UInt16.toNat_ofNat']
  omega

/-- Different indices of a shard have different ports. -/
theorem portOf_inj {manager : FlowManager} {i i' : Int} (h0 : 0 ≤ i) (h0' : 0 ≤ i')
    (h1 : manager.state.startPort.toNat + i < 65536)
    (h1' : manager.state.startPort.toNat + i' < 65536) (he : portOf manager i = portOf manager i') :
    i = i' := by
  have h := portOf_toNat h0 h1
  have h' := portOf_toNat h0' h1'
  rw [he] at h
  omega

/-! ## The invariants -/

def FlowManager.Linked (manager : FlowManager) (alloc free : List Int) : Prop :=
  LibVig.Linked keyHash manager.state.fm manager.state.fv manager.state.heap
    manager.state.maxFlows.toNat alloc free

def FlowManager.Coherent (manager : FlowManager) (alloc free : List Int) : Prop :=
  LibVig.Coherent keyEquals keyHash manager.state.fm manager.state.fv manager.state.heap
    manager.state.maxFlows.toNat alloc free

section Operations

variable {manager : FlowManager} {alloc free : List Int}

theorem allocate_linked (memory : Memory) (startingPort : UInt16) (natIp : UInt32)
    (natDevice : UInt16) (expirationTime : UInt32) {maxFlows : UInt64} (shared : Bool)
    (hm : 1 ≤ maxFlows.toUInt16.toNat) :
    (flowManagerAllocate memory startingPort natIp natDevice expirationTime maxFlows shared).Linked []
      ((List.range maxFlows.toUInt16.toNat).map Int.ofNat) :=
  linked_init keyHash memory.map _ memory.chain hm

theorem allocate_coherent (memory : Memory) (startingPort : UInt16) (natIp : UInt32)
    (natDevice : UInt16) (expirationTime : UInt32) {maxFlows : UInt64} (shared : Bool)
    (hm : 1 ≤ maxFlows.toUInt16.toNat) :
    (flowManagerAllocate memory startingPort natIp natDevice expirationTime maxFlows shared).Coherent
      [] ((List.range maxFlows.toUInt16.toNat).map Int.ofNat) :=
  ⟨allocate_linked memory startingPort natIp natDevice expirationTime shared hm, fun i hi => by cases hi⟩

theorem rejuvenate_linked (h : manager.Linked alloc free) {i : Int} (hi : i ∈ alloc)
    (time : VigorTime) : ∃ alloc', alloc'.Perm alloc ∧
      (manager.rejuvenate i time).Linked alloc' free := by
  obtain ⟨heap, alloc', hrun, hperm, hlinked⟩ := h.rejuvenate hi time
  refine ⟨alloc', hperm, ?_⟩
  unfold FlowManager.rejuvenate
  rw [hrun]
  exact hlinked

/-- Nothing changes exactly if the index was the last one used, at that time. -/
theorem rejuvenate_eq_iff (h : manager.Linked alloc free) {i : Int} (hi : i ∈ alloc)
    (time : VigorTime) : manager.rejuvenate i time = manager ↔
      manager.state.heap.timestamps i = time ∧ manager.Youngest i := by
  constructor
  · intro heq
    obtain ⟨l₁, l₂, rfl⟩ := List.append_of_mem hi
    obtain ⟨cells', hrun, hinv⟩ := rejuvenate_spec h.ring
    have hheap : (manager.rejuvenate i time).state.heap =
        ⟨cells', Function.update manager.state.heap.timestamps i time⟩ := by
      unfold FlowManager.rejuvenate dchainRejuvenateIndex
      rw [hrun]
      rfl
    rw [heq] at hheap
    refine ⟨?_, ?_⟩
    · rw [hheap]
      exact Function.update_self ..
    · unfold FlowManager.Youngest
      rw [hheap]
      exact (youngest_iff hinv (by simp)).mpr ⟨_, rfl⟩
  · rintro ⟨htime, hyoungest⟩
    obtain ⟨l, rfl⟩ := (youngest_iff h.ring hi).mp hyoungest
    unfold FlowManager.rejuvenate dchainRejuvenateIndex
    rw [rejuvenate_youngest h.ring, ← htime, Function.update_eq_self]
    rfl

theorem rejuvenate_coherent (h : manager.Coherent alloc free) {i : Int} (hi : i ∈ alloc)
    (time : VigorTime) : ∃ alloc', alloc'.Perm alloc ∧
      (manager.rejuvenate i time).Coherent alloc' free := by
  obtain ⟨chain', alloc', hrun, hperm, hc⟩ := Coherent.rejuvenate h hi time
  refine ⟨alloc', hperm, ?_⟩
  unfold FlowManager.rejuvenate
  rw [hrun]
  exact hc

/-- A lookup fails exactly when no allocated index has an equal key, and then changes nothing. -/
theorem getInternal_spec (h : manager.Linked alloc free) (id : FlowId) (time : VigorTime) :
    (∃ i ∈ alloc, keyEquals (manager.state.fv i) id = true ∧
      flowManagerGetInternal manager id time =
        (manager.rejuvenate i time, some (portOf manager i))) ∨
    ((∀ i ∈ alloc, keyEquals (manager.state.fv i) id = false) ∧
      flowManagerGetInternal manager id time = (manager, none)) := by
  unfold flowManagerGetInternal
  rcases h.lookup keys_lawful id with ⟨i, hi, hget, he⟩ | ⟨hget, hno⟩
  · exact Or.inl ⟨i, hi, he, by rw [hget]⟩
  · exact Or.inr ⟨hno, by rw [hget]⟩

/-- The first free index gets the flow. -/
theorem allocateFlow_linked {i : Int} (h : manager.Linked alloc (i :: free)) (id : FlowId)
    (device : UInt16) (time : VigorTime) :
    ∃ manager', flowManagerAllocateFlow manager id device time =
        (manager', some (portOf manager i)) ∧
      manager'.state.fv = Function.update manager.state.fv i id ∧
      manager'.params = manager.params ∧ manager'.Linked (alloc ++ [i]) free := by
  obtain ⟨heap, hrun, hlinked⟩ := h.insert id time
  refine ⟨manager.setTable (mapPut (Function.update manager.state.fv i id) keyHash
    manager.state.fm i i) (Function.update manager.state.fv i id) heap, ?_, rfl, rfl, hlinked⟩
  unfold flowManagerAllocateFlow
  rw [hrun]
  rfl

theorem allocateFlow_coherent {i : Int} (h : manager.Coherent alloc (i :: free)) {id : FlowId}
    (hnew : ∀ i ∈ alloc, keyEquals (manager.state.fv i) id = false) (device : UInt16)
    (time : VigorTime) :
    ∃ manager', flowManagerAllocateFlow manager id device time =
        (manager', some (portOf manager i)) ∧
      manager'.state.fv = Function.update manager.state.fv i id ∧
      manager'.params = manager.params ∧ manager'.Coherent (alloc ++ [i]) free := by
  obtain ⟨heap, hrun, hcoherent⟩ := LibVig.Coherent.insert h keys_lawful hnew time
  refine ⟨manager.setTable (mapPut (Function.update manager.state.fv i id) keyHash
    manager.state.fm i i) (Function.update manager.state.fv i id) heap, ?_, rfl, rfl, hcoherent⟩
  unfold flowManagerAllocateFlow
  rw [hrun]
  rfl

theorem allocateFlow_full (h : manager.Linked alloc []) (id : FlowId) (device : UInt16)
    (time : VigorTime) : flowManagerAllocateFlow manager id device time = (manager, none) := by
  unfold flowManagerAllocateFlow
  rw [h.insert_full time]

/-- A port of the shard is known exactly when its index is allocated. -/
theorem getExternal_spec (h : manager.Linked alloc free) {port : UInt16} (time : VigorTime) {i : Int}
    (hi : i = port.toNat - manager.state.startPort.toNat) (h0 : 0 ≤ i)
    (h1 : i < manager.state.maxFlows.toNat) :
    (i ∈ alloc ∧ flowManagerGetExternal manager port time =
      (manager.rejuvenate i time, some (manager.state.fv i))) ∨
    (i ∉ alloc ∧ flowManagerGetExternal manager port time = (manager, none)) := by
  simp only [flowManagerGetExternal, ← hi]
  by_cases ha : i ∈ alloc
  · rw [(h.allocated_iff h0 h1).mpr ha, if_neg (by decide)]
    exact Or.inl ⟨ha, rfl⟩
  · have hfree := fun ht => ha ((h.allocated_iff h0 h1).mp ht)
    rw [Bool.eq_false_iff.mpr hfree, if_pos rfl]
    exact Or.inr ⟨ha, rfl⟩

/-- Expiry frees the oldest flows. -/
theorem expire_coherent (h : manager.Coherent alloc free) (time : VigorTime) :
    ∃ expired rest, alloc = expired ++ rest ∧
      (flowManagerExpire manager time).state.fv = manager.state.fv ∧
      (flowManagerExpire manager time).Coherent rest (expired.reverse ++ free) := by
  obtain ⟨heap, fm, expired, rest, hsplit, hrun, -, -, -, hcoherent⟩ :=
    expireItemsSingleMap_spec h keys_lawful (time - (manager.expirationTime * 1000).toUInt64)
  refine ⟨expired, rest, hsplit, rfl, ?_⟩
  simp only [flowManagerExpire, hrun]
  exact hcoherent

end Operations

end QueueDpdk.NatFlow
