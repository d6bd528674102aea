import QueueDpdk.Lib.Machine
import QueueDpdk.LibVig.Pointers
import QueueDpdk.NatFlow.FlowTable

/-!
# Flow managers byte by byte (`flow.h`, `state.c`, `nat_flowmanager.c`)

A flow is a structure of 16 bytes, the last of which is padding.  A shared manager keeps 15 of them
for each flow, so that its entries follow each other without padding; a manager of its own lcore
keeps all.

* `readFlowId`, `vectorInitElement`, `flowidCopy` — the structure and all that is done to its bytes.
* `FlowManager` and its operations — as in the source, on a vector of bytes and pointers into it.
* `write_slots`, `init_slots` — a write to an entry changes no field of another one.
* `Stands` — the manager of flows it is; `Stands.getInternal`, `Stands.allocateFlow`,
  `Stands.getExternal`, `Stands.expire` — the operations do the same on both.
-/

set_option autoImplicit false

namespace QueueDpdk.NatFlow.Packed

open LibVig Lib
open LibVig.Raw (vectorBorrow Reads SameKeys)

/-! ## `struct FlowId` -/

/-- `sizeof(struct FlowId)`. -/
def sizeofFlowId : Nat := 16

/-- `offsetof(struct FlowId, protocol) + sizeof(uint8_t)`. -/
def FLOWID_PACKED_SIZE : Nat := 14 + 1

/-- The fields at their offsets. -/
def readFlowId (b : Bytes) : FlowId where
  srcPort := get16 b 0
  dstPort := get16 b 2
  srcIp := get32 b 4
  dstIp := get32 b 8
  internalDevice := get16 b 12
  protocol := b 14

/-- `*((uint16_t *)k)`. -/
def readKey (b : Bytes) : UInt16 := get16 b 0

def keyEquals (key1 key2 : UInt16) : Bool := key1 == key2

def keyHash (key : UInt16) : Nat := key.toNat

def vectorInitElement (elem : Bytes) : Bytes :=
  let elem := set32 elem 4 0
  let elem := set32 elem 8 0
  let elem := set16 elem 0 0
  let elem := set16 elem 2 0
  Function.update elem 14 0

/-- No field lies in the padding. -/
theorem readFlowId_reads : Reads FLOWID_PACKED_SIZE readFlowId := by
  intro b b' h
  have hbytes : ∀ off n, off + n ≤ 15 → getLE b off n = getLE b' off n := by
    intro off n hn
    exact getLE_congr n off (fun k _ hk => h k (show k < 15 by omega))
  have hlast : b 14 = b' 14 := h 14 (show 14 < 15 by omega)
  simp only [readFlowId, get16, get32, hbytes _ _ (show 0 + 2 ≤ 15 by omega),
    hbytes _ _ (show 2 + 2 ≤ 15 by omega), hbytes _ _ (show 4 + 4 ≤ 15 by omega),
    hbytes _ _ (show 8 + 4 ≤ 15 by omega), hbytes _ _ (show 12 + 2 ≤ 15 by omega), hlast]

/-- Nor is the padding initialised. -/
theorem vectorInitElement_within (b : Bytes) :
    Within FLOWID_PACKED_SIZE b (vectorInitElement b) :=
  (((set32_within (n := 15) 0 (by omega)).trans (set32_within 0 (by omega))).trans
    ((set16_within 0 (by omega)).trans (set16_within 0 (by omega)))).trans
    (update_within 0 (by omega))

theorem vectorInitElement_apply (b : Bytes) (k : Nat) :
    vectorInitElement b k = if k < 12 ∨ k = 14 then 0 else b k := by
  simp only [vectorInitElement, set32, set16, UInt32.toNat_zero, UInt16.toNat_zero, setLE_zero,
    Function.update_apply]
  split_ifs <;> first | rfl | omega

theorem readFlowId_init (b : Bytes) :
    readFlowId (vectorInitElement b) = NatFlow.vectorInitElement (readFlowId b) := by
  simp [readFlowId, NatFlow.vectorInitElement, get16, get32, getLE, vectorInitElement_apply]

/-- The map reads the source port. -/
theorem same_keys : SameKeys keyEquals keyHash readKey NatFlow.keyEquals NatFlow.keyHash readFlowId :=
  ⟨fun _ _ => rfl, fun _ => rfl⟩

/-! ## The manager -/

structure State where
  fm : Map Int
  fv : LibVig.Raw.Vector
  heap : DoubleChain
  startPort : UInt16
  natIp : UInt32
  natDevice : UInt16
  maxFlows : UInt16

/-- What the allocators of libVig find in the memory they are given, and the address of the
    vector's. -/
structure Memory where
  map : Map Int
  vector : ByteMemory
  data : Int
  chain : DoubleChain

/-- `alloc_state`, when no allocation fails. -/
def allocState (memory : Memory) (maxFlows startingPort : UInt16) (natIp : UInt32)
    (natDevice : UInt16) (flowidSize : Nat) : State :=
  { fm := mapAllocate memory.map maxFlows.toNat
    fv := LibVig.Raw.vectorAllocate flowidSize maxFlows.toNat vectorInitElement memory.vector
      memory.data
    heap := dchainAllocate memory.chain maxFlows.toNat
    startPort := startingPort
    natIp := natIp
    natDevice := natDevice
    maxFlows := maxFlows }

/-- `struct FlowManager`, without its lock. -/
structure FlowManager where
  state : State
  expirationTime : UInt32
  shared : Bool

def flowidSize (shared : Bool) : Nat := if shared then FLOWID_PACKED_SIZE else sizeofFlowId

def flowidCopy (manager : FlowManager) (dst src : Bytes) : Bytes :=
  if manager.shared then memcpy dst src FLOWID_PACKED_SIZE else memcpy dst src sizeofFlowId

def flowManagerAllocate (memory : Memory) (startingPort : UInt16) (natIp : UInt32)
    (natDevice : UInt16) (expirationTime : UInt32) (maxFlows : UInt64) (shared : Bool) :
    FlowManager :=
  { state := allocState memory maxFlows.toUInt16 startingPort natIp natDevice (flowidSize shared)
    expirationTime := expirationTime
    shared := shared }

/-- The key at an address. -/
def deref (fv : LibVig.Raw.Vector) (keyp : Int) : UInt16 := readKey (load fv.memory keyp)

/-- `start_port + index`, converted to `uint16_t`. -/
def portOf (manager : FlowManager) (index : Int) : UInt16 :=
  UInt16.ofInt (manager.state.startPort.toNat + index)

def FlowManager.setTable (manager : FlowManager) (fm : Map Int) (fv : LibVig.Raw.Vector)
    (heap : DoubleChain) : FlowManager :=
  { manager with state := { manager.state with fm := fm, fv := fv, heap := heap } }

/-- `dchain_rejuvenate_index`, whose result the callers ignore. -/
def FlowManager.rejuvenate (manager : FlowManager) (index : Int) (time : VigorTime) : FlowManager :=
  manager.setTable manager.state.fm manager.state.fv
    ((dchainRejuvenateIndex manager.state.heap index time).getD manager.state.heap)

/-- `flow_manager_allocate_flow`; `id` are the bytes the pointer leads to. -/
def flowManagerAllocateFlow (manager : FlowManager) (id : Bytes) (_internalDevice : UInt16)
    (time : VigorTime) : FlowManager × Option UInt16 :=
  match dchainAllocateNewIndex manager.state.heap time with
  | none => (manager, none)
  | some (heap, index) =>
    let key := vectorBorrow manager.state.fv index
    let fv := manager.state.fv.modify key (fun dst => flowidCopy manager dst id)
    let fm := mapPut (deref fv) keyHash manager.state.fm key index
    (manager.setTable fm fv heap, some (portOf manager index))

def flowManagerExpire (manager : FlowManager) (time : VigorTime) : FlowManager :=
  let lastTime : VigorTime := time - (manager.expirationTime * 1000).toUInt64
  let (heap, fm, _) := LibVig.Raw.expireItemsSingleMap keyEquals keyHash readKey manager.state.heap
    manager.state.fv manager.state.fm lastTime
  manager.setTable fm manager.state.fv heap

def flowManagerGetInternal (manager : FlowManager) (id : Bytes) (time : VigorTime) :
    FlowManager × Option UInt16 :=
  match mapGet (deref manager.state.fv) keyEquals keyHash manager.state.fm (readKey id) with
  | none => (manager, none)
  | some index => (manager.rejuvenate index time, some (portOf manager index))

def externalIndex (manager : FlowManager) (externalPort : UInt16) : Int :=
  externalPort.toNat - manager.state.startPort.toNat

/-- `flow_manager_get_external`, with what it makes of the bytes of `out_flow`. -/
def flowManagerGetExternal (manager : FlowManager) (externalPort : UInt16) (time : VigorTime)
    (outFlow : Bytes) : FlowManager × Bool × Bytes :=
  let index := externalIndex manager externalPort
  if dchainIsIndexAllocated manager.state.heap index = false then (manager, false, outFlow)
  else
    let key := vectorBorrow manager.state.fv index
    let outFlow := flowidCopy manager outFlow (load manager.state.fv.memory key)
    (manager.rejuvenate index time, true, outFlow)

/-! ## It stands for a manager of flows -/

/-- Entries of the manager's own size, and everything else as in `manager`. -/
structure Stands (packed : FlowManager) (manager : NatFlow.FlowManager) : Prop where
  entries : packed.state.fv.elemSize = flowidSize packed.shared
  fm : packed.state.fm.Rep (vectorBorrow packed.state.fv) manager.state.fm
  fv : packed.state.fv.slots readFlowId = manager.state.fv
  heap : packed.state.heap = manager.state.heap
  startPort : packed.state.startPort = manager.state.startPort
  maxFlows : packed.state.maxFlows = manager.state.maxFlows
  expirationTime : packed.expirationTime = manager.expirationTime

/-- Every entry has room for the fields. -/
theorem packed_le_flowidSize (shared : Bool) : FLOWID_PACKED_SIZE ≤ flowidSize shared := by
  cases shared <;> decide

/-- A copy has the size of an entry. -/
theorem flowidCopy_within (packed : FlowManager) (dst src : Bytes) :
    Within (flowidSize packed.shared) dst (flowidCopy packed dst src) := by
  unfold flowidCopy flowidSize
  split <;> exact memcpy_within _ _ _

/-- Both sizes of a copy take all fields along. -/
theorem readFlowId_copy (packed : FlowManager) (dst src : Bytes) :
    readFlowId (flowidCopy packed dst src) = readFlowId src := by
  apply readFlowId_reads
  intro k hk
  unfold flowidCopy
  split
  · exact memcpy_of_lt _ _ hk
  · exact memcpy_of_lt _ _ (Nat.lt_of_lt_of_le hk (by decide))

/-- The entry that is written, and the others. -/
theorem write_slots {packed : FlowManager}
    (h : packed.state.fv.elemSize = flowidSize packed.shared) (i : Int) (id : Bytes) :
    (packed.state.fv.modify (vectorBorrow packed.state.fv i)
        (fun dst => flowidCopy packed dst id)).slots readFlowId =
      Function.update (packed.state.fv.slots readFlowId) i (readFlowId id) := by
  have hsize : FLOWID_PACKED_SIZE ≤ packed.state.fv.elemSize := by
    rw [h]
    exact packed_le_flowidSize _
  have hwithin : ∀ b, Within packed.state.fv.elemSize b (flowidCopy packed b id) := by
    intro b
    rw [h]
    exact flowidCopy_within packed b id
  rw [LibVig.Raw.modify_slots readFlowId_reads hsize i hwithin, readFlowId_copy]

/-- An element is initialised alone, whatever the size of the entries. -/
theorem init_slots {fv : LibVig.Raw.Vector} (h : FLOWID_PACKED_SIZE ≤ fv.elemSize) (i : Int) :
    (fv.modify (vectorBorrow fv i) vectorInitElement).slots readFlowId =
      Function.update (fv.slots readFlowId) i
        (NatFlow.vectorInitElement (fv.slots readFlowId i)) := by
  rw [LibVig.Raw.modify_slots readFlowId_reads h i
    (fun b => (vectorInitElement_within b).mono h), readFlowId_init]
  rfl

section Operations

variable {packed : FlowManager} {manager : NatFlow.FlowManager}

theorem Stands.portOf (h : Stands packed manager) (i : Int) :
    Packed.portOf packed i = NatFlow.portOf manager i := by
  rw [Packed.portOf, h.startPort, NatFlow.portOf]

theorem Stands.rejuvenate (h : Stands packed manager) (i : Int) (time : VigorTime) :
    Stands (packed.rejuvenate i time) (manager.rejuvenate i time) := by
  refine ⟨h.entries, h.fm, h.fv, ?_, h.startPort, h.maxFlows, h.expirationTime⟩
  show (dchainRejuvenateIndex packed.state.heap i time).getD packed.state.heap = _
  rw [h.heap]
  rfl

/-- What initialisation leaves of the memory, entry by entry. -/
theorem stands_allocate (memory : Memory) (startingPort : UInt16) (natIp : UInt32)
    (natDevice : UInt16) (expirationTime : UInt32) (maxFlows : UInt64) (shared : Bool) :
    ∃ memory' : NatFlow.Memory,
      Stands (flowManagerAllocate memory startingPort natIp natDevice expirationTime maxFlows shared)
        (NatFlow.flowManagerAllocate memory' startingPort natIp natDevice expirationTime maxFlows
          shared) := by
  have hsize := packed_le_flowidSize shared
  refine ⟨⟨{ memory.map with keyps := fun _ => 0 },
    (⟨memory.vector, memory.data, flowidSize shared, maxFlows.toUInt16.toNat⟩ :
      LibVig.Raw.Vector).slots readFlowId, memory.chain⟩, ?_, ?_, ?_, rfl, rfl, rfl, rfl⟩
  · exact LibVig.Raw.initElems_shape _ _ _ _
  · exact mapAllocate_rep _ _ _ _
  · exact LibVig.Raw.vectorAllocate_slots readFlowId_reads readFlowId_init hsize
      (fun b => (vectorInitElement_within b).mono hsize) _ _ _

theorem Stands.getInternal (h : Stands packed manager) (id : Bytes) (time : VigorTime) :
    Stands (flowManagerGetInternal packed id time).1
        (NatFlow.flowManagerGetInternal manager (readFlowId id) time).1 ∧
      (flowManagerGetInternal packed id time).2 =
        (NatFlow.flowManagerGetInternal manager (readFlowId id) time).2 := by
  have hget : mapGet (deref packed.state.fv) keyEquals keyHash packed.state.fm (readKey id) =
      mapGet manager.state.fv NatFlow.keyEquals NatFlow.keyHash manager.state.fm
        (readFlowId id) := by
    rw [← h.fv]
    exact mapGet_rep h.fm (fun q => same_keys.eq _ _) (same_keys.hash _)
  unfold flowManagerGetInternal NatFlow.flowManagerGetInternal
  rw [hget]
  cases mapGet manager.state.fv NatFlow.keyEquals NatFlow.keyHash manager.state.fm (readFlowId id) with
  | none => exact ⟨h, rfl⟩
  | some index => exact ⟨h.rejuvenate index time, congrArg some (h.portOf index)⟩

theorem Stands.write (h : Stands packed manager) (i : Int) (id : Bytes) :
    (packed.state.fv.modify (vectorBorrow packed.state.fv i)
        (fun dst => flowidCopy packed dst id)).slots readFlowId =
      Function.update manager.state.fv i (readFlowId id) := by
  rw [write_slots h.entries, h.fv]

theorem Stands.allocateFlow (h : Stands packed manager) (id : Bytes) (device : UInt16)
    (time : VigorTime) :
    Stands (flowManagerAllocateFlow packed id device time).1
        (NatFlow.flowManagerAllocateFlow manager (readFlowId id) device time).1 ∧
      (flowManagerAllocateFlow packed id device time).2 =
        (NatFlow.flowManagerAllocateFlow manager (readFlowId id) device time).2 := by
  unfold flowManagerAllocateFlow NatFlow.flowManagerAllocateFlow
  rw [← h.heap]
  cases dchainAllocateNewIndex packed.state.heap time with
  | none => exact ⟨h, rfl⟩
  | some r =>
    obtain ⟨heap, index⟩ := r
    have hwrite := h.write index id
    refine ⟨⟨h.entries, ?_, hwrite, rfl, h.startPort, h.maxFlows, h.expirationTime⟩,
      congrArg some (h.portOf index)⟩
    refine mapPut_rep h.fm ?_ index
    rw [NatFlow.flowidCopy, ← hwrite]
    exact same_keys.hash _

/-- The same answer; `out_flow` gets the fields, or stays. -/
theorem Stands.getExternal (h : Stands packed manager) (port : UInt16) (time : VigorTime)
    (outFlow : Bytes) :
    Stands (flowManagerGetExternal packed port time outFlow).1
        (NatFlow.flowManagerGetExternal manager port time).1 ∧
      (flowManagerGetExternal packed port time outFlow).2.1 =
        (NatFlow.flowManagerGetExternal manager port time).2.isSome ∧
      readFlowId (flowManagerGetExternal packed port time outFlow).2.2 =
        (NatFlow.flowManagerGetExternal manager port time).2.getD (readFlowId outFlow) := by
  have hindex : externalIndex packed port = NatFlow.externalIndex manager port := by
    rw [externalIndex, h.startPort, NatFlow.externalIndex]
  rw [getExternal_index]
  simp only [flowManagerGetExternal, hindex, h.heap]
  split
  · exact ⟨h, rfl, rfl⟩
  · refine ⟨h.rejuvenate _ time, rfl, ?_⟩
    rw [readFlowId_copy]
    exact congrFun h.fv _

theorem Stands.expire (h : Stands packed manager) (time : VigorTime) :
    Stands (flowManagerExpire packed time) (NatFlow.flowManagerExpire manager time) := by
  obtain ⟨hheap, hfm, -⟩ := LibVig.Raw.expireItemsSingleMap_rep same_keys
    (time - (packed.expirationTime * 1000).toUInt64) packed.state.heap h.fm
  rw [h.fv, h.heap, h.expirationTime] at hheap hfm
  simp only [flowManagerExpire, NatFlow.flowManagerExpire, h.heap, h.expirationTime]
  exact ⟨h.entries, hfm, h.fv, hheap, h.startPort, h.maxFlows, h.expirationTime⟩

end Operations

end QueueDpdk.NatFlow.Packed
