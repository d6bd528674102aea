import QueueDpdk.NatFlow.Manager
import Mathlib.Data.List.Perm.Basic

/-!
# Sequential runs of one flow manager

* `Reachable` — the states after any number of operations at non-decreasing times; a flow is only
  allocated after a lookup of it has failed, as `nf_process` does.
* `KeptByUse` — what the operations keep of a table; `KeptByUse.step` and `KeptByUse.reachable` say
  that it then holds in every session, and that missed flows are not in the table.
* `Agrees` — what the map, the vector and the chain say of each other, in terms of their own data.
* `flow_table_agrees` — they agree in every reachable state, allocation fails exactly when the table
  is full, and an operation that fails changes nothing.
-/

set_option autoImplicit false

namespace QueueDpdk.NatFlow

open LibVig

/-! ## Runs -/

inductive Op where
  | getInternal (id : FlowId)
  | allocateFlow (id : FlowId) (internalDevice : UInt16)
  | getExternal (externalPort : UInt16)
  | expire
deriving DecidableEq

/-- A manager in use: `missed` are the flows looked up in vain since the last allocation, `now` is
    the time of the last operation. -/
structure Session where
  manager : FlowManager
  missed : List FlowId
  now : VigorTime

/-- The operations the callers of the manager make. -/
def Session.Allows (s : Session) : Op → Prop
  | .allocateFlow id _ => id ∈ s.missed
  | .getExternal externalPort =>
    s.manager.state.startPort.toNat ≤ externalPort.toNat ∧
      externalPort.toNat < s.manager.state.startPort.toNat + s.manager.state.maxFlows.toNat
  | _ => True

instance (s : Session) : (op : Op) → Decidable (s.Allows op)
  | .allocateFlow id _ => inferInstanceAs (Decidable (id ∈ s.missed))
  | .getExternal _ => inferInstanceAs (Decidable (_ ∧ _))
  | .getInternal _ => inferInstanceAs (Decidable True)
  | .expire => inferInstanceAs (Decidable True)

def Session.perform (s : Session) (op : Op) (time : VigorTime) : Session :=
  match op with
  | .getInternal id =>
    let (manager, port) := flowManagerGetInternal s.manager id time
    ⟨manager, if port = none then id :: s.missed else s.missed, time⟩
  | .allocateFlow id internalDevice =>
    ⟨(flowManagerAllocateFlow s.manager id internalDevice time).1, [], time⟩
  | .getExternal externalPort =>
    ⟨(flowManagerGetExternal s.manager externalPort time).1, s.missed, time⟩
  | .expire => ⟨flowManagerExpire s.manager time, s.missed, time⟩

inductive Reachable (manager : FlowManager) : Session → Prop where
  | start : Reachable manager ⟨manager, [], 0⟩
  | step {s : Session} (op : Op) (time : VigorTime) : Reachable manager s → s.Allows op →
      s.now ≤ time → Reachable manager (s.perform op time)

/-! ## The invariant of a run -/

/-- The table is coherent and holds none of the flows missed since the last allocation. -/
structure SessionInv (manager : FlowManager) (s : Session) (alloc free : List Int) : Prop where
  coherent : s.manager.Coherent alloc free
  params : s.manager.params = manager.params
  missed : ∀ id ∈ s.missed, ∀ i ∈ alloc, keyEquals (s.manager.state.fv i) id = false

/-- What the operations keep of a table, at the time of its last use: they do to the indices in use
    what they do to those of a linked table. -/
structure KeptByUse (J : FlowManager → VigorTime → List Int → List Int → Prop) : Prop where
  linked : ∀ {m now alloc free}, J m now alloc free → m.Linked alloc free
  later : ∀ {m now time alloc free}, J m now alloc free → now ≤ time → J m time alloc free
  touch : ∀ {m now time alloc free} {i : Int}, J m now alloc free → now ≤ time → i ∈ alloc →
    ∃ alloc', alloc'.Perm alloc ∧ J (m.rejuvenate i time) time alloc' free
  insert : ∀ {m now time alloc free} {i : Int} {id : FlowId}, J m now alloc (i :: free) →
    now ≤ time → (∀ i ∈ alloc, keyEquals (m.state.fv i) id = false) → ∀ device, ∃ m',
      flowManagerAllocateFlow m id device time = (m', some (portOf m i)) ∧ m'.params = m.params ∧
      J m' time (alloc ++ [i]) free
  expire : ∀ {m now time alloc free}, J m now alloc free → now ≤ time → ∃ expired rest,
    alloc = expired ++ rest ∧ (flowManagerExpire m time).state.fv = m.state.fv ∧
      J (flowManagerExpire m time) time rest (expired.reverse ++ free)

section Steps

variable {J : FlowManager → VigorTime → List Int → List Int → Prop} {manager : FlowManager}
  {s : Session} {alloc free : List Int}

/-- Using a flow of the table. -/
theorem KeptByUse.use (hkept : KeptByUse J) (h : J s.manager s.now alloc free)
    (hmissed : ∀ id ∈ s.missed, ∀ i ∈ alloc, keyEquals (s.manager.state.fv i) id = false) {i : Int}
    (hi : i ∈ alloc) {time : VigorTime} (hle : s.now ≤ time) :
    ∃ alloc' free', J (s.manager.rejuvenate i time) time alloc' free' ∧
      (s.manager.rejuvenate i time).params = s.manager.params ∧
      ∀ id ∈ s.missed, ∀ i ∈ alloc', keyEquals (s.manager.state.fv i) id = false := by
  obtain ⟨alloc', hperm, h'⟩ := hkept.touch h hle hi
  refine ⟨alloc', free, h', rejuvenate_params _ _ _, ?_⟩
  intro id hid i' hi'
  exact hmissed id hid i' (hperm.mem_iff.mp hi')

/-- **Step lemma**: what the operations keep of a table they keep in a session, where the flows
missed since the last allocation stay out of the table. -/
theorem KeptByUse.step (hkept : KeptByUse J) (h : J s.manager s.now alloc free)
    (hmissed : ∀ id ∈ s.missed, ∀ i ∈ alloc, keyEquals (s.manager.state.fv i) id = false) (op : Op)
    {time : VigorTime} (hop : s.Allows op) (hle : s.now ≤ time) :
    ∃ alloc' free', J (s.perform op time).manager (s.perform op time).now alloc' free' ∧
      (s.perform op time).manager.params = s.manager.params ∧
      ∀ id ∈ (s.perform op time).missed, ∀ i ∈ alloc',
        keyEquals ((s.perform op time).manager.state.fv i) id = false := by
  have hlinked := hkept.linked h
  cases op with
  | getInternal id =>
    simp only [Session.perform]
    rcases getInternal_spec hlinked id time with ⟨i, hi, -, hrun⟩ | ⟨hno, hrun⟩
    · rw [hrun]
      exact hkept.use h hmissed hi hle
    · rw [hrun]
      refine ⟨alloc, free, hkept.later h hle, rfl, ?_⟩
      intro id' hid'
      rw [if_pos rfl] at hid'
      rcases List.mem_cons.mp hid' with rfl | hid'
      · exact hno
      · exact hmissed id' hid'
  | allocateFlow id device =>
    simp only [Session.perform]
    cases free with
    | nil =>
      rw [allocateFlow_full hlinked]
      exact ⟨alloc, [], hkept.later h hle, rfl, by simp⟩
    | cons i free =>
      obtain ⟨manager', hrun, hparams, h'⟩ := hkept.insert h hle (hmissed id hop) device
      rw [hrun]
      exact ⟨alloc ++ [i], free, h', hparams, by simp⟩
  | getExternal port =>
    simp only [Session.perform]
    obtain ⟨h0, h1⟩ := hop
    rcases getExternal_spec hlinked time rfl (show (0 : Int) ≤ port.toNat - _ by omega)
      (by omega) with ⟨hi, hrun⟩ | ⟨-, hrun⟩
    · rw [hrun]
      exact hkept.use h hmissed hi hle
    · rw [hrun]
      exact ⟨alloc, free, hkept.later h hle, rfl, hmissed⟩
  | expire =>
    obtain ⟨expired, rest, rfl, hfv, h'⟩ := hkept.expire h hle
    refine ⟨rest, expired.reverse ++ free, h', rfl, ?_⟩
    intro id hid i hi
    simp only [Session.perform, hfv]
    exact hmissed id hid i (List.mem_append_right expired hi)

/-- **Run lemma.** -/
theorem KeptByUse.reachable (hkept : KeptByUse J) (h0 : ∃ free, J manager 0 [] free)
    (hs : Reachable manager s) : ∃ alloc free, J s.manager s.now alloc free ∧
      s.manager.params = manager.params ∧
      ∀ id ∈ s.missed, ∀ i ∈ alloc, keyEquals (s.manager.state.fv i) id = false := by
  induction hs with
  | start =>
    obtain ⟨free, h⟩ := h0
    exact ⟨[], free, h, rfl, by simp⟩
  | step op time _ hop hle ih =>
    obtain ⟨alloc, free, h, hparams, hmissed⟩ := ih
    obtain ⟨alloc', free', h', hparams', hmissed'⟩ := hkept.step h hmissed op hop hle
    exact ⟨alloc', free', h', hparams'.trans hparams, hmissed'⟩

end Steps

theorem coherent_kept : KeptByUse (fun manager _ alloc free => manager.Coherent alloc free) where
  linked h := h.linked
  later h _ := h
  touch h _ hi := rejuvenate_coherent h hi _
  insert h _ hnew device := by
    obtain ⟨manager', hrun, -, hparams, hc⟩ := allocateFlow_coherent h hnew device _
    exact ⟨manager', hrun, hparams, hc⟩
  expire h _ := expire_coherent h _

/-- **Run invariant.** -/
theorem reachable_inv {manager : FlowManager} (h0 : ∃ free, manager.Coherent [] free) {s : Session}
    (hs : Reachable manager s) : ∃ alloc free, SessionInv manager s alloc free := by
  obtain ⟨alloc, free, hc, hparams, hmissed⟩ := coherent_kept.reachable h0 hs
  exact ⟨alloc, free, hc, hparams, hmissed⟩

/-! ## Agreement in terms of the data -/

/-- The number of indices the chain has handed out. -/
def FlowManager.live (manager : FlowManager) : Nat :=
  ((List.range manager.state.maxFlows.toNat).filter
    (fun n : Nat => dchainIsIndexAllocated manager.state.heap n)).length

/-- The number of entries of the map. -/
def FlowManager.entries (manager : FlowManager) : Nat :=
  ((List.range manager.state.maxFlows.toNat).filter (fun j => manager.state.fm.busybits j)).length

/-- Slot `j` of the map holds an entry with value `i`. -/
def FlowManager.EntryOf (manager : FlowManager) (i : Int) (j : Nat) : Prop :=
  j < manager.state.maxFlows.toNat ∧ manager.state.fm.busybits j = true ∧
    manager.state.fm.vals j = i

def FlowManager.Allocated (manager : FlowManager) (i : Int) : Prop :=
  (0 ≤ i ∧ i < manager.state.maxFlows.toNat) ∧ dchainIsIndexAllocated manager.state.heap i = true

structure Agrees (manager : FlowManager) : Prop where
  allocated_iff : ∀ i : Int, 0 ≤ i → i < manager.state.maxFlows.toNat →
    (dchainIsIndexAllocated manager.state.heap i = true ↔ ∃! j, manager.EntryOf i j)
  entry_allocated : ∀ i j, manager.EntryOf i j → manager.Allocated i
  entry_slot : ∀ i j, manager.EntryOf i j → manager.state.fm.keyps j = i
  entry_hash : ∀ i j, manager.EntryOf i j → manager.state.fm.khs j = keyHash (manager.state.fv i)
  distinct : ∀ i i', manager.Allocated i → manager.Allocated i' →
    keyEquals (manager.state.fv i) (manager.state.fv i') = true → i = i'
  size_eq : manager.state.fm.size = manager.live
  entries_eq : manager.entries = manager.live
  live_le : manager.live ≤ manager.state.maxFlows.toNat

section Agreement

variable {manager : FlowManager} {alloc free : List Int}

theorem linked_mem_iff (h : manager.Linked alloc free) (i : Int) :
    i ∈ alloc ↔ manager.Allocated i := by
  constructor
  · intro hi
    obtain ⟨h0, h1⟩ := h.bounds hi
    exact ⟨⟨h0, h1⟩, (h.allocated_iff h0 h1).mpr hi⟩
  · rintro ⟨⟨h0, h1⟩, ha⟩
    exact (h.allocated_iff h0 h1).mp ha

theorem linked_live (h : manager.Linked alloc free) : manager.live = alloc.length := by
  have hnd : alloc.Nodup := (List.nodup_append.mp h.ring.nodup).1
  have hperm : (((List.range manager.state.maxFlows.toNat).filter
      (fun n : Nat => dchainIsIndexAllocated manager.state.heap n)).map Int.ofNat).Perm alloc := by
    refine (List.perm_ext_iff_of_nodup ?_ hnd).mpr ?_
    · exact (List.nodup_range.filter _).map (fun _ _ he => Int.ofNat.inj he)
    · intro i
      rw [linked_mem_iff h, List.mem_map]
      constructor
      · rintro ⟨n, hn, rfl⟩
        obtain ⟨hr, ha⟩ := List.mem_filter.mp hn
        exact ⟨⟨Int.natCast_nonneg n, Int.ofNat_lt.mpr (List.mem_range.mp hr)⟩, ha⟩
      · rintro ⟨⟨h0, h1⟩, ha⟩
        obtain ⟨n, rfl⟩ := Int.eq_ofNat_of_zero_le h0
        exact ⟨n, List.mem_filter.mpr ⟨List.mem_range.mpr (by omega), ha⟩, rfl⟩
  have := hperm.length_eq
  rwa [List.length_map] at this

theorem linked_entries (h : manager.Linked alloc free) :
    manager.entries = manager.state.fm.size := by
  have hcap : manager.state.fm.capacity = manager.state.maxFlows.toNat := h.capacity
  have hnd : ((List.range manager.state.maxFlows.toNat).filter
    (fun j => manager.state.fm.busybits j)).Nodup := List.nodup_range.filter _
  rw [h.table.size_eq, FlowManager.entries, ← List.toFinset_card_of_nodup hnd, Lib.occupied, hcap]
  congr 1
  ext j
  simp

/-- The invariant in terms of the data. -/
theorem coherent_agrees (h : manager.Coherent alloc free) : Agrees manager := by
  have hl : manager.Linked alloc free := h.linked
  have hcap : manager.state.fm.capacity = manager.state.maxFlows.toNat := hl.capacity
  refine ⟨?_, ?_, ?_, ?_, ?_, ?_, ?_, ?_⟩
  · intro i h0 h1
    rw [hl.allocated_iff h0 h1]
    constructor
    · intro hi
      obtain ⟨j, hj, hb, hv⟩ := hl.indexed i hi
      refine ⟨j, ⟨hj, hb, hv⟩, ?_⟩
      rintro j' ⟨hj', hb', hv'⟩
      exact hl.unique j' hj' j hj hb' hb (hv'.trans hv.symm)
    · rintro ⟨j, ⟨hj, hb, hv⟩, -⟩
      exact hv ▸ (hl.entry j hj hb).1
  · rintro i j ⟨hj, hb, rfl⟩
    exact (linked_mem_iff hl _).mp (hl.entry j hj hb).1
  · rintro i j ⟨hj, hb, rfl⟩
    exact (hl.entry j hj hb).2
  · rintro i j ⟨hj, hb, rfl⟩
    rw [hl.table.hash j (hcap ▸ hj) hb, (hl.entry j hj hb).2]
  · intro i i' hi hi' he
    exact h.distinct i ((linked_mem_iff hl i).mpr hi) i' ((linked_mem_iff hl i').mpr hi') he
  · rw [linked_live hl]
    exact hl.size_eq
  · rw [linked_entries hl, linked_live hl]
    exact hl.size_eq
  · rw [linked_live hl]
    exact hl.length_le

/-- Allocation fails exactly in a full table, and then changes nothing. -/
theorem allocateFlow_fails_iff (h : manager.Linked alloc free) (id : FlowId) (device : UInt16)
    (time : VigorTime) :
    ((flowManagerAllocateFlow manager id device time).2 = none ↔
      manager.live = manager.state.maxFlows.toNat) ∧
    ((flowManagerAllocateFlow manager id device time).2 = none →
      (flowManagerAllocateFlow manager id device time).1 = manager) := by
  rw [linked_live h, h.full_iff]
  cases free with
  | nil => simp [allocateFlow_full h]
  | cons i free =>
    obtain ⟨manager', hrun, -⟩ := allocateFlow_linked h id device time
    simp [hrun]

/-- A lookup fails exactly when no live flow has an equal key, and then changes nothing. -/
theorem getInternal_fails_iff (h : manager.Linked alloc free) (id : FlowId) (time : VigorTime) :
    ((flowManagerGetInternal manager id time).2 = none ↔
      ∀ i, manager.Allocated i → keyEquals (manager.state.fv i) id = false) ∧
    ((flowManagerGetInternal manager id time).2 = none →
      (flowManagerGetInternal manager id time).1 = manager) := by
  simp only [← linked_mem_iff h]
  rcases getInternal_spec h id time with ⟨i, hi, he, hrun⟩ | ⟨hno, hrun⟩
  · rw [hrun]
    refine ⟨iff_of_false (by simp) ?_, by simp⟩
    intro hno
    rw [hno i hi] at he
    cases he
  · rw [hrun]
    exact ⟨iff_of_true rfl hno, fun _ => rfl⟩

theorem getExternal_fails (manager : FlowManager) (port : UInt16) (time : VigorTime)
    (hf : (flowManagerGetExternal manager port time).2 = none) :
    (flowManagerGetExternal manager port time).1 = manager := by
  simp only [flowManagerGetExternal] at hf ⊢
  split at hf
  · rename_i hna
    rw [if_pos hna]
  · cases hf

end Agreement

/-- **The flow table is coherent** in every reachable state of a shard of at most 65535 flows:
    map, vector and chain agree, allocation fails exactly when all flows are live, and whatever
    fails changes nothing. -/
theorem flow_table_agrees (memory : Memory) (startingPort : UInt16) (natIp : UInt32)
    (natDevice : UInt16) (expirationTime : UInt32) (maxFlows : UInt64) (shared : Bool)
    (hm : 1 ≤ maxFlows.toNat ∧ maxFlows.toNat ≤ 65535) (s : Session)
    (hs : Reachable (flowManagerAllocate memory startingPort natIp natDevice expirationTime maxFlows
      shared) s) :
    s.manager.state.maxFlows.toNat = maxFlows.toNat ∧ Agrees s.manager ∧
    (∀ id device time,
      ((flowManagerAllocateFlow s.manager id device time).2 = none ↔
        s.manager.live = maxFlows.toNat) ∧
      ((flowManagerAllocateFlow s.manager id device time).2 = none →
        (flowManagerAllocateFlow s.manager id device time).1 = s.manager)) ∧
    (∀ id time,
      ((flowManagerGetInternal s.manager id time).2 = none ↔
        ∀ i, s.manager.Allocated i → keyEquals (s.manager.state.fv i) id = false) ∧
      ((flowManagerGetInternal s.manager id time).2 = none →
        (flowManagerGetInternal s.manager id time).1 = s.manager)) ∧
    (∀ port time, (flowManagerGetExternal s.manager port time).2 = none →
      (flowManagerGetExternal s.manager port time).1 = s.manager) := by
  have hcast := maxFlows_cast hm.2
  obtain ⟨alloc, free, h⟩ := reachable_inv
    ⟨_, allocate_coherent memory startingPort natIp natDevice expirationTime shared (by omega)⟩ hs
  have hl : s.manager.Linked alloc free := h.coherent.linked
  have hmax : s.manager.state.maxFlows.toNat = maxFlows.toNat := by
    have := congrArg (fun p => p.2.1) h.params
    exact (congrArg UInt16.toNat this).trans hcast
  refine ⟨hmax, coherent_agrees h.coherent, ?_, ?_, ?_⟩
  · intro id device time
    rw [← hmax]
    exact allocateFlow_fails_iff hl id device time
  · intro id time
    exact getInternal_fails_iff hl id time
  · intro port time
    exact getExternal_fails s.manager port time

/-- A shard of one flow. -/
def oneFlowShard : FlowManager :=
  flowManagerAllocate Memory.zero 1024 0x01010101 2 60000000 1 true

/-- The shard after a lookup in vain and the allocation that follows it. -/
def oneFlowSession : Session :=
  let id : FlowId := ⟨5000, 80, 0x0A000001, 0x08080808, 0, 6⟩
  (Session.perform ⟨oneFlowShard, [], 0⟩ (.getInternal id) 7).perform (.allocateFlow id 0) 7

theorem flow_table_agrees_full : Agrees oneFlowSession.manager ∧
    (flowManagerAllocateFlow oneFlowSession.manager ⟨5001, 80, 1, 2, 0, 6⟩ 0 8).2 = none := by
  have h := flow_table_agrees _ 1024 0x01010101 2 60000000 1 true ⟨by decide, by decide⟩ oneFlowSession
    (.step (.allocateFlow _ 0) 7 (.step (.getInternal _) 7 .start trivial (by decide))
      (by decide +kernel) (by decide +kernel))
  exact ⟨h.2.1, (h.2.2.1 _ 0 8).1.mpr (by decide +kernel)⟩

end QueueDpdk.NatFlow
