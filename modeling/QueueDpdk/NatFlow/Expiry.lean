import QueueDpdk.LibVig.Age
import QueueDpdk.Lib.Machine
import QueueDpdk.NatFlow.Runs

/-!
# Expiry (`nf-chain/src/nat_flowmanager.c`)

`flow_manager_expire` computes its cut-off with a 32-bit product and a 64-bit difference.

* `FlowManager.Ordered` — a coherent shard whose flows are sorted by their last use;
  `ordered_kept` that the operations keep it so, `reachable_ordered` that shards in use are.
* `expire_ordered` — what expiry frees, in terms of that cut-off; `kept_by_cutOff` the cut-off over
  the integers.
* `ExpiresIdle` — exactly the flows idle for longer than the expiration time go.
* `expires_idle_iff` — this holds exactly if no flow within that time is idle for longer than the
  wrapped product, and the product is not after the clock.
-/

set_option autoImplicit false

namespace QueueDpdk.NatFlow

open LibVig Lib

/-- The time stamp of an index. -/
def FlowManager.lastUse (manager : FlowManager) (i : Int) : VigorTime :=
  manager.state.heap.timestamps i

/-- The expiration time in nanoseconds, and what the 32-bit product makes of it. -/
def FlowManager.expiration (manager : FlowManager) : ℕ := manager.expirationTime.toNat * 1000

def FlowManager.wrappedExpiration (manager : FlowManager) : ℕ := manager.expiration % 4294967296

/-! ## Sorted shards -/

/-- Coherent, sorted, and not used after `now`. -/
structure FlowManager.Ordered (manager : FlowManager) (now : VigorTime) (alloc free : List Int) :
    Prop where
  coherent : manager.Coherent alloc free
  age : ByAge manager.state.heap.timestamps alloc now

section Ordered

variable {manager : FlowManager} {now time : VigorTime} {alloc free : List Int}

theorem FlowManager.Ordered.nodup (h : manager.Ordered now alloc free) : alloc.Nodup :=
  (List.nodup_append.mp h.coherent.linked.ring.nodup).1

theorem FlowManager.Ordered.rejuvenate (h : manager.Ordered now alloc free) (hle : now ≤ time)
    {i : Int} (hi : i ∈ alloc) : ∃ alloc', alloc'.Perm alloc ∧
      (manager.rejuvenate i time).Ordered time alloc' free := by
  obtain ⟨l₁, l₂, rfl⟩ := List.append_of_mem hi
  obtain ⟨chain', hrun, hts, hc⟩ := LibVig.Coherent.rejuvenate_split h.coherent time
  refine ⟨l₁ ++ l₂ ++ [i], touched_perm l₁ l₂ i, ?_⟩
  unfold FlowManager.rejuvenate
  rw [hrun]
  refine ⟨hc, ?_⟩
  show ByAge chain'.timestamps _ time
  rw [hts]
  exact h.age.touch hle h.nodup

theorem FlowManager.Ordered.allocate {i : Int} (h : manager.Ordered now alloc (i :: free))
    (hle : now ≤ time) (id : FlowId)
    (hnew : ∀ i ∈ alloc, keyEquals (manager.state.fv i) id = false) (device : UInt16) :
    ∃ manager', flowManagerAllocateFlow manager id device time =
        (manager', some (portOf manager i)) ∧
      manager'.params = manager.params ∧ manager'.Ordered time (alloc ++ [i]) free := by
  obtain ⟨manager', hrun, -, hparams, hc⟩ := allocateFlow_coherent h.coherent hnew device time
  refine ⟨manager', hrun, hparams, hc, ?_⟩
  have hts : manager'.state.heap.timestamps =
      Function.update manager.state.heap.timestamps i time := by
    obtain ⟨heap, hheap, -⟩ := LibVig.Linked.insert h.coherent.linked id time
    unfold flowManagerAllocateFlow at hrun
    rw [hheap] at hrun
    obtain ⟨rfl, -⟩ := Prod.mk.inj hrun
    exact allocate_timestamps hheap
  rw [hts]
  exact h.age.insert hle (fun hi => h.coherent.linked.disjoint hi List.mem_cons_self)

/-- **Expiry** frees the indices older than the cut-off, and keeps the rest as it is. -/
theorem expire_ordered (h : manager.Ordered now alloc free) (time : VigorTime) :
    ∃ expired rest, alloc = expired ++ rest ∧
      (∀ i ∈ expired, manager.lastUse i < time - (manager.expirationTime * 1000).toUInt64) ∧
      (∀ i ∈ rest, ¬manager.lastUse i < time - (manager.expirationTime * 1000).toUInt64) ∧
      (flowManagerExpire manager time).state.fv = manager.state.fv ∧
      (∀ i, (flowManagerExpire manager time).lastUse i = manager.lastUse i) ∧
      (flowManagerExpire manager time).Ordered now rest (expired.reverse ++ free) := by
  obtain ⟨heap, fm, expired, rest, hsplit, hrun, hold, hyoung, hts, hage, hc⟩ :=
    expireItemsSingleMap_byAge h.coherent keys_lawful h.age
      (time - (manager.expirationTime * 1000).toUInt64)
  refine ⟨expired, rest, hsplit, hold, hyoung, rfl, ?_, ?_⟩
  · intro i
    simp only [flowManagerExpire, hrun]
    exact congrFun hts i
  · simp only [flowManagerExpire, hrun]
    exact ⟨hc, hage⟩

end Ordered

/-! ## Shards in use are sorted -/

section Runs

variable {manager : FlowManager} {s : Session} {alloc free : List Int}

/-- The invariant of a run, with the ages. -/
structure AgedInv (manager : FlowManager) (s : Session) (alloc free : List Int) : Prop where
  ordered : s.manager.Ordered s.now alloc free
  params : s.manager.params = manager.params
  missed : ∀ id ∈ s.missed, ∀ i ∈ alloc, keyEquals (s.manager.state.fv i) id = false

/-- Every operation keeps the flows sorted by their last use. -/
theorem ordered_kept : KeptByUse FlowManager.Ordered where
  linked h := h.coherent.linked
  later h hle := ⟨h.coherent, h.age.mono hle⟩
  touch h hle hi := h.rejuvenate hle hi
  insert h hle hnew device := h.allocate hle _ hnew device
  expire h hle := by
    obtain ⟨expired, rest, hsplit, -, -, hfv, -, ho⟩ := expire_ordered h _
    exact ⟨expired, rest, hsplit, hfv, ho.coherent, ho.age.mono hle⟩

/-- **Run lemma**: whatever its users do in the course of time, a shard is sorted. -/
theorem reachable_ordered {free : List Int} (h0 : manager.Coherent [] free)
    (hs : Reachable manager s) : ∃ alloc free, AgedInv manager s alloc free := by
  obtain ⟨alloc, free, ho, hparams, hmissed⟩ := ordered_kept.reachable ⟨free, h0, .nil _ _⟩ hs
  exact ⟨alloc, free, ho, hparams, hmissed⟩

end Runs

/-! ## The cut-off over the integers -/

theorem wrappedExpiration_eq (manager : FlowManager) :
    (manager.expirationTime * 1000).toUInt64.toNat = manager.wrappedExpiration := by
  rw [UInt32.toNat_toUInt64, UInt32.toNat_mul]
  rfl

/-- A difference that wraps lies after the clock. -/
theorem not_lt_cutOff {used time span : VigorTime} (hused : used ≤ time) (hspan : span.toNat < 4294967296) :
    ¬used < time - span ↔ span.toNat ≤ time.toNat ∧ time.toNat - used.toNat ≤ span.toNat := by
  have hle := UInt64.le_iff_toNat_le.mp hused
  have hlt := time.toNat_lt
  rw [UInt64.not_lt, UInt64.le_iff_toNat_le, UInt64.toNat_sub]
  omega

section CutOff

variable {manager : FlowManager} {time : VigorTime} {i : Int}

theorem kept_by_cutOff (hused : manager.lastUse i ≤ time) :
    ¬manager.lastUse i < time - (manager.expirationTime * 1000).toUInt64 ↔
      manager.wrappedExpiration ≤ time.toNat ∧
        time.toNat - (manager.lastUse i).toNat ≤ manager.wrappedExpiration := by
  have hlt : (manager.expirationTime * 1000).toUInt64.toNat < 4294967296 := by
    rw [wrappedExpiration_eq]
    exact Nat.mod_lt _ (by decide)
  rw [not_lt_cutOff hused hlt, wrappedExpiration_eq]

end CutOff

/-! ## Idle flows -/

/-- The arguments of an allocation. -/
structure Request where
  id : FlowId
  device : UInt16
  now : VigorTime

/-- Allocations one after the other; the event of each is the port it gives. -/
def allocator : Machine FlowManager Request (Option UInt16) :=
  ⟨fun manager r => flowManagerAllocateFlow manager r.id r.device r.now⟩

/-- The index is in use nowhere, and its port is given out again by the time the shard is full. -/
structure Freed (manager : FlowManager) (i : Int) : Prop where
  chain : dchainIsIndexAllocated manager.state.heap i = false
  map : ∀ j, ¬manager.EntryOf i j
  key : ∀ i', manager.Allocated i' → keyEquals (manager.state.fv i') (manager.state.fv i) = false
  lookup : ∀ time, (flowManagerGetInternal manager (manager.state.fv i) time).2 = none
  port : ∀ requests, manager.state.maxFlows.toNat ≤ manager.live + requests.length →
    some (portOf manager i) ∈ allocator.events manager requests

/-- The flow of the index is found under its key, as before. -/
structure Kept (before after : FlowManager) (i : Int) : Prop where
  slot : after.state.fv i = before.state.fv i
  lastUse : after.lastUse i = before.lastUse i
  port : ∀ time, (flowManagerGetInternal after (before.state.fv i) time).2 = some (portOf before i)

/-- **What `flow_manager_expire` is for**: the flows last used before the cut-off go, and the others
    stay. -/
structure ExpiresIdle (manager : FlowManager) (time : VigorTime) : Prop where
  kept_iff : ∀ i, (flowManagerExpire manager time).Allocated i ↔
    manager.Allocated i ∧ (time.toNat : ℤ) - manager.expiration ≤ (manager.lastUse i).toNat
  freed : ∀ i, manager.Allocated i → ¬(flowManagerExpire manager time).Allocated i →
    Freed (flowManagerExpire manager time) i
  kept : ∀ i, (flowManagerExpire manager time).Allocated i →
    Kept manager (flowManagerExpire manager time) i

section Idle

variable {manager : FlowManager} {alloc free : List Int} {now : VigorTime}

/-- Free indices are given out in turn. -/
theorem allocator_gives : ∀ (free : List Int) {manager : FlowManager} {alloc : List Int}
    (requests : List Request), manager.Linked alloc free → free.length ≤ requests.length →
    ∀ i ∈ free, some (portOf manager i) ∈ allocator.events manager requests
  | [], _, _, _, _, _, i, hi => by cases hi
  | f :: free, manager, alloc, [], _, hlen, _, _ => by
    rw [List.length_nil, List.length_cons] at hlen
    omega
  | f :: free, manager, alloc, r :: requests, h, hlen, i, hi => by
    obtain ⟨manager', hrun, -, hparams, h'⟩ := allocateFlow_linked h r.id r.device r.now
    have hstep : allocator.step manager r = (manager', some (portOf manager f)) := hrun
    rw [Machine.events, Machine.trace_cons, List.map_cons, List.mem_cons]
    rcases List.mem_cons.mp hi with rfl | hi
    · refine Or.inl ?_
      show _ = (allocator.step manager r).2
      rw [hstep]
    · refine Or.inr ?_
      rw [hstep]
      have hrest := allocator_gives free requests h' (Nat.le_of_succ_le_succ hlen) i hi
      have hport : portOf manager' i = portOf manager i := by
        rw [portOf, portOf, show manager'.state.startPort = manager.state.startPort from
          congrArg Prod.fst hparams]
      rwa [hport] at hrest

/-- A free index whose key no live index has. -/
theorem freed_of_coherent (h : manager.Coherent alloc free) {i : Int} (hi : i ∈ free)
    (hkey : ∀ i' ∈ alloc, keyEquals (manager.state.fv i') (manager.state.fv i) = false) :
    Freed manager i := by
  have hl : manager.Linked alloc free := h.linked
  have hnot : i ∉ alloc := fun ha => hl.disjoint ha hi
  obtain ⟨h0, h1⟩ := (hl.ring.mem_iff i).mp (Or.inr hi)
  refine ⟨?_, ?_, ?_, ?_, ?_⟩
  · rw [Bool.eq_false_iff]
    exact fun ha => hnot ((hl.allocated_iff h0 h1).mp ha)
  · rintro j hentry
    exact hnot ((linked_mem_iff hl i).mpr ((coherent_agrees h).entry_allocated i j hentry))
  · intro i' hi'
    exact hkey i' ((linked_mem_iff hl i').mpr hi')
  · intro time
    rw [(getInternal_fails_iff hl _ time).1]
    intro i' hi'
    exact hkey i' ((linked_mem_iff hl i').mpr hi')
  · intro requests hlen
    have hring := hl.ring.length
    rw [linked_live hl] at hlen
    exact allocator_gives free requests hl (by omega) i hi

/-- A live index is found under its key. -/
theorem getInternal_own (h : manager.Coherent alloc free) {i : Int} (hi : i ∈ alloc)
    (time : VigorTime) :
    (flowManagerGetInternal manager (manager.state.fv i) time).2 = some (portOf manager i) := by
  rcases getInternal_spec h.linked (manager.state.fv i) time with ⟨i', hi', hkey, hrun⟩ | ⟨hno, -⟩
  · rw [hrun, h.distinct i' hi' i hi hkey]
  · have := hno i hi
    rw [keys_lawful.refl] at this
    cases this

/-- **Expiry, exactly**: no flow may be within the expiration time, but idle for longer than the
    wrapped product, or before the clock has reached that product. -/
theorem expires_idle_iff {manager : FlowManager} {time : VigorTime}
    (h : ∃ alloc free, manager.Ordered time alloc free) :
    ExpiresIdle manager time ↔ ∀ i, manager.Allocated i →
      time.toNat - (manager.lastUse i).toNat ≤ manager.expiration →
      time.toNat - (manager.lastUse i).toNat ≤ manager.wrappedExpiration ∧
        manager.wrappedExpiration ≤ time.toNat := by
  obtain ⟨alloc, free, ho⟩ := h
  have hl : manager.Linked alloc free := ho.coherent.linked
  have hused : ∀ i, manager.Allocated i → manager.lastUse i ≤ time := fun i hi =>
    ho.age.le_now i ((linked_mem_iff hl i).mpr hi)
  obtain ⟨expired, rest, rfl, hold, hyoung, hfv, hts, ho'⟩ := expire_ordered ho time
  have hl' : (flowManagerExpire manager time).Linked rest (expired.reverse ++ free) :=
    ho'.coherent.linked
  have hnd := ho.nodup
  -- what is kept in terms of the cut-off
  have hkept : ∀ i, (flowManagerExpire manager time).Allocated i ↔ manager.Allocated i ∧
      (manager.wrappedExpiration ≤ time.toNat ∧
        time.toNat - (manager.lastUse i).toNat ≤ manager.wrappedExpiration) := by
    intro i
    rw [← linked_mem_iff hl', ← linked_mem_iff hl]
    constructor
    · intro hi
      have hmem : i ∈ expired ++ rest := List.mem_append_right _ hi
      exact ⟨hmem, (kept_by_cutOff (hused i ((linked_mem_iff hl i).mp hmem))).mp (hyoung i hi)⟩
    · rintro ⟨hmem, hcut⟩
      rcases List.mem_append.mp hmem with hi | hi
      · have hcut' := (kept_by_cutOff (hused i ((linked_mem_iff hl i).mp hmem))).mpr hcut
        exact absurd (hold i hi) hcut'
      · exact hi
  have hwrap : manager.wrappedExpiration ≤ manager.expiration := Nat.mod_le _ _
  constructor
  · intro hidle i hi hle
    have hlast := UInt64.le_iff_toNat_le.mp (hused i hi)
    have hstays : (flowManagerExpire manager time).Allocated i :=
      (hidle.kept_iff i).mpr ⟨hi, by omega⟩
    obtain ⟨-, hclock, hspan⟩ := (hkept i).mp hstays
    exact ⟨hspan, hclock⟩
  · intro hcond
    refine ⟨?_, ?_, ?_⟩
    · intro i
      rw [hkept i]
      refine and_congr_right (fun hi => ?_)
      have hlast := UInt64.le_iff_toNat_le.mp (hused i hi)
      constructor
      · rintro ⟨-, hspan⟩
        omega
      · intro hle
        obtain ⟨hspan, hclock⟩ := hcond i hi (by omega)
        exact ⟨hclock, hspan⟩
    · intro i hi hgone
      rw [← linked_mem_iff hl'] at hgone
      have hmem := (linked_mem_iff hl i).mpr hi
      have hexp : i ∈ expired := (List.mem_append.mp hmem).resolve_right hgone
      refine freed_of_coherent ho'.coherent (List.mem_append_left _ (List.mem_reverse.mpr hexp)) ?_
      intro i' hi'
      rw [Bool.eq_false_iff, hfv]
      intro hkey
      have hsame := ho.coherent.distinct i' (List.mem_append_right _ hi') i hmem hkey
      exact hgone (hsame ▸ hi')
    · intro i hi
      have hmem := (linked_mem_iff hl' i).mpr hi
      refine ⟨congrFun hfv i, hts i, ?_⟩
      intro now
      have hown := getInternal_own ho'.coherent hmem now
      rw [hfv] at hown
      exact hown

end Idle

/-! ## A shard of one flow -/

/-- Its flow was last used at time 0. -/
def usedShard (expirationTime : UInt32) : FlowManager :=
  (flowManagerAllocateFlow (flowManagerAllocate Memory.zero 1024 0x01010101 2 expirationTime 1 false)
    ⟨5000, 80, 0x0A000001, 0x08080808, 0, 6⟩ 0 0).1

theorem usedShard_ordered (expirationTime : UInt32) (time : VigorTime) :
    ∃ alloc free, (usedShard expirationTime).Ordered time alloc free := by
  have hc : (flowManagerAllocate Memory.zero 1024 0x01010101 2 expirationTime 1 false).Coherent [] [0] :=
    allocate_coherent Memory.zero 1024 0x01010101 2 expirationTime false (by decide)
  have ho : (flowManagerAllocate Memory.zero 1024 0x01010101 2 expirationTime 1 false).Ordered 0 []
      [0] := ⟨hc, .nil _ _⟩
  obtain ⟨manager', hrun, -, ho'⟩ := ho.allocate (UInt64.le_refl 0)
    ⟨5000, 80, 0x0A000001, 0x08080808, 0, 6⟩ (fun i hi => by cases hi) 0
  refine ⟨[] ++ [0], [], ?_⟩
  unfold usedShard
  rw [hrun]
  exact ⟨ho'.coherent, ho'.age.mono (UInt64.le_iff_toNat_le.mpr (Nat.zero_le _))⟩

/-- It expires after a millisecond, and has been idle for two. -/
theorem expires_idle_millisecond : ExpiresIdle (usedShard 1000) 2000000 :=
  (expires_idle_iff (usedShard_ordered 1000 2000000)).mpr (by
    rintro i ⟨⟨h0, h1⟩, -⟩ hspan
    obtain rfl : i = 0 := Int.le_antisymm (Int.le_of_lt_add_one h1) h0
    exact absurd hspan (by decide +kernel))

/-- The minute of `nf_init` is over after five seconds. -/
theorem minute_wraps : (∃ alloc free, (usedShard (60 * 1000000)).Ordered 5000000000 alloc free) ∧
    ¬ExpiresIdle (usedShard (60 * 1000000)) 5000000000 := by
  refine ⟨usedShard_ordered _ _, fun h => ?_⟩
  have hlive : (usedShard (60 * 1000000)).Allocated 0 := by
    unfold FlowManager.Allocated
    decide +kernel
  obtain ⟨-, hstays⟩ := (h.kept_iff 0).mpr ⟨hlive, by decide +kernel⟩
  exact absurd hstays (by decide +kernel)

end QueueDpdk.NatFlow
