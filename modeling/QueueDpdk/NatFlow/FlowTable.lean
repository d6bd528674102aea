import QueueDpdk.LibVig.Age
import QueueDpdk.NatFlow.Manager

/-!
# What a flow manager is for

A table of flows from the least to the most recently used one.  Each has an index, which is its
external port, and goes when it has not been used for a while.

* `FlowTable` — the table and its four operations, without a map, a vector or a chain.
* `Maintains` — a flow manager keeps the flows of a table.
* `Maintains.getInternal`, `Maintains.allocateFlow`, `Maintains.getExternal`, `Maintains.expire` — an
  operation of the manager has the result of that of the table, and the manager then keeps the new
  table.
-/

set_option autoImplicit false

namespace QueueDpdk.NatFlow

open LibVig

/-! ## The table -/

structure Entry where
  index : Int
  flow : FlowId
  time : VigorTime

/-- The flows by age, the indices to be given next and the constants of the shard. -/
structure FlowTable where
  used : List Entry
  free : List Int
  startPort : UInt16
  expirationTime : UInt32

namespace FlowTable

variable (table : FlowTable)

def portOf (index : Int) : UInt16 := UInt16.ofInt (table.startPort.toNat + index)

/-- The first flow with `p`, if there is one, becomes the youngest. -/
def touch (p : Entry → Bool) (time : VigorTime) : FlowTable × Option Entry :=
  match table.used.find? p with
  | none => (table, none)
  | some e => ({ table with used := table.used.eraseP p ++ [{ e with time := time }] }, some e)

def getInternal (id : FlowId) (time : VigorTime) : FlowTable × Option UInt16 :=
  let (table', e) := table.touch (fun e => keyEquals e.flow id) time
  (table', e.map (fun e => table.portOf e.index))

def getExternal (externalPort : UInt16) (time : VigorTime) : FlowTable × Option FlowId :=
  let index : Int := externalPort.toNat - table.startPort.toNat
  let (table', e) := table.touch (fun e => decide (e.index = index)) time
  (table', e.map Entry.flow)

def allocateFlow (id : FlowId) (time : VigorTime) : FlowTable × Option UInt16 :=
  match table.free with
  | [] => (table, none)
  | index :: free =>
    ({ table with used := table.used ++ [⟨index, id, time⟩], free := free },
      some (table.portOf index))

/-- The flows at the old end that were last used before a time. -/
def expire (time : VigorTime) : FlowTable :=
  let lastTime : VigorTime := time - (table.expirationTime * 1000).toUInt64
  { table with
    used := table.used.dropWhile (fun e => decide (e.time < lastTime))
    free := ((table.used.takeWhile (fun e => decide (e.time < lastTime))).map Entry.index).reverse ++
      table.free }

variable {table} {p : Entry → Bool}

theorem touch_none (h : table.used.find? p = none) (time : VigorTime) :
    table.touch p time = (table, none) := by
  rw [touch, h]

/-- The flow moves from its place to the end. -/
theorem touch_some {e : Entry} (h : table.used.find? p = some e) (time : VigorTime) :
    ∃ before after, table.used = before ++ e :: after ∧ p e = true ∧ table.touch p time =
      ({ table with used := before ++ after ++ [{ e with time := time }] }, some e) := by
  obtain ⟨hp, before, after, hsplit, hbefore⟩ := List.find?_eq_some_iff_append.mp h
  have herase : table.used.eraseP p = before ++ after := by
    rw [hsplit, List.eraseP_append_right _ (by simpa using hbefore), List.eraseP_cons_of_pos hp]
  refine ⟨before, after, hsplit, hp, ?_⟩
  rw [touch, h, herase]

end FlowTable

/-- Where a predicate stops, so do the functions that run as long as it holds. -/
theorem takeWhile_dropWhile {α : Type} (p : α → Bool) {l₁ l₂ : List α} (h : ∀ a ∈ l₁, p a = true)
    (hstop : ∀ a, l₂.head? = some a → p a = false) :
    (l₁ ++ l₂).takeWhile p = l₁ ∧ (l₁ ++ l₂).dropWhile p = l₂ := by
  rw [List.takeWhile_append_of_pos h, List.dropWhile_append_of_pos h]
  cases l₂ with
  | nil => simp
  | cons a l₂ => simp [hstop a rfl]

/-! ## The manager of a table -/

/-- Each flow is in the vector under its index, and its time in the chain. -/
structure Maintains (manager : FlowManager) (table : FlowTable) : Prop where
  coherent : manager.Coherent (table.used.map Entry.index) table.free
  flow : ∀ e ∈ table.used, manager.state.fv e.index = e.flow
  time : ∀ e ∈ table.used, manager.state.heap.timestamps e.index = e.time
  startPort : manager.state.startPort = table.startPort
  expirationTime : manager.expirationTime = table.expirationTime

section Operations

variable {manager : FlowManager} {table : FlowTable}

/-- A new manager holds no flows. -/
theorem maintains_allocate (memory : Memory) (startingPort : UInt16) (natIp : UInt32)
    (natDevice : UInt16) (expirationTime : UInt32) {maxFlows : UInt64} (shared : Bool)
    (hm : 1 ≤ maxFlows.toUInt16.toNat) :
    Maintains (flowManagerAllocate memory startingPort natIp natDevice expirationTime maxFlows shared)
      ⟨[], (List.range maxFlows.toUInt16.toNat).map Int.ofNat, startingPort, expirationTime⟩ :=
  ⟨allocate_coherent memory startingPort natIp natDevice expirationTime shared hm, by simp, by simp,
    rfl, rfl⟩

theorem Maintains.mem (h : Maintains manager table) {i : Int} (hi : i ∈ table.used.map Entry.index) :
    ∃ e ∈ table.used, e.index = i ∧ manager.state.fv i = e.flow := by
  obtain ⟨e, he, rfl⟩ := List.mem_map.mp hi
  exact ⟨e, he, rfl, h.flow e he⟩

theorem Maintains.portOf (h : Maintains manager table) (i : Int) :
    NatFlow.portOf manager i = table.portOf i := by
  rw [NatFlow.portOf, h.startPort, FlowTable.portOf]

/-- **Using a flow** of the table. -/
theorem Maintains.touch (h : Maintains manager table) {p : Entry → Bool} {e : Entry}
    (hfind : table.used.find? p = some e) (time : VigorTime) :
    Maintains (manager.rejuvenate e.index time) (table.touch p time).1 := by
  obtain ⟨before, after, hsplit, -, htouch⟩ := FlowTable.touch_some hfind time
  have hc := h.coherent
  rw [hsplit, List.map_append, List.map_cons] at hc
  obtain ⟨chain', hrun, hts, hc'⟩ := LibVig.Coherent.rejuvenate_split hc time
  have hnd := List.nodup_middle.mp (List.nodup_append.mp hc.linked.ring.nodup).1
  rw [← List.map_append] at hnd
  have hmem : ∀ e' ∈ before ++ after, e' ∈ table.used ∧ e'.index ≠ e.index := by
    intro e' he'
    refine ⟨?_, fun hi => (List.nodup_cons.mp hnd).1 (hi ▸ List.mem_map_of_mem he')⟩
    rw [hsplit]
    simp only [List.mem_append, List.mem_cons] at he' ⊢
    exact he'.imp_right Or.inr
  have he : e ∈ table.used := by simp [hsplit]
  have hused : (before ++ after ++ [{ e with time := time }]).map Entry.index =
      before.map Entry.index ++ after.map Entry.index ++ [e.index] := by
    simp
  rw [htouch]
  unfold FlowManager.rejuvenate
  rw [hrun]
  refine ⟨?_, ?_, ?_, h.startPort, h.expirationTime⟩
  · rw [← hused] at hc'
    exact hc'
  · intro e' he'
    rcases List.mem_append.mp he' with he' | he'
    · exact h.flow e' (hmem e' he').1
    · rw [List.mem_singleton.mp he']
      exact h.flow e he
  · intro e' he'
    show chain'.timestamps e'.index = e'.time
    rw [hts]
    rcases List.mem_append.mp he' with he' | he'
    · rw [Function.update_of_ne (hmem e' he').2]
      exact h.time e' (hmem e' he').1
    · rw [List.mem_singleton.mp he', Function.update_self]

/-- **Lookup of a LAN flow.** -/
theorem Maintains.getInternal (h : Maintains manager table) (id : FlowId) (time : VigorTime) :
    Maintains (flowManagerGetInternal manager id time).1 (table.getInternal id time).1 ∧
      (flowManagerGetInternal manager id time).2 = (table.getInternal id time).2 := by
  unfold FlowTable.getInternal
  cases hfind : table.used.find? (fun e => keyEquals e.flow id) with
  | none =>
    rw [FlowTable.touch_none hfind]
    rcases getInternal_spec h.coherent.linked id time with ⟨i, hi, heq, -⟩ | ⟨-, hrun⟩
    · obtain ⟨e, he, -, hflow⟩ := h.mem hi
      exact absurd (hflow ▸ heq) (List.find?_eq_none.mp hfind e he)
    · rw [hrun]
      exact ⟨h, rfl⟩
  | some e =>
    have hkey : keyEquals e.flow id = true := by simpa using List.find?_some hfind
    have he := List.mem_of_find?_eq_some hfind
    have hi : e.index ∈ table.used.map Entry.index := List.mem_map_of_mem he
    have htouched := h.touch hfind time
    obtain ⟨before, after, -, -, htouch⟩ := FlowTable.touch_some hfind time
    rw [htouch] at htouched ⊢
    rcases getInternal_spec h.coherent.linked id time with ⟨i, hi', heq, hrun⟩ | ⟨hno, -⟩
    · -- both found a flow with the key, and there is only one
      have hsame : i = e.index := by
        refine h.coherent.distinct i hi' e.index hi ?_
        rw [h.flow e he]
        simp only [keyEquals, beq_iff_eq] at heq hkey ⊢
        exact heq.trans hkey.symm
      rw [hrun, hsame, h.portOf]
      exact ⟨htouched, rfl⟩
    · have := hno e.index hi
      rw [h.flow e he, hkey] at this
      cases this

/-- **Lookup of a port**, in the range of the shard or rejected by the chain. -/
theorem Maintains.getExternal (h : Maintains manager table) {port : UInt16} (time : VigorTime)
    (hport : (0 ≤ externalIndex manager port ∧
        externalIndex manager port < manager.state.maxFlows.toNat) ∨
      dchainIsIndexAllocated manager.state.heap (externalIndex manager port) = false) :
    Maintains (flowManagerGetExternal manager port time).1 (table.getExternal port time).1 ∧
      (flowManagerGetExternal manager port time).2 = (table.getExternal port time).2 := by
  have hindex : externalIndex manager port = port.toNat - table.startPort.toNat := by
    rw [externalIndex, h.startPort]
  -- an index is in use exactly if the chain says so
  have halloc : dchainIsIndexAllocated manager.state.heap (externalIndex manager port) = true ↔
      externalIndex manager port ∈ table.used.map Entry.index := by
    rcases hport with ⟨h0, h1⟩ | hno
    · exact h.coherent.linked.allocated_iff h0 h1
    · refine ⟨fun hyes => by simp [hno] at hyes, fun hi => ?_⟩
      obtain ⟨h0, h1⟩ := h.coherent.linked.bounds hi
      exact (h.coherent.linked.allocated_iff h0 h1).mpr hi
  rw [getExternal_index]
  simp only [FlowTable.getExternal, ← hindex]
  cases hfind : table.used.find? (fun e => decide (e.index = externalIndex manager port)) with
  | none =>
    have hno : dchainIsIndexAllocated manager.state.heap (externalIndex manager port) = false := by
      rw [Bool.eq_false_iff]
      intro hyes
      obtain ⟨e, he, hi, -⟩ := h.mem (halloc.mp hyes)
      simpa [hi] using List.find?_eq_none.mp hfind e he
    rw [FlowTable.touch_none hfind, if_pos hno]
    exact ⟨h, rfl⟩
  | some e =>
    have hi : e.index = externalIndex manager port := by simpa using List.find?_some hfind
    have he := List.mem_of_find?_eq_some hfind
    have hyes := halloc.mpr (hi ▸ List.mem_map_of_mem he)
    have htouched := h.touch hfind time
    obtain ⟨before, after, -, -, htouch⟩ := FlowTable.touch_some hfind time
    rw [htouch] at htouched ⊢
    rw [hyes, if_neg (by simp), ← hi, h.flow e he]
    exact ⟨htouched, rfl⟩

/-- **A new flow**, unless its key is in use. -/
theorem Maintains.allocateFlow (h : Maintains manager table) {id : FlowId} (time : VigorTime)
    (hnew : (flowManagerGetInternal manager id time).2 = none) (device : UInt16) :
    Maintains (flowManagerAllocateFlow manager id device time).1 (table.allocateFlow id time).1 ∧
      (flowManagerAllocateFlow manager id device time).2 = (table.allocateFlow id time).2 := by
  have hno : ∀ i ∈ table.used.map Entry.index, keyEquals (manager.state.fv i) id = false := by
    rcases getInternal_spec h.coherent.linked id time with ⟨i, -, -, hrun⟩ | ⟨hno, -⟩
    · rw [hrun] at hnew
      cases hnew
    · exact hno
  obtain ⟨used, free, startPort, expirationTime⟩ := table
  cases free with
  | nil =>
    rw [allocateFlow_full h.coherent.linked]
    exact ⟨h, rfl⟩
  | cons index free =>
    obtain ⟨heap, hrun, hcoherent⟩ := LibVig.Coherent.insert h.coherent keys_lawful hno time
    have hfresh : ∀ e ∈ used, e.index ≠ index := by
      intro e he hi
      exact h.coherent.linked.disjoint (List.mem_map_of_mem he) (hi ▸ List.mem_cons_self)
    have hts := allocate_timestamps hrun
    unfold flowManagerAllocateFlow FlowTable.allocateFlow
    rw [hrun]
    refine ⟨⟨?_, ?_, ?_, h.startPort, h.expirationTime⟩, congrArg some (h.portOf index)⟩
    · have hused : (used ++ [(⟨index, id, time⟩ : Entry)]).map Entry.index =
          used.map Entry.index ++ [index] := by
        simp
      rw [← hused] at hcoherent
      exact hcoherent
    · intro e he
      show Function.update manager.state.fv index id e.index = e.flow
      rcases List.mem_append.mp he with he | he
      · rw [Function.update_of_ne (hfresh e he)]
        exact h.flow e he
      · rw [List.mem_singleton.mp he, Function.update_self]
    · intro e he
      show heap.timestamps e.index = e.time
      rw [hts]
      rcases List.mem_append.mp he with he | he
      · rw [Function.update_of_ne (hfresh e he)]
        exact h.time e he
      · rw [List.mem_singleton.mp he, Function.update_self]

/-- **Expiry.** -/
theorem Maintains.expire (h : Maintains manager table) (time : VigorTime) :
    Maintains (flowManagerExpire manager time) (table.expire time) := by
  obtain ⟨heap, fm, expired, rest, hsplit, hrun, hend, hold, hts, hc⟩ :=
    expireItemsSingleMap_spec h.coherent keys_lawful
      (time - (manager.expirationTime * 1000).toUInt64)
  obtain ⟨l₁, l₂, hused, rfl, rfl⟩ := List.map_eq_append_iff.mp hsplit
  have hmem₁ : ∀ e ∈ l₁, e ∈ table.used := fun e he => hused ▸ List.mem_append_left l₂ he
  have hmem₂ : ∀ e ∈ l₂, e ∈ table.used := fun e he => hused ▸ List.mem_append_right l₁ he
  have hsame := h.expirationTime
  have hexpired : ∀ e ∈ l₁,
      decide (e.time < time - (table.expirationTime * 1000).toUInt64) = true := by
    intro e he
    have hlt := hold e.index (List.mem_map_of_mem he)
    rw [h.time e (hmem₁ e he), hsame] at hlt
    simpa using hlt
  -- the loop stopped at the oldest flow that is left
  have hkept : ∀ e, l₂.head? = some e →
      decide (e.time < time - (table.expirationTime * 1000).toUInt64) = false := by
    intro e he
    obtain ⟨l₃, rfl⟩ : ∃ l₃, l₂ = e :: l₃ := ⟨l₂.tail, (List.cons_head?_tail he).symm⟩
    have hring := hc.linked.ring
    rw [List.map_cons] at hring
    have hstop := expire_stops hring hend
    rw [hts, h.time e (hmem₂ e (by simp)), hsame] at hstop
    simpa using hstop
  obtain ⟨htake, hdrop⟩ := takeWhile_dropWhile _ hexpired hkept
  rw [← hused] at htake hdrop
  simp only [flowManagerExpire, FlowTable.expire, hrun, htake, hdrop]
  refine ⟨hc, fun e he => h.flow e (hmem₂ e he), fun e he => ?_, h.startPort, h.expirationTime⟩
  show heap.timestamps e.index = e.time
  rw [hts]
  exact h.time e (hmem₂ e he)

end Operations

end QueueDpdk.NatFlow
