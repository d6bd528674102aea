import QueueDpdk.NatFlow.Process
import QueueDpdk.NatFlow.Runs

/-!
# One shard, many lcores

In shared mode any lcore may process a packet of any queue, and the lock of the manager only covers
one call.  `nf_process` makes two: it looks a flow up and, if that fails, allocates it.

* `natShared` — the machine in which lcores take these steps in any order.
* `undisturbed_refines` — if no lcore is disturbed between its two steps, they are `nfProcess`.
* `sharedStep_spec` — all that a step can do to the table.
* `shared_flows_iff` — the table has no flow twice, in any state of a run, exactly if no lcore
  allocates a flow that has come into the table since it looked it up.
-/

set_option autoImplicit false

namespace QueueDpdk.NatFlow

open LibVig Lib

/-! ## The machine -/

/-- `pending` are the packets that have been looked up in vain, by lcore. -/
structure SharedState where
  manager : FlowManager
  pending : Nat → Option NfCall

inductive SharedEvent where
  | given (flow : FlowId) (externalPort : UInt16)
  | missed (flow : FlowId)
  | dropped (flow : FlowId)
deriving DecidableEq

/-- The next step of an lcore: the allocation it still owes, else the lookup of its next packet.
    Shared shards drop packets when full. -/
def sharedStep (s : SharedState) (lcore : Nat) (call : NfCall) : SharedState × SharedEvent :=
  match s.pending lcore with
  | none =>
    match flowManagerGetInternal s.manager call.flowId call.now with
    | (manager, some externalPort) => (⟨manager, s.pending⟩, .given call.flowId externalPort)
    | (manager, none) =>
      (⟨manager, Function.update s.pending lcore (some call)⟩, .missed call.flowId)
  | some call =>
    match flowManagerAllocateFlow s.manager call.flowId call.device call.now with
    | (manager, some externalPort) =>
      (⟨manager, Function.update s.pending lcore none⟩, .given call.flowId externalPort)
    | (manager, none) => (⟨manager, Function.update s.pending lcore none⟩, .dropped call.flowId)

def natShared : Machine SharedState (Nat × NfCall) SharedEvent :=
  ⟨fun s x => sharedStep s x.1 x.2⟩

/-! ## Undisturbed steps -/

/-- The payload and the result of `nf_process` after the last step for a packet. -/
def SharedEvent.reply (config : NfConfig) (call : NfCall) : SharedEvent → Bytes × Int
  | .given _ externalPort =>
    (rewriteSrc config call.payload externalPort, deviceResult config.wanDevice)
  | .missed _ => (call.payload, EXPLICIT_DROP)
  | .dropped _ => (call.payload, EXPLICIT_DROP)

/-- The steps for one packet, with no other lcore between them. -/
def turnSteps (s : SharedState) (x : Nat × NfCall) : List (Nat × NfCall) :=
  match (sharedStep s x.1 x.2).2 with
  | .missed _ => [x, x]
  | _ => [x]

/-- Packets of any lcores, each one through before the next one. -/
def undisturbed (config : NfConfig) : Machine SharedState (Nat × NfCall) (Bytes × Int) :=
  ⟨fun s x =>
    let r := sharedStep s x.1 x.2
    match r.2 with
    | .missed _ =>
      let r := sharedStep r.1 x.1 x.2
      (r.1, r.2.reply config x.2)
    | e => (r.1, e.reply config x.2)⟩

/-- `nf_process` on one packet after the other. -/
def nfCalls (config : NfConfig) : Machine FlowManager (Nat × NfCall) (Bytes × Int) :=
  ⟨fun manager x => nfProcess config true manager x.2⟩

section Sequential

variable {config : NfConfig} {s : SharedState} {x : Nat × NfCall}

/-- A missed lookup leaves the table alone. -/
theorem getInternal_none {manager manager' : FlowManager} {id : FlowId} {time : VigorTime}
    (h : flowManagerGetInternal manager id time = (manager', none)) : manager' = manager := by
  unfold flowManagerGetInternal at h
  split at h
  · exact (Prod.mk.inj h).1.symm
  · cases (Prod.mk.inj h).2

/-- **One packet**: its steps are those of `nf_process`. -/
theorem undisturbed_step (hlan : x.2.device ≠ config.wanDevice) (hidle : s.pending x.1 = none) :
    (undisturbed config).step s x =
      (⟨((nfCalls config).step s.manager x).1, s.pending⟩,
        ((nfCalls config).step s.manager x).2) ∧
    natShared.final s (turnSteps s x) = ((undisturbed config).step s x).1 := by
  obtain ⟨lcore, call⟩ := x
  cases hget : flowManagerGetInternal s.manager call.flowId call.now with
  | mk manager found =>
    cases found with
    | some externalPort =>
      have hstep : sharedStep s lcore call =
          (⟨manager, s.pending⟩, .given call.flowId externalPort) := by
        simp only [sharedStep, hidle, hget]
      have hcall : (nfCalls config).step s.manager (lcore, call) = _ := nfProcess_known hlan hget
      rw [hcall]
      simp only [undisturbed, turnSteps, hstep, SharedEvent.reply, Machine.final_cons,
        Machine.final_nil, natShared, and_self]
    | none =>
      obtain rfl := getInternal_none hget
      have hfirst : sharedStep s lcore call =
          (⟨s.manager, Function.update s.pending lcore (some call)⟩, .missed call.flowId) := by
        simp only [sharedStep, hidle, hget]
      have hback : Function.update (Function.update s.pending lcore (some call)) lcore none =
          s.pending := by
        rw [Function.update_idem, ← hidle, Function.update_eq_self]
      cases halloc : flowManagerAllocateFlow s.manager call.flowId call.device call.now with
      | mk manager found =>
        cases found with
        | some externalPort =>
          have hcall : (nfCalls config).step s.manager (lcore, call) = _ :=
            nfProcess_new hlan hget halloc
          have hsecond : sharedStep ⟨s.manager, Function.update s.pending lcore (some call)⟩ lcore
              call = (⟨manager, s.pending⟩, .given call.flowId externalPort) := by
            simp only [sharedStep, Function.update_self, halloc, hback]
          rw [hcall]
          simp only [undisturbed, turnSteps, hfirst, hsecond, SharedEvent.reply,
            Machine.final_cons, Machine.final_nil, natShared, and_self]
        | none =>
          have hcall : (nfCalls config).step s.manager (lcore, call) =
              (manager, call.payload, EXPLICIT_DROP) := by
            show nfProcess config true s.manager call = _
            unfold nfProcess nfProcessWith
            rw [if_neg hlan, hget]
            simp only [halloc, if_pos]
          have hsecond : sharedStep ⟨s.manager, Function.update s.pending lcore (some call)⟩ lcore
              call = (⟨manager, s.pending⟩, .dropped call.flowId) := by
            simp only [sharedStep, Function.update_self, halloc, hback]
          rw [hcall]
          simp only [undisturbed, turnSteps, hfirst, hsecond, SharedEvent.reply,
            Machine.final_cons, Machine.final_nil, natShared, and_self]

/-- **Without interleaving** the steps of any lcores are calls of `nf_process` in a row: the same
    table, the same packets, the same results. -/
theorem undisturbed_refines (config : NfConfig) (manager : FlowManager)
    (inputs : List (Nat × NfCall)) (hlan : ∀ x ∈ inputs, x.2.device ≠ config.wanDevice) :
    (undisturbed config).events ⟨manager, fun _ => none⟩ inputs =
        (nfCalls config).events manager inputs ∧
      ∃ steps, (∀ x ∈ steps, x ∈ inputs) ∧
        natShared.final ⟨manager, fun _ => none⟩ steps =
          ⟨(nfCalls config).final manager inputs, fun _ => none⟩ := by
  have hok : (undisturbed config).Along (fun _ x => x.2.device ≠ config.wanDevice)
      ⟨manager, fun _ => none⟩ inputs :=
    Machine.along_of_forall _ (fun x hx _ => hlan x hx) _
  obtain ⟨hevents, hfinal⟩ := (undisturbed config).run_sim
    (R := fun s m => s = ⟨m, fun _ => none⟩) (N := nfCalls config) (by
      rintro s m x rfl hx
      have hstep := (undisturbed_step (s := ⟨m, fun _ => none⟩) hx rfl).1
      exact ⟨congrArg Prod.snd hstep, congrArg Prod.fst hstep⟩) rfl inputs hok
  refine ⟨hevents, ?_⟩
  clear hevents hok
  rw [← hfinal]
  clear hfinal
  induction inputs generalizing manager with
  | nil => exact ⟨[], by simp, rfl⟩
  | cons x inputs ih =>
    obtain ⟨hstep, hsteps⟩ := undisturbed_step (s := ⟨manager, fun _ => none⟩)
      (hlan x List.mem_cons_self) rfl
    obtain ⟨steps, hmem, hrest⟩ := ih ((nfCalls config).step manager x).1
      (fun y hy => hlan y (List.mem_cons_of_mem _ hy))
    refine ⟨turnSteps ⟨manager, fun _ => none⟩ x ++ steps, fun y hy => ?_, ?_⟩
    · rcases List.mem_append.mp hy with hy | hy
      · have hyx : y = x := by
          unfold turnSteps at hy
          split at hy <;> simpa using hy
        rw [hyx]
        exact List.mem_cons_self
      · exact List.mem_cons_of_mem _ (hmem y hy)
    · rw [Machine.final_append, hsteps, Machine.final_cons, hstep]
      exact hrest

/-- Two lcores, two flows and a shard with room for one: the second flow is dropped. -/
theorem undisturbed_refines_drop :
    let manager := flowManagerAllocate Memory.zero 1024 0x01010101 2 60000000 1 true
    let inputs := [(0, hostCall 1 5000), (1, hostCall 1 5000), (1, hostCall 2 5001)]
    (undisturbed nfInitConfig).events ⟨manager, fun _ => none⟩ inputs =
        (nfCalls nfInitConfig).events manager inputs ∧
      ((undisturbed nfInitConfig).events ⟨manager, fun _ => none⟩ inputs).map Prod.snd =
        [2, 2, EXPLICIT_DROP] :=
  ⟨(undisturbed_refines nfInitConfig _ _ (by decide)).1, by decide +kernel⟩

end Sequential

/-! ## What a step can do -/

section Steps

variable {start : FlowManager} {s : SharedState} {alloc free : List Int}

/-- The effect of a step on the table: the indices in use stay in use with their keys, at most one
    more is taken, for a pending packet. -/
structure StepSpec (s : SharedState) (lcore : Nat) (alloc free : List Int) (s' : SharedState)
    (event : SharedEvent) (alloc' free' : List Int) : Prop where
  linked : s'.manager.Linked alloc' free'
  params : s'.manager.params = s.manager.params
  kept : ∀ i ∈ alloc, i ∈ alloc' ∧ s'.manager.state.fv i = s.manager.state.fv i
  given : ∀ flow port, event = .given flow port →
    ∃ i ∈ alloc', keyEquals (s'.manager.state.fv i) flow = true ∧ port = portOf s.manager i
  taken : (alloc'.Perm alloc ∧ (s.pending lcore = none ∨ free = [])) ∨
    ∃ i call, s.pending lcore = some call ∧ free = i :: free' ∧ alloc' = alloc ++ [i] ∧
      s'.manager.state.fv = Function.update s.manager.state.fv i call.flowId

theorem sharedStep_spec (h : s.manager.Linked alloc free) (lcore : Nat) (call : NfCall) :
    ∃ alloc' free', StepSpec s lcore alloc free (sharedStep s lcore call).1
      (sharedStep s lcore call).2 alloc' free' := by
  unfold sharedStep
  cases hp : s.pending lcore with
  | none =>
    rcases getInternal_spec h call.flowId call.now with ⟨i, hi, he, hget⟩ | ⟨-, hget⟩
    · simp only [hget]
      obtain ⟨alloc', hperm, hl⟩ := rejuvenate_linked h hi call.now
      refine ⟨alloc', free, hl, rfl, ?_, ?_, Or.inl ⟨hperm, Or.inl hp⟩⟩
      · intro i' hi'
        exact ⟨hperm.mem_iff.mpr hi', rfl⟩
      · rintro flow port hev
        obtain ⟨rfl, rfl⟩ := SharedEvent.given.inj hev
        exact ⟨i, hperm.mem_iff.mpr hi, he, rfl⟩
    · simp only [hget]
      refine ⟨alloc, free, h, rfl, fun i hi => ⟨hi, rfl⟩, ?_,
        Or.inl ⟨List.Perm.refl _, Or.inl hp⟩⟩
      rintro flow port hev
      cases hev
  | some owed =>
    cases free with
    | nil =>
      simp only [allocateFlow_full h]
      refine ⟨alloc, [], h, rfl, fun i hi => ⟨hi, rfl⟩, ?_,
        Or.inl ⟨List.Perm.refl _, Or.inr rfl⟩⟩
      rintro flow port hev
      cases hev
    | cons i free =>
      obtain ⟨manager', hrun, hfv, hparams, hl⟩ :=
        allocateFlow_linked h owed.flowId owed.device owed.now
      simp only [hrun]
      have hnew : i ∉ alloc := fun hi => h.disjoint hi List.mem_cons_self
      refine ⟨alloc ++ [i], free, hl, hparams, ?_, ?_, Or.inr ⟨i, owed, hp, rfl, rfl, hfv⟩⟩
      · intro i' hi'
        have hne : i' ≠ i := fun he => hnew (he ▸ hi')
        exact ⟨List.mem_append_left _ hi', by rw [hfv, Function.update_of_ne hne]⟩
      · rintro flow port hev
        obtain ⟨rfl, rfl⟩ := SharedEvent.given.inj hev
        refine ⟨i, List.mem_append_right _ List.mem_cons_self, ?_, rfl⟩
        rw [hfv, Function.update_self]
        exact keys_lawful.refl _

/-- The keys of the indices in use are different. -/
def Distinct (manager : FlowManager) (alloc : List Int) : Prop :=
  ∀ a ∈ alloc, ∀ b ∈ alloc,
    keyEquals (manager.state.fv a) (manager.state.fv b) = true → a = b

/-- A step keeps the keys different exactly if the packet it allocates for has a new one. -/
theorem StepSpec.distinct_iff {lcore : Nat} {s' : SharedState} {event : SharedEvent}
    {alloc' free' : List Int} (hs : StepSpec s lcore alloc free s' event alloc' free')
    (h : s.manager.Linked alloc free) (hd : Distinct s.manager alloc) :
    Distinct s'.manager alloc' ↔ ∀ call, s.pending lcore = some call → free = [] ∨
      ∀ a ∈ alloc, keyEquals (s.manager.state.fv a) call.flowId = false := by
  rcases hs.taken with ⟨hperm, hwhy⟩ | ⟨i, owed, hp, rfl, rfl, hfv⟩
  · refine iff_of_true ?_ ?_
    · intro a ha b hb he
      rw [hperm.mem_iff] at ha hb
      rw [(hs.kept a ha).2, (hs.kept b hb).2] at he
      exact hd a ha b hb he
    · intro call hcall
      rcases hwhy with hidle | hfull
      · rw [hidle] at hcall
        cases hcall
      · exact Or.inl hfull
  · have hi : i ∉ alloc := fun hi => h.disjoint hi List.mem_cons_self
    constructor
    · intro hd' call hcall
      rw [hp] at hcall
      cases hcall
      refine Or.inr (fun a ha => ?_)
      by_contra hne
      have hkey : keyEquals (s'.manager.state.fv a) (s'.manager.state.fv i) = true := by
        rw [(hs.kept a ha).2, hfv, Function.update_self]
        exact (Bool.not_eq_false _).mp hne
      have hai : a = i :=
        hd' a (List.mem_append_left _ ha) i (List.mem_append_right _ List.mem_cons_self) hkey
      exact hi (hai ▸ ha)
    · intro hfresh
      have hnew : ∀ a ∈ alloc, keyEquals (s.manager.state.fv a) owed.flowId = false := by
        rcases hfresh owed hp with hnil | hnew
        · cases hnil
        · exact hnew
      unfold Distinct
      rw [hfv]
      exact distinct_insert keys_lawful hd hi hnew

end Steps

/-! ## Runs -/

def sharedStart (manager : FlowManager) : SharedState := ⟨manager, fun _ => none⟩

/-- What holds on every run: each port given belongs to an index in use whose key equals the flow. -/
structure SharedInv (start : FlowManager) (events : List SharedEvent) (s : SharedState)
    (alloc free : List Int) : Prop where
  linked : s.manager.Linked alloc free
  params : s.manager.params = start.params
  given : ∀ flow port, .given flow port ∈ events →
    ∃ i ∈ alloc, keyEquals (s.manager.state.fv i) flow = true ∧ port = portOf start i

/-- The lcore does not owe the allocation of a flow whose key is in the table by now, unless the
    table is full. -/
def Fresh (s : SharedState) (lcore : Nat) : Prop :=
  ∀ call, s.pending lcore = some call → s.manager.live = s.manager.state.maxFlows.toNat ∨
    ∀ i, s.manager.Allocated i → keyEquals (s.manager.state.fv i) call.flowId = false

section Runs

variable {start : FlowManager} {s : SharedState} {events : List SharedEvent}
  {alloc free : List Int}

theorem SharedInv.step (h : SharedInv start events s alloc free) {lcore : Nat} {s' : SharedState}
    {event : SharedEvent} {alloc' free' : List Int}
    (hs : StepSpec s lcore alloc free s' event alloc' free') :
    SharedInv start (events ++ [event]) s' alloc' free' := by
  refine ⟨hs.linked, hs.params.trans h.params, ?_⟩
  intro flow port hm
  rcases List.mem_append.mp hm with hm | hm
  · obtain ⟨i, hi, hkey, hport⟩ := h.given flow port hm
    exact ⟨i, (hs.kept i hi).1, by rw [(hs.kept i hi).2, hkey], hport⟩
  · obtain ⟨i, hi, hkey, hport⟩ := hs.given flow port (List.mem_singleton.mp hm).symm
    exact ⟨i, hi, hkey, hport.trans (portOf_params h.params i)⟩

theorem fresh_iff (h : s.manager.Linked alloc free) (lcore : Nat) :
    Fresh s lcore ↔ ∀ call, s.pending lcore = some call → free = [] ∨
      ∀ a ∈ alloc, keyEquals (s.manager.state.fv a) call.flowId = false := by
  unfold Fresh
  simp only [linked_live h, h.full_iff, linked_mem_iff h]

theorem shared_run {free : List Int} (h0 : start.Coherent [] free) :
    ∀ inputs : List (Nat × NfCall), ∃ alloc free,
      SharedInv start (natShared.events (sharedStart start) inputs)
        (natShared.final (sharedStart start) inputs) alloc free ∧
      (natShared.Along (fun s x => Fresh s x.1) (sharedStart start) inputs →
        Distinct (natShared.final (sharedStart start) inputs).manager alloc) := by
  intro inputs
  induction inputs using List.reverseRecOn with
  | nil => exact ⟨[], free, ⟨h0.linked, rfl, by simp [Machine.events]⟩, fun _ a ha => by cases ha⟩
  | append_singleton inputs x ih =>
    obtain ⟨alloc, free, h, hd⟩ := ih
    obtain ⟨alloc', free', hs⟩ := sharedStep_spec h.linked x.1 x.2
    rw [Machine.events_snoc, Machine.final_snoc]
    refine ⟨alloc', free', h.step hs, ?_⟩
    intro hfresh
    obtain ⟨hbefore, hx⟩ := (Machine.along_snoc natShared).mp hfresh
    exact (hs.distinct_iff h.linked (hd hbefore)).mpr ((fresh_iff h.linked x.1).mp hx)

end Runs

/-! ## No flow twice -/

/-- No two indices hold equal keys, the map has one entry for each index, and the packets of a flow
    were all given one port. -/
structure FlowsOnce (start : FlowManager) (inputs : List (Nat × NfCall)) : Prop where
  distinct : ∀ i i', (natShared.final (sharedStart start) inputs).manager.Allocated i →
    (natShared.final (sharedStart start) inputs).manager.Allocated i' →
    keyEquals ((natShared.final (sharedStart start) inputs).manager.state.fv i)
      ((natShared.final (sharedStart start) inputs).manager.state.fv i') = true → i = i'
  entries : ∀ i, (natShared.final (sharedStart start) inputs).manager.Allocated i →
    ∃! j, (natShared.final (sharedStart start) inputs).manager.EntryOf i j
  count : (natShared.final (sharedStart start) inputs).manager.entries =
    (natShared.final (sharedStart start) inputs).manager.live
  ports : ∀ flow port port',
    .given flow port ∈ natShared.events (sharedStart start) inputs →
    .given flow port' ∈ natShared.events (sharedStart start) inputs → port = port'

theorem flowsOnce_of_distinct {start : FlowManager} {inputs : List (Nat × NfCall)}
    {alloc free : List Int}
    (h : SharedInv start (natShared.events (sharedStart start) inputs)
      (natShared.final (sharedStart start) inputs) alloc free)
    (hd : Distinct (natShared.final (sharedStart start) inputs).manager alloc) :
    FlowsOnce start inputs := by
  have hagrees := coherent_agrees (show FlowManager.Coherent _ alloc free from ⟨h.linked, hd⟩)
  refine ⟨hagrees.distinct, ?_, hagrees.entries_eq, ?_⟩
  · intro i hi
    exact (hagrees.allocated_iff i hi.1.1 hi.1.2).mp hi.2
  · intro flow port port' hm hm'
    obtain ⟨i, hi, hkey, hport⟩ := h.given flow port hm
    obtain ⟨i', hi', hkey', hport'⟩ := h.given flow port' hm'
    have hii : i = i' := by
      apply hd i hi i' hi'
      simp only [keyEquals, beq_iff_eq] at hkey hkey' ⊢
      rw [hkey, hkey']
    rw [hport, hport', hii]

/-- **Shared mode keeps every flow once**, in all states of a run, exactly if every allocation in it
    finds no equal key in the table, or no room. -/
theorem shared_flows_iff (memory : Memory) (startingPort : UInt16) (natIp : UInt32)
    (natDevice : UInt16) (expirationTime : UInt32) (maxFlows : UInt64)
    (hm : 1 ≤ maxFlows.toNat ∧ maxFlows.toNat ≤ 65535) (inputs : List (Nat × NfCall)) :
    let start := flowManagerAllocate memory startingPort natIp natDevice expirationTime maxFlows true
    (∀ ys zs, inputs = ys ++ zs → FlowsOnce start ys) ↔
      natShared.Along (fun s x => Fresh s x.1) (sharedStart start) inputs := by
  intro start
  have hcast := maxFlows_cast hm.2
  have h0 : start.Coherent [] _ := allocate_coherent memory startingPort natIp natDevice
    expirationTime true (by omega)
  constructor
  · rintro hall ys ⟨lcore, next⟩ zs hsplit
    obtain ⟨alloc, free, h, -⟩ := shared_run h0 ys
    obtain ⟨alloc', free', hs⟩ := sharedStep_spec h.linked lcore next
    have hbefore := hall ys ((lcore, next) :: zs) hsplit
    have hafter := hall (ys ++ [(lcore, next)]) zs (by rw [hsplit]; simp)
    have hd := hafter.distinct
    rw [Machine.final_snoc] at hd
    rw [fresh_iff h.linked]
    refine (hs.distinct_iff h.linked ?_).mp ?_
    · intro a ha b hb
      exact hbefore.distinct a b ((linked_mem_iff h.linked a).mp ha)
        ((linked_mem_iff h.linked b).mp hb)
    · intro a ha b hb
      exact hd a b ((linked_mem_iff hs.linked a).mp ha) ((linked_mem_iff hs.linked b).mp hb)
  · intro hfresh ys zs hsplit
    obtain ⟨alloc, free, h, hd⟩ := shared_run h0 ys
    refine flowsOnce_of_distinct h (hd ?_)
    intro us x vs hus
    apply hfresh us x (vs ++ zs)
    rw [hsplit, hus]
    simp

/-- Two lcores with the first packets of two flows, step by step in turn. -/
def twoFlowLcores : List (Nat × NfCall) :=
  [(0, hostCall 1 5000), (1, hostCall 2 5001), (0, hostCall 1 5000), (1, hostCall 2 5001)]

theorem shared_flows_undisturbed :
    FlowsOnce (flowManagerAllocate Memory.zero 1024 0x01010101 2 60000000 2 true) twoFlowLcores := by
  refine (shared_flows_iff Memory.zero 1024 0x01010101 2 60000000 2 ⟨by decide, by decide⟩
    twoFlowLcores).mpr ?_ _ [] (List.append_nil _).symm
  have htwo : ∀ i : Int, 0 ≤ i → i < 2 → i = 0 ∨ i = 1 := by
    intro i h0 h1
    omega
  refine forall_split_cons.mpr ⟨?_, forall_split_cons.mpr ⟨?_, forall_split_cons.mpr ⟨?_,
    forall_split_cons.mpr ⟨?_, forall_split_nil⟩⟩⟩⟩ <;> intro call hcall
  · cases hcall
  · have hidle : (natShared.final (sharedStart (flowManagerAllocate Memory.zero 1024 0x01010101 2
        60000000 2 true)) (twoFlowLcores.take 1)).pending 1 = none := rfl
    cases hidle.symm.trans hcall
  · -- the first allocation: nothing is in the table yet
    right
    rintro i ⟨⟨h0, h1⟩, ha⟩
    rcases htwo i h0 h1 with rfl | rfl
    · exact absurd ha (by decide +kernel)
    · exact absurd ha (by decide +kernel)
  · -- the second one: the other flow is in the table
    right
    have hpending : (natShared.final (sharedStart (flowManagerAllocate Memory.zero 1024 0x01010101 2
        60000000 2 true)) (twoFlowLcores.take 3)).pending 1 = some (hostCall 2 5001) := rfl
    cases hpending.symm.trans hcall
    rintro i ⟨⟨h0, h1⟩, ha⟩
    rcases htwo i h0 h1 with rfl | rfl
    · decide +kernel
    · exact absurd ha (by decide +kernel)

/-- Two lcores with the first packets of one flow: both look it up in vain, then both allocate it. -/
def racingLcores : List (Nat × NfCall) :=
  [(0, hostCall 1 5000), (1, hostCall 1 5000), (0, hostCall 1 5000), (1, hostCall 1 5000)]

theorem shared_flow_twice :
    ¬FlowsOnce (flowManagerAllocate Memory.zero 1024 0x01010101 2 60000000 2 true) racingLcores := by
  intro h
  have hports := h.ports (hostCall 1 5000).flowId 1024 1025 (by decide +kernel) (by decide +kernel)
  cases hports

end QueueDpdk.NatFlow
