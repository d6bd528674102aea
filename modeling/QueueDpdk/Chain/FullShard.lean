import QueueDpdk.Chain.Calls
import QueueDpdk.NatFlow.Use

/-!
# Full shards (`nf-chain/src/nf.h`, `nf-chain/src/nat_main.c`)

`nf.h` says of `drop_full` that it "drops packets of new flows when a shard is full instead of
forwarding them untranslated".

* `nfProcess_fullMiss`, `nfProcess_sameKey` — what becomes of a packet of a new flow in a full shard,
  if the table holds no flow with an equal key, and if it does.
* `FullShardPromise` — what `nf.h` says of such packets, up to their transmission.
* `full_shard_iff` — it holds only where these packets are not sent on at all, or look translated
  when they arrive.
-/

set_option autoImplicit false

namespace QueueDpdk.Chain

open Lib LibVig PollLoop NatFlow

/-! ## Packets -/

/-- A packet from the LAN that finds all indices of its shard allocated, none to its flow. -/
structure NatCall.FullMiss (c : ChainCfg) (n : NatCall) : Prop where
  reachable : ReachableShard n.flowManager
  others : Used n.flowManager (n.between n.flowManager)
  lan : n.call.device ≠ c.nat.wanDevice
  full : n.flowManager.live = n.flowManager.state.maxFlows.toNat
  absent : ∀ i, n.flowManager.Allocated i → n.flowManager.state.fv i ≠ n.call.flowId

/-- The table holds another flow with an equal key. -/
def NatCall.KeyTaken (n : NatCall) : Prop :=
  ∃ i, n.flowManager.Allocated i ∧ keyEquals (n.flowManager.state.fv i) n.call.flowId = true

/-- The index that `map_get` finds for the packet. -/
def NatCall.mapIndex (n : NatCall) : Option Int :=
  mapGet n.flowManager.state.fv keyEquals keyHash n.flowManager.state.fm n.call.flowId

/-- The shard as the other lcores would leave it: they come between only if the lookup fails. -/
def NatCall.undisturbed (n : NatCall) : FlowManager :=
  if n.mapIndex = none then n.between n.flowManager else n.flowManager

/-- The packet comes from where translation makes it come from: from the external address and, if the
    lookup fails, from the port that the variable for it happens to hold.  If it succeeds, the port
    is that of the flow found, which was the last one used, at the time of the packet. -/
def NatCall.LooksTranslated (c : ChainCfg) (n : NatCall) : Prop :=
  n.call.ipSrc = c.nat.externalAddr ∧
    match n.mapIndex with
    | none => n.call.portSrc = n.call.staleExternalPort
    | some i => n.call.portSrc = portOf n.flowManager i ∧
        n.flowManager.state.heap.timestamps i = n.call.now ∧ n.flowManager.Youngest i

section Calls

variable {c : ChainCfg} {n : NatCall}

/-- The lookup finds a flow with an equal key, if there is one. -/
theorem mapIndex_cases (h : ReachableShard n.flowManager) :
    (n.KeyTaken ∧ ∃ i, n.mapIndex = some i ∧ n.flowManager.Allocated i) ∨
      (¬n.KeyTaken ∧ n.mapIndex = none) := by
  obtain ⟨alloc, free, hl⟩ := h.linked
  rcases hl.lookup keys_lawful n.call.flowId with ⟨i, hi, hget, hkey⟩ | ⟨hget, hno⟩
  · have halloc := (linked_mem_iff hl i).mp hi
    exact Or.inl ⟨⟨i, halloc, hkey⟩, i, hget, halloc⟩
  · refine Or.inr ⟨?_, hget⟩
    rintro ⟨i, hi, hkey⟩
    rw [hno i ((linked_mem_iff hl i).mpr hi)] at hkey
    cases hkey

/-- Without a flow with an equal key the shard is left as the other lcores made it.  The packet is
    dropped or, with `drop_full` clear, gets the external address and a port nobody set. -/
theorem nfProcess_fullMiss (h : n.FullMiss c) (hindex : n.mapIndex = none) :
    n.result c.burst = (n.undisturbed,
      if c.burst.dropWhenFull then (n.call.payload, EXPLICIT_DROP)
      else (rewriteSrc c.nat n.call.payload n.call.staleExternalPort,
        deviceResult c.nat.wanDevice)) := by
  obtain ⟨alloc, free, hl⟩ := h.reachable.linked
  have hfree : free = [] := by
    have hfull := h.full
    rwa [linked_live hl, hl.full_iff] at hfull
  subst hfree
  obtain ⟨alloc', hl'⟩ := h.others.full hl
  unfold NatCall.undisturbed
  rw [if_pos hindex]
  unfold NatCall.mapIndex at hindex
  unfold NatCall.result nfProcessWith flowManagerGetInternal
  rw [if_neg (show n.call.device ≠ c.burst.nat.wanDevice from h.lan), hindex]
  simp only [allocateFlow_full hl']
  split <;> rfl

/-- With one, the packet is taken for a packet of that flow. -/
theorem nfProcess_sameKey (h : n.FullMiss c) {i : Int} (hindex : n.mapIndex = some i) :
    n.undisturbed = n.flowManager ∧
      n.result c.burst = (n.flowManager.rejuvenate i n.call.now,
        rewriteSrc c.nat n.call.payload (portOf n.flowManager i),
        deviceResult c.nat.wanDevice) := by
  unfold NatCall.undisturbed
  rw [hindex]
  refine ⟨rfl, ?_⟩
  unfold NatCall.mapIndex at hindex
  unfold NatCall.result nfProcessWith flowManagerGetInternal
  rw [if_neg (show n.call.device ≠ c.burst.nat.wanDevice from h.lan), hindex]
  rfl

end Calls

/-- The source of a packet in memory. -/
def source (pkt : Mbuf) : UInt32 × UInt16 := (get32 pkt.data SRC_ADDR, get16 pkt.data SRC_PORT)

section Packets

variable {c : ChainCfg} {s : ChainState} {x : ChainInput} {q : Int} {n : NatCall}

/-- A call is told the source of the packet as it was received. -/
theorem natCalls_source (hn : n ∈ s.natCalls c q x) :
    (n.call.ipSrc, n.call.portSrc) = source (s.receive x n.mbuf) := by
  obtain ⟨-, p, -, -, hcall, -⟩ := natCalls_spec hn
  rw [hcall]
  exact Prod.ext (get32_prepared _ (by decide)) (get16_prepared _ (by decide))

/-- A rewritten packet comes from the external address. -/
theorem sent_source (hn : n ∈ s.natCalls c q x) {port : UInt16}
    (hresult : (n.result c.burst).2.1 = rewriteSrc c.nat n.call.payload port) :
    source ((s.process c q x).1.heap n.mbuf) = (c.nat.externalAddr, port) := by
  obtain ⟨-, p, -, -, -, hdata⟩ := natCalls_spec hn
  rw [source, hdata, hresult, rewriteSrc_addr, rewriteSrc_port]

/-- **One packet, not to be dropped**: it leaves untranslated, and the shard to the others, exactly
    if it looks translated. -/
theorem untranslated_iff (hn : n ∈ s.natCalls c q x) (h : n.FullMiss c)
    (hdrop : c.burst.dropWhenFull = false) :
    ((n.result c.burst).1 = n.undisturbed ∧
      source ((s.process c q x).1.heap n.mbuf) = source (s.receive x n.mbuf)) ↔
        n.LooksTranslated c := by
  rw [← natCalls_source hn]
  unfold NatCall.LooksTranslated
  rcases mapIndex_cases h.reachable with ⟨-, i, hindex, hi⟩ | ⟨-, hindex⟩
  · obtain ⟨hshard, hresult⟩ := nfProcess_sameKey h hindex
    obtain ⟨alloc, free, hl⟩ := h.reachable.linked
    rw [sent_source hn (by rw [hresult]), hresult, hshard, hindex,
      rejuvenate_eq_iff hl ((linked_mem_iff hl i).mpr hi)]
    constructor
    · rintro ⟨hlast, hsource⟩
      obtain ⟨haddr, hport⟩ := Prod.mk.inj hsource
      exact ⟨haddr.symm, hport.symm, hlast⟩
    · rintro ⟨haddr, hport, hlast⟩
      rw [haddr, hport]
      exact ⟨hlast, rfl⟩
  · have hresult := nfProcess_fullMiss h hindex
    rw [hdrop, if_neg (by decide)] at hresult
    rw [sent_source hn (by rw [hresult]), hresult, hindex]
    constructor
    · rintro ⟨-, hsource⟩
      obtain ⟨haddr, hport⟩ := Prod.mk.inj hsource
      exact ⟨haddr.symm, hport.symm⟩
    · rintro ⟨haddr, hport⟩
      rw [haddr, hport]
      exact ⟨rfl, rfl⟩

end Packets

/-! ## Runs -/

/-- **What `nf.h` promises** of packets of new flows in a full shard: they are dropped or forwarded
    untranslated, and leave the shard to the others. -/
def FullShardPromise (c : ChainCfg) (s : ChainState) (inputs : List ChainInput) : Prop :=
  (chainLoop c).Along (fun s' x => ∀ q, s'.polls c x = some q → ∀ n ∈ s'.natCalls c q x,
    n.FullMiss c →
      (n.result c.burst).1 = n.undisturbed ∧
      (c.burst.dropWhenFull = true →
        (n.result c.burst).2.1 = n.call.payload ∧ .offered n.mbuf ∉ mbufTrace c s inputs) ∧
      (c.burst.dropWhenFull = false →
        .offered n.mbuf ∈ mbufTrace c s inputs ∧
          source ((s'.process c q x).1.heap n.mbuf) = source (s'.receive x n.mbuf))) s inputs

/-- Packets of new flows in a full shard, if they should be dropped, have a key of their own and are
    in a burst that a stop packet ends; if not, they are not in such a burst and look translated. -/
def FullShardSpared (c : ChainCfg) (s : ChainState) (x : ChainInput) : Prop :=
  ∀ q, s.polls c x = some q → ∀ n ∈ s.natCalls c q x, n.FullMiss c →
    (c.burst.dropWhenFull = true → s.stops c q x ∧ ¬n.KeyTaken) ∧
    (c.burst.dropWhenFull = false → ¬s.stops c q x ∧ n.LooksTranslated c)

theorem dropWhenFull_single {c : ChainCfg} (h : c.burst.dropWhenFull = false) :
    c.loop.mode = .single := by
  by_contra hne
  have hdrop : c.burst.dropWhenFull = true := decide_eq_true hne
  rw [h] at hdrop
  cases hdrop

section Runs

variable (c : ChainCfg) (heap : Heap) (shards : Nat → FlowManager) (inputs : List ChainInput)

/-- **The promise about full shards** is kept on every run in which packets of new flows in full
    shards are spared; and on a run in Single mode or up to the end of a sweep, only if they are. -/
theorem full_shard_iff :
    ((chainLoop c).Along (FullShardSpared c) (.init c heap shards) inputs →
      FullShardPromise c (.init c heap shards) inputs) ∧
    ((c.loop.mode = .single ∨ Complete c (.init c heap shards) inputs) →
      FullShardPromise c (.init c heap shards) inputs →
      (chainLoop c).Along (FullShardSpared c) (.init c heap shards) inputs) := by
  constructor
  · intro hall ys x zs hsplit q hq n hn hmiss
    obtain ⟨hset, hclear⟩ := hall ys x zs hsplit q hq n hn hmiss
    have hm := (natCalls_spec hn).1
    cases hdrop : c.burst.dropWhenFull with
    | true =>
      obtain ⟨hstop, hfree⟩ := hset hdrop
      have hindex := ((mapIndex_cases hmiss.reachable).resolve_left (fun h => hfree h.1)).2
      have hresult := nfProcess_fullMiss hmiss hindex
      rw [if_pos hdrop] at hresult
      refine ⟨by rw [hresult], fun _ => ⟨by rw [hresult], ?_⟩, fun h => by cases h⟩
      exact (stopped_burst_kept (by simp [ChainState.init]) inputs ys x zs hsplit q hq hstop
        n.mbuf hm).1
    | false =>
      obtain ⟨hstop, hlooks⟩ := hclear hdrop
      obtain ⟨hshard, hsource⟩ := (untranslated_iff hn hmiss hdrop).mpr hlooks
      refine ⟨hshard, (fun h => by cases h), fun _ => ⟨?_, hsource⟩⟩
      exact offered_of_sent heap shards inputs (Or.inl (dropWhenFull_single hdrop)) ys x zs hsplit
        q hq hstop n.mbuf hm
  · intro hend h ys x zs hsplit q hq n hn hmiss
    obtain ⟨hshard, hset, hclear⟩ := h ys x zs hsplit q hq n hn hmiss
    have hm := (natCalls_spec hn).1
    refine ⟨fun hdrop => ?_, fun hdrop => ⟨fun hstop => ?_, ?_⟩⟩
    · -- the sweep has ended, so the burst was sent on
      have hcomplete := hend.resolve_left (fun hmode => by simp [BurstCfg.dropWhenFull,
        ChainCfg.burst, hmode] at hdrop)
      have hsent := complete_sent hcomplete ys x zs hsplit q hq
      exact absurd (offered_of_sent heap shards inputs hend ys x zs hsplit q hq hsent n.mbuf hm)
        (hset hdrop).2
    · exact (stopped_burst_kept (by simp [ChainState.init]) inputs ys x zs hsplit q hq hstop
        n.mbuf hm).1 (hclear hdrop).1
    · exact (untranslated_iff hn hmiss hdrop).mp ⟨hshard, (hclear hdrop).2⟩

end Runs

/-- One lcore of Single mode, and a shard with room for one flow. -/
def ChainState.oneFlow : ChainState :=
  .init (.oneQueue .single (fun _ _ => 1)) (fun _ => ⟨0, 0, fun _ => 0⟩)
    (fun _ => flowManagerAllocate Memory.zero 1024 0x01010101 2 60000000 1 false)

/-- A packet that comes from the external address, and from the port that `external_port` happens to
    hold. -/
def sparedInput : ChainInput :=
  ⟨true, [⟨udpPacket 0x01010101 2 7 53, ⟨1, 7, 0, fun m => m, fun m => m⟩⟩], 1⟩

/-- A packet that takes the shard, then one of a new flow. -/
def sparedPackets : List ChainInput :=
  [⟨true, [⟨udpPacket 1 2 5000 53, ⟨0, 0, 0, fun m => m, fun m => m⟩⟩], 1⟩, ⟨true, [], 0⟩,
    sparedInput]

theorem sparedPackets_spared : (chainLoop (.oneQueue .single (fun _ _ => 1))).Along
    (FullShardSpared (.oneQueue .single (fun _ _ => 1))) .oneFlow sparedPackets := by
  refine (Machine.along_cons _).mpr ⟨?_, (Machine.along_cons _).mpr ⟨?_, (Machine.along_cons _).mpr
    ⟨?_, Machine.along_nil _ _ _⟩⟩⟩ <;> intro q hq n hn hmiss
  · -- the shard has room yet
    have hpoll : ChainState.oneFlow.polls (.oneQueue .single (fun _ _ => 1)) sparedPackets[0] =
        some 0 := by decide +kernel
    cases hpoll.symm.trans hq
    rw [natCalls_one rfl hn] at hmiss
    exact absurd hmiss.full (by decide +kernel)
  · have hpoll : ((chainLoop (.oneQueue .single (fun _ _ => 1))).final .oneFlow
        (sparedPackets.take 1)).polls (.oneQueue .single (fun _ _ => 1)) sparedPackets[1] = none := by
      decide +kernel
    cases hpoll.symm.trans hq
  · have hpoll : ((chainLoop (.oneQueue .single (fun _ _ => 1))).final .oneFlow
        (sparedPackets.take 2)).polls (.oneQueue .single (fun _ _ => 1)) sparedInput =
          some 0 := by decide +kernel
    cases hpoll.symm.trans hq
    have hcall := natCalls_one rfl hn
    have hindex : n.mapIndex = none := by
      rw [hcall]
      decide +kernel
    refine ⟨(fun hdrop => by cases hdrop), fun _ => ⟨?_, ?_, ?_⟩⟩
    · unfold ChainState.stops
      decide +kernel
    · rw [hcall]
      decide +kernel
    · rw [hindex, hcall]
      decide +kernel

theorem full_shard_spared :
    FullShardPromise (.oneQueue .single (fun _ _ => 1)) .oneFlow sparedPackets :=
  (full_shard_iff (.oneQueue .single (fun _ _ => 1)) (fun _ => ⟨0, 0, fun _ => 0⟩)
    (fun _ => flowManagerAllocate Memory.zero 1024 0x01010101 2 60000000 1 false)
    sparedPackets).1 sparedPackets_spared

/-- A packet of a second flow, in a shard of one flow that has dropped packets when full. -/
theorem full_shard_sent :
    ¬FullShardPromise (.oneQueue .shared (fun _ _ => 1))
      (.init (.oneQueue .shared (fun _ _ => 1)) (fun _ => ⟨0, 0, fun _ => 0⟩)
        (fun _ => oneFlowSession.manager)) (onePacket ipv4Packet 1) := by
  intro h
  let c := ChainCfg.oneQueue .shared (fun _ _ => 1)
  let s := ChainState.init c (fun _ => ⟨0, 0, fun _ => 0⟩) (fun _ => oneFlowSession.manager)
  let x : ChainInput := ⟨true, [⟨ipv4Packet, ⟨0, 0, 0, fun m => m, fun m => m⟩⟩], 1⟩
  have hpoll : s.polls c x = some 0 := by decide +kernel
  have hcall := first_natCall (c := c) (q := 0) (s := s) (x := x) rfl (by decide +kernel)
  have hused : ReachableShard oneFlowSession.manager :=
    let id : FlowId := ⟨5000, 80, 0x0A000001, 0x08080808, 0, 6⟩
    ⟨Memory.zero, 1024, 0x01010101, 2, 60000000, true, 1, by decide, by decide,
      .allocateFlow id 0 7 (.getInternal id 7 .refl)⟩
  have honly : ∀ i, oneFlowSession.manager.Allocated i → i = 0 := by
    rintro i ⟨⟨h0, h1⟩, -⟩
    have hmax : oneFlowSession.manager.state.maxFlows.toNat = 1 := by decide +kernel
    omega
  obtain ⟨-, hset, -⟩ := h [] x _ rfl 0 hpoll _ hcall ⟨hused, .refl, by decide, by decide +kernel,
    fun i hi => by
      obtain rfl := honly i hi
      decide +kernel⟩
  exact (hset rfl).2 (by decide +kernel)

end QueueDpdk.Chain
