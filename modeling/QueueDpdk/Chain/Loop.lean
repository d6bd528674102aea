import QueueDpdk.Chain.Burst
import QueueDpdk.PollLoop.Sched

/-!
# The polling loop of the chain (`nf-chain/src/main.c`)

The scheduler of `PollLoop.Sched` with what `poll_loop` does to the packets of each poll: access
control list, address translation, sketch, verdicts, transmission.  Mbufs are numbered in the order
in which they are received, so every received mbuf is a fresh one.

* `processBurst`, `chainStep` — one poll, and one step of the loop.
* `chainLoop_schedule` — the packets do not change the schedule: which queue is polled when depends
  on the locks and the sizes of the bursts alone.
* `chainStep_cases` — all that a step can do to the packets.
* `batch_single`, `known_run`, `burst_covered` — what holds on every run: the batch is empty in
  Single mode, mbufs are known only once received, and none is forgotten.
-/

set_option autoImplicit false

namespace QueueDpdk.Chain

open Lib PollLoop NatFlow

/-- The constants of one lcore.  `portOf` is the port polled at a loop index. -/
structure ChainCfg where
  loop : LoopCfg
  lcorePos : Nat
  portOf : Int → UInt16
  nat : NfConfig
  xxhash64 : Hash64
  classify : Classifier

/-- A packet as `rte_eth_rx_burst` delivers it, and what it will meet in `nf_process`. -/
structure Packet where
  mbuf : Mbuf
  env : NatEnv

/-- What the environment decides in a step: the trylock, the packets received and how many of the
    mbufs offered to the card it takes. -/
structure ChainInput where
  lock : Bool
  packets : List Packet
  nbTx : Nat

def ChainInput.poll (x : ChainInput) : PollInput := ⟨x.lock, x.packets.length⟩

/-- The state of one lcore; `stopped` once `poll_loop` has returned. -/
structure ChainState where
  loop : LoopState
  txBatch : List Nat
  heap : Heap
  shards : Nat → FlowManager
  cms : CountMin
  nextMbuf : Nat
  stopped : Bool

def ChainState.init (c : ChainCfg) (heap : Heap) (shards : Nat → FlowManager) : ChainState :=
  ⟨.init c.loop, [], heap, shards, fun _ _ => 0, 0, false⟩

/-- One lcore with one queue, on a port of the LAN. -/
def ChainCfg.oneQueue (mode : QflowMode) (classify : Classifier) : ChainCfg :=
  { loop := .ofOpts { qflowOptsInit with mode := mode } 0 1 LoopCfg.zero_nonneg (fun _ => rfl)
    lcorePos := 0
    portOf := fun _ => 1
    nat := nfInitConfig
    xxhash64 := fun _ _ => 0
    classify := classify }

/-- Its state after `nf_init`, with mbufs full of zeros. -/
def ChainState.oneQueue (mode : QflowMode) (classify : Classifier) : ChainState :=
  .init (.oneQueue mode classify) (fun _ => ⟨0, 0, fun _ => 0⟩) (fun _ =>
    flowManagerAllocate Memory.zero nfInitConfig.startPort nfInitConfig.externalAddr
      nfInitConfig.wanDevice nfInitConfig.expirationTime nfInitConfig.maxFlows.toUInt64
      (decide (mode = .shared)))

/-- A poll that receives one packet, with no other lcore about; then the end of the sweep. -/
def onePacket (pkt : Mbuf) (nbTx : Nat) : List ChainInput :=
  [⟨true, [⟨pkt, ⟨0, 0, 0, fun m => m, fun m => m⟩⟩], nbTx⟩, ⟨true, [], nbTx⟩]

/-- An IPv4 packet from 10.0.0.1 to 10.0.0.2 without payload. -/
def ipv4Packet : Mbuf :=
  ⟨0, 60, fun k => [0, 0, 0, 0, 0, 0, 0, 0, 0, 0, 0, 0, 8, 0, 0x45, 0, 0, 20, 0, 0, 0, 0, 64, 0, 0, 0,
    10, 0, 0, 1, 10, 0, 0, 2].getD k 0⟩

/-- The same with other addresses, and with ports behind the header. -/
def udpPacket (src dst : UInt32) (srcPort dstPort : UInt16) : Mbuf :=
  { ipv4Packet with data := set16 (set16 (set32 (set32 ipv4Packet.data SRC_ADDR src) DST_ADDR dst)
      SRC_PORT srcPort) DST_PORT dstPort }

/-- What a step does: to the schedule, to the mbufs, and which results the classifier gave. -/
structure ChainEvent where
  poll : Option PollEvent
  mbufs : List MbufEvent
  verdicts : List (Nat × UInt32)

/-- The shard of a burst: `nf_shard((uint16_t)i)` in Shared mode. -/
def ChainCfg.shard (c : ChainCfg) (q : Int) : Nat :=
  match c.loop.mode with
  | .single => 0
  | .partitioned => c.lcorePos
  | .shared => (q % 65536).toNat

/-- Only shards of Shared mode are touched by other lcores. -/
def ChainCfg.natEnv (c : ChainCfg) (env : NatEnv) : NatEnv :=
  if c.loop.mode = .shared then env else { env with before := fun m => m, between := fun m => m }

def ChainCfg.burst (c : ChainCfg) : BurstCfg := ⟨c.loop.mode, c.nat, c.xxhash64⟩

/-- The mbufs of the next burst. -/
def ChainState.pktsBurst (s : ChainState) (x : ChainInput) : List Nat :=
  List.range' s.nextMbuf x.packets.length

/-- The heap with the packets of the next burst in it. -/
def ChainState.receive (s : ChainState) (x : ChainInput) : Heap := fun m =>
  match if s.nextMbuf ≤ m then x.packets[m - s.nextMbuf]? else none with
  | some p => p.mbuf
  | none => s.heap m

/-- `prepare_acl_parameter` on the burst. -/
def ChainState.prepare (s : ChainState) (x : ChainInput) : Heap × AclSearch × List MbufEvent :=
  prepareAclParameter (s.receive x) (s.pktsBurst x)

/-- `nf_process_burst` on the prepared burst. -/
def ChainState.process (c : ChainCfg) (s : ChainState) (q : Int) (x : ChainInput) :
    BurstState × List MbufEvent × Int :=
  nfProcessBurst c.burst (c.portOf q) ⟨(s.prepare x).1, s.shards (c.shard q), s.cms⟩
    ((s.pktsBurst x).zip (x.packets.map (fun p => c.natEnv p.env)))

/-- The results of the classifier for the burst. -/
def ChainState.verdicts (c : ChainCfg) (s : ChainState) (q : Int) (x : ChainInput) :
    List (Nat × UInt32) :=
  aclClassify c.classify (s.process c q x).1.heap (s.prepare x).2.1

/-- The state after `nf_process_burst`. -/
def ChainState.processed (c : ChainCfg) (s : ChainState) (q : Int) (x : ChainInput) : ChainState :=
  let b := (s.process c q x).1
  { s with
    heap := b.heap
    shards := Function.update s.shards (c.shard q) b.flowManager
    cms := b.cms
    nextMbuf := s.nextMbuf + x.packets.length }

/-- A poll of queue `q`, from `rte_eth_rx_burst` to the transmit block. -/
def processBurst (c : ChainCfg) (s : ChainState) (q : Int) (x : ChainInput) :
    ChainState × List MbufEvent × List (Nat × UInt32) :=
  if x.packets.length = 0 then (s, [], [])
  else
    let received := (s.pktsBurst x).map MbufEvent.received
    let (_, acl, prep) := s.prepare x
    let (_, nat, ret) := s.process c q x
    if ret = 1 then ({ s.processed c q x with stopped := true }, received ++ prep ++ nat, [])
    else
      let looked := (acl.mIpv4 ++ acl.mIpv6).map MbufEvent.used
      let (txBatch, tx) := transmit c.loop.mode s.txBatch (s.pktsBurst x) x.nbTx
      ({ s.processed c q x with txBatch := txBatch }, received ++ prep ++ nat ++ looked ++ tx,
        s.verdicts c q x)

def chainStep (c : ChainCfg) (s : ChainState) (x : ChainInput) : ChainState × ChainEvent :=
  if s.stopped = true then (s, ⟨none, [], []⟩)
  else
    let (loop, e) := PollLoop.step c.loop s.loop x.poll
    match e with
    | .poll q _ _ _ =>
      let (s', mbufs, verdicts) := processBurst c s q x
      ({ s' with loop := loop }, ⟨some e, mbufs, verdicts⟩)
    | .sweepEnd =>
      let (txBatch, tx) := endSweep c.loop.mode s.txBatch x.nbTx
      ({ s with loop := loop, txBatch := txBatch }, ⟨some e, tx, []⟩)
    | _ => ({ s with loop := loop }, ⟨some e, [], []⟩)

/-- One lcore of the chain. -/
def chainLoop (c : ChainCfg) : Machine ChainState ChainInput ChainEvent := ⟨chainStep c⟩

/-- What happened to the mbufs in a run. -/
def mbufTrace (c : ChainCfg) (s : ChainState) (inputs : List ChainInput) : List MbufEvent :=
  ((chainLoop c).events s inputs).flatMap ChainEvent.mbufs

/-- The results of the classifier in a run. -/
def verdictTrace (c : ChainCfg) (s : ChainState) (inputs : List ChainInput) : List (Nat × UInt32) :=
  ((chainLoop c).events s inputs).flatMap ChainEvent.verdicts

/-- The queue a step polls with success. -/
def ChainState.polls (c : ChainCfg) (s : ChainState) (x : ChainInput) : Option Int :=
  if s.stopped = true then none
  else
    match (PollLoop.step c.loop s.loop x.poll).2 with
    | .poll q _ _ _ => some q
    | _ => none

/-- The burst of a poll holds a stop packet. -/
def ChainState.stops (c : ChainCfg) (s : ChainState) (q : Int) (x : ChainInput) : Prop :=
  (s.process c q x).2.2 = 1

/-! ## What a step can do to the packets -/

/-- **The moves of the chain**, as far as packets are concerned. -/
inductive ChainMove (c : ChainCfg) (s : ChainState) (x : ChainInput) (s' : ChainState)
    (e : ChainEvent) : Prop where
  | quiet (hp : s.polls c x = none ∨ x.packets = []) (htx : s'.txBatch = s.txBatch)
      (hnext : s'.nextMbuf = s.nextMbuf) (hstopped : s'.stopped = s.stopped)
      (hpoll : e.poll ≠ some .sweepEnd) (hm : e.mbufs = []) (hv : e.verdicts = [])
  | sweepEnd (hp : s.polls c x = none)
      (htx : s'.txBatch = (endSweep c.loop.mode s.txBatch x.nbTx).1)
      (hnext : s'.nextMbuf = s.nextMbuf) (hstopped : s'.stopped = s.stopped)
      (hm : e.mbufs = (endSweep c.loop.mode s.txBatch x.nbTx).2) (hv : e.verdicts = [])
  | stop (q : Int) (hp : s.polls c x = some q) (hstop : s.stops c q x)
      (htx : s'.txBatch = s.txBatch) (hnext : s'.nextMbuf = s.nextMbuf + x.packets.length)
      (hpoll : e.poll ≠ some .sweepEnd)
      (hm : e.mbufs = (s.pktsBurst x).map MbufEvent.received ++ (s.prepare x).2.2 ++
        (s.process c q x).2.1) (hv : e.verdicts = [])
  | sent (q : Int) (hp : s.polls c x = some q) (hstop : ¬s.stops c q x)
      (htx : s'.txBatch = (transmit c.loop.mode s.txBatch (s.pktsBurst x) x.nbTx).1)
      (hnext : s'.nextMbuf = s.nextMbuf + x.packets.length) (hstopped : s'.stopped = s.stopped)
      (hpoll : e.poll ≠ some .sweepEnd)
      (hm : e.mbufs = (s.pktsBurst x).map MbufEvent.received ++ (s.prepare x).2.2 ++
        (s.process c q x).2.1 ++
        ((s.prepare x).2.1.mIpv4 ++ (s.prepare x).2.1.mIpv6).map MbufEvent.used ++
        (transmit c.loop.mode s.txBatch (s.pktsBurst x) x.nbTx).2)
      (hv : e.verdicts = s.verdicts c q x)

theorem chainStep_cases (c : ChainCfg) (s : ChainState) (x : ChainInput) :
    ChainMove c s x (chainStep c s x).1 (chainStep c s x).2 := by
  have hpolls : ∀ e, (PollLoop.step c.loop s.loop x.poll).2 = e → s.stopped ≠ true →
      s.polls c x = match e with
        | .poll q _ _ _ => some q
        | _ => none := by
    intro e he hs
    rw [ChainState.polls, if_neg hs, he]
  unfold chainStep
  split
  · rename_i hs
    exact .quiet (Or.inl (if_pos hs)) rfl rfl rfl (by simp) rfl rfl
  · rename_i hs
    rcases hstep : PollLoop.step c.loop s.loop x.poll with ⟨loop, e⟩
    have hp := hpolls e (by rw [hstep]) hs
    cases e with
    | skip q => exact .quiet (Or.inl hp) rfl rfl rfl (by simp) rfl rfl
    | busy q diverted => exact .quiet (Or.inl hp) rfl rfl rfl (by simp) rfl rfl
    | sweepEnd => exact .sweepEnd hp rfl rfl rfl rfl rfl
    | poll q nbRx diverted latencyPoll =>
      simp only [processBurst]
      split
      · rename_i hlen
        exact .quiet (Or.inr (List.length_eq_zero_iff.mp hlen)) rfl rfl rfl (by simp) rfl rfl
      · split
        · rename_i hret
          exact .stop q hp hret rfl rfl (by simp) rfl rfl
        · rename_i hret
          exact .sent q hp hret rfl rfl rfl (by simp) rfl rfl

/-! ## The schedule -/

theorem stopped_final (c : ChainCfg) (inputs : List ChainInput) {s : ChainState}
    (hs : s.stopped = true) : ((chainLoop c).final s inputs).stopped = true := by
  refine (chainLoop c).final_inv (I := fun s => s.stopped = true) ?_ inputs hs
  intro s x hs
  show (chainStep c s x).1.stopped = true
  rw [chainStep, if_pos hs]
  exact hs

section Bursts

variable {c : ChainCfg} {s s' : ChainState} {x : ChainInput} {e : ChainEvent} {q : Int} {m : Nat}

theorem mem_pktsBurst :
    m ∈ s.pktsBurst x ↔ s.nextMbuf ≤ m ∧ m < s.nextMbuf + x.packets.length := by
  unfold ChainState.pktsBurst
  rw [List.mem_range'_1]

theorem pktsBurst_nodup (s : ChainState) (x : ChainInput) : (s.pktsBurst x).Nodup :=
  List.nodup_range'

theorem receive_burst (hm : m ∈ s.pktsBurst x) : ∃ p ∈ x.packets, s.receive x m = p.mbuf := by
  obtain ⟨h0, h1⟩ := mem_pktsBurst.mp hm
  have hlt : m - s.nextMbuf < x.packets.length := by omega
  refine ⟨x.packets[m - s.nextMbuf], List.getElem_mem hlt, ?_⟩
  unfold ChainState.receive
  rw [if_pos h0, List.getElem?_eq_getElem hlt]

theorem burst_receive {p : Packet} (hp : p ∈ x.packets) :
    ∃ m ∈ s.pktsBurst x, s.receive x m = p.mbuf := by
  obtain ⟨i, hi, rfl⟩ := List.getElem_of_mem hp
  refine ⟨s.nextMbuf + i, mem_pktsBurst.mpr ⟨by omega, by omega⟩, ?_⟩
  unfold ChainState.receive
  rw [if_pos (by omega), show s.nextMbuf + i - s.nextMbuf = i by omega,
    List.getElem?_eq_getElem hi]

theorem prepare_spec (s : ChainState) (x : ChainInput) :
    Prepared (s.receive x) ⟨[], [], [], []⟩ (s.pktsBurst x) (s.pktsBurst x) (s.prepare x).1
      (s.prepare x).2.1 (s.prepare x).2.2 :=
  prepareAclParameter_spec (s.receive x) (pktsBurst_nodup s x)

theorem zip_envs (c : ChainCfg) (s : ChainState) (x : ChainInput) :
    ((s.pktsBurst x).zip (x.packets.map (fun p => c.natEnv p.env))).map Prod.fst =
      s.pktsBurst x := by
  apply List.map_fst_zip
  simp [ChainState.pktsBurst]

theorem process_mem {a : MbufEvent} (ha : a ∈ (s.process c q x).2.1) :
    ∃ m ∈ s.pktsBurst x, a = .used m := by
  have := nfProcessBurst_mem _ _ _ _ ha
  rwa [zip_envs] at this

/-- A burst that does not stop the lcore is processed to its end. -/
theorem process_sent (hstop : ¬s.stops c q x) :
    (s.process c q x).2.1 = (s.pktsBurst x).map MbufEvent.used := by
  rcases nfProcessBurst_ret c.burst (c.portOf q)
    ((s.pktsBurst x).zip (x.packets.map (fun p => c.natEnv p.env)))
    ⟨(s.prepare x).1, s.shards (c.shard q), s.cms⟩ with ⟨-, hev⟩ | hret
  · rw [zip_envs] at hev
    exact hev
  · exact absurd hret hstop

/-- A burst of no packets stops nothing. -/
theorem ChainState.stops.ne_nil (h : s.stops c q x) : x.packets ≠ [] := by
  intro hnil
  unfold ChainState.stops ChainState.process ChainState.pktsBurst at h
  rw [hnil, List.length_nil, List.range'_zero, List.zip_nil_left] at h
  cases h

/-- The packets looked up in the access control list are packets of the burst. -/
theorem looked_mem (hm : m ∈ (s.prepare x).2.1.mIpv4 ++ (s.prepare x).2.1.mIpv6) :
    m ∈ s.pktsBurst x := by
  have h := prepare_spec s x
  rw [h.mIpv4, h.mIpv6] at hm
  simp only [ofKind, List.nil_append, List.mem_append, List.mem_filter] at hm
  rcases hm with hm | hm
  · exact hm.1
  · exact hm.1

theorem prepare_mem {a : MbufEvent} (ha : a ∈ (s.prepare x).2.2) : a.mbuf ∈ s.pktsBurst x := by
  rcases (prepare_spec s x).accesses a ha with ⟨m, hm, rfl⟩ | ⟨m, hm, -, rfl⟩
  · exact hm.elim id id
  · exact hm

theorem mem_verdicts {res : UInt32} : (m, res) ∈ s.verdicts c q x ↔
    m ∈ s.pktsBurst x ∧ ∃ kind, aclKind (s.receive x m) = some kind ∧
      res = c.classify kind (deref (s.process c q x).1.heap (headerPtr kind m)) :=
  mem_aclClassify (prepare_spec s x) c.classify _ m res

/-! ## What every step keeps -/

/-- A poll that receives packets and does not stop the lcore sends them on. -/
theorem ChainMove.of_polls (h : ChainMove c s x s' e) (hp : s.polls c x = some q)
    (hstop : ¬s.stops c q x) (hm : m ∈ s.pktsBurst x) :
    s'.txBatch = (transmit c.loop.mode s.txBatch (s.pktsBurst x) x.nbTx).1 ∧
      s'.nextMbuf = s.nextMbuf + x.packets.length ∧
      e.mbufs = (s.pktsBurst x).map MbufEvent.received ++ (s.prepare x).2.2 ++
        (s.process c q x).2.1 ++
        ((s.prepare x).2.1.mIpv4 ++ (s.prepare x).2.1.mIpv6).map MbufEvent.used ++
        (transmit c.loop.mode s.txBatch (s.pktsBurst x) x.nbTx).2 ∧
      e.verdicts = s.verdicts c q x := by
  cases h with
  | quiet hp' htx hnext hstopped hpoll hmb hv =>
    rcases hp' with hp' | hp'
    · rw [hp] at hp'
      cases hp'
    · rw [ChainState.pktsBurst, hp'] at hm
      simp at hm
  | sweepEnd hp' htx hnext hstopped hmb hv =>
    rw [hp] at hp'
    cases hp'
  | stop q' hp' hstop' htx hnext hpoll hmb hv =>
    rw [hp] at hp'
    cases hp'
    exact absurd hstop' hstop
  | sent q' hp' hstop' htx hnext hstopped hpoll hmb hv =>
    rw [hp] at hp'
    cases hp'
    exact ⟨htx, hnext, hmb, hv⟩

theorem ChainMove.next_le (h : ChainMove c s x s' e) : s.nextMbuf ≤ s'.nextMbuf := by
  cases h with
  | quiet hp htx hnext hstopped hpoll hm hv => omega
  | sweepEnd hp htx hnext hstopped hm hv => omega
  | stop q hp hstop htx hnext hpoll hm hv => omega
  | sent q hp hstop htx hnext hstopped hpoll hm hv => omega

/-- Nothing is batched in Single mode. -/
theorem ChainMove.single (h : ChainMove c s x s' e)
    (hs : c.loop.mode = .single → s.txBatch = []) : c.loop.mode = .single → s'.txBatch = [] := by
  cases h with
  | quiet hp htx hnext hstopped hpoll hm hv => rwa [htx]
  | sweepEnd hp htx hnext hstopped hm hv =>
    intro _
    rw [htx, endSweep_batch]
  | stop q hp hstop htx hnext hpoll hm hv => rwa [htx]
  | sent q hp hstop htx hnext hstopped hpoll hm hv =>
    rw [htx]
    exact transmit_single hs

/-- Only mbufs that were received are known. -/
theorem ChainMove.known (h : ChainMove c s x s' e) (hs : ∀ m ∈ s.txBatch, m < s.nextMbuf) :
    (∀ a ∈ e.mbufs, a.mbuf < s'.nextMbuf) ∧ ∀ m ∈ s'.txBatch, m < s'.nextMbuf := by
  have hburst : ∀ m ∈ s.pktsBurst x, m < s.nextMbuf + x.packets.length := fun m hm =>
    (mem_pktsBurst.mp hm).2
  have hrec : ∀ a ∈ (s.pktsBurst x).map MbufEvent.received, a.mbuf ∈ s.pktsBurst x := by
    intro a ha
    obtain ⟨m, hm, rfl⟩ := List.mem_map.mp ha
    exact hm
  have hnat : ∀ q, ∀ a ∈ (s.process c q x).2.1, a.mbuf ∈ s.pktsBurst x := by
    intro q a ha
    obtain ⟨m, hm, rfl⟩ := process_mem ha
    exact hm
  cases h with
  | quiet hp htx hnext hstopped hpoll hm hv =>
    rw [hm, htx, hnext]
    exact ⟨by simp, hs⟩
  | sweepEnd hp htx hnext hstopped hm hv =>
    rw [hm, htx, hnext, endSweep_batch]
    exact ⟨fun a ha => hs _ (endSweep_mem ha), by simp⟩
  | stop q hp hstop htx hnext hpoll hm hv =>
    rw [hm, htx, hnext]
    refine ⟨?_, fun m hm => Nat.lt_of_lt_of_le (hs m hm) (Nat.le_add_right _ _)⟩
    intro a ha
    apply hburst
    simp only [List.mem_append] at ha
    rcases ha with (ha | ha) | ha
    · exact hrec a ha
    · exact prepare_mem ha
    · exact hnat q a ha
  | sent q hp hstop htx hnext hstopped hpoll hm hv =>
    have hall : ∀ m, m ∈ s.txBatch ∨ m ∈ s.pktsBurst x → m < s.nextMbuf + x.packets.length := by
      rintro m (hm | hm)
      · exact Nat.lt_of_lt_of_le (hs m hm) (Nat.le_add_right _ _)
      · exact hburst m hm
    rw [hm, htx, hnext]
    refine ⟨?_, fun m hm => hall m (transmit_batch hm)⟩
    intro a ha
    apply hall
    simp only [List.mem_append] at ha
    rcases ha with (((ha | ha) | ha) | ha) | ha
    · exact Or.inr (hrec a ha)
    · exact Or.inr (prepare_mem ha)
    · exact Or.inr (hnat q a ha)
    · obtain ⟨m, hm, rfl⟩ := List.mem_map.mp ha
      exact Or.inr (looked_mem hm)
    · exact transmit_mem ha

/-- Results are given in bursts that are sent on. -/
theorem ChainMove.of_verdict (h : ChainMove c s x s' e) {res : UInt32}
    (hres : (m, res) ∈ e.verdicts) :
    ∃ q, s.polls c x = some q ∧ ¬s.stops c q x ∧ (m, res) ∈ s.verdicts c q x := by
  cases h with
  | quiet hp htx hnext hstopped hpoll hm hv =>
    rw [hv] at hres
    cases hres
  | sweepEnd hp htx hnext hstopped hm hv =>
    rw [hv] at hres
    cases hres
  | stop q hp hstop htx hnext hpoll hm hv =>
    rw [hv] at hres
    cases hres
  | sent q hp hstop htx hnext hstopped hpoll hm hv =>
    rw [hv] at hres
    exact ⟨q, hp, hstop, hres⟩

/-- Results are given to packets of the burst. -/
theorem ChainMove.verdict_bounds (h : ChainMove c s x s' e) {res : UInt32}
    (hres : (m, res) ∈ e.verdicts) : s.nextMbuf ≤ m ∧ m < s'.nextMbuf := by
  obtain ⟨q, hp, hstop, hres⟩ := h.of_verdict hres
  have hm := (mem_verdicts.mp hres).1
  rw [(h.of_polls hp hstop hm).2.1]
  exact mem_pktsBurst.mp hm

end Bursts

/-! ## Runs -/

/-- The run is empty or ends with the end of a sweep. -/
def Complete (c : ChainCfg) (s : ChainState) (inputs : List ChainInput) : Prop :=
  ∀ ys x, inputs = ys ++ [x] →
    ((chainLoop c).step ((chainLoop c).final s ys) x).2.poll = some .sweepEnd

section Runs

variable {c : ChainCfg} {s : ChainState}

theorem mbufTrace_append (s : ChainState) (xs ys : List ChainInput) :
    mbufTrace c s (xs ++ ys) =
      mbufTrace c s xs ++ mbufTrace c ((chainLoop c).final s xs) ys := by
  simp [mbufTrace, Machine.events, Machine.trace_append]

theorem mbufTrace_snoc (s : ChainState) (xs : List ChainInput) (x : ChainInput) :
    mbufTrace c s (xs ++ [x]) =
      mbufTrace c s xs ++ (chainStep c ((chainLoop c).final s xs) x).2.mbufs := by
  rw [mbufTrace, Machine.events_snoc, List.flatMap_append]
  simp [mbufTrace, chainLoop]

theorem verdictTrace_snoc (s : ChainState) (xs : List ChainInput) (x : ChainInput) :
    verdictTrace c s (xs ++ [x]) =
      verdictTrace c s xs ++ (chainStep c ((chainLoop c).final s xs) x).2.verdicts := by
  rw [verdictTrace, Machine.events_snoc, List.flatMap_append]
  simp [verdictTrace, chainLoop]

theorem chain_final_snoc (s : ChainState) (xs : List ChainInput) (x : ChainInput) :
    (chainLoop c).final s (xs ++ [x]) = (chainStep c ((chainLoop c).final s xs) x).1 :=
  (chainLoop c).final_snoc s xs x

theorem batch_single (hs : c.loop.mode = .single → s.txBatch = []) (inputs : List ChainInput) :
    c.loop.mode = .single → ((chainLoop c).final s inputs).txBatch = [] :=
  (chainLoop c).final_inv (I := fun s => c.loop.mode = .single → s.txBatch = [])
    (fun s x h => (chainStep_cases c s x).single h) inputs hs

theorem nextMbuf_le (s : ChainState) (inputs : List ChainInput) :
    s.nextMbuf ≤ ((chainLoop c).final s inputs).nextMbuf :=
  (chainLoop c).final_inv (I := fun s' => s.nextMbuf ≤ s'.nextMbuf)
    (fun s' x h => Nat.le_trans h (chainStep_cases c s' x).next_le) inputs (Nat.le_refl _)

/-- Whatever happens to an mbuf happens after it was received. -/
theorem known_run (hs : ∀ m ∈ s.txBatch, m < s.nextMbuf) (inputs : List ChainInput) :
    (∀ a ∈ mbufTrace c s inputs, a.mbuf < ((chainLoop c).final s inputs).nextMbuf) ∧
      ∀ m ∈ ((chainLoop c).final s inputs).txBatch,
        m < ((chainLoop c).final s inputs).nextMbuf := by
  induction inputs using List.reverseRecOn with
  | nil => exact ⟨by simp [mbufTrace, Machine.events], hs⟩
  | append_singleton inputs x ih =>
    have hmove := chainStep_cases c ((chainLoop c).final s inputs) x
    obtain ⟨hev, hbatch⟩ := hmove.known ih.2
    rw [mbufTrace_snoc, chain_final_snoc]
    refine ⟨?_, hbatch⟩
    intro a ha
    rcases List.mem_append.mp ha with ha | ha
    · exact Nat.lt_of_lt_of_le (ih.1 a ha) hmove.next_le
    · exact hev a ha

theorem verdicts_run (inputs : List ChainInput) {m : Nat} {res : UInt32} :
    (m, res) ∈ verdictTrace c s inputs →
      s.nextMbuf ≤ m ∧ m < ((chainLoop c).final s inputs).nextMbuf := by
  induction inputs using List.reverseRecOn with
  | nil => simp [verdictTrace, Machine.events]
  | append_singleton inputs x ih =>
    have hmove := chainStep_cases c ((chainLoop c).final s inputs) x
    rw [verdictTrace_snoc, chain_final_snoc]
    intro hres
    rcases List.mem_append.mp hres with hres | hres
    · exact ⟨(ih hres).1, Nat.lt_of_lt_of_le (ih hres).2 hmove.next_le⟩
    · obtain ⟨h0, h1⟩ := hmove.verdict_bounds hres
      exact ⟨Nat.le_trans (nextMbuf_le s inputs) h0, h1⟩

/-- An mbuf has the result it got in its own burst, and no other. -/
theorem verdict_of_burst {ys zs : List ChainInput} {x : ChainInput} {m : Nat} {res : UInt32}
    (hm : m ∈ ((chainLoop c).final s ys).pktsBurst x)
    (hnext : (chainStep c ((chainLoop c).final s ys) x).1.nextMbuf =
      ((chainLoop c).final s ys).nextMbuf + x.packets.length)
    (hres : (m, res) ∈ verdictTrace c s (ys ++ x :: zs)) :
    (m, res) ∈ (chainStep c ((chainLoop c).final s ys) x).2.verdicts := by
  obtain ⟨h0, h1⟩ := mem_pktsBurst.mp hm
  have hsplit : verdictTrace c s (ys ++ x :: zs) = verdictTrace c s ys ++
      ((chainStep c ((chainLoop c).final s ys) x).2.verdicts ++
        verdictTrace c (chainStep c ((chainLoop c).final s ys) x).1 zs) := by
    simp [verdictTrace, Machine.events, Machine.trace_append, Machine.move, chainLoop]
  rw [hsplit] at hres
  rcases List.mem_append.mp hres with hres | hres
  · have := (verdicts_run ys hres).2
    omega
  · rcases List.mem_append.mp hres with hres | hres
    · exact hres
    · have := (verdicts_run zs hres).1
      omega

/-- **No packet is forgotten**: the packets of a burst that does not stop the lcore are offered to
    the card or wait in the batch. -/
theorem burst_covered (hs : c.loop.mode = .single → s.txBatch = []) (inputs : List ChainInput) :
    (chainLoop c).Along (fun s' x => ∀ q, s'.polls c x = some q → ¬s'.stops c q x →
      ∀ m ∈ s'.pktsBurst x, .offered m ∈ mbufTrace c s inputs ∨
        m ∈ ((chainLoop c).final s inputs).txBatch) s inputs := by
  induction inputs using List.reverseRecOn with
  | nil =>
    intro ys x zs hsplit
    simp at hsplit
  | append_singleton inputs x ih =>
    have hmove := chainStep_cases c ((chainLoop c).final s inputs) x
    have hbatch := batch_single hs inputs
    rw [mbufTrace_snoc, chain_final_snoc]
    -- what waits before the step waits after it or is offered in it
    have hkeep : ∀ m ∈ ((chainLoop c).final s inputs).txBatch,
        .offered m ∈ (chainStep c ((chainLoop c).final s inputs) x).2.mbufs ∨
          m ∈ (chainStep c ((chainLoop c).final s inputs) x).1.txBatch := by
      intro m hm
      cases hmove with
      | quiet hp htx hnext hstopped hpoll hmb hv =>
        rw [htx]
        exact Or.inr hm
      | sweepEnd hp htx hnext hstopped hmb hv =>
        rw [hmb]
        exact Or.inl (endSweep_covers hbatch hm)
      | stop q hp hstop htx hnext hpoll hmb hv =>
        rw [htx]
        exact Or.inr hm
      | sent q hp hstop htx hnext hstopped hpoll hmb hv =>
        rw [htx, hmb]
        exact (transmit_covers (Or.inl hm)).symm.imp (List.mem_append_right _) id
    rw [Machine.along_snoc]
    constructor
    · intro ys y zs hsplit q hq hstop m hm
      rcases ih ys y zs hsplit q hq hstop m hm with hoff | hwait
      · exact Or.inl (List.mem_append_left _ hoff)
      · exact (hkeep m hwait).imp (List.mem_append_right _) id
    · intro q hq hstop m hm
      obtain ⟨htx, -, hmb, -⟩ := hmove.of_polls hq hstop hm
      rw [htx, hmb]
      exact (transmit_covers (Or.inr hm)).symm.imp
        (fun h => List.mem_append_right _ (List.mem_append_right _ h)) id

theorem complete_snoc (inputs : List ChainInput) {x : ChainInput}
    (h : (chainStep c ((chainLoop c).final s inputs) x).2.poll = some .sweepEnd) :
    Complete c s (inputs ++ [x]) := by
  intro ys y hsplit
  obtain ⟨rfl, hxy⟩ := List.append_inj' hsplit rfl
  obtain rfl := (List.cons.inj hxy).1
  exact h

/-- At the end of a sweep the batch is empty. -/
theorem complete_batch (hs : s.txBatch = []) {inputs : List ChainInput}
    (hend : Complete c s inputs) : ((chainLoop c).final s inputs).txBatch = [] := by
  rcases List.eq_nil_or_concat inputs with rfl | ⟨ys, x, rfl⟩
  · exact hs
  · rw [List.concat_eq_append] at hend ⊢
    have hpoll := hend ys x rfl
    change (chainStep c ((chainLoop c).final s ys) x).2.poll = some .sweepEnd at hpoll
    rw [chain_final_snoc]
    cases chainStep_cases c ((chainLoop c).final s ys) x with
    | quiet hp htx hnext hstopped hpoll' hmb hv => exact absurd hpoll hpoll'
    | sweepEnd hp htx hnext hstopped hmb hv => rw [htx, endSweep_batch]
    | stop q hp hstop htx hnext hpoll' hmb hv => exact absurd hpoll hpoll'
    | sent q hp hstop htx hnext hstopped hpoll' hmb hv => exact absurd hpoll hpoll'

end Runs

end QueueDpdk.Chain
