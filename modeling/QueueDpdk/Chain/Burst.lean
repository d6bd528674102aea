import QueueDpdk.Chain.Acl
import QueueDpdk.NatFlow.Process

/-!
# Processing of a burst (`nf-chain/src/main.c`)

* `checkPacketMagic` — recognises the packet that stops the program.
* `countAdd` — adds a packet to the Count-Min Sketch, with the hash function as a parameter.
* `nfProcessBurst` — address translation and counting, packet by packet, up to a stop packet;
  `nfProcessBurst_ret` and `nfProcessBurst_spec` say when it gets to the end of a burst.
-/

set_option autoImplicit false

namespace QueueDpdk.Chain

open Lib PollLoop NatFlow

def IPPROTO_TCP : UInt8 := 6
def IPPROTO_UDP : UInt8 := 17
def ETHER_TYPE : Nat := 12
def NEXT_PROTO_ID : Nat := OFF_ETHHEAD + 9

/-- `rte_be_to_cpu_32` on a little-endian machine. -/
def beToCpu32 (v : UInt32) : UInt32 :=
  v <<< 24 ||| (v &&& (0xff00 : UInt32)) <<< 8 ||| (v >>> 8 &&& (0xff00 : UInt32)) ||| v >>> 24

/-! ## The stop packet -/

/-- `inet_addr` of the four numbers of an address. -/
def inetAddr (a b c d : UInt32) : UInt32 := a ||| b <<< 8 ||| c <<< 16 ||| d <<< 24

/-- `str_to_u32("STOP123456789")`: the first four characters. -/
def STOP_MAGIC : UInt32 := inetAddr 0x53 0x54 0x4f 0x50

/-- The magic number follows the headers at the next multiple of eight. -/
def MAGIC_OFFSET : Nat := (14 + 20 + 8 + 8) / 8 * 8

def checkPacketMagic (data : Bytes) (expectedMagic : UInt32) : Int :=
  if get32 data SRC_ADDR ≠ inetAddr 192 168 0 1 ∨ get32 data DST_ADDR ≠ inetAddr 192 168 1 1 ∨
      data NEXT_PROTO_ID ≠ IPPROTO_UDP then -1
  else if cpuToBe16 (get16 data DST_PORT) ≠ 1028 ∨ cpuToBe16 (get16 data SRC_PORT) ≠ 1234 then -1
  else if get32 data MAGIC_OFFSET = expectedMagic then 0
  else -1

/-! ## The sketch -/

def HASHFN_N : Nat := 16
def CMS_COLUMNS : UInt64 := 1048576
def CMS_COLUMNS_PARTITIONED : UInt64 := 65536

/-- The counters, by row and column. -/
abbrev CountMin := Nat → Nat → UInt64

/-- `xxhash64(p, len, seed)`, given the bytes at `p`. -/
abbrev Hash64 := List UInt8 → UInt64 → UInt64

/-- `struct five_tuple`. -/
structure FiveTuple where
  srcIp : UInt32
  dstIp : UInt32
  srcPort : UInt16
  dstPort : UInt16
  proto : UInt8
deriving DecidableEq, Repr

/-- The bytes of a number, the low one first. -/
def bytesLE (n v : Nat) : List UInt8 := (List.range n).map (fun k => UInt8.ofNat (v / 256 ^ k))

/-- The packed structure as it lies in memory. -/
def FiveTuple.bytes (key : FiveTuple) : List UInt8 :=
  bytesLE 4 key.srcIp.toNat ++ bytesLE 4 key.dstIp.toNat ++ bytesLE 2 key.srcPort.toNat ++
    bytesLE 2 key.dstPort.toNat ++ [key.proto]

/-- The key of a packet, unless it is not IPv4. -/
def fiveTuple (data : Bytes) : Option FiveTuple :=
  if get16 data ETHER_TYPE = cpuToBe16 0x0800 then
    let proto := data NEXT_PROTO_ID
    let hasPorts := proto == IPPROTO_TCP || proto == IPPROTO_UDP
    some ⟨beToCpu32 (get32 data SRC_ADDR), beToCpu32 (get32 data DST_ADDR),
      if hasPorts then cpuToBe16 (get16 data SRC_PORT) else 0,
      if hasPorts then cpuToBe16 (get16 data DST_PORT) else 0, proto⟩
  else none

/-- The column a key counts in, for row `i`. -/
def column (xxhash64 : Hash64) (mode : QflowMode) (key : FiveTuple) (i : Nat) : Nat :=
  let h := xxhash64 key.bytes (UInt64.ofNat i)
  let columns := if mode = .partitioned then CMS_COLUMNS_PARTITIONED else CMS_COLUMNS
  (h &&& (columns - 1)).toNat

def countAdd (xxhash64 : Hash64) (mode : QflowMode) (data : Bytes) (cms : CountMin) : CountMin :=
  match fiveTuple data with
  | none => cms
  | some key => fun i =>
    if i < HASHFN_N then
      let targetIdx := column xxhash64 mode key i
      Function.update (cms i) targetIdx (cms i targetIdx + 1)
    else cms i

/-! ## The burst -/

/-- What a packet meets in `nf_process`: the time, what the locals hold before they are assigned, and
    what other lcores do to the shard before and between its two critical sections. -/
structure NatEnv where
  now : LibVig.VigorTime
  staleExternalPort : UInt16
  staleDstDevice : UInt16
  before : FlowManager → FlowManager
  between : FlowManager → FlowManager

/-- The constants `nf_process_burst` works with. -/
structure BurstCfg where
  mode : QflowMode
  nat : NfConfig
  xxhash64 : Hash64

/-- `drop_full` of `nf_init`. -/
def BurstCfg.dropWhenFull (c : BurstCfg) : Bool := decide (c.mode ≠ .single)

structure BurstState where
  heap : Heap
  flowManager : FlowManager
  cms : CountMin

/-- The header fields handed to `nf_process`.  Only the ethertype is converted. -/
def nfCall (portid : UInt16) (data : Bytes) (env : NatEnv) : NfCall :=
  { device := portid
    payload := data
    etherType := cpuToBe16 (get16 data ETHER_TYPE)
    ipProto := data NEXT_PROTO_ID
    ipSrc := get32 data SRC_ADDR
    ipDst := get32 data DST_ADDR
    portSrc := get16 data SRC_PORT
    portDst := get16 data DST_PORT
    now := env.now
    staleExternalPort := env.staleExternalPort
    staleDstDevice := env.staleDstDevice }

/-- `nf_process` and `count_add` for one packet; the result of `nf_process` is ignored. -/
def processOne (c : BurstCfg) (portid : UInt16) (s : BurstState) (pkt : Nat) (env : NatEnv) :
    BurstState :=
  let (flowManager, payload, _) := nfProcessWith env.between c.nat c.dropWhenFull
    (env.before s.flowManager) (nfCall portid (s.heap pkt).data env)
  { heap := Function.update s.heap pkt { s.heap pkt with data := payload }
    flowManager := flowManager
    cms := countAdd c.xxhash64 c.mode payload s.cms }

/-- `nf_process_burst`, with its result. -/
def nfProcessBurst (c : BurstCfg) (portid : UInt16) :
    BurstState → List (Nat × NatEnv) → BurstState × List MbufEvent × Int
  | s, [] => (s, [], 0)
  | s, (pkt, env) :: rest =>
    if checkPacketMagic (s.heap pkt).data STOP_MAGIC = 0 then (s, [.used pkt], 1)
    else
      let (s, events, ret) := nfProcessBurst c portid (processOne c portid s pkt env) rest
      (s, .used pkt :: events, ret)

theorem processOne_heap (c : BurstCfg) (portid : UInt16) (s : BurstState) (env : NatEnv)
    {pkt m : Nat} (hne : m ≠ pkt) : (processOne c portid s pkt env).heap m = s.heap m :=
  Function.update_of_ne hne ..

/-- Processing accesses packets of the burst only. -/
theorem nfProcessBurst_mem (c : BurstCfg) (portid : UInt16) {e : MbufEvent} :
    ∀ (pkts : List (Nat × NatEnv)) (s : BurstState), e ∈ (nfProcessBurst c portid s pkts).2.1 →
      ∃ m ∈ pkts.map Prod.fst, e = .used m := by
  intro pkts
  induction pkts with
  | nil =>
    intro s he
    cases he
  | cons p rest ih =>
    intro s he
    obtain ⟨pkt, env⟩ := p
    unfold nfProcessBurst at he
    split at he
    · exact ⟨pkt, by simp, List.mem_singleton.mp he⟩
    · rcases List.mem_cons.mp he with rfl | he
      · exact ⟨pkt, by simp, rfl⟩
      · obtain ⟨m, hm, rfl⟩ := ih _ he
        exact ⟨m, by
          rw [List.map_cons]
          exact List.mem_cons_of_mem _ hm, rfl⟩

/-- A burst is processed to its end unless a stop packet ends it. -/
theorem nfProcessBurst_ret (c : BurstCfg) (portid : UInt16) :
    ∀ (pkts : List (Nat × NatEnv)) (s : BurstState),
      ((nfProcessBurst c portid s pkts).2.2 = 0 ∧
        (nfProcessBurst c portid s pkts).2.1 = (pkts.map Prod.fst).map MbufEvent.used) ∨
      (nfProcessBurst c portid s pkts).2.2 = 1 := by
  intro pkts
  induction pkts with
  | nil =>
    intro s
    exact Or.inl ⟨rfl, rfl⟩
  | cons p rest ih =>
    intro s
    obtain ⟨pkt, env⟩ := p
    unfold nfProcessBurst
    split
    · exact Or.inr rfl
    · rcases ih (processOne c portid s pkt env) with ⟨hret, hev⟩ | hret
      · refine Or.inl ⟨hret, ?_⟩
        rw [List.map_cons, List.map_cons, ← hev]
      · exact Or.inr hret

/-- **A burst without a stop packet** is processed to its end. -/
theorem nfProcessBurst_spec (c : BurstCfg) (portid : UInt16) :
    ∀ (pkts : List (Nat × NatEnv)) (s : BurstState), (pkts.map Prod.fst).Nodup →
      (∀ m ∈ pkts.map Prod.fst, checkPacketMagic (s.heap m).data STOP_MAGIC ≠ 0) →
      (nfProcessBurst c portid s pkts).2.2 = 0 := by
  intro pkts
  induction pkts with
  | nil =>
    intro s _ _
    rfl
  | cons p rest ih =>
    intro s hnd hstop
    obtain ⟨pkt, env⟩ := p
    rw [List.map_cons] at hnd hstop
    obtain ⟨hnot, hnd⟩ := List.nodup_cons.mp hnd
    unfold nfProcessBurst
    rw [if_neg (hstop pkt List.mem_cons_self)]
    apply ih (processOne c portid s pkt env) hnd
    intro m hm
    have hne : m ≠ pkt := fun he => hnot (he ▸ hm)
    rw [processOne_heap c portid s env hne]
    exact hstop m (List.mem_cons_of_mem _ hm)

/-! ## The stop packet survives its preparation -/

theorem updateHeader_apply {data : Bytes} {k : Nat} (h : k ≠ 22) (h' : k ≠ 24) (h'' : k ≠ 25) :
    updateHeader data k = data k := by
  show set16 _ 24 _ k = data k
  rw [set16_apply _ _ (by omega)]
  exact Function.update_of_ne h ..

/-- Only time to live and checksum are updated. -/
theorem get32_updateHeader (data : Bytes) {off : Nat} (hoff : 26 ≤ off) :
    get32 (updateHeader data) off = get32 data off := by
  rw [get32, get32, getLE_congr 4 off]
  intro k h1 h2
  exact updateHeader_apply (by omega) (by omega) (by omega)

theorem get16_updateHeader (data : Bytes) {off : Nat} (hoff : 26 ≤ off) :
    get16 (updateHeader data) off = get16 data off := by
  rw [get16, get16, getLE_congr 2 off]
  intro k h1 h2
  exact updateHeader_apply (by omega) (by omega) (by omega)

theorem checkPacketMagic_updateHeader (data : Bytes) (expectedMagic : UInt32) :
    checkPacketMagic (updateHeader data) expectedMagic = checkPacketMagic data expectedMagic := by
  have hproto : updateHeader data NEXT_PROTO_ID = data NEXT_PROTO_ID :=
    updateHeader_apply (by decide) (by decide) (by decide)
  unfold checkPacketMagic
  rw [get32_updateHeader data (by decide), get32_updateHeader data (by decide),
    get16_updateHeader data (by decide), get16_updateHeader data (by decide),
    get32_updateHeader data (by decide), hproto]

/-- The addresses and the ports of a packet are prepared as they were received. -/
theorem get32_prepared (pkt : Mbuf) {off : Nat} (hoff : 26 ≤ off) :
    get32 (prepared pkt).data off = get32 pkt.data off := by
  unfold prepared
  split
  · exact get32_updateHeader pkt.data hoff
  · rfl

theorem get16_prepared (pkt : Mbuf) {off : Nat} (hoff : 26 ≤ off) :
    get16 (prepared pkt).data off = get16 pkt.data off := by
  unfold prepared
  split
  · exact get16_updateHeader pkt.data hoff
  · rfl

theorem checkPacketMagic_prepared (pkt : Mbuf) (expectedMagic : UInt32) :
    checkPacketMagic (prepared pkt).data expectedMagic =
      checkPacketMagic pkt.data expectedMagic := by
  unfold prepared
  split
  · exact checkPacketMagic_updateHeader pkt.data expectedMagic
  · rfl

end QueueDpdk.Chain
