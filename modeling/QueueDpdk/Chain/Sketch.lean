import QueueDpdk.Chain.Calls
import QueueDpdk.Chain.Frame
import QueueDpdk.Lib.Tally
import Mathlib.Algebra.Group.Nat.Defs

/-!
# The Count-Min Sketch (`nf-chain/src/main.c`)

`count_add` reads the ports of every packet behind an IPv4 header of 20 bytes.

* `allocSketch`, `sketch` — the sketch as `main` allocates it, and after `count_add` of a stream.
* `packetTuple` — the 5-tuple of a packet, its ports read where its layer-4 header starts.
* `SketchSound` — no 5-tuple is underestimated, a row adds up to all packets, and the two layouts
  agree.
* `sketch_tally` — a counter is the number of packets whose key has that column.
* `sketch_sound_iff` — the sketch is sound for a stream, whatever the hash function, exactly if
  reading behind 20 bytes finds every 5-tuple as often as the packets carry it.
-/

set_option autoImplicit false

namespace QueueDpdk.Chain

open Lib PollLoop NatFlow

/-- The rows from `rte_zmalloc`. -/
def allocSketch : CountMin := fun _ _ => 0

/-- `count_add` of one packet after the other. -/
def sketch (xxhash64 : Hash64) (mode : QflowMode) (stream : List Bytes) : CountMin :=
  stream.foldl (fun cms data => countAdd xxhash64 mode data cms) allocSketch

/-- The columns of a row. -/
def columns (mode : QflowMode) : ℕ :=
  if mode = .partitioned then CMS_COLUMNS_PARTITIONED.toNat else CMS_COLUMNS.toNat

instance (data : Bytes) : Decidable (IsIpv4 data) :=
  inferInstanceAs (Decidable (cpuToBe16 (get16 data ETHER_TYPE) = 0x0800))

instance (data : Bytes) : Decidable (IsTcpUdp data) :=
  inferInstanceAs (Decidable (_ ∨ _))

/-- The number of IPv4 packets of a stream. -/
def ipv4Packets (stream : List Bytes) : ℕ := stream.countP (fun data => decide (IsIpv4 data))

/-- The 5-tuple of an IPv4 packet: the addresses and the protocol of its IPv4 header and, if it is TCP
    or UDP, the two ports as receivers read them at `off`. -/
def tupleAt (off : Bytes → ℕ) (data : Bytes) : Option FiveTuple :=
  if IsIpv4 data then
    some ⟨beToCpu32 (get32 data SRC_ADDR), beToCpu32 (get32 data DST_ADDR),
      if IsTcpUdp data then UInt16.ofNat (be16 data (off data)) else 0,
      if IsTcpUdp data then UInt16.ofNat (be16 data (off data + 2)) else 0, data NEXT_PROTO_ID⟩
  else none

/-- The 5-tuple of a packet: its ports are the first four bytes of its layer-4 header. -/
def packetTuple : Bytes → Option FiveTuple := tupleAt layer4

/-- The number of IPv4 packets with a 5-tuple. -/
def occurrences (stream : List Bytes) (key : FiveTuple) : ℕ := tally packetTuple stream key

/-- What the sketch of a stream says about row `i`: the column of a 5-tuple counts at least the
    packets with that 5-tuple, a column counts exactly the packets whose 5-tuple has it; all columns
    together count the IPv4 packets, others change nothing; and the columns of the small layout are
    those of the large one, folded. -/
structure SketchSound (xxhash64 : Hash64) (mode : QflowMode) (stream : List Bytes) (i : ℕ) :
    Prop where
  bound : ∀ key, occurrences stream key ≤
    (sketch xxhash64 mode stream i (column xxhash64 mode key i)).toNat
  exact : ∀ c, (sketch xxhash64 mode stream i c).toNat =
    stream.countP (fun data => (packetTuple data).any (fun key => column xxhash64 mode key i = c))
  sum : ∑ c ∈ Finset.range (columns mode), (sketch xxhash64 mode stream i c).toNat =
    ipv4Packets stream
  others : ∀ data, ¬IsIpv4 data → ∀ cms, countAdd xxhash64 mode data cms = cms
  fold : mode ≠ .partitioned → ∀ c < CMS_COLUMNS_PARTITIONED.toNat,
    (sketch xxhash64 .partitioned stream i c).toNat =
      ∑ c' ∈ Finset.range CMS_COLUMNS.toNat with c' % 65536 = c,
        (sketch xxhash64 mode stream i c').toNat

/-- Every 5-tuple occurs as often with the ports read at layer 4 as with them read behind an IPv4
    header of 20 bytes. -/
def SamePorts (stream : List Bytes) : Prop :=
  ∀ key, tally packetTuple stream key = tally (tupleAt fun _ => SRC_PORT) stream key

/-- The ports of a TCP or UDP packet are also the bytes behind 20 bytes of IPv4 header. -/
def PortsInPlace (data : Bytes) : Prop :=
  IsIpv4 data → IsTcpUdp data →
    be16 data (layer4 data) = be16 data SRC_PORT ∧ be16 data (layer4 data + 2) = be16 data DST_PORT

/-! ## Keys -/

/-- The packets with a key are those of ethertype IPv4. -/
theorem fiveTuple_isSome (data : Bytes) : (fiveTuple data).isSome = true ↔ IsIpv4 data := by
  have hswap : get16 data ETHER_TYPE = cpuToBe16 0x0800 ↔ IsIpv4 data := by
    unfold IsIpv4
    constructor
    · intro h
      rw [h, cpuToBe16_cpuToBe16]
    · intro h
      rw [← h, cpuToBe16_cpuToBe16]
  rw [← hswap]
  unfold fiveTuple
  split
  · rename_i h
    exact iff_of_true rfl h
  · rename_i h
    exact iff_of_false Bool.false_ne_true h

theorem cpuToBe16_get16 (data : Bytes) (off : ℕ) :
    cpuToBe16 (get16 data off) = UInt16.ofNat (be16 data off) := by
  apply UInt16.toNat_inj.mp
  rw [cpuToBe16_toNat, UInt16.toNat_ofNat_of_lt' (be16_lt data off), be16_eq]

/-- The key `count_add` builds has the bytes behind 20 bytes of IPv4 header as its ports. -/
theorem fiveTuple_eq (data : Bytes) : fiveTuple data = tupleAt (fun _ => SRC_PORT) data := by
  have hports : (data NEXT_PROTO_ID == IPPROTO_TCP || data NEXT_PROTO_ID == IPPROTO_UDP) = true ↔
      IsTcpUdp data := by
    rw [Bool.or_eq_true, beq_iff_eq, beq_iff_eq]
    rfl
  have hipv4 : (get16 data ETHER_TYPE = cpuToBe16 0x0800) ↔ IsIpv4 data := by
    rw [← fiveTuple_isSome]
    unfold fiveTuple
    split <;> simp [*]
  unfold fiveTuple tupleAt
  simp only [hports, hipv4, cpuToBe16_get16]
  rfl

theorem portsInPlace_of_ihl {data : Bytes} (h : ihl data = 5) : PortsInPlace data := by
  intro _ _
  rw [layer4_of_ihl h]
  exact ⟨rfl, rfl⟩

/-- One packet whose ports are in place has the same 5-tuple either way. -/
theorem packetTuple_eq_iff (data : Bytes) :
    packetTuple data = tupleAt (fun _ => SRC_PORT) data ↔ PortsInPlace data := by
  have hdst : SRC_PORT + 2 = DST_PORT := rfl
  have hinj : ∀ off off', UInt16.ofNat (be16 data off) = UInt16.ofNat (be16 data off') ↔
      be16 data off = be16 data off' := by
    intro off off'
    rw [← UInt16.toNat_inj, UInt16.toNat_ofNat_of_lt' (be16_lt data off),
      UInt16.toNat_ofNat_of_lt' (be16_lt data off')]
  unfold packetTuple tupleAt PortsInPlace
  by_cases hipv4 : IsIpv4 data <;> by_cases hports : IsTcpUdp data <;>
    simp [hipv4, hports, hinj, hdst]

theorem samePorts_of_inPlace {stream : List Bytes} (h : ∀ data ∈ stream, PortsInPlace data) :
    SamePorts stream := by
  intro key
  apply List.countP_congr
  intro data hdata
  rw [(packetTuple_eq_iff data).mpr (h data hdata)]

theorem samePorts_singleton (data : Bytes) : SamePorts [data] ↔ PortsInPlace data := by
  rw [← packetTuple_eq_iff]
  constructor
  · intro h
    apply Option.ext
    intro key
    have hkey := h key
    simp only [tally, List.countP_singleton, decide_eq_true_eq] at hkey
    by_cases hp : packetTuple data = some key <;>
      by_cases ht : tupleAt (fun _ => SRC_PORT) data = some key <;> simp [hp, ht] at hkey ⊢
  · intro h key
    simp only [tally, List.countP_singleton, h]

/-! ## The bytes of a key -/

theorem bytesLE_succ (n v : ℕ) : bytesLE (n + 1) v = UInt8.ofNat v :: bytesLE n (v / 256) := by
  simp only [bytesLE, List.range_succ_eq_map, List.map_cons, List.map_map, Nat.pow_zero,
    Nat.div_one]
  congr 1
  apply List.map_congr_left
  intro k _
  rw [Function.comp_apply, Nat.div_div_eq_div_mul, Nat.pow_succ, Nat.mul_comm]

theorem bytesLE_inj {n v w : ℕ} (hv : v < 256 ^ n) (hw : w < 256 ^ n)
    (h : bytesLE n v = bytesLE n w) : v = w := by
  induction n generalizing v w with
  | zero => rw [Nat.pow_zero] at hv hw; omega
  | succ n ih =>
    rw [Nat.pow_succ] at hv hw
    rw [bytesLE_succ, bytesLE_succ] at h
    obtain ⟨hlow, hrest⟩ := List.cons.inj h
    have hbyte := congrArg UInt8.toNat hlow
    rw [UInt8.toNat_ofNat', UInt8.toNat_ofNat'] at hbyte
    have hquot := ih (by omega) (by omega) hrest
    omega

@[simp] theorem length_bytesLE (n v : ℕ) : (bytesLE n v).length = n := by
  simp [bytesLE]

/-- The packed structure determines the key. -/
theorem bytes_inj {key key' : FiveTuple} (h : key.bytes = key'.bytes) : key = key' := by
  obtain ⟨srcIp, dstIp, srcPort, dstPort, proto⟩ := key
  obtain ⟨srcIp', dstIp', srcPort', dstPort', proto'⟩ := key'
  simp only [FiveTuple.bytes] at h
  obtain ⟨h, hproto⟩ := List.append_inj h (by simp)
  obtain ⟨h, hdstPort⟩ := List.append_inj h (by simp)
  obtain ⟨h, hsrcPort⟩ := List.append_inj h (by simp)
  obtain ⟨hsrcIp, hdstIp⟩ := List.append_inj h (by simp)
  have h32 : ∀ {v w : UInt32}, bytesLE 4 v.toNat = bytesLE 4 w.toNat → v = w := fun hvw =>
    UInt32.toNat_inj.mp (bytesLE_inj (UInt32.toNat_lt _) (UInt32.toNat_lt _) hvw)
  have h16 : ∀ {v w : UInt16}, bytesLE 2 v.toNat = bytesLE 2 w.toNat → v = w := fun hvw =>
    UInt16.toNat_inj.mp (bytesLE_inj (UInt16.toNat_lt _) (UInt16.toNat_lt _) hvw)
  rw [h32 hsrcIp, h32 hdstIp, h16 hsrcPort, h16 hdstPort, List.singleton_inj.mp hproto]

/-! ## Columns -/

section Columns

variable (xxhash64 : Hash64) (mode : QflowMode) (key : FiveTuple) (i : ℕ)

theorem column_eq : column xxhash64 mode key i =
    (xxhash64 key.bytes (UInt64.ofNat i)).toNat % columns mode := by
  unfold column columns
  split
  · exact (UInt64.toNat_and _ _).trans (Nat.and_two_pow_sub_one_eq_mod _ 16)
  · exact (UInt64.toNat_and _ _).trans (Nat.and_two_pow_sub_one_eq_mod _ 20)

theorem column_lt : column xxhash64 mode key i < columns mode := by
  rw [column_eq]
  apply Nat.mod_lt
  unfold columns
  split <;> decide +kernel

/-- The two masks cut the same hash. -/
theorem column_partitioned (hmode : mode ≠ .partitioned) :
    column xxhash64 .partitioned key i = column xxhash64 mode key i % 65536 := by
  have hfull : columns mode = 1048576 := if_neg hmode
  rw [column_eq, column_eq, hfull]
  exact (Nat.mod_mod_of_dvd _ (by decide)).symm

end Columns

/-! ## Streams -/

/-- The column a packet is counted in, if it is counted. -/
def columnOf (xxhash64 : Hash64) (mode : QflowMode) (i : ℕ) (data : Bytes) : Option ℕ :=
  (fiveTuple data).map (fun key => column xxhash64 mode key i)

section Streams

variable {xxhash64 : Hash64} {mode : QflowMode} {i : ℕ}

theorem countAdd_of_not_ipv4 {data : Bytes} (h : ¬IsIpv4 data) (cms : CountMin) :
    countAdd xxhash64 mode data cms = cms := by
  have hnone : fiveTuple data = none := by
    rw [← Option.not_isSome_iff_eq_none, fiveTuple_isSome]
    exact h
  rw [countAdd, hnone]

/-- **Step lemma**: a packet adds one to its column in every row. -/
theorem countAdd_apply (hi : i < HASHFN_N) (data : Bytes) (cms : CountMin) (c : ℕ) :
    countAdd xxhash64 mode data cms i c =
      cms i c + if columnOf xxhash64 mode i data = some c then 1 else 0 := by
  unfold countAdd columnOf
  cases fiveTuple data with
  | none => simp
  | some key =>
    simp only [Option.map_some, Option.some.injEq]
    rw [if_pos hi]
    by_cases hc : column xxhash64 mode key i = c
    · rw [if_pos hc, ← hc, Function.update_self]
    · rw [if_neg hc, Function.update_of_ne (Ne.symm hc), UInt64.add_zero]

/-- **Run lemma**: a counter is the number of packets counted in its column. -/
theorem sketch_tally (hi : i < HASHFN_N) (c : ℕ) (stream : List Bytes) :
    stream.length < 2 ^ 64 → (sketch xxhash64 mode stream i c).toNat =
      tally (columnOf xxhash64 mode i) stream c := by
  induction stream using List.reverseRecOn with
  | nil =>
    intro _
    rfl
  | append_singleton stream data ih =>
    intro hlen
    rw [List.length_append, List.length_singleton] at hlen
    have hrest := ih (Nat.lt_of_succ_lt hlen)
    have hle := tally_le_length (columnOf xxhash64 mode i) stream c
    have hstep : sketch xxhash64 mode (stream ++ [data]) =
        countAdd xxhash64 mode data (sketch xxhash64 mode stream) := by
      unfold sketch
      rw [List.foldl_append, List.foldl_cons, List.foldl_nil]
    rw [hstep, countAdd_apply hi, tally_concat]
    split
    · rw [UInt64.toNat_add, hrest]
      exact Nat.mod_eq_of_lt (Nat.lt_of_le_of_lt (Nat.succ_le_succ hle) hlen)
    · rw [UInt64.add_zero, hrest, Nat.add_zero]

/-- All packets are counted within the columns. -/
theorem columnOf_mem {data : Bytes} {c : ℕ} (h : columnOf xxhash64 mode i data = some c) :
    c ∈ Finset.range (columns mode) := by
  obtain ⟨key, -, rfl⟩ := Option.map_eq_some_iff.mp h
  exact Finset.mem_range.mpr (column_lt xxhash64 mode key i)

end Streams

/-! ## Soundness -/

section Soundness

variable {xxhash64 : Hash64} {mode : QflowMode} {stream : List Bytes} {i : ℕ}

/-- A counter against the keys `count_add` builds. -/
theorem sketch_countP (hlen : stream.length < 2 ^ 64) (hi : i < HASHFN_N) (c : ℕ) :
    (sketch xxhash64 mode stream i c).toNat =
      stream.countP (fun data => (fiveTuple data).any (fun key => column xxhash64 mode key i = c)) := by
  rw [sketch_tally hi c stream hlen, tally]
  congr 1
  funext data
  unfold columnOf
  cases fiveTuple data <;> simp

theorem sketch_sum (hlen : stream.length < 2 ^ 64) (hi : i < HASHFN_N) :
    ∑ c ∈ Finset.range (columns mode), (sketch xxhash64 mode stream i c).toNat =
      ipv4Packets stream := by
  have hcounts : ∀ c ∈ Finset.range (columns mode),
      (sketch xxhash64 mode stream i c).toNat = tally (columnOf xxhash64 mode i) stream c :=
    fun c _ => sketch_tally hi c stream hlen
  rw [Finset.sum_congr rfl hcounts, sum_tally _ _ (fun _ _ _ h => columnOf_mem h), ipv4Packets]
  congr 1
  funext data
  rw [columnOf, Option.isSome_map, Bool.eq_iff_iff, fiveTuple_isSome, decide_eq_true_eq]

theorem sketch_fold (hlen : stream.length < 2 ^ 64) (hi : i < HASHFN_N) (hmode : mode ≠ .partitioned)
    (c : ℕ) : (sketch xxhash64 .partitioned stream i c).toNat =
      ∑ c' ∈ Finset.range CMS_COLUMNS.toNat with c' % 65536 = c,
        (sketch xxhash64 mode stream i c').toNat := by
  have hfull : columns mode = CMS_COLUMNS.toNat := if_neg hmode
  have hcounts : ∀ c' ∈ (Finset.range CMS_COLUMNS.toNat).filter (fun c' => c' % 65536 = c),
      (sketch xxhash64 mode stream i c').toNat = tally (columnOf xxhash64 mode i) stream c' :=
    fun c' _ => sketch_tally hi c' stream hlen
  have hfold : columnOf xxhash64 .partitioned i =
      fun data => (columnOf xxhash64 mode i data).map (fun c' => c' % 65536) := by
    funext data
    unfold columnOf
    cases fiveTuple data with
    | none => rfl
    | some key => exact congrArg some (column_partitioned xxhash64 mode key i hmode)
  rw [Finset.sum_congr rfl hcounts, sketch_tally hi c stream hlen, hfold, ← hfull]
  exact tally_map _ _ c stream (fun _ _ _ h => columnOf_mem h)

/-- If the ports read are those of the packets, the sketch is sound for every hash function. -/
theorem SamePorts.sketchSound (h : SamePorts stream) (hlen : stream.length < 2 ^ 64)
    (hi : i < HASHFN_N) : SketchSound xxhash64 mode stream i := by
  have hkeys : fiveTuple = tupleAt (fun _ => SRC_PORT) := funext fiveTuple_eq
  refine ⟨fun key => ?_, fun c => ?_, sketch_sum hlen hi, fun data h cms => countAdd_of_not_ipv4 h cms,
    fun hmode c _ => sketch_fold hlen hi hmode c⟩
  · rw [sketch_tally hi _ stream hlen, occurrences, h key, ← hkeys]
    exact tally_le_map fiveTuple (fun key => column xxhash64 mode key i) stream key
  · rw [sketch_countP hlen hi, hkeys]
    exact (countP_any_congr h _).symm

/-- A hash function that tells one key from all others. -/
def separating (key : FiveTuple) : Hash64 := fun bytes _ => if bytes = key.bytes then 0 else 1

theorem column_separating (key key' : FiveTuple) :
    column (separating key) .single key' 0 = 0 ↔ key' = key := by
  unfold column separating
  constructor
  · intro h
    by_contra hne
    rw [if_neg (fun hb => hne (bytes_inj hb))] at h
    revert h
    decide
  · rintro rfl
    rw [if_pos rfl]
    decide

end Soundness

/-- **The sketch of a stream** is sound in every mode and row and for every hash function if and only
    if every 5-tuple is found as often behind 20 bytes of IPv4 header as the packets carry it.  A
    stream meets this if the ports of its TCP and UDP packets are in place, as they are without IP
    options, and a packet alone meets it only then. -/
theorem sketch_sound_iff (stream : List Bytes) (hlen : stream.length < 2 ^ 64) :
    ((∀ xxhash64 mode i, i < HASHFN_N → SketchSound xxhash64 mode stream i) ↔ SamePorts stream) ∧
    ((∀ data ∈ stream, PortsInPlace data) → SamePorts stream) ∧
    ∀ data, (SamePorts [data] ↔ PortsInPlace data) ∧ (ihl data = 5 → PortsInPlace data) := by
  refine ⟨⟨fun h key => ?_, fun h xxhash64 mode i hi => h.sketchSound hlen hi⟩, samePorts_of_inPlace,
    fun data => ⟨samePorts_singleton data, portsInPlace_of_ihl⟩⟩
  -- a hash function that separates the key counts its packets in a column of their own
  have hcount : ∀ f : Bytes → Option FiveTuple,
      stream.countP (fun data => (f data).any fun k => column (separating key) .single k 0 = 0) =
        tally f stream key := by
    intro f
    rw [tally]
    congr 1
    funext data
    cases f data <;> simp [column_separating]
  have hsketch := @sketch_countP (separating key) .single stream 0 hlen (by decide) 0
  rw [(h (separating key) .single 0 (by decide)).exact 0, hcount, hcount] at hsketch
  rw [hsketch, funext fiveTuple_eq]

/-- A TCP packet from port 1 to port 2. -/
def countedPacket : Bytes := fun k =>
  [0, 0, 0, 0, 0, 0, 0, 0, 0, 0, 0, 0, 8, 0, 0x45, 0, 0, 40, 0, 0, 0, 0, 64, 6, 0x66, 0xCE,
    10, 0, 0, 1, 10, 0, 0, 2, 0, 1, 0, 2].getD k 0

/-- Two packets of one flow, with a hash function that returns the seed. -/
theorem sketch_sound_twice :
    occurrences [countedPacket, countedPacket] ⟨0x0A000001, 0x0A000002, 1, 2, 6⟩ = 2 ∧
      SketchSound (fun _ seed => seed) .shared [countedPacket, countedPacket] 3 := by
  have hlen : [countedPacket, countedPacket].length < 2 ^ 64 := by decide +kernel
  have hports : ∀ data ∈ [countedPacket, countedPacket], PortsInPlace data := by
    intro data hdata
    have hone : data = countedPacket := by simpa using hdata
    rw [hone]
    exact ((sketch_sound_iff [countedPacket] (by decide +kernel)).2.2 countedPacket).2 (by decide)
  exact ⟨by decide +kernel, (sketch_sound_iff _ hlen).1.mpr
    ((sketch_sound_iff _ hlen).2.1 hports) _ _ 3 (by decide)⟩

/-- The same packet with four bytes of IP options. -/
def optionsPacket : Bytes := fun k =>
  [0, 0, 0, 0, 0, 0, 0, 0, 0, 0, 0, 0, 8, 0, 0x46, 0, 0, 44, 0, 0, 0, 0, 64, 6, 0x63, 0xC8,
    10, 0, 0, 1, 10, 0, 0, 2, 1, 1, 1, 1, 0, 1, 0, 2].getD k 0

/-- The column of its 5-tuple stays zero: it is counted with two bytes of its options as ports. -/
theorem sketch_misses_options :
    occurrences [optionsPacket] ⟨0x0A000001, 0x0A000002, 1, 2, 6⟩ = 1 ∧
      ¬SketchSound (separating ⟨0x0A000001, 0x0A000002, 1, 2, 6⟩) .single [optionsPacket] 0 := by
  refine ⟨by decide +kernel, fun h => ?_⟩
  have hbound := h.bound ⟨0x0A000001, 0x0A000002, 1, 2, 6⟩
  revert hbound
  decide +kernel

end QueueDpdk.Chain
