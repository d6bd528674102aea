import QueueDpdk.Lib.Bytes
import QueueDpdk.Locality.Bench
import QueueDpdk.Locality.FlowAnalysis

/-!
# Captures (`locality/main.c`) and what the two analyses make of them

`main.c` prints `burst_id,queue,src_ip,dst_ip,src_port,dst_port,proto` for every TCP and UDP packet.
`analysis/locality.py` reads the first field as the queue and the others as the flow.

* `fiveTuple`, `numbered`, `captureLines` — what is printed, and the number of each burst.
* `scan_capture` — with `burst_id` as the key of the rows, the groups are the bursts that printed
  something, whatever other lines stand between theirs.
* `counts_agree` — both analyses find these bursts, with the same counts.
* `analyses_agree_iff` — they agree on the queues as well exactly if every such burst has the number
  of its queue.
* `queueStats_capture` — what they write about the queues of a capture.
-/

set_option autoImplicit false

namespace QueueDpdk.Locality

open Lib

/-! ## The capture -/

def ETHER_HDR : ℕ := 14
def IPV4_HDR : ℕ := 20
def RTE_ETHER_TYPE_IPV4 : ℕ := 0x0800
def IPPROTO_TCP : ℕ := 6
def IPPROTO_UDP : ℕ := 17

/-- Four bytes in network order. -/
def be32 (data : Bytes) (off : ℕ) : ℕ := 65536 * be16 data off + be16 data (off + 2)

/-- What is printed of a packet. -/
structure FiveTuple where
  srcIp : ℕ
  dstIp : ℕ
  srcPort : ℕ
  dstPort : ℕ
  proto : ℕ

/-- The loop over the packets of a burst: packets that are not TCP or UDP over IPv4 are not printed.
    Both layer-4 headers begin with the ports. -/
def fiveTuple (data : Bytes) : Option FiveTuple :=
  if be16 data 12 ≠ RTE_ETHER_TYPE_IPV4 then none
  else
    let proto := (data (ETHER_HDR + 9)).toNat
    let layer4 := ETHER_HDR + IPV4_HDR
    if proto = IPPROTO_TCP ∨ proto = IPPROTO_UDP then
      some
        { srcIp := be32 data (ETHER_HDR + 12)
          dstIp := be32 data (ETHER_HDR + 16)
          srcPort := be16 data layer4
          dstPort := be16 data (layer4 + 2)
          proto := proto }
    else none

/-- One call of `rte_eth_rx_burst`: the queue, an `int`, and the packets received. -/
structure Poll where
  queue : ℕ
  queue_lt : queue < 2 ^ 31
  packets : List Bytes

/-- `burst_id` also counts the bursts without packets. -/
def numbered (burstId : ℕ) : List Poll → List (ℕ × Poll)
  | [] => []
  | poll :: polls => (burstId, poll) :: numbered ((burstId + 1) % 2 ^ 64) polls

/-- A number as `printf` writes it. -/
def decimal (n : ℕ) : List Char := Nat.toDigits 10 n

def FiveTuple.fields (t : FiveTuple) : Flow :=
  [decimal t.srcIp, decimal t.dstIp, decimal t.srcPort, decimal t.dstPort, decimal t.proto]

/-- The fields of a line. -/
def line (burstId queue : ℕ) (t : FiveTuple) : Row :=
  decimal burstId :: decimal queue :: t.fields

def Poll.tuples (poll : Poll) : List FiveTuple := poll.packets.filterMap fiveTuple

def burstLines (b : ℕ × Poll) : List Row := b.2.tuples.map (line b.1 b.2.queue)

def captureLines (polls : List Poll) : List Row := (numbered 0 polls).flatMap burstLines

/-- The bursts that print something. -/
def printed (polls : List Poll) : List (ℕ × Poll) :=
  (numbered 0 polls).filter (fun b => !b.2.tuples.isEmpty)

/-- `burst_id` increases from burst to burst: it has not wrapped around. -/
def Increasing (polls : List Poll) : Prop := ((numbered 0 polls).map Prod.fst).Pairwise (· < ·)

instance : DecidablePred Increasing := fun _ => inferInstanceAs (Decidable (List.Pairwise _ _))

/-- Lines of the capture begin with a number, and other lines of the file do not. -/
def IsNumbered (row : Row) : Prop := strIsdigit (strip (row.getD 0 [])) = true

instance : DecidablePred IsNumbered := fun _ => inferInstanceAs (Decidable (_ = true))

/-- The rows of a file with a capture in it. -/
def IsCapture (polls : List Poll) (rows : List Row) : Prop :=
  rows.filter (fun row => IsNumbered row) = captureLines polls

/-! ## Reading a capture -/

section Numbers

variable {polls : List Poll} {b : ℕ × Poll} {n : ℕ}

theorem numbered_lt (hn : n < 2 ^ 64) (hb : b ∈ numbered n polls) : b.1 < 2 ^ 64 := by
  induction polls generalizing n with
  | nil => cases hb
  | cons poll polls ih =>
    rcases List.mem_cons.mp hb with rfl | hb
    · exact hn
    · exact ih (Nat.mod_lt _ (by decide)) hb

theorem mem_printed (hb : b ∈ printed polls) : b.1 < 2 ^ 64 ∧ b.2.tuples ≠ [] := by
  obtain ⟨hb, hne⟩ := List.mem_filter.mp hb
  exact ⟨numbered_lt (by decide) hb, by simpa using hne⟩

/-- Only bursts that print something have lines. -/
theorem captureLines_eq (polls : List Poll) :
    captureLines polls = (printed polls).flatMap burstLines := by
  unfold captureLines printed
  induction numbered 0 polls with
  | nil => rfl
  | cons b bs ih =>
    cases htuples : b.2.tuples <;> simp [burstLines, htuples, ih]

theorem isdigit_decimal (n : ℕ) : strIsdigit (decimal n) = true :=
  isdigit_of_isdecimal (isDecimal_toDigits n).isdecimal

theorem strip_decimal (n : ℕ) : strip (decimal n) = decimal n :=
  strip_of_isdigit (isdigit_decimal n)

/-- A file with nothing else in it. -/
theorem isCapture_captureLines (polls : List Poll) : IsCapture polls (captureLines polls) := by
  refine List.filter_eq_self.mpr fun row hrow => ?_
  obtain ⟨b, -, hrow⟩ := List.mem_flatMap.mp hrow
  obtain ⟨t, -, rfl⟩ := List.mem_map.mp hrow
  have hdigit : strIsdigit (strip (decimal b.1)) = true := by
    rw [strip_decimal]
    exact isdigit_decimal b.1
  exact decide_eq_true hdigit

/-- The numbers of a capture are read back. -/
theorem pyInt_decimal (hn : n < 2 ^ 64) : pyInt (decimal n) = some (n : ℤ) := by
  have hle : 2 ^ 64 ≤ 10 ^ MAX_STR_DIGITS :=
    Nat.le_trans (by decide : 2 ^ 64 ≤ 10 ^ 20) (Nat.pow_le_pow_right (by decide) (by decide))
  exact pyInt_toDigits (Nat.lt_of_lt_of_le hn hle)

end Numbers

section Scans

variable {ι : Type} {S : Script ι} {item : ℕ × Poll → FiveTuple → ι} {polls : List Poll}
  {rows : List Row}

/-- Rows that are skipped can be left out. -/
theorem items_filter {p : Row → Prop} [DecidablePred p]
    (hskip : ∀ row, ¬p row → S.read row = some none) (rows : List Row) :
    items S rows = items S (rows.filter (fun row => p row)) := by
  unfold items
  rw [List.filterMap_filter]
  refine List.filterMap_congr fun row _ => ?_
  by_cases hrow : p row
  · simp [hrow]
  · simp [hrow, hskip row hrow]

/-- The items of a capture. -/
theorem items_captureLines
    (hread : ∀ b ∈ printed polls, ∀ t, S.read (line b.1 b.2.queue t) = some (some (item b t))) :
    items S (captureLines polls) = ((printed polls).map fun b => b.2.tuples.map (item b)).flatten := by
  rw [captureLines_eq, items, List.filterMap_flatMap, List.flatMap_def]
  congr 1
  refine List.map_congr_left fun b hb => ?_
  rw [burstLines, List.filterMap_map]
  have htuple : ∀ t, ((fun row => (S.read row).join) ∘ line b.1 b.2.queue) t = some (item b t) := by
    intro t
    simp [hread b hb t]
  rw [List.filterMap_congr fun t _ => htuple t, List.filterMap_eq_map']

/-- Each burst is a group. -/
theorem groups_capture (hkey : ∀ b t, S.key (item b t) = b.1) (hinc : Increasing polls) :
    groups S.key ((printed polls).map fun b => b.2.tuples.map (item b)).flatten =
      (printed polls).map fun b => b.2.tuples.map (item b) := by
  have hlt : (printed polls).Pairwise (fun b b' => b.1 < b'.1) :=
    (List.pairwise_map.mp hinc).filter _
  have hburst : ∀ b : ℕ × Poll, ∀ x ∈ b.2.tuples.map (item b), S.key x = b.1 := by
    intro b x hx
    obtain ⟨t, -, rfl⟩ := List.mem_map.mp hx
    exact hkey b t
  refine groups_flatten ?_ ?_ (List.pairwise_map.mpr (hlt.imp ?_))
  · intro g hg
    obtain ⟨b, hb, rfl⟩ := List.mem_map.mp hg
    simpa using (mem_printed hb).2
  · intro g hg x hx y hy
    obtain ⟨b, hb, rfl⟩ := List.mem_map.mp hg
    rw [hburst b x hx, hburst b y hy]
  · intro b b' hbb' x hx y hy
    rw [hburst b x hx, hburst b' y hy]
    omega

/-- **What a script makes of a capture** if it reads `burst_id` as the key of a row and skips the
    lines that do not begin with a number: one record for each burst that printed something. -/
theorem scan_capture (S : Script ι) (item : ℕ × Poll → FiveTuple → ι)
    (hskip : ∀ row, ¬IsNumbered row → S.read row = some none)
    (hread : ∀ b ∈ printed polls, ∀ t, S.read (line b.1 b.2.queue t) = some (some (item b t)))
    (hkey : ∀ b t, S.key (item b t) = b.1) (hinc : Increasing polls)
    (hrows : IsCapture polls rows) : scanRows S rows =
      some ((printed polls).mapIdx fun k b => groupRecord S k (b.2.tuples.map (item b))) := by
  have hall : ∀ row ∈ rows, (S.read row).isSome := by
    intro row hrow
    by_cases hnumber : IsNumbered row
    · have hline : row ∈ captureLines polls := by
        rw [← hrows]
        exact List.mem_filter.mpr ⟨hrow, by simpa using hnumber⟩
      rw [captureLines_eq] at hline
      obtain ⟨b, hb, hline⟩ := List.mem_flatMap.mp hline
      obtain ⟨t, -, rfl⟩ := List.mem_map.mp hline
      simp [hread b hb t]
    · simp [hskip row hnumber]
  have hitems : items S rows =
      ((printed polls).map fun b => b.2.tuples.map (item b)).flatten := by
    rw [items_filter hskip, hrows, items_captureLines hread]
  rw [scanRows_eq, if_pos hall, scan_groups, hitems, groups_capture hkey hinc]
  exact congrArg some (List.ext_getElem (by simp) (by simp))

end Scans

/-! ## The two scripts -/

def Bench.itemOf (b : ℕ × Poll) (t : FiveTuple) : Bench.Item := ⟨b.1, b.2.queue, t.fields⟩

def Analysis.itemOf (b : ℕ × Poll) (t : FiveTuple) : Analysis.Item :=
  ⟨b.1, decimal b.2.queue :: t.fields⟩

section Scripts

variable {burstId queue : ℕ} {row : Row}

theorem Bench.read_of_not_isNumbered (h : ¬IsNumbered row) : Bench.read row = some none := by
  rw [Bench.read_eq, if_neg fun hnumber => h hnumber.2]

theorem Bench.read_line (hid : burstId < 2 ^ 64) (hqueue : queue < 2 ^ 64) (t : FiveTuple) :
    Bench.read (line burstId queue t) = some (some ⟨burstId, queue, t.fields⟩) := by
  have hfirst : (line burstId queue t).getD 0 [] = decimal burstId := rfl
  have hsecond : (line burstId queue t).getD 1 [] = decimal queue := rfl
  have hlen : 7 ≤ (line burstId queue t).length := Nat.le_refl 7
  have hdigit : strIsdigit (strip (decimal burstId)) = true := by
    rw [strip_decimal]
    exact isdigit_decimal burstId
  rw [Bench.read_eq, hfirst, hsecond, if_pos ⟨hlen, hdigit⟩, pyInt_decimal hid,
    pyInt_decimal hqueue]
  rfl

theorem Analysis.read_of_not_isNumbered (h : ¬IsNumbered row) :
    Analysis.read row = some none := by
  cases row with
  | nil => rfl
  | cons first rest =>
    have hdigit : strIsdigit first = false := by
      by_contra hdigit
      have hdigit : strIsdigit first = true := by simpa using hdigit
      apply h
      show strIsdigit (strip first) = true
      rwa [strip_of_isdigit hdigit]
    rw [Analysis.read, if_pos hdigit]

/-- The first field is taken for the queue. -/
theorem Analysis.read_line (hid : burstId < 2 ^ 64) (queue : ℕ) (t : FiveTuple) :
    Analysis.read (line burstId queue t) = some (some ⟨burstId, decimal queue :: t.fields⟩) := by
  rw [line, Analysis.read, if_neg (by simp [isdigit_decimal]), pyInt_decimal hid]

end Scripts

/-- The counts of two records are the same. -/
def Burst.SameCounts (b b' : Burst) : Prop :=
  b.flussi = b'.flussi ∧ b.pacchettiConsecutivi = b'.pacchettiConsecutivi ∧
    b.pacchettiTotali = b'.pacchettiTotali

def Burst.SameBurst (b b' : Burst) : Prop := b.coda = b'.coda ∧ b.SameCounts b'

/-- **Two analyses agree**: they find the same bursts, with the same queues and counts, and so they
    write the same statistics for each queue. -/
structure Agree (bench analysis : List Burst) : Prop where
  bursts : List.Forall₂ Burst.SameBurst bench analysis
  stats : ∀ (F : Type) (mean std : List ℕ → F),
    (Bench.flowAnalysis mean std bench).queueStats.Perm
      (Analysis.flowAnalysis mean std analysis).queueStats

/-- What the scripts read from the lines of a burst. -/
def Poll.flows (poll : Poll) : List Flow := poll.tuples.map FiveTuple.fields

def benchRecord (b : ℕ × Poll) : Burst := (countOf b.2.flows).record b.1 b.2.queue

def analysisRecord (k : ℕ) (b : ℕ × Poll) : Burst :=
  (countOf (b.2.flows.map (decimal b.2.queue :: ·))).record k b.1

section Agreement

variable {polls : List Poll} {rows : List Row}

theorem Bench.burstAnalysis_capture (hinc : Increasing polls) (hrows : IsCapture polls rows) :
    Bench.burstAnalysis rows =
      some ((printed polls).mapIdx fun _ b => benchRecord b, (printed polls).length) := by
  have hscan := scan_capture Bench.script Bench.itemOf (fun row => Bench.read_of_not_isNumbered)
    (fun b hb t => Bench.read_line (mem_printed hb).1 (Nat.lt_trans b.2.queue_lt (by decide)) t)
    (fun _ _ => rfl) hinc hrows
  have hrecord : ∀ k, ∀ b ∈ printed polls,
      groupRecord Bench.script k (b.2.tuples.map (Bench.itemOf b)) = benchRecord b := by
    intro k b hb
    rw [groupRecord_map Bench.script (fun _ c => c.record b.1 b.2.queue) (mem_printed hb).2
      fun _ _ _ => rfl]
    rfl
  rw [Bench.burstAnalysis, hscan, mapIdx_congr hrecord]
  simp

theorem Analysis.burstAnalysis_capture (hinc : Increasing polls) (hrows : IsCapture polls rows) :
    Analysis.burstAnalysis rows = some ((printed polls).mapIdx analysisRecord) := by
  have hscan := scan_capture Analysis.script Analysis.itemOf
    (fun row => Analysis.read_of_not_isNumbered)
    (fun b hb t => Analysis.read_line (mem_printed hb).1 b.2.queue t) (fun _ _ => rfl) hinc hrows
  have hrecord : ∀ k, ∀ b ∈ printed polls,
      groupRecord Analysis.script k (b.2.tuples.map (Analysis.itemOf b)) = analysisRecord k b := by
    intro k b hb
    rw [groupRecord_map Analysis.script (fun k c => c.record k b.1) (mem_printed hb).2
      fun _ _ _ => rfl, analysisRecord, Poll.flows, List.map_map]
    rfl
  rw [Analysis.burstAnalysis, hscan, mapIdx_congr hrecord]

/-- The counts of a burst do not depend on the field that is in front of its flows. -/
theorem sameCounts (k : ℕ) (b : ℕ × Poll) : (benchRecord b).SameCounts (analysisRecord k b) := by
  have hinj : Function.Injective (decimal b.2.queue :: · : Flow → Flow) :=
    List.cons_injective
  unfold benchRecord analysisRecord
  rw [countOf_map hinj]
  refine ⟨?_, rfl, rfl⟩
  simp [Count.record, Finset.card_image_of_injective _ hinj]

/-- Two records agree on the queue if the burst has its number. -/
theorem sameBurst_iff (k : ℕ) (b : ℕ × Poll) :
    (benchRecord b).SameBurst (analysisRecord k b) ↔ b.1 = b.2.queue := by
  have hcoda : (benchRecord b).coda = (analysisRecord k b).coda ↔ b.1 = b.2.queue := by
    show (b.2.queue : ℤ) = (b.1 : ℤ) ↔ b.1 = b.2.queue
    omega
  rw [Burst.SameBurst, hcoda]
  exact and_iff_left (sameCounts k b)

/-- Bursts that agree have the same statistics. -/
theorem agree_of_bursts {bench analysis : List Burst}
    (h : List.Forall₂ Burst.SameBurst bench analysis) :
    Agree bench analysis := by
  refine ⟨h, fun F mean std => ?_⟩
  have hsample : bench.map Burst.sample = analysis.map Burst.sample := by
    induction h with
    | nil => rfl
    | cons hb _ ih =>
      obtain ⟨hcoda, hflussi, hconsecutivi, -⟩ := hb
      simp [Burst.sample, hcoda, hflussi, hconsecutivi, ih]
  have hperm := flowAnalysis_perm mean std bench
  rwa [Analysis.flowAnalysis, burstsPerQueue_congr hsample] at hperm

/-- **On every capture the two analyses find the same bursts, with the same counts.** -/
theorem counts_agree (polls : List Poll) :
    List.Forall₂ Burst.SameCounts ((printed polls).mapIdx fun _ b => benchRecord b)
      ((printed polls).mapIdx analysisRecord) :=
  (forall₂_mapIdx_iff (P := fun _ => True) fun k b => iff_true_intro (sameCounts k b)).mpr
    fun _ _ => trivial

end Agreement

/-- **The two analyses agree on a capture** exactly if every burst that printed a line has the number
    of its queue. -/
theorem analyses_agree_iff {polls : List Poll} {rows : List Row} (hinc : Increasing polls)
    (hrows : IsCapture polls rows) :
    (∃ bench ret analysis, Bench.burstAnalysis rows = some (bench, ret) ∧
      Analysis.burstAnalysis rows = some analysis ∧ Agree bench analysis) ↔
      ∀ b ∈ printed polls, b.1 = b.2.queue := by
  have hbench := Bench.burstAnalysis_capture hinc hrows
  have hanalysis := Analysis.burstAnalysis_capture hinc hrows
  rw [← forall₂_mapIdx_iff (fun k b => sameBurst_iff k b)]
  constructor
  · rintro ⟨bench, ret, analysis, hb, ha, hagree⟩
    rw [hbench] at hb
    rw [hanalysis] at ha
    cases hb
    cases ha
    exact hagree.bursts
  · intro h
    exact ⟨_, _, _, hbench, hanalysis, agree_of_bursts h⟩

/-- A TCP packet between two addresses. -/
def tcpPacket (srcIp dstIp : UInt8) : Bytes := fun k =>
  if k = 12 then 8 else if k = 23 then 6 else if k = 29 then srcIp else if k = 33 then dstIp else 0

/-- The first poll of each of two queues. -/
theorem analyses_agree_first_polls : ∃ bench ret analysis,
    Bench.burstAnalysis (captureLines [⟨0, by decide, [tcpPacket 1 2, tcpPacket 1 2]⟩,
      ⟨1, by decide, [tcpPacket 3 4]⟩]) = some (bench, ret) ∧
    Analysis.burstAnalysis (captureLines [⟨0, by decide, [tcpPacket 1 2, tcpPacket 1 2]⟩,
      ⟨1, by decide, [tcpPacket 3 4]⟩]) = some analysis ∧ Agree bench analysis :=
  (analyses_agree_iff (by decide +kernel) (isCapture_captureLines _)).mpr (by decide +kernel)

/-- The second poll of the only queue. -/
theorem analyses_disagree_second_poll :
    ¬∀ (polls : List Poll) (rows : List Row), Increasing polls → IsCapture polls rows →
      ∃ bench ret analysis, Bench.burstAnalysis rows = some (bench, ret) ∧
        Analysis.burstAnalysis rows = some analysis ∧ Agree bench analysis := by
  intro h
  obtain ⟨bench, ret, analysis, hbench, hanalysis, hagree⟩ :=
    h [⟨0, by decide, []⟩, ⟨0, by decide, [tcpPacket 1 2]⟩] _ (by decide +kernel)
      (isCapture_captureLines _)
  have hb : Bench.burstAnalysis (captureLines
      [⟨0, by decide, []⟩, ⟨0, by decide, [tcpPacket 1 2]⟩]) = some ([⟨1, 0, 1, 1, 1⟩], 1) := by
    decide +kernel
  have ha : Analysis.burstAnalysis (captureLines
      [⟨0, by decide, []⟩, ⟨0, by decide, [tcpPacket 1 2]⟩]) = some [⟨0, 1, 1, 1, 1⟩] := by
    decide +kernel
  rw [hb] at hbench
  rw [ha] at hanalysis
  cases hbench
  cases hanalysis
  obtain ⟨⟨hcoda, -⟩, -⟩ := List.forall₂_cons.mp hagree.bursts
  cases hcoda

/-! ## The statistics of a capture -/

/-- The distinct flows of a burst and its longest run. -/
def Poll.Sample (poll : Poll) (n : ℕ × ℕ) : Prop :=
  n.1 = poll.flows.toFinset.card ∧ LongestRun poll.flows n.2

/-- What the two scripts write about the queues of a capture, if its bursts have these numbers: the
    one about each queue in ascending order, from all its bursts as they come, the other one about
    each burst alone, under `burst_id`. -/
structure CaptureStats {F : Type} (mean std : List ℕ → F) (polls : List Poll)
    (sample : ℕ × Poll → ℕ × ℕ) (bench analysis : FlowStats F) : Prop where
  samples : ∀ b ∈ printed polls, b.2.Sample (sample b)
  ascending : (bench.queueStats.map QueueStats.coda).Pairwise (· < ·)
  queues : ∀ q, q ∈ bench.queueStats ↔ ∃ b ∈ printed polls, q = queueStats mean std b.2.queue
    (((printed polls).filter fun b' => b'.2.queue = b.2.queue).map sample)
  bursts : ∀ q, q ∈ analysis.queueStats ↔ ∃ b ∈ printed polls,
    q = queueStats mean std b.1 [sample b]

/-- The numbers in the record of a burst. -/
def sampleOf (b : ℕ × Poll) : ℕ × ℕ := (benchRecord b).sample.2

section Samples

variable {polls : List Poll}

theorem sample_sampleOf (b : ℕ × Poll) : b.2.Sample (sampleOf b) := by
  obtain ⟨hflows, -, -, hlongest, hle, -⟩ := countOf_spec b.2.flows
  refine ⟨congrArg Finset.card hflows, ?_⟩
  have hmax : (sampleOf b).2 = (countOf b.2.flows).maxConsecutive := Nat.max_eq_left hle
  rwa [hmax]

theorem bench_samples (polls : List Poll) :
    ((printed polls).mapIdx fun _ b => benchRecord b).map Burst.sample =
      (printed polls).map fun b => ((b.2.queue : ℤ), sampleOf b) :=
  map_mapIdx (f := fun _ b => benchRecord b) (fun _ _ => rfl) _

theorem analysis_samples (polls : List Poll) :
    ((printed polls).mapIdx analysisRecord).map Burst.sample =
      (printed polls).map fun b => ((b.1 : ℤ), sampleOf b) := by
  refine map_mapIdx (fun k b => ?_) _
  obtain ⟨hflussi, hconsecutivi, -⟩ := sameCounts k b
  exact Prod.ext rfl (Prod.ext hflussi.symm hconsecutivi.symm)

theorem nodup_printed (hinc : Increasing polls) :
    ((printed polls).map fun b => (b.1 : ℤ)).Nodup := by
  have hlt : (printed polls).Pairwise (fun b b' => b.1 < b'.1) :=
    (List.pairwise_map.mp hinc).filter _
  exact List.pairwise_map.mpr (hlt.imp fun h => by omega)

end Samples

/-- **The statistics of a capture.**  The two scripts find the same counts, and what they write about
    the queues comes from them. -/
theorem queueStats_capture {F : Type} (mean std : List ℕ → F) {polls : List Poll} {rows : List Row}
    (hinc : Increasing polls) (hrows : IsCapture polls rows) : ∃ bench ret analysis sample,
      Bench.burstAnalysis rows = some (bench, ret) ∧ Analysis.burstAnalysis rows = some analysis ∧
      List.Forall₂ Burst.SameCounts bench analysis ∧
      CaptureStats mean std polls sample (Bench.flowAnalysis mean std bench)
        (Analysis.flowAnalysis mean std analysis) := by
  refine ⟨_, _, _, sampleOf, Bench.burstAnalysis_capture hinc hrows,
    Analysis.burstAnalysis_capture hinc hrows, counts_agree polls, fun b _ => sample_sampleOf b,
    flowAnalysis_sorted mean std _, fun q => ?_, fun q => ?_⟩
  · rw [(flowAnalysis_perm mean std _).mem_iff, flowAnalysis_spec mean std (bench_samples polls)]
    simp
  · rw [flowAnalysis_spec mean std (analysis_samples polls)]
    refine exists_congr fun b => and_congr_right fun hb => ?_
    rw [filter_key (nodup_printed hinc) hb]
    rfl

/-- Three polls of two queues. -/
def threePolls : List Poll :=
  [⟨0, Nat.two_pow_pos 31, [tcpPacket 1 2, tcpPacket 1 2]⟩,
    ⟨1, Nat.one_lt_two_pow (Nat.succ_ne_zero 30), [tcpPacket 3 4]⟩,
    ⟨0, Nat.two_pow_pos 31, [tcpPacket 5 6]⟩]

/-- Two bursts of queue 0, and one of queue 1 between them. -/
theorem queueStats_capture_threePolls : ∃ bench ret analysis sample,
    Bench.burstAnalysis (captureLines threePolls) = some (bench, ret) ∧
    Analysis.burstAnalysis (captureLines threePolls) = some analysis ∧
    List.Forall₂ Burst.SameCounts bench analysis ∧
    CaptureStats List.sum List.length threePolls sample
      (Bench.flowAnalysis List.sum List.length bench)
      (Analysis.flowAnalysis List.sum List.length analysis) :=
  queueStats_capture List.sum List.length (by decide +kernel) (isCapture_captureLines threePolls)

end QueueDpdk.Locality
