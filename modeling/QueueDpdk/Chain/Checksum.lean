import QueueDpdk.Chain.Frame
import QueueDpdk.Lib.OnesComplement
import QueueDpdk.NatFlow.Translation

/-!
# The header checksum (`nf-chain/src/main.c`, `nf-chain/src/nat_main.c`)

`prepare_one_packet` decrements the time to live and increments the checksum, which it takes for a
little-endian word; `nf_process` rewrites an address and leaves the checksum as it is.

* `HeaderVerifies` — the one's-complement sum of an IPv4 header verifies.
* `headerSum_update`, `headerSum_apply` — what the two stages do to that sum.
* `ttl_checksum_iff` — preparation keeps the checksum right unless it was `0xFFFF` or the time to
  live was 0.
* `forwarded_checksum_iff` — so does the chain, if the words that translation writes equal those it
  replaces.
-/

set_option autoImplicit false

namespace QueueDpdk.Chain

open Lib LibVig NatFlow

def TIME_TO_LIVE : Nat := OFF_ETHHEAD + 8

/-! ## The sum of a header -/

/-- The words of an IPv4 header. -/
def headerWords (data : Bytes) : List ℕ :=
  (List.range (2 * ihl data)).map (fun k => be16 data (OFF_ETHHEAD + 2 * k))

def HeaderVerifies (data : Bytes) : Prop := Verifies 65535 (headerWords data)

instance (data : Bytes) : Decidable (HeaderVerifies data) :=
  inferInstanceAs (Decidable (onesSum 65535 (headerWords data) = 65535))

section Words

variable {data data' : Bytes}

theorem headerWords_le : ∀ w ∈ headerWords data, w ≤ 65535 := by
  intro w hw
  obtain ⟨k, -, rfl⟩ := List.mem_map.mp hw
  have := be16_lt data (OFF_ETHHEAD + 2 * k)
  omega

/-- A header states its length, so it is not all zero. -/
theorem headerWords_pos (h : 5 ≤ ihl data) : 0 < (headerWords data).sum := by
  have hbyte : 0 < (data OFF_ETHHEAD).toNat := by
    have hle : (data OFF_ETHHEAD &&& 0xf).toNat ≤ (data OFF_ETHHEAD).toNat := by
      rw [UInt8.toNat_and]
      exact Nat.and_le_left
    unfold ihl at h
    omega
  refine List.sum_pos_iff_exists_pos_nat.mpr ⟨be16 data (OFF_ETHHEAD + 2 * 0),
    List.mem_map_of_mem (List.mem_range.mpr (by omega)), ?_⟩
  exact Nat.add_pos_left (Nat.mul_pos (by decide) hbyte) _

/-- The words of a header of which some were replaced. -/
theorem headerSum_replace (hihl : ihl data' = ihl data) {changed : Finset ℕ}
    (hsub : changed ⊆ Finset.range (2 * ihl data))
    (h : ∀ k < 2 * ihl data, k ∉ changed →
      be16 data' (OFF_ETHHEAD + 2 * k) = be16 data (OFF_ETHHEAD + 2 * k)) :
    (headerWords data').sum + ∑ k ∈ changed, be16 data (OFF_ETHHEAD + 2 * k) =
      (headerWords data).sum + ∑ k ∈ changed, be16 data' (OFF_ETHHEAD + 2 * k) := by
  unfold headerWords
  rw [hihl]
  exact sum_replace hsub h

/-- A header whose sum is the one that verified, but for `old` and `new`. -/
theorem headerVerifies_iff (hsum : HeaderVerifies data) (hihl : 5 ≤ ihl data') {old new : ℕ}
    (h : (headerWords data').sum + old ≡ (headerWords data).sum + new [MOD 65535]) :
    HeaderVerifies data' ↔ new ≡ old [MOD 65535] :=
  hsum.replace_iff (by decide) headerWords_le headerWords_le h (headerWords_pos hihl)

end Words

/-! ## Preparation -/

section Preparation

@[simp] theorem updateHeader_ttl (data : Bytes) :
    updateHeader data TIME_TO_LIVE = data TIME_TO_LIVE - 1 := by
  show set16 _ (OFF_ETHHEAD + 10) _ TIME_TO_LIVE = _
  rw [set16_apply _ _ (Or.inl (by decide))]
  exact Function.update_self ..

theorem be16_updateHeader_ttl (data : Bytes) : be16 (updateHeader data) TIME_TO_LIVE =
    256 * (data TIME_TO_LIVE - 1).toNat + (data NEXT_PROTO_ID).toNat := by
  have hproto : updateHeader data (TIME_TO_LIVE + 1) = data NEXT_PROTO_ID :=
    updateHeader_apply (by decide) (by decide) (by decide)
  rw [be16, updateHeader_ttl, hproto]

theorem be16_updateHeader_cksum (data : Bytes) : be16 (updateHeader data) HDR_CHECKSUM =
    netWord (get16 data HDR_CHECKSUM + 1).toNat := by
  have hsame : get16 (Function.update data (OFF_ETHHEAD + 8) (data (OFF_ETHHEAD + 8) - 1))
      HDR_CHECKSUM = get16 data HDR_CHECKSUM := by
    rw [get16, get16, getLE_congr 2]
    intro k h0 _
    unfold HDR_CHECKSUM at h0
    rw [Function.update_of_ne (by omega)]
  rw [← hsame]
  exact be16_set16 _ _ _

theorem ihl_updateHeader (data : Bytes) : ihl (updateHeader data) = ihl data := by
  unfold ihl
  rw [updateHeader_apply (by decide) (by decide) (by decide)]

/-- Time to live and checksum are the words the header's sum changes by. -/
theorem headerSum_update {data : Bytes} (h : 5 ≤ ihl data) :
    (headerWords (updateHeader data)).sum +
        (256 * (data TIME_TO_LIVE).toNat + netWord (get16 data HDR_CHECKSUM).toNat) =
      (headerWords data).sum + (256 * (data TIME_TO_LIVE - 1).toNat +
        netWord (get16 data HDR_CHECKSUM + 1).toNat) := by
  have hsub : ({4, 5} : Finset ℕ) ⊆ Finset.range (2 * ihl data) := by
    intro k hk
    rw [Finset.mem_insert, Finset.mem_singleton] at hk
    rw [Finset.mem_range]
    omega
  have hsum := headerSum_replace (ihl_updateHeader data) hsub (by
    intro k _ hk
    rw [Finset.mem_insert, Finset.mem_singleton, not_or] at hk
    have hoff : OFF_ETHHEAD = 14 := rfl
    apply be16_congr <;> apply updateHeader_apply <;> omega)
  rw [Finset.sum_pair (by decide), Finset.sum_pair (by decide)] at hsum
  have httl := be16_updateHeader_ttl data
  have hcksum := be16_updateHeader_cksum data
  have hold : be16 data HDR_CHECKSUM = netWord (get16 data HDR_CHECKSUM).toNat := be16_eq data _
  have hword : be16 data TIME_TO_LIVE =
    256 * (data TIME_TO_LIVE).toNat + (data NEXT_PROTO_ID).toNat := rfl
  change _ + (be16 data TIME_TO_LIVE + be16 data HDR_CHECKSUM) =
    _ + (be16 (updateHeader data) TIME_TO_LIVE + be16 (updateHeader data) HDR_CHECKSUM) at hsum
  omega

/-- Incremented as a little-endian word, the checksum grows by 256, but from all ones it goes to the
    other zero. -/
theorem netWord_succ (cksum : UInt16) :
    (netWord (cksum + 1).toNat + if cksum = 0xFFFF then 256 else 0) ≡
      netWord cksum.toNat + 256 [MOD 65535] := by
  have hlt := cksum.toNat_lt
  have hsucc : (cksum + 1).toNat = (cksum.toNat + 1) % 65536 := by
    rw [UInt16.toNat_add]
    rfl
  split
  · rename_i h
    rw [h]
    rfl
  · rename_i h
    have hne : cksum.toNat ≠ 65535 := fun he => h (UInt16.toNat_inj.mp he)
    rw [hsucc, Nat.mod_eq_of_lt (by omega), Nat.add_zero]
    by_cases hlow : cksum.toNat % 256 = 255
    · -- the carry goes from the high end of the sum to its low end
      have hcarry : netWord cksum.toNat + 256 = netWord (cksum.toNat + 1) + 65535 := by
        unfold netWord
        omega
      rw [hcarry]
      exact Nat.add_modEq_right.symm
    · have hplain : netWord cksum.toNat + 256 = netWord (cksum.toNat + 1) := by
        unfold netWord
        omega
      rw [hplain]

theorem ttl_pred {ttl : UInt8} (h : ttl ≠ 0) : (ttl - 1).toNat + 1 = ttl.toNat := by
  have hpos : ttl.toNat ≠ 0 := fun he => h (UInt8.toNat_inj.mp he)
  have hlt := ttl.toNat_lt
  rw [UInt8.toNat_sub, show (1 : UInt8).toNat = 1 from rfl]
  omega

/-- As long as there is time to live, the sum stays, unless the checksum was all ones. -/
theorem headerSum_prepared {data : Bytes} (h : 5 ≤ ihl data) (httl : data TIME_TO_LIVE ≠ 0) :
    ((headerWords (updateHeader data)).sum +
      if get16 data HDR_CHECKSUM = 0xFFFF then 256 else 0) ≡ (headerWords data).sum [MOD 65535] := by
  have hsum := headerSum_update h
  have hpred := ttl_pred httl
  have hcksum := netWord_succ (get16 data HDR_CHECKSUM)
  unfold Nat.ModEq at hcksum ⊢
  omega

end Preparation

/-! ## Time to live and checksum -/

/-- What is prepared as an IPv4 packet gets its header updated. -/
theorem prepareOnePacket_data (heap : Heap) (acl : AclSearch) (pkt : Nat)
    (htype : isIpv4Hdr (heap pkt).packetType = true ∨ (heap pkt).packetType = 0)
    (hvalid : 0 ≤ isValidIpv4Pkt (heap pkt).data (heap pkt).pktLen) :
    ((prepareOnePacket heap acl pkt).1 pkt).data = updateHeader (heap pkt).data := by
  have h4 : (isIpv4Hdr (heap pkt).packetType || (heap pkt).packetType == 0) = true := by
    rwa [Bool.or_eq_true, beq_iff_eq]
  rw [prepareOnePacket, if_pos h4, if_pos hvalid]
  show (Function.update heap pkt _ pkt).data = _
  rw [Function.update_self]

/-- **Preparation of an accepted packet** whose header verifies: the time to live falls and the
    header verifies again, unless the one was 0 or the checksum all ones. -/
theorem ttl_checksum_iff (heap : Heap) (acl : AclSearch) (pkt : Nat)
    (htype : isIpv4Hdr (heap pkt).packetType = true ∨ (heap pkt).packetType = 0)
    (hvalid : 0 ≤ isValidIpv4Pkt (heap pkt).data (heap pkt).pktLen)
    (hsum : HeaderVerifies (heap pkt).data) :
    (((prepareOnePacket heap acl pkt).1 pkt).data TIME_TO_LIVE < (heap pkt).data TIME_TO_LIVE ∧
      HeaderVerifies ((prepareOnePacket heap acl pkt).1 pkt).data) ↔
    (heap pkt).data TIME_TO_LIVE ≠ 0 ∧ get16 (heap pkt).data HDR_CHECKSUM ≠ 0xFFFF := by
  rw [prepareOnePacket_data heap acl pkt htype hvalid, updateHeader_ttl]
  obtain ⟨data, hdata⟩ : ∃ data, data = (heap pkt).data := ⟨_, rfl⟩
  rw [← hdata] at hvalid hsum ⊢
  have hihl := ihl_of_valid hvalid
  have hihl' : 5 ≤ ihl (updateHeader data) := by rwa [ihl_updateHeader]
  constructor
  · rintro ⟨hless, hver⟩
    have httl : data TIME_TO_LIVE ≠ 0 := by
      intro hzero
      rw [hzero] at hless
      exact absurd hless UInt8.not_lt_zero
    refine ⟨httl, fun hones => ?_⟩
    have hprep : _ ≡ _ + 0 [MOD 65535] := headerSum_prepared hihl httl
    rw [if_pos hones] at hprep
    exact absurd ((headerVerifies_iff hsum hihl' hprep).mp hver) (by decide)
  · rintro ⟨httl, hones⟩
    have hprep : _ ≡ _ + 0 [MOD 65535] := headerSum_prepared hihl httl
    rw [if_neg hones] at hprep
    refine ⟨?_, (headerVerifies_iff hsum hihl' hprep).mpr (Nat.ModEq.refl 0)⟩
    rw [UInt8.lt_iff_toNat_lt]
    have hpred := ttl_pred httl
    omega

/-! ## Translation -/

/-- Whether the words behind an IPv4 header of 20 bytes, where translation expects the ports, are
    options, so that they belong to the header. -/
def HasOptions (data : Bytes) : Prop := 6 ≤ ihl data

instance (data : Bytes) : Decidable (HasOptions data) :=
  inferInstanceAs (Decidable (6 ≤ ihl data))

/-- The sum of the words of the header that translation replaces. -/
def replacedWords (data : Bytes) : Translation → ℕ
  | .keep => 0
  | .dst _ => be16 data DST_ADDR + be16 data (DST_ADDR + 2) +
    if HasOptions data then be16 data DST_PORT else 0
  | .src _ => be16 data SRC_ADDR + be16 data (SRC_ADDR + 2) +
    if HasOptions data then be16 data SRC_PORT else 0

/-- The sum of the words it writes there. -/
def writtenWords (config : NfConfig) (data : Bytes) : Translation → ℕ
  | .keep => 0
  | .dst internalFlow => netWord internalFlow.srcIp.toNat +
    netWord (internalFlow.srcIp.toNat / 65536) +
    if HasOptions data then netWord internalFlow.srcPort.toNat else 0
  | .src externalPort => netWord config.externalAddr.toNat +
    netWord (config.externalAddr.toNat / 65536) +
    if HasOptions data then netWord externalPort.toNat else 0

section Rewriting

variable {data : Bytes}

/-- An address and a port, as words of the header. -/
theorem headerSum_rewrite (h : 5 ≤ ihl data) {a p : ℕ} (ha : 6 ≤ a ∧ a ≤ 8)
    (hp : 10 ≤ p ∧ p ≤ 11) (addr : UInt32) (port : UInt16) {data' : Bytes}
    (hdata : data' = set16 (set32 data (OFF_ETHHEAD + 2 * a) addr) (OFF_ETHHEAD + 2 * p) port) :
    (headerWords data').sum + (be16 data (OFF_ETHHEAD + 2 * a) +
        be16 data (OFF_ETHHEAD + 2 * a + 2) +
        if HasOptions data then be16 data (OFF_ETHHEAD + 2 * p) else 0) =
      (headerWords data).sum + (netWord addr.toNat + netWord (addr.toNat / 65536) +
        if HasOptions data then netWord port.toNat else 0) := by
  have hoff : OFF_ETHHEAD = 14 := rfl
  -- the port is written after the address, so it is read back behind it only
  have hword : ∀ k, k ≠ p → be16 data' (OFF_ETHHEAD + 2 * k) =
      be16 (set32 data (OFF_ETHHEAD + 2 * a) addr) (OFF_ETHHEAD + 2 * k) := by
    intro k hk
    rw [hdata]
    apply be16_congr <;> exact set16_apply _ _ (by omega)
  have hlow : be16 data' (OFF_ETHHEAD + 2 * a) = netWord addr.toNat := by
    rw [hword a (by omega), be16_set32]
  have hhigh : be16 data' (OFF_ETHHEAD + 2 * (a + 1)) = netWord (addr.toNat / 65536) := by
    rw [hword (a + 1) (by omega)]
    exact be16_set32_high _ _ _
  have hport : be16 data' (OFF_ETHHEAD + 2 * p) = netWord port.toNat := by
    rw [hdata, be16_set16]
  have hother : ∀ k, k ≠ a → k ≠ a + 1 → k ≠ p →
      be16 data' (OFF_ETHHEAD + 2 * k) = be16 data (OFF_ETHHEAD + 2 * k) := by
    intro k h0 h1 h2
    rw [hword k h2]
    apply be16_congr <;> exact set32_apply _ _ (by omega)
  have hihl : ihl data' = ihl data := by
    unfold ihl
    rw [hdata, set16_apply _ _ (Or.inl (by omega)), set32_apply _ _ (Or.inl (by omega))]
  by_cases hopt : HasOptions data
  · rw [if_pos hopt, if_pos hopt]
    have hsub : ({a, a + 1, p} : Finset ℕ) ⊆ Finset.range (2 * ihl data) := by
      intro k hk
      simp only [Finset.mem_insert, Finset.mem_singleton] at hk
      unfold HasOptions at hopt
      rw [Finset.mem_range]
      omega
    have hsum := headerSum_replace hihl hsub (by
      intro k _ hk
      simp only [Finset.mem_insert, Finset.mem_singleton, not_or] at hk
      exact hother k hk.1 hk.2.1 hk.2.2)
    have hthree : ∀ f : ℕ → ℕ, ∑ k ∈ {a, a + 1, p}, f k = f a + f (a + 1) + f p := by
      intro f
      rw [Finset.sum_insert (by
        simp only [Finset.mem_insert, Finset.mem_singleton]
        omega), Finset.sum_pair (by omega), Nat.add_assoc]
    rw [hthree, hthree, hlow, hhigh, hport] at hsum
    exact hsum
  · -- the port is behind the header
    rw [if_neg hopt, if_neg hopt]
    unfold HasOptions at hopt
    have hsub : ({a, a + 1} : Finset ℕ) ⊆ Finset.range (2 * ihl data) := by
      intro k hk
      rw [Finset.mem_insert, Finset.mem_singleton] at hk
      rw [Finset.mem_range]
      omega
    have hsum := headerSum_replace hihl hsub (by
      intro k hlt hk
      rw [Finset.mem_insert, Finset.mem_singleton, not_or] at hk
      exact hother k hk.1 hk.2 (by omega))
    rw [Finset.sum_pair (by omega), Finset.sum_pair (by omega), hlow, hhigh] at hsum
    exact hsum

/-- **Translation** changes the sum of a header by the words it writes and those it replaces. -/
theorem headerSum_apply (config : NfConfig) (h : 5 ≤ ihl data) (t : Translation) :
    (headerWords (t.apply config data)).sum + replacedWords data t =
      (headerWords data).sum + writtenWords config data t := by
  cases t with
  | keep => rfl
  | dst internalFlow =>
    exact headerSum_rewrite h (a := 8) (p := 11) (by decide) (by decide) _ _ rfl
  | src externalPort =>
    exact headerSum_rewrite h (a := 6) (p := 10) (by decide) (by decide) _ _ rfl

theorem ihl_apply (config : NfConfig) (t : Translation) : ihl (t.apply config data) = ihl data := by
  unfold ihl
  cases t with
  | keep => rfl
  | dst internalFlow =>
    rw [Translation.apply, rewriteDst_apply internalFlow (by unfold Within; decide)
      (by unfold Within; decide)]
  | src externalPort =>
    rw [Translation.apply, rewriteSrc_apply externalPort (by unfold Within; decide)
      (by unfold Within; decide)]

/-- What translation replaces was not touched by the preparation. -/
theorem replacedWords_updateHeader (t : Translation) :
    replacedWords (updateHeader data) t = replacedWords data t := by
  have hword : ∀ off, 26 ≤ off → be16 (updateHeader data) off = be16 data off := by
    intro off hoff
    rw [be16_eq, be16_eq, get16_updateHeader data hoff]
  have hopt : HasOptions (updateHeader data) ↔ HasOptions data := by
    unfold HasOptions
    rw [ihl_updateHeader]
  cases t with
  | keep => rfl
  | dst internalFlow =>
    simp only [replacedWords, hopt, hword _ (show 26 ≤ DST_ADDR by decide),
      hword _ (show 26 ≤ DST_ADDR + 2 by decide), hword _ (show 26 ≤ DST_PORT by decide)]
  | src externalPort =>
    simp only [replacedWords, hopt, hword _ (show 26 ≤ SRC_ADDR by decide),
      hword _ (show 26 ≤ SRC_ADDR + 2 by decide), hword _ (show 26 ≤ SRC_PORT by decide)]

theorem writtenWords_updateHeader (config : NfConfig) (t : Translation) :
    writtenWords config (updateHeader data) t = writtenWords config data t := by
  have hopt : HasOptions (updateHeader data) ↔ HasOptions data := by
    unfold HasOptions
    rw [ihl_updateHeader]
  cases t <;> simp only [writtenWords, hopt]

/-- The arguments of `nf_process` are not touched by the preparation, apart from the packet. -/
theorem nfCall_updateHeader (portid : UInt16) (data : Bytes) (env : NatEnv) :
    nfCall portid (updateHeader data) env =
      { nfCall portid data env with payload := updateHeader data } := by
  have hether : get16 (updateHeader data) ETHER_TYPE = get16 data ETHER_TYPE := by
    rw [get16, get16, getLE_congr 2]
    intro k _ hk
    unfold ETHER_TYPE at hk
    exact updateHeader_apply (by omega) (by omega) (by omega)
  have hproto : updateHeader data NEXT_PROTO_ID = data NEXT_PROTO_ID :=
    updateHeader_apply (by decide) (by decide) (by decide)
  unfold nfCall
  rw [hether, hproto, get32_updateHeader data (by decide), get32_updateHeader data (by decide),
    get16_updateHeader data (by decide), get16_updateHeader data (by decide)]

end Rewriting

/-- **Forwarding an accepted packet** whose header verifies, in any state of the table: its header
    verifies again exactly if the words that translation writes equal those it replaces, up to the
    256 that preparation loses if the checksum was all ones. -/
theorem forwarded_checksum_iff (config : NfConfig) (dropWhenFull : Bool) (manager : FlowManager)
    (portid : UInt16) (env : NatEnv) (heap : Heap) (acl : AclSearch) (pkt : Nat)
    (htype : isIpv4Hdr (heap pkt).packetType = true ∨ (heap pkt).packetType = 0)
    (hvalid : 0 ≤ isValidIpv4Pkt (heap pkt).data (heap pkt).pktLen)
    (hsum : HeaderVerifies (heap pkt).data) (httl : (heap pkt).data TIME_TO_LIVE ≠ 0) :
    let received := (heap pkt).data
    let prepared := ((prepareOnePacket heap acl pkt).1 pkt).data
    let t := translation env.between config dropWhenFull manager (nfCall portid received env)
    HeaderVerifies (nfProcessWith env.between config dropWhenFull manager
        (nfCall portid prepared env)).2.1 ↔
      writtenWords config received t ≡ replacedWords received t +
        (if get16 received HDR_CHECKSUM = 0xFFFF then 256 else 0) [MOD 65535] := by
  dsimp only
  rw [prepareOnePacket_data heap acl pkt htype hvalid, nfProcessWith_payload, nfCall_updateHeader,
    translation_congr]
  obtain ⟨data, hdata⟩ : ∃ data, data = (heap pkt).data := ⟨_, rfl⟩
  rw [← hdata] at hvalid hsum httl ⊢
  obtain ⟨t, ht⟩ : ∃ t, t = translation env.between config dropWhenFull manager
    (nfCall portid data env) := ⟨_, rfl⟩
  rw [← ht]
  have hihl := ihl_of_valid hvalid
  have hihl' : 5 ≤ ihl (updateHeader data) := by rwa [ihl_updateHeader]
  apply headerVerifies_iff hsum
  · rwa [ihl_apply]
  · have happly := headerSum_apply config hihl' t
    rw [replacedWords_updateHeader, writtenWords_updateHeader] at happly
    have hprep := (headerSum_prepared hihl httl).add_right (writtenWords config data t)
    rw [← Nat.add_assoc, happly, Nat.add_right_comm]
    exact hprep

/-! ## Packets -/

/-- A TCP packet from 10.0.0.1:5000 to 10.0.0.2:80 with this time to live and checksum. -/
def tcpPacket (ttl high low : UInt8) : Mbuf :=
  ⟨0, 60, fun k => [0, 0, 0, 0, 0, 0, 0, 0, 0, 0, 0, 0, 8, 0, 0x45, 0, 0, 20, 0, 0, 0, 0, ttl, 6,
    high, low, 10, 0, 0, 1, 10, 0, 0, 2, 0x13, 0x88, 0, 80].getD k 0⟩

theorem ttl_checksum_tcp :
    let heap : Heap := fun _ => tcpPacket 64 0x66 0xE2
    ((prepareOnePacket heap ⟨[], [], [], []⟩ 0).1 0).data TIME_TO_LIVE < 64 ∧
      HeaderVerifies ((prepareOnePacket heap ⟨[], [], [], []⟩ 0).1 0).data :=
  (ttl_checksum_iff (fun _ => tcpPacket 64 0x66 0xE2) ⟨[], [], [], []⟩ 0 (Or.inr rfl)
    (by decide +kernel) (by decide +kernel)).mpr (by decide +kernel)

/-- A packet that arrives with time to live 0 gets 255, and a wrong checksum. -/
theorem ttl_wraps :
    let heap : Heap := fun _ => tcpPacket 0 0xA6 0xE2
    (0 ≤ isValidIpv4Pkt (heap 0).data (heap 0).pktLen ∧ HeaderVerifies (heap 0).data) ∧
      ((prepareOnePacket heap ⟨[], [], [], []⟩ 0).1 0).data TIME_TO_LIVE = 255 ∧
      ¬HeaderVerifies ((prepareOnePacket heap ⟨[], [], [], []⟩ 0).1 0).data := by
  decide +kernel

/-- The same from 2.1.0.1, whose two words add up to those of the external address 1.1.1.1. -/
def sameSumPacket : Mbuf :=
  { tcpPacket 64 0x6E 0xE1 with data := set32 (tcpPacket 64 0x6E 0xE1).data SRC_ADDR 0x01000102 }

theorem forwarded_checksum_sameSum :
    let heap : Heap := fun _ => sameSumPacket
    let env : NatEnv := ⟨0, 0, 0, fun m => m, fun m => m⟩
    let sent := (nfProcessWith env.between nfInitConfig false (freshShard 1024)
      (nfCall 0 ((prepareOnePacket heap ⟨[], [], [], []⟩ 0).1 0).data env)).2.1
    get32 sent SRC_ADDR = nfInitConfig.externalAddr ∧ HeaderVerifies sent :=
  ⟨by decide +kernel, (forwarded_checksum_iff nfInitConfig false (freshShard 1024) 0
    ⟨0, 0, 0, fun m => m, fun m => m⟩ (fun _ => sameSumPacket) ⟨[], [], [], []⟩ 0 (Or.inr rfl)
    (by decide +kernel) (by decide +kernel) (by decide +kernel)).mpr (by decide +kernel)⟩

/-- Translation breaks the checksum of an outgoing packet. -/
theorem forwarded_checksum_lan :
    let heap : Heap := fun _ => tcpPacket 64 0x66 0xE2
    let env : NatEnv := ⟨0, 0, 0, fun m => m, fun m => m⟩
    (0 ≤ isValidIpv4Pkt (heap 0).data (heap 0).pktLen ∧ HeaderVerifies (heap 0).data) ∧
      ¬HeaderVerifies (nfProcessWith env.between nfInitConfig false (freshShard 1024)
        (nfCall 0 ((prepareOnePacket heap ⟨[], [], [], []⟩ 0).1 0).data env)).2.1 := by
  decide +kernel

end QueueDpdk.Chain
