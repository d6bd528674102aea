import QueueDpdk.Lib.Bytes
import QueueDpdk.PollLoop.Transmit

/-!
# Preparation and verdicts of the access control list (`nf-chain/src/main.c`)

* `prepareOnePacket`, `prepareAclParameter` — sort a burst into IPv4 and IPv6 packets and free the
  rest; `aclKind` is the decision, which `prepareAclParameter_spec` shows them to take packet by
  packet.
* `aclClassify` — the two calls of `rte_acl_classify`, with the classifier as a parameter.
* `forwards` — the verdicts for which `send_one_packet` sends a packet on.
-/

set_option autoImplicit false

namespace QueueDpdk.Chain

open Lib PollLoop

/-! ## Packets -/

/-- `struct rte_mbuf`, with its data from `rte_pktmbuf_mtod` on. -/
structure Mbuf where
  packetType : UInt32
  pktLen : UInt32
  data : Bytes

/-- The mbufs by number. -/
abbrev Heap := Nat → Mbuf

def PREFETCH_OFFSET : Nat := 3
def OFF_ETHHEAD : Nat := 14

/-- `RTE_ETH_IS_IPV4_HDR`. -/
def isIpv4Hdr (ptype : UInt32) : Bool := ptype &&& 0x10 != 0

/-- `RTE_ETH_IS_IPV6_HDR`. -/
def isIpv6Hdr (ptype : UInt32) : Bool := ptype &&& 0x40 != 0

/-- `rte_cpu_to_be_16` on a little-endian machine. -/
def cpuToBe16 (v : UInt16) : UInt16 := v <<< 8 ||| v >>> 8

/-- `is_valid_ipv4_pkt`, for the IPv4 header that follows the Ethernet header of `data`. -/
def isValidIpv4Pkt (data : Bytes) (linkLen : UInt32) : Int :=
  let versionIhl := data OFF_ETHHEAD
  if linkLen < 20 then -1
  else if versionIhl >>> 4 ≠ 4 then -3
  else if versionIhl &&& 0xf < 5 then -4
  else if cpuToBe16 (get16 data (OFF_ETHHEAD + 2)) < 20 then -5
  else 0

/-- `--(time_to_live); ++(hdr_checksum);` -/
def updateHeader (data : Bytes) : Bytes :=
  let data := Function.update data (OFF_ETHHEAD + 8) (data (OFF_ETHHEAD + 8) - 1)
  set16 data (OFF_ETHHEAD + 10) (get16 data (OFF_ETHHEAD + 10) + 1)

/-! ## Preparation -/

/-- A pointer into the data of an mbuf. -/
structure DataPtr where
  mbuf : Nat
  offset : Nat
deriving DecidableEq, Repr

/-- `MBUF_IPV4_2PROTO`. -/
def mbufIpv4Proto (m : Nat) : DataPtr := ⟨m, OFF_ETHHEAD + 9⟩

/-- `MBUF_IPV6_2PROTO`. -/
def mbufIpv6Proto (m : Nat) : DataPtr := ⟨m, OFF_ETHHEAD + 6⟩

/-- `struct acl_search_t`, each array up to its `num`; the results are those of `aclClassify`. -/
structure AclSearch where
  dataIpv4 : List DataPtr
  mIpv4 : List Nat
  dataIpv6 : List DataPtr
  mIpv6 : List Nat

def AclSearch.addIpv4 (acl : AclSearch) (pkt : Nat) : AclSearch :=
  { acl with dataIpv4 := acl.dataIpv4 ++ [mbufIpv4Proto pkt], mIpv4 := acl.mIpv4 ++ [pkt] }

def AclSearch.addIpv6 (acl : AclSearch) (pkt : Nat) : AclSearch :=
  { acl with dataIpv6 := acl.dataIpv6 ++ [mbufIpv6Proto pkt], mIpv6 := acl.mIpv6 ++ [pkt] }

/-- `prepare_one_packet`, as compiled with `DO_RFC_1812_CHECKS`. -/
def prepareOnePacket (heap : Heap) (acl : AclSearch) (pkt : Nat) :
    Heap × AclSearch × List MbufEvent :=
  if isIpv4Hdr (heap pkt).packetType || (heap pkt).packetType == 0 then
    if isValidIpv4Pkt (heap pkt).data (heap pkt).pktLen ≥ 0 then
      (Function.update heap pkt { heap pkt with data := updateHeader (heap pkt).data },
        acl.addIpv4 pkt, [.used pkt])
    else (heap, acl, [.used pkt, .freed pkt])
  else if isIpv6Hdr (heap pkt).packetType then (heap, acl.addIpv6 pkt, [.used pkt])
  else (heap, acl, [.used pkt, .freed pkt])

/-- The loops of `prepare_acl_parameter` that prepare; `ahead` are the packets still to be
    prefetched. -/
def prepareFrom (heap : Heap) (acl : AclSearch) :
    List Nat → List Nat → Heap × AclSearch × List MbufEvent
  | [], _ => (heap, acl, [])
  | pkt :: rest, ahead =>
    let prefetch := (ahead.take 1).map MbufEvent.used
    let (heap, acl, one) := prepareOnePacket heap acl pkt
    let (heap, acl, more) := prepareFrom heap acl rest (ahead.drop 1)
    (heap, acl, prefetch ++ one ++ more)

def prepareAclParameter (heap : Heap) (pktsIn : List Nat) : Heap × AclSearch × List MbufEvent :=
  let prefetch := (pktsIn.take PREFETCH_OFFSET).map MbufEvent.used
  let (heap, acl, events) := prepareFrom heap ⟨[], [], [], []⟩ pktsIn (pktsIn.drop PREFETCH_OFFSET)
  (heap, acl, prefetch ++ events)

/-! ## Verdicts -/

/-- The list a packet is looked up in. -/
inductive AclKind where
  | ipv4
  | ipv6
deriving DecidableEq, Repr

/-- `rte_acl_classify`: the result for a header, given its bytes from the protocol field on. -/
abbrev Classifier := AclKind → Bytes → UInt32

/-- The bytes behind a pointer. -/
def deref (heap : Heap) (p : DataPtr) : Bytes := fun k => (heap p.mbuf).data (p.offset + k)

/-- The result arrays, each result with its mbuf. -/
def aclClassify (classify : Classifier) (heap : Heap) (acl : AclSearch) : List (Nat × UInt32) :=
  acl.mIpv4.zip (acl.dataIpv4.map (fun p => classify .ipv4 (deref heap p))) ++
    acl.mIpv6.zip (acl.dataIpv6.map (fun p => classify .ipv6 (deref heap p)))

def ACL_DENY_SIGNATURE : UInt32 := 0xf0000000

/-- `send_one_packet` sends a packet with this result on; it frees all others. -/
def forwards (res : UInt32) : Bool := res &&& ACL_DENY_SIGNATURE == 0 && res != 0

/-! ## The decision for one packet -/

/-- Where a packet goes; `none` is freed. -/
def aclKind (pkt : Mbuf) : Option AclKind :=
  if isIpv4Hdr pkt.packetType || pkt.packetType == 0 then
    if isValidIpv4Pkt pkt.data pkt.pktLen ≥ 0 then some .ipv4 else none
  else if isIpv6Hdr pkt.packetType then some .ipv6
  else none

/-- The packet after its preparation. -/
def prepared (pkt : Mbuf) : Mbuf :=
  if aclKind pkt = some .ipv4 then { pkt with data := updateHeader pkt.data } else pkt

def headerPtr (kind : AclKind) (m : Nat) : DataPtr :=
  match kind with
  | .ipv4 => mbufIpv4Proto m
  | .ipv6 => mbufIpv6Proto m

def AclSearch.add (acl : AclSearch) (kind : Option AclKind) (pkt : Nat) : AclSearch :=
  match kind with
  | some .ipv4 => acl.addIpv4 pkt
  | some .ipv6 => acl.addIpv6 pkt
  | none => acl

theorem prepareOnePacket_eq (heap : Heap) (acl : AclSearch) (pkt : Nat) :
    prepareOnePacket heap acl pkt =
      (Function.update heap pkt (prepared (heap pkt)), acl.add (aclKind (heap pkt)) pkt,
        .used pkt :: if aclKind (heap pkt) = none then [.freed pkt] else []) := by
  have hsame : ∀ kind, kind ≠ some AclKind.ipv4 → aclKind (heap pkt) = kind →
      Function.update heap pkt (prepared (heap pkt)) = heap := by
    intro kind hne hk
    rw [prepared, hk, if_neg hne, Function.update_eq_self]
  by_cases h4 : (isIpv4Hdr (heap pkt).packetType || (heap pkt).packetType == 0) = true
  · by_cases hv : isValidIpv4Pkt (heap pkt).data (heap pkt).pktLen ≥ 0
    · have hk : aclKind (heap pkt) = some .ipv4 := by
        rw [aclKind, if_pos h4, if_pos hv]
      rw [prepareOnePacket, if_pos h4, if_pos hv, prepared, hk, if_pos rfl]
      rfl
    · have hk : aclKind (heap pkt) = none := by
        rw [aclKind, if_pos h4, if_neg hv]
      rw [prepareOnePacket, if_pos h4, if_neg hv, hsame none (by simp) hk, hk]
      rfl
  · by_cases h6 : isIpv6Hdr (heap pkt).packetType = true
    · have hk : aclKind (heap pkt) = some .ipv6 := by
        rw [aclKind, if_neg h4, if_pos h6]
      rw [prepareOnePacket, if_neg h4, if_pos h6, hsame _ (by simp) hk, hk]
      rfl
    · have hk : aclKind (heap pkt) = none := by
        rw [aclKind, if_neg h4, if_neg h6]
      rw [prepareOnePacket, if_neg h4, if_neg h6, hsame none (by simp) hk, hk]
      rfl

/-! ## The decision for a burst -/

/-- The packets of one kind. -/
def ofKind (heap : Heap) (kind : AclKind) (pkts : List Nat) : List Nat :=
  pkts.filter (fun m => aclKind (heap m) = some kind)

/-- Adding a packet and then the packets after it adds them all, array by array. -/
theorem AclSearch.add_ofKind (acl : AclSearch) (heap : Heap) (pkt : Nat) (rest : List Nat) :
    let acl' := acl.add (aclKind (heap pkt)) pkt
    acl'.mIpv4 ++ ofKind heap .ipv4 rest = acl.mIpv4 ++ ofKind heap .ipv4 (pkt :: rest) ∧
    acl'.mIpv6 ++ ofKind heap .ipv6 rest = acl.mIpv6 ++ ofKind heap .ipv6 (pkt :: rest) ∧
    acl'.dataIpv4 ++ (ofKind heap .ipv4 rest).map mbufIpv4Proto =
      acl.dataIpv4 ++ (ofKind heap .ipv4 (pkt :: rest)).map mbufIpv4Proto ∧
    acl'.dataIpv6 ++ (ofKind heap .ipv6 rest).map mbufIpv6Proto =
      acl.dataIpv6 ++ (ofKind heap .ipv6 (pkt :: rest)).map mbufIpv6Proto := by
  rcases hk : aclKind (heap pkt) with _ | _ | _ <;>
    simp [ofKind, hk, AclSearch.add, AclSearch.addIpv4, AclSearch.addIpv6]

/-- What the preparation of the packets `pkts` of a heap does. -/
structure Prepared (heap : Heap) (acl : AclSearch) (pkts ahead : List Nat) (heap' : Heap)
    (acl' : AclSearch) (events : List MbufEvent) : Prop where
  inside : ∀ m ∈ pkts, heap' m = prepared (heap m)
  outside : ∀ m, m ∉ pkts → heap' m = heap m
  mIpv4 : acl'.mIpv4 = acl.mIpv4 ++ ofKind heap .ipv4 pkts
  mIpv6 : acl'.mIpv6 = acl.mIpv6 ++ ofKind heap .ipv6 pkts
  dataIpv4 : acl'.dataIpv4 = acl.dataIpv4 ++ (ofKind heap .ipv4 pkts).map mbufIpv4Proto
  dataIpv6 : acl'.dataIpv6 = acl.dataIpv6 ++ (ofKind heap .ipv6 pkts).map mbufIpv6Proto
  accesses : ∀ e ∈ events, (∃ m, (m ∈ pkts ∨ m ∈ ahead) ∧ e = .used m) ∨
    ∃ m ∈ pkts, aclKind (heap m) = none ∧ e = .freed m
  freed : ∀ m ∈ pkts, aclKind (heap m) = none → .freed m ∈ events

theorem prepareFrom_spec : ∀ (pkts ahead : List Nat) (heap : Heap) (acl : AclSearch), pkts.Nodup →
    Prepared heap acl pkts ahead (prepareFrom heap acl pkts ahead).1
      (prepareFrom heap acl pkts ahead).2.1 (prepareFrom heap acl pkts ahead).2.2 := by
  intro pkts
  induction pkts with
  | nil =>
    intro ahead heap acl _
    refine ⟨by simp, fun m _ => rfl, ?_, ?_, ?_, ?_, by simp [prepareFrom], by simp⟩ <;>
      simp [prepareFrom, ofKind]
  | cons pkt rest ih =>
    intro ahead heap acl hnd
    obtain ⟨hnot, hnd⟩ := List.nodup_cons.mp hnd
    simp only [prepareFrom, prepareOnePacket_eq]
    obtain ⟨heap₁, hheap₁⟩ : ∃ heap₁, heap₁ = Function.update heap pkt (prepared (heap pkt)) :=
      ⟨_, rfl⟩
    rw [← hheap₁]
    have h := ih (ahead.drop 1) heap₁ (acl.add (aclKind (heap pkt)) pkt) hnd
    -- the other packets are not touched by the preparation of this one
    have hrest : ∀ m ∈ rest, heap₁ m = heap m := by
      intro m hm
      have hne : m ≠ pkt := fun he => hnot (he ▸ hm)
      rw [hheap₁, Function.update_of_ne hne]
    have hkinds : ∀ kind, ofKind heap₁ kind rest = ofKind heap kind rest := by
      intro kind
      refine List.filter_congr (fun m hm => ?_)
      rw [hrest m hm]
    have hadd := acl.add_ofKind heap pkt rest
    refine ⟨?_, ?_, ?_, ?_, ?_, ?_, ?_, ?_⟩
    · intro m hm
      rcases List.mem_cons.mp hm with rfl | hm
      · rw [h.outside m hnot, hheap₁, Function.update_self]
      · rw [h.inside m hm, hrest m hm]
    · intro m hm
      rw [List.mem_cons, not_or] at hm
      rw [h.outside m hm.2, hheap₁, Function.update_of_ne hm.1]
    · rw [h.mIpv4, hkinds, hadd.1]
    · rw [h.mIpv6, hkinds, hadd.2.1]
    · rw [h.dataIpv4, hkinds, hadd.2.2.1]
    · rw [h.dataIpv6, hkinds, hadd.2.2.2]
    · intro e he
      rcases List.mem_append.mp he with he | he
      · rcases List.mem_append.mp he with he | he
        · obtain ⟨m, hm, rfl⟩ := List.mem_map.mp he
          exact Or.inl ⟨m, Or.inr (List.mem_of_mem_take hm), rfl⟩
        · rcases List.mem_cons.mp he with rfl | he
          · exact Or.inl ⟨pkt, Or.inl List.mem_cons_self, rfl⟩
          · split at he
            · rename_i hk
              exact Or.inr ⟨pkt, List.mem_cons_self, hk, List.mem_singleton.mp he⟩
            · cases he
      · rcases h.accesses e he with ⟨m, hm, rfl⟩ | ⟨m, hm, hk, rfl⟩
        · exact Or.inl ⟨m, hm.imp (List.mem_cons_of_mem pkt) List.mem_of_mem_drop, rfl⟩
        · exact Or.inr ⟨m, List.mem_cons_of_mem pkt hm, by rw [← hrest m hm, hk], rfl⟩
    · intro m hm hk
      rcases List.mem_cons.mp hm with rfl | hm
      · refine List.mem_append_left _ (List.mem_append_right _ ?_)
        rw [if_pos hk]
        simp
      · refine List.mem_append_right _ (h.freed m hm ?_)
        rw [hrest m hm, hk]

/-- **Preparation of a burst.** -/
theorem prepareAclParameter_spec (heap : Heap) {pktsIn : List Nat} (hnd : pktsIn.Nodup) :
    Prepared heap ⟨[], [], [], []⟩ pktsIn pktsIn (prepareAclParameter heap pktsIn).1
      (prepareAclParameter heap pktsIn).2.1 (prepareAclParameter heap pktsIn).2.2 := by
  have h := prepareFrom_spec pktsIn (pktsIn.drop PREFETCH_OFFSET) heap ⟨[], [], [], []⟩ hnd
  refine ⟨h.inside, h.outside, h.mIpv4, h.mIpv6, h.dataIpv4, h.dataIpv6, ?_, ?_⟩
  · intro e he
    rcases List.mem_append.mp he with he | he
    · obtain ⟨m, hm, rfl⟩ := List.mem_map.mp he
      exact Or.inl ⟨m, Or.inl (List.mem_of_mem_take hm), rfl⟩
    · refine (h.accesses e he).imp ?_ id
      rintro ⟨m, hm, rfl⟩
      exact ⟨m, hm.imp id List.mem_of_mem_drop, rfl⟩
  · intro m hm hk
    exact List.mem_append_right _ (h.freed m hm hk)

/-- Each packet that was kept has one result, that of its own header. -/
theorem mem_aclClassify {heap heap' : Heap} {acl : AclSearch} {pkts ahead : List Nat}
    {events : List MbufEvent} (h : Prepared heap ⟨[], [], [], []⟩ pkts ahead heap' acl events)
    (classify : Classifier) (final : Heap) (m : Nat) (res : UInt32) :
    (m, res) ∈ aclClassify classify final acl ↔
      m ∈ pkts ∧ ∃ kind, aclKind (heap m) = some kind ∧
        res = classify kind (deref final (headerPtr kind m)) := by
  have hzip : ∀ (l : List Nat) (f : Nat → UInt32),
      (m, res) ∈ l.zip (l.map f) ↔ m ∈ l ∧ res = f m := by
    intro l f
    have hmap : l.zip (l.map f) = l.map (fun a => (a, f a)) := by
      rw [← List.zip_map' (f := fun a => a), List.map_id']
    rw [hmap, List.mem_map]
    constructor
    · rintro ⟨a, ha, he⟩
      obtain ⟨rfl, rfl⟩ := Prod.mk.inj he
      exact ⟨ha, rfl⟩
    · rintro ⟨hm, rfl⟩
      exact ⟨m, hm, rfl⟩
  unfold aclClassify
  rw [h.mIpv4, h.mIpv6, h.dataIpv4, h.dataIpv6]
  simp only [List.nil_append, List.map_map, List.mem_append, hzip, ofKind, List.mem_filter,
    decide_eq_true_eq, Function.comp]
  constructor
  · rintro (⟨⟨hm, hk⟩, hres⟩ | ⟨⟨hm, hk⟩, hres⟩)
    · exact ⟨hm, .ipv4, hk, hres⟩
    · exact ⟨hm, .ipv6, hk, hres⟩
  · rintro ⟨hm, kind, hk, hres⟩
    cases kind with
    | ipv4 => exact Or.inl ⟨⟨hm, hk⟩, hres⟩
    | ipv6 => exact Or.inr ⟨⟨hm, hk⟩, hres⟩

end QueueDpdk.Chain
