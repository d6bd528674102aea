import Mathlib.Data.List.Forall2
import QueueDpdk.Lib.Prefix
import QueueDpdk.Rules.Parse

/-!
# Lines of the IPv6 rule file (`nf-chain/src/main.c`)

An address has four words, and each of them has a mask of its own.

* `parseIpv6Addr`, `parseIpv6Net`, `parseCbIpv6Rule` — as in the source.
* `Ipv6Matches` — the addresses that the four masked words let through.
* `parseIpv6Net_some` — they are those with one prefix of 128 bits.
* `parseIpv6Net_text` — an address in full is accepted, and stands for its prefix.
* `parseCbIpv6Rule_means` — so is a rule with such addresses.
* `parseCbIpv6Rule_prefixes` — what holds of every rule that is accepted.
-/

set_option autoImplicit false

namespace QueueDpdk.Rules

open Lib

/-! ## The parser -/

/-- `(hi << 16) + lo` of two 16-bit groups. -/
def ipv6Word (hi lo : ℕ) : UInt32 := (UInt32.ofNat hi <<< 16) + UInt32.ofNat lo

/-- `parse_ipv6_addr`, with the rest of the string. -/
def parseIpv6Addr (s : List Char) (dlm : Option Char) : Option (List UInt32 × List Char) := do
  let (a0, s) ← getCbField s 16 UINT16_MAX (some ':')
  let (a1, s) ← getCbField s 16 UINT16_MAX (some ':')
  let (a2, s) ← getCbField s 16 UINT16_MAX (some ':')
  let (a3, s) ← getCbField s 16 UINT16_MAX (some ':')
  let (a4, s) ← getCbField s 16 UINT16_MAX (some ':')
  let (a5, s) ← getCbField s 16 UINT16_MAX (some ':')
  let (a6, s) ← getCbField s 16 UINT16_MAX (some ':')
  let (a7, s) ← getCbField s 16 UINT16_MAX dlm
  some ([ipv6Word a0 a1, ipv6Word a2 a3, ipv6Word a4 a5, ipv6Word a6 a7], s)

/-- The mask of word `i` in `parse_ipv6_net`. -/
def ipv6MaskRange (m i : ℕ) : ℕ :=
  if m ≥ (i + 1) * 32 then 32 else if m > i * 32 then m - i * 32 else 0

/-- `parse_ipv6_net`. -/
def parseIpv6Net (s : List Char) : Option (List (AclField UInt32)) := do
  let (v, mp) ← parseIpv6Addr s (some '/')
  let (m, _) ← getCbField mp 0 128 none
  some (v.mapIdx fun i x => ⟨x, .ofNat (ipv6MaskRange m i)⟩)

/-- `field` of `struct acl6_rule`. -/
structure Acl6Fields where
  proto : AclField UInt8
  src : List (AclField UInt32)
  dst : List (AclField UInt32)
  srcp : AclField UInt16
  dstp : AclField UInt16
deriving DecidableEq, Repr

/-- The part of `parse_cb_ipv6_rule` that reads the first nine fields. -/
def parseCb6Fields (fld : List (List Char)) : Option Acl6Fields := do
  let src ← parseIpv6Net (fld.getD CB_FLD_SRC_ADDR [])
  let dst ← parseIpv6Net (fld.getD CB_FLD_DST_ADDR [])
  let (srcLow, _) ← getCbField (fld.getD CB_FLD_SRC_PORT_LOW []) 0 UINT16_MAX none
  let (srcHigh, _) ← getCbField (fld.getD CB_FLD_SRC_PORT_HIGH []) 0 UINT16_MAX none
  guard (fld.getD CB_FLD_SRC_PORT_DLM [] = cbPortDelim)
  let (dstLow, _) ← getCbField (fld.getD CB_FLD_DST_PORT_LOW []) 0 UINT16_MAX none
  let (dstHigh, _) ← getCbField (fld.getD CB_FLD_DST_PORT_HIGH []) 0 UINT16_MAX none
  guard (fld.getD CB_FLD_DST_PORT_DLM [] = cbPortDelim)
  let srcp : AclField UInt16 := ⟨.ofNat srcLow, .ofNat srcHigh⟩
  let dstp : AclField UInt16 := ⟨.ofNat dstLow, .ofNat dstHigh⟩
  guard ¬(srcp.maskRange < srcp.value ∨ dstp.maskRange < dstp.value)
  let (proto, s) ← getCbField (fld.getD CB_FLD_PROTO []) 0 UINT8_MAX (some '/')
  let (mask, _) ← getCbField s 0 UINT8_MAX none
  some ⟨⟨.ofNat proto, .ofNat mask⟩, src, dst, srcp, dstp⟩

/-- `parse_cb_ipv6_rule`: the fields of the rule, and its `userdata` if that is read. -/
def parseCbIpv6Rule (str : List Char) (hasUserdata : Bool) :
    Option (Acl6Fields × Option UInt32) := do
  let fld ← strtokTimes isDlm (if hasUserdata then CB_FLD_NUM else CB_FLD_USERDATA) str
  let fields ← parseCb6Fields fld
  if hasUserdata then
    let (userdata, _) ← getCbField (fld.getD CB_FLD_USERDATA []) 0 UINT32_MAX none
    some (fields, some (.ofNat userdata))
  else some (fields, none)

/-! ## Prefixes -/

/-- An address, as four words, passes the masks: each word begins like the one of the rule. -/
def Ipv6Matches (field : List (AclField UInt32)) (a : List UInt32) : Prop :=
  WordsAgree 32 (field.map fun f => f.maskRange.toNat) (field.map fun f => f.value.toNat)
    (a.map UInt32.toNat)

/-- The number of an address. -/
def ipv6Number (a : List UInt32) : ℕ := ofWords 32 (a.map UInt32.toNat)

/-- The fields let through the addresses with the first `m` bits of `v`. -/
def IsIpv6Prefix (field : List (AclField UInt32)) (v m : ℕ) : Prop :=
  ∀ a : List UInt32, a.length = 4 → (Ipv6Matches field a ↔ SamePrefix 128 m v (ipv6Number a))

section Prefixes

variable {s : List Char} {v : List UInt32} {m : ℕ}

theorem ipv6MaskRange_eq (m i : ℕ) : ipv6MaskRange m i = min 32 (m - i * 32) := by
  unfold ipv6MaskRange
  split_ifs <;> omega

theorem maskRange_toNat (m i : ℕ) :
    (UInt32.ofNat (ipv6MaskRange m i)).toNat = min 32 (m - i * 32) := by
  rw [ipv6MaskRange_eq]
  apply UInt32.toNat_ofNat_of_lt'
  exact Nat.lt_of_le_of_lt (Nat.min_le_left _ _) (by decide)

theorem ipv6Word_toNat {hi lo : ℕ} (hhi : hi ≤ UINT16_MAX) (hlo : lo ≤ UINT16_MAX) :
    (ipv6Word hi lo).toNat = hi * 2 ^ 16 + lo := by
  have h16 : UINT16_MAX = 65535 := rfl
  have hx : (UInt32.ofNat hi).toNat = hi :=
    UInt32.toNat_ofNat_of_lt' (Nat.lt_of_le_of_lt hhi (by decide))
  have hy : (UInt32.ofNat lo).toNat = lo :=
    UInt32.toNat_ofNat_of_lt' (Nat.lt_of_le_of_lt hlo (by decide))
  have hs : (UInt32.ofNat hi <<< 16).toNat = hi * 2 ^ 16 := by
    rw [UInt32.toNat_shiftLeft, hx, Nat.shiftLeft_eq]
    apply Nat.mod_eq_of_lt
    show hi * 2 ^ 16 < 2 ^ 32
    omega
  rw [ipv6Word, UInt32.toNat_add, hs, hy]
  omega

/-- **Four masks are one prefix.** -/
theorem isIpv6Prefix_mapIdx (hv : v.length = 4) (hm : m ≤ 128) :
    IsIpv6Prefix (v.mapIdx fun i x => ⟨x, .ofNat (ipv6MaskRange m i)⟩) (ipv6Number v) m := by
  intro a ha
  have hlt : ∀ u : List UInt32, ∀ x ∈ u.map UInt32.toNat, x < 2 ^ 32 := by
    intro u x hx
    obtain ⟨y, -, rfl⟩ := List.mem_map.mp hx
    exact y.toNat_lt
  have hlength : (v.map UInt32.toNat).length = (a.map UInt32.toNat).length := by simp [hv, ha]
  have hlen : m ≤ 32 * (v.map UInt32.toNat).length := by simpa [hv] using hm
  have hwords := samePrefix_words hlength (hlt v) (hlt a) hlen
  rw [List.length_map, hv] at hwords
  rw [ipv6Number, ipv6Number, ← hwords]
  match v, hv with
  | [v0, v1, v2, v3], _ =>
    simp only [Ipv6Matches, List.mapIdx_cons, List.mapIdx_nil, List.map_cons, List.map_nil,
      maskRange_toNat, wordPrefixes, Nat.zero_mul, Nat.sub_zero, Nat.sub_sub, Nat.reduceAdd,
      Nat.reduceMul]

theorem getCbField_le {base lim x : ℕ} {dlm : Option Char} {tail : List Char}
    (h : getCbField s base lim dlm = some (x, tail)) : x ≤ lim := by
  unfold getCbField at h
  dsimp only at h
  split at h
  · cases h
  · rename_i hok
    obtain ⟨rfl, -⟩ := Prod.mk.inj (Option.some.inj h)
    exact Nat.not_lt.mp fun hlt => hok (Or.inr (Or.inr hlt))

/-- Whatever is accepted stands for a prefix. -/
theorem parseIpv6Net_some {field : List (AclField UInt32)} (h : parseIpv6Net s = some field) :
    ∃ v m, m ≤ 128 ∧ IsIpv6Prefix field v m := by
  simp only [parseIpv6Net, parseIpv6Addr, bind, Option.bind_eq_some_iff, Option.some.injEq,
    Prod.exists, Prod.mk.injEq] at h
  obtain ⟨v, mp, ⟨a0, s0, h0, a1, s1, h1, a2, s2, h2, a3, s3, h3, a4, s4, h4, a5, s5, h5, a6, s6, h6,
    a7, s7, h7, rfl, rfl⟩, m, rest, hm, rfl⟩ := h
  exact ⟨_, m, getCbField_le hm, isIpv6Prefix_mapIdx rfl (getCbField_le hm)⟩

end Prefixes

/-! ## Addresses -/

/-- A text is a group of hexadecimal digits. -/
def HexWritten (n : List Char) (v : ℕ) : Prop :=
  n ≠ [] ∧ (∀ c ∈ n, isDigitIn 16 c = true) ∧ ofDigits 16 n = v ∧ v ≤ 65535

section Groups

variable {n s rest tail : List Char} {v : ℕ} {c : Char}

/-- There is no prefix to take off where no `x` follows. -/
theorem takeRadix_sixteen (h : ∀ x ∈ s.tail.head?, x ≠ 'x' ∧ x ≠ 'X') :
    takeRadix 16 s = (16, s) := by
  unfold takeRadix
  split
  · rename_i x c cs
    obtain ⟨hlow, hup⟩ := h x rfl
    rw [if_neg (fun hx => hx.2.1.elim hlow hup), if_neg (by decide)]
  · rw [if_neg (by decide)]
  · rw [if_neg (by decide)]

/-- A group is read to its end. -/
theorem strtoul_hex (hne : n ≠ []) (hn : ∀ c ∈ n, isDigitIn 16 c = true) (hrest : Ends rest) :
    strtoul (n ++ rest) 16 =
      ⟨signedValue false (ofDigits 16 n), rest, decide (ULONG_MAX < ofDigits 16 n)⟩ := by
  obtain ⟨htake, hdrop⟩ := hrest.digits hn
  obtain ⟨c, cs, rfl⟩ := List.exists_cons_of_ne_nil hne
  have hlead := digit_lead (s := cs ++ rest) (hn c List.mem_cons_self)
  have hradix : takeRadix 16 ((c :: cs) ++ rest) = (16, (c :: cs) ++ rest) := by
    apply takeRadix_sixteen
    intro x hx
    have hval : isDigitIn 16 x = true ∨ digitVal x = none := by
      cases cs with
      | nil => exact Or.inr (hrest x hx)
      | cons d ds =>
        cases hx
        exact Or.inl (hn _ (by simp))
    constructor
    · rintro rfl
      exact absurd hval (by decide)
    · rintro rfl
      exact absurd hval (by decide)
  rw [List.cons_append] at hradix htake hdrop ⊢
  simp only [strtoul, hlead, hradix, htake, hdrop, if_neg hne]

/-- A group in front of a colon or a slash. -/
theorem getCbField_hex {d : Char} (h : HexWritten n v) (hd : digitVal d = none) :
    getCbField (n ++ d :: tail) 16 UINT16_MAX (some d) = some (v, tail) := by
  obtain ⟨hne, hn, rfl, hle⟩ := h
  have hends : Ends (d :: tail) := by
    intro x hx
    cases hx
    exact hd
  have hfits : ¬ULONG_MAX < ofDigits 16 n :=
    Nat.not_lt.mpr (Nat.le_trans hle (by decide))
  have hlim : ¬UINT16_MAX < ofDigits 16 n := Nat.not_lt.mpr hle
  simp [getCbField, strtoul_hex hne hn hends, signedValue, hfits, hlim]

end Groups

/-- The nine texts of an address with its length. -/
structure Ipv6Text where
  g0 : List Char
  g1 : List Char
  g2 : List Char
  g3 : List Char
  g4 : List Char
  g5 : List Char
  g6 : List Char
  g7 : List Char
  len : List Char

/-- `g0:g1:g2:g3:g4:g5:g6:g7/len`. -/
def Ipv6Text.text (n : Ipv6Text) : List Char :=
  n.g0 ++ ':' :: (n.g1 ++ ':' :: (n.g2 ++ ':' :: (n.g3 ++ ':' :: (n.g4 ++ ':' :: (n.g5 ++
    ':' :: (n.g6 ++ ':' :: (n.g7 ++ '/' :: n.len)))))))

/-- Eight groups of 16 bits and a length. -/
structure Ipv6Text.Means (n : Ipv6Text) (groups : List ℕ) (len : ℕ) : Prop where
  groups : List.Forall₂ HexWritten [n.g0, n.g1, n.g2, n.g3, n.g4, n.g5, n.g6, n.g7] groups
  len : Written n.len 128 len

/-- **An address in full** is accepted, and stands for its prefix. -/
theorem parseIpv6Net_text {n : Ipv6Text} {groups : List ℕ} {len : ℕ} (h : n.Means groups len) :
    ∃ field, parseIpv6Net n.text = some field ∧ IsIpv6Prefix field (ofWords 16 groups) len := by
  obtain ⟨hgroups, hlen⟩ := h
  obtain _ | ⟨h0, hgroups⟩ := hgroups
  obtain _ | ⟨h1, hgroups⟩ := hgroups
  obtain _ | ⟨h2, hgroups⟩ := hgroups
  obtain _ | ⟨h3, hgroups⟩ := hgroups
  obtain _ | ⟨h4, hgroups⟩ := hgroups
  obtain _ | ⟨h5, hgroups⟩ := hgroups
  obtain _ | ⟨h6, hgroups⟩ := hgroups
  obtain _ | ⟨h7, hgroups⟩ := hgroups
  obtain _ | _ := hgroups
  rename_i a0 a1 a2 a3 a4 a5 a6 a7
  have hcolon : digitVal ':' = none := by decide
  have hslash : digitVal '/' = none := by decide
  have haddr : parseIpv6Addr n.text (some '/') =
      some ([ipv6Word a0 a1, ipv6Word a2 a3, ipv6Word a4 a5, ipv6Word a6 a7], n.len) := by
    simp [parseIpv6Addr, Ipv6Text.text, getCbField_hex h0 hcolon, getCbField_hex h1 hcolon,
      getCbField_hex h2 hcolon, getCbField_hex h3 hcolon, getCbField_hex h4 hcolon,
      getCbField_hex h5 hcolon, getCbField_hex h6 hcolon, getCbField_hex h7 hslash]
  have hnumber : ipv6Number [ipv6Word a0 a1, ipv6Word a2 a3, ipv6Word a4 a5, ipv6Word a6 a7] =
      ofWords 16 [a0, a1, a2, a3, a4, a5, a6, a7] := by
    simp only [ipv6Number, List.map_cons, List.map_nil, ipv6Word_toNat h0.2.2.2 h1.2.2.2,
      ipv6Word_toNat h2.2.2.2 h3.2.2.2, ipv6Word_toNat h4.2.2.2 h5.2.2.2,
      ipv6Word_toNat h6.2.2.2 h7.2.2.2, ofWords, List.length_cons, List.length_nil]
    omega
  refine ⟨_, ?_, hnumber ▸ isIpv6Prefix_mapIdx rfl hlen.2⟩
  simp only [parseIpv6Net, haddr, Option.bind_eq_bind, Option.bind_some,
    getCbField_end hlen (by decide)]

/-! ## Rules -/

/-- The texts of a rule. -/
structure Ipv6RuleText where
  src : Ipv6Text
  dst : Ipv6Text
  srcLow : List Char
  srcHigh : List Char
  dstLow : List Char
  dstHigh : List Char
  proto : List Char
  mask : List Char
  userdata : List Char

/-- `<src_ipv6>/<len> <dst_ipv6>/<len> <src_low> : <src_high> <dst_low> : <dst_high>
    <proto>/<mask> [<userdata>]`. -/
def Ipv6RuleText.fields (r : Ipv6RuleText) (hasUserdata : Bool) : List (List Char) :=
  [r.src.text, r.dst.text, r.srcLow, [':'], r.srcHigh, r.dstLow, [':'], r.dstHigh,
    r.proto ++ '/' :: r.mask] ++ if hasUserdata then [r.userdata] else []

/-- What a rule asks for. -/
structure Ipv6Rule where
  src : List ℕ
  srcLen : ℕ
  dst : List ℕ
  dstLen : ℕ
  srcp : AclField UInt16
  dstp : AclField UInt16
  proto : AclField UInt8
  userdata : Option UInt32

/-- The texts say so, with all numbers in their ranges. -/
structure Ipv6RuleText.Means (r : Ipv6RuleText) (v : Ipv6Rule) : Prop where
  src : r.src.Means v.src v.srcLen
  dst : r.dst.Means v.dst v.dstLen
  srcLow : Written r.srcLow 65535 v.srcp.value.toNat
  srcHigh : Written r.srcHigh 65535 v.srcp.maskRange.toNat
  src_le : v.srcp.value ≤ v.srcp.maskRange
  dstLow : Written r.dstLow 65535 v.dstp.value.toNat
  dstHigh : Written r.dstHigh 65535 v.dstp.maskRange.toNat
  dst_le : v.dstp.value ≤ v.dstp.maskRange
  proto : Written r.proto 255 v.proto.value.toNat
  mask : Written r.mask 255 v.proto.maskRange.toNat
  userdata : ∀ u ∈ v.userdata, Written r.userdata 4294967295 u.toNat

section Rules

variable {str : List Char} {r : Ipv6RuleText} {v : Ipv6Rule}

theorem Ipv6RuleText.length_fields (r : Ipv6RuleText) (hasUserdata : Bool) :
    (r.fields hasUserdata).length = if hasUserdata then CB_FLD_NUM else CB_FLD_USERDATA := by
  cases hasUserdata <;> rfl

theorem parseCb6Fields_means (h : r.Means v) (hasUserdata : Bool) :
    ∃ src dst, parseCb6Fields (r.fields hasUserdata) = some ⟨v.proto, src, dst, v.srcp, v.dstp⟩ ∧
      IsIpv6Prefix src (ofWords 16 v.src) v.srcLen ∧
      IsIpv6Prefix dst (ofWords 16 v.dst) v.dstLen := by
  obtain ⟨src, hsrc, hsrcPrefix⟩ := parseIpv6Net_text h.src
  obtain ⟨dst, hdst, hdstPrefix⟩ := parseIpv6Net_text h.dst
  have hport : ∀ {x : List Char} {p : UInt16}, Written x 65535 p.toNat →
      getCbField x 0 UINT16_MAX none = some (p.toNat, []) := fun hx => getCbField_end hx (by decide)
  have hproto : getCbField (r.proto ++ '/' :: r.mask) 0 UINT8_MAX (some '/') =
      some (v.proto.value.toNat, r.mask) := getCbField_slash h.proto
  have hmask : getCbField r.mask 0 UINT8_MAX none = some (v.proto.maskRange.toNat, []) :=
    getCbField_end h.mask (by decide)
  refine ⟨src, dst, ?_, hsrcPrefix, hdstPrefix⟩
  simp [parseCb6Fields, Ipv6RuleText.fields, CB_FLD_SRC_ADDR, CB_FLD_DST_ADDR, CB_FLD_SRC_PORT_LOW,
    CB_FLD_SRC_PORT_DLM, CB_FLD_SRC_PORT_HIGH, CB_FLD_DST_PORT_LOW, CB_FLD_DST_PORT_DLM,
    CB_FLD_DST_PORT_HIGH, CB_FLD_PROTO, cbPortDelim, hsrc, hdst, hport h.srcLow, hport h.srcHigh,
    hport h.dstLow, hport h.dstHigh, hproto, hmask, h.src_le, h.dst_le]

/-- **Rules with addresses in full are accepted**, and let through what they say. -/
theorem parseCbIpv6Rule_means (hs : r.fields v.userdata.isSome <+: Lib.fields isDlm str)
    (h : r.Means v) :
    ∃ f, parseCbIpv6Rule str v.userdata.isSome = some (f, v.userdata) ∧ f.proto = v.proto ∧
      f.srcp = v.srcp ∧ f.dstp = v.dstp ∧ IsIpv6Prefix f.src (ofWords 16 v.src) v.srcLen ∧
      IsIpv6Prefix f.dst (ofWords 16 v.dst) v.dstLen := by
  have hfld := strtokTimes_eq_some_iff.mpr ⟨hs, r.length_fields v.userdata.isSome⟩
  obtain ⟨src, dst, hfields, hsrc, hdst⟩ := parseCb6Fields_means h v.userdata.isSome
  refine ⟨⟨v.proto, src, dst, v.srcp, v.dstp⟩, ?_, rfl, rfl, rfl, hsrc, hdst⟩
  simp only [parseCbIpv6Rule, hfld, Option.bind_eq_bind, Option.bind_some, hfields]
  cases hw : v.userdata with
  | none => rfl
  | some u =>
    have huser : getCbField r.userdata 0 UINT32_MAX none = some (u.toNat, []) :=
      getCbField_end (h.userdata u hw) (by decide)
    have hget : (r.fields true).getD CB_FLD_USERDATA [] = r.userdata := rfl
    rw [Option.isSome_some, if_pos rfl, hget, huser]
    simp

/-- A line, its texts and what it asks for. -/
def sampleLine6 : List Char :=
  "2001:db8:0:0:0:0:0:1/32 fe80:0:0:0:0:0:0:1/128 53 : 53 1024 : 65535 17/255\n".toList

def sampleText6 : Ipv6RuleText :=
  { src := ⟨"2001".toList, "db8".toList, "0".toList, "0".toList, "0".toList, "0".toList, "0".toList,
      "1".toList, "32".toList⟩
    dst := ⟨"fe80".toList, "0".toList, "0".toList, "0".toList, "0".toList, "0".toList, "0".toList,
      "1".toList, "128".toList⟩
    srcLow := "53".toList, srcHigh := "53".toList
    dstLow := "1024".toList, dstHigh := "65535".toList
    proto := "17".toList, mask := "255".toList, userdata := [] }

def sampleRule6 : Ipv6Rule :=
  { src := [8193, 3512, 0, 0, 0, 0, 0, 1], srcLen := 32
    dst := [65152, 0, 0, 0, 0, 0, 0, 1], dstLen := 128
    srcp := ⟨53, 53⟩, dstp := ⟨1024, 65535⟩, proto := ⟨17, 255⟩, userdata := none }

theorem written_decimal {n : List Char} {lim x : ℕ} (h : n ≠ [] ∧ n.head? ≠ some '0' ∧
    n.all (isDigitIn 10) = true ∧ ofDigits 10 n = x ∧ x ≤ lim) : Written n lim x := by
  obtain ⟨hne, hlead, hds, rfl, hle⟩ := h
  obtain ⟨c, cs, rfl⟩ := List.exists_cons_of_ne_nil hne
  refine ⟨.decimal (fun hc => hlead ?_) (List.all_eq_true.mp hds), hle⟩
  rw [hc]
  rfl

theorem hexWritten_all {ns : List (List Char)} {xs : List ℕ} (hlength : ns.length = xs.length)
    (h : ∀ p ∈ ns.zip xs, p.1 ≠ [] ∧ p.1.all (isDigitIn 16) = true ∧ ofDigits 16 p.1 = p.2 ∧
      p.2 ≤ 65535) : List.Forall₂ HexWritten ns xs := by
  refine List.forall₂_iff_zip.mpr ⟨hlength, fun hp => ?_⟩
  obtain ⟨hne, hds, hx, hle⟩ := h _ hp
  exact ⟨hne, List.all_eq_true.mp hds, hx, hle⟩

theorem sampleText6_means : sampleText6.Means sampleRule6 where
  src := ⟨hexWritten_all rfl (by decide +kernel), written_decimal (by decide +kernel)⟩
  dst := ⟨hexWritten_all rfl (by decide +kernel), written_decimal (by decide +kernel)⟩
  srcLow := written_decimal (by decide +kernel)
  srcHigh := written_decimal (by decide +kernel)
  src_le := by decide +kernel
  dstLow := written_decimal (by decide +kernel)
  dstHigh := written_decimal (by decide +kernel)
  dst_le := by decide +kernel
  proto := written_decimal (by decide +kernel)
  mask := written_decimal (by decide +kernel)
  userdata := nofun

theorem parseCbIpv6Rule_means_sample : ∃ f, parseCbIpv6Rule sampleLine6 false = some (f, none) ∧
    IsIpv6Prefix f.src (ofWords 16 [8193, 3512, 0, 0, 0, 0, 0, 1]) 32 := by
  have hsplit : sampleText6.fields false <+: Lib.fields isDlm sampleLine6 := by decide +kernel
  obtain ⟨f, hf, -, -, -, hsrc, -⟩ := parseCbIpv6Rule_means hsplit sampleText6_means
  exact ⟨f, hf, hsrc⟩

/-- **Whatever is accepted is a rule**: prefixes of addresses, ports in order, and `userdata` if it
    is asked for. -/
theorem parseCbIpv6Rule_prefixes {hasUserdata : Bool} {f : Acl6Fields} {u : Option UInt32}
    (h : parseCbIpv6Rule str hasUserdata = some (f, u)) :
    (∃ v m, m ≤ 128 ∧ IsIpv6Prefix f.src v m) ∧ (∃ v m, m ≤ 128 ∧ IsIpv6Prefix f.dst v m) ∧
      f.srcp.value ≤ f.srcp.maskRange ∧ f.dstp.value ≤ f.dstp.maskRange ∧
      u.isSome = hasUserdata := by
  simp only [parseCbIpv6Rule, parseCb6Fields, bind, Option.bind_eq_some_iff, Prod.exists,
    Option.guard_eq_some', exists_const, Option.some.injEq] at h
  obtain ⟨fld, -, fields, ⟨src, hsrc, dst, hdst, sl, _, -, sh, _, -, -, dl, _, -, dh, _, -, -, hle,
    pr, s, -, mk, _, -, rfl⟩, h⟩ := h
  obtain ⟨hsle, hdle⟩ := not_or.mp hle
  have hf : f = ⟨⟨.ofNat pr, .ofNat mk⟩, src, dst, ⟨.ofNat sl, .ofNat sh⟩, ⟨.ofNat dl, .ofNat dh⟩⟩ ∧
      u.isSome = hasUserdata := by
    cases hasUserdata with
    | false =>
      obtain ⟨rfl, rfl⟩ := Prod.mk.inj (Option.some.inj h)
      exact ⟨rfl, rfl⟩
    | true =>
      rw [if_pos rfl, Option.bind_eq_some_iff] at h
      obtain ⟨_, -, h⟩ := h
      obtain ⟨rfl, rfl⟩ := Prod.mk.inj (Option.some.inj h)
      exact ⟨rfl, rfl⟩
  obtain ⟨rfl, hu⟩ := hf
  exact ⟨parseIpv6Net_some hsrc, parseIpv6Net_some hdst, UInt16.not_lt.mp hsle,
    UInt16.not_lt.mp hdle, hu⟩

theorem parseCbIpv6Rule_prefixes_sample : ∃ f, parseCbIpv6Rule sampleLine6 false = some (f, none) ∧
    (∃ v m, m ≤ 128 ∧ IsIpv6Prefix f.src v m) ∧ f.dstp.value ≤ f.dstp.maskRange := by
  have hsome : (parseCbIpv6Rule sampleLine6 false).isSome = true := by decide +kernel
  obtain ⟨⟨f, u⟩, hf⟩ := Option.isSome_iff_exists.mp hsome
  obtain ⟨hsrc, -, -, hdst, hu⟩ := parseCbIpv6Rule_prefixes hf
  cases u with
  | none => exact ⟨f, hf, hsrc, hdst⟩
  | some u => cases hu

end Rules

end QueueDpdk.Rules
