import QueueDpdk.Lib.Bytes
import QueueDpdk.Rules.AddRules

/-!
# The two passes of `add_rules` agree

* `PassesAgree` — the rules of a file are stored in file order, inside the arrays that the first
  pass counted, deny rules are numbered, and routes lead to enabled ports.
* `Addressable` — 32 bits hold the offsets and the numbers, and no route has a port above 31.
* `passes_agree_iff` — for an accepted file the one is the other: the port check shifts by the
  number modulo 32.
-/

set_option autoImplicit false

namespace QueueDpdk.Rules

open Lib

/-! ## What the passes should agree on -/

/-- The `k`-th rule of an array of `num` rules is where it belongs. -/
def Placed (ruleSize num : UInt32) (k off : ℕ) : Prop :=
  off = k * ruleSize.toNat ∧ off + ruleSize.toNat ≤ num.toNat * ruleSize.toNat

/-- A port that a packet can be forwarded to. -/
def LegalPort (mask port : UInt32) : Prop :=
  port.toNat < 32 ∧ mask.toNat.testBit port.toNat = true

structure PassesAgree {F : Type} (parser : Parser F) (mask ruleSize : UInt32)
    (lines : List (List Char)) (out : Loaded F) : Prop where
  aclCount : out.acl.length = out.aclNum.toNat
  routeCount : out.route.length = out.routeNum.toNat
  handedOut : out.routeCnt = out.routeNum
  acl : ∀ k w, out.acl[k]? = some w → Placed ruleSize out.aclNum k w.1 ∧
    w.2.userdata.toNat = 0xf0000000 + k ∧ ∃ line read,
      (linesOf ACL_LEAD_CHAR lines)[k]? = some line ∧
      parser line.tail false = some (w.2.field, read)
  route : ∀ k w, out.route[k]? = some w → Placed ruleSize out.routeNum k w.1 ∧ ∃ line read,
    (linesOf ROUTE_LEAD_CHAR lines)[k]? = some line ∧
    parser line.tail true = some (w.2.field, read) ∧ LegalPort mask (read.getD 0) ∧
    w.2.userdata = read.getD 0 + FWD_PORT_SHIFT

/-- The numbers and the offsets of some rules fit into 32 bits. -/
def Fits (ruleSize : UInt32) (count : ℕ) : Prop :=
  count < 2 ^ 32 ∧ (count - 1) * ruleSize.toNat < 2 ^ 32

structure Addressable {F : Type} (parser : Parser F) (ruleSize : UInt32)
    (lines : List (List Char)) : Prop where
  acl : Fits ruleSize (linesOf ACL_LEAD_CHAR lines).length
  route : Fits ruleSize (linesOf ROUTE_LEAD_CHAR lines).length
  signatures : (linesOf ACL_LEAD_CHAR lines).length ≤ 2 ^ 28
  ports : ∀ line ∈ linesOf ROUTE_LEAD_CHAR lines, ∀ field read,
    parser line.tail true = some (field, read) → (read.getD 0).toNat < 32

/-! ## Arithmetic -/

theorem offset_eq_iff (ruleSize : UInt32) (k : ℕ) :
    (UInt32.ofNat k * ruleSize).toNat = k * ruleSize.toNat ↔ k * ruleSize.toNat < 2 ^ 32 := by
  rw [UInt32.toNat_mul, UInt32.toNat_ofNat', Nat.mod_mul_mod]
  exact ⟨fun h => h ▸ Nat.mod_lt _ (Nat.two_pow_pos 32), Nat.mod_eq_of_lt⟩

theorem count_eq_iff (n : ℕ) : n = (UInt32.ofNat n).toNat ↔ n < 2 ^ 32 := by
  rw [UInt32.toNat_ofNat']
  exact ⟨fun h => h ▸ Nat.mod_lt _ (Nat.two_pow_pos 32), fun h => (Nat.mod_eq_of_lt h).symm⟩

theorem signature_eq_iff {k : ℕ} (hk : k < 2 ^ 32) :
    (ACL_DENY_SIGNATURE + UInt32.ofNat k).toNat = 0xf0000000 + k ↔ k < 2 ^ 28 := by
  have hsig : ACL_DENY_SIGNATURE.toNat = 0xf0000000 := rfl
  rw [UInt32.toNat_add, hsig, UInt32.toNat_ofNat', Nat.mod_eq_of_lt hk]
  omega

/-- Rules are where they belong just in case the offsets fit. -/
theorem placed_iff (ruleSize : UInt32) (n : ℕ) :
    (n = (UInt32.ofNat n).toNat ∧
      ∀ k < n, Placed ruleSize (UInt32.ofNat n) k (UInt32.ofNat k * ruleSize).toNat) ↔
    Fits ruleSize n := by
  rw [count_eq_iff]
  refine and_congr_right fun hn => ?_
  constructor
  · intro h
    rcases Nat.eq_zero_or_pos n with rfl | hpos
    · simp
    · exact (offset_eq_iff ruleSize (n - 1)).mp (h (n - 1) (by omega)).1
  · intro h k hk
    have hle : k * ruleSize.toNat ≤ (n - 1) * ruleSize.toNat :=
      Nat.mul_le_mul_right _ (by omega)
    have hoff := (offset_eq_iff ruleSize k).mpr (Nat.lt_of_le_of_lt hle h)
    refine ⟨hoff, ?_⟩
    rw [hoff, ← (count_eq_iff n).mpr hn, ← Nat.succ_mul]
    exact Nat.mul_le_mul_right _ hk

/-- A port that passes the check is legal just in case it is below 32. -/
theorem legalPort_iff {mask port : UInt32} (h : mask &&& (1 <<< port) ≠ 0) :
    LegalPort mask port ↔ port.toNat < 32 := by
  refine ⟨fun hl => hl.1, fun hlt => ⟨hlt, ?_⟩⟩
  have hbit := (mask_bit_iff mask port).mp h
  rwa [Nat.mod_eq_of_lt hlt] at hbit

/-! ## When they do -/

section Accepted

variable {F : Type} {parser : Parser F} {mask ruleSize : UInt32} {es : List (Entry F)}
  {route : Bool}

@[simp] theorem length_stored (ruleSize : UInt32) (route : Bool) (es : List (Entry F)) :
    (stored ruleSize route es).length = (ofKind route es).length := by
  simp [stored]

/-- The `k`-th rule of a kind comes from the `k`-th entry of that kind. -/
theorem stored_getElem {k : ℕ} {w : ℕ × AclRule F} (h : (stored ruleSize route es)[k]? = some w) :
    ∃ e n, (ofKind route es)[k]? = some (e, n) ∧ e ∈ es ∧ e.route = route ∧
      w = ((UInt32.ofNat k * ruleSize).toNat, e.rule k n) := by
  simp only [stored, List.getElem?_mapIdx, Option.map_eq_some_iff, Prod.exists] at h
  obtain ⟨e, n, hk, rfl⟩ := h
  have hmem := List.mem_filter.mp (List.mem_of_getElem? hk)
  have hidx := List.mem_zipIdx_iff_getElem?.mp hmem.1
  exact ⟨e, n, hk, List.mem_of_getElem? hidx, by simpa using hmem.2, rfl⟩

theorem exists_stored (ruleSize : UInt32) {k : ℕ} (hk : k < (ofKind route es).length) :
    ∃ w, (stored ruleSize route es)[k]? = some w ∧ w.1 = (UInt32.ofNat k * ruleSize).toNat := by
  have hlt : k < (stored ruleSize route es).length := by simpa using hk
  refine ⟨_, List.getElem?_eq_getElem hlt, ?_⟩
  simp [stored]

/-- Rules of a kind are inside their array just in case their numbers and offsets fit. -/
theorem stored_placed_iff (ruleSize : UInt32) (route : Bool) (es : List (Entry F)) :
    ((ofKind route es).length = (UInt32.ofNat (ofKind route es).length).toNat ∧
      ∀ k w, (stored ruleSize route es)[k]? = some w →
        Placed ruleSize (UInt32.ofNat (ofKind route es).length) k w.1) ↔
    Fits ruleSize (ofKind route es).length := by
  rw [← placed_iff]
  refine and_congr_right fun _ => ⟨fun h k hk => ?_, fun h k w hw => ?_⟩
  · obtain ⟨w, hw, hoff⟩ := exists_stored ruleSize hk
    exact hoff ▸ h k w hw
  · obtain ⟨e, n, hk, -, -, rfl⟩ := stored_getElem hw
    exact h k (List.getElem?_eq_some_iff.mp hk).1

variable {content : List Char} {fseek : Int} {calloc : UInt32 → UInt32 → Bool} {out : Loaded F}

/-- The entries of an accepted file are those of its lines, in order. -/
theorem addRules_entries
    (h : addRules (some content) fseek calloc mask ruleSize parser = some out) :
    ∃ es : List (Entry F), (∀ e ∈ es, e.Parsed parser ∧ PortAllowed mask e) ∧
      (linesOf ACL_LEAD_CHAR (fileLines content)).length = (ofKind false es).length ∧
      (linesOf ROUTE_LEAD_CHAR (fileLines content)).length = (ofKind true es).length ∧
      (∀ (route : Bool) (k : ℕ) (e : Entry F) (n : ℕ), (ofKind route es)[k]? = some (e, n) →
        (linesOf (leadOf route) (fileLines content))[k]? = some e.line) ∧
      out = { acl := stored ruleSize false es, aclNum := UInt32.ofNat (ofKind false es).length
              route := stored ruleSize true es, routeNum := UInt32.ofNat (ofKind true es).length
              routeCnt := UInt32.ofNat (ofKind true es).length } := by
  obtain ⟨es, -, hall, hkind, rfl⟩ := addRules_some h
  have hlen : ∀ route, (linesOf (leadOf route) (fileLines content)).length =
      (ofKind route es).length := by
    intro route
    rw [← hkind route, List.length_map]
  refine ⟨es, hall, hlen false, hlen true, fun route k e n hk => ?_, rfl⟩
  rw [← hkind route, List.getElem?_map, hk]
  rfl

/-- Rules that are stored as they should be fit, and their routes name ports below 32. -/
theorem PassesAgree.addressable
    (ha : PassesAgree parser mask ruleSize (fileLines content) out)
    (h : addRules (some content) fseek calloc mask ruleSize parser = some out) :
    Addressable parser ruleSize (fileLines content) := by
  obtain ⟨es, -, hacl, hroute, -, rfl⟩ := addRules_entries h
  have hfits := (stored_placed_iff ruleSize false es).mp
    ⟨by simpa using ha.aclCount, fun k w hw => (ha.acl k w hw).1⟩
  have hfitsR := (stored_placed_iff ruleSize true es).mp
    ⟨by simpa using ha.routeCount, fun k w hw => (ha.route k w hw).1⟩
  refine ⟨hacl ▸ hfits, hroute ▸ hfitsR, ?_, ?_⟩
  · -- the last deny rule has the largest signature
    rw [hacl]
    rcases Nat.eq_zero_or_pos (ofKind false es).length with hz | hpos
    · omega
    · have hk : (ofKind false es).length - 1 < (ofKind false es).length := by omega
      obtain ⟨w, hw, -⟩ := exists_stored ruleSize hk
      have hsig := (ha.acl _ w hw).2.1
      obtain ⟨e, n, -, -, hr, rfl⟩ := stored_getElem hw
      simp only [Entry.rule, hr, Bool.false_eq_true, if_false] at hsig
      have := (signature_eq_iff (Nat.lt_trans hk hfits.1)).mp hsig
      omega
  · intro line hmem field read hparse
    obtain ⟨k, hk⟩ := List.getElem?_of_mem hmem
    have hlt : k < (ofKind true es).length := hroute ▸ (List.getElem?_eq_some_iff.mp hk).1
    obtain ⟨w, hw, -⟩ := exists_stored ruleSize hlt
    obtain ⟨-, line', read', hline', hparse', hlegal, -⟩ := ha.route k w hw
    obtain rfl := Option.some.inj (hk.symm.trans hline')
    rw [hparse, Option.some.injEq, Prod.mk.injEq] at hparse'
    rw [hparse'.2]
    exact hlegal.1

/-- Rules that fit are stored as they should be. -/
theorem Addressable.passesAgree (hc : Addressable parser ruleSize (fileLines content))
    (h : addRules (some content) fseek calloc mask ruleSize parser = some out) :
    PassesAgree parser mask ruleSize (fileLines content) out := by
  obtain ⟨es, hall, hacl, hroute, hline, rfl⟩ := addRules_entries h
  obtain ⟨hcount, hplaced⟩ := (stored_placed_iff ruleSize false es).mpr (hacl ▸ hc.acl)
  obtain ⟨hcountR, hplacedR⟩ := (stored_placed_iff ruleSize true es).mpr (hroute ▸ hc.route)
  refine ⟨by simpa using hcount, by simpa using hcountR, rfl, ?_, ?_⟩
  · intro k w hw
    refine ⟨hplaced k w hw, ?_⟩
    obtain ⟨e, n, hk, he, hr, rfl⟩ := stored_getElem hw
    have hsmall : k < 2 ^ 28 :=
      Nat.lt_of_lt_of_le (List.getElem?_eq_some_iff.mp hk).1 (hacl ▸ hc.signatures)
    refine ⟨?_, e.line, e.read, hline false k e n hk, ?_⟩
    · simp only [Entry.rule, hr, Bool.false_eq_true, if_false]
      exact (signature_eq_iff (Nat.lt_trans hsmall (by decide))).mpr hsmall
    · simpa [hr, Entry.rule] using (hall e he).1.parse
  · intro k w hw
    refine ⟨hplacedR k w hw, ?_⟩
    obtain ⟨e, n, hk, he, hr, rfl⟩ := stored_getElem hw
    have hparse : parser e.line.tail true = some (e.field, e.read) := by
      simpa [hr] using (hall e he).1.parse
    have hlt := hc.ports e.line (List.mem_of_getElem? (hline true k e n hk)) _ _ hparse
    refine ⟨e.line, e.read, hline true k e n hk, hparse, ?_, ?_⟩
    · exact (legalPort_iff ((hall e he).2 hr)).mpr hlt
    · simp [Entry.rule, hr, Entry.userdata]

/-- **When the passes agree** on an accepted file. -/
theorem passes_agree_iff
    (h : addRules (some content) fseek calloc mask ruleSize parser = some out) :
    PassesAgree parser mask ruleSize (fileLines content) out ↔
      Addressable parser ruleSize (fileLines content) :=
  ⟨fun ha => ha.addressable h, fun hc => hc.passesAgree h⟩

end Accepted

/-! ## Two files -/

/-- `sizeof(struct acl4_rule)`. -/
def ACL4_RULE_SIZE : UInt32 := 96

/-- `add_rules` on a file of IPv4 rules that can be read. -/
def loadIpv4 (enabledPortMask : UInt32) (content : List Char) : Option (Loaded Acl4Fields) :=
  addRules (some content) 0 (fun _ _ => true) enabledPortMask ACL4_RULE_SIZE parseCbIpv4vlanRule

/-- A default route to a port. -/
def defaultRoute (port : String) : List Char :=
  "R0.0.0.0/0 0.0.0.0/0 0 : 65535 0 : 65535 0/0 ".toList ++ port.toList ++ ['\n']

/-- A rule that denies a port. -/
def denyPort (port : String) : List Char :=
  "@0.0.0.0/0 0.0.0.0/0 0 : 65535 ".toList ++ port.toList ++ " : ".toList ++ port.toList ++
    " 6/0xff\n".toList

def anyFields : Acl4Fields := ⟨⟨0, 0⟩, ⟨0, 0⟩, ⟨0, 0⟩, ⟨0, 65535⟩, ⟨0, 65535⟩⟩

def denyFields (port : UInt16) : Acl4Fields :=
  ⟨⟨6, 255⟩, ⟨0, 0⟩, ⟨0, 0⟩, ⟨0, 65535⟩, ⟨port, port⟩⟩

/-- Two rules in front of a route. -/
def denyThenRoute : List Char := denyPort "23" ++ denyPort "80" ++ defaultRoute "0"

def denyThenRouteLoaded : Loaded Acl4Fields :=
  { acl := [(0, ⟨-1, 0x1fffffff, 0xf0000000, denyFields 23⟩),
      (96, ⟨-1, 0x1ffffffe, 0xf0000001, denyFields 80⟩)]
    aclNum := 2
    route := [(0, ⟨-1, 0x1ffffffd, 1, anyFields⟩)]
    routeNum := 1
    routeCnt := 1 }

theorem loadIpv4_denyThenRoute : loadIpv4 1 denyThenRoute = some denyThenRouteLoaded := by
  decide +kernel

theorem addressable_denyThenRoute :
    Addressable parseCbIpv4vlanRule ACL4_RULE_SIZE (fileLines denyThenRoute) := by
  refine ⟨by unfold Fits; decide +kernel, by unfold Fits; decide +kernel, by decide +kernel, ?_⟩
  have hlines : linesOf ROUTE_LEAD_CHAR (fileLines denyThenRoute) = [defaultRoute "0"] := by
    decide +kernel
  have hparse : parseCbIpv4vlanRule (defaultRoute "0").tail true = some (anyFields, some 0) := by
    decide +kernel
  rw [hlines]
  intro line hmem field read h
  obtain rfl := List.mem_singleton.mp hmem
  rw [hparse, Option.some.injEq, Prod.mk.injEq] at h
  rw [← h.2]
  decide

/-- A file on which they agree. -/
theorem denyThenRoute_agrees : PassesAgree parseCbIpv4vlanRule 1 ACL4_RULE_SIZE
    (fileLines denyThenRoute) denyThenRouteLoaded :=
  (passes_agree_iff loadIpv4_denyThenRoute).mpr addressable_denyThenRoute

/-- A route to port 32 passes the check of port 0. -/
theorem route_to_port_32 : ∃ out : Loaded Acl4Fields,
    loadIpv4 1 (defaultRoute "32") = some out ∧
      ¬PassesAgree parseCbIpv4vlanRule 1 ACL4_RULE_SIZE (fileLines (defaultRoute "32")) out := by
  refine ⟨⟨[], 0, [(0, ⟨-1, 0x1fffffff, 33, anyFields⟩)], 1, 1⟩, by decide +kernel, fun h => ?_⟩
  obtain ⟨-, line, read, hline, hparse, hlegal, -⟩ := h.route 0 _ rfl
  have hlines : (linesOf ROUTE_LEAD_CHAR (fileLines (defaultRoute "32")))[0]? =
      some (defaultRoute "32") := by decide +kernel
  have hread : parseCbIpv4vlanRule (defaultRoute "32").tail true = some (anyFields, some 32) := by
    decide +kernel
  obtain rfl := Option.some.inj (hlines.symm.trans hline)
  rw [hread, Option.some.injEq, Prod.mk.injEq] at hparse
  rw [← hparse.2] at hlegal
  exact absurd hlegal.1 (by decide)

end QueueDpdk.Rules
