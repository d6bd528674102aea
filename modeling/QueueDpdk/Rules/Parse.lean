import Mathlib.Data.List.Infix
import Mathlib.Data.Option.Basic
import QueueDpdk.Lib.Literal
import QueueDpdk.Lib.Strtok

/-!
# Lines of the IPv4 rule file (`nf-chain/src/main.c`)

Strings are lists of characters without the terminator, and `none` is `-EINVAL`.

* `getCbField`, `parseIpv4Net`, `parseCbIpv4vlanRule` — as in the source.
* `RuleText`, `RuleText.Means` — the documented grammar, and the rule a line stands for.
* `parseCbIpv4vlanRule_iff` — the parser decodes it, if no number is empty, signed or preceded by
  a blank.
-/

set_option autoImplicit false

namespace QueueDpdk.Rules

open Lib

/-! ## The parser -/

def UINT8_MAX : ℕ := 255
def UINT16_MAX : ℕ := 65535
def UINT32_MAX : ℕ := 4294967295

/-- `GET_CB_FIELD`, with the rest of the string it moves on to. A delimiter of 0 is `none`. -/
def getCbField (s : List Char) (base lim : ℕ) (dlm : Option Char) : Option (ℕ × List Char) :=
  let val := strtoul s base
  if val.range = true ∨ val.rest.head? ≠ dlm ∨ lim < val.value then none
  else some (val.value, val.rest.tail)

/-- `RTE_IPV4`. -/
def rteIpv4 (a b c d : UInt8) : UInt32 :=
  a.toUInt32 <<< 24 ||| b.toUInt32 <<< 16 ||| c.toUInt32 <<< 8 ||| d.toUInt32

/-- A value and its mask, length or upper end: `struct rte_acl_field`. -/
structure AclField (α : Type) where
  value : α
  maskRange : α
deriving DecidableEq, Repr

/-- `field` of `struct acl4_rule`. -/
structure Acl4Fields where
  proto : AclField UInt8
  src : AclField UInt32
  dst : AclField UInt32
  srcp : AclField UInt16
  dstp : AclField UInt16
deriving DecidableEq, Repr

/-- `parse_ipv4_net`. -/
def parseIpv4Net (s : List Char) : Option (AclField UInt32) := do
  let (a, s) ← getCbField s 0 UINT8_MAX (some '.')
  let (b, s) ← getCbField s 0 UINT8_MAX (some '.')
  let (c, s) ← getCbField s 0 UINT8_MAX (some '.')
  let (d, s) ← getCbField s 0 UINT8_MAX (some '/')
  let (m, _) ← getCbField s 0 32 none
  some ⟨rteIpv4 (.ofNat a) (.ofNat b) (.ofNat c) (.ofNat d), .ofNat m⟩

def CB_FLD_SRC_ADDR : ℕ := 0
def CB_FLD_DST_ADDR : ℕ := 1
def CB_FLD_SRC_PORT_LOW : ℕ := 2
def CB_FLD_SRC_PORT_DLM : ℕ := 3
def CB_FLD_SRC_PORT_HIGH : ℕ := 4
def CB_FLD_DST_PORT_LOW : ℕ := 5
def CB_FLD_DST_PORT_DLM : ℕ := 6
def CB_FLD_DST_PORT_HIGH : ℕ := 7
def CB_FLD_PROTO : ℕ := 8
def CB_FLD_USERDATA : ℕ := 9
def CB_FLD_NUM : ℕ := 10

/-- `cb_port_delim`. -/
def cbPortDelim : List Char := [':']

/-- `dlm`. -/
def isDlm (c : Char) : Bool := c == ' ' || c == '\t' || c == '\n'

/-- The part of `parse_cb_ipv4vlan_rule` that reads the first nine fields. -/
def parseCbFields (fld : List (List Char)) : Option Acl4Fields := do
  let src ← parseIpv4Net (fld.getD CB_FLD_SRC_ADDR [])
  let dst ← parseIpv4Net (fld.getD CB_FLD_DST_ADDR [])
  let (srcLow, _) ← getCbField (fld.getD CB_FLD_SRC_PORT_LOW []) 0 UINT16_MAX none
  let (srcHigh, _) ← getCbField (fld.getD CB_FLD_SRC_PORT_HIGH []) 0 UINT16_MAX none
  guard (fld.getD CB_FLD_SRC_PORT_DLM [] = cbPortDelim)
  let (dstLow, _) ← getCbField (fld.getD CB_FLD_DST_PORT_LOW []) 0 UINT16_MAX none
  let (dstHigh, _) ← getCbField (fld.getD CB_FLD_DST_PORT_HIGH []) 0 UINT16_MAX none
  guard (fld.getD CB_FLD_DST_PORT_DLM [] = cbPortDelim)
  let srcp : AclField UInt16 := ⟨.ofNat srcLow, .ofNat srcHigh⟩
  let dstp : AclField UInt16 := ⟨.ofNat dstLow, .ofNat dstHigh⟩
  guard ¬(srcp.maskRange < srcp.value ∨ dstp.maskRange < dstp.value)
  let (proto, s) ← getCbField (fld.getD CB_FLD_PROTO []) 0 UINT8_MAX (some '/')
  let (mask, _) ← getCbField s 0 UINT8_MAX none
  some ⟨⟨.ofNat proto, .ofNat mask⟩, src, dst, srcp, dstp⟩

/-- `parse_cb_ipv4vlan_rule`: the fields of the rule, and its `userdata` if that is read. -/
def parseCbIpv4vlanRule (str : List Char) (hasUserdata : Bool) :
    Option (Acl4Fields × Option UInt32) := do
  let fld ← strtokTimes isDlm (if hasUserdata then CB_FLD_NUM else CB_FLD_USERDATA) str
  let fields ← parseCbFields fld
  if hasUserdata then
    let (userdata, _) ← getCbField (fld.getD CB_FLD_USERDATA []) 0 UINT32_MAX none
    some (fields, some (.ofNat userdata))
  else some (fields, none)

/-! ## One number -/

/-- A text is a number of at most `lim`. -/
def Written (n : List Char) (lim v : ℕ) : Prop := IsLiteral n v ∧ v ≤ lim

/-- A text that is not empty and starts with neither a blank nor a sign. -/
def Plain : List Char → Prop
  | [] => False
  | c :: _ => isSpace c = false ∧ c ≠ '+' ∧ c ≠ '-'

instance : DecidablePred Plain
  | [] => inferInstanceAs (Decidable False)
  | _ :: _ => inferInstanceAs (Decidable (_ ∧ _))

/-- A text inside an address or a protocol. -/
def Undelimited (n : List Char) : Prop := '.' ∉ n ∧ '/' ∉ n

instance : DecidablePred Undelimited := fun _ => inferInstanceAs (Decidable (_ ∧ _))

section Numbers

variable {s n tail : List Char} {lim v : ℕ} {dlm : Option Char}

/-- The end of the string, or a dot or slash. -/
def Delimits (dlm : Option Char) (tail : List Char) : Prop :=
  (dlm = none ∧ tail = []) ∨ dlm = some '.' ∨ dlm = some '/'

theorem Delimits.ends (h : Delimits dlm tail) : Ends (dlm.toList ++ tail) := by
  rcases h with ⟨rfl, rfl⟩ | rfl | rfl
  · intro c hc
    cases hc
  · intro c hc
    cases hc
    decide
  · intro c hc
    cases hc
    decide

theorem Delimits.head (h : Delimits dlm tail) :
    (dlm.toList ++ tail).head? = dlm ∧ (dlm.toList ++ tail).tail = tail := by
  rcases h with ⟨rfl, rfl⟩ | rfl | rfl <;> exact ⟨rfl, rfl⟩

/-- A number in its range is read. -/
theorem getCbField_written (h : Written n lim v) (hlim : lim ≤ ULONG_MAX)
    (hd : Delimits dlm tail) : getCbField (n ++ (dlm.toList ++ tail)) 0 lim dlm = some (v, tail) := by
  obtain ⟨hlit, hle⟩ := h
  have hfits : ¬ULONG_MAX < v := Nat.not_lt.mpr (Nat.le_trans hle hlim)
  obtain ⟨hhead, htail⟩ := hd.head
  simp [getCbField, strtoul_literal hlit hd.ends, signedValue, hfits, hhead, htail, hle]

theorem getCbField_dot (h : Written n UINT8_MAX v) :
    getCbField (n ++ '.' :: tail) 0 UINT8_MAX (some '.') = some (v, tail) := by
  have hd : Delimits (some '.') tail := Or.inr (Or.inl rfl)
  simpa using getCbField_written h (by decide) hd

theorem getCbField_slash (h : Written n UINT8_MAX v) :
    getCbField (n ++ '/' :: tail) 0 UINT8_MAX (some '/') = some (v, tail) := by
  have hd : Delimits (some '/') tail := Or.inr (Or.inr rfl)
  simpa using getCbField_written h (by decide) hd

theorem getCbField_end (h : Written n lim v) (hlim : lim ≤ ULONG_MAX) :
    getCbField n 0 lim none = some (v, []) := by
  have hd : Delimits none [] := Or.inl ⟨rfl, rfl⟩
  simpa using getCbField_written h hlim hd

theorem isLiteral_undelimited (h : IsLiteral n v) : Undelimited n := by
  have hdigits : ∀ {base : ℕ} {ds : List Char}, (∀ d ∈ ds, isDigitIn base d = true) →
      Undelimited ds := by
    intro base ds hds
    have hdot : isDigitIn base '.' = false := isDigitIn_of_none (by decide)
    have hslash : isDigitIn base '/' = false := isDigitIn_of_none (by decide)
    constructor
    · intro hmem
      rw [hds _ hmem] at hdot
      cases hdot
    · intro hmem
      rw [hds _ hmem] at hslash
      cases hslash
  cases h with
  | decimal hc hds => exact hdigits hds
  | octal hds =>
    have := hdigits hds
    simpa [Undelimited] using this
  | hex hx hne hds =>
    have := hdigits hds
    rcases hx with rfl | rfl <;> simpa [Undelimited] using this

/-- What `GET_CB_FIELD` has checked. -/
theorem getCbField_some (h : getCbField s 0 lim dlm = some (v, tail))
    (hdlm : dlm = none ∨ dlm = some '.' ∨ dlm = some '/') :
    (strtoul s 0).value = v ∧ (strtoul s 0).range = false ∧
      (strtoul s 0).rest = dlm.toList ++ tail ∧ v ≤ lim ∧ Delimits dlm tail := by
  unfold getCbField at h
  dsimp only at h
  split at h
  · cases h
  · rename_i hok
    obtain ⟨hrange, hhead, hlim⟩ : (strtoul s 0).range = false ∧ (strtoul s 0).rest.head? = dlm ∧
        (strtoul s 0).value ≤ lim := by simpa using hok
    obtain ⟨rfl, rfl⟩ := Prod.mk.inj (Option.some.inj h)
    refine ⟨rfl, hrange, ?_, hlim, ?_⟩
    · cases hr : (strtoul s 0).rest with
      | nil => simp [hr] at hhead; simp [← hhead]
      | cons c cs => simp [hr] at hhead; simp [← hhead]
    · rcases hdlm with rfl | hdlm
      · exact Or.inl ⟨rfl, by simp [List.head?_eq_none_iff.mp hhead]⟩
      · exact Or.inr hdlm

/-- Blanks and a sign in front of a number contain no delimiters. -/
theorem undelimited_lead {blanks sign : List Char} (hblanks : ∀ c ∈ blanks, isSpace c = true)
    (hsign : sign = [] ∨ sign = ['+'] ∨ sign = ['-']) (h : Undelimited n) :
    Undelimited (blanks ++ sign ++ n) := by
  have hspace : ∀ c, isSpace c = false → c ∉ blanks := by
    intro c hc hmem
    rw [hblanks c hmem] at hc
    cases hc
  have hdot := hspace '.' (by decide)
  have hslash := hspace '/' (by decide)
  obtain ⟨hdot', hslash'⟩ := h
  rcases hsign with rfl | rfl | rfl <;> simp [Undelimited, hdot, hslash, hdot', hslash']

/-- A plain text has neither. -/
theorem Plain.lead_nil {blanks sign : List Char} (h : Plain (blanks ++ sign ++ n))
    (hblanks : ∀ c ∈ blanks, isSpace c = true)
    (hsign : sign = [] ∨ sign = ['+'] ∨ sign = ['-']) : blanks = [] ∧ sign = [] := by
  have hbn : blanks = [] := by
    cases blanks with
    | nil => rfl
    | cons b bs =>
      have hb := hblanks b List.mem_cons_self
      rw [h.1] at hb
      cases hb
  subst hbn
  rcases hsign with rfl | rfl | rfl
  · exact ⟨rfl, rfl⟩
  · exact absurd rfl h.2.1
  · exact absurd rfl h.2.2

/-- Whatever is read, a plain text is the number written. -/
theorem getCbField_text (h : getCbField s 0 lim dlm = some (v, tail))
    (hdlm : dlm = none ∨ dlm = some '.' ∨ dlm = some '/') :
    ∃ n, s = n ++ (dlm.toList ++ tail) ∧ Undelimited n ∧ (Plain n → Written n lim v) ∧
      v ≤ lim ∧ Delimits dlm tail := by
  obtain ⟨hvalue, hrange, hrest, hlim, hdel⟩ := getCbField_some h hdlm
  rcases literal_of_strtoul s with hnone | ⟨blanks, sign, text, w, hlit, hs, hblanks, hsign, hval,
    hover⟩
  · refine ⟨[], ?_, by simp [Undelimited], nofun, hlim, hdel⟩
    rw [← hrest, hnone]
    rfl
  · refine ⟨blanks ++ sign ++ text, ?_, ?_, fun hplain => ?_, hlim, hdel⟩
    · rw [← hrest]
      exact hs
    · exact undelimited_lead hblanks hsign (isLiteral_undelimited hlit)
    · obtain ⟨rfl, rfl⟩ := hplain.lead_nil hblanks hsign
      have hfits : ¬ULONG_MAX < w := by simpa [hover] using hrange
      have hv : v = w := by simpa [signedValue, hfits, hvalue] using hval
      rw [hv] at hlim ⊢
      exact ⟨hlit, hlim⟩

/-- The same for a text that goes on to the end. -/
theorem getCbField_end_text (h : getCbField s 0 lim none = some (v, tail)) :
    Undelimited s ∧ (Plain s → Written s lim v) ∧ v ≤ lim := by
  obtain ⟨n, rfl, hun, hplain, hle, hend⟩ := getCbField_text h (Or.inl rfl)
  obtain rfl : tail = [] := by simpa [Delimits] using hend
  simpa using ⟨hun, hplain, hle⟩

end Numbers

/-! ## Addresses -/

/-- Shifted bytes do not overlap. -/
theorem shiftLeft_or {x y k : ℕ} (h : y < 2 ^ k) : x <<< k ||| y = x * 2 ^ k + y := by
  rw [← Nat.shiftLeft_add_eq_or_of_lt h, Nat.shiftLeft_eq]

theorem byte_shiftLeft (x : UInt8) (k : UInt32) (hk : k.toNat ≤ 24) :
    (x.toUInt32 <<< k).toNat = x.toNat <<< k.toNat := by
  rw [UInt32.toNat_shiftLeft, UInt8.toNat_toUInt32, Nat.mod_eq_of_lt (b := 32) (by omega)]
  apply Nat.mod_eq_of_lt
  rw [Nat.shiftLeft_eq]
  calc x.toNat * 2 ^ k.toNat ≤ x.toNat * 2 ^ 24 :=
        Nat.mul_le_mul_left _ (Nat.pow_le_pow_right (by decide) hk)
    _ < 2 ^ 8 * 2 ^ 24 := Nat.mul_lt_mul_of_pos_right x.toNat_lt (by decide)

theorem rteIpv4_toNat (a b c d : UInt8) : (rteIpv4 a b c d).toNat =
    a.toNat * 2 ^ 24 + b.toNat * 2 ^ 16 + c.toNat * 2 ^ 8 + d.toNat := by
  have hb := b.toNat_lt
  have hc := c.toNat_lt
  have hd := d.toNat_lt
  have hshift : (rteIpv4 a b c d).toNat =
      a.toNat <<< 24 ||| (b.toNat <<< 16 ||| (c.toNat <<< 8 ||| d.toNat)) := by
    simp only [rteIpv4, UInt32.toNat_or, byte_shiftLeft a 24 (by decide),
      byte_shiftLeft b 16 (by decide), byte_shiftLeft c 8 (by decide), UInt8.toNat_toUInt32,
      Nat.or_assoc]
    rfl
  have hlow : c.toNat <<< 8 ||| d.toNat = c.toNat * 2 ^ 8 + d.toNat := shiftLeft_or hd
  have hmid : b.toNat <<< 16 ||| (c.toNat * 2 ^ 8 + d.toNat) =
      b.toNat * 2 ^ 16 + (c.toNat * 2 ^ 8 + d.toNat) := shiftLeft_or (by omega)
  rw [hshift, hlow, hmid, shiftLeft_or (by omega)]
  omega

/-- The five texts of an address with its length. -/
structure NetText where
  a : List Char
  b : List Char
  c : List Char
  d : List Char
  len : List Char

/-- `a.b.c.d/len`. -/
def NetText.text (n : NetText) : List Char :=
  n.a ++ '.' :: (n.b ++ '.' :: (n.c ++ '.' :: (n.d ++ '/' :: n.len)))

def NetText.numbers (n : NetText) : List (List Char) := [n.a, n.b, n.c, n.d, n.len]

/-- Four octets and a length, and the field that holds them. -/
def NetText.Means (n : NetText) (field : AclField UInt32) : Prop :=
  ∃ a b c d, Written n.a 255 a ∧ Written n.b 255 b ∧ Written n.c 255 c ∧ Written n.d 255 d ∧
    field.value.toNat = a * 2 ^ 24 + b * 2 ^ 16 + c * 2 ^ 8 + d ∧
    Written n.len 32 field.maskRange.toNat

theorem toNat_octet {x : ℕ} (h : x ≤ UINT8_MAX) : (UInt8.ofNat x).toNat = x :=
  UInt8.toNat_ofNat_of_lt' (Nat.lt_succ_of_le h)

/-- The value that `parse_ipv4_net` puts together. -/
theorem rteIpv4_octets {a b c d : ℕ} (ha : a ≤ UINT8_MAX) (hb : b ≤ UINT8_MAX) (hc : c ≤ UINT8_MAX)
    (hd : d ≤ UINT8_MAX) : (rteIpv4 (.ofNat a) (.ofNat b) (.ofNat c) (.ofNat d)).toNat =
      a * 2 ^ 24 + b * 2 ^ 16 + c * 2 ^ 8 + d := by
  rw [rteIpv4_toNat, toNat_octet ha, toNat_octet hb, toNat_octet hc, toNat_octet hd]

/-- Documented addresses are accepted. -/
theorem parseIpv4Net_means {n : NetText} {field : AclField UInt32} (h : n.Means field) :
    parseIpv4Net n.text = some field := by
  obtain ⟨a, b, c, d, ha, hb, hc, hd, hval, hlen⟩ := h
  have hslash : getCbField (n.d ++ '/' :: n.len) 0 UINT8_MAX (some '/') = some (d, n.len) :=
    getCbField_slash hd
  have hend : getCbField n.len 0 32 none = some (field.maskRange.toNat, []) :=
    getCbField_end hlen (by decide)
  have hvalue : rteIpv4 (.ofNat a) (.ofNat b) (.ofNat c) (.ofNat d) = field.value := by
    rw [← UInt32.toNat_inj, rteIpv4_octets ha.2 hb.2 hc.2 hd.2, hval]
  simp [parseIpv4Net, NetText.text, getCbField_dot ha, getCbField_dot hb, getCbField_dot hc,
    hslash, hend, hvalue]

/-- Accepted addresses have the documented shape, and with plain numbers mean what they say. -/
theorem parseIpv4Net_text {s : List Char} {field : AclField UInt32}
    (h : parseIpv4Net s = some field) : ∃ n : NetText, s = n.text ∧
      (∀ x ∈ n.numbers, Undelimited x) ∧ ((∀ x ∈ n.numbers, Plain x) → n.Means field) := by
  simp only [parseIpv4Net, bind, Option.bind_eq_some_iff, Option.some.injEq, Prod.exists] at h
  obtain ⟨a, s₁, ha, b, s₂, hb, c, s₃, hc, d, s₄, hd, m, s₅, hm, rfl⟩ := h
  obtain ⟨na, rfl, hua, hwa, hla, -⟩ := getCbField_text ha (Or.inr (Or.inl rfl))
  obtain ⟨nb, rfl, hub, hwb, hlb, -⟩ := getCbField_text hb (Or.inr (Or.inl rfl))
  obtain ⟨nc, rfl, huc, hwc, hlc, -⟩ := getCbField_text hc (Or.inr (Or.inl rfl))
  obtain ⟨nd, rfl, hud, hwd, hld, -⟩ := getCbField_text hd (Or.inr (Or.inr rfl))
  obtain ⟨hum, hwm, hlm⟩ := getCbField_end_text hm
  refine ⟨⟨na, nb, nc, nd, s₄⟩, by simp [NetText.text], ?_, fun hplain => ?_⟩
  · simp [NetText.numbers, hua, hub, huc, hud, hum]
  · simp only [NetText.numbers, List.forall_mem_cons] at hplain
    obtain ⟨hpa, hpb, hpc, hpd, hpm, -⟩ := hplain
    have hlen : (UInt32.ofNat m).toNat = m :=
      UInt32.toNat_ofNat_of_lt' (Nat.lt_of_le_of_lt hlm (by decide))
    refine ⟨a, b, c, d, hwa hpa, hwb hpb, hwc hpc, hwd hpd, rteIpv4_octets hla hlb hlc hld, ?_⟩
    rw [hlen]
    exact hwm hpm

/-! ## Rules -/

/-- The texts of a rule. -/
structure RuleText where
  src : NetText
  dst : NetText
  srcLow : List Char
  srcHigh : List Char
  dstLow : List Char
  dstHigh : List Char
  proto : List Char
  mask : List Char
  userdata : List Char

/-- `<src_ipv4>/<len> <dst_ipv4>/<len> <src_low> : <src_high> <dst_low> : <dst_high>
    <proto>/<mask> [<userdata>]`. -/
def RuleText.fields (r : RuleText) (hasUserdata : Bool) : List (List Char) :=
  [r.src.text, r.dst.text, r.srcLow, [':'], r.srcHigh, r.dstLow, [':'], r.dstHigh,
    r.proto ++ '/' :: r.mask] ++ if hasUserdata then [r.userdata] else []

def RuleText.numbers (r : RuleText) (hasUserdata : Bool) : List (List Char) :=
  r.src.numbers ++ r.dst.numbers ++ [r.srcLow, r.srcHigh, r.dstLow, r.dstHigh, r.proto, r.mask] ++
    if hasUserdata then [r.userdata] else []

/-- The fields of a string begin with those of a rule, whose numbers have no delimiters in them. -/
structure RuleText.Splits (r : RuleText) (str : List Char) (hasUserdata : Bool) : Prop where
  isPrefix : r.fields hasUserdata <+: Lib.fields isDlm str
  undelimited : ∀ x ∈ r.numbers hasUserdata, Undelimited x

/-- The numbers of the first nine fields are in their ranges, and the rule holds them. -/
structure RuleText.FieldsMean (r : RuleText) (f : Acl4Fields) : Prop where
  src : r.src.Means f.src
  dst : r.dst.Means f.dst
  srcLow : Written r.srcLow 65535 f.srcp.value.toNat
  srcHigh : Written r.srcHigh 65535 f.srcp.maskRange.toNat
  src_le : f.srcp.value ≤ f.srcp.maskRange
  dstLow : Written r.dstLow 65535 f.dstp.value.toNat
  dstHigh : Written r.dstHigh 65535 f.dstp.maskRange.toNat
  dst_le : f.dstp.value ≤ f.dstp.maskRange
  proto : Written r.proto 255 f.proto.value.toNat
  mask : Written r.mask 255 f.proto.maskRange.toNat

/-- So is its `userdata`, which is there just in case it is asked for. -/
structure RuleText.Means (r : RuleText) (hasUserdata : Bool) (v : Acl4Fields × Option UInt32) :
    Prop where
  fields : r.FieldsMean v.1
  userdata : hasUserdata = true → ∃ u, v.2 = some u ∧ Written r.userdata 4294967295 u.toNat
  no_userdata : hasUserdata = false → v.2 = none

section Rules

variable {str : List Char} {hasUserdata : Bool} {v : Acl4Fields × Option UInt32} {r : RuleText}
  {f : Acl4Fields} {fld : List (List Char)}

theorem RuleText.length_fields (r : RuleText) (hasUserdata : Bool) :
    (r.fields hasUserdata).length = if hasUserdata then CB_FLD_NUM else CB_FLD_USERDATA := by
  cases hasUserdata <;> rfl

theorem parseCbFields_means (h : r.FieldsMean f) (hasUserdata : Bool) :
    parseCbFields (r.fields hasUserdata) = some f := by
  have hport : ∀ {x : List Char} {p : UInt16}, Written x 65535 p.toNat →
      getCbField x 0 UINT16_MAX none = some (p.toNat, []) := fun hx => getCbField_end hx (by decide)
  have hproto : getCbField (r.proto ++ '/' :: r.mask) 0 UINT8_MAX (some '/') =
      some (f.proto.value.toNat, r.mask) := getCbField_slash h.proto
  have hmask : getCbField r.mask 0 UINT8_MAX none = some (f.proto.maskRange.toNat, []) :=
    getCbField_end h.mask (by decide)
  simp [parseCbFields, RuleText.fields, CB_FLD_SRC_ADDR, CB_FLD_DST_ADDR, CB_FLD_SRC_PORT_LOW,
    CB_FLD_SRC_PORT_DLM, CB_FLD_SRC_PORT_HIGH, CB_FLD_DST_PORT_LOW, CB_FLD_DST_PORT_DLM,
    CB_FLD_DST_PORT_HIGH, CB_FLD_PROTO, cbPortDelim, parseIpv4Net_means h.src,
    parseIpv4Net_means h.dst, hport h.srcLow, hport h.srcHigh, hport h.dstLow, hport h.dstHigh,
    hproto, hmask, h.src_le, h.dst_le]

/-- **Documented rules are accepted.** -/
theorem parseCbIpv4vlanRule_means (hs : r.Splits str hasUserdata) (h : r.Means hasUserdata v) :
    parseCbIpv4vlanRule str hasUserdata = some v := by
  have hfld := strtokTimes_eq_some_iff.mpr ⟨hs.isPrefix, r.length_fields hasUserdata⟩
  have hfields := parseCbFields_means h.fields hasUserdata
  obtain ⟨f, w⟩ := v
  simp only [parseCbIpv4vlanRule, hfld, Option.bind_eq_bind, Option.bind_some, hfields]
  cases hasUserdata with
  | false =>
    have hw : w = none := h.no_userdata rfl
    simp [hw]
  | true =>
    obtain ⟨u, hw, hu⟩ := h.userdata rfl
    have huser : getCbField r.userdata 0 UINT32_MAX none = some (u.toNat, []) :=
      getCbField_end hu (by decide)
    have hget : (r.fields true).getD CB_FLD_USERDATA [] = r.userdata := rfl
    have hw : w = some u := hw
    rw [if_pos rfl, hget, huser, hw]
    simp

theorem toNat_port {x : ℕ} (h : x ≤ UINT16_MAX) : (UInt16.ofNat x).toNat = x :=
  UInt16.toNat_ofNat_of_lt' (Nat.lt_succ_of_le h)

/-- Nine fields that are accepted are those of a rule. -/
theorem parseCbFields_text {t₀ t₁ t₂ t₃ t₄ t₅ t₆ t₇ t₈ : List Char} (more : List (List Char))
    (h : parseCbFields ([t₀, t₁, t₂, t₃, t₄, t₅, t₆, t₇, t₈] ++ more) = some f)
    (userdata : List Char) : ∃ r : RuleText, r.userdata = userdata ∧
      r.fields false = [t₀, t₁, t₂, t₃, t₄, t₅, t₆, t₇, t₈] ∧
      (∀ x ∈ r.numbers false, Undelimited x) ∧
      ((∀ x ∈ r.numbers false, Plain x) → r.FieldsMean f) := by
  simp only [parseCbFields, bind, Option.bind_eq_some_iff, Prod.exists, Option.guard_eq_some',
    exists_const, Option.some.injEq]  at h
  obtain ⟨src, hsrc, dst, hdst, sl, _, hsl, sh, _, hsh, hsdlm, dl, _, hdl, dh, _, hdh, hddlm, hle,
    pr, s, hpr, mk, _, hmk, rfl⟩ := h
  obtain ⟨nsrc, rfl, husrc, hmsrc⟩ := parseIpv4Net_text (s := t₀) hsrc
  obtain ⟨ndst, rfl, hudst, hmdst⟩ := parseIpv4Net_text (s := t₁) hdst
  obtain ⟨husl, hwsl, hlsl⟩ := getCbField_end_text (s := t₂) hsl
  obtain ⟨hush, hwsh, hlsh⟩ := getCbField_end_text (s := t₄) hsh
  obtain ⟨hudl, hwdl, hldl⟩ := getCbField_end_text (s := t₅) hdl
  obtain ⟨hudh, hwdh, hldh⟩ := getCbField_end_text (s := t₇) hdh
  obtain ⟨npr, rfl, hupr, hwpr, hlpr, -⟩ := getCbField_text (s := t₈) hpr (Or.inr (Or.inr rfl))
  obtain ⟨humk, hwmk, hlmk⟩ := getCbField_end_text hmk
  obtain rfl : t₃ = [':'] := hsdlm
  obtain rfl : t₆ = [':'] := hddlm
  refine ⟨⟨nsrc, ndst, t₂, t₄, t₅, t₇, npr, s, userdata⟩, rfl, by simp [RuleText.fields], ?_,
    fun hplain => ?_⟩
  · simp only [RuleText.numbers, List.forall_mem_append, List.forall_mem_cons]
    exact ⟨⟨⟨husrc, hudst⟩, husl, hush, hudl, hudh, hupr, humk, nofun⟩, nofun⟩
  · simp only [RuleText.numbers, List.forall_mem_append, List.forall_mem_cons] at hplain
    obtain ⟨⟨⟨hpsrc, hpdst⟩, hpsl, hpsh, hpdl, hpdh, hppr, hpmk, -⟩, -⟩ := hplain
    obtain ⟨hsle, hdle⟩ := not_or.mp hle
    exact
      { src := hmsrc hpsrc
        dst := hmdst hpdst
        srcLow := (toNat_port hlsl).symm ▸ hwsl hpsl
        srcHigh := (toNat_port hlsh).symm ▸ hwsh hpsh
        src_le := UInt16.not_lt.mp hsle
        dstLow := (toNat_port hldl).symm ▸ hwdl hpdl
        dstHigh := (toNat_port hldh).symm ▸ hwdh hpdh
        dst_le := UInt16.not_lt.mp hdle
        proto := (toNat_octet hlpr).symm ▸ hwpr hppr
        mask := (toNat_octet hlmk).symm ▸ hwmk hpmk }

/-- **Accepted strings are rules**, which with plain numbers mean what they say. -/
theorem parseCbIpv4vlanRule_text (h : parseCbIpv4vlanRule str hasUserdata = some v) :
    ∃ r : RuleText, r.Splits str hasUserdata ∧
      ((∀ x ∈ r.numbers hasUserdata, Plain x) → r.Means hasUserdata v) := by
  simp only [parseCbIpv4vlanRule, bind, Option.bind_eq_some_iff] at h
  obtain ⟨fld, hfld, f, hf, h⟩ := h
  obtain ⟨hfirst, hlen⟩ := strtokTimes_eq_some_iff.mp hfld
  cases hasUserdata with
  | false =>
    match fld, hlen with
    | [t₀, t₁, t₂, t₃, t₄, t₅, t₆, t₇, t₈], _ =>
      obtain ⟨r, -, hr, hun, hmeans⟩ := parseCbFields_text [] hf []
      obtain rfl := Option.some.inj h
      exact ⟨r, ⟨by rwa [hr], hun⟩, fun hplain => ⟨hmeans hplain, nofun, fun _ => rfl⟩⟩
  | true =>
    match fld, hlen with
    | [t₀, t₁, t₂, t₃, t₄, t₅, t₆, t₇, t₈, t₉], _ =>
      obtain ⟨r, hru, hr, hun, hmeans⟩ := parseCbFields_text [t₉] hf t₉
      have hfields : r.fields true = r.fields false ++ [r.userdata] := by simp [RuleText.fields]
      have hnumbers : r.numbers true = r.numbers false ++ [r.userdata] := by simp [RuleText.numbers]
      simp only [if_true, Option.bind_eq_some_iff, Prod.exists] at h
      obtain ⟨u, s, hu, hv⟩ := h
      obtain rfl := Option.some.inj hv
      obtain ⟨huu, hwu, hlu⟩ := getCbField_end_text (s := t₉) hu
      have htoNat : (UInt32.ofNat u).toNat = u := UInt32.toNat_ofNat_of_lt' (Nat.lt_succ_of_le hlu)
      refine ⟨r, ⟨?_, ?_⟩, fun hplain => ⟨?_, fun _ => ⟨_, rfl, ?_⟩, nofun⟩⟩
      · rw [hfields, hr, hru]
        exact hfirst
      · rw [hnumbers, List.forall_mem_append, hru]
        exact ⟨hun, by simpa using huu⟩
      · exact hmeans fun x hx => hplain x (hnumbers ▸ List.mem_append_left _ hx)
      · rw [htoNat, hru]
        exact hwu (hplain t₉ (hnumbers ▸ hru ▸ by simp))

/-- No number of a string is empty, signed or preceded by a blank. -/
def PlainNumbers (str : List Char) (hasUserdata : Bool) : Prop :=
  ∀ r : RuleText, r.Splits str hasUserdata → ∀ x ∈ r.numbers hasUserdata, Plain x

/-! ## Documented strings have plain numbers -/

/-- The text before the first delimiter is determined. -/
theorem before_delimiter_unique {d : Char} {x y s t : List Char} (hx : d ∉ x) (hy : d ∉ y)
    (h : x ++ d :: s = y ++ d :: t) : x = y ∧ s = t := by
  induction x generalizing y with
  | nil =>
    cases y with
    | nil => simpa using h
    | cons c cs =>
      obtain ⟨rfl, -⟩ := List.cons.inj h
      simp at hy
  | cons b bs ih =>
    cases y with
    | nil =>
      obtain ⟨rfl, -⟩ := List.cons.inj h
      simp at hx
    | cons c cs =>
      obtain ⟨rfl, htail⟩ := List.cons.inj h
      obtain ⟨rfl, rfl⟩ :=
        ih (List.not_mem_of_not_mem_cons hx) (List.not_mem_of_not_mem_cons hy) htail
      exact ⟨rfl, rfl⟩

theorem NetText.text_inj {m n : NetText} (hm : ∀ x ∈ m.numbers, Undelimited x)
    (hn : ∀ x ∈ n.numbers, Undelimited x) (h : m.text = n.text) : m = n := by
  obtain ⟨a, b, c, d, len⟩ := m
  obtain ⟨a', b', c', d', len'⟩ := n
  simp only [NetText.numbers, List.forall_mem_cons] at hm hn
  obtain ⟨ha, hb, hc, hd, -⟩ := hm
  obtain ⟨ha', hb', hc', hd', -⟩ := hn
  obtain ⟨rfl, h⟩ := before_delimiter_unique ha.1 ha'.1 h
  obtain ⟨rfl, h⟩ := before_delimiter_unique hb.1 hb'.1 h
  obtain ⟨rfl, h⟩ := before_delimiter_unique hc.1 hc'.1 h
  obtain ⟨rfl, rfl⟩ := before_delimiter_unique hd.2 hd'.2 h
  rfl

/-- A string is split into one rule only. -/
theorem RuleText.Splits.unique {r' : RuleText} (h : r.Splits str hasUserdata)
    (h' : r'.Splits str hasUserdata) : r.numbers hasUserdata = r'.numbers hasUserdata := by
  have hlen : (r.fields hasUserdata).length = (r'.fields hasUserdata).length := by
    rw [r.length_fields, r'.length_fields]
  have heq : r.fields hasUserdata = r'.fields hasUserdata :=
    (List.prefix_of_prefix_length_le h.isPrefix h'.isPrefix hlen.le).eq_of_length hlen
  have hun := h.undelimited
  have hun' := h'.undelimited
  simp only [RuleText.numbers, List.forall_mem_append, List.forall_mem_cons] at hun hun'
  obtain ⟨⟨⟨hsrc, hdst⟩, -, -, -, -, hproto, -⟩, -⟩ := hun
  obtain ⟨⟨⟨hsrc', hdst'⟩, -, -, -, -, hproto', -⟩, -⟩ := hun'
  simp only [RuleText.fields, List.cons_append, List.nil_append, List.cons.injEq] at heq
  obtain ⟨hs, hd, hsl, -, hsh, hdl, -, hdh, hp, hu⟩ := heq
  obtain ⟨hpr, hmk⟩ := before_delimiter_unique hproto.2 hproto'.2 hp
  rw [RuleText.numbers, RuleText.numbers, NetText.text_inj hsrc hsrc' hs,
    NetText.text_inj hdst hdst' hd, hsl, hsh, hdl, hdh, hpr, hmk, hu]

/-! ## What the parser accepts -/

/-- **The parser decodes the documented grammar**, whatever follows the fields it reads. -/
theorem parseCbIpv4vlanRule_iff (hplain : PlainNumbers str hasUserdata)
    (v : Acl4Fields × Option UInt32) : parseCbIpv4vlanRule str hasUserdata = some v ↔
      ∃ r : RuleText, r.Splits str hasUserdata ∧ r.Means hasUserdata v := by
  constructor
  · intro h
    obtain ⟨r, hs, hmeans⟩ := parseCbIpv4vlanRule_text h
    exact ⟨r, hs, hmeans (hplain r hs)⟩
  · rintro ⟨r, hs, hmeans⟩
    exact parseCbIpv4vlanRule_means hs hmeans

end Rules

/-! ## The shipped rules -/

/-- The first line of `rules/fw_10k` behind its `@`. -/
def fwLine : List Char :=
  "227.139.101.12/30\t233.245.156.112/28\t53 : 53\t5999 : 5999\t0x11/0xFF\t0x0000/0x0000\t\n".toList

def fwText : RuleText :=
  { src := ⟨"227".toList, "139".toList, "101".toList, "12".toList, "30".toList⟩
    dst := ⟨"233".toList, "245".toList, "156".toList, "112".toList, "28".toList⟩
    srcLow := "53".toList, srcHigh := "53".toList
    dstLow := "5999".toList, dstHigh := "5999".toList
    proto := "0x11".toList, mask := "0xFF".toList, userdata := [] }

def fwRule : Acl4Fields × Option UInt32 :=
  (⟨⟨17, 255⟩, ⟨3817563404, 30⟩, ⟨3925187696, 28⟩, ⟨53, 53⟩, ⟨5999, 5999⟩⟩, none)

theorem parse_fwLine : parseCbIpv4vlanRule fwLine false = some fwRule := by
  decide +kernel

theorem fwText_splits : fwText.Splits fwLine false := by
  constructor
  · decide +kernel
  · decide +kernel

theorem plainNumbers_fwLine : PlainNumbers fwLine false := by
  intro r hs
  rw [hs.unique fwText_splits]
  decide +kernel

/-- A shipped line, whose tenth field is ignored. -/
theorem fwLine_means : ∃ r : RuleText, r.Splits fwLine false ∧ r.Means false fwRule :=
  (parseCbIpv4vlanRule_iff plainNumbers_fwLine fwRule).mp parse_fwLine

/-- The parser does not accept exactly the documented strings: some have fields to spare. -/
theorem fwLine_has_surplus :
    ¬∀ (str : List Char) (hasUserdata : Bool), (∃ v, parseCbIpv4vlanRule str hasUserdata = some v) ↔
      ∃ (r : RuleText) (v : Acl4Fields × Option UInt32),
        Lib.fields isDlm str = r.fields hasUserdata ∧ r.Means hasUserdata v := by
  intro h
  obtain ⟨r, v, hfields, -⟩ := (h fwLine false).mp ⟨fwRule, parse_fwLine⟩
  have hten : (Lib.fields isDlm fwLine).length = CB_FLD_NUM := by decide +kernel
  rw [hfields, r.length_fields] at hten
  exact absurd hten (by decide)

end QueueDpdk.Rules
