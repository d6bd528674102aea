import Mathlib.Algebra.Group.Nat.Defs
import QueueDpdk.Lib.LastMatch
import QueueDpdk.Lib.Machine

/-!
# The two tables of the route lookup (`utils/lpm-dir-24-8.c`)

An array is a function of the index; a write behind its end is `none`. The reads are in bounds by
the types of their indices.

* `lpmUpdateElem`, `lpmLookupElem` — as in the source.
* `Dir` — what the tables stand for: for each 24 bits of the address a route, or the longer rules.
* `updates_refine` — after any updates they do, and every lookup agrees.
-/

set_option autoImplicit false

namespace QueueDpdk.LpmDir

open Lib

/-! ## The tables -/

def BYTE_SIZE : UInt32 := 8
def INVALID : UInt16 := 0xFFFF
def lpm_24_FLAG_MASK : UInt16 := 0x8000
def lpm_24_MAX_ENTRIES : ℕ := 16777216
def lpm_LONG_OFFSET_MAX : ℕ := 256
def lpm_LONG_FACTOR : UInt16 := 256
def lpm_LONG_MAX_ENTRIES : ℕ := 65536
def MAX_NEXT_HOP_VALUE : UInt16 := 0x7FFF

/-- `struct rule`, with what its predicate asks. -/
structure Rule where
  ipv4 : UInt32
  prefixlen : ℕ
  route : UInt16
  prefixlen_le : prefixlen ≤ 32
  route_le : route ≤ MAX_NEXT_HOP_VALUE

/-- `struct lpm`. -/
structure Lpm where
  lpm24 : ℕ → UInt16
  lpmLong : ℕ → UInt16
  lpmLongIndex : UInt16

/-- `ip_masks`. -/
def ipMasks : List UInt32 :=
  [0x00000000, 0x80000000, 0xC0000000, 0xE0000000, 0xF0000000, 0xF8000000, 0xFC000000, 0xFE000000,
   0xFF000000, 0xFF800000, 0xFFC00000, 0xFFE00000, 0xFFF00000, 0xFFF80000, 0xFFFC0000, 0xFFFE0000,
   0xFFFF0000, 0xFFFF8000, 0xFFFFC000, 0xFFFFE000, 0xFFFFF000, 0xFFFFF800, 0xFFFFFC00, 0xFFFFFE00,
   0xFFFFFF00, 0xFFFFFF80, 0xFFFFFFC0, 0xFFFFFFE0, 0xFFFFFFF0, 0xFFFFFFF8, 0xFFFFFFFC, 0xFFFFFFFE,
   0xFFFFFFFF]

def buildMaskFromPrefixlen (prefixlen : ℕ) : UInt32 := ipMasks.getD prefixlen 0

def lpm24ExtractFirstIndex (data : UInt32) : UInt32 := data >>> BYTE_SIZE

def computeRuleSize (prefixlen : ℕ) : UInt32 :=
  if prefixlen < 25 then
    [0x1000000, 0x800000, 0x400000, 0x200000, 0x100000, 0x80000, 0x40000, 0x20000, 0x10000, 0x8000,
     0x4000, 0x2000, 0x1000, 0x800, 0x400, 0x200, 0x100, 0x80, 0x40, 0x20, 0x10, 0x8, 0x4, 0x2,
     0x1].getD prefixlen 0
  else [0x80, 0x40, 0x20, 0x10, 0x8, 0x4, 0x2, 0x1].getD (prefixlen - 25) 0

def lpm24EntryFlag (entry : UInt16) : Bool := entry >>> 15 == 1

def lpm24EntrySetFlag (entry : UInt16) : UInt16 := entry ||| lpm_24_FLAG_MASK

def lpmLongExtractFirstIndex (data : UInt32) (prefixlen : ℕ) (baseIndex : UInt8) : UInt16 :=
  let maskedData := data &&& buildMaskFromPrefixlen prefixlen
  let lastByte := (maskedData &&& 0xFF).toUInt8
  baseIndex.toUInt16 * lpm_LONG_FACTOR + lastByte.toUInt16

/-- The loops that write `value` to the next entries of an array with `size` of them. -/
def fill (size : ℕ) (value : UInt16) : (ℕ → UInt16) → ℕ → ℕ → Option (ℕ → UInt16)
  | t, _, 0 => some t
  | t, i, n + 1 => if i < size then fill size value (Function.update t i value) (i + 1) n else none

/-- `fill_invalid`. -/
def fillInvalid (t : ℕ → UInt16) (size : ℕ) : Option (ℕ → UInt16) := fill size INVALID t 0 size

/-- `lpm_allocate` on the memory it gets. -/
def lpmAllocate (lpm24 lpmLong : ℕ → UInt16) : Option Lpm := do
  let lpm24 ← fillInvalid lpm24 lpm_24_MAX_ENTRIES
  let lpmLong ← fillInvalid lpmLong lpm_LONG_MAX_ENTRIES
  some ⟨lpm24, lpmLong, 0⟩

/-- `lpm_lookup_elem`. -/
def lpmLookupElem (l : Lpm) (addr : UInt32) : UInt16 :=
  let value := l.lpm24 (lpm24ExtractFirstIndex addr).toNat
  if value ≠ INVALID ∧ lpm24EntryFlag value = true then
    let extractedIndex := (value &&& 0xFF).toUInt8
    let valueLong := l.lpmLong (lpmLongExtractFirstIndex addr 32 extractedIndex).toNat
    if valueLong = INVALID then INVALID else valueLong
  else if value = INVALID then INVALID
  else value

/-- The end of `lpm_update_elem` for a long prefix. -/
def storeLong (l : Lpm) (r : Rule) (baseIndex : UInt8) : Option Lpm := do
  let lpmLong ← fill lpm_LONG_MAX_ENTRIES r.route l.lpmLong
    (lpmLongExtractFirstIndex r.ipv4 r.prefixlen baseIndex).toNat
    (computeRuleSize r.prefixlen).toNat
  some { l with lpmLong }

/-- `lpm_update_elem`, with what it returns. -/
def lpmUpdateElem (l : Lpm) (r : Rule) : Option (Lpm × Bool) :=
  if r.prefixlen < 25 then do
    let maskedIp := r.ipv4 &&& buildMaskFromPrefixlen r.prefixlen
    let lpm24 ← fill lpm_24_MAX_ENTRIES r.route l.lpm24 (lpm24ExtractFirstIndex maskedIp).toNat
      (computeRuleSize r.prefixlen).toNat
    some ({ l with lpm24 }, true)
  else
    let index := (lpm24ExtractFirstIndex r.ipv4).toNat
    let value := l.lpm24 index
    let needNewIndex := if value = INVALID then true else !lpm24EntryFlag value
    if needNewIndex = true then
      if lpm_LONG_OFFSET_MAX ≤ l.lpmLongIndex.toNat then some (l, false)
      else
        -- A new block; what `lpm_24` has held for the whole of it is overwritten.
        let baseIndex := l.lpmLongIndex.toUInt8
        let entry := lpm24EntrySetFlag baseIndex.toUInt16
        let l : Lpm := ⟨Function.update l.lpm24 index entry, l.lpmLong, l.lpmLongIndex + 1⟩
        (storeLong l r baseIndex).map (·, true)
    else
      (storeLong l r (value &&& 0x7FFF).toUInt8).map (·, true)

/-- Updates one after the other; `none` after a write behind an array. -/
def updates : Machine (Option Lpm) Rule (Option Bool) where
  step
    | none, _ => (none, none)
    | some l, r => match lpmUpdateElem l r with
      | none => (none, none)
      | some (l', ok) => (some l', some ok)

/-! ## What they stand for -/

/-- The first `prefixlen` bits of the address are those of the rule. -/
def Rule.covers (r : Rule) (addr : UInt32) : Bool :=
  addr.toNat / 2 ^ (32 - r.prefixlen) == r.ipv4.toNat / 2 ^ (32 - r.prefixlen)

/-- The first 24 bits. -/
def slot (addr : UInt32) : ℕ := addr.toNat / 2 ^ 8

/-- A rule of at most 24 bits covers the addresses that begin so. -/
def Rule.coversSlot (r : Rule) (h : ℕ) : Bool :=
  h / 2 ^ (24 - r.prefixlen) == r.ipv4.toNat / 2 ^ (32 - r.prefixlen)

/-- What is known of the addresses with the same 24 bits: one route or none, or the longer rules
    that have come since. -/
inductive Entry where
  | hop (route : Option UInt16)
  | block (since : List Rule)

/-- An entry for all first 24 bits, and the number of blocks that were ever made. -/
structure Dir where
  entry : ℕ → Entry
  used : ℕ

def Dir.empty : Dir := ⟨fun _ => .hop none, 0⟩

/-- A rule, and whether it is taken. -/
def Dir.add (d : Dir) (r : Rule) : Dir × Bool :=
  if r.prefixlen < 25 then
    ({ d with entry := fun h => if r.coversSlot h = true then .hop (some r.route) else d.entry h },
      true)
  else match d.entry (slot r.ipv4) with
    | .block since =>
      ({ d with entry := Function.update d.entry (slot r.ipv4) (.block (since ++ [r])) }, true)
    | .hop _ =>
      if d.used < lpm_LONG_OFFSET_MAX then
        (⟨Function.update d.entry (slot r.ipv4) (.block [r]), d.used + 1⟩, true)
      else (d, false)

section Add

variable {d : Dir} {r : Rule}

theorem Dir.add_short (hp : r.prefixlen < 25) : d.add r =
    (⟨fun h => if r.coversSlot h = true then .hop (some r.route) else d.entry h, d.used⟩,
      true) := by
  rw [Dir.add, if_pos hp]

theorem Dir.add_block (hp : ¬r.prefixlen < 25) {since : List Rule}
    (he : d.entry (slot r.ipv4) = .block since) : d.add r =
      (⟨Function.update d.entry (slot r.ipv4) (.block (since ++ [r])), d.used⟩, true) := by
  rw [Dir.add, if_neg hp, he]

theorem Dir.add_new (hp : ¬r.prefixlen < 25) {route : Option UInt16}
    (he : d.entry (slot r.ipv4) = .hop route) (hused : d.used < lpm_LONG_OFFSET_MAX) :
    d.add r = (⟨Function.update d.entry (slot r.ipv4) (.block [r]), d.used + 1⟩, true) := by
  rw [Dir.add, if_neg hp, he]
  exact if_pos hused

theorem Dir.add_refused (hp : ¬r.prefixlen < 25) {route : Option UInt16}
    (he : d.entry (slot r.ipv4) = .hop route) (hused : ¬d.used < lpm_LONG_OFFSET_MAX) :
    d.add r = (d, false) := by
  rw [Dir.add, if_neg hp, he]
  exact if_neg hused

end Add

def Dir.lookup (d : Dir) (addr : UInt32) : Option UInt16 :=
  match d.entry (slot addr) with
  | .hop route => route
  | .block since => (lastMatch (fun r => r.covers addr) since).map Rule.route

def Dir.adds : Machine Dir Rule (Option Bool) where
  step d r := ((d.add r).1, some (d.add r).2)

/-! ## Bits -/

section Bits

variable {p : ℕ}

/-- A mask clears the low bits. -/
theorem and_high {x k n : ℕ} (hx : x < 2 ^ n) (hk : k ≤ n) :
    x &&& (2 ^ n - 2 ^ k) = x / 2 ^ k * 2 ^ k := by
  have hle : 2 ^ k ≤ 2 ^ n := Nat.pow_le_pow_right (by decide) hk
  have hpos : 0 < 2 ^ k := Nat.two_pow_pos k
  have hsub : 2 ^ n - 2 ^ k = 2 ^ n - ((2 ^ k - 1) + 1) := by omega
  apply Nat.eq_of_testBit_eq
  intro i
  rw [hsub, Nat.testBit_and, Nat.testBit_two_pow_sub_succ (by omega), Nat.testBit_two_pow_sub_one,
    ← Nat.shiftRight_eq_div_pow, ← Nat.shiftLeft_eq, Nat.testBit_shiftLeft, Nat.testBit_shiftRight]
  by_cases hki : k ≤ i
  · have hnot : ¬i < k := by omega
    have hbig : n ≤ i → x.testBit i = false := fun hni =>
      Nat.testBit_lt_two_pow (Nat.lt_of_lt_of_le hx (Nat.pow_le_pow_right (by decide) hni))
    rw [Nat.add_sub_cancel' hki]
    by_cases hin : i < n
    · simp [hki, hnot, hin]
    · simp [hki, hnot, hin, hbig (by omega)]
  · simp [hki, Nat.lt_of_not_le hki]

theorem buildMask_toNat (hp : p ≤ 32) :
    (buildMaskFromPrefixlen p).toNat = 2 ^ 32 - 2 ^ (32 - p) := by
  have hall : ∀ p : Fin 33, (buildMaskFromPrefixlen p).toNat = 2 ^ 32 - 2 ^ (32 - (p : ℕ)) := by
    decide
  exact hall ⟨p, by omega⟩

theorem masked_toNat (data : UInt32) (hp : p ≤ 32) :
    (data &&& buildMaskFromPrefixlen p).toNat =
      data.toNat / 2 ^ (32 - p) * 2 ^ (32 - p) := by
  rw [UInt32.toNat_and, buildMask_toNat hp]
  exact and_high data.toNat_lt (by omega)

theorem firstIndex_toNat (data : UInt32) :
    (lpm24ExtractFirstIndex data).toNat = data.toNat / 2 ^ 8 := by
  rw [lpm24ExtractFirstIndex, UInt32.toNat_shiftRight, Nat.shiftRight_eq_div_pow]
  rfl

theorem slot_lt (addr : UInt32) : slot addr < lpm_24_MAX_ENTRIES := by
  have hlt := addr.toNat_lt
  unfold slot lpm_24_MAX_ENTRIES
  omega

theorem ruleSize_short (hp : p < 25) : (computeRuleSize p).toNat = 2 ^ (24 - p) := by
  have hall : ∀ p : Fin 25, (computeRuleSize p).toNat = 2 ^ (24 - (p : ℕ)) := by decide
  exact hall ⟨p, hp⟩

theorem ruleSize_long (hp : 25 ≤ p) (hle : p ≤ 32) :
    (computeRuleSize p).toNat = 2 ^ (32 - p) := by
  have hall : ∀ k : Fin 8, (computeRuleSize (k + 25)).toNat = 2 ^ (7 - (k : ℕ)) := by decide
  have hk := hall ⟨p - 25, by omega⟩
  rw [show ((⟨p - 25, by omega⟩ : Fin 8) : ℕ) + 25 = p by simp; omega] at hk
  rw [hk, show 7 - ((⟨p - 25, by omega⟩ : Fin 8) : ℕ) = 32 - p by simp; omega]

/-- Where the entries of a short rule begin. -/
theorem firstIndex_masked (data : UInt32) (hp : p < 25) :
    (lpm24ExtractFirstIndex (data &&& buildMaskFromPrefixlen p)).toNat =
      data.toNat / 2 ^ (32 - p) * 2 ^ (24 - p) := by
  rw [firstIndex_toNat, masked_toNat data (by omega), show 32 - p = (24 - p) + 8 by omega,
    Nat.pow_add, ← Nat.mul_assoc, Nat.mul_div_cancel _ (by decide)]

/-- Where the entries of a long rule begin in its block. -/
theorem longIndex_toNat (data : UInt32) (baseIndex : UInt8) (hp : 25 ≤ p) (hle : p ≤ 32) :
    (lpmLongExtractFirstIndex data p baseIndex).toNat =
      baseIndex.toNat * 2 ^ 8 + data.toNat % 2 ^ 8 / 2 ^ (32 - p) * 2 ^ (32 - p) := by
  have hb := baseIndex.toNat_lt
  have hbyte : ((data &&& buildMaskFromPrefixlen p) &&& 0xFF).toUInt8.toNat =
      data.toNat % 2 ^ 8 / 2 ^ (32 - p) * 2 ^ (32 - p) := by
    have hff : (0xFF : UInt32).toNat = 2 ^ 8 - 1 := by decide
    rw [UInt32.toNat_toUInt8, UInt32.toNat_and, hff, Nat.and_two_pow_sub_one_eq_mod,
      Nat.mod_mod, masked_toNat data hle]
    have hsplit : 2 ^ 8 = 2 ^ (32 - p) * 2 ^ (8 - (32 - p)) := by
      rw [← Nat.pow_add]
      congr 1
      omega
    rw [hsplit, Nat.mod_mul_right_div_self, Nat.mul_comm (2 ^ (32 - p)), Nat.mul_mod_mul_right]
  have hlt : data.toNat % 2 ^ 8 / 2 ^ (32 - p) * 2 ^ (32 - p) < 2 ^ 8 :=
    Nat.lt_of_le_of_lt (Nat.div_mul_le_self _ _) (Nat.mod_lt _ (by decide))
  have hf : lpm_LONG_FACTOR.toNat = 2 ^ 8 := by decide
  rw [lpmLongExtractFirstIndex, UInt16.toNat_add, UInt16.toNat_mul, UInt8.toNat_toUInt16,
    UInt8.toNat_toUInt16, hbyte, hf]
  omega

theorem flag_iff (v : UInt16) : lpm24EntryFlag v = true ↔ 2 ^ 15 ≤ v.toNat := by
  have hlt := v.toNat_lt
  have hshift : (v >>> 15).toNat = v.toNat / 2 ^ 15 := by
    rw [UInt16.toNat_shiftRight, Nat.shiftRight_eq_div_pow]
    rfl
  rw [lpm24EntryFlag, beq_iff_eq, ← UInt16.toNat_inj, hshift]
  have hone : (1 : UInt16).toNat = 1 := rfl
  rw [hone]
  omega

/-- The entry of a block, with what is read back of it. -/
theorem setFlag_spec (b : UInt8) :
    (lpm24EntrySetFlag b.toUInt16).toNat = 2 ^ 15 + b.toNat ∧
      (lpm24EntrySetFlag b.toUInt16 &&& 0xFF).toUInt8 = b ∧
      (lpm24EntrySetFlag b.toUInt16 &&& 0x7FFF).toUInt8 = b := by
  have hall : ∀ b : Fin 256, (lpm24EntrySetFlag (UInt8.ofFin b).toUInt16).toNat = 2 ^ 15 + b ∧
      (lpm24EntrySetFlag (UInt8.ofFin b).toUInt16 &&& 0xFF).toUInt8 = UInt8.ofFin b ∧
      (lpm24EntrySetFlag (UInt8.ofFin b).toUInt16 &&& 0x7FFF).toUInt8 = UInt8.ofFin b := by
    decide +kernel
  exact hall b.toFin

end Bits

/-! ## Stores -/

/-- The loops write the entries from `i` on, and no others. -/
theorem fill_spec (size : ℕ) (value : UInt16) (n : ℕ) {t : ℕ → UInt16} {i : ℕ} (h : i + n ≤ size) :
    fill size value t i n = some fun j => if i ≤ j ∧ j < i + n then value else t j := by
  induction n generalizing t i with
  | zero =>
    have hnone : ∀ j, ¬(i ≤ j ∧ j < i + 0) := by omega
    simp only [fill, hnone, if_false]
  | succ n ih =>
    rw [fill, if_pos (by omega), ih (by omega)]
    congr 1
    funext j
    by_cases hj : j = i
    · subst hj
      simp
    · rw [Function.update_of_ne hj]
      congr 1
      apply propext
      omega

/-- The memory of `lpm_allocate` does not matter. -/
theorem lpmAllocate_spec (lpm24 lpmLong : ℕ → UInt16) : ∃ l, lpmAllocate lpm24 lpmLong = some l ∧
    (∀ h < lpm_24_MAX_ENTRIES, l.lpm24 h = INVALID) ∧
    (∀ i < lpm_LONG_MAX_ENTRIES, l.lpmLong i = INVALID) ∧ l.lpmLongIndex = 0 := by
  have h24 := fill_spec _ INVALID lpm_24_MAX_ENTRIES (t := lpm24) (i := 0)
    (Nat.le_of_eq (Nat.zero_add _))
  have hlong := fill_spec _ INVALID lpm_LONG_MAX_ENTRIES (t := lpmLong) (i := 0)
    (Nat.le_of_eq (Nat.zero_add _))
  refine ⟨_, by rw [lpmAllocate, fillInvalid, fillInvalid, h24, hlong]; rfl, fun h hh => ?_,
    fun i hi => ?_, rfl⟩
  · simp [hh]
  · simp [hi]

/-- A short rule is written to the entries that it covers. -/
theorem update_short {l : Lpm} {r : Rule} (hp : r.prefixlen < 25) :
    lpmUpdateElem l r = some (⟨fun h => if r.coversSlot h = true then r.route else l.lpm24 h,
      l.lpmLong, l.lpmLongIndex⟩, true) := by
  have hq : r.ipv4.toNat / 2 ^ (32 - r.prefixlen) < 2 ^ r.prefixlen := by
    rw [Nat.div_lt_iff_lt_mul (Nat.two_pow_pos _), ← Nat.pow_add,
      show r.prefixlen + (32 - r.prefixlen) = 32 by omega]
    exact r.ipv4.toNat_lt
  generalize hqd : r.ipv4.toNat / 2 ^ (32 - r.prefixlen) = q at hq
  have hend : q * 2 ^ (24 - r.prefixlen) + 2 ^ (24 - r.prefixlen) ≤ lpm_24_MAX_ENTRIES := by
    calc q * 2 ^ (24 - r.prefixlen) + 2 ^ (24 - r.prefixlen)
        = (q + 1) * 2 ^ (24 - r.prefixlen) := (Nat.succ_mul _ _).symm
      _ ≤ 2 ^ r.prefixlen * 2 ^ (24 - r.prefixlen) := Nat.mul_le_mul_right _ hq
      _ = 2 ^ 24 := by rw [← Nat.pow_add]; congr 1; omega
  rw [lpmUpdateElem, if_pos hp]
  dsimp only
  rw [firstIndex_masked _ hp, ruleSize_short hp, hqd, fill_spec _ r.route _ hend]
  simp only [Option.bind_eq_bind, Option.bind_some]
  congr 4
  funext h
  have hiff : (q * 2 ^ (24 - r.prefixlen) ≤ h ∧
      h < q * 2 ^ (24 - r.prefixlen) + 2 ^ (24 - r.prefixlen)) ↔ r.coversSlot h = true := by
    rw [Rule.coversSlot, beq_iff_eq, hqd, Nat.div_eq_iff (Nat.two_pow_pos _)]
    have := Nat.two_pow_pos (24 - r.prefixlen)
    omega
  simp only [hiff]

/-! ## Coverage -/

section Coverage

variable {r : Rule} {addr : UInt32}

theorem covers_short (hp : r.prefixlen < 25) : r.covers addr = r.coversSlot (slot addr) := by
  rw [Rule.covers, Rule.coversSlot, slot, Nat.div_div_eq_div_mul, ← Nat.pow_add,
    show 8 + (24 - r.prefixlen) = 32 - r.prefixlen by omega]

/-- The part of an address that is read in a block. -/
theorem div_split (x : ℕ) {k : ℕ} (hk : k ≤ 8) :
    x / 2 ^ k = x / 2 ^ 8 * 2 ^ (8 - k) + x % 2 ^ 8 / 2 ^ k := by
  have hpow : 2 ^ 8 = 2 ^ k * 2 ^ (8 - k) := by
    rw [← Nat.pow_add]
    congr 1
    omega
  calc x / 2 ^ k = (2 ^ k * (x / 2 ^ 8 * 2 ^ (8 - k)) + x % 2 ^ 8) / 2 ^ k := by
        congr 1
        rw [Nat.mul_left_comm, ← hpow, Nat.mul_comm (x / 2 ^ 8), Nat.div_add_mod]
    _ = _ := Nat.mul_add_div (Nat.two_pow_pos k) _ _

/-- A long rule covers addresses of its own block only. -/
theorem slot_of_covers (hp : 25 ≤ r.prefixlen) (h : r.covers addr = true) :
    slot addr = slot r.ipv4 := by
  have hdiv : ∀ x : ℕ, x / 2 ^ 8 = x / 2 ^ (32 - r.prefixlen) / 2 ^ (8 - (32 - r.prefixlen)) := by
    intro x
    rw [Nat.div_div_eq_div_mul, ← Nat.pow_add]
    congr 2
    omega
  rw [Rule.covers, beq_iff_eq] at h
  rw [slot, slot, hdiv, h, ← hdiv]

theorem covers_long (hp : 25 ≤ r.prefixlen) (h : slot addr = slot r.ipv4) :
    r.covers addr = true ↔ addr.toNat % 2 ^ 8 / 2 ^ (32 - r.prefixlen) =
      r.ipv4.toNat % 2 ^ 8 / 2 ^ (32 - r.prefixlen) := by
  have hk : 32 - r.prefixlen ≤ 8 := by omega
  rw [slot, slot] at h
  rw [Rule.covers, beq_iff_eq, div_split addr.toNat hk, div_split r.ipv4.toNat hk, h]
  omega

end Coverage

/-- A long rule is written to the entries of its block that it covers. -/
theorem storeLong_spec {l : Lpm} {r : Rule} (hp : 25 ≤ r.prefixlen) (b : UInt8) :
    ∃ lpmLong, storeLong l r b = some { l with lpmLong } ∧
      (∀ addr, slot addr = slot r.ipv4 → lpmLong (b.toNat * 2 ^ 8 + addr.toNat % 2 ^ 8) =
        if r.covers addr = true then r.route
        else l.lpmLong (b.toNat * 2 ^ 8 + addr.toNat % 2 ^ 8)) ∧
      ∀ i, i / 2 ^ 8 ≠ b.toNat → lpmLong i = l.lpmLong i := by
  have hb := b.toNat_lt
  have hk : 0 < 2 ^ (32 - r.prefixlen) := Nat.two_pow_pos _
  have hin : ∀ x : ℕ, x % 2 ^ 8 / 2 ^ (32 - r.prefixlen) * 2 ^ (32 - r.prefixlen) +
      2 ^ (32 - r.prefixlen) ≤ 2 ^ 8 := by
    intro x
    have hpow : 2 ^ 8 = 2 ^ (8 - (32 - r.prefixlen)) * 2 ^ (32 - r.prefixlen) := by
      rw [← Nat.pow_add]
      congr 1
      omega
    have hq : x % 2 ^ 8 / 2 ^ (32 - r.prefixlen) < 2 ^ (8 - (32 - r.prefixlen)) := by
      rw [Nat.div_lt_iff_lt_mul hk, ← hpow]
      exact Nat.mod_lt _ (by decide)
    calc x % 2 ^ 8 / 2 ^ (32 - r.prefixlen) * 2 ^ (32 - r.prefixlen) + 2 ^ (32 - r.prefixlen)
        = (x % 2 ^ 8 / 2 ^ (32 - r.prefixlen) + 1) * 2 ^ (32 - r.prefixlen) :=
          (Nat.succ_mul _ _).symm
      _ ≤ 2 ^ (8 - (32 - r.prefixlen)) * 2 ^ (32 - r.prefixlen) := Nat.mul_le_mul_right _ hq
      _ = 2 ^ 8 := hpow.symm
  have hip := hin r.ipv4.toNat
  have hfill := fill_spec lpm_LONG_MAX_ENTRIES r.route (2 ^ (32 - r.prefixlen)) (t := l.lpmLong)
    (i := b.toNat * 2 ^ 8 + r.ipv4.toNat % 2 ^ 8 / 2 ^ (32 - r.prefixlen) * 2 ^ (32 - r.prefixlen))
    (by unfold lpm_LONG_MAX_ENTRIES; omega)
  refine ⟨_, by rw [storeLong, longIndex_toNat _ _ hp r.prefixlen_le,
    ruleSize_long hp r.prefixlen_le, hfill]; rfl, fun addr haddr => ?_, fun i hi => ?_⟩
  · have hiff := covers_long hp haddr
    rw [Nat.div_eq_iff hk] at hiff
    congr 1
    rw [hiff]
    apply propext
    omega
  · rw [if_neg]
    have hmod := Nat.div_add_mod i (2 ^ 8)
    intro hrange
    apply hi
    omega

/-! ## The tables represent the entries -/

structure Represents (l : Lpm) (d : Dir) : Prop where
  index : l.lpmLongIndex.toNat = d.used
  used_le : d.used ≤ lpm_LONG_OFFSET_MAX
  hop : ∀ h < lpm_24_MAX_ENTRIES, ∀ route, d.entry h = .hop route →
    l.lpm24 h = route.getD INVALID ∧ ∀ v ∈ route, v ≤ MAX_NEXT_HOP_VALUE
  block : ∀ h < lpm_24_MAX_ENTRIES, ∀ since, d.entry h = .block since → ∃ b : UInt8,
    b.toNat < d.used ∧ l.lpm24 h = lpm24EntrySetFlag b.toUInt16 ∧
      ∀ addr, slot addr = h → l.lpmLong (b.toNat * 2 ^ 8 + addr.toNat % 2 ^ 8) =
        ((lastMatch (fun r => r.covers addr) since).map Rule.route).getD INVALID
  free : ∀ i < lpm_LONG_MAX_ENTRIES, d.used ≤ i / 2 ^ 8 → l.lpmLong i = INVALID
  apart : ∀ h < lpm_24_MAX_ENTRIES, ∀ h' < lpm_24_MAX_ENTRIES, ∀ since since',
    d.entry h = .block since → d.entry h' = .block since' → l.lpm24 h = l.lpm24 h' → h = h'

section Represents

variable {l : Lpm} {d : Dir} {r : Rule}

theorem setFlag_inj {b b' : UInt8}
    (h : lpm24EntrySetFlag b.toUInt16 = lpm24EntrySetFlag b'.toUInt16) : b = b' := by
  rw [← (setFlag_spec b).2.1, h, (setFlag_spec b').2.1]

theorem setFlag_flag (b : UInt8) : lpm24EntrySetFlag b.toUInt16 ≠ INVALID ∧
    lpm24EntryFlag (lpm24EntrySetFlag b.toUInt16) = true := by
  have hb := b.toNat_lt
  have hval := (setFlag_spec b).1
  constructor
  · intro h
    have hinv : INVALID.toNat = 65535 := rfl
    rw [h, hinv] at hval
    omega
  · rw [flag_iff]
    omega

/-- A route is neither. -/
theorem route_flag {v : UInt16} (h : v ≤ MAX_NEXT_HOP_VALUE) :
    v ≠ INVALID ∧ lpm24EntryFlag v = false := by
  have hle : v.toNat ≤ 32767 := UInt16.le_iff_toNat_le.mp h
  constructor
  · rintro rfl
    exact absurd hle (by decide)
  · rw [Bool.eq_false_iff, Ne, flag_iff]
    omega

theorem represents_empty {l : Lpm} (h24 : ∀ h < lpm_24_MAX_ENTRIES, l.lpm24 h = INVALID)
    (hlong : ∀ i < lpm_LONG_MAX_ENTRIES, l.lpmLong i = INVALID) (hindex : l.lpmLongIndex = 0) :
    Represents l Dir.empty where
  index := by rw [hindex]; rfl
  used_le := Nat.zero_le _
  hop h hh route hroute := by
    cases hroute
    exact ⟨h24 h hh, by simp⟩
  block h hh since hsince := by cases hsince
  free i hi _ := hlong i hi
  apart h hh h' hh' since since' hsince := by cases hsince

/-- A lookup in the tables is one in the entries. -/
theorem Represents.lookup (h : Represents l d) (addr : UInt32) :
    lpmLookupElem l addr = (d.lookup addr).getD INVALID := by
  have hfirst : (lpm24ExtractFirstIndex addr).toNat = slot addr := firstIndex_toNat addr
  cases he : d.entry (slot addr) with
  | hop route =>
    obtain ⟨hval, hle⟩ := h.hop _ (slot_lt addr) _ he
    cases route with
    | none => simp [lpmLookupElem, Dir.lookup, hfirst, he, hval]
    | some v =>
      obtain ⟨hne, hflag⟩ := route_flag (hle v rfl)
      simp only [Option.getD_some] at hval
      simp [lpmLookupElem, Dir.lookup, hfirst, he, hval, hne, hflag]
  | block since =>
    obtain ⟨b, -, hval, hblock⟩ := h.block _ (slot_lt addr) _ he
    have hindex := longIndex_toNat addr b (p := 32) (by decide) (by decide)
    rw [Nat.sub_self, Nat.pow_zero, Nat.div_one, Nat.mul_one] at hindex
    simp only [lpmLookupElem, Dir.lookup, hfirst, he, hval, setFlag_flag b, (setFlag_spec b).2.1,
      hindex, hblock addr rfl, ne_eq, not_false_eq_true, and_self, if_true]
    split
    · rename_i hinv
      exact hinv.symm
    · rfl

/-- A route for all addresses with some first bits. -/
theorem Represents.short (h : Represents l d) (hp : r.prefixlen < 25) :
    Represents ⟨fun s => if r.coversSlot s = true then r.route else l.lpm24 s, l.lpmLong,
      l.lpmLongIndex⟩ (d.add r).1 := by
  rw [Dir.add_short hp]
  refine ⟨h.index, h.used_le, fun s hs route he => ?_, fun s hs since he => ?_, h.free,
    fun s hs s' hs' since since' he he' => ?_⟩
  all_goals dsimp only at he ⊢
  · split at he
    · rename_i hc
      cases he
      rw [if_pos hc]
      exact ⟨rfl, fun v hv => by cases hv; exact r.route_le⟩
    · rename_i hc
      rw [if_neg hc]
      exact h.hop s hs route he
  · split at he
    · cases he
    · rename_i hc
      rw [if_neg hc]
      exact h.block s hs since he
  · dsimp only at he'
    split at he
    · cases he
    · split at he'
      · cases he'
      · rename_i hc hc'
        rw [if_neg hc, if_neg hc']
        exact h.apart s hs s' hs' since since' he he'

/-- A block that has no rules yet. -/
theorem Represents.newBlock (h : Represents l d) (hused : d.used < lpm_LONG_OFFSET_MAX) {s : ℕ}
    {b : UInt8} (hb : b.toNat = d.used) :
    Represents ⟨Function.update l.lpm24 s (lpm24EntrySetFlag b.toUInt16), l.lpmLong,
      l.lpmLongIndex + 1⟩ ⟨Function.update d.entry s (.block []), d.used + 1⟩ where
  index := by
    have hindex := h.index
    have hone : (1 : UInt16).toNat = 1 := rfl
    unfold lpm_LONG_OFFSET_MAX at hused
    rw [UInt16.toNat_add, hone]
    dsimp only
    omega
  used_le := hused
  hop t ht route he := by
    by_cases hts : t = s
    · subst hts
      simp at he
    · simp only [Function.update_of_ne hts] at he ⊢
      exact h.hop t ht route he
  block t ht since he := by
    by_cases hts : t = s
    · subst hts
      obtain rfl : [] = since := by simpa using he
      have hlt := b.toNat_lt
      refine ⟨b, by dsimp only; omega, Function.update_self .., fun addr _ => ?_⟩
      apply h.free
      · unfold lpm_LONG_MAX_ENTRIES
        omega
      · omega
    · simp only [Function.update_of_ne hts] at he ⊢
      obtain ⟨b', hb', hval, hblock⟩ := h.block t ht since he
      exact ⟨b', by omega, hval, hblock⟩
  free i hi hle := h.free i hi (by dsimp only at hle; omega)
  apart t ht t' ht' since since' he he' hval := by
    -- A block in use has a number below that of the new one.
    have hother : ∀ t < lpm_24_MAX_ENTRIES, t ≠ s → ∀ since, d.entry t = .block since →
        l.lpm24 t ≠ lpm24EntrySetFlag b.toUInt16 := by
      intro t ht _ since he hval
      obtain ⟨b', hb', hval', -⟩ := h.block t ht since he
      rw [hval'] at hval
      rw [setFlag_inj hval, hb] at hb'
      omega
    by_cases hts : t = s <;> by_cases hts' : t' = s
    · rw [hts, hts']
    · subst hts
      simp only [Function.update_self, Function.update_of_ne hts'] at hval he'
      exact absurd hval.symm (hother t' ht' hts' since' he')
    · subst hts'
      simp only [Function.update_self, Function.update_of_ne hts] at hval he
      exact absurd hval (hother t ht hts since he)
    · simp only [Function.update_of_ne hts, Function.update_of_ne hts'] at hval he he'
      exact h.apart t ht t' ht' since since' he he' hval

/-- A long rule more in a block. -/
theorem Represents.store (h : Represents l d) (hp : 25 ≤ r.prefixlen) (since : List Rule)
    {b : UInt8} (he : d.entry (slot r.ipv4) = .block since)
    (hb : l.lpm24 (slot r.ipv4) = lpm24EntrySetFlag b.toUInt16) :
    ∃ l', storeLong l r b = some l' ∧ Represents l'
      { d with entry := Function.update d.entry (slot r.ipv4) (.block (since ++ [r])) } := by
  obtain ⟨lpmLong, hstore, hin, hout⟩ := storeLong_spec (l := l) hp b
  have hslot := slot_lt r.ipv4
  have hbused : b.toNat < d.used := by
    obtain ⟨b', hb', hval, -⟩ := h.block _ hslot since he
    rwa [setFlag_inj (hb.symm.trans hval)]
  refine ⟨_, hstore, ⟨h.index, h.used_le, fun t ht route ht' => ?_, fun t ht since' ht' => ?_,
    fun i hi hle => ?_, fun t ht t' ht' since1 since2 he1 he2 => ?_⟩⟩
  · by_cases hts : t = slot r.ipv4
    · subst hts
      simp at ht'
    · simp only [Function.update_of_ne hts] at ht'
      exact h.hop t ht route ht'
  · by_cases hts : t = slot r.ipv4
    · subst hts
      obtain rfl : since ++ [r] = since' := by simpa using ht'
      obtain ⟨b', hb', hval, hblock⟩ := h.block _ hslot since he
      obtain rfl := setFlag_inj (hb.symm.trans hval)
      refine ⟨b, hb', hval, fun addr haddr => ?_⟩
      dsimp only
      rw [hin addr haddr, lastMatch_snoc, hblock addr haddr]
      split <;> rfl
    · simp only [Function.update_of_ne hts] at ht'
      obtain ⟨b', hb', hval, hblock⟩ := h.block t ht since' ht'
      refine ⟨b', hb', hval, fun addr haddr => ?_⟩
      dsimp only
      rw [hout, hblock addr haddr]
      -- Another block.
      intro hdiv
      have hbb : b' = b := by
        apply UInt8.toNat_inj.mp
        omega
      subst hbb
      exact hts (h.apart t ht _ hslot since' since ht' he (hval.trans hb.symm))
  · dsimp only at hle ⊢
    rw [hout i (by omega)]
    exact h.free i hi hle
  · have hentry : ∀ t since', Function.update d.entry (slot r.ipv4) (.block (since ++ [r])) t =
        .block since' → ∃ s0, d.entry t = .block s0 := by
      intro t since' ht
      by_cases hts : t = slot r.ipv4
      · exact ⟨since, by rw [hts, he]⟩
      · rw [Function.update_of_ne hts] at ht
        exact ⟨since', ht⟩
    obtain ⟨s1, hs1⟩ := hentry t since1 he1
    obtain ⟨s2, hs2⟩ := hentry t' since2 he2
    exact h.apart t ht t' ht' s1 s2 hs1 hs2

/-- **One update** takes the rule if the entries do. -/
theorem Represents.update (h : Represents l d) (r : Rule) :
    ∃ l', lpmUpdateElem l r = some (l', (d.add r).2) ∧ Represents l' (d.add r).1 := by
  by_cases hp : r.prefixlen < 25
  · refine ⟨_, ?_, h.short hp⟩
    rw [update_short hp, Dir.add_short hp]
  · have hlong : 25 ≤ r.prefixlen := Nat.not_lt.mp hp
    have hfirst : (lpm24ExtractFirstIndex r.ipv4).toNat = slot r.ipv4 := firstIndex_toNat r.ipv4
    have hslot := slot_lt r.ipv4
    cases he : d.entry (slot r.ipv4) with
    | block since =>
      obtain ⟨b, -, hval, -⟩ := h.block _ hslot _ he
      obtain ⟨l', hstore, hrep⟩ := h.store hlong since he hval
      rw [Dir.add_block hp he]
      refine ⟨l', ?_, hrep⟩
      simp only [lpmUpdateElem, if_neg hp, hfirst, hval, setFlag_flag b, (setFlag_spec b).2.2,
        if_false, Bool.not_true, Bool.false_eq_true, hstore, Option.map_some]
    | hop route =>
      have hneed : (if l.lpm24 (slot r.ipv4) = INVALID then true
          else !lpm24EntryFlag (l.lpm24 (slot r.ipv4))) = true := by
        obtain ⟨hval, hle⟩ := h.hop _ hslot _ he
        cases route with
        | none => simp [hval]
        | some v =>
          simp only [Option.getD_some] at hval
          simp [hval, (route_flag (hle v rfl)).2]
      have hindex : lpm_LONG_OFFSET_MAX ≤ l.lpmLongIndex.toNat ↔ ¬d.used < lpm_LONG_OFFSET_MAX := by
        rw [h.index, Nat.not_lt]
      by_cases hused : d.used < lpm_LONG_OFFSET_MAX
      · have hb : l.lpmLongIndex.toUInt8.toNat = d.used := by
          rw [UInt16.toNat_toUInt8, h.index]
          exact Nat.mod_eq_of_lt hused
        obtain ⟨l', hstore, hrep⟩ := (h.newBlock hused hb (s := slot r.ipv4)).store hlong []
          (b := l.lpmLongIndex.toUInt8) (Function.update_self ..) (Function.update_self ..)
        rw [Dir.add_new hp he hused]
        refine ⟨l', ?_, ?_⟩
        · simp only [lpmUpdateElem, if_neg hp, hfirst, hneed, if_true, hindex, hused, not_true,
            if_false, hstore, Option.map_some]
        · simpa only [Function.update_idem, List.nil_append] using hrep
      · rw [Dir.add_refused hp he hused]
        refine ⟨l, ?_, h⟩
        simp only [lpmUpdateElem, if_neg hp, hfirst, hneed, if_true, hindex, hused,
          not_false_eq_true]

end Represents

/-- The entries after some updates. -/
def dirAfter (rules : List Rule) : Dir := Dir.adds.final Dir.empty rules

theorem represents_run (lpm24 lpmLong : ℕ → UInt16) (rules : List Rule) :
    updates.events (lpmAllocate lpm24 lpmLong) rules = Dir.adds.events Dir.empty rules ∧
      ∃ l, updates.final (lpmAllocate lpm24 lpmLong) rules = some l ∧
        Represents l (dirAfter rules) := by
  obtain ⟨l0, hl0, h24, hlong, hindex⟩ := lpmAllocate_spec lpm24 lpmLong
  have hstep : ∀ (s : Option Lpm) (d : Dir) (r : Rule), (∃ l, s = some l ∧ Represents l d) → True →
      (updates.step s r).2 = (Dir.adds.step d r).2 ∧
        ∃ l, (updates.step s r).1 = some l ∧ Represents l (Dir.adds.step d r).1 := by
    rintro _ d r ⟨l, rfl, hrep⟩ -
    obtain ⟨l', hupdate, hrep'⟩ := hrep.update r
    refine ⟨?_, l', ?_, hrep'⟩ <;> simp [updates, Dir.adds, hupdate]
  exact updates.run_sim hstep ⟨l0, hl0, represents_empty h24 hlong hindex⟩ rules
    (updates.along_of_forall (fun _ _ _ => trivial) _)

/-- **Any updates** of new tables write within the arrays, take the rules that the entries take, and
    then every lookup is one in the entries. -/
theorem updates_refine (lpm24 lpmLong : ℕ → UInt16) (rules : List Rule) :
    updates.events (lpmAllocate lpm24 lpmLong) rules = Dir.adds.events Dir.empty rules ∧
      ∃ l, updates.final (lpmAllocate lpm24 lpmLong) rules = some l ∧
        ∀ addr, lpmLookupElem l addr = ((dirAfter rules).lookup addr).getD INVALID := by
  obtain ⟨hevents, l, hl, hrep⟩ := represents_run lpm24 lpmLong rules
  exact ⟨hevents, l, hl, fun addr => hrep.lookup addr⟩

end QueueDpdk.LpmDir
