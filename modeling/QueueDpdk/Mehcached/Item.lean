import QueueDpdk.Lib.Memory

/-!
# Items (`ported-mica/util.h`, `ported-mica/table.h`)

A key and its value as they lie in the pool, after a header of 24 bytes.  Keys and values are copied
and compared in units of 8 bytes, so what follows a key in the memory of the caller, up to the next
multiple of 8, is part of it.

* `itemKey`, `itemValue` — what an item says; `item_congr` — it says so with its first `itemExtent`
  bytes.
* `setItem_spec`, `setItemValue_spec` — writing an item, and another value for its key.
* `matches_iff` — the comparison of the search.
-/

set_option autoImplicit false

namespace QueueDpdk.Mehcached

open Lib

/-- `MEHCACHED_ROUNDUP8`. -/
def roundup8 (x : ℕ) : ℕ := (x + 7) / 8 * 8

def MAX_KEY_LENGTH : ℕ := 255
def MAX_VALUE_LENGTH : ℕ := 1048575
def KEY_MASK : ℕ := (1 <<< 8) - 1
def VALUE_MASK : ℕ := (1 <<< 24) - 1

/-- `sizeof(struct mehcached_item)`. -/
def ITEM_HEADER : ℕ := 24

/-- `mehcached_memcpy8`, to an offset of `dest`. -/
def memcpy8 (dest : Bytes) (off : ℕ) (src : Bytes) (length : ℕ) : Bytes :=
  copyAt dest off src (roundup8 length)

/-- `mehcached_memcmp8`. -/
def memcmp8 (dest src : Bytes) (length : ℕ) : Bool :=
  (List.range (roundup8 length)).all (fun k => dest k == src k)

def compareKeys (key1 : Bytes) (key1Len : ℕ) (key2 : Bytes) (key2Len : ℕ) : Bool :=
  key1Len == key2Len && memcmp8 key1 key2 key1Len

/-- `MEHCACHED_KV_LENGTH_VEC`. -/
def kvLengthVec (keyLength valueLength : ℕ) : ℕ := (keyLength <<< 24) % 2 ^ 32 ||| valueLength

/-- `item->alloc_item.item_size`. -/
def itemSize (item : Bytes) : ℕ := getLE item 0 8

/-- `MEHCACHED_KEY_LENGTH(item->kv_length_vec)`. -/
def keyLengthOf (item : Bytes) : ℕ := getLE item 8 4 >>> 24

/-- `MEHCACHED_VALUE_LENGTH(item->kv_length_vec)`. -/
def valueLengthOf (item : Bytes) : ℕ := getLE item 8 4 &&& VALUE_MASK

def expireTimeOf (item : Bytes) : ℕ := getLE item 12 4

def keyHashOf (item : Bytes) : ℕ := getLE item 16 8

/-- `item->data`. -/
def dataOf (item : Bytes) : Bytes := fun k => item (ITEM_HEADER + k)

/-- Where the value is in an item. -/
def valueOffset (item : Bytes) : ℕ := ITEM_HEADER + roundup8 (keyLengthOf item)

def setItem (item : Bytes) (keyHash : UInt64) (key : Bytes) (keyLength : ℕ) (value : Bytes)
    (valueLength : ℕ) (expireTime : UInt32) : Option Bytes :=
  if keyLength ≤ KEY_MASK ∧ valueLength ≤ VALUE_MASK then
    let item := setLE item 8 4 (kvLengthVec keyLength valueLength)
    let item := setLE item 16 8 keyHash.toNat
    let item := setLE item 12 4 expireTime.toNat
    let item := memcpy8 item ITEM_HEADER key keyLength
    some (memcpy8 item (ITEM_HEADER + roundup8 keyLength) value valueLength)
  else none

def setItemValue (item value : Bytes) (valueLength : ℕ) (expireTime : UInt32) : Option Bytes :=
  if valueLength ≤ VALUE_MASK then
    let keyLength := keyLengthOf item
    let item := setLE item 8 4 (kvLengthVec keyLength valueLength)
    let item := setLE item 12 4 expireTime.toNat
    some (memcpy8 item (ITEM_HEADER + roundup8 keyLength) value valueLength)
  else none

/-- A key, with all the bytes that are compared. -/
structure Key where
  hash : ℕ
  length : ℕ
  bytes : List UInt8
  deriving DecidableEq

/-- A value, with all the bytes that are copied. -/
structure Value where
  length : ℕ
  expire : ℕ
  bytes : List UInt8
  deriving DecidableEq

/-- The key that a caller asks for: `key` is the memory from its pointer on. -/
structure Request where
  keyHash : UInt64
  key : Bytes
  keyLength : ℕ

def Request.toKey (r : Request) : Key :=
  ⟨r.keyHash.toNat, r.keyLength, readBytes r.key 0 (roundup8 r.keyLength)⟩

/-- The value in the memory of a caller. -/
def callerValue (value : Bytes) (valueLength : ℕ) (expireTime : UInt32) : Value :=
  ⟨valueLength, expireTime.toNat, readBytes value 0 (roundup8 valueLength)⟩

def itemKey (item : Bytes) : Key :=
  ⟨keyHashOf item, keyLengthOf item, readBytes item ITEM_HEADER (roundup8 (keyLengthOf item))⟩

def itemValue (item : Bytes) : Value :=
  ⟨valueLengthOf item, expireTimeOf item,
    readBytes item (valueOffset item) (roundup8 (valueLengthOf item))⟩

/-- The bytes that an item needs. -/
def itemExtent (item : Bytes) : ℕ := valueOffset item + roundup8 (valueLengthOf item)

/-- The comparisons of the search, without the one of the tags. -/
def itemMatches (item : Bytes) (r : Request) : Bool :=
  keyHashOf item == r.keyHash.toNat &&
    compareKeys (dataOf item) (keyLengthOf item) r.key r.keyLength

/-! ## Lengths -/

theorem le_roundup8 (x : ℕ) : x ≤ roundup8 x := by
  unfold roundup8
  omega

theorem roundup8_le {x y : ℕ} (h : x ≤ y) : roundup8 x ≤ roundup8 y := by
  unfold roundup8
  omega

theorem roundup8_of_dvd {x : ℕ} (h : 8 ∣ x) : roundup8 x = x := by
  unfold roundup8
  omega

section Lengths

variable {k v : ℕ}

theorem kvLengthVec_eq (hk : k ≤ KEY_MASK) (hv : v ≤ VALUE_MASK) :
    kvLengthVec k v = k * 2 ^ 24 + v := by
  have hk' : k < 256 := Nat.lt_of_le_of_lt hk (by decide)
  have hv' : v < 2 ^ 24 := Nat.lt_of_le_of_lt hv (by decide)
  have hshift : (k <<< 24) % 2 ^ 32 = k <<< 24 := by
    rw [Nat.shiftLeft_eq]
    omega
  rw [kvLengthVec, hshift, ← Nat.shiftLeft_add_eq_or_of_lt hv', Nat.shiftLeft_eq]

theorem lengths_of_kv {item : Bytes} (h : getLE item 8 4 = kvLengthVec k v) (hk : k ≤ KEY_MASK)
    (hv : v ≤ VALUE_MASK) : keyLengthOf item = k ∧ valueLengthOf item = v := by
  have hv' : v < 2 ^ 24 := Nat.lt_of_le_of_lt hv (by decide)
  rw [kvLengthVec_eq hk hv] at h
  unfold keyLengthOf valueLengthOf VALUE_MASK
  rw [h, Nat.shiftRight_eq_div_pow, Nat.shiftLeft_eq, Nat.one_mul, Nat.and_two_pow_sub_one_eq_mod]
  omega

theorem keyLengthOf_le (item : Bytes) : keyLengthOf item ≤ KEY_MASK := by
  have h := getLE_lt item 4 8
  unfold keyLengthOf KEY_MASK
  rw [Nat.shiftRight_eq_div_pow]
  omega

end Lengths

/-! ## Reading -/

section Reading

variable {item item' : Bytes}

theorem header_le_extent (item : Bytes) : ITEM_HEADER ≤ itemExtent item := by
  unfold itemExtent valueOffset
  omega

/-- An item says what it says with its first bytes. -/
theorem item_congr (h : ∀ k < itemExtent item, item' k = item k) :
    itemKey item' = itemKey item ∧ itemValue item' = itemValue item ∧
      itemSize item' = itemSize item ∧ itemExtent item' = itemExtent item := by
  have hheader := header_le_extent item
  have hfield : ∀ off n, off + n ≤ ITEM_HEADER → getLE item' off n = getLE item off n := by
    intro off n hle
    exact getLE_congr n off (fun k _ hk => h k (by omega))
  have hkey : keyLengthOf item' = keyLengthOf item := by
    unfold keyLengthOf
    rw [hfield 8 4 (by decide)]
  have hvalue : valueLengthOf item' = valueLengthOf item := by
    unfold valueLengthOf
    rw [hfield 8 4 (by decide)]
  have hoff : valueOffset item' = valueOffset item := by
    unfold valueOffset
    rw [hkey]
  have hbytes : ∀ off n, off + n ≤ itemExtent item → readBytes item' off n = readBytes item off n :=
    fun off n hle => readBytes_eq_iff.mpr (fun k hk => h _ (by omega))
  refine ⟨?_, ?_, hfield 0 8 (by decide), by rw [itemExtent, hoff, hvalue, ← itemExtent]⟩
  · rw [itemKey, itemKey, keyHashOf, hfield 16 8 (by decide), hkey, ← keyHashOf,
      hbytes _ _ (by unfold itemExtent valueOffset; omega)]
  · rw [itemValue, itemValue, expireTimeOf, hfield 12 4 (by decide), hvalue, hoff, ← expireTimeOf,
      hbytes _ _ (Nat.le_refl _)]

theorem memcmp8_iff {a b : Bytes} {n : ℕ} :
    memcmp8 a b n = true ↔ ∀ k < roundup8 n, a k = b k := by
  simp [memcmp8]

/-- The search finds an item by its whole key. -/
theorem matches_iff (item : Bytes) (r : Request) :
    itemMatches item r = true ↔ itemKey item = r.toKey := by
  unfold itemMatches compareKeys itemKey Request.toKey
  simp only [Bool.and_eq_true, beq_iff_eq, memcmp8_iff, Key.mk.injEq]
  refine and_congr_right (fun _ => and_congr_right (fun hlen => ?_))
  rw [hlen, readBytes_eq_iff]
  simp only [dataOf, Nat.zero_add]

end Reading

/-! ## Writing -/

section Writing

variable {keyLength valueLength : ℕ}

theorem getLE_expire (b : Bytes) (e : UInt32) : getLE (setLE b 12 4 e.toNat) 12 4 = e.toNat :=
  getLE_setLE 4 b 12 _ (e.toNat_lt)

/-- An item that was written says what it was given, and its size stays. -/
theorem setItem_spec (item key value : Bytes) (keyHash : UInt64) (expireTime : UInt32)
    (hk : keyLength ≤ KEY_MASK) (hv : valueLength ≤ VALUE_MASK) :
    ∃ item', setItem item keyHash key keyLength value valueLength expireTime = some item' ∧
      itemKey item' = (⟨keyHash, key, keyLength⟩ : Request).toKey ∧
      itemValue item' = callerValue value valueLength expireTime ∧
      itemSize item' = itemSize item ∧
      Within (ITEM_HEADER + roundup8 keyLength + roundup8 valueLength) item item' := by
  refine ⟨_, if_pos ⟨hk, hv⟩, ?_⟩
  set b := setLE (setLE (setLE item 8 4 (kvLengthVec keyLength valueLength)) 16 8 keyHash.toNat)
    12 4 expireTime.toNat with hb
  have hfield : ∀ off n, off + n ≤ ITEM_HEADER →
      getLE (memcpy8 (memcpy8 b ITEM_HEADER key keyLength) (ITEM_HEADER + roundup8 keyLength) value
        valueLength) off n = getLE b off n := by
    intro off n hle
    rw [memcpy8, getLE_copyAt_of_disjoint _ _ (Or.inr (by omega)), memcpy8,
      getLE_copyAt_of_disjoint _ _ (Or.inr hle)]
  have hkv : kvLengthVec keyLength valueLength < 256 ^ 4 := by
    have : keyLength ≤ 255 := hk
    have : valueLength ≤ 16777215 := hv
    rw [kvLengthVec_eq hk hv]
    omega
  have hvec : getLE b 8 4 = kvLengthVec keyLength valueLength := by
    rw [hb, getLE_setLE_of_disjoint _ _ (by omega), getLE_setLE_of_disjoint _ _ (by omega),
      getLE_setLE _ _ _ _ hkv]
  have hhash : getLE b 16 8 = keyHash.toNat := by
    rw [hb, getLE_setLE_of_disjoint _ _ (by omega), getLE_setLE _ _ _ _ keyHash.toNat_lt]
  have hsize : getLE b 0 8 = getLE item 0 8 := by
    rw [hb, getLE_setLE_of_disjoint _ _ (by omega), getLE_setLE_of_disjoint _ _ (by omega),
      getLE_setLE_of_disjoint _ _ (by omega)]
  obtain ⟨hlk, hlv⟩ := lengths_of_kv ((hfield 8 4 (by decide)).trans hvec) hk hv
  refine ⟨?_, ?_, (hfield 0 8 (by decide)).trans hsize, ?_⟩
  · rw [itemKey, keyHashOf, hfield 16 8 (by decide), hhash, hlk, memcpy8,
      readBytes_copyAt_of_disjoint _ _ (Or.inr (Nat.le_refl _)), memcpy8, readBytes_copyAt]
    rfl
  · rw [itemValue, valueOffset, expireTimeOf, hfield 12 4 (by decide), hb, getLE_expire, hlk, hlv,
      memcpy8, readBytes_copyAt]
    rfl
  · intro k hle
    rw [memcpy8, copyAt_of_le _ _ hle, memcpy8, copyAt_of_le _ _ (by omega), hb,
      setLE_apply_of_le _ _ _ _ (by unfold ITEM_HEADER at hle; omega),
      setLE_apply_of_le _ _ _ _ (by unfold ITEM_HEADER at hle; omega),
      setLE_apply_of_le _ _ _ _ (by unfold ITEM_HEADER at hle; omega)]

/-- Another value in an item: the key stays. -/
theorem setItemValue_spec (item value : Bytes) (expireTime : UInt32)
    (hv : valueLength ≤ VALUE_MASK) :
    ∃ item', setItemValue item value valueLength expireTime = some item' ∧
      itemKey item' = itemKey item ∧ itemValue item' = callerValue value valueLength expireTime ∧
      itemSize item' = itemSize item ∧
      Within (valueOffset item + roundup8 valueLength) item item' := by
  refine ⟨_, if_pos hv, ?_⟩
  have hk := keyLengthOf_le item
  set b := setLE (setLE item 8 4 (kvLengthVec (keyLengthOf item) valueLength)) 12 4
    expireTime.toNat with hb
  have hfield : ∀ off n, off + n ≤ ITEM_HEADER →
      getLE (memcpy8 b (ITEM_HEADER + roundup8 (keyLengthOf item)) value valueLength) off n =
        getLE b off n := by
    intro off n hle
    rw [memcpy8, getLE_copyAt_of_disjoint _ _ (Or.inr (by omega))]
  have hkv : kvLengthVec (keyLengthOf item) valueLength < 256 ^ 4 := by
    have : keyLengthOf item ≤ 255 := hk
    have : valueLength ≤ 16777215 := hv
    rw [kvLengthVec_eq hk hv]
    omega
  have hvec : getLE b 8 4 = kvLengthVec (keyLengthOf item) valueLength := by
    rw [hb, getLE_setLE_of_disjoint _ _ (by omega), getLE_setLE _ _ _ _ hkv]
  have hother : ∀ off n, (off + n ≤ 8 ∨ 16 ≤ off) → getLE b off n = getLE item off n := by
    intro off n hd
    rw [hb, getLE_setLE_of_disjoint _ _ (by omega), getLE_setLE_of_disjoint _ _ (by omega)]
  obtain ⟨hlk, hlv⟩ := lengths_of_kv ((hfield 8 4 (by decide)).trans hvec) hk hv
  refine ⟨?_, ?_, (hfield 0 8 (by decide)).trans (hother 0 8 (by omega)), ?_⟩
  · rw [itemKey, itemKey, keyHashOf, hfield 16 8 (by decide), hother 16 8 (by omega), hlk, memcpy8,
      readBytes_copyAt_of_disjoint _ _ (Or.inr (Nat.le_refl _)), ← keyHashOf, hb,
      readBytes_setLE_of_disjoint _ _ (by unfold ITEM_HEADER; omega),
      readBytes_setLE_of_disjoint _ _ (by unfold ITEM_HEADER; omega)]
  · rw [itemValue, valueOffset, expireTimeOf, hfield 12 4 (by decide), hb, getLE_expire, hlk, hlv,
      memcpy8, readBytes_copyAt]
    rfl
  · intro k hle
    unfold valueOffset at hle
    rw [memcpy8, copyAt_of_le _ _ hle, hb,
      setLE_apply_of_le _ _ _ _ (by unfold ITEM_HEADER at hle; omega),
      setLE_apply_of_le _ _ _ _ (by unfold ITEM_HEADER at hle; omega)]

end Writing

end QueueDpdk.Mehcached
