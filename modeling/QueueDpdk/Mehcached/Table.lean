import QueueDpdk.Mehcached.Pool

/-!
# The table (`ported-mica/table.c`)

Buckets of 15 slots, each empty or with the tag of a key and the offset of its item in the pool.
The table is lossy: slots are taken from other keys, and items from keys whose slots still point
there.
Configured as in `config.h` (eviction, one pool), for `concurrent_access_mode` 0, where the locks do
nothing.  Tables come from `tableInit` with assertions, as the `Makefile` builds them; without
(`Pool.ndebug`) the ones on the lengths of the arguments are kept, which no caller violates.

* `mehcachedGet`, `mehcachedTest`, `mehcachedSet`, `mehcachedDelete`, `mehcachedIncrement` — the
  operations; `none` if an assertion fails or a loop does not end.
* `tableInit` — a new table.
-/

set_option autoImplicit false

namespace QueueDpdk.Mehcached

open Lib

def ITEMS_PER_BUCKET : ℕ := 15

def TAG_MASK : ℕ := (1 <<< 16) - 1

/-- `MEHCACHED_TAG`. -/
def tagOf (itemVec : ℕ) : ℕ := itemVec >>> 48

/-- `MEHCACHED_ITEM_OFFSET`. -/
def itemOffsetOf (itemVec : ℕ) : ℕ := itemVec &&& ITEM_OFFSET_MASK

/-- `MEHCACHED_ITEM_VEC`. -/
def mkItemVec (tag itemOffset : ℕ) : ℕ := (tag <<< 48) ||| itemOffset

/-- `struct mehcached_table`: `itemVecs b i` is `buckets[b].item_vec[i]`. -/
structure Table where
  alloc : Pool
  mthThreshold : ℕ
  itemVecs : ℕ → ℕ → ℕ
  numBuckets : ℕ
  rshift : ℕ

def Table.setItemVec (t : Table) (b i v : ℕ) : Table :=
  { t with itemVecs := Function.update t.itemVecs b (Function.update (t.itemVecs b) i v) }

/-- The item of a slot. -/
def Table.item (t : Table) (itemVec : ℕ) : Bytes :=
  t.alloc.load (poolItem t.alloc (itemOffsetOf itemVec))

def calcBucketIndex (t : Table) (keyHash : ℕ) : ℕ :=
  ((keyHash >>> 16) % 2 ^ 32) &&& (t.numBuckets - 1)

def calcTag (keyHash : ℕ) : ℕ :=
  let tag := keyHash &&& TAG_MASK
  if tag = 0 then 1 else tag

/-! ## Searches in a bucket -/

/-- How far the log has grown since an item, as far as `mask` tells. -/
def distanceFromTail (t : Table) (itemOffset mask : ℕ) : ℕ :=
  (t.alloc.tail + 2 ^ 64 - itemOffset) % 2 ^ 64 &&& mask

def findItemIndex (t : Table) (b tag : ℕ) (r : Request) : Option ℕ :=
  (List.range ITEMS_PER_BUCKET).find? (fun i =>
    tagOf (t.itemVecs b i) == tag && itemMatches (t.item (t.itemVecs b i)) r)

def findSameTag (t : Table) (b tag : ℕ) : Option ℕ :=
  (List.range ITEMS_PER_BUCKET).find? (fun i => tagOf (t.itemVecs b i) == tag)

/-- The loop of `mehcached_find_empty_or_oldest`, with the oldest slot so far and its distance. -/
def findEmptyOrOldestFrom (t : Table) (b : ℕ) : List ℕ → ℕ → ℕ → ℕ
  | [], oldestItemIndex, _ => oldestItemIndex
  | i :: rest, oldestItemIndex, oldestItemDistance =>
    if t.itemVecs b i = 0 then i
    else
      let distance := distanceFromTail t (itemOffsetOf (t.itemVecs b i)) ITEM_OFFSET_MASK
      if distance < oldestItemDistance then findEmptyOrOldestFrom t b rest i distance
      else findEmptyOrOldestFrom t b rest oldestItemIndex oldestItemDistance

def findEmptyOrOldest (t : Table) (b : ℕ) : ℕ :=
  findEmptyOrOldestFrom t b (List.range ITEMS_PER_BUCKET) 0 (2 ^ 64 - 1)

/-! ## Cleaning up -/

/-- The slots of a bucket after those whose items are gone were emptied. -/
def cleanItems (t : Table) (b : ℕ) : Table :=
  { t with itemVecs := Function.update t.itemVecs b (fun i =>
      if i < ITEMS_PER_BUCKET ∧ poolIsValid t.alloc (itemOffsetOf (t.itemVecs b i)) = false then 0
      else t.itemVecs b i) }

/-- The while loop of `mehcached_cleanup_bucket`, with the number of steps left. -/
def cleanupFrom (bucketIndexEnd : ℕ) : ℕ → Table → ℕ → Option Table
  | 0, t, bucketIndex => if bucketIndex = bucketIndexEnd then some t else none
  | n + 1, t, bucketIndex =>
    if bucketIndex = bucketIndexEnd then some t
    else cleanupFrom bucketIndexEnd n (cleanItems t bucketIndex)
      ((bucketIndex + 1) &&& (t.numBuckets - 1))

def cleanupBucket (t : Table) (oldTail newTail : ℕ) : Option Table :=
  cleanupFrom ((newTail >>> t.rshift) &&& (t.numBuckets - 1)) t.numBuckets t
    ((oldTail >>> t.rshift) &&& (t.numBuckets - 1))

/-! ## The operations -/

/-- The part of `mehcached_get` that moves an item to the end of the log. -/
def moveToHead (t : Table) (b i itemSize : ℕ) : Option Table :=
  let itemVec := t.itemVecs b i
  let itemOffset := itemOffsetOf itemVec
  if t.mthThreshold < distanceFromTail t itemOffset t.alloc.mask then do
    let allocated ← poolAllocate t.alloc itemSize
    let alloc := allocated.1
    let newItemOffset := allocated.2
    let newTail := alloc.tail
    let t :=
      if poolIsValid alloc itemOffset then
        -- the header is copied with the rest, and with it `alloc_item.item_size`
        let alloc := alloc.store (poolItem alloc newItemOffset) (roundup8 itemSize)
          (alloc.load (poolItem alloc itemOffset))
        { t with alloc := alloc }.setItemVec b i (mkItemVec (tagOf itemVec) newItemOffset)
      else { t with alloc := alloc }
    cleanupBucket t newItemOffset newTail
  else some t

/-- `mehcached_get`, with the buffer of the caller and its length.  The length and the expire time
    that it returns if the key is found, and the buffer. -/
def mehcachedGet (t : Table) (r : Request) (outValue : Bytes) (outLength : ℕ) (readonly : Bool) :
    Option (Table × Option (ℕ × ℕ) × Bytes) :=
  if MAX_KEY_LENGTH < r.keyLength then none
  else
    let b := calcBucketIndex t r.keyHash.toNat
    let tag := calcTag r.keyHash.toNat
    match findItemIndex t b tag r with
    | none => some (t, none, outValue)
    | some i =>
      let item := t.item (t.itemVecs b i)
      -- fix-ups for garbage
      let keyLength := min (keyLengthOf item) MAX_KEY_LENGTH
      let fullLength := min (valueLengthOf item) MAX_VALUE_LENGTH
      let itemSize := ITEM_HEADER + roundup8 keyLength + roundup8 fullLength
      let valueLength := min fullLength outLength
      let outValue :=
        memcpy8 outValue 0 (fun k => dataOf item (roundup8 keyLength + k)) valueLength
      if poolIsValid t.alloc (itemOffsetOf (t.itemVecs b i)) = false then
        some (if readonly then t else t.setItemVec b i 0, none, outValue)
      else if t.alloc.ndebug = false ∧ 1500 < valueLength then none
      else do
        let t ← if readonly then some t else moveToHead t b i itemSize
        some (t, some (valueLength, expireTimeOf item), outValue)

def mehcachedTest (t : Table) (r : Request) : Option Bool :=
  if MAX_KEY_LENGTH < r.keyLength then none
  else some (findItemIndex t (calcBucketIndex t r.keyHash.toNat) (calcTag r.keyHash.toNat) r).isSome

/-- A new item for a slot. -/
def setNew (t : Table) (b i : ℕ) (r : Request) (value : Bytes) (valueLength : ℕ)
    (expireTime : UInt32) : Option Table := do
  let newItemSize := ITEM_HEADER + roundup8 r.keyLength + roundup8 valueLength
  let (alloc, newItemOffset) ← poolAllocate t.alloc newItemSize
  let newTail := alloc.tail
  let a := poolItem alloc newItemOffset
  let newItem ← setItem (alloc.load a) r.keyHash r.key r.keyLength value valueLength expireTime
  let alloc := alloc.store a newItemSize newItem
  let t := { t with alloc := alloc }.setItemVec b i
    (mkItemVec (calcTag r.keyHash.toNat) newItemOffset)
  cleanupBucket t newItemOffset newTail

/-- The value of an item replaced in place, if it is still in the pool and has room for it. -/
def setInPlace (t : Table) (b i : ℕ) (r : Request) (value : Bytes) (valueLength : ℕ)
    (expireTime : UInt32) : Option Table :=
  let itemOffset := itemOffsetOf (t.itemVecs b i)
  let a := poolItem t.alloc itemOffset
  let item := t.alloc.load a
  let newItemSize := ITEM_HEADER + roundup8 r.keyLength + roundup8 valueLength
  if poolIsValid t.alloc itemOffset = true ∧ newItemSize ≤ itemSize item then do
    let item' ← setItemValue item value valueLength expireTime
    some { t with alloc := t.alloc.store a (valueOffset item + roundup8 valueLength) item' }
  else setNew t b i r value valueLength expireTime

def mehcachedSet (t : Table) (r : Request) (value : Bytes) (valueLength : ℕ) (expireTime : UInt32)
    (overwrite : Bool) : Option (Table × Bool) :=
  if MAX_KEY_LENGTH < r.keyLength ∨ MAX_VALUE_LENGTH < valueLength then none
  else
    let b := calcBucketIndex t r.keyHash.toNat
    let tag := calcTag r.keyHash.toNat
    match findItemIndex t b tag r with
    | some i =>
      if overwrite = false then some (t, false)
      else (setInPlace t b i r value valueLength expireTime).map (·, true)
    | none =>
      let i := (findSameTag t b tag).getD (findEmptyOrOldest t b)
      (setNew t b i r value valueLength expireTime).map (·, true)

def mehcachedDelete (t : Table) (r : Request) : Option (Table × Bool) :=
  if MAX_KEY_LENGTH < r.keyLength then none
  else
    let b := calcBucketIndex t r.keyHash.toNat
    match findItemIndex t b (calcTag r.keyHash.toNat) r with
    | none => some (t, false)
    | some i => some (t.setItemVec b i 0, true)

/-- `mehcached_increment`, with the new value if there is one. -/
def mehcachedIncrement (t : Table) (r : Request) (increment : UInt64) (expireTime : UInt32) :
    Option (Table × Option ℕ) :=
  if MAX_KEY_LENGTH < r.keyLength then none
  else
    let b := calcBucketIndex t r.keyHash.toNat
    match findItemIndex t b (calcTag r.keyHash.toNat) r with
    | none => some (t, none)
    | some i =>
      let itemOffset := itemOffsetOf (t.itemVecs b i)
      let a := poolItem t.alloc itemOffset
      let item := t.alloc.load a
      if poolIsValid t.alloc itemOffset = false then some (t, none)
      else if valueLengthOf item ≠ 8 then some (t, none)
      else
        let off := ITEM_HEADER + roundup8 r.keyLength
        let newValue := (getLE item off 8 + increment.toNat) % 2 ^ 64
        let item' := setLE (setLE item off 8 newValue) 12 4 expireTime.toNat
        some ({ t with alloc := t.alloc.store a (off + 8) item' }, some newValue)

/-! ## A new table -/

def tableReset (t : Table) : Table :=
  { t with itemVecs := fun _ _ => 0, alloc := poolReset t.alloc }

/-- The loop that computes `rshift`, with the number of steps left. -/
def rshiftFrom (numBuckets s : ℕ) : ℕ → ℕ
  | 0 => s
  | n + 1 =>
    if numBuckets < ((ITEM_OFFSET_MASK + 1) >>> 1) >>> s then rshiftFrom numBuckets (s + 1) n
    else s

/-- `mehcached_table_init`, on the memory that the pool maps.  `mthThreshold` is the size of the
    pool times the threshold of the caller. -/
def tableInit (data : Bytes) (numBuckets poolSize mthThreshold : ℕ) : Option Table :=
  if numBuckets = 0 then none
  else
    let numBuckets := nextPowerOfTwo numBuckets
    if numBuckets ≤ 2 ^ 32 then do
      let numBuckets := numBuckets % 2 ^ 32
      let alloc ← poolInit data poolSize
      some (tableReset ⟨alloc, mthThreshold, fun _ _ => 0, numBuckets, rshiftFrom numBuckets 0 40⟩)
    else none

end QueueDpdk.Mehcached
