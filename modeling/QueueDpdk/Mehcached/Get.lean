import Mathlib.Data.Nat.ModEq
import QueueDpdk.Mehcached.Operations

/-!
# GET (`mehcached_get`)

A GET may write: it empties a slot whose item was overwritten, and it moves an item that is far from
the end of the log there, with the header.

* `moveToHead_spec` — a move keeps the invariant if items have no more room than they need.
* `get_spec` — **GET**: a value that is found is the one stored last.
-/

set_option autoImplicit false

namespace QueueDpdk.Mehcached

open Lib

section Get

variable {fixed : Option ℕ} {t : Table} {log : List ℕ} {pos : ℕ → ℕ → ℕ} {M : Key → Option Value}
  {b i : ℕ} {r : Request}

/-- The size that a GET computes for a live item. -/
theorem itemSize_computed {tag : ℕ} {item : Bytes} (h : Live fixed t b tag item) :
    ITEM_HEADER + roundup8 (min (keyLengthOf item) MAX_KEY_LENGTH) +
      roundup8 (min (valueLengthOf item) MAX_VALUE_LENGTH) = itemExtent item := by
  rw [Nat.min_eq_left (show keyLengthOf item ≤ MAX_KEY_LENGTH from keyLengthOf_le item),
    Nat.min_eq_left h.value]
  rfl

theorem extent_bounds {tag : ℕ} {item : Bytes} (h : Live fixed t b tag item) :
    ITEM_HEADER ≤ itemExtent item ∧ 8 ∣ itemExtent item ∧ itemExtent item ≤ MAX_ITEM :=
  itemLength_bounds (show keyLengthOf item ≤ MAX_KEY_LENGTH from keyLengthOf_le item) h.value

/-- A move after its allocation, which the item may or may not have survived. -/
theorem moveToHead_eq {n off : ℕ} {alloc alloc' : Pool}
    (hfar : t.mthThreshold < distanceFromTail t (itemOffsetOf (t.itemVecs b i)) t.alloc.mask)
    (hrun : poolAllocate t.alloc n = some (alloc, off))
    (hstore : alloc.store (poolItem alloc off) (roundup8 n)
      (alloc.load (poolItem alloc (itemOffsetOf (t.itemVecs b i)))) = alloc') :
    moveToHead t b i n = cleanupBucket
      (if poolIsValid alloc (itemOffsetOf (t.itemVecs b i)) then
        { t with alloc := alloc' }.setItemVec b i (mkItemVec (tagOf (t.itemVecs b i)) off)
      else { t with alloc := alloc }) off alloc.tail := by
  subst hstore
  rw [moveToHead, if_pos hfar, hrun, Option.bind_eq_bind, Option.bind_some]

/-- The item is copied, and the slot pointed to the copy. -/
theorem move_copied {l n : ℕ} {alloc : Pool} (h : TableOk (some l) t log pos M) (hbusy : Busy t b i)
    (ha : Allocated (some l) t log pos M n alloc) (hmax : n ≤ MAX_ITEM) (hdvd : 8 ∣ n)
    (hn : itemExtent (t.alloc.load (pos b i)) = n)
    (hfar : t.mthThreshold < distanceFromTail t (itemOffsetOf (t.itemVecs b i)) t.alloc.mask)
    (hyes : poolIsValid alloc (itemOffsetOf (t.itemVecs b i)) = true)
    (hin : alloc.tail ≤ pos b i + t.alloc.size) :
    ∃ t' log' pos', moveToHead t b i n = some t' ∧ TableOk (some l) t' log' pos' M ∧
      Stepped t t' pos pos' b ∧
      Holds t' pos' b i t.alloc.tail (itemKey (t.alloc.load (pos b i))) ∧
      t'.alloc.tail = t.alloc.tail + n := by
  have hsz : PoolSize alloc.size := ha.table.pool.size
  have hbefore : t.alloc.tail ≤ pos b i + t.alloc.size := by
    have := ha.tail
    omega
  have hlive := (h.live_slot hbusy hbefore).1
  have hsame := ha.same b i hbusy hin
  rw [hn] at hsame
  -- what is written over the new item, of which `alloc.load (pos b i)` has the first bytes
  have hcopy : ∀ k < itemExtent (t.alloc.load (pos b i)),
      memcpy (alloc.load t.alloc.tail) (alloc.load (pos b i)) n k = t.alloc.load (pos b i) k := by
    intro k hk
    rw [hn] at hk
    rw [memcpy_of_lt _ _ hk, hsame k hk]
  obtain ⟨hkey, hvalue, hsize, -⟩ := item_congr hcopy
  have htight : itemSize (t.alloc.load (pos b i)) = n := (hlive.tight l rfl).2.symm.trans hn
  have hM := h.contents b i hbusy hbefore
  rw [← hkey, ← hvalue] at hM
  rw [← hkey]
  have htag0 : tagOf (t.itemVecs b i) ≠ 0 := by
    rw [← hlive.tag]
    exact calcTag_ne_zero _
  obtain ⟨t', hrun, hok, hstep, hholds, htail⟩ := ha.place M hmax hbusy.bucket hbusy.index htag0
    (fun j hj hne htag => hne (h.tags b j i hj hbusy htag)) (hlive.transport hcopy)
    (memcpy_within _ _ n) (hsize.trans htight) hM (fun _ _ => rfl) h
  have hstore : alloc.store (poolItem alloc (t.alloc.tail % 2 ^ 40)) (roundup8 n)
      (alloc.load (poolItem alloc (itemOffsetOf (t.itemVecs b i)))) =
        alloc.store t.alloc.tail n (memcpy (alloc.load t.alloc.tail) (alloc.load (pos b i)) n) := by
    rw [(h.slot b i hbusy).offset, load_item hsz, store_item hsz, roundup8_of_dvd hdvd, Pool.store,
      Pool.store, cstore_congr (fun k hk => (memcpy_of_lt (alloc.load t.alloc.tail) _ hk).symm)]
  refine ⟨t', _, _, ?_, hok, hstep, hholds, htail⟩
  rw [moveToHead_eq hfar ha.run hstore, if_pos hyes]
  exact hrun

/-- The allocation has dropped the item; what was allocated for it is left unused. -/
theorem move_late {l n : ℕ} {alloc : Pool} (ha : Allocated (some l) t log pos M n alloc)
    (hmax : n ≤ MAX_ITEM)
    (hfar : t.mthThreshold < distanceFromTail t (itemOffsetOf (t.itemVecs b i)) t.alloc.mask)
    (hno : poolIsValid alloc (itemOffsetOf (t.itemVecs b i)) = false) :
    ∃ t' log' pos', moveToHead t b i n = some t' ∧ TableOk (some l) t' log' pos' M ∧
      Stepped t t' pos pos' b := by
  have hend := ha.tail
  have hsize := ha.size
  obtain ⟨t', hrun, hok, he, hkeep⟩ := cleanup_spec t.alloc.tail ha.table
    (by show t.alloc.tail ≤ alloc.tail; omega) (by show alloc.tail ≤ _; omega)
  have halloc : t'.alloc = alloc := he.alloc
  refine ⟨t', _, pos, ?_, hok, ⟨he.numBuckets, he.rshift, he.mthThreshold, ?_, ?_, ?_, ?_⟩⟩
  · rw [moveToHead_eq hfar ha.run rfl, hno]
    exact hrun
  · rw [halloc]
    exact hsize
  · rw [halloc]
    omega
  · rw [halloc]
    omega
  · intro b' i' o key _ hholds ho
    rw [halloc] at ho
    refine (ha.holds b' i' o key hholds ho).cleaned ha.table he hkeep ?_
    show alloc.tail ≤ o + alloc.size
    omega

/-- What `mask` tells of the distance of a live item from the end of the log. -/
theorem distance_eq (h : TableOk fixed t log pos M) (hbusy : Busy t b i)
    (hin : t.alloc.tail < pos b i + t.alloc.size) :
    distanceFromTail t (itemOffsetOf (t.itemVecs b i)) t.alloc.mask = t.alloc.tail - pos b i := by
  have hstart := h.start_le hbusy
  obtain ⟨j, hj⟩ := h.pool.size.pow
  have hj38 : j ≤ 38 := (Nat.pow_le_pow_iff_right (by decide)).mp (hj ▸ h.pool.size.max)
  have hoff : pos b i % 2 ^ 40 % 2 ^ j = pos b i % 2 ^ j :=
    Nat.mod_mod_of_dvd _ (Nat.pow_dvd_pow 2 (by omega))
  have h64 : 2 ^ j ∣ 2 ^ 64 := Nat.pow_dvd_pow 2 (by omega)
  have hlt : pos b i % 2 ^ 40 < 2 ^ 40 := Nat.mod_lt _ (by decide)
  rw [distanceFromTail, Pool.mask, hj, Nat.and_two_pow_sub_one_eq_mod, (h.slot b i hbusy).offset,
    Nat.mod_mod_of_dvd _ h64]
  -- Both sides differ by a multiple of the size of the pool.
  have hmod : t.alloc.tail + 2 ^ 64 - pos b i % 2 ^ 40 ≡ t.alloc.tail - pos b i [MOD 2 ^ j] := by
    apply Nat.ModEq.add_right_cancel' (pos b i % 2 ^ 40)
    rw [Nat.sub_add_cancel (by omega)]
    calc t.alloc.tail + 2 ^ 64 ≡ t.alloc.tail + 0 [MOD 2 ^ j] :=
          Nat.ModEq.add_left _ (Nat.modEq_zero_iff_dvd.mpr h64)
      _ = t.alloc.tail - pos b i + pos b i := by omega
      _ ≡ t.alloc.tail - pos b i + pos b i % 2 ^ 40 [MOD 2 ^ j] :=
          Nat.ModEq.add_left _ hoff.symm
  exact Nat.mod_eq_of_modEq hmod (by omega)

/-- **A move to the end of the log.**  If the log does not come round to the item in the meantime,
    it is near the end of the log then. -/
theorem moveToHead_spec {l : ℕ} (h : TableOk (some l) t log pos M) (hbusy : Busy t b i)
    (hin : t.alloc.tail ≤ pos b i + t.alloc.size) (hbound : t.alloc.tail + MAX_ITEM ≤ 2 ^ 63) :
    ∃ t' log' pos', moveToHead t b i (itemExtent (t.alloc.load (pos b i))) = some t' ∧
      TableOk (some l) t' log' pos' M ∧ Stepped t t' pos pos' b ∧
      (t.alloc.tail + itemExtent (t.alloc.load (pos b i)) ≤ pos b i + t.alloc.size →
        ∃ o, Holds t' pos' b i o (itemKey (t.alloc.load (pos b i))) ∧
          t'.alloc.tail ≤ o + max t.mthThreshold (itemExtent (t.alloc.load (pos b i)))) := by
  obtain ⟨hmin, hdvd, hmax⟩ := extent_bounds (h.live_slot hbusy hin).1
  rcases Nat.lt_or_ge t.mthThreshold
    (distanceFromTail t (itemOffsetOf (t.itemVecs b i)) t.alloc.mask) with hfar | hnear
  · obtain ⟨alloc, ha⟩ := h.allocate hmin hdvd hmax hbound
    have hgrown : Busy { t with alloc := alloc } b i := ⟨hbusy.bucket, hbusy.index, hbusy.nonzero⟩
    have hvalid : poolIsValid alloc (itemOffsetOf (t.itemVecs b i)) = true ↔
        alloc.tail ≤ pos b i + alloc.size := ha.table.valid_iff hgrown
    cases hyes : poolIsValid alloc (itemOffsetOf (t.itemVecs b i)) with
    | false =>
      obtain ⟨t', log', pos', hrun, hok, hstep⟩ := move_late ha hmax hfar hyes
      refine ⟨t', log', pos', hrun, hok, hstep, fun hroom => ?_⟩
      have hend := ha.tail
      rw [hvalid.mpr (by rw [ha.size, hend]; exact hroom)] at hyes
      cases hyes
    | true =>
      obtain ⟨t', log', pos', hrun, hok, hstep, hholds, htail⟩ :=
        move_copied h hbusy ha hmax hdvd rfl hfar hyes (by rw [← ha.size]; exact hvalid.mp hyes)
      refine ⟨t', log', pos', hrun, hok, hstep, fun _ => ⟨_, hholds, ?_⟩⟩
      rw [htail]
      exact Nat.add_le_add_left (Nat.le_max_right _ _) _
  · refine ⟨t, log, pos, if_neg (Nat.not_lt.mpr hnear), h, Stepped.refl t pos b, fun hroom => ?_⟩
    have hpos : 0 < ITEM_HEADER := by decide
    rw [distance_eq h hbusy (by omega)] at hnear
    refine ⟨_, ⟨hbusy, rfl, rfl⟩, ?_⟩
    have hle := Nat.le_max_left t.mthThreshold (itemExtent (t.alloc.load (pos b i)))
    omega

/-- No item is further from the end of the log than the size of the pool. -/
theorem moveToHead_near (hs : PoolSize t.alloc.size) (h : t.alloc.size ≤ t.mthThreshold)
    (b i itemSize : ℕ) : moveToHead t b i itemSize = some t := by
  refine if_neg ?_
  have hmin := hs.min
  have hle : distanceFromTail t (itemOffsetOf (t.itemVecs b i)) t.alloc.mask ≤ t.alloc.size - 1 :=
    Nat.and_le_right
  unfold MINIMUM_POOL_SIZE at hmin
  omega

/-- **GET** always succeeds and keeps the invariant.  If it returns a value, this is the one stored
    last, or as much of it as the buffer takes; a live item of the key is found. -/
theorem get_spec (h : TableOk fixed t log pos M) (hbound : t.alloc.tail + MAX_ITEM ≤ 2 ^ 63)
    (hk : r.keyLength ≤ MAX_KEY_LENGTH) (outValue : Bytes) {outLength : ℕ} (hlen : outLength ≤ 1500)
    {readonly : Bool}
    (hsafe : readonly = true ∨ t.alloc.size ≤ t.mthThreshold ∨ ∃ l, fixed = some l) :
    ∃ t' found outValue' log' pos',
      mehcachedGet t r outValue outLength readonly = some (t', found, outValue') ∧
      TableOk fixed t' log' pos' M ∧
      Stepped t t' pos pos' (calcBucketIndex t r.keyHash.toNat) ∧
      (∀ len expire, found = some (len, expire) → ∃ v, M r.toKey = some v ∧
        len = min v.length outLength ∧ expire = v.expire ∧
        readBytes outValue' 0 (roundup8 len) = v.bytes.take (roundup8 len)) ∧
      ∀ i o, Holds t pos (calcBucketIndex t r.keyHash.toNat) i o r.toKey →
        t.alloc.tail ≤ o + t.alloc.size → found ≠ none ∧ (readonly = false →
          t.alloc.tail + itemExtent (t.alloc.load o) ≤ o + t.alloc.size →
          ∃ i' o', Holds t' pos' (calcBucketIndex t r.keyHash.toNat) i' o' r.toKey ∧
            t'.alloc.tail ≤ o' + max t.mthThreshold (itemExtent (t.alloc.load o))) := by
  unfold mehcachedGet
  rw [if_neg (by omega)]
  dsimp only
  cases hfind : findItemIndex t (calcBucketIndex t r.keyHash.toNat) (calcTag r.keyHash.toNat) r with
  | none =>
    refine ⟨t, none, outValue, log, pos, rfl, h, Stepped.refl t pos _, by simp, ?_⟩
    rintro i o ⟨hbusy, rfl, hkey⟩ hin
    exact absurd hkey (h.find_none hfind hbusy hin)
  | some i =>
    obtain ⟨hbusy, htag, hkey⟩ := h.find_some hfind
    dsimp only
    rw [h.item_eq hbusy]
    set b := calcBucketIndex t r.keyHash.toNat with hb
    split
    · -- the item was overwritten, and what is there now looks like it
      rename_i hstale
      have hout := (h.invalid_iff hbusy).mp hstale
      have hmiss : ∀ i' o, Holds t pos b i' o r.toKey → ¬t.alloc.tail ≤ o + t.alloc.size := by
        rintro i' o ⟨hbusy', rfl, hkey'⟩ hin
        obtain ⟨-, rfl⟩ := h.find_unique hbusy htag hbusy' hin hkey'
        omega
      cases readonly with
      | true =>
        exact ⟨t, none, _, log, pos, rfl, h, Stepped.refl t pos b, by simp,
          fun i' o hholds hin => absurd hin (hmiss i' o hholds)⟩
      | false =>
        refine ⟨t.setItemVec b i 0, none, _, log, pos, rfl, ?_, stepped_empty t pos b i, by simp,
          fun i' o hholds hin => absurd hin (hmiss i' o hholds)⟩
        exact h.erase (erased_setItemVec t b i) (fun _ _ _ _ => rfl)
    · rename_i hvalid
      have hin := (h.valid_iff hbusy).mp (Bool.not_eq_false _ ▸ hvalid)
      have hlive := (h.live_slot hbusy hin).1
      have hM := h.contents b i hbusy hin
      rw [hkey] at hM
      set item := t.alloc.load (pos b i) with hitem
      have hkl : min (keyLengthOf item) MAX_KEY_LENGTH = keyLengthOf item :=
        Nat.min_eq_left (keyLengthOf_le item)
      have hvl : min (valueLengthOf item) MAX_VALUE_LENGTH = valueLengthOf item :=
        Nat.min_eq_left hlive.value
      rw [itemSize_computed hlive, hkl, hvl, if_neg (by omega)]
      set len := min (valueLengthOf item) outLength with hleneq
      have hbytes : readBytes (memcpy8 outValue 0
          (fun k => dataOf item (roundup8 (keyLengthOf item) + k)) len) 0 (roundup8 len) =
            (itemValue item).bytes.take (roundup8 len) := by
        have hle : roundup8 len ≤ roundup8 (valueLengthOf item) := roundup8_le (Nat.min_le_left _ _)
        rw [memcpy8, readBytes_copyAt, itemValue, readBytes_take, Nat.min_eq_left hle,
          readBytes_eq_iff]
        intro k _
        rw [Nat.zero_add, dataOf, valueOffset, Nat.add_assoc]
      have hfound : ∀ len' expire, some (len, expireTimeOf item) = some (len', expire) →
          ∃ v, M r.toKey = some v ∧ len' = min v.length outLength ∧ expire = v.expire ∧
            readBytes (memcpy8 outValue 0
              (fun k => dataOf item (roundup8 (keyLengthOf item) + k)) len) 0 (roundup8 len') =
                v.bytes.take (roundup8 len') := by
        intro len' expire heq
        cases heq
        exact ⟨itemValue item, hM, rfl, rfl, hbytes⟩
      cases readonly with
      | true => exact ⟨t, _, _, log, pos, rfl, h, Stepped.refl t pos b, hfound, by simp⟩
      | false =>
        have hmove : ∃ t' log' pos', moveToHead t b i (itemExtent item) = some t' ∧
            TableOk fixed t' log' pos' M ∧ Stepped t t' pos pos' b ∧
            (t.alloc.tail + itemExtent item ≤ pos b i + t.alloc.size →
              ∃ o, Holds t' pos' b i o (itemKey item) ∧
                t'.alloc.tail ≤ o + max t.mthThreshold (itemExtent item)) := by
          rcases hsafe.resolve_left Bool.false_ne_true with hfifo | ⟨l, rfl⟩
          · refine ⟨t, log, pos, moveToHead_near h.pool.size hfifo b i _, h, Stepped.refl t pos b,
              fun _ => ⟨_, ⟨hbusy, rfl, rfl⟩, ?_⟩⟩
            have hle := Nat.le_max_left t.mthThreshold (itemExtent item)
            omega
          · exact moveToHead_spec h hbusy hin hbound
        obtain ⟨t', log', pos', hrun, hok, hstep, hrecent⟩ := hmove
        refine ⟨t', some (len, expireTimeOf item), _, log', pos', ?_, hok, hstep, hfound, ?_⟩
        · simp [hrun]
        · rintro i' o ⟨hbusy', rfl, hkey'⟩ hin'
          obtain ⟨-, rfl⟩ := h.find_unique hbusy htag hbusy' hin' hkey'
          refine ⟨by simp, fun _ hroom => ?_⟩
          obtain ⟨o', hholds, hnear⟩ := hrecent hroom
          rw [hkey] at hholds
          exact ⟨_, o', hholds, hnear⟩

end Get

end QueueDpdk.Mehcached
