import QueueDpdk.Mehcached.Writes

/-!
# The operations keep the invariant

* `Stepped` — what an operation on one bucket leaves of the items of the others.
* `setNew_spec`, `setInPlace_spec`, `moveToHead_spec` — the three ways to write an item.
* `set_spec`, `get_spec`, `delete_spec`, `increment_spec` — one theorem for each operation: it
  succeeds, keeps the invariant for the map that it should leave, and its result is the one of the
  map, if it is not a miss.
-/

set_option autoImplicit false

namespace QueueDpdk.Mehcached

open Lib

/-- From one table to another by an operation on bucket `b`. -/
structure Stepped (t t' : Table) (pos pos' : ℕ → ℕ → ℕ) (b : ℕ) : Prop where
  numBuckets : t'.numBuckets = t.numBuckets
  rshift : t'.rshift = t.rshift
  mthThreshold : t'.mthThreshold = t.mthThreshold
  size : t'.alloc.size = t.alloc.size
  le : t.alloc.tail ≤ t'.alloc.tail
  near : t'.alloc.tail ≤ t.alloc.tail + MAX_ITEM
  holds : ∀ b' i o key, b' ≠ b → Holds t pos b' i o key →
    t'.alloc.tail ≤ o + t.alloc.size → Holds t' pos' b' i o key

section Steps

variable {fixed : Option ℕ} {t t' : Table} {log : List ℕ} {pos : ℕ → ℕ → ℕ}
  {M M' : Key → Option Value} {sweeps b i o n m : ℕ} {item : Bytes} {key : Key}

theorem Stepped.refl (t : Table) (pos : ℕ → ℕ → ℕ) (b : ℕ) : Stepped t t pos pos b where
  numBuckets := rfl
  rshift := rfl
  mthThreshold := rfl
  size := rfl
  le := Nat.le_refl _
  near := Nat.le_add_right _ _
  holds _ _ _ _ _ h _ := h

theorem Holds.erased (h : Holds t pos b i o key) (he : Erased t t')
    (hkeep : t'.itemVecs b i = t.itemVecs b i) : Holds t' pos b i o key := by
  obtain ⟨hbusy, hpos, hkey⟩ := h
  refine ⟨⟨?_, hbusy.index, ?_⟩, hpos, ?_⟩
  · rw [he.numBuckets]
    exact hbusy.bucket
  · rw [hkeep]
    exact hbusy.nonzero
  · rw [he.alloc]
    exact hkey

/-- A live item is not cleaned up. -/
theorem Holds.cleaned (h : Holds t pos b i o key) (ht : TableAt fixed t log pos M sweeps)
    (he : Erased t t') (hkeep : KeepsValid t t') (hin : t.alloc.tail ≤ o + t.alloc.size) :
    Holds t' pos b i o key := by
  refine h.erased he (hkeep b i ?_)
  rw [ht.valid_iff h.busy, h.pos]
  exact hin

/-- Emptying a slot. -/
theorem stepped_empty (t : Table) (pos : ℕ → ℕ → ℕ) (b i : ℕ) :
    Stepped t (t.setItemVec b i 0) pos pos b where
  numBuckets := rfl
  rshift := rfl
  mthThreshold := rfl
  size := rfl
  le := Nat.le_refl _
  near := Nat.le_add_right _ _
  holds _ _ _ _ hne h _ := h.erased (erased_setItemVec t b i) (setItemVec_of_ne (Or.inl hne))

theorem sweeps_near (t : Table) :
    t.alloc.tail < (t.alloc.tail >>> t.rshift + 1) * 2 ^ t.rshift := by
  rw [Nat.shiftRight_eq_div_pow, Nat.mul_comm]
  exact Nat.lt_mul_div_succ _ (Nat.two_pow_pos _)

theorem sweeps_passed {s : ℕ} (h : s < t.alloc.tail >>> t.rshift) :
    (s + 1) * 2 ^ t.rshift ≤ t.alloc.tail := by
  rw [Nat.shiftRight_eq_div_pow] at h
  exact (Nat.mul_le_mul_right _ h).trans (Nat.div_mul_le_self _ _)

/-- Items begin before the end of the log. -/
theorem TableAt.start_lt (h : TableAt fixed t log pos M sweeps) (hbusy : Busy t b i) :
    pos b i < t.alloc.tail := by
  obtain ⟨n, hn⟩ := (h.slot b i hbusy).starts
  have hend := hn.end_le
  have hpos := h.pool.pos n hn.mem
  rw [h.pool.tail]
  omega

/-! ## A new item at the end of the log -/

/-- What an allocation does to a table. -/
structure Allocated (fixed : Option ℕ) (t : Table) (log : List ℕ) (pos : ℕ → ℕ → ℕ)
    (M : Key → Option Value) (n : ℕ) (alloc : Pool) : Prop where
  run : poolAllocate t.alloc n = some (alloc, t.alloc.tail % 2 ^ 40)
  table : TableAt fixed { t with alloc := alloc } (log ++ [n]) pos M (t.alloc.tail >>> t.rshift)
  size : alloc.size = t.alloc.size
  tail : alloc.tail = t.alloc.tail + n
  header : itemSize (alloc.load t.alloc.tail) = n
  same : ∀ b i, Busy t b i → alloc.tail ≤ pos b i + t.alloc.size →
    ∀ k < itemExtent (t.alloc.load (pos b i)), alloc.load (pos b i) k = t.alloc.load (pos b i) k
  holds : ∀ b i o key, Holds t pos b i o key → alloc.tail ≤ o + t.alloc.size →
    Holds { t with alloc := alloc } pos b i o key

theorem TableOk.allocate (h : TableOk fixed t log pos M) (hmin : ITEM_HEADER ≤ n) (hdvd : 8 ∣ n)
    (hmax : n ≤ MAX_ITEM) (hbound : t.alloc.tail + MAX_ITEM ≤ 2 ^ 63) :
    ∃ alloc, Allocated fixed t log pos M n alloc := by
  have htail := h.pool.tail
  obtain ⟨alloc, hrun, hok, hsize, hend, hdata⟩ := poolAllocate_spec h.pool hmin hdvd
    (hmax.trans (by decide)) (by omega)
  have hdata' : ∀ q, q < t.alloc.tail → alloc.tail ≤ q + t.alloc.size →
      alloc.data (q % t.alloc.size) = t.alloc.data (q % t.alloc.size) := by
    rw [hend]
    exact hdata
  refine ⟨alloc, hrun, h.grow (sweeps_near t) hmax hok hsize hend hdata, hsize, hend, ?_,
    fun b i hbusy hin => h.grow_same hsize hdata' (by omega) hbusy hin, ?_⟩
  · refine hok.itemSize_eq ?_ ?_
    · rw [htail]
      exact starts_last log n
    · have := h.pool.size.min
      have : MAX_ITEM = MINIMUM_POOL_SIZE := by decide
      omega
  · intro b i o key hholds hin
    exact h.grow_holds hsize hdata' (by omega) hholds hin

/-- **A new item in a slot**, and the clean-up after it. -/
theorem Allocated.place {alloc : Pool} {tag : ℕ} (ha : Allocated fixed t log pos M n alloc)
    (M' : Key → Option Value) (hmax : n ≤ MAX_ITEM) (hb : b < t.numBuckets)
    (hi : i < ITEMS_PER_BUCKET) (htag0 : tag ≠ 0)
    (htag : ∀ j, Busy t b j → j ≠ i → tagOf (t.itemVecs b j) ≠ tag)
    (hlive : Live fixed t b tag item) (hwithin : Within n (alloc.load t.alloc.tail) item)
    (hsize : itemSize item = n) (hM : M' (itemKey item) = some (itemValue item))
    (hM' : ∀ key, key ≠ itemKey item → M' key = M key) (hold : TableOk fixed t log pos M) :
    ∃ t', cleanupBucket
        (placed { t with alloc := alloc } b i t.alloc.tail n (mkItemVec tag (t.alloc.tail % 2 ^ 40))
          item) (t.alloc.tail % 2 ^ 40) alloc.tail = some t' ∧
      TableOk fixed t' (log ++ [n]) (setPos pos b i t.alloc.tail) M' ∧
      Stepped t t' pos (setPos pos b i t.alloc.tail) b ∧
      Holds t' (setPos pos b i t.alloc.tail) b i t.alloc.tail (itemKey item) ∧
      t'.alloc.tail = t.alloc.tail + n := by
  have hoff : t.alloc.tail % 2 ^ 40 < 2 ^ 40 := Nat.mod_lt _ (by decide)
  have hroom := hold.pool.size.min
  have hmin : MAX_ITEM = MINIMUM_POOL_SIZE := by decide
  have hend := ha.tail
  have hlen := ha.size
  have hrecent : alloc.tail ≤ t.alloc.tail + alloc.size := by omega
  have hp : Placing fixed { t with alloc := alloc } (log ++ [n]) pos (t.alloc.tail >>> t.rshift)
      b i t.alloc.tail n n (mkItemVec tag (t.alloc.tail % 2 ^ 40)) item := by
    refine ⟨?_, hrecent, Nat.le_refl n, hwithin, hsize.trans ha.header.symm, itemOffsetOf_mk hoff,
      ?_, ?_, ?_, ?_⟩
    · rw [hold.pool.tail]
      exact starts_last log n
    · intro s hs _
      exact (sweeps_passed hs).trans (Nat.le_add_right _ _)
    · rw [tagOf_mk hoff]
      exact hlive.congr rfl
    · intro b' i' hbusy _
      exact Nat.ne_of_lt (hold.start_lt hbusy.of_alloc)
    · intro j hbusy hne
      rw [tagOf_mk hoff]
      exact htag j hbusy.of_alloc hne
  have hput := ha.table.put hp hb hM hM'
  obtain ⟨t', hrun, hok, he, hkeep⟩ := cleanup_spec t.alloc.tail hput
    (by show t.alloc.tail ≤ alloc.tail; omega) (by show alloc.tail ≤ _; omega)
  have halloc : t'.alloc.tail = alloc.tail := by
    rw [he.alloc]
    rfl
  refine ⟨t', hrun, hok, ⟨he.numBuckets, he.rshift, he.mthThreshold, ?_, ?_, ?_, ?_⟩, ?_, ?_⟩
  · rw [he.alloc]
    exact hlen
  · omega
  · omega
  · intro b' i' o key hne hholds hin
    have hin' : alloc.tail ≤ o + t.alloc.size := by omega
    have hgrown := ha.holds b' i' o key hholds hin'
    have hin'' : alloc.tail ≤ o + alloc.size := by omega
    exact (hp.holds ha.table (Or.inl hne) hgrown hin'').cleaned hput he hkeep hin''
  · exact (hp.holds_new ha.table hb hi (mkItemVec_ne_zero hoff htag0)).cleaned hput he hkeep hrecent
  · omega

/-! ## SET -/

/-- The size of an item for a key and a value. -/
def itemLength (keyLength valueLength : ℕ) : ℕ :=
  ITEM_HEADER + roundup8 keyLength + roundup8 valueLength

theorem itemLength_bounds {k v : ℕ} (hk : k ≤ MAX_KEY_LENGTH) (hv : v ≤ MAX_VALUE_LENGTH) :
    ITEM_HEADER ≤ itemLength k v ∧ 8 ∣ itemLength k v ∧ itemLength k v ≤ MAX_ITEM := by
  have hk' : k ≤ 255 := hk
  have hv' : v ≤ 1048575 := hv
  unfold itemLength ITEM_HEADER roundup8 MAX_ITEM
  omega

variable {r : Request} {value : Bytes} {valueLength : ℕ} {expireTime : UInt32}

/-- An item that says what the caller gave. -/
theorem live_of_given (t : Table) (fixed : Option ℕ) (hkey : itemKey item = r.toKey)
    (hvalue : itemValue item = callerValue value valueLength expireTime)
    (hsize : itemLength r.keyLength valueLength ≤ itemSize item)
    (htight : ∀ l ∈ fixed, roundup8 valueLength = l ∧
      itemLength r.keyLength valueLength = itemSize item)
    (hv : valueLength ≤ MAX_VALUE_LENGTH) :
    Live fixed t (calcBucketIndex t r.keyHash.toNat) (calcTag r.keyHash.toNat) item := by
  have hk : keyLengthOf item = r.keyLength := congrArg Key.length hkey
  have hl : valueLengthOf item = valueLength := congrArg Value.length hvalue
  have hhash : keyHashOf item = r.keyHash.toNat := congrArg Key.hash hkey
  have hextent : itemExtent item = itemLength r.keyLength valueLength := by
    rw [itemExtent, valueOffset, hk, hl]
    rfl
  refine ⟨?_, ?_, ?_, ?_, ?_⟩
  · rw [hextent]
    exact hsize
  · rw [hextent, hl]
    exact htight
  · rw [hl]
    exact hv
  · rw [hhash]
  · rw [hhash]

/-- The map after a SET. -/
def stored (M : Key → Option Value) (r : Request) (value : Bytes) (valueLength : ℕ)
    (expireTime : UInt32) : Key → Option Value :=
  Function.update M r.toKey (some (callerValue value valueLength expireTime))

/-- **A new item for a slot** whose tag no other slot of the bucket has. -/
theorem setNew_spec (value : Bytes) (expireTime : UInt32) (h : TableOk fixed t log pos M)
    (hbound : t.alloc.tail + MAX_ITEM ≤ 2 ^ 63)
    (hi : i < ITEMS_PER_BUCKET) (hk : r.keyLength ≤ MAX_KEY_LENGTH)
    (hv : valueLength ≤ MAX_VALUE_LENGTH) (hfixed : ∀ l ∈ fixed, roundup8 valueLength = l)
    (htag : ∀ j, Busy t (calcBucketIndex t r.keyHash.toNat) j → j ≠ i →
      tagOf (t.itemVecs (calcBucketIndex t r.keyHash.toNat) j) ≠ calcTag r.keyHash.toNat) :
    ∃ t' log', setNew t (calcBucketIndex t r.keyHash.toNat) i r value valueLength expireTime =
        some t' ∧
      TableOk fixed t' log' (setPos pos (calcBucketIndex t r.keyHash.toNat) i t.alloc.tail)
        (stored M r value valueLength expireTime) ∧
      Stepped t t' pos (setPos pos (calcBucketIndex t r.keyHash.toNat) i t.alloc.tail)
        (calcBucketIndex t r.keyHash.toNat) ∧
      Holds t' (setPos pos (calcBucketIndex t r.keyHash.toNat) i t.alloc.tail)
        (calcBucketIndex t r.keyHash.toNat) i t.alloc.tail r.toKey ∧
      t'.alloc.tail = t.alloc.tail + itemLength r.keyLength valueLength := by
  obtain ⟨hmin, hdvd, hmax⟩ := itemLength_bounds hk hv
  obtain ⟨alloc, ha⟩ := h.allocate hmin hdvd hmax hbound
  have hsz : PoolSize alloc.size := ha.table.pool.size
  obtain ⟨item, hitem, hkey, hvalue, hsize, hwithin⟩ := setItem_spec (alloc.load t.alloc.tail) r.key
    value r.keyHash expireTime (show r.keyLength ≤ KEY_MASK from hk)
    (hv.trans (by decide : MAX_VALUE_LENGTH ≤ VALUE_MASK))
  rw [ha.header] at hsize
  have hlive := live_of_given t fixed hkey hvalue (Nat.le_of_eq hsize.symm)
    (fun l hl => ⟨hfixed l hl, hsize.symm⟩) hv
  obtain ⟨t', hrun, hok, hstep, hholds, htail⟩ := ha.place (i := i)
    (stored M r value valueLength expireTime) hmax
    (h.shape.bucket_lt r.keyHash.toNat) hi (calcTag_ne_zero _) htag hlive hwithin hsize
    (by rw [hkey, hvalue]; exact Function.update_self _ _ _)
    (fun key hne => Function.update_of_ne (fun heq => hne (heq.trans hkey.symm)) _ _) h
  rw [hkey] at hholds
  refine ⟨t', _, ?_, hok, hstep, hholds, htail⟩
  unfold setNew
  dsimp only
  rw [← itemLength, ha.run]
  simp only [Option.bind_eq_bind, Option.bind_some]
  rw [load_item hsz, hitem, Option.bind_some, store_item hsz]
  exact hrun

theorem setPos_self (pos : ℕ → ℕ → ℕ) (b i : ℕ) : setPos pos b i (pos b i) = pos := by
  simp [setPos]

theorem placed_self (t : Table) (b i o m : ℕ) (item : Bytes) :
    placed t b i o m (t.itemVecs b i) item = { t with alloc := t.alloc.store o m item } := by
  simp [placed, Table.setItemVec]

/-- **A value replaced in place.** -/
theorem TableOk.replace (h : TableOk fixed t log pos M) (M' : Key → Option Value)
    (hbusy : Busy t b i)
    (hin : t.alloc.tail ≤ pos b i + t.alloc.size)
    (hfit : m ≤ itemSize (t.alloc.load (pos b i)))
    (hwithin : Within m (t.alloc.load (pos b i)) item)
    (hsize : itemSize item = itemSize (t.alloc.load (pos b i)))
    (hlive : Live fixed t b (tagOf (t.itemVecs b i)) item)
    (hM : M' (itemKey item) = some (itemValue item))
    (hM' : ∀ key, key ≠ itemKey item → M' key = M key) :
    TableOk fixed { t with alloc := t.alloc.store (pos b i) m item } log pos M' ∧
      Stepped t { t with alloc := t.alloc.store (pos b i) m item } pos pos b ∧
      Holds { t with alloc := t.alloc.store (pos b i) m item } pos b i (pos b i)
        (itemKey item) := by
  have hslot := h.slot b i hbusy
  have hp : Placing fixed t log pos (t.alloc.tail >>> t.rshift) b i (pos b i)
      (itemSize (t.alloc.load (pos b i))) m (t.itemVecs b i) item := by
    refine ⟨(h.live_slot hbusy hin).2, hin, hfit, hwithin, hsize, hslot.offset, hslot.swept, hlive,
      ?_, ?_⟩
    · intro b' i' hbusy' hne hpos
      have := h.apart b' i' b i hbusy' hbusy hpos
      omega
    · exact fun j hj hne htag => hne (h.tags b j i hj hbusy htag)
  have hput := h.put hp hbusy.bucket hM hM'
  have hnew := hp.holds_new h hbusy.bucket hbusy.index hbusy.nonzero
  rw [placed_self, setPos_self] at hput hnew
  refine ⟨hput, ⟨rfl, rfl, rfl, rfl, Nat.le_refl _, Nat.le_add_right _ _, ?_⟩, hnew⟩
  intro b' i' o key hne hholds ho
  have hkeep := hp.holds h (Or.inl hne) hholds ho
  rwa [placed_self, setPos_self] at hkeep

/-- **SET of a key that was found**, in place or with a new item. -/
theorem setInPlace_spec (value : Bytes) (expireTime : UInt32) (h : TableOk fixed t log pos M)
    (hbound : t.alloc.tail + MAX_ITEM ≤ 2 ^ 63)
    (hk : r.keyLength ≤ MAX_KEY_LENGTH) (hv : valueLength ≤ MAX_VALUE_LENGTH)
    (hfixed : ∀ l ∈ fixed, roundup8 valueLength = l)
    (hfind : findItemIndex t (calcBucketIndex t r.keyHash.toNat) (calcTag r.keyHash.toNat) r =
      some i) :
    ∃ t' log' pos' o, setInPlace t (calcBucketIndex t r.keyHash.toNat) i r value valueLength
        expireTime = some t' ∧
      TableOk fixed t' log' pos' (stored M r value valueLength expireTime) ∧
      Stepped t t' pos pos' (calcBucketIndex t r.keyHash.toNat) ∧
      Holds t' pos' (calcBucketIndex t r.keyHash.toNat) i o r.toKey ∧
      t'.alloc.tail ≤ o + t'.alloc.size := by
  obtain ⟨hbusy, htag, hkey⟩ := h.find_some hfind
  have hlen : keyLengthOf (t.alloc.load (pos (calcBucketIndex t r.keyHash.toNat) i)) =
      r.keyLength :=
    congrArg Key.length hkey
  unfold setInPlace
  dsimp only
  rw [h.load_slot hbusy, ← itemLength]
  split
  · rename_i hfit
    have hin := (h.valid_iff hbusy).mp hfit.1
    obtain ⟨item, hitem, hkey', hvalue, hsize, hwithin⟩ := setItemValue_spec
      (t.alloc.load (pos (calcBucketIndex t r.keyHash.toNat) i)) value expireTime
      (hv.trans (by decide : MAX_VALUE_LENGTH ≤ VALUE_MASK))
    have hold := (h.live_slot hbusy hin).1
    have hnew := hkey'.trans hkey
    have hlive := live_of_given t fixed hnew hvalue (hfit.2.trans_eq hsize.symm)
      (fun l hl => ⟨hfixed l hl, by
        obtain ⟨hround, htight⟩ := hold.tight l hl
        rw [hsize, ← htight, itemExtent, valueOffset, hlen, hround, ← hfixed l hl]
        rfl⟩) hv
    rw [← htag] at hlive
    have hoff : valueOffset (t.alloc.load (pos (calcBucketIndex t r.keyHash.toNat) i)) +
        roundup8 valueLength = itemLength r.keyLength valueLength := by
      rw [valueOffset, hlen]
      rfl
    obtain ⟨hok, hstep, hholds⟩ := h.replace (stored M r value valueLength expireTime) hbusy
      hin (hoff.trans_le hfit.2) hwithin hsize hlive
      (by rw [hnew, hvalue]; exact Function.update_self _ _ _)
      (fun key hne => Function.update_of_ne (fun heq => hne (heq.trans hnew.symm)) _ _)
    rw [hnew] at hholds
    refine ⟨_, log, pos, _, ?_, hok, hstep, hholds, hin⟩
    rw [hitem]
    simp only [Option.bind_eq_bind, Option.bind_some]
    rw [(h.slot _ _ hbusy).offset, store_item h.pool.size]
  · obtain ⟨t', log', hrun, hok, hstep, hholds, htail⟩ := setNew_spec value
      expireTime h hbound hbusy.index hk hv hfixed
      (fun j hj hne hjtag => hne (h.tags _ j i hj hbusy (hjtag.trans htag.symm)))
    refine ⟨t', log', _, _, hrun, hok, hstep, hholds, ?_⟩
    have hmax := (itemLength_bounds hk hv).2.2
    have hroom := h.pool.size.min
    have hsame := hstep.size
    have hmin : MAX_ITEM = MINIMUM_POOL_SIZE := by decide
    omega

/-! ## The slot for a key that was not found -/

theorem findEmptyOrOldestFrom_lt (t : Table) (b n : ℕ) : ∀ (l : List ℕ) (oldest distance : ℕ),
    (∀ i ∈ l, i < n) → oldest < n → findEmptyOrOldestFrom t b l oldest distance < n
  | [], _, _, _, h => h
  | i :: rest, oldest, distance, hl, h => by
    have hi := hl i (by simp)
    have hrest : ∀ j ∈ rest, j < n := fun j hj => hl j (by simp [hj])
    rw [findEmptyOrOldestFrom]
    dsimp only
    split
    · exact hi
    · split
      · exact findEmptyOrOldestFrom_lt t b n rest _ _ hrest hi
      · exact findEmptyOrOldestFrom_lt t b n rest _ _ hrest h

theorem findEmptyOrOldest_lt (t : Table) (b : ℕ) : findEmptyOrOldest t b < ITEMS_PER_BUCKET :=
  findEmptyOrOldestFrom_lt t b _ _ _ _ (fun _ hi => List.mem_range.mp hi) (by decide)

/-- The slot chosen, and that no other one has the tag. -/
theorem chosen_spec (h : TableOk fixed t log pos M) {tag : ℕ} (htag : tag ≠ 0)
    (hb : b < t.numBuckets) :
    (findSameTag t b tag).getD (findEmptyOrOldest t b) < ITEMS_PER_BUCKET ∧
      ∀ j, Busy t b j → j ≠ (findSameTag t b tag).getD (findEmptyOrOldest t b) →
        tagOf (t.itemVecs b j) ≠ tag := by
  cases hfind : findSameTag t b tag with
  | none =>
    refine ⟨findEmptyOrOldest_lt t b, fun j hj _ heq => ?_⟩
    have hno := List.find?_eq_none.mp hfind j (List.mem_range.mpr hj.index)
    exact hno (beq_iff_eq.mpr heq)
  | some i =>
    have hi := List.mem_range.mp (List.mem_of_find?_eq_some hfind)
    have hsame : tagOf (t.itemVecs b i) = tag :=
      beq_iff_eq.mp (List.find?_some (p := fun i => tagOf (t.itemVecs b i) == tag) hfind)
    have hbusy : Busy t b i := by
      refine ⟨hb, hi, fun hzero => htag ?_⟩
      rw [← hsame, hzero]
      rfl
    exact ⟨hi, fun j hj hne heq => hne (h.tags b j i hj hbusy (heq.trans hsame.symm))⟩

/-- **SET** refuses only a key that it finds and may not overwrite.  Otherwise the item of the key
    is in its bucket, and alive. -/
theorem set_spec (value : Bytes) (expireTime : UInt32) (h : TableOk fixed t log pos M)
    (hbound : t.alloc.tail + MAX_ITEM ≤ 2 ^ 63) (hk : r.keyLength ≤ MAX_KEY_LENGTH)
    (hv : valueLength ≤ MAX_VALUE_LENGTH) (hfixed : ∀ l ∈ fixed, roundup8 valueLength = l)
    (overwrite : Bool) :
    (overwrite = false ∧
      mehcachedSet t r value valueLength expireTime overwrite = some (t, false)) ∨
    ∃ t' log' pos' i o,
      mehcachedSet t r value valueLength expireTime overwrite = some (t', true) ∧
      TableOk fixed t' log' pos' (stored M r value valueLength expireTime) ∧
      Stepped t t' pos pos' (calcBucketIndex t r.keyHash.toNat) ∧
      Holds t' pos' (calcBucketIndex t r.keyHash.toNat) i o r.toKey ∧
      t'.alloc.tail ≤ o + t'.alloc.size ∧
      (mehcachedTest t r = some false →
        t'.alloc.tail = o + itemLength r.keyLength valueLength) := by
  unfold mehcachedSet mehcachedTest
  rw [if_neg (by omega), if_neg (by omega)]
  dsimp only
  cases hfind : findItemIndex t (calcBucketIndex t r.keyHash.toNat) (calcTag r.keyHash.toNat) r with
  | some i =>
    cases overwrite with
    | false => exact Or.inl ⟨rfl, rfl⟩
    | true =>
      obtain ⟨t', log', pos', o, hrun, hok, hstep, hholds, hin⟩ := setInPlace_spec value
        expireTime h hbound hk hv hfixed hfind
      refine Or.inr ⟨t', log', pos', i, o, ?_, hok, hstep, hholds, hin, by simp⟩
      simp [hrun]
  | none =>
    obtain ⟨hi, htag⟩ := chosen_spec h (calcTag_ne_zero r.keyHash.toNat)
      (h.shape.bucket_lt r.keyHash.toNat)
    obtain ⟨t', log', hrun, hok, hstep, hholds, htail⟩ := setNew_spec value
      expireTime h hbound hi hk hv hfixed htag
    refine Or.inr ⟨t', log', _, _, _, ?_, hok, hstep, hholds, ?_, fun _ => htail⟩
    · simp [hrun]
    · have hmax := (itemLength_bounds hk hv).2.2
      have hroom := h.pool.size.min
      have hsame := hstep.size
      have hmin : MAX_ITEM = MINIMUM_POOL_SIZE := by decide
      omega

/-! ## DELETE -/

/-- The map after a key was deleted. -/
def deleted (M : Key → Option Value) (r : Request) : Key → Option Value :=
  Function.update M r.toKey none

/-- **DELETE** always succeeds; a key that it does not find may have been lost before. -/
theorem delete_spec (h : TableOk fixed t log pos M) (hk : r.keyLength ≤ MAX_KEY_LENGTH) :
    mehcachedDelete t r = some (t, false) ∨
    ∃ t', mehcachedDelete t r = some (t', true) ∧ TableOk fixed t' log pos (deleted M r) ∧
      Stepped t t' pos pos (calcBucketIndex t r.keyHash.toNat) := by
  unfold mehcachedDelete
  rw [if_neg (by omega)]
  dsimp only
  cases hfind : findItemIndex t (calcBucketIndex t r.keyHash.toNat) (calcTag r.keyHash.toNat) r with
  | none => exact Or.inl rfl
  | some i =>
    obtain ⟨hbusy, htag, -⟩ := h.find_some hfind
    refine Or.inr ⟨_, rfl, ?_, stepped_empty t pos _ i⟩
    refine h.erase (erased_setItemVec t _ i) (fun b' i' hb' hin => ?_)
    refine Function.update_of_ne (fun hkey => ?_) _ _
    obtain ⟨hold, -⟩ := (erased_setItemVec t _ i).busy hb'
    -- the only live item with the key was in the slot that is now empty
    obtain ⟨rfl, rfl⟩ := h.find_unique hbusy htag hold hin hkey
    exact hb'.nonzero (setItemVec_same t _ _ 0)

/-! ## INCREMENT -/

/-- The number that a value of 8 bytes is. -/
def Value.number (v : Value) : ℕ := getLE (fun k => v.bytes.getD k 0) 0 8

/-- A number as a value. -/
def numberValue (n : ℕ) (expireTime : UInt32) : Value :=
  ⟨8, expireTime.toNat, readBytes (setLE (fun _ => 0) 0 8 n) 0 8⟩

/-- The map after an INCREMENT. -/
def incremented (M : Key → Option Value) (r : Request) (n : ℕ) (expireTime : UInt32) :
    Key → Option Value :=
  Function.update M r.toKey (some (numberValue n expireTime))

/-- The item after its number was replaced. -/
theorem increment_item (expireTime : UInt32) (item : Bytes) (n : ℕ)
    (hlen : valueLengthOf item = 8) :
    itemKey (setLE (setLE item (valueOffset item) 8 n) 12 4 expireTime.toNat) = itemKey item ∧
      itemValue (setLE (setLE item (valueOffset item) 8 n) 12 4 expireTime.toNat) =
        numberValue n expireTime ∧
      itemSize (setLE (setLE item (valueOffset item) 8 n) 12 4 expireTime.toNat) = itemSize item ∧
      Within (valueOffset item + 8) item
        (setLE (setLE item (valueOffset item) 8 n) 12 4 expireTime.toNat) := by
  have hoff : ITEM_HEADER ≤ valueOffset item := Nat.le_add_right _ _
  set item' := setLE (setLE item (valueOffset item) 8 n) 12 4 expireTime.toNat with hitem
  have hfield : ∀ off m, off + m ≤ ITEM_HEADER → (off + m ≤ 12 ∨ 16 ≤ off) →
      getLE item' off m = getLE item off m := by
    intro off m hle hd
    rw [hitem, getLE_setLE_of_disjoint _ _ (by omega), getLE_setLE_of_disjoint _ _ (by omega)]
  have hkl : keyLengthOf item' = keyLengthOf item := by
    rw [keyLengthOf, hfield 8 4 (by decide) (by omega), keyLengthOf]
  have hvl : valueLengthOf item' = 8 := by
    rw [← hlen, valueLengthOf, hfield 8 4 (by decide) (by omega), valueLengthOf]
  have hvo : valueOffset item' = valueOffset item := by
    rw [valueOffset, hkl, valueOffset]
  refine ⟨?_, ?_, hfield 0 8 (by decide) (by omega), ?_⟩
  · rw [itemKey, keyHashOf, hfield 16 8 (by decide) (by omega), hkl, hitem,
      readBytes_setLE_of_disjoint _ _ (by unfold ITEM_HEADER; omega),
      readBytes_setLE_of_disjoint _ _ (by unfold valueOffset; omega)]
    rfl
  · have hexp : expireTimeOf item' = expireTime.toNat := getLE_expire _ _
    have hnum : readBytes item' (valueOffset item) 8 =
        readBytes (setLE (fun _ => 0) 0 8 n) 0 8 := by
      rw [hitem, readBytes_setLE_of_disjoint _ _ (by unfold ITEM_HEADER at hoff; omega),
        readBytes_eq_iff]
      intro k hk
      rw [setLE_apply 8 k _ _ _ hk, setLE_apply 8 k _ _ _ hk]
    rw [itemValue, hvl, hexp, hvo, show roundup8 8 = 8 from rfl, hnum, numberValue]
  · intro k hle
    unfold ITEM_HEADER at hoff
    rw [hitem, setLE_apply_of_le _ _ _ _ (by omega), setLE_apply_of_le _ _ _ _ hle]

/-- **INCREMENT** always succeeds, and if it returns a number it is the one stored last, plus the
    increment. -/
theorem increment_spec (expireTime : UInt32) (h : TableOk fixed t log pos M)
    (hk : r.keyLength ≤ MAX_KEY_LENGTH) (increment : UInt64) :
    mehcachedIncrement t r increment expireTime = some (t, none) ∨
    ∃ t' v, M r.toKey = some v ∧ v.length = 8 ∧
      mehcachedIncrement t r increment expireTime =
        some (t', some ((v.number + increment.toNat) % 2 ^ 64)) ∧
      TableOk fixed t' log pos
        (incremented M r ((v.number + increment.toNat) % 2 ^ 64) expireTime) ∧
      Stepped t t' pos pos (calcBucketIndex t r.keyHash.toNat) := by
  unfold mehcachedIncrement
  rw [if_neg (by omega)]
  dsimp only
  cases hfind : findItemIndex t (calcBucketIndex t r.keyHash.toNat) (calcTag r.keyHash.toNat) r with
  | none => exact Or.inl rfl
  | some i =>
    obtain ⟨hbusy, htag, hkey⟩ := h.find_some hfind
    dsimp only
    rw [h.load_slot hbusy]
    set item := t.alloc.load (pos (calcBucketIndex t r.keyHash.toNat) i) with hitem
    split
    · exact Or.inl rfl
    · rename_i hvalid
      split
      · exact Or.inl rfl
      · rename_i hlen
        have hlen8 : valueLengthOf item = 8 := not_not.mp hlen
        have hin := (h.valid_iff hbusy).mp (Bool.not_eq_false _ ▸ hvalid)
        have hlive := (h.live_slot hbusy hin).1
        have hkl : keyLengthOf item = r.keyLength := congrArg Key.length hkey
        have hoff : ITEM_HEADER + roundup8 r.keyLength = valueOffset item := by
          rw [valueOffset, hkl]
        have hnumber : getLE item (valueOffset item) 8 = (itemValue item).number := by
          rw [Value.number, itemValue, hlen8]
          exact (getLE_readBytes item (valueOffset item) 8).symm
        have hM := h.contents _ i hbusy hin
        rw [← hitem, hkey] at hM
        rw [hoff, hnumber]
        set n := ((itemValue item).number + increment.toNat) % 2 ^ 64 with hn
        obtain ⟨hkey', hvalue, hsize, hwithin⟩ := increment_item expireTime item n hlen8
        set item' := setLE (setLE item (valueOffset item) 8 n) 12 4 expireTime.toNat with hitem'
        have hvl' : valueLengthOf item' = 8 := congrArg Value.length hvalue
        have hlive' := hlive.same hkey' (hvl'.trans hlen8.symm) hsize
        have hfit : valueOffset item + 8 ≤ itemSize item := by
          have hle := hlive.extent
          rw [itemExtent, hlen8] at hle
          exact hle
        obtain ⟨hok, hstep, -⟩ := h.replace (incremented M r n expireTime) hbusy hin hfit
          hwithin hsize hlive' (by rw [hkey', hkey, hvalue]; exact Function.update_self _ _ _)
          (fun key hne => Function.update_of_ne
            (fun heq => hne (heq.trans (hkey'.trans hkey).symm)) _ _)
        refine Or.inr ⟨_, itemValue item, hM, hlen8, ?_, hok, hstep⟩
        rw [(h.slot _ _ hbusy).offset, store_item h.pool.size]

end Steps

end QueueDpdk.Mehcached
