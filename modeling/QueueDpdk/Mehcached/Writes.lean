import QueueDpdk.Mehcached.Cleanup

/-!
# Writing items

* `PoolOk.store` — a write to an item of the log leaves the others alone.
* `TableAt.grow` — an allocation, for which items may have been dropped.
* `TableAt.put` — an item of the log written and a slot pointed to it, which is all that happens to
  a table besides allocating and emptying slots.
* `Holds` — a slot with the item of a key, at a position; what the three leave of it.
-/

set_option autoImplicit false

namespace QueueDpdk.Mehcached

open Lib

section Pools

variable {alloc : Pool} {log : List ℕ} {o n m : ℕ} {b : Bytes}

/-- The items of a log are not empty. -/
theorem PoolOk.pos (h : PoolOk alloc log) : ∀ m ∈ log, 0 < m :=
  fun m hm => Nat.lt_of_lt_of_le (by decide) (h.circular.width m hm)

theorem PoolOk.itemSize_eq (h : PoolOk alloc log) (hs : Starts log o n)
    (hin : alloc.tail ≤ o + alloc.size) : itemSize (alloc.load o) = n := by
  rw [h.tail] at hin
  exact h.circular.header o n hs hin

/-- An item that has not been overwritten fits into the memory. -/
theorem PoolOk.fits (h : PoolOk alloc log) (hs : Starts log o n)
    (hin : alloc.tail ≤ o + alloc.size) : n ≤ alloc.size ∧ o + n ≤ alloc.tail := by
  have hend := hs.end_le
  rw [← h.tail] at hend
  exact ⟨by omega, hend⟩

/-- **A write to an item** is seen there and at no other item. -/
theorem PoolOk.store (h : PoolOk alloc log) (hs : Starts log o n)
    (hin : alloc.tail ≤ o + alloc.size) (hm : m ≤ n) (hw : Within m (alloc.load o) b)
    (hsize : itemSize b = itemSize (alloc.load o)) :
    PoolOk (alloc.store o m b) log ∧
      (∀ k < alloc.size, (alloc.store o m b).load o k = b k) ∧
      ∀ o' n', Starts log o' n' → o' ≠ o → alloc.tail ≤ o' + alloc.size →
        ∀ k < n', (alloc.store o m b).load o' k = alloc.load o' k := by
  obtain ⟨hfit, hend⟩ := h.fits hs hin
  have hself : ∀ k < alloc.size, (alloc.store o m b).load o k = b k := by
    intro k hk
    rcases Nat.lt_or_ge k m with hlt | hge
    · exact cload_cstore hlt (hm.trans hfit)
    · rw [hw k hge]
      exact cload_cstore_of_far (Or.inl ⟨by omega, by omega⟩)
  have hother : ∀ o' n', Starts log o' n' → o' ≠ o → alloc.tail ≤ o' + alloc.size →
      ∀ k < n', (alloc.store o m b).load o' k = alloc.load o' k := by
    intro o' n' hs' hne hin' k hk
    obtain ⟨-, hend'⟩ := h.fits hs' hin'
    apply cload_cstore_of_far
    rcases Nat.lt_or_gt_of_ne hne with hlt | hgt
    · have := hs'.disjoint hs hlt
      omega
    · have := hs.disjoint hs' hgt
      omega
  refine ⟨⟨h.size, h.tail, ?_, h.bound⟩, hself, hother⟩
  refine h.circular.frame (fun o' n' hs' hin' => ?_)
  have hn : ITEM_HEADER ≤ n := h.circular.width n hs.mem
  have hn' : ITEM_HEADER ≤ n' := h.circular.width n' hs'.mem
  rw [← h.tail] at hin'
  by_cases hne : o' = o
  · subst hne
    refine (itemSize_local _ _ (fun k hk => ?_)).trans hsize
    exact hself k (by omega)
  · exact itemSize_local _ _ (fun k hk => hother o' n' hs' hne hin' k (by omega))

end Pools

/-- The slot has the item of a key, which begins at position `o`. -/
structure Holds (t : Table) (pos : ℕ → ℕ → ℕ) (b i o : ℕ) (key : Key) : Prop where
  busy : Busy t b i
  pos : pos b i = o
  key : itemKey (t.alloc.load o) = key

/-- The positions after a slot was pointed to another item. -/
def setPos (pos : ℕ → ℕ → ℕ) (b i o : ℕ) : ℕ → ℕ → ℕ :=
  Function.update pos b (Function.update (pos b) i o)

section Tables

variable {fixed : Option ℕ} {t t' : Table} {log : List ℕ} {pos : ℕ → ℕ → ℕ}
  {M M' : Key → Option Value} {sweeps b i b' i' o n m v : ℕ} {item : Bytes} {key : Key}

theorem setPos_same (pos : ℕ → ℕ → ℕ) (b i o : ℕ) : setPos pos b i o b i = o := by
  simp [setPos]

theorem setPos_of_ne (h : b' ≠ b ∨ i' ≠ i) : setPos pos b i o b' i' = pos b' i' := by
  by_cases hb : b' = b
  · subst hb
    simp [setPos, h.resolve_left (fun hne => hne rfl)]
  · simp [setPos, hb]

/-- A live slot, its item and the length of it. -/
theorem TableAt.live_slot (h : TableAt fixed t log pos M sweeps) (hbusy : Busy t b i)
    (hin : t.alloc.tail ≤ pos b i + t.alloc.size) :
    Live fixed t b (tagOf (t.itemVecs b i)) (t.alloc.load (pos b i)) ∧
      Starts log (pos b i) (itemSize (t.alloc.load (pos b i))) := by
  obtain ⟨n, hn⟩ := (h.slot b i hbusy).starts
  refine ⟨(h.slot b i hbusy).live hin, ?_⟩
  rw [h.pool.itemSize_eq hn hin]
  exact hn

/-- An item with the same key and lengths. -/
theorem Live.same {tag : ℕ} {item' : Bytes} (h : Live fixed t b tag item)
    (hkey : itemKey item' = itemKey item) (hlen : valueLengthOf item' = valueLengthOf item)
    (hsize : itemSize item' = itemSize item) : Live fixed t b tag item' := by
  have hhash : keyHashOf item' = keyHashOf item := congrArg Key.hash hkey
  have hkl : keyLengthOf item' = keyLengthOf item := congrArg Key.length hkey
  have hextent : itemExtent item' = itemExtent item := by
    rw [itemExtent, itemExtent, valueOffset, valueOffset, hkl, hlen]
  refine ⟨?_, ?_, ?_, ?_, ?_⟩
  · rw [hextent, hsize]
    exact h.extent
  · rw [hextent, hsize, hlen]
    exact h.tight
  · rw [hlen]
    exact h.value
  · rw [hhash]
    exact h.bucket
  · rw [hhash]
    exact h.tag

/-- An item seen through another memory. -/
theorem Live.transport {tag : ℕ} {item' : Bytes} (h : Live fixed t b tag item)
    (hsame : ∀ k < itemExtent item, item' k = item k) : Live fixed t b tag item' := by
  obtain ⟨hkey, hvalue, hsize, -⟩ := item_congr hsame
  exact h.same hkey (congrArg Value.length hvalue) hsize

theorem Busy.of_alloc {alloc' : Pool} (h : Busy { t with alloc := alloc' } b i) : Busy t b i :=
  ⟨h.bucket, h.index, h.nonzero⟩

/-! ## Allocating -/

section Growing

variable {alloc' : Pool}

/-- The bytes of live items after an allocation. -/
theorem TableAt.grow_same (h : TableAt fixed t log pos M sweeps)
    (hsize : alloc'.size = t.alloc.size)
    (hdata : ∀ q, q < t.alloc.tail → alloc'.tail ≤ q + t.alloc.size →
      alloc'.data (q % t.alloc.size) = t.alloc.data (q % t.alloc.size))
    (htail : t.alloc.tail ≤ alloc'.tail) (hbusy : Busy t b i)
    (hin : alloc'.tail ≤ pos b i + t.alloc.size) :
    ∀ k < itemExtent (t.alloc.load (pos b i)),
      alloc'.load (pos b i) k = t.alloc.load (pos b i) k := by
  intro k hk
  obtain ⟨hlive, hs⟩ := h.live_slot hbusy (by omega)
  have hend := (h.pool.fits hs (by omega)).2
  have hextent := hlive.extent
  rw [Pool.load, cload, hsize]
  exact hdata (pos b i + k) (by omega) (by omega)

/-- **An allocation** keeps the invariant, except that the buckets that the log passes are not yet
    cleaned up. -/
theorem TableAt.grow (h : TableAt fixed t log pos M sweeps)
    (hnear : t.alloc.tail < (sweeps + 1) * 2 ^ t.rshift) (hn : n ≤ MAX_ITEM)
    (hpool : PoolOk alloc' (log ++ [n])) (hsize : alloc'.size = t.alloc.size)
    (htail : alloc'.tail = t.alloc.tail + n)
    (hdata : ∀ q, q < t.alloc.tail → t.alloc.tail + n ≤ q + t.alloc.size →
      alloc'.data (q % t.alloc.size) = t.alloc.data (q % t.alloc.size)) :
    TableAt fixed { t with alloc := alloc' } (log ++ [n]) pos M sweeps := by
  rw [← htail] at hdata
  have hle : t.alloc.tail ≤ alloc'.tail := by omega
  refine ⟨h.shape.congr rfl rfl, hpool, ?_, ?_, ?_, ?_, ?_⟩
  · intro b i hbusy
    have hslot := h.slot b i hbusy.of_alloc
    refine ⟨hslot.offset, ?_, ?_, ?_⟩
    · obtain ⟨m, hm⟩ := hslot.starts
      exact ⟨m, hm.snoc n⟩
    · dsimp only
      rw [hsize]
      exact hslot.swept
    · dsimp only
      intro hin
      rw [hsize] at hin
      have hlive := hslot.live (by omega)
      have hsame := h.grow_same hsize hdata hle hbusy.of_alloc hin
      exact (hlive.transport hsame).congr rfl
  · exact fun b i j hi hj htag => h.tags b i j hi.of_alloc hj.of_alloc htag
  · exact fun b i b' i' hb hb' hpos => h.apart b i b' i' hb.of_alloc hb'.of_alloc hpos
  · intro b i hbusy
    dsimp only
    rw [hsize]
    intro hin
    obtain ⟨hkey, hvalue, -, -⟩ := item_congr (h.grow_same hsize hdata hle hbusy.of_alloc hin)
    rw [hkey, hvalue]
    exact h.contents b i hbusy.of_alloc (by omega)
  · dsimp only
    omega

theorem TableAt.grow_holds (h : TableAt fixed t log pos M sweeps)
    (hsize : alloc'.size = t.alloc.size)
    (hdata : ∀ q, q < t.alloc.tail → alloc'.tail ≤ q + t.alloc.size →
      alloc'.data (q % t.alloc.size) = t.alloc.data (q % t.alloc.size))
    (htail : t.alloc.tail ≤ alloc'.tail) (hholds : Holds t pos b i o key)
    (hin : alloc'.tail ≤ o + t.alloc.size) : Holds { t with alloc := alloc' } pos b i o key := by
  obtain ⟨hbusy, rfl, hkey⟩ := hholds
  refine ⟨⟨hbusy.bucket, hbusy.index, hbusy.nonzero⟩, rfl, ?_⟩
  rw [← hkey]
  exact (item_congr (h.grow_same hsize hdata htail hbusy hin)).1

end Growing

/-! ## Placing -/

/-- `item` is written to the item at `o`, and the slot is pointed to it. -/
def placed (t : Table) (b i o m v : ℕ) (item : Bytes) : Table :=
  { t with alloc := t.alloc.store o m item }.setItemVec b i v

theorem placed_vec_same : (placed t b i o m v item).itemVecs b i = v := setItemVec_same _ b i v

theorem placed_vec_of_ne (h : b' ≠ b ∨ i' ≠ i) :
    (placed t b i o m v item).itemVecs b' i' = t.itemVecs b' i' := setItemVec_of_ne h

theorem Busy.of_placed (h : Busy (placed t b i o m v item) b' i') (hne : b' ≠ b ∨ i' ≠ i) :
    Busy t b' i' := by
  refine ⟨h.bucket, h.index, ?_⟩
  have hkeep : (placed t b i o m v item).itemVecs b' i' = t.itemVecs b' i' := placed_vec_of_ne hne
  rw [← hkeep]
  exact h.nonzero

/-- What has to be known of the item and the slot. -/
structure Placing (fixed : Option ℕ) (t : Table) (log : List ℕ) (pos : ℕ → ℕ → ℕ) (sweeps : ℕ)
    (b i o n m v : ℕ) (item : Bytes) : Prop where
  starts : Starts log o n
  recent : t.alloc.tail ≤ o + t.alloc.size
  extent : m ≤ n
  within : Within m (t.alloc.load o) item
  size : itemSize item = itemSize (t.alloc.load o)
  offset : itemOffsetOf v = o % 2 ^ 40
  swept : ∀ s < sweeps, s % t.numBuckets = b → (s + 1) * 2 ^ t.rshift ≤ o + t.alloc.size
  live : Live fixed t b (tagOf v) item
  fresh : ∀ b' i', Busy t b' i' → (b' ≠ b ∨ i' ≠ i) → pos b' i' ≠ o
  tag : ∀ j, Busy t b j → j ≠ i → tagOf (t.itemVecs b j) ≠ tagOf v

section Putting

variable (h : TableAt fixed t log pos M sweeps)
  (hp : Placing fixed t log pos sweeps b i o n m v item)

include h hp

/-- The item is there. -/
theorem Placing.self : ∀ k < itemExtent item, (t.alloc.store o m item).load o k = item k := by
  intro k hk
  have hfit := (h.pool.fits hp.starts hp.recent).1
  have hle := hp.live.extent
  rw [hp.size, h.pool.itemSize_eq hp.starts hp.recent] at hle
  exact (h.pool.store hp.starts hp.recent hp.extent hp.within hp.size).2.1 k (by omega)

/-- The other items stay. -/
theorem Placing.others (hbusy : Busy t b' i') (hne : b' ≠ b ∨ i' ≠ i)
    (hin : t.alloc.tail ≤ pos b' i' + t.alloc.size) :
    ∀ k < itemExtent (t.alloc.load (pos b' i')),
      (t.alloc.store o m item).load (pos b' i') k = t.alloc.load (pos b' i') k := by
  intro k hk
  obtain ⟨hlive, hs⟩ := h.live_slot hbusy hin
  exact (h.pool.store hp.starts hp.recent hp.extent hp.within hp.size).2.2 _ _ hs
    (hp.fresh b' i' hbusy hne) hin k (Nat.lt_of_lt_of_le hk hlive.extent)

/-- Another live item does not have the key of the one placed. -/
theorem Placing.key_ne (hbusy : Busy t b' i') (hne : b' ≠ b ∨ i' ≠ i)
    (hin : t.alloc.tail ≤ pos b' i' + t.alloc.size) :
    itemKey (t.alloc.load (pos b' i')) ≠ itemKey item := by
  intro hkey
  have hhash : keyHashOf (t.alloc.load (pos b' i')) = keyHashOf item := congrArg Key.hash hkey
  have hlive := (h.live_slot hbusy hin).1
  have hb : b' = b := by
    rw [← hlive.bucket, ← hp.live.bucket, hhash]
  subst hb
  refine hp.tag i' hbusy (hne.resolve_left (fun hno => hno rfl)) ?_
  rw [← hlive.tag, ← hp.live.tag, hhash]

/-- **Writing an item and pointing a slot to it** keeps the invariant, for the map with the new
    value. -/
theorem TableAt.put (hb : b < t.numBuckets)
    (hM : M' (itemKey item) = some (itemValue item))
    (hM' : ∀ key, key ≠ itemKey item → M' key = M key) :
    TableAt fixed (placed t b i o m v item) log (setPos pos b i o) M' sweeps := by
  have hself := hp.self h
  refine ⟨h.shape.congr rfl rfl, ?_, ?_, ?_, ?_, ?_, h.near⟩
  · exact (h.pool.store hp.starts hp.recent hp.extent hp.within hp.size).1
  · intro b' i' hbusy
    by_cases hsame : b' = b ∧ i' = i
    · obtain ⟨rfl, rfl⟩ := hsame
      rw [setPos_same]
      refine ⟨?_, ⟨n, hp.starts⟩, hp.swept, fun _ => ?_⟩
      · rw [placed_vec_same]
        exact hp.offset
      · rw [placed_vec_same]
        exact (hp.live.transport hself).congr rfl
    · have hne : b' ≠ b ∨ i' ≠ i := by omega
      have hold := hbusy.of_placed hne
      have hslot := h.slot b' i' hold
      rw [setPos_of_ne hne]
      refine ⟨?_, hslot.starts, hslot.swept, fun hin => ?_⟩
      · rw [placed_vec_of_ne hne]
        exact hslot.offset
      · rw [placed_vec_of_ne hne]
        exact ((hslot.live hin).transport (hp.others h hold hne hin)).congr rfl
  · intro b' i' j hi hj htag
    by_cases hb' : b' = b
    · subst hb'
      by_cases hi' : i' = i
      · by_cases hj' : j = i
        · rw [hi', hj']
        · subst hi'
          rw [placed_vec_same, placed_vec_of_ne (Or.inr hj')] at htag
          exact absurd htag.symm (hp.tag j (hj.of_placed (Or.inr hj')) hj')
      · by_cases hj' : j = i
        · subst hj'
          rw [placed_vec_same, placed_vec_of_ne (Or.inr hi')] at htag
          exact absurd htag (hp.tag i' (hi.of_placed (Or.inr hi')) hi')
        · rw [placed_vec_of_ne (Or.inr hi'), placed_vec_of_ne (Or.inr hj')] at htag
          exact h.tags b' i' j (hi.of_placed (Or.inr hi')) (hj.of_placed (Or.inr hj')) htag
    · rw [placed_vec_of_ne (Or.inl hb'), placed_vec_of_ne (Or.inl hb')] at htag
      exact h.tags b' i' j (hi.of_placed (Or.inl hb')) (hj.of_placed (Or.inl hb')) htag
  · intro b1 i1 b2 i2 h1 h2 hpos
    by_cases hs1 : b1 = b ∧ i1 = i
    · by_cases hs2 : b2 = b ∧ i2 = i
      · omega
      · have hne : b2 ≠ b ∨ i2 ≠ i := by omega
        obtain ⟨rfl, rfl⟩ := hs1
        rw [setPos_same, setPos_of_ne hne] at hpos
        exact absurd hpos.symm (hp.fresh b2 i2 (h2.of_placed hne) hne)
    · have hne1 : b1 ≠ b ∨ i1 ≠ i := by omega
      by_cases hs2 : b2 = b ∧ i2 = i
      · obtain ⟨rfl, rfl⟩ := hs2
        rw [setPos_same, setPos_of_ne hne1] at hpos
        exact absurd hpos (hp.fresh b1 i1 (h1.of_placed hne1) hne1)
      · have hne2 : b2 ≠ b ∨ i2 ≠ i := by omega
        rw [setPos_of_ne hne1, setPos_of_ne hne2] at hpos
        exact h.apart b1 i1 b2 i2 (h1.of_placed hne1) (h2.of_placed hne2) hpos
  · intro b' i' hbusy hin
    by_cases hsame : b' = b ∧ i' = i
    · obtain ⟨rfl, rfl⟩ := hsame
      obtain ⟨hkey, hvalue, -, -⟩ := item_congr hself
      rw [setPos_same]
      show M' (itemKey ((t.alloc.store o m item).load o)) = _
      rw [hkey, hM]
      exact congrArg some hvalue.symm
    · have hne : b' ≠ b ∨ i' ≠ i := by omega
      have hold := hbusy.of_placed hne
      rw [setPos_of_ne hne] at hin ⊢
      obtain ⟨hkey, hvalue, -, -⟩ := item_congr (hp.others h hold hne hin)
      show M' (itemKey ((t.alloc.store o m item).load (pos b' i'))) =
        some (itemValue ((t.alloc.store o m item).load (pos b' i')))
      rw [hkey, hvalue, hM' _ (hp.key_ne h hold hne hin)]
      exact h.contents b' i' hold hin

theorem Placing.holds {o' : ℕ} (hne : b' ≠ b ∨ i' ≠ i) (hholds : Holds t pos b' i' o' key)
    (hin : t.alloc.tail ≤ o' + t.alloc.size) :
    Holds (placed t b i o m v item) (setPos pos b i o) b' i' o' key := by
  obtain ⟨hbusy, rfl, hkey⟩ := hholds
  refine ⟨⟨hbusy.bucket, hbusy.index, ?_⟩, setPos_of_ne hne, ?_⟩
  · rw [placed_vec_of_ne hne]
    exact hbusy.nonzero
  · rw [← hkey]
    exact (item_congr (hp.others h hbusy hne hin)).1

/-- The slot then has the item. -/
theorem Placing.holds_new (hb : b < t.numBuckets) (hi : i < ITEMS_PER_BUCKET) (hv : v ≠ 0) :
    Holds (placed t b i o m v item) (setPos pos b i o) b i o (itemKey item) := by
  refine ⟨⟨hb, hi, ?_⟩, setPos_same pos b i o, (item_congr (hp.self h)).1⟩
  rw [placed_vec_same]
  exact hv

end Putting

end Tables

end QueueDpdk.Mehcached
