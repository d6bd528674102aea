import QueueDpdk.Mehcached.Table

/-!
# What holds of a table between two operations

A slot keeps 40 bits of the position of its item.  The positions themselves, 64-bit numbers that
only grow, are not in the table; the invariant has them.

* `Live` — an item that has not been overwritten, for its slot.
* `TableAt` — **the invariant**, after a number of sweeps over the buckets: items begin where slots
  point, no two slots of a bucket have the same tag, no two slots have the same item, and live items
  say what `M`, the map of what was stored last, says.
* `TableAt.valid_iff` — no position is so old that its 40 bits could be taken for a newer one.
* `find_some`, `find_none` — the search, which may also find what is left of an overwritten item.
-/

set_option autoImplicit false

namespace QueueDpdk.Mehcached

open Lib

/-- Enough for any item. -/
def MAX_ITEM : ℕ := 2 ^ 21

/-- The numbers that `mehcached_table_init` computes.  One turn over all buckets takes `2 ^ 39`
    bytes of the log. -/
structure TableShape (t : Table) : Prop where
  pow : ∃ k, t.numBuckets = 2 ^ k
  two : 2 ≤ t.numBuckets
  turn : t.numBuckets * 2 ^ t.rshift = 2 ^ 39

/-- A slot that is not empty. -/
structure Busy (t : Table) (b i : ℕ) : Prop where
  bucket : b < t.numBuckets
  index : i < ITEMS_PER_BUCKET
  nonzero : t.itemVecs b i ≠ 0

/-- An item in its slot.  If all values have the same length `fixed`, rounded up, items have no more
    room than they need. -/
structure Live (fixed : Option ℕ) (t : Table) (b tag : ℕ) (item : Bytes) : Prop where
  extent : itemExtent item ≤ itemSize item
  tight : ∀ l ∈ fixed, roundup8 (valueLengthOf item) = l ∧ itemExtent item = itemSize item
  value : valueLengthOf item ≤ MAX_VALUE_LENGTH
  bucket : calcBucketIndex t (keyHashOf item) = b
  tag : calcTag (keyHashOf item) = tag

/-- A slot whose item began at position `o`, after `sweeps` buckets were cleaned up. -/
structure SlotOk (fixed : Option ℕ) (t : Table) (log : List ℕ) (sweeps b i o : ℕ) : Prop where
  offset : itemOffsetOf (t.itemVecs b i) = o % 2 ^ 40
  starts : ∃ n, Starts log o n
  swept : ∀ s < sweeps, s % t.numBuckets = b → (s + 1) * 2 ^ t.rshift ≤ o + t.alloc.size
  live : t.alloc.tail ≤ o + t.alloc.size →
    Live fixed t b (tagOf (t.itemVecs b i)) (t.alloc.load o)

/-- **The invariant**, with the lengths of all items since the last reset, the positions of the
    slots and what was stored last for each key. -/
structure TableAt (fixed : Option ℕ) (t : Table) (log : List ℕ) (pos : ℕ → ℕ → ℕ)
    (M : Key → Option Value) (sweeps : ℕ) : Prop where
  shape : TableShape t
  pool : PoolOk t.alloc log
  slot : ∀ b i, Busy t b i → SlotOk fixed t log sweeps b i (pos b i)
  tags : ∀ b i j, Busy t b i → Busy t b j → tagOf (t.itemVecs b i) = tagOf (t.itemVecs b j) → i = j
  apart : ∀ b i b' i', Busy t b i → Busy t b' i' → pos b i = pos b' i' → b = b' ∧ i = i'
  contents : ∀ b i, Busy t b i → t.alloc.tail ≤ pos b i + t.alloc.size →
    M (itemKey (t.alloc.load (pos b i))) = some (itemValue (t.alloc.load (pos b i)))
  near : t.alloc.tail < (sweeps + 1) * 2 ^ t.rshift + MAX_ITEM

/-- Between two operations: all buckets that the log has passed are cleaned up. -/
def TableOk (fixed : Option ℕ) (t : Table) (log : List ℕ) (pos : ℕ → ℕ → ℕ)
    (M : Key → Option Value) : Prop :=
  TableAt fixed t log pos M (t.alloc.tail >>> t.rshift)

/-! ## Item vectors and hashes -/

section Vectors

variable {tag off : ℕ}

theorem mkItemVec_eq (h : off < 2 ^ 40) : mkItemVec tag off = tag * 2 ^ 48 + off := by
  rw [mkItemVec, ← Nat.shiftLeft_add_eq_or_of_lt (show off < 2 ^ 48 by omega), Nat.shiftLeft_eq]

@[simp] theorem tagOf_mk (h : off < 2 ^ 40) : tagOf (mkItemVec tag off) = tag := by
  rw [tagOf, mkItemVec_eq h, Nat.shiftRight_eq_div_pow]
  omega

@[simp] theorem itemOffsetOf_mk (h : off < 2 ^ 40) : itemOffsetOf (mkItemVec tag off) = off := by
  rw [itemOffsetOf, and_item_offset_mask, mkItemVec_eq h]
  omega

@[simp] theorem tagOf_zero : tagOf 0 = 0 := rfl

theorem calcTag_ne_zero (h : ℕ) : calcTag h ≠ 0 := by
  unfold calcTag
  dsimp only
  split
  · exact Nat.one_ne_zero
  · assumption

theorem mkItemVec_ne_zero (hoff : off < 2 ^ 40) (htag : tag ≠ 0) : mkItemVec tag off ≠ 0 := by
  intro h
  have hkeep : tagOf (mkItemVec tag off) = tag := tagOf_mk hoff
  rw [h] at hkeep
  exact htag hkeep.symm

end Vectors

/-! ## The slots of a table -/

section Slots

variable {t : Table} {b i b' i' v : ℕ}

theorem setItemVec_same (t : Table) (b i v : ℕ) : (t.setItemVec b i v).itemVecs b i = v := by
  simp [Table.setItemVec]

theorem setItemVec_of_ne (h : b' ≠ b ∨ i' ≠ i) :
    (t.setItemVec b i v).itemVecs b' i' = t.itemVecs b' i' := by
  by_cases hb : b' = b
  · subst hb
    simp [Table.setItemVec, h.resolve_left (fun hne => hne rfl)]
  · simp [Table.setItemVec, hb]

theorem TableShape.mask (h : TableShape t) (x : ℕ) :
    x &&& (t.numBuckets - 1) = x % t.numBuckets := by
  obtain ⟨k, hk⟩ := h.pow
  rw [hk, Nat.and_two_pow_sub_one_eq_mod]

theorem TableShape.bucket_lt (h : TableShape t) (hash : ℕ) :
    calcBucketIndex t hash < t.numBuckets := by
  rw [calcBucketIndex, h.mask]
  exact Nat.mod_lt _ (Nat.lt_of_lt_of_le Nat.zero_lt_two h.two)

end Slots

/-! ## How old a position can be -/

/-- The last of `sweeps` sweeps that came to a bucket. -/
theorem exists_sweep {sweeps nb b : ℕ} (hb : b < nb) (h : nb ≤ sweeps) :
    ∃ s, s < sweeps ∧ sweeps ≤ s + nb ∧ s % nb = b := by
  refine ⟨b + nb * ((sweeps - 1 - b) / nb), ?_, ?_, ?_⟩
  · have := Nat.mul_div_le (sweeps - 1 - b) nb
    omega
  · have hlt := Nat.lt_mul_div_succ (sweeps - 1 - b) (Nat.zero_lt_of_lt hb)
    rw [Nat.mul_add, Nat.mul_one] at hlt
    omega
  · rw [Nat.add_mul_mod_self_left, Nat.mod_eq_of_lt hb]

section Age

variable {fixed : Option ℕ} {t : Table} {log : List ℕ} {pos : ℕ → ℕ → ℕ} {M : Key → Option Value}
  {sweeps b i : ℕ}

/-- **No slot is a whole turn of 40 bits behind.**  A slot that old would have been cleaned up when
    its bucket was last passed. -/
theorem TableAt.young (h : TableAt fixed t log pos M sweeps) (hbusy : Busy t b i) :
    t.alloc.tail < pos b i + 2 ^ 40 := by
  have hnear := h.near
  have hturn := h.shape.turn
  have hmax := h.pool.size.max
  unfold MAX_ITEM at hnear
  rcases Nat.lt_or_ge sweeps t.numBuckets with hfirst | hlater
  · -- the first turn
    have hle : (sweeps + 1) * 2 ^ t.rshift ≤ t.numBuckets * 2 ^ t.rshift :=
      Nat.mul_le_mul_right _ hfirst
    omega
  · obtain ⟨s, hs, hlast, hmod⟩ := exists_sweep hbusy.bucket hlater
    have hswept := (h.slot b i hbusy).swept s hs hmod
    have hle : (sweeps + 1) * 2 ^ t.rshift ≤
        (s + 1) * 2 ^ t.rshift + t.numBuckets * 2 ^ t.rshift := by
      rw [← Nat.add_mul]
      exact Nat.mul_le_mul_right _ (by omega)
    omega

theorem TableAt.start_le (h : TableAt fixed t log pos M sweeps) (hbusy : Busy t b i) :
    pos b i ≤ t.alloc.tail := by
  obtain ⟨n, hn⟩ := (h.slot b i hbusy).starts
  have := hn.end_le
  rw [h.pool.tail]
  omega

theorem PoolOk.tail_lt {alloc : Pool} (h : PoolOk alloc log) : alloc.tail < 2 ^ 64 := by
  have := h.tail_le
  omega

/-- **The validity check tells the live items** from the overwritten ones. -/
theorem TableAt.valid_iff (h : TableAt fixed t log pos M sweeps) (hbusy : Busy t b i) :
    poolIsValid t.alloc (itemOffsetOf (t.itemVecs b i)) = true ↔
      t.alloc.tail ≤ pos b i + t.alloc.size := by
  rw [(h.slot b i hbusy).offset]
  exact isValid_iff h.pool.tail_lt (h.start_le hbusy) (h.young hbusy)

theorem TableAt.invalid_iff (h : TableAt fixed t log pos M sweeps) (hbusy : Busy t b i) :
    poolIsValid t.alloc (itemOffsetOf (t.itemVecs b i)) = false ↔
      pos b i + t.alloc.size < t.alloc.tail := by
  rw [← Bool.not_eq_true, h.valid_iff hbusy, Nat.not_le]

theorem TableAt.item_eq (h : TableAt fixed t log pos M sweeps) (hbusy : Busy t b i) :
    t.item (t.itemVecs b i) = t.alloc.load (pos b i) := by
  rw [Table.item, (h.slot b i hbusy).offset, load_item h.pool.size]

theorem TableAt.load_slot (h : TableAt fixed t log pos M sweeps) (hbusy : Busy t b i) :
    t.alloc.load (poolItem t.alloc (itemOffsetOf (t.itemVecs b i))) = t.alloc.load (pos b i) :=
  h.item_eq hbusy

/-! ## The search -/

variable {r : Request}

/-- What the search finds, live or not, has the tag and the key. -/
theorem TableAt.find_some (h : TableAt fixed t log pos M sweeps)
    (hfind : findItemIndex t (calcBucketIndex t r.keyHash.toNat) (calcTag r.keyHash.toNat) r =
      some i) :
    Busy t (calcBucketIndex t r.keyHash.toNat) i ∧
      tagOf (t.itemVecs (calcBucketIndex t r.keyHash.toNat) i) = calcTag r.keyHash.toNat ∧
      itemKey (t.alloc.load (pos (calcBucketIndex t r.keyHash.toNat) i)) = r.toKey := by
  have hp := List.find?_some hfind
  have hmem := List.mem_range.mp (List.mem_of_find?_eq_some hfind)
  simp only [Bool.and_eq_true, beq_iff_eq] at hp
  have hbusy : Busy t (calcBucketIndex t r.keyHash.toNat) i := by
    refine ⟨h.shape.bucket_lt _, hmem, fun hzero => ?_⟩
    rw [hzero] at hp
    exact calcTag_ne_zero _ hp.1.symm
  refine ⟨hbusy, hp.1, ?_⟩
  rw [← h.item_eq hbusy]
  exact (matches_iff _ r).mp hp.2

/-- What it does not find is not there, nor alive elsewhere. -/
theorem TableAt.find_none (h : TableAt fixed t log pos M sweeps)
    (hfind : findItemIndex t (calcBucketIndex t r.keyHash.toNat) (calcTag r.keyHash.toNat) r = none)
    (hbusy : Busy t b i) (hlive : t.alloc.tail ≤ pos b i + t.alloc.size) :
    itemKey (t.alloc.load (pos b i)) ≠ r.toKey := by
  intro hkey
  have hitem := (h.slot b i hbusy).live hlive
  have hhash : keyHashOf (t.alloc.load (pos b i)) = r.keyHash.toNat := congrArg Key.hash hkey
  have hb : calcBucketIndex t r.keyHash.toNat = b := by
    rw [← hhash]
    exact hitem.bucket
  have hno := List.find?_eq_none.mp hfind i (List.mem_range.mpr hbusy.index)
  apply hno
  rw [hb]
  simp only [Bool.and_eq_true, beq_iff_eq]
  refine ⟨?_, ?_⟩
  · rw [← hitem.tag, hhash]
  · rw [matches_iff, h.item_eq hbusy]
    exact hkey

/-- A live item with the key is the one found. -/
theorem TableAt.find_unique (h : TableAt fixed t log pos M sweeps) {j : ℕ}
    (hj : Busy t (calcBucketIndex t r.keyHash.toNat) j)
    (htag : tagOf (t.itemVecs (calcBucketIndex t r.keyHash.toNat) j) = calcTag r.keyHash.toNat)
    (hbusy : Busy t b i) (hlive : t.alloc.tail ≤ pos b i + t.alloc.size)
    (hkey : itemKey (t.alloc.load (pos b i)) = r.toKey) :
    b = calcBucketIndex t r.keyHash.toNat ∧ i = j := by
  have hitem := (h.slot b i hbusy).live hlive
  have hhash : keyHashOf (t.alloc.load (pos b i)) = r.keyHash.toNat := congrArg Key.hash hkey
  have hb : b = calcBucketIndex t r.keyHash.toNat := by
    rw [← hhash]
    exact hitem.bucket.symm
  subst hb
  refine ⟨rfl, h.tags _ i j hbusy hj ?_⟩
  rw [htag, ← hitem.tag, hhash]

end Age

end QueueDpdk.Mehcached
