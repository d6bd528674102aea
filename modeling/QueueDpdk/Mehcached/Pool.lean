import QueueDpdk.Lib.CircularLog
import QueueDpdk.Mehcached.Item

/-!
# The log-structured pool (`ported-mica/alloc_pool.c`)

Items are appended at `tail`; where there is no room the oldest ones are dropped at `head`.  The
memory is mapped twice in a row, so that an item may run over the end of it.  Positions are 64-bit
numbers, and what the pool hands out are their last 40 bits.

* `PoolOk` — the items from the first one on, which the pool itself does not keep.
* `poolAllocate_spec` — an allocation succeeds, and does not touch what is still in the pool.
* `isValid_iff` — the validity check, for positions that 40 bits can tell apart.
-/

set_option autoImplicit false

namespace QueueDpdk.Mehcached

open Lib

def ITEM_OFFSET_MASK : ℕ := (1 <<< 40) - 1

def MINIMUM_POOL_SIZE : ℕ := 2097152

/-- `struct mehcached_pool`: `data` is the shared memory that is mapped.  `ndebug` is no member of it;
    it says that the program was built with the assertions compiled out. -/
structure Pool where
  data : Bytes
  size : ℕ
  head : ℕ
  tail : ℕ
  ndebug : Bool

def Pool.mask (alloc : Pool) : ℕ := alloc.size - 1

/-- The memory from an address of the mapping on. -/
def Pool.load (alloc : Pool) (a : ℕ) : Bytes := cload alloc.data alloc.size a

/-- `n` bytes from an address of the mapping on, replaced. -/
def Pool.store (alloc : Pool) (a n : ℕ) (b : Bytes) : Pool :=
  { alloc with data := cstore alloc.data alloc.size a n b }

/-- `mehcached_pool_item`, relative to `alloc->data`. -/
def poolItem (alloc : Pool) (poolOffset : ℕ) : ℕ := poolOffset &&& alloc.mask

/-- `mehcached_shm_adjust_size`. -/
def shmAdjustSize (size : ℕ) : ℕ := (size + 2097151) / 2097152 * 2097152

/-- The loop of `mehcached_next_power_of_two`, with the number of steps left. -/
def nextPowerOfTwoFrom (v s : ℕ) : ℕ → ℕ
  | 0 => 1 <<< s
  | n + 1 => if 1 <<< s < v then nextPowerOfTwoFrom v (s + 1) n else 1 <<< s

def nextPowerOfTwo (v : ℕ) : ℕ := nextPowerOfTwoFrom v 0 64

/-- The size of a pool for which `size` bytes were asked. -/
def poolSize (size : ℕ) : ℕ :=
  nextPowerOfTwo (shmAdjustSize (if size < MINIMUM_POOL_SIZE then MINIMUM_POOL_SIZE else size))

/-- `mehcached_pool_init`, on the memory that is mapped; built as in the `Makefile`. -/
def poolInit (data : Bytes) (size : ℕ) : Option Pool :=
  let size := poolSize size
  if size ≤ ITEM_OFFSET_MASK >>> 1 ∧ size = shmAdjustSize size then
    some ⟨data, size, 0, 0, false⟩
  else none

def poolReset (alloc : Pool) : Pool := { alloc with head := 0, tail := 0 }

/-- `mehcached_pool_check_invariants`. -/
def poolCheckInvariants (alloc : Pool) : Option Pool :=
  if alloc.ndebug = true ∨ (alloc.tail + 2 ^ 64 - alloc.head) % 2 ^ 64 ≤ alloc.size then some alloc
  else none

def poolPopHead (alloc : Pool) : Option Pool :=
  let allocItem := alloc.load (poolItem alloc alloc.head)
  poolCheckInvariants { alloc with head := (alloc.head + itemSize allocItem) % 2 ^ 64 }

/-- The while loop of `mehcached_pool_push_tail`, with the number of steps left. -/
def poolPopWhile (v : ℕ) : ℕ → Pool → Option Pool
  | 0, _ => none
  | n + 1, alloc =>
    if (alloc.head + alloc.size) % 2 ^ 64 < v then (poolPopHead alloc).bind (poolPopWhile v n)
    else some alloc

/-- `mehcached_pool_push_tail`; `none` if an assertion fails or the loop does not end, which is so if
    it has not after as many steps as `head` has values. -/
def poolPushTail (alloc : Pool) (itemSize : ℕ) : Option (Pool × ℕ) :=
  if alloc.ndebug = true ∨ itemSize = roundup8 itemSize ∧ itemSize ≤ alloc.size then do
    let itemOffset := alloc.tail
    let alloc ← poolPopWhile ((itemOffset + itemSize) % 2 ^ 64) (2 ^ 64) alloc
    let a := poolItem alloc itemOffset
    let alloc := alloc.store a 8 (setLE (alloc.load a) 0 8 itemSize)
    let alloc ← poolCheckInvariants { alloc with tail := (alloc.tail + itemSize) % 2 ^ 64 }
    some (alloc, itemOffset &&& ITEM_OFFSET_MASK)
  else none

def poolAllocate (alloc : Pool) (itemSize : ℕ) : Option (Pool × ℕ) := poolPushTail alloc itemSize

def poolIsValid (alloc : Pool) (poolOffset : ℕ) : Bool :=
  decide (((alloc.tail + 2 ^ 64 - poolOffset) % 2 ^ 64 &&& ITEM_OFFSET_MASK) ≤ alloc.size)

/-! ## Sizes -/

theorem and_item_offset_mask (x : ℕ) : x &&& ITEM_OFFSET_MASK = x % 2 ^ 40 := by
  rw [ITEM_OFFSET_MASK, Nat.shiftLeft_eq, Nat.one_mul, Nat.and_two_pow_sub_one_eq_mod]

theorem nextPowerOfTwoFrom_spec (v : ℕ) :
    ∀ n s, v ≤ 2 ^ (s + n) → ∃ j, s ≤ j ∧ nextPowerOfTwoFrom v s n = 2 ^ j ∧ v ≤ 2 ^ j
  | 0, s, h => ⟨s, Nat.le_refl s, by rw [nextPowerOfTwoFrom, Nat.shiftLeft_eq, Nat.one_mul], h⟩
  | n + 1, s, h => by
    rw [nextPowerOfTwoFrom, Nat.shiftLeft_eq, Nat.one_mul]
    split
    · obtain ⟨j, hj, hr, hv⟩ := nextPowerOfTwoFrom_spec v n (s + 1) (by
        rwa [show s + 1 + n = s + (n + 1) by omega])
      exact ⟨j, by omega, hr, hv⟩
    · rename_i hge
      exact ⟨s, Nat.le_refl s, rfl, Nat.not_lt.mp hge⟩

/-- The sizes that a pool can have. -/
structure PoolSize (size : ℕ) : Prop where
  pow : ∃ j, size = 2 ^ j
  min : MINIMUM_POOL_SIZE ≤ size
  max : size ≤ 2 ^ 38

theorem PoolSize.dvd {size m : ℕ} (h : PoolSize size) (hm : 38 ≤ m) : size ∣ 2 ^ m := by
  obtain ⟨j, rfl⟩ := h.pow
  have hj : j ≤ 38 := (Nat.pow_le_pow_iff_right (by decide)).mp h.max
  exact Nat.pow_dvd_pow 2 (by omega)

theorem poolSize_pow {size : ℕ} (h : size ≤ 2 ^ 63) :
    (∃ j, poolSize size = 2 ^ j) ∧ MINIMUM_POOL_SIZE ≤ poolSize size := by
  have hsmall : ∀ small, MINIMUM_POOL_SIZE ≤ small → small ≤ 2 ^ 63 →
      (∃ j, nextPowerOfTwo (shmAdjustSize small) = 2 ^ j) ∧
        MINIMUM_POOL_SIZE ≤ nextPowerOfTwo (shmAdjustSize small) := by
    intro small hmin hmax
    have hadjust : small ≤ shmAdjustSize small ∧ shmAdjustSize small ≤ 2 ^ (0 + 64) := by
      unfold shmAdjustSize
      omega
    obtain ⟨j, -, hpow, hle⟩ := nextPowerOfTwoFrom_spec (shmAdjustSize small) 64 0 hadjust.2
    refine ⟨⟨j, hpow⟩, ?_⟩
    rw [nextPowerOfTwo, hpow]
    omega
  unfold poolSize
  split
  · exact hsmall _ (Nat.le_refl _) (by decide)
  · exact hsmall _ (by omega) h

/-- What `mehcached_pool_init` makes of a size. -/
theorem poolInit_spec {data : Bytes} {size : ℕ} {alloc : Pool} (hsize : size ≤ 2 ^ 63)
    (h : poolInit data size = some alloc) : PoolSize alloc.size ∧ alloc = poolReset alloc := by
  obtain ⟨⟨j, hpow⟩, hmin⟩ := poolSize_pow hsize
  unfold poolInit at h
  dsimp only at h
  split at h
  · rename_i hok
    cases h
    have hhalf : ITEM_OFFSET_MASK >>> 1 = 2 ^ 39 - 1 := by decide
    rw [hhalf] at hok
    have hj : j < 39 := by
      have hlt : poolSize size < 2 ^ 39 := by omega
      rw [hpow] at hlt
      exact (Nat.pow_lt_pow_iff_right (by decide)).mp hlt
    refine ⟨⟨⟨j, hpow⟩, hmin, ?_⟩, rfl⟩
    show poolSize size ≤ 2 ^ 38
    rw [hpow]
    exact Nat.pow_le_pow_right (by decide) (by omega)
  · cases h

/-! ## Positions -/

section Positions

variable {alloc : Pool} {o : ℕ}

theorem poolItem_eq (h : PoolSize alloc.size) (o : ℕ) : poolItem alloc o = o % alloc.size := by
  obtain ⟨j, hj⟩ := h.pow
  rw [poolItem, Pool.mask, hj, Nat.and_two_pow_sub_one_eq_mod]

/-- An offset and its position have the same item. -/
theorem load_item (h : PoolSize alloc.size) (o : ℕ) :
    alloc.load (poolItem alloc (o % 2 ^ 40)) = alloc.load o := by
  rw [poolItem_eq h, Pool.load, cload_mod (Nat.dvd_refl _), cload_mod (h.dvd (by decide))]
  rfl

theorem load_position (h : PoolSize alloc.size) (o : ℕ) :
    alloc.load (poolItem alloc o) = alloc.load o := by
  rw [poolItem_eq h, Pool.load, cload_mod (Nat.dvd_refl _)]
  rfl

theorem store_item (h : PoolSize alloc.size) (o n : ℕ) (b : Bytes) :
    alloc.store (poolItem alloc (o % 2 ^ 40)) n b = alloc.store o n b := by
  rw [poolItem_eq h, Pool.store, cstore_mod (Nat.dvd_refl _), cstore_mod (h.dvd (by decide))]
  rfl

theorem store_position (h : PoolSize alloc.size) (o n : ℕ) (b : Bytes) :
    alloc.store (poolItem alloc o) n b = alloc.store o n b := by
  rw [poolItem_eq h, Pool.store, cstore_mod (Nat.dvd_refl _)]
  rfl

/-- **The validity check** is exact for positions that 40 bits can tell from the tail. -/
theorem isValid_iff (htail : alloc.tail < 2 ^ 64) (ho : o ≤ alloc.tail)
    (hnear : alloc.tail < o + 2 ^ 40) :
    poolIsValid alloc (o % 2 ^ 40) = true ↔ alloc.tail ≤ o + alloc.size := by
  have hdist : (alloc.tail + 2 ^ 64 - o % 2 ^ 40) % 2 ^ 64 % 2 ^ 40 = alloc.tail - o := by omega
  rw [poolIsValid, decide_eq_true_iff, and_item_offset_mask, hdist]
  omega

end Positions

/-! ## Allocation -/

/-- **The state of a pool**: `log` has the lengths of all items since the last reset. -/
structure PoolOk (alloc : Pool) (log : List ℕ) : Prop where
  size : PoolSize alloc.size
  tail : alloc.tail = log.sum
  circular : CircularLog itemSize ITEM_HEADER alloc.data alloc.size alloc.head log
  bound : log.sum ≤ 2 ^ 63

theorem itemSize_local (b b' : Bytes) (h : ∀ k < ITEM_HEADER, b k = b' k) :
    itemSize b = itemSize b' :=
  getLE_congr 8 0 (fun k _ hk => h k (by unfold ITEM_HEADER; omega))

section Allocation

variable {alloc : Pool} {log : List ℕ} {n v : ℕ}

theorem poolReset_ok (h : PoolSize alloc.size) : PoolOk (poolReset alloc) [] where
  size := h
  tail := rfl
  circular := CircularLog.init _ _
  bound := Nat.zero_le _

theorem PoolOk.head_le (h : PoolOk alloc log) : alloc.head ≤ alloc.tail := by
  rw [h.tail]
  exact h.circular.boundary.le_sum

theorem PoolOk.tail_le (h : PoolOk alloc log) : alloc.tail ≤ 2 ^ 63 := by
  rw [h.tail]
  exact h.bound

/-- The assertion on head and tail. -/
theorem checkInvariants_eq (hle : alloc.head ≤ alloc.tail) (htail : alloc.tail < 2 ^ 64)
    (hroom : alloc.tail ≤ alloc.head + alloc.size) : poolCheckInvariants alloc = some alloc := by
  refine if_pos (Or.inr ?_)
  omega

/-- One item dropped. -/
theorem popHead_spec (h : PoolOk alloc log) (hlt : alloc.head < alloc.tail) :
    ∃ alloc', poolPopHead alloc = some alloc' ∧ PoolOk alloc' log ∧ alloc.head < alloc'.head ∧
      alloc'.data = alloc.data ∧ alloc'.size = alloc.size ∧ alloc'.tail = alloc.tail := by
  obtain ⟨m, hm, hend, hhdr, hlog⟩ := h.circular.pop (by rw [← h.tail]; exact hlt)
  rw [← h.tail] at hend
  have htail := h.tail_le
  have hpos : 0 < m := Nat.lt_of_lt_of_le (by decide) hm
  have hhead : (alloc.head + itemSize (alloc.load (poolItem alloc alloc.head))) % 2 ^ 64 =
      alloc.head + m := by
    rw [load_position h.size, Pool.load, hhdr, Nat.mod_eq_of_lt (by omega)]
  have hroom := h.circular.room
  refine ⟨{ alloc with head := alloc.head + m }, ?_, ⟨h.size, h.tail, hlog, h.bound⟩,
    Nat.lt_add_of_pos_right hpos, rfl, rfl, rfl⟩
  unfold poolPopHead
  dsimp only
  rw [hhead]
  apply checkInvariants_eq
  · exact hend
  · show alloc.tail < 2 ^ 64
    omega
  · show alloc.tail ≤ alloc.head + m + alloc.size
    rw [h.tail]
    omega

/-- **The loop ends** with room up to `v`. -/
theorem popWhile_spec (hv : v < 2 ^ 64) : ∀ (fuel : ℕ) (alloc : Pool), PoolOk alloc log → 0 < fuel →
    v ≤ alloc.tail + alloc.size → v < alloc.head + alloc.size + fuel →
    ∃ alloc', poolPopWhile v fuel alloc = some alloc' ∧ PoolOk alloc' log ∧
      v ≤ alloc'.head + alloc'.size ∧
      alloc'.data = alloc.data ∧ alloc'.size = alloc.size ∧ alloc'.tail = alloc.tail
  | 0, _, _, h0, _, _ => absurd h0 (Nat.lt_irrefl 0)
  | fuel + 1, alloc, h, _, hle, hfuel => by
    have hhead := h.head_le
    have htail := h.tail_le
    have hmax := h.size.max
    have hsum : (alloc.head + alloc.size) % 2 ^ 64 = alloc.head + alloc.size := by omega
    rw [poolPopWhile, hsum]
    split
    · rename_i hfull
      obtain ⟨next, hpop, hok, hup, hdata, hsize, htl⟩ := popHead_spec h (by omega)
      obtain ⟨last, hrun, hlast, hroom, hdata', hsize', htl'⟩ := popWhile_spec hv fuel next hok
        (by omega) (by omega) (by omega)
      refine ⟨last, ?_, hlast, hroom, hdata'.trans hdata, hsize'.trans hsize, htl'.trans htl⟩
      rw [hpop, Option.bind_some]
      exact hrun
    · exact ⟨alloc, rfl, h, by omega, rfl, rfl, rfl⟩

/-- **An allocation** always succeeds.  It returns the end of the log, and the bytes that are still
    in memory after it stay. -/
theorem poolAllocate_spec (h : PoolOk alloc log) (hmin : ITEM_HEADER ≤ n) (hdvd : 8 ∣ n)
    (hmax : n ≤ MINIMUM_POOL_SIZE) (hbound : log.sum + n ≤ 2 ^ 63) :
    ∃ alloc', poolAllocate alloc n = some (alloc', alloc.tail % 2 ^ 40) ∧
      PoolOk alloc' (log ++ [n]) ∧ alloc'.size = alloc.size ∧ alloc'.tail = alloc.tail + n ∧
      ∀ q, q < alloc.tail → alloc.tail + n ≤ q + alloc.size →
        alloc'.data (q % alloc.size) = alloc.data (q % alloc.size) := by
  have htail := h.tail
  have hsizemin := h.size.min
  have hfit : n ≤ alloc.size := hmax.trans hsizemin
  have hsizemax := h.size.max
  have hn : n < 2 ^ 22 := Nat.lt_of_le_of_lt hmax (by decide)
  have hv : (alloc.tail + n) % 2 ^ 64 = alloc.tail + n := by omega
  have hroom := h.circular.room
  obtain ⟨mid, hpop, hmid, hmidroom, hdata, hsize, htl⟩ := popWhile_spec (v := alloc.tail + n)
    (by omega) (2 ^ 64) alloc h (by decide) (by omega) (by omega)
  have hmidhead := hmid.head_le
  set b := setLE (mid.load (poolItem mid alloc.tail)) 0 8 n with hb
  refine ⟨{ mid with data := cstore mid.data mid.size alloc.tail 8 b, tail := alloc.tail + n },
    ?_, ?_, hsize, rfl, ?_⟩
  · unfold poolAllocate poolPushTail
    rw [if_pos (Or.inr ⟨(roundup8_of_dvd hdvd).symm, hfit⟩)]
    dsimp only
    rw [hv, hpop, Option.bind_eq_bind, Option.bind_some, store_position hmid.size, Pool.store,
      show (mid.tail + n) % 2 ^ 64 = alloc.tail + n by rw [htl, hv], ← hb,
      checkInvariants_eq (by dsimp only; omega) (by dsimp only; omega) hmidroom]
    dsimp only
    rw [Option.bind_some, and_item_offset_mask]
  · have hsame : ∀ q, q < alloc.tail → alloc.tail + n ≤ q + mid.size →
        cstore mid.data mid.size alloc.tail 8 b (q % mid.size) = mid.data (q % mid.size) := by
      intro q hq hin
      unfold ITEM_HEADER at hmin
      exact cstore_apply_of_far (Or.inr ⟨hq, by omega⟩)
    refine ⟨hmid.size, ?_, ?_, ?_⟩
    · show alloc.tail + n = (log ++ [n]).sum
      rw [List.sum_append, List.sum_singleton, htail]
    · refine CircularLog.push itemSize_local hmid.circular hmin ?_ ?_ ?_
      · show log.sum + n ≤ mid.head + mid.size
        rw [← htail]
        exact hmidroom
      · show itemSize (cload _ mid.size log.sum) = n
        rw [← htail]
        have height : 8 ≤ mid.size := Nat.le_trans (by decide) hmid.size.min
        have hread : getLE
            (cload (cstore mid.data mid.size alloc.tail 8 b) mid.size alloc.tail) 0 8 =
            getLE b 0 8 :=
          getLE_congr 8 0 (fun k _ hk => cload_cstore (by omega) height)
        rw [itemSize, hread, hb, getLE_setLE 8 _ 0 n (by omega)]
      · rw [← htail]
        exact hsame
    · rw [List.sum_append, List.sum_singleton]
      exact hbound
  · intro q hq hin
    have hkeep : cstore mid.data mid.size alloc.tail 8 b (q % mid.size) = mid.data (q % mid.size) :=
      cstore_apply_of_far (Or.inr ⟨hq, by unfold ITEM_HEADER at hmin; omega⟩)
    rw [hsize] at hkeep
    rw [← hdata, ← hkeep, hsize]

end Allocation

end QueueDpdk.Mehcached
