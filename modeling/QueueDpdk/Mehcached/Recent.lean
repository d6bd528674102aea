import QueueDpdk.Mehcached.Runs

/-!
# Keys that are used

A GET moves an item that is further from the end of the log than `mthThreshold` (`mehcached_get`).
The log drops the oldest item first, and so the table drops the item that was not used for longest.

* `Kept.get` — an item gets further from the end with the operations on other buckets, and comes back
  near to it with a GET.
* `Uses` — **the use of a key**: GETs, and between two of them operations on other buckets.
* `used_survives` — a key that is used is found, however far the log has grown.
-/

set_option autoImplicit false

namespace QueueDpdk.Mehcached

open Lib

section Kept

variable {fixed : Option ℕ} {t t' : Table} {r : Request} {v : Value} {back : ℕ}

/-- The bytes of the item. -/
theorem Holds.extent {log : List ℕ} {pos : ℕ → ℕ → ℕ} {M : Key → Option Value} {b i o : ℕ}
    {key : Key} (hholds : Holds t pos b i o key) (h : TableOk fixed t log pos M)
    (hin : t.alloc.tail ≤ o + t.alloc.size) (hM : M key = some v) :
    itemExtent (t.alloc.load o) = itemLength key.length v.length := by
  obtain ⟨hbusy, rfl, rfl⟩ := hholds
  have hv : itemValue (t.alloc.load (pos b i)) = v :=
    Option.some.inj ((h.contents b i hbusy hin).symm.trans hM)
  rw [← hv]
  rfl

/-- **A GET brings the item near the end of the log**: not further than the threshold, or than the
    item is long. -/
theorem Kept.get (h : Kept fixed t r v back) (hbound : t.alloc.tail + MAX_ITEM ≤ 2 ^ 63)
    {r' : Request} (hkey : r'.toKey = r.toKey) (hk : r.keyLength ≤ MAX_KEY_LENGTH)
    (outValue : Bytes) {outLength : ℕ} (hlen : outLength ≤ 1500)
    (hmoves : t.moves = false ∨ ∃ l, fixed = some l)
    (hroom : back + itemLength r.keyLength v.length ≤ t.alloc.size) :
    ∃ t' found outValue',
      mehcachedGet t r' outValue outLength false = some (t', found, outValue') ∧
      Kept fixed t' r v (max t.mthThreshold (itemLength r.keyLength v.length)) ∧
      t'.alloc.size = t.alloc.size ∧ t'.mthThreshold = t.mthThreshold ∧
      t'.numBuckets = t.numBuckets ∧ t'.alloc.tail ≤ t.alloc.tail + MAX_ITEM := by
  obtain ⟨log, pos, M, i, o, hok, hM, hholds, htail⟩ := h
  obtain ⟨hhash, hkl⟩ := request_congr hkey
  have hlong : itemExtent (t.alloc.load o) = itemLength r.keyLength v.length :=
    hholds.extent hok (by omega) hM
  have hsafe : false = true ∨ t.alloc.size ≤ t.mthThreshold ∨ ∃ l, fixed = some l :=
    Or.inr (hmoves.imp_left (fun hstay => Nat.not_lt.mp (of_decide_eq_false hstay)))
  obtain ⟨t', found, outValue', log', pos', hrun, hok', hstep, -, hhit⟩ :=
    get_spec hok hbound (hkl.trans_le hk) outValue hlen hsafe
  rw [hhash, hkey] at hhit
  obtain ⟨i', o', hholds', hnear⟩ :=
    (hhit i o hholds (by omega)).2 rfl (by rw [hlong]; omega)
  rw [hlong] at hnear
  refine ⟨t', found, outValue', hrun, ⟨log', pos', M, i', o', hok', hM, ?_, hnear⟩, hstep.size,
    hstep.mthThreshold, hstep.numBuckets, hstep.near⟩
  rw [calcBucketIndex_congr hstep.numBuckets]
  exact hholds'

end Kept

/-! ## Uses -/

/-- A key is used: GETs for it, which may write, and before each of them operations on other buckets
    with which the log grows by the pool less `room`.  The number counts all operations. -/
inductive Uses (fixed : Option ℕ) (r : Request) (room : ℕ) : Table → Table → ℕ → Prop
  | start (t : Table) : Uses fixed r room t t 0
  | use {t t1 t2 t3 : Table} {uses : ℕ} {ops : List Op} {results : List Result} {r' : Request}
      {outValue outValue' : Bytes} {outLength : ℕ} {found : Option (ℕ × ℕ)} :
      Uses fixed r room t t1 uses →
      (∀ op ∈ ops, op.Ok fixed t1.moves ∧ op.bucket t1 ≠ calcBucketIndex t1 r.keyHash.toNat) →
      runOps t1 ops = some (t2, results) →
      t2.alloc.tail + room ≤ t1.alloc.tail + t1.alloc.size →
      r'.toKey = r.toKey → outLength ≤ 1500 →
      mehcachedGet t2 r' outValue outLength false = some (t3, found, outValue') →
      Uses fixed r room t t3 (uses + (ops.length + 1))

section Uses

variable {fixed : Option ℕ} {t t1 t2 t3 : Table} {r : Request} {v : Value} {steps uses : ℕ}

/-- **A key that is used is kept** near the end of the log. -/
theorem Uses.kept {room n back : ℕ} (hn : itemLength r.keyLength v.length = n)
    (hback : max t.mthThreshold n = back) (hroom : back + n = room)
    (hk : r.keyLength ≤ MAX_KEY_LENGTH) (hmoves : t.moves = false ∨ ∃ l, fixed = some l)
    (hkept : Kept fixed t r v back) (h : Uses fixed r room t t1 uses)
    (hbound : t.alloc.tail + uses * MAX_ITEM ≤ 2 ^ 63) :
    Kept fixed t1 r v back ∧ t1.alloc.size = t.alloc.size ∧ t1.mthThreshold = t.mthThreshold ∧
      t1.alloc.tail ≤ t.alloc.tail + uses * MAX_ITEM := by
  induction h with
  | start => exact ⟨hkept, rfl, rfl, Nat.le_add_right _ _⟩
  | @use t1 t2 t3 uses ops results r' outValue outValue' outLength found _ hops hrun hfar hkey hlen
      hget ih =>
    rw [Nat.add_mul, Nat.add_mul, Nat.one_mul] at hbound
    obtain ⟨hkept1, hsize1, hthreshold1, htail1⟩ := ih (by omega)
    obtain ⟨t2', results', hrun', hsize2, hthreshold2, -, hdown2, htail2, hkept2⟩ :=
      hkept1.others (by omega) hops
    cases hrun.symm.trans hrun'
    -- The item is still there when the GET comes, and stays while room is made for the copy.
    have hstay : t2.moves = false ∨ ∃ l, fixed = some l := by
      rw [moves_congr hthreshold2 hsize2, moves_congr hthreshold1 hsize1]
      exact hmoves
    obtain ⟨t3', found', outValue'', hget', hkept3, hsize3, hthreshold3, -, htail3⟩ :=
      (hkept2 (by omega)).get (by omega) hkey hk outValue hlen hstay (by omega)
    cases hget.symm.trans hget'
    rw [hn, hthreshold2, hthreshold1, hback] at hkept3
    refine ⟨hkept3, hsize3.trans (hsize2.trans hsize1),
      hthreshold3.trans (hthreshold2.trans hthreshold1), ?_⟩
    rw [Nat.add_mul, Nat.add_mul, Nat.one_mul]
    omega

/-- **A key that is used is found.**  After a new SET, the key is used any number of times, while
    the log grows by less than the pool between two of the uses; nothing is said of how far it grows
    altogether. -/
theorem used_survives (h : Reached fixed t steps) {ops : List Op} {results : List Result}
    (hbound : (steps + uses + ops.length + 2) * MAX_ITEM ≤ 2 ^ 63) {r r' : Request}
    (hkey : r'.toKey = r.toKey) (hk : r.keyLength ≤ MAX_KEY_LENGTH) {value : Bytes}
    {valueLength n : ℕ} (hv : valueLength ≤ MAX_VALUE_LENGTH)
    (hn : itemLength r.keyLength valueLength = n)
    (hfixed : ∀ l ∈ fixed, roundup8 valueLength = l) {expireTime : UInt32} {overwrite : Bool}
    (hnew : mehcachedTest t r = some false)
    (hset : mehcachedSet t r value valueLength expireTime overwrite = some (t1, true))
    (hmoves : t.moves = false ∨ ∃ l, fixed = some l)
    (huses : Uses fixed r (max t.mthThreshold n + n) t1 t2 uses)
    (hops : ∀ op ∈ ops, op.Ok fixed t2.moves ∧ op.bucket t2 ≠ calcBucketIndex t2 r.keyHash.toNat)
    (hrun : runOps t2 ops = some (t3, results))
    (hroom : t3.alloc.tail + max t.mthThreshold n ≤ t2.alloc.tail + t.alloc.size)
    (outValue : Bytes) (outLength : ℕ) (hlen : outLength ≤ 1500) (readonly : Bool) :
    ∃ t4 outValue', mehcachedGet t3 r' outValue outLength readonly =
        some (t4, some (min valueLength outLength, expireTime.toNat), outValue') ∧
      readBytes outValue' 0 (roundup8 (min valueLength outLength)) =
        readBytes value 0 (roundup8 (min valueLength outLength)) := by
  simp only [Nat.add_mul] at hbound
  obtain ⟨hkept1, hsize1, hthreshold1, -, htail1⟩ :=
    h.set_kept (by rw [Nat.add_mul]; omega) hk hv hfixed hnew hset
  rw [Nat.add_mul] at htail1
  rw [← moves_congr hthreshold1 hsize1] at hmoves
  obtain ⟨hkept2, hsize2, hthreshold2, htail2⟩ := huses.kept hn (by rw [hthreshold1]) rfl hk hmoves
    (hkept1.mono (hn.trans_le (Nat.le_max_right _ _))) (by omega)
  have hsize := hsize2.trans hsize1
  obtain ⟨t3', results', hrun', hsize3, hthreshold3, -, hdown3, htail3, hkept3⟩ :=
    hkept2.others (by omega) hops
  cases hrun.symm.trans hrun'
  have hsafe : readonly = true ∨ t3.moves = false ∨ ∃ l, fixed = some l := by
    rw [moves_congr hthreshold3 hsize3, moves_congr hthreshold2 hsize2]
    exact Or.inr hmoves
  obtain ⟨t4, outValue', hget, hbytes⟩ :=
    (hkept3 (by omega)).found (by omega) (by omega) hkey hk outValue hlen hsafe
  exact ⟨t4, outValue', hget, hbytes.trans (callerValue_take value _ _ outLength)⟩

theorem used_survives_sample : ∃ t t1 t2 t3 t4 t5 results results' found outValue outValue',
    mehcachedSet t (sampleRequest 1 7) (fun _ => 5) 1400 0 true = some (t1, true) ∧
    runOps t1 [.set (sampleRequest 65536 8) (fun _ => 6) 1400 0 true] = some (t2, results) ∧
    mehcachedGet t2 (sampleRequest 1 7) (fun _ => 0) 1400 false = some (t3, found, outValue) ∧
    runOps t3 [.set (sampleRequest 65536 8) (fun _ => 6) 1400 0 true] = some (t4, results') ∧
    mehcachedGet t4 (sampleRequest 1 7) (fun _ => 0) 1400 true =
      some (t5, some (1400, 0), outValue') ∧
    readBytes outValue' 0 1400 = readBytes (fun _ => 5) 0 1400 := by
  obtain ⟨t, ht, hsize, hthreshold, hbuckets, hnew⟩ := sample_table
  have hreached := sample_reached (some 1400) ht
  have hother : ∀ t : Table, t.numBuckets = 2 →
      ∀ op ∈ [Op.set (sampleRequest 65536 8) (fun _ => 6) 1400 0 true], op.Ok (some 1400) t.moves ∧
        op.bucket t ≠ calcBucketIndex t (sampleRequest 1 7).keyHash.toNat := by
    intro t hbuckets op hop
    obtain rfl := List.mem_singleton.mp hop
    refine ⟨⟨by decide, by decide, fun l hl => Option.some.inj hl⟩, ?_⟩
    rw [Op.bucket, calcBucketIndex, calcBucketIndex, hbuckets]
    decide
  have hfull : ∀ l ∈ some 1400, roundup8 1400 = l := fun l hl => Option.some.inj hl
  have hlength : itemLength (sampleRequest 1 7).keyLength 1400 = 1432 := by decide
  have hitem : MAX_ITEM = 2097152 := by decide
  obtain ⟨log, pos, M, hok, htail⟩ := hreached.ok (by decide)
  obtain ⟨t1, -, -, -, -, hset, -⟩ := (set_spec (r := sampleRequest 1 7) (fun _ => 5) 0 hok
    (by rw [Nat.le_zero.mp htail]; decide) (by decide) (by decide : 1400 ≤ MAX_VALUE_LENGTH)
    hfull true).resolve_left (by simp)
  obtain ⟨hkept1, hsize1, hthreshold1, hbuckets1, htail1⟩ :=
    hreached.set_kept (by decide) (by decide) (by decide) hfull hnew hset
  rw [hlength] at hkept1
  obtain ⟨t2, results, hrun2, hsize2, hthreshold2, hbuckets2, hdown2, htail2, hkept2⟩ :=
    hkept1.others (by simp only [List.length_singleton]; omega)
      (hother t1 (hbuckets1.trans hbuckets))
  simp only [List.length_singleton] at htail2
  obtain ⟨t3, found, outValue, hget3, hkept3, hsize3, hthreshold3, hbuckets3, htail3⟩ :=
    (hkept2 (by omega)).get (by omega) rfl (by decide) (fun _ => 0) (by decide : 1400 ≤ 1500)
      (Or.inr ⟨1400, rfl⟩) (by
        show _ + itemLength (sampleRequest 1 7).keyLength 1400 ≤ _
        rw [hlength]
        omega)
  have hother3 := hother t3 (hbuckets3.trans (hbuckets2.trans (hbuckets1.trans hbuckets)))
  obtain ⟨t4, results', hrun4, -, -, -, -, htail4, -⟩ :=
    hkept3.others (by simp only [List.length_singleton]; omega) hother3
  simp only [List.length_singleton] at htail4
  have hmax : max t.mthThreshold 1432 = 1432 := by
    rw [hthreshold]
    exact Nat.zero_max _
  have huses : Uses (some 1400) (sampleRequest 1 7) (max t.mthThreshold 1432 + 1432) t1 t3 2 :=
    Uses.use (Uses.start t1) (hother t1 (hbuckets1.trans hbuckets)) hrun2
      (by rw [hmax]; omega) rfl (by decide) hget3
  obtain ⟨t5, outValue', hget5⟩ := used_survives hreached (by decide) rfl (by decide) (by decide)
    hlength hfull hnew hset (Or.inr ⟨1400, rfl⟩) huses hother3 hrun4 (by rw [hmax]; omega)
    (fun _ => 0) 1400 (by decide) true
  exact ⟨t, t1, t2, t3, t4, t5, results, results', found, outValue, outValue', hset, hrun2, hget3,
    hrun4, hget5⟩

end Uses

end QueueDpdk.Mehcached
