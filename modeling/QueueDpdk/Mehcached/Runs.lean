import QueueDpdk.Mehcached.Get

/-!
# Runs of the table

A table is used by GETs, SETs, DELETEs and INCREMENTs in any order.  It may forget items at any
time, and is otherwise a map.

* `Op`, `runOps` — the operations, one after the other.
* `Allowed`, `after`, `Lossy` — **what the table is for**: a map that may lose what was stored, as a
  condition on what the operations return.
* `tableInit_spec`, `run_spec` — a new table, and one operation; `runOps_spec` — all of them.
* `runOps_lossy` — every run ends, no assertion fails, and its results are those of a lossy map.
* `Kept` — an item that is near the end of the log; `Kept.others` and `Kept.found` say what other
  operations and a GET make of it.
* `set_get` — a value that was just stored is found.
* `inserted_survives` — a new item is found as long as the log has not come round to it.
* `slots_apart` — what the slots of a table say, after any run.
-/

set_option autoImplicit false

namespace QueueDpdk.Mehcached

open Lib

/-- An operation, with what the caller passes. -/
inductive Op
  | get (r : Request) (outValue : Bytes) (outLength : ℕ) (readonly : Bool)
  | test (r : Request)
  | set (r : Request) (value : Bytes) (valueLength : ℕ) (expireTime : UInt32) (overwrite : Bool)
  | delete (r : Request)
  | increment (r : Request) (increment : UInt64) (expireTime : UInt32)

/-- What an operation returns. -/
inductive Result
  | got (found : Option (ℕ × ℕ)) (outValue : Bytes)
  | done (ok : Bool)
  | number (newValue : Option ℕ)

def Op.run (t : Table) : Op → Option (Table × Result)
  | .get r outValue outLength readonly =>
    (mehcachedGet t r outValue outLength readonly).map (fun x => (x.1, .got x.2.1 x.2.2))
  | .test r => (mehcachedTest t r).map (fun ok => (t, .done ok))
  | .set r value valueLength expireTime overwrite =>
    (mehcachedSet t r value valueLength expireTime overwrite).map (fun x => (x.1, .done x.2))
  | .delete r => (mehcachedDelete t r).map (fun x => (x.1, .done x.2))
  | .increment r n expireTime =>
    (mehcachedIncrement t r n expireTime).map (fun x => (x.1, .number x.2))

/-- A sequence of operations and what each of them returns. -/
def runOps : Table → List Op → Option (Table × List Result)
  | t, [] => some (t, [])
  | t, op :: rest => do
    let (t, result) ← op.run t
    let (t, results) ← runOps t rest
    some (t, result :: results)

def Op.request : Op → Request
  | .get r _ _ _ => r
  | .test r => r
  | .set r _ _ _ _ => r
  | .delete r => r
  | .increment r _ _ => r

def Op.bucket (t : Table) (op : Op) : ℕ := calcBucketIndex t op.request.keyHash.toNat

/-! ## Lossy maps -/

/-- What is stored after an operation, from what it returned. -/
def after (M : Key → Option Value) : Op → Result → Key → Option Value
  | .set r value valueLength expireTime _, .done true => stored M r value valueLength expireTime
  | .delete r, .done true => deleted M r
  | .increment r _ expireTime, .number (some n) => incremented M r n expireTime
  | _, _ => M

/-- What an operation may return.  A GET may miss, and so may an INCREMENT, but what they find is
    what was stored last; a SET may be refused only if it must not overwrite. -/
def Allowed (M : Key → Option Value) : Op → Result → Prop
  | .get r _ outLength _, .got found outValue => ∀ len expire, found = some (len, expire) →
      ∃ v, M r.toKey = some v ∧ len = min v.length outLength ∧ expire = v.expire ∧
        readBytes outValue 0 (roundup8 len) = v.bytes.take (roundup8 len)
  | .test _, .done _ => True
  | .set _ _ _ _ overwrite, .done ok => ok = false → overwrite = false
  | .delete _, .done _ => True
  | .increment r increment _, .number newValue => ∀ n, newValue = some n →
      ∃ v, M r.toKey = some v ∧ v.length = 8 ∧ n = (v.number + increment.toNat) % 2 ^ 64
  | _, _ => False

/-- The results of a lossy map. -/
def Lossy : (Key → Option Value) → List Op → List Result → Prop
  | _, [], [] => True
  | M, op :: ops, result :: results => Allowed M op result ∧ Lossy (after M op result) ops results
  | _, _, _ => False

/-- What the callers have to see to.  A GET that moves items needs items without room to spare: all
    values of one length, rounded up. -/
def Op.Ok (fixed : Option ℕ) (moves : Bool) : Op → Prop
  | .get r _ outLength readonly => r.keyLength ≤ MAX_KEY_LENGTH ∧ outLength ≤ 1500 ∧
      (readonly = true ∨ moves = false ∨ ∃ l, fixed = some l)
  | .test r => r.keyLength ≤ MAX_KEY_LENGTH
  | .set r _ valueLength _ _ => r.keyLength ≤ MAX_KEY_LENGTH ∧ valueLength ≤ MAX_VALUE_LENGTH ∧
      ∀ l ∈ fixed, roundup8 valueLength = l
  | .delete r => r.keyLength ≤ MAX_KEY_LENGTH
  | .increment r _ _ => r.keyLength ≤ MAX_KEY_LENGTH

/-- A GET may move items, unless the threshold is the whole pool. -/
def Table.moves (t : Table) : Bool := decide (t.mthThreshold < t.alloc.size)

/-! ## New tables -/

section New

theorem nextPowerOfTwoFrom_le {v m : ℕ} (hv : v ≤ 2 ^ m) :
    ∀ n s, s ≤ m → nextPowerOfTwoFrom v s n ≤ 2 ^ m
  | 0, s, hs => by
    rw [nextPowerOfTwoFrom, Nat.shiftLeft_eq, Nat.one_mul]
    exact Nat.pow_le_pow_right (by decide) hs
  | n + 1, s, hs => by
    rw [nextPowerOfTwoFrom, Nat.shiftLeft_eq, Nat.one_mul]
    split
    · rename_i hlt
      have hsm : s < m := (Nat.pow_lt_pow_iff_right (by decide)).mp (Nat.lt_of_lt_of_le hlt hv)
      exact nextPowerOfTwoFrom_le hv n (s + 1) hsm
    · exact Nat.pow_le_pow_right (by decide) hs

/-- A turn over all buckets takes half of what 40 bits can tell apart. -/
theorem rshiftFrom_spec {k : ℕ} (hk : k ≤ 39) :
    ∀ n s, s ≤ 39 - k → 39 - k ≤ s + n → rshiftFrom (2 ^ k) s n = 39 - k
  | 0, s, hs, hn => by
    rw [rshiftFrom]
    omega
  | n + 1, s, hs, hn => by
    have hhalf : ((ITEM_OFFSET_MASK + 1) >>> 1) >>> s = 2 ^ (39 - s) := by
      rw [show (ITEM_OFFSET_MASK + 1) >>> 1 = 2 ^ 39 from rfl, Nat.shiftRight_eq_div_pow,
        Nat.pow_div (by omega) (by decide)]
    rw [rshiftFrom, hhalf]
    split
    · rename_i hlt
      have hlt' : k < 39 - s := (Nat.pow_lt_pow_iff_right (by decide)).mp hlt
      exact rshiftFrom_spec hk n (s + 1) (by omega) (by omega)
    · rename_i hge
      by_contra hne
      exact hge (Nat.pow_lt_pow_right (by decide) (by omega))

/-- **A new table**, with at least two buckets. -/
theorem tableInit_spec {data : Bytes} {numBuckets size mthThreshold : ℕ} {t : Table}
    (hmin : 2 ≤ numBuckets) (hmax : numBuckets ≤ 2 ^ 31) (hsize : size ≤ 2 ^ 63)
    (h : tableInit data numBuckets size mthThreshold = some t) (fixed : Option ℕ) :
    TableOk fixed t [] (fun _ _ => 0) (fun _ => none) ∧ t.alloc.tail = 0 := by
  obtain ⟨k, -, hpow, hle⟩ := nextPowerOfTwoFrom_spec numBuckets 64 0 (by omega)
  have hup : nextPowerOfTwoFrom numBuckets 0 64 ≤ 2 ^ 31 :=
    nextPowerOfTwoFrom_le hmax 64 0 (Nat.zero_le _)
  have hk : k ≤ 31 := by
    rw [hpow] at hup
    exact (Nat.pow_le_pow_iff_right (by decide)).mp hup
  rw [hpow] at hup
  unfold tableInit at h
  rw [if_neg (by omega)] at h
  dsimp only at h
  rw [nextPowerOfTwo, hpow, if_pos (hup.trans (by decide)),
    Nat.mod_eq_of_lt (show 2 ^ k < 2 ^ 32 by omega), Option.bind_eq_bind,
    Option.bind_eq_some_iff] at h
  obtain ⟨alloc, halloc, ht⟩ := h
  cases ht
  obtain ⟨hpool, -⟩ := poolInit_spec hsize halloc
  refine ⟨⟨⟨⟨k, rfl⟩, ?_, ?_⟩, poolReset_ok hpool, ?_, ?_, ?_, ?_, ?_⟩, rfl⟩
  · exact hmin.trans hle
  · show 2 ^ k * 2 ^ rshiftFrom (2 ^ k) 0 40 = 2 ^ 39
    rw [rshiftFrom_spec (by omega) 40 0 (by omega) (by omega), ← Nat.pow_add]
    congr 1
    omega
  · exact fun b i hbusy => absurd rfl hbusy.nonzero
  · exact fun b i j hbusy => absurd rfl hbusy.nonzero
  · exact fun b i b' i' hbusy => absurd rfl hbusy.nonzero
  · exact fun b i hbusy => absurd rfl hbusy.nonzero
  · show 0 < _
    exact Nat.lt_of_lt_of_le (by decide : 0 < MAX_ITEM) (Nat.le_add_left _ _)

end New

/-! ## One operation -/

section Steps

variable {fixed : Option ℕ} {t t' : Table} {log : List ℕ} {pos : ℕ → ℕ → ℕ}
  {M : Key → Option Value} {op : Op} {result : Result}

theorem moves_congr (hthreshold : t'.mthThreshold = t.mthThreshold)
    (hsize : t'.alloc.size = t.alloc.size) : t'.moves = t.moves := by
  rw [Table.moves, Table.moves, hthreshold, hsize]

theorem Stepped.moves {pos' : ℕ → ℕ → ℕ} {b : ℕ} (h : Stepped t t' pos pos' b) :
    t'.moves = t.moves :=
  moves_congr h.mthThreshold h.size

/-- **One operation** succeeds, keeps the invariant, and returns what it may. -/
theorem run_spec (h : TableOk fixed t log pos M) (hbound : t.alloc.tail + MAX_ITEM ≤ 2 ^ 63)
    (hop : op.Ok fixed t.moves) :
    ∃ t' result log' pos', op.run t = some (t', result) ∧
      TableOk fixed t' log' pos' (after M op result) ∧ Allowed M op result ∧
      Stepped t t' pos pos' (op.bucket t) := by
  cases op with
  | get r outValue outLength readonly =>
    obtain ⟨hk, hlen, hsafe⟩ := hop
    have hsafe' : readonly = true ∨ t.alloc.size ≤ t.mthThreshold ∨ ∃ l, fixed = some l := by
      rcases hsafe with hro | hstay | hfixed
      · exact Or.inl hro
      · exact Or.inr (Or.inl (Nat.not_lt.mp (of_decide_eq_false hstay)))
      · exact Or.inr (Or.inr hfixed)
    obtain ⟨t', found, outValue', log', pos', hrun, hok, hstep, hfound, -⟩ :=
      get_spec h hbound hk outValue hlen hsafe'
    refine ⟨t', .got found outValue', log', pos', ?_, hok, hfound, hstep⟩
    simp [Op.run, hrun]
  | test r =>
    obtain ⟨ok, hrun⟩ : ∃ ok, mehcachedTest t r = some ok := ⟨_, if_neg (Nat.not_lt.mpr hop)⟩
    refine ⟨t, .done ok, log, pos, ?_, h, trivial, Stepped.refl t pos _⟩
    simp [Op.run, hrun]
  | set r value valueLength expireTime overwrite =>
    obtain ⟨hk, hv, hfixed⟩ := hop
    rcases set_spec value expireTime h hbound hk hv hfixed overwrite with
      ⟨hno, hrun⟩ | ⟨t', log', pos', i, o, hrun, hok, hstep, -⟩
    · refine ⟨t, .done false, log, pos, ?_, h, fun _ => hno, Stepped.refl t pos _⟩
      simp [Op.run, hrun]
    · refine ⟨t', .done true, log', pos', ?_, hok, fun hno => absurd hno (by simp), hstep⟩
      simp [Op.run, hrun]
  | delete r =>
    rcases delete_spec (r := r) h hop with hrun | ⟨t', hrun, hok, hstep⟩
    · refine ⟨t, .done false, log, pos, ?_, h, trivial, Stepped.refl t pos _⟩
      simp [Op.run, hrun]
    · refine ⟨t', .done true, log, pos, ?_, hok, trivial, hstep⟩
      simp [Op.run, hrun]
  | increment r n expireTime =>
    rcases increment_spec (r := r) expireTime h hop n with
      hrun | ⟨t', v, hv, hlen, hrun, hok, hstep⟩
    · refine ⟨t, .number none, log, pos, ?_, h, by simp [Allowed], Stepped.refl t pos _⟩
      simp [Op.run, hrun]
    · refine ⟨t', .number (some ((v.number + n.toNat) % 2 ^ 64)), log, pos, ?_, hok, ?_, hstep⟩
      · simp [Op.run, hrun]
      · rintro m hm
        cases hm
        exact ⟨v, hv, hlen, rfl⟩

end Steps

/-! ## Runs -/

section Runs

variable {fixed : Option ℕ} {t t' : Table} {log : List ℕ} {pos : ℕ → ℕ → ℕ}
  {M : Key → Option Value} {key : Key}

/-- The map after a run. -/
def afterAll : (Key → Option Value) → List Op → List Result → Key → Option Value
  | M, op :: ops, result :: results => afterAll (after M op result) ops results
  | M, _, _ => M

/-- An operation on another bucket leaves the map alone. -/
theorem after_of_bucket {op : Op} (result : Result)
    (h : op.bucket t ≠ calcBucketIndex t key.hash) : after M op result key = M key := by
  have hne : key ≠ op.request.toKey := fun heq => h (by rw [heq]; rfl)
  cases op <;> cases result <;> try rfl
  all_goals
    rename_i x
    cases x
    · rfl
    · exact Function.update_of_ne hne _ _

/-- **A run**, from any table with the invariant: it succeeds and returns what a lossy map returns.
    What another bucket had before is still there if the log has not come round to it. -/
theorem runOps_spec : ∀ (ops : List Op) (t : Table) (log : List ℕ) (pos : ℕ → ℕ → ℕ)
    (M : Key → Option Value), TableOk fixed t log pos M →
    t.alloc.tail + ops.length * MAX_ITEM ≤ 2 ^ 63 → (∀ op ∈ ops, op.Ok fixed t.moves) →
    ∃ t' results log' pos', runOps t ops = some (t', results) ∧
      TableOk fixed t' log' pos' (afterAll M ops results) ∧ Lossy M ops results ∧
      t'.alloc.tail ≤ t.alloc.tail + ops.length * MAX_ITEM ∧ t.alloc.tail ≤ t'.alloc.tail ∧
      t'.alloc.size = t.alloc.size ∧ t'.mthThreshold = t.mthThreshold ∧
      t'.numBuckets = t.numBuckets ∧
      ∀ b i o key, (∀ op ∈ ops, op.bucket t ≠ b) → Holds t pos b i o key →
        t'.alloc.tail ≤ o + t.alloc.size → Holds t' pos' b i o key
  | [], t, log, pos, M, h, _, _ => by
    exact ⟨t, [], log, pos, rfl, h, trivial, Nat.le_add_right _ _, Nat.le_refl _, rfl, rfl, rfl,
      fun _ _ _ _ _ hholds _ => hholds⟩
  | op :: ops, t, log, pos, M, h, hbound, hops => by
    rw [List.length_cons, Nat.succ_mul] at hbound
    obtain ⟨t1, result, log1, pos1, hrun, hok, hallowed, hstep⟩ :=
      run_spec h (by omega) (hops op List.mem_cons_self)
    have hnear := hstep.near
    have hle := hstep.le
    obtain ⟨t2, results, log2, pos2, hruns, hok2, hlossy, hup, hdown, hsize, hthreshold, hbuckets,
      hkeep⟩ := runOps_spec ops t1 log1 pos1 _ hok (by omega) (by
        rw [hstep.moves]
        exact fun op' hop' => hops op' (List.mem_cons_of_mem _ hop'))
    refine ⟨t2, result :: results, log2, pos2, ?_, hok2, ⟨hallowed, hlossy⟩, ?_, hle.trans hdown,
      hsize.trans hstep.size, hthreshold.trans hstep.mthThreshold,
      hbuckets.trans hstep.numBuckets, ?_⟩
    · simp [runOps, hrun, hruns]
    · rw [List.length_cons, Nat.succ_mul]
      omega
    · intro b i o key hother hholds hin
      have hsame := hstep.size
      refine hkeep b i o key (fun op' hop' => ?_) (hstep.holds b i o key ?_ hholds (by omega))
        (by omega)
      · rw [Op.bucket, calcBucketIndex_congr hstep.numBuckets]
        exact hother op' (List.mem_cons_of_mem _ hop')
      · exact (hother op List.mem_cons_self).symm

theorem afterAll_of_bucket : ∀ (ops : List Op) (results : List Result) (M : Key → Option Value),
    (∀ op ∈ ops, op.bucket t ≠ calcBucketIndex t key.hash) → afterAll M ops results key = M key
  | [], _, _, _ => rfl
  | _ :: _, [], _, _ => rfl
  | op :: ops, result :: results, M, h => by
    rw [afterAll, afterAll_of_bucket ops results _ (fun op' hop' =>
      h op' (List.mem_cons_of_mem _ hop')), after_of_bucket result (h op List.mem_cons_self)]

end Runs

/-! ## From a new table -/

/-- Numbers that are near and have the same remainder are the same. -/
theorem mod_inj_of_near {x y n : ℕ} (hxy : x < y + n) (hyx : y < x + n) (h : x % n = y % n) :
    x = y := by
  rcases Nat.le_total x y with hle | hle
  · have hdvd := Nat.dvd_of_mod_eq_zero (Nat.sub_mod_eq_zero_of_mod_eq h.symm)
    have := Nat.eq_zero_of_dvd_of_lt hdvd (by omega)
    omega
  · have hdvd := Nat.dvd_of_mod_eq_zero (Nat.sub_mod_eq_zero_of_mod_eq h)
    have := Nat.eq_zero_of_dvd_of_lt hdvd (by omega)
    omega

/-- A table after a run of `steps` operations. -/
def Reached (fixed : Option ℕ) (t : Table) (steps : ℕ) : Prop :=
  ∃ data numBuckets size mthThreshold t₀ ops results, 2 ≤ numBuckets ∧ numBuckets ≤ 2 ^ 31 ∧
    size ≤ 2 ^ 63 ∧ tableInit data numBuckets size mthThreshold = some t₀ ∧
    ops.length = steps ∧ (∀ op ∈ ops, op.Ok fixed t₀.moves) ∧ runOps t₀ ops = some (t, results)

section Reaching

variable {fixed : Option ℕ} {t t1 t2 : Table} {steps : ℕ}

theorem Reached.ok (h : Reached fixed t steps) (hbound : steps * MAX_ITEM ≤ 2 ^ 63) :
    ∃ log pos M, TableOk fixed t log pos M ∧ t.alloc.tail ≤ steps * MAX_ITEM := by
  obtain ⟨data, numBuckets, size, mthThreshold, t₀, ops, results, hmin, hmax, hsize, hinit, rfl,
    hops, hrun⟩ := h
  obtain ⟨hok, hzero⟩ := tableInit_spec hmin hmax hsize hinit fixed
  obtain ⟨t', results', log, pos, hrun', hok', -, htail, -⟩ :=
    runOps_spec ops t₀ _ _ _ hok (by omega) hops
  cases hrun.symm.trans hrun'
  exact ⟨log, pos, _, hok', by omega⟩

/-- A request for a key of eight equal bytes. -/
def sampleRequest (keyHash : UInt64) (byte : UInt8) : Request := ⟨keyHash, fun _ => byte, 8⟩

/-- A table with two buckets and a pool of 4 MB whose GETs may move items. -/
theorem sample_table : ∃ t, tableInit (fun _ => 0) 2 4194304 0 = some t ∧ t.alloc.size = 4194304 ∧
    t.mthThreshold = 0 ∧ t.numBuckets = 2 ∧ mehcachedTest t (sampleRequest 1 7) = some false := by
  have h : (tableInit (fun _ => 0) 2 4194304 0).map (fun t => (t.alloc.size, t.mthThreshold,
      t.numBuckets, mehcachedTest t (sampleRequest 1 7))) = some (4194304, 0, 2, some false) := by
    decide +kernel
  obtain ⟨t, ht, heq⟩ := Option.map_eq_some_iff.mp h
  simp only [Prod.mk.injEq] at heq
  exact ⟨t, ht, heq⟩

theorem sample_reached (fixed : Option ℕ) (h : tableInit (fun _ => 0) 2 4194304 0 = some t) :
    Reached fixed t 0 :=
  ⟨_, _, _, _, t, [], [], by decide, by decide, by decide, h, rfl, by simp, rfl⟩

/-- **Every run is one of a lossy map.**  No assertion fails, every loop ends, and what is found is
    what was stored last, with the key and the length that it was stored with. -/
theorem runOps_lossy {data : Bytes} {numBuckets size mthThreshold : ℕ} {ops : List Op}
    (hmin : 2 ≤ numBuckets) (hmax : numBuckets ≤ 2 ^ 31) (hsize : size ≤ 2 ^ 63)
    (hinit : tableInit data numBuckets size mthThreshold = some t)
    (hops : ∀ op ∈ ops, op.Ok fixed t.moves) (hbound : ops.length * MAX_ITEM ≤ 2 ^ 63) :
    ∃ t' results, runOps t ops = some (t', results) ∧ Lossy (fun _ => none) ops results := by
  obtain ⟨hok, hzero⟩ := tableInit_spec hmin hmax hsize hinit fixed
  obtain ⟨t', results, -, -, hrun, -, hlossy, -⟩ :=
    runOps_spec ops t _ _ _ hok (by omega) hops
  exact ⟨t', results, hrun, hlossy⟩

theorem runOps_lossy_sample : ∃ t t' results,
    runOps t [.set (sampleRequest 1 7) (fun _ => 5) 1400 0 true,
      .get (sampleRequest 1 7) (fun _ => 0) 1400 false] = some (t', results) ∧
    Lossy (fun _ => none) [.set (sampleRequest 1 7) (fun _ => 5) 1400 0 true,
      .get (sampleRequest 1 7) (fun _ => 0) 1400 false] results := by
  obtain ⟨t, ht, -⟩ := sample_table
  have hops : ∀ op ∈ [Op.set (sampleRequest 1 7) (fun _ => 5) 1400 0 true,
      .get (sampleRequest 1 7) (fun _ => 0) 1400 false], op.Ok (some 1400) t.moves := by
    intro op hop
    simp only [List.mem_cons, List.not_mem_nil, or_false] at hop
    rcases hop with rfl | rfl
    · exact ⟨by decide, by decide, fun l hl => Option.some.inj hl⟩
    · exact ⟨by decide, by decide, Or.inr (Or.inr ⟨_, rfl⟩)⟩
  exact ⟨t, runOps_lossy (by decide) (by decide) (by decide) ht hops (by decide)⟩

/-- A GET of a live item. -/
theorem get_held {log : List ℕ} {pos : ℕ → ℕ → ℕ} {M : Key → Option Value} {r : Request} {i o : ℕ}
    {v : Value} (h : TableOk fixed t log pos M) (hbound : t.alloc.tail + MAX_ITEM ≤ 2 ^ 63)
    (hk : r.keyLength ≤ MAX_KEY_LENGTH) (outValue : Bytes) {outLength : ℕ} (hlen : outLength ≤ 1500)
    {readonly : Bool} (hsafe : readonly = true ∨ t.moves = false ∨ ∃ l, fixed = some l)
    (hholds : Holds t pos (calcBucketIndex t r.keyHash.toNat) i o r.toKey)
    (hin : t.alloc.tail ≤ o + t.alloc.size) (hM : M r.toKey = some v) :
    ∃ t' outValue', mehcachedGet t r outValue outLength readonly =
        some (t', some (min v.length outLength, v.expire), outValue') ∧
      readBytes outValue' 0 (roundup8 (min v.length outLength)) =
        v.bytes.take (roundup8 (min v.length outLength)) := by
  have hsafe' : readonly = true ∨ t.alloc.size ≤ t.mthThreshold ∨ ∃ l, fixed = some l := by
    rcases hsafe with hro | hstay | hfixed
    · exact Or.inl hro
    · exact Or.inr (Or.inl (Nat.not_lt.mp (of_decide_eq_false hstay)))
    · exact Or.inr (Or.inr hfixed)
  obtain ⟨t', found, outValue', -, pos', hrun, -, -, hfound, hhit⟩ :=
    get_spec h hbound hk outValue hlen hsafe'
  cases found with
  | none => exact absurd rfl (hhit i o hholds hin).1
  | some x =>
    obtain ⟨v', hv', hl, he, hbytes⟩ := hfound x.1 x.2 rfl
    obtain rfl : v = v' := Option.some.inj (hM.symm.trans hv')
    refine ⟨t', outValue', ?_, ?_⟩
    · rw [hrun, ← hl, ← he]
    · rw [← hl]
      exact hbytes

theorem callerValue_take (value : Bytes) (valueLength : ℕ) (expireTime : UInt32) (n : ℕ) :
    (callerValue value valueLength expireTime).bytes.take (roundup8 (min valueLength n)) =
      readBytes value 0 (roundup8 (min valueLength n)) := by
  rw [callerValue, readBytes_take, Nat.min_eq_left (roundup8_le (Nat.min_le_left _ _))]

theorem request_congr {r r' : Request} (h : r'.toKey = r.toKey) :
    r'.keyHash.toNat = r.keyHash.toNat ∧ r'.keyLength = r.keyLength :=
  ⟨congrArg Key.hash h, congrArg Key.length h⟩

end Reaching

/-! ## Items that are kept -/

/-- The item of a key has its value, and begins at most `back` bytes before the end of the log. -/
def Kept (fixed : Option ℕ) (t : Table) (r : Request) (v : Value) (back : ℕ) : Prop :=
  ∃ log pos M i o, TableOk fixed t log pos M ∧ M r.toKey = some v ∧
    Holds t pos (calcBucketIndex t r.keyHash.toNat) i o r.toKey ∧ t.alloc.tail ≤ o + back

section Kept

variable {fixed : Option ℕ} {t t' : Table} {r : Request} {v : Value} {back back' : ℕ}

theorem Kept.mono (h : Kept fixed t r v back) (hle : back ≤ back') : Kept fixed t r v back' := by
  obtain ⟨log, pos, M, i, o, hok, hM, hholds, htail⟩ := h
  exact ⟨log, pos, M, i, o, hok, hM, hholds, htail.trans (Nat.add_le_add_left hle o)⟩

/-- A SET of a new key puts the item at the end of the log. -/
theorem Reached.set_kept {steps : ℕ} (h : Reached fixed t steps)
    (hbound : (steps + 1) * MAX_ITEM ≤ 2 ^ 63) (hk : r.keyLength ≤ MAX_KEY_LENGTH) {value : Bytes}
    {valueLength : ℕ} (hv : valueLength ≤ MAX_VALUE_LENGTH)
    (hfixed : ∀ l ∈ fixed, roundup8 valueLength = l) {expireTime : UInt32} {overwrite : Bool}
    (hnew : mehcachedTest t r = some false)
    (hset : mehcachedSet t r value valueLength expireTime overwrite = some (t', true)) :
    Kept fixed t' r (callerValue value valueLength expireTime)
        (itemLength r.keyLength valueLength) ∧
      t'.alloc.size = t.alloc.size ∧ t'.mthThreshold = t.mthThreshold ∧
      t'.numBuckets = t.numBuckets ∧ t'.alloc.tail ≤ (steps + 1) * MAX_ITEM := by
  rw [Nat.add_mul] at hbound ⊢
  obtain ⟨log, pos, M, hok, htail⟩ := h.ok (by omega)
  obtain ⟨t'', log', pos', i, o, hset', hok', hstep, hholds, -, hfresh⟩ :=
    (set_spec value expireTime hok (by omega) hk hv hfixed
      overwrite).resolve_left (fun hno => by simp [hno.2] at hset)
  cases hset.symm.trans hset'
  have hnear := hstep.near
  refine ⟨⟨log', pos', _, i, o, hok', Function.update_self _ _ _, ?_, (hfresh hnew).le⟩,
    hstep.size, hstep.mthThreshold, hstep.numBuckets, by omega⟩
  rw [calcBucketIndex_congr hstep.numBuckets]
  exact hholds

/-- Operations on other buckets. -/
theorem Kept.others (h : Kept fixed t r v back) {ops : List Op}
    (hbound : t.alloc.tail + ops.length * MAX_ITEM ≤ 2 ^ 63)
    (hops : ∀ op ∈ ops, op.Ok fixed t.moves ∧ op.bucket t ≠ calcBucketIndex t r.keyHash.toNat) :
    ∃ t' results, runOps t ops = some (t', results) ∧ t'.alloc.size = t.alloc.size ∧
      t'.mthThreshold = t.mthThreshold ∧ t'.numBuckets = t.numBuckets ∧
      t.alloc.tail ≤ t'.alloc.tail ∧ t'.alloc.tail ≤ t.alloc.tail + ops.length * MAX_ITEM ∧
      (t'.alloc.tail + back ≤ t.alloc.tail + t.alloc.size →
        Kept fixed t' r v (t'.alloc.tail - t.alloc.tail + back)) := by
  obtain ⟨log, pos, M, i, o, hok, hM, hholds, htail⟩ := h
  obtain ⟨t', results, log', pos', hrun, hok', -, hup, hdown, hsize, hthreshold, hbuckets, hkeep⟩ :=
    runOps_spec ops t log pos M hok hbound (fun op hop => (hops op hop).1)
  refine ⟨t', results, hrun, hsize, hthreshold, hbuckets, hdown, hup, fun hroom => ?_⟩
  have hnear : t'.alloc.tail ≤ o + (t'.alloc.tail - t.alloc.tail + back) := by omega
  refine ⟨log', pos', _, i, o, hok', ?_, ?_, hnear⟩
  · refine (afterAll_of_bucket (t := t) ops results M (fun op hop => ?_)).trans hM
    exact (hops op hop).2
  · rw [calcBucketIndex_congr hbuckets]
    exact hkeep _ i o _ (fun op hop => (hops op hop).2) hholds (by omega)

/-- The item is in a slot of its bucket, and is valid. -/
theorem Kept.slot (h : Kept fixed t r v back) (hback : back ≤ t.alloc.size) :
    ∃ i, Busy t (calcBucketIndex t r.keyHash.toNat) i ∧
      poolIsValid t.alloc
        (itemOffsetOf (t.itemVecs (calcBucketIndex t r.keyHash.toNat) i)) = true := by
  obtain ⟨log, pos, M, i, o, hok, -, hholds, htail⟩ := h
  refine ⟨i, hholds.busy, (hok.valid_iff hholds.busy).mpr ?_⟩
  rw [hholds.pos]
  omega

/-- A GET finds the value. -/
theorem Kept.found (h : Kept fixed t r v back) (hback : back ≤ t.alloc.size)
    (hbound : t.alloc.tail + MAX_ITEM ≤ 2 ^ 63) {r' : Request} (hkey : r'.toKey = r.toKey)
    (hk : r.keyLength ≤ MAX_KEY_LENGTH) (outValue : Bytes) {outLength : ℕ} (hlen : outLength ≤ 1500)
    {readonly : Bool} (hsafe : readonly = true ∨ t.moves = false ∨ ∃ l, fixed = some l) :
    ∃ t' outValue', mehcachedGet t r' outValue outLength readonly =
        some (t', some (min v.length outLength, v.expire), outValue') ∧
      readBytes outValue' 0 (roundup8 (min v.length outLength)) =
        v.bytes.take (roundup8 (min v.length outLength)) := by
  obtain ⟨log, pos, M, i, o, hok, hM, hholds, htail⟩ := h
  obtain ⟨hhash, hkl⟩ := request_congr hkey
  rw [← hhash, ← hkey] at hholds
  rw [← hkey] at hM
  exact get_held hok hbound (hkl.trans_le hk) outValue hlen hsafe hholds (by omega) hM

end Kept

section Reaching

variable {fixed : Option ℕ} {t t1 t2 : Table} {steps : ℕ}

/-- A SET, and a GET for the same key. -/
theorem TableOk.get_after_set {log : List ℕ} {pos : ℕ → ℕ → ℕ} {M : Key → Option Value}
    (h : TableOk fixed t log pos M) (hbound : t.alloc.tail + 2 * MAX_ITEM ≤ 2 ^ 63)
    {r r' : Request} (hkey : r'.toKey = r.toKey) (hk : r.keyLength ≤ MAX_KEY_LENGTH) (value : Bytes)
    (valueLength : ℕ) (hv : valueLength ≤ MAX_VALUE_LENGTH)
    (hfixed : ∀ l ∈ fixed, roundup8 valueLength = l) (expireTime : UInt32) (overwrite : Bool)
    (outValue : Bytes) (outLength : ℕ) (hlen : outLength ≤ 1500) (readonly : Bool)
    (hsafe : readonly = true ∨ t.moves = false ∨ ∃ l, fixed = some l) :
    (overwrite = false ∧
      mehcachedSet t r value valueLength expireTime overwrite = some (t, false)) ∨
    ∃ t1 t2 outValue', mehcachedSet t r value valueLength expireTime overwrite = some (t1, true) ∧
      mehcachedGet t1 r' outValue outLength readonly =
        some (t2, some (min valueLength outLength, expireTime.toNat), outValue') ∧
      readBytes outValue' 0 (roundup8 (min valueLength outLength)) =
        readBytes value 0 (roundup8 (min valueLength outLength)) := by
  rcases set_spec value expireTime h (by omega) hk hv hfixed overwrite with
    hno | ⟨t1, log1, pos1, i, o, hset, hok1, hstep, hholds, hin, -⟩
  · exact Or.inl hno
  · right
    have hnear := hstep.near
    rw [← hstep.moves] at hsafe
    have hkept : Kept fixed t1 r (callerValue value valueLength expireTime) t1.alloc.size := by
      refine ⟨log1, pos1, _, i, o, hok1, Function.update_self _ _ _, ?_, hin⟩
      rw [calcBucketIndex_congr hstep.numBuckets]
      exact hholds
    obtain ⟨t2, outValue', hget, hbytes⟩ :=
      hkept.found (Nat.le_refl _) (by omega) hkey hk outValue hlen hsafe
    exact ⟨t1, t2, outValue', hset, hget, hbytes.trans (callerValue_take value _ _ outLength)⟩

/-- **A SET, and a GET for the same key**, in any table that was reached: the SET is refused because
    it must not overwrite, or the GET finds the value. -/
theorem set_get (h : Reached fixed t steps) (hbound : (steps + 2) * MAX_ITEM ≤ 2 ^ 63)
    {r r' : Request} (hkey : r'.toKey = r.toKey) (hk : r.keyLength ≤ MAX_KEY_LENGTH) (value : Bytes)
    (valueLength : ℕ) (hv : valueLength ≤ MAX_VALUE_LENGTH)
    (hfixed : ∀ l ∈ fixed, roundup8 valueLength = l) (expireTime : UInt32) (overwrite : Bool)
    (outValue : Bytes) (outLength : ℕ) (hlen : outLength ≤ 1500) (readonly : Bool)
    (hsafe : readonly = true ∨ t.moves = false ∨ ∃ l, fixed = some l) :
    (overwrite = false ∧
      mehcachedSet t r value valueLength expireTime overwrite = some (t, false)) ∨
    ∃ t1 t2 outValue', mehcachedSet t r value valueLength expireTime overwrite = some (t1, true) ∧
      mehcachedGet t1 r' outValue outLength readonly =
        some (t2, some (min valueLength outLength, expireTime.toNat), outValue') ∧
      readBytes outValue' 0 (roundup8 (min valueLength outLength)) =
        readBytes value 0 (roundup8 (min valueLength outLength)) := by
  rw [Nat.add_mul] at hbound
  obtain ⟨log, pos, M, hok, htail⟩ := h.ok (by omega)
  exact hok.get_after_set (by omega) hkey hk value valueLength hv hfixed expireTime overwrite outValue
    outLength hlen readonly hsafe

theorem set_get_sample : ∃ t t1 t2 outValue',
    mehcachedSet t (sampleRequest 1 7) (fun _ => 5) 1400 0 true = some (t1, true) ∧
    mehcachedGet t1 (sampleRequest 1 7) (fun _ => 0) 1400 true =
      some (t2, some (1400, 0), outValue') ∧
    readBytes outValue' 0 1400 = readBytes (fun _ => 5) 0 1400 := by
  obtain ⟨t, ht, -⟩ := sample_table
  have h := set_get (sample_reached none ht) (by decide) (r := sampleRequest 1 7) rfl (by decide)
    (fun _ => 5) 1400 (by decide) (by simp) 0 true (fun _ => 0) 1400 (by decide) true (Or.inl rfl)
  exact ⟨t, h.resolve_left (by simp)⟩

/-- Two SETs, for keys of different buckets. -/
theorem sample_run : ∃ t t1 t2, tableInit (fun _ => 0) 2 4194304 0 = some t ∧
    mehcachedSet t (sampleRequest 1 7) (fun _ => 5) 1400 0 true = some (t1, true) ∧
    mehcachedSet t1 (sampleRequest 65536 8) (fun _ => 6) 1400 0 true = some (t2, true) ∧
    t2.alloc.tail ≤ t1.alloc.tail + MAX_ITEM ∧
    ∃ v, Kept none t2 (sampleRequest 65536 8) v t2.alloc.size := by
  obtain ⟨t, ht, -⟩ := sample_table
  obtain ⟨hok, hzero⟩ := tableInit_spec (by decide) (by decide) (by decide) ht none
  obtain ⟨t1, log1, pos1, -, -, hset1, hok1, hstep1, -⟩ := (set_spec (r := sampleRequest 1 7)
    (fun _ => 5) 0 hok (by rw [hzero]; decide) (by decide) (by decide : 1400 ≤ MAX_VALUE_LENGTH)
    (by simp) true).resolve_left (by simp)
  have hnear := hstep1.near
  obtain ⟨t2, log2, pos2, i, o, hset2, hok2, hstep2, hholds, hin, -⟩ :=
    (set_spec (r := sampleRequest 65536 8) (fun _ => 6) 0 hok1 (by rw [MAX_ITEM] at *; omega)
      (by decide) (by decide : 1400 ≤ MAX_VALUE_LENGTH) (by simp) true).resolve_left (by simp)
  rw [← calcBucketIndex_congr hstep2.numBuckets] at hholds
  exact ⟨t, t1, t2, ht, hset1, hset2, hstep2.near, _, log2, pos2, _, i, o, hok2,
    Function.update_self _ _ _, hholds, hin⟩

/-- The other key is of the other bucket. -/
theorem sample_other {t : Table} (hbuckets : t.numBuckets = 2) :
    ∀ op ∈ [Op.set (sampleRequest 65536 8) (fun _ => 6) 1400 0 true], op.Ok none t.moves ∧
      op.bucket t ≠ calcBucketIndex t (sampleRequest 1 7).keyHash.toNat := by
  intro op hop
  obtain rfl := List.mem_singleton.mp hop
  refine ⟨⟨by decide, by decide, by simp⟩, ?_⟩
  rw [Op.bucket, calcBucketIndex, calcBucketIndex, hbuckets]
  decide

/-- **A new item survives** any run on other buckets, until the log has grown by the rest of the
    pool. -/
theorem inserted_survives (h : Reached fixed t steps) {ops : List Op} {results : List Result}
    (hbound : (steps + ops.length + 2) * MAX_ITEM ≤ 2 ^ 63) {r r' : Request}
    (hkey : r'.toKey = r.toKey) (hk : r.keyLength ≤ MAX_KEY_LENGTH) {value : Bytes}
    {valueLength : ℕ} (hv : valueLength ≤ MAX_VALUE_LENGTH)
    (hfixed : ∀ l ∈ fixed, roundup8 valueLength = l) {expireTime : UInt32} {overwrite : Bool}
    (hnew : mehcachedTest t r = some false)
    (hset : mehcachedSet t r value valueLength expireTime overwrite = some (t1, true))
    (hops : ∀ op ∈ ops, op.Ok fixed t.moves ∧ op.bucket t ≠ calcBucketIndex t r.keyHash.toNat)
    (hrun : runOps t1 ops = some (t2, results))
    (hroom : t2.alloc.tail + itemLength r.keyLength valueLength ≤ t1.alloc.tail + t.alloc.size)
    (outValue : Bytes) (outLength : ℕ) (hlen : outLength ≤ 1500) (readonly : Bool)
    (hsafe : readonly = true ∨ t.moves = false ∨ ∃ l, fixed = some l) :
    ∃ t3 outValue', mehcachedGet t2 r' outValue outLength readonly =
        some (t3, some (min valueLength outLength, expireTime.toNat), outValue') ∧
      readBytes outValue' 0 (roundup8 (min valueLength outLength)) =
        readBytes value 0 (roundup8 (min valueLength outLength)) := by
  simp only [Nat.add_mul] at hbound
  obtain ⟨hkept, hsize, hthreshold, hbuckets, htail⟩ :=
    h.set_kept (by rw [Nat.add_mul]; omega) hk hv hfixed hnew hset
  rw [Nat.add_mul] at htail
  rw [← moves_congr hthreshold hsize] at hops hsafe
  have hother : ∀ op ∈ ops, op.Ok fixed t1.moves ∧
      op.bucket t1 ≠ calcBucketIndex t1 r.keyHash.toNat := by
    intro op hop
    rw [Op.bucket, calcBucketIndex_congr hbuckets, calcBucketIndex_congr hbuckets]
    exact hops op hop
  obtain ⟨t2', results', hrun', hsize2, hthreshold2, -, hdown2, htail2, hkept2⟩ :=
    hkept.others (by omega) hother
  cases hrun.symm.trans hrun'
  rw [← moves_congr hthreshold2 hsize2] at hsafe
  obtain ⟨t3, outValue', hget, hbytes⟩ :=
    (hkept2 (by omega)).found (by omega) (by omega) hkey hk outValue hlen hsafe
  exact ⟨t3, outValue', hget, hbytes.trans (callerValue_take value _ _ outLength)⟩

theorem inserted_survives_sample : ∃ t t1 t2 t3 outValue',
    mehcachedSet t (sampleRequest 1 7) (fun _ => 5) 1400 0 true = some (t1, true) ∧
    runOps t1 [.set (sampleRequest 65536 8) (fun _ => 6) 1400 0 true] = some (t2, [.done true]) ∧
    mehcachedGet t2 (sampleRequest 1 7) (fun _ => 0) 1400 true =
      some (t3, some (1400, 0), outValue') ∧
    readBytes outValue' 0 1400 = readBytes (fun _ => 5) 0 1400 := by
  obtain ⟨t, t1, t2, ht, hset1, hset2, hnear, -⟩ := sample_run
  obtain ⟨t', ht', hsize, -, hbuckets, hnew⟩ := sample_table
  cases ht.symm.trans ht'
  have hrun : runOps t1 [.set (sampleRequest 65536 8) (fun _ => 6) 1400 0 true] =
      some (t2, [.done true]) := by
    simp [runOps, Op.run, hset2]
  have hroom : t2.alloc.tail + itemLength (sampleRequest 1 7).keyLength 1400 ≤
      t1.alloc.tail + t.alloc.size := by
    rw [hsize, show itemLength (sampleRequest 1 7).keyLength 1400 = 1432 by decide]
    rw [MAX_ITEM] at hnear
    omega
  obtain ⟨t3, outValue', hget⟩ := inserted_survives (sample_reached none ht) (by decide) rfl
    (by decide) (by decide) (by simp) hnew hset1 (sample_other hbuckets) hrun hroom (fun _ => 0)
    1400 (by decide) true (Or.inl rfl)
  exact ⟨t, t1, t2, t3, outValue', hset1, hrun, hget⟩

/-- **What the slots say**, after any run: the slots of a bucket have different tags; an item that
    passes the validity check has its lengths in bounds and is where its hash belongs; no two of
    them have the same key or share a byte of the pool. -/
theorem slots_apart (h : Reached fixed t steps) (hbound : steps * MAX_ITEM ≤ 2 ^ 63) :
    (∀ b i j, Busy t b i → Busy t b j → tagOf (t.itemVecs b i) = tagOf (t.itemVecs b j) → i = j) ∧
    (∀ b i, Busy t b i → poolIsValid t.alloc (itemOffsetOf (t.itemVecs b i)) = true →
      Live fixed t b (tagOf (t.itemVecs b i)) (t.item (t.itemVecs b i))) ∧
    ∀ b i b' i', Busy t b i → Busy t b' i' →
      poolIsValid t.alloc (itemOffsetOf (t.itemVecs b i)) = true →
      poolIsValid t.alloc (itemOffsetOf (t.itemVecs b' i')) = true → (b ≠ b' ∨ i ≠ i') →
      itemKey (t.item (t.itemVecs b i)) ≠ itemKey (t.item (t.itemVecs b' i')) ∧
      ∀ k < itemSize (t.item (t.itemVecs b i)), ∀ k' < itemSize (t.item (t.itemVecs b' i')),
        (itemOffsetOf (t.itemVecs b i) + k) % t.alloc.size ≠
          (itemOffsetOf (t.itemVecs b' i') + k') % t.alloc.size := by
  obtain ⟨log, pos, M, hok, -⟩ := h.ok hbound
  refine ⟨hok.tags, fun b i hbusy hvalid => ?_, ?_⟩
  · rw [hok.item_eq hbusy]
    exact (hok.live_slot hbusy ((hok.valid_iff hbusy).mp hvalid)).1
  · intro b i b' i' hb hb' hvalid hvalid' hne
    rw [hok.item_eq hb, hok.item_eq hb', (hok.slot b i hb).offset, (hok.slot b' i' hb').offset]
    have hin := (hok.valid_iff hb).mp hvalid
    have hin' := (hok.valid_iff hb').mp hvalid'
    obtain ⟨hlive, hs⟩ := hok.live_slot hb hin
    obtain ⟨hlive', hs'⟩ := hok.live_slot hb' hin'
    refine ⟨fun hkey => ?_, fun k hk k' hk' heq => ?_⟩
    · have hhash : keyHashOf (t.alloc.load (pos b i)) = keyHashOf (t.alloc.load (pos b' i')) :=
        congrArg Key.hash hkey
      have hbb : b = b' := by
        rw [← hlive.bucket, ← hlive'.bucket, hhash]
      subst hbb
      have hii : i = i' := by
        apply hok.tags b i i' hb hb'
        rw [← hlive.tag, ← hlive'.tag, hhash]
      omega
    · have hfit := hok.pool.fits hs hin
      have hfit' := hok.pool.fits hs' hin'
      have hdvd : t.alloc.size ∣ 2 ^ 40 := hok.pool.size.dvd (by decide)
      have hmod : ∀ o k, (o % 2 ^ 40 + k) % t.alloc.size = (o + k) % t.alloc.size := by
        intro o k
        rw [← Nat.mod_add_mod (o % 2 ^ 40), Nat.mod_mod_of_dvd _ hdvd, Nat.mod_add_mod]
      rw [hmod, hmod] at heq
      have hpos : pos b i ≠ pos b' i' := fun hsame => by
        have := hok.apart b i b' i' hb hb' hsame
        omega
      have hdis : pos b i + k ≠ pos b' i' + k' := by
        rcases Nat.lt_or_gt_of_ne hpos with hlt | hgt
        · have := hs.disjoint hs' hlt
          omega
        · have := hs'.disjoint hs hgt
          omega
      exact hdis (mod_inj_of_near (by omega) (by omega) heq)

/-- Two items are in the table after `sample_run`. -/
theorem sample_slots : ∃ (t : Table) (i j : ℕ), Reached none t 2 ∧ Busy t 0 i ∧ Busy t 1 j ∧
    poolIsValid t.alloc (itemOffsetOf (t.itemVecs 0 i)) = true ∧
    poolIsValid t.alloc (itemOffsetOf (t.itemVecs 1 j)) = true := by
  obtain ⟨t, t1, t2, ht, hset1, hset2, hnear, v, hlast⟩ := sample_run
  obtain ⟨t', ht', hsize, -, hbuckets, hnew⟩ := sample_table
  cases ht.symm.trans ht'
  have hreached : Reached none t2 2 := by
    refine ⟨_, _, _, _, t, [.set (sampleRequest 1 7) (fun _ => 5) 1400 0 true,
      .set (sampleRequest 65536 8) (fun _ => 6) 1400 0 true], [.done true, .done true],
      by decide, by decide, by decide, ht, rfl, ?_, ?_⟩
    · simp only [List.mem_cons, List.not_mem_nil, or_false, forall_eq_or_imp, forall_eq]
      exact ⟨⟨by decide, by decide, by simp⟩, ⟨by decide, by decide, by simp⟩⟩
    · simp [runOps, Op.run, hset1, hset2]
  obtain ⟨hkept, hsize1, -, hbuckets1, htail⟩ := (sample_reached none ht).set_kept (by decide)
    (by decide) (by decide : 1400 ≤ MAX_VALUE_LENGTH) (by simp) hnew hset1
  obtain ⟨t2', results, hrun, hsize2, -, hbuckets2, -, -, hkept2⟩ :=
    hkept.others (by rw [MAX_ITEM] at *; simp only [List.length_singleton]; omega)
      (sample_other (hbuckets1.trans hbuckets))
  obtain rfl : t2 = t2' := by
    simp [runOps, Op.run, hset2] at hrun
    exact hrun.1
  rw [show itemLength (sampleRequest 1 7).keyLength 1400 = 1432 by decide] at hkept2
  rw [MAX_ITEM] at hnear
  obtain ⟨i, hi, hvi⟩ := (hkept2 (by omega)).slot (by omega)
  obtain ⟨j, hj, hvj⟩ := hlast.slot (Nat.le_refl _)
  rw [calcBucketIndex, hbuckets2, hbuckets1, hbuckets] at hi hvi hj hvj
  exact ⟨t2, i, j, hreached, hi, hj, hvi, hvj⟩

theorem slots_apart_sample : ∃ (t : Table) (i j : ℕ),
    poolIsValid t.alloc (itemOffsetOf (t.itemVecs 0 i)) = true ∧
    poolIsValid t.alloc (itemOffsetOf (t.itemVecs 1 j)) = true ∧
    itemKey (t.item (t.itemVecs 0 i)) ≠ itemKey (t.item (t.itemVecs 1 j)) ∧
    ∀ k < itemSize (t.item (t.itemVecs 0 i)), ∀ k' < itemSize (t.item (t.itemVecs 1 j)),
      (itemOffsetOf (t.itemVecs 0 i) + k) % t.alloc.size ≠
        (itemOffsetOf (t.itemVecs 1 j) + k') % t.alloc.size := by
  obtain ⟨t, i, j, hreached, hi, hj, hvi, hvj⟩ := sample_slots
  exact ⟨t, i, j, hvi, hvj,
    (slots_apart hreached (by decide)).2.2 0 i 1 j hi hj hvi hvj (Or.inl (by decide))⟩

end Reaching

end QueueDpdk.Mehcached
