import Mathlib.Algebra.BigOperators.Group.List.Lemmas
import Mathlib.Algebra.Order.BigOperators.Group.List
import Mathlib.Algebra.Order.Floor.Semiring
import Mathlib.Data.List.Sort
import Mathlib.Data.Nat.Log
import Mathlib.Data.Prod.Lex
import Mathlib.Data.Rat.Floor
import Mathlib.Tactic.FieldSimp
import Mathlib.Tactic.GCongr
import Mathlib.Tactic.Linarith
import Mathlib.Tactic.Positivity
import QueueDpdk.Lib.Sums

/-!
# Latency percentiles (`trex-rfc/latency.py`)

Numbers are exact rationals. A histogram is the list of its items, lower bound and count.

* `bucketUpper`, `histogramPercentiles` — as in the source; `percentileFrom` is the inner loop.
* `TrexBound` — the lower bounds TRex uses; `bucketUpper_le` that their buckets do not overlap.
* `percentileFrom_mono`, `percentileFrom_split` — what the loop returns.
* `histogramPercentiles_spec` — percentiles are in order and in the right bucket.
-/

set_option autoImplicit false

namespace QueueDpdk.Trex

/-! ## The functions -/

def PERCENTILES : List ℕ := [50, 90, 95, 99]

/-- `bucket_upper`; a number `n` has `Nat.log 10 n + 1` digits. -/
def bucketUpper (lo : ℚ) : ℚ :=
  if lo ≤ 0 then 10 else lo + 10 ^ (Nat.log 10 ⌊lo⌋₊ + 1 - 1)

/-- `min(1.0, max(0.0, (target - previous) / n))`. -/
def fraction (target : ℚ) (previous n : ℤ) : ℚ := min 1 (max 0 ((target - previous) / n))

/-- The loop over the buckets, from the counts so far on. -/
def percentileFrom (target out : ℚ) : ℤ → List (ℚ × ℤ) → ℚ
  | _, [] => out
  | cumulative, (lo, n) :: buckets =>
    let previous := cumulative
    let cumulative := cumulative + n
    if target ≤ cumulative then lo + fraction target previous n * (bucketUpper lo - lo)
    else percentileFrom target out cumulative buckets

/-- `sorted((float(lo), int(n)) for lo, n in histogram.items() if int(n) > 0)`. -/
def sortedBuckets (histogram : List (ℚ × ℤ)) : List (ℚ × ℤ) :=
  (histogram.filter (fun x => 0 < x.2)).insertionSort (fun x y => toLex x ≤ toLex y)

structure Percentiles where
  percentile : List (ℕ × ℚ)
  max : ℚ
deriving DecidableEq, Repr

/-- `histogram_percentiles`. -/
def histogramPercentiles (histogram : List (ℚ × ℤ)) : Option Percentiles :=
  let buckets := sortedBuckets histogram
  match buckets.getLast? with
  | none => none
  | some last =>
    let total := (buckets.map Prod.snd).sum
    some
      { percentile := PERCENTILES.map fun p =>
          (p, percentileFrom (p / 100 * total) (bucketUpper last.1) 0 buckets)
        max := bucketUpper last.1 }

/-! ## Buckets -/

/-- The lower bounds of the buckets of TRex. -/
def TrexBound (lo : ℚ) : Prop :=
  lo = 0 ∨ ∃ d k : ℕ, 1 ≤ d ∧ d ≤ 9 ∧ 1 ≤ k ∧ lo = (d * 10 ^ k : ℕ)

theorem lt_bucketUpper (lo : ℚ) : lo < bucketUpper lo := by
  unfold bucketUpper
  split
  · linarith
  · have : (0 : ℚ) < 10 ^ (Nat.log 10 ⌊lo⌋₊ + 1 - 1) := by positivity
    linarith

theorem TrexBound.nonneg {lo : ℚ} (h : TrexBound lo) : 0 ≤ lo := by
  rcases h with rfl | ⟨d, k, -, -, -, rfl⟩
  · exact le_refl 0
  · positivity

theorem bucketUpper_zero : bucketUpper 0 = 10 := by simp [bucketUpper]

/-- A bucket is as wide as its magnitude. -/
theorem bucketUpper_digit {d k : ℕ} (hd : 1 ≤ d) (hd' : d ≤ 9) :
    bucketUpper (d * 10 ^ k : ℕ) = ((d + 1) * 10 ^ k : ℕ) := by
  have hpow : 0 < 10 ^ k := by positivity
  have hpos : ¬(((d * 10 ^ k : ℕ) : ℚ) ≤ 0) := by
    rw [not_le]
    exact_mod_cast Nat.mul_pos hd hpow
  have hlog : Nat.log 10 (d * 10 ^ k) = k := by
    rw [Nat.log_eq_iff (Or.inr ⟨by decide, (Nat.mul_pos hd hpow).ne'⟩)]
    constructor
    · exact Nat.le_mul_of_pos_left _ hd
    · calc d * 10 ^ k ≤ 9 * 10 ^ k := Nat.mul_le_mul_right _ hd'
        _ < 10 ^ (k + 1) := by rw [pow_succ]; omega
  unfold bucketUpper
  rw [if_neg hpos, Nat.floor_natCast, hlog, Nat.add_sub_cancel]
  push_cast
  ring

/-- **Buckets do not overlap.** -/
theorem bucketUpper_le {a b : ℚ} (ha : TrexBound a) (hb : TrexBound b) (hlt : a < b) :
    bucketUpper a ≤ b := by
  rcases hb with rfl | ⟨e, j, he, he', hj, rfl⟩
  · exact absurd hlt (not_lt.mpr ha.nonneg)
  rcases ha with rfl | ⟨d, k, hd, hd', hk, rfl⟩
  · have hle : 10 ≤ e * 10 ^ j := by
      calc 10 = 1 * 10 ^ 1 := rfl
        _ ≤ e * 10 ^ j := Nat.mul_le_mul he (Nat.pow_le_pow_right (by decide) hj)
    rw [bucketUpper_zero]
    exact_mod_cast hle
  · rw [bucketUpper_digit hd hd']
    have hlt : d * 10 ^ k < e * 10 ^ j := by exact_mod_cast hlt
    have hle : (d + 1) * 10 ^ k ≤ e * 10 ^ j := by
      rcases Nat.lt_trichotomy k j with hkj | rfl | hjk
      · calc (d + 1) * 10 ^ k ≤ 10 * 10 ^ k := Nat.mul_le_mul_right _ (by omega)
          _ = 10 ^ (k + 1) := by rw [pow_succ, Nat.mul_comm]
          _ ≤ 10 ^ j := Nat.pow_le_pow_right (by decide) hkj
          _ ≤ e * 10 ^ j := Nat.le_mul_of_pos_left _ he
      · exact Nat.mul_le_mul_right _ (Nat.lt_of_mul_lt_mul_right hlt)
      · have : e * 10 ^ j ≤ d * 10 ^ k := by
          calc e * 10 ^ j ≤ 10 * 10 ^ j := Nat.mul_le_mul_right _ (by omega)
            _ = 10 ^ (j + 1) := by rw [pow_succ, Nat.mul_comm]
            _ ≤ 10 ^ k := Nat.pow_le_pow_right (by decide) hjk
            _ ≤ d * 10 ^ k := Nat.le_mul_of_pos_left _ hd
        omega
    exact_mod_cast hle

/-! ## The loop -/

section Loop

variable {target target' out : ℚ} {c n : ℤ} {lo : ℚ} {buckets : List (ℚ × ℤ)}

theorem fraction_nonneg (target : ℚ) (c n : ℤ) : 0 ≤ fraction target c n :=
  le_min zero_le_one (le_max_left _ _)

theorem fraction_le_one (target : ℚ) (c n : ℤ) : fraction target c n ≤ 1 := min_le_left _ _

theorem fraction_mono (hn : 0 < n) (h : target ≤ target') :
    fraction target c n ≤ fraction target' c n := by
  have hn' : (0 : ℚ) < n := by exact_mod_cast hn
  unfold fraction
  gcongr

/-- A share of a bucket is inside the bucket. -/
theorem share_mem (lo : ℚ) :
    lo ≤ lo + fraction target c n * (bucketUpper lo - lo) ∧
      lo + fraction target c n * (bucketUpper lo - lo) ≤ bucketUpper lo := by
  have hwidth : 0 ≤ bucketUpper lo - lo := sub_nonneg.mpr (lt_bucketUpper lo).le
  have hlow := mul_nonneg (fraction_nonneg target c n) hwidth
  have hhigh := mul_le_of_le_one_left hwidth (fraction_le_one target c n)
  constructor
  · linarith
  · linarith

/-- Nonempty buckets, each above the ones before it, up to the largest bound. -/
structure Separated (out : ℚ) (buckets : List (ℚ × ℤ)) : Prop where
  pos : ∀ x ∈ buckets, 0 < x.2
  above : buckets.Pairwise (fun x y => bucketUpper x.1 ≤ y.1)
  out : ∀ x ∈ buckets, bucketUpper x.1 ≤ out

theorem Separated.tail {x : ℚ × ℤ} (h : Separated out (x :: buckets)) : Separated out buckets :=
  { pos := fun y hy => h.pos y (List.mem_cons_of_mem x hy)
    above := (List.pairwise_cons.mp h.above).2
    out := fun y hy => h.out y (List.mem_cons_of_mem x hy) }

theorem le_percentileFrom {x : ℚ} (hb : ∀ y ∈ buckets, x ≤ y.1) (hout : x ≤ out) (c : ℤ) :
    x ≤ percentileFrom target out c buckets := by
  induction buckets generalizing c with
  | nil => exact hout
  | cons y buckets ih =>
    obtain ⟨lo, n⟩ := y
    unfold percentileFrom
    dsimp only
    split
    · exact le_trans (hb (lo, n) List.mem_cons_self) (share_mem lo).1
    · exact ih (fun z hz => hb z (List.mem_cons_of_mem _ hz)) _

theorem percentileFrom_le (h : Separated out buckets) (c : ℤ) :
    percentileFrom target out c buckets ≤ out := by
  induction buckets generalizing c with
  | nil => exact le_refl out
  | cons y buckets ih =>
    obtain ⟨lo, n⟩ := y
    unfold percentileFrom
    dsimp only
    split
    · exact le_trans (share_mem lo).2 (h.out (lo, n) List.mem_cons_self)
    · exact ih h.tail _

/-- **Percentiles are in order.** -/
theorem percentileFrom_mono (h : Separated out buckets) (htarget : target ≤ target') (c : ℤ) :
    percentileFrom target out c buckets ≤ percentileFrom target' out c buckets := by
  induction buckets generalizing c with
  | nil => exact le_refl out
  | cons y buckets ih =>
    obtain ⟨lo, n⟩ := y
    have hwidth : 0 ≤ bucketUpper lo - lo := sub_nonneg.mpr (lt_bucketUpper lo).le
    unfold percentileFrom
    dsimp only
    by_cases h' : target' ≤ (c + n : ℤ)
    · -- both stop here
      rw [if_pos h', if_pos (le_trans htarget h')]
      have hmono := fraction_mono (c := c) (h.pos _ List.mem_cons_self) htarget
      have := mul_le_mul_of_nonneg_right hmono hwidth
      linarith
    · rw [if_neg h']
      by_cases h1 : target ≤ (c + n : ℤ)
      · -- the smaller target stops here, the larger one in a bucket above
        rw [if_pos h1]
        have habove := (List.pairwise_cons.mp h.above).1
        exact le_trans (share_mem lo).2
          (le_percentileFrom habove (h.out (lo, n) List.mem_cons_self) _)
      · rw [if_neg h1]
        exact ih h.tail _

/-- **Where the loop stops**: at the first bucket at which the counts reach the target. -/
theorem percentileFrom_split (out : ℚ) (hc : (c : ℚ) < target)
    (hsum : target ≤ (c + (buckets.map Prod.snd).sum : ℤ)) :
    ∃ pre lo n post, buckets = pre ++ (lo, n) :: post ∧
      ((c + (pre.map Prod.snd).sum : ℤ) : ℚ) < target ∧
      target ≤ (c + (pre.map Prod.snd).sum + n : ℤ) ∧
      lo ≤ percentileFrom target out c buckets ∧
      percentileFrom target out c buckets ≤ bucketUpper lo := by
  induction buckets generalizing c with
  | nil => exact absurd hc (not_lt.mpr (by simpa using hsum))
  | cons y buckets ih =>
    obtain ⟨lo, n⟩ := y
    unfold percentileFrom
    dsimp only
    by_cases h1 : target ≤ (c + n : ℤ)
    · rw [if_pos h1]
      exact ⟨[], lo, n, buckets, rfl, by simpa using hc, by simpa using h1, share_mem lo⟩
    · rw [if_neg h1]
      have hrest : target ≤ (c + n + (buckets.map Prod.snd).sum : ℤ) := by
        simpa [add_assoc] using hsum
      obtain ⟨pre, lo', n', post, rfl, hlt, hle, hin⟩ := ih (not_le.mp h1) hrest
      refine ⟨(lo, n) :: pre, lo', n', post, rfl, ?_, ?_, hin⟩
      · simpa [add_assoc] using hlt
      · simpa [add_assoc] using hle

end Loop

/-! ## Histograms -/

/-- Items with distinct bounds of TRex, counts that are not negative, and not all of them 0. -/
structure TrexHistogram (histogram : List (ℚ × ℤ)) : Prop where
  keys : (histogram.map Prod.fst).Nodup
  bounds : ∀ x ∈ histogram, TrexBound x.1
  counts : ∀ x ∈ histogram, 0 ≤ x.2
  some_count : ∃ x ∈ histogram, x.2 ≠ 0

/-- The count of all packets. -/
def total (histogram : List (ℚ × ℤ)) : ℤ := (histogram.map Prod.snd).sum

/-- The count of the packets up to a bucket. -/
def cumulative (histogram : List (ℚ × ℤ)) (lo : ℚ) : ℤ :=
  ((histogram.filter (fun x => x.1 ≤ lo)).map Prod.snd).sum

section Sorted

variable {histogram : List (ℚ × ℤ)}

theorem mem_sortedBuckets {x : ℚ × ℤ} :
    x ∈ sortedBuckets histogram ↔ x ∈ histogram ∧ 0 < x.2 := by
  simp [sortedBuckets]

theorem sortedBuckets_perm (histogram : List (ℚ × ℤ)) :
    (sortedBuckets histogram).Perm (histogram.filter (fun x => 0 < x.2)) :=
  List.perm_insertionSort _ _

/-- The bounds are strictly increasing. -/
theorem TrexHistogram.sorted (h : TrexHistogram histogram) :
    (sortedBuckets histogram).Pairwise (fun x y => x.1 < y.1) := by
  have hle : (sortedBuckets histogram).Pairwise (fun x y => toLex x ≤ toLex y) :=
    List.pairwise_insertionSort _ _
  have hkeys : ((sortedBuckets histogram).map Prod.fst).Nodup := by
    rw [((sortedBuckets_perm histogram).map Prod.fst).nodup_iff]
    exact h.keys.sublist (List.Sublist.map _ List.filter_sublist)
  rw [List.Nodup, List.pairwise_map] at hkeys
  refine (hle.and hkeys).imp ?_
  rintro x y ⟨hxy, hne⟩
  rcases Prod.Lex.toLex_le_toLex.mp hxy with hlt | ⟨heq, -⟩
  · exact hlt
  · exact absurd heq hne

/-- Empty buckets count nothing. -/
theorem TrexHistogram.sum_filter (h : TrexHistogram histogram) (p : ℚ × ℤ → Bool) :
    (((sortedBuckets histogram).filter p).map Prod.snd).sum =
      ((histogram.filter p).map Prod.snd).sum := by
  have hperm := ((sortedBuckets_perm histogram).filter p).map Prod.snd
  rw [hperm.sum_eq, List.filter_filter]
  have hcomm : histogram.filter (fun x => p x && decide (0 < x.2)) =
      (histogram.filter p).filter (fun x => decide (0 < x.2)) := by
    rw [List.filter_filter]
    exact List.filter_congr fun x _ => Bool.and_comm _ _
  rw [hcomm, Lib.sum_filter_of_zero]
  intro x hx hpos
  have hnonneg := h.counts x (List.mem_of_mem_filter hx)
  have hle : ¬0 < x.2 := by simpa using hpos
  omega

theorem TrexHistogram.sum_sortedBuckets (h : TrexHistogram histogram) :
    ((sortedBuckets histogram).map Prod.snd).sum = total histogram := by
  simpa [total] using h.sum_filter (fun _ => true)

/-- The counts up to the bucket at which the loop stops. -/
theorem TrexHistogram.cumulative_split (h : TrexHistogram histogram) {pre post : List (ℚ × ℤ)}
    {lo : ℚ} {n : ℤ} (hsplit : sortedBuckets histogram = pre ++ (lo, n) :: post) :
    cumulative histogram lo = (pre.map Prod.snd).sum + n ∧
      ∀ x < lo, cumulative histogram x ≤ (pre.map Prod.snd).sum := by
  have hsorted := h.sorted
  rw [hsplit, List.pairwise_append, List.pairwise_cons] at hsorted
  obtain ⟨-, ⟨hpost, -⟩, hpre⟩ := hsorted
  have hlow : ∀ x ∈ pre, x.1 < lo := fun x hx => hpre x hx _ List.mem_cons_self
  constructor
  · have hall : pre.filter (fun x => decide (x.1 ≤ lo)) = pre :=
      List.filter_eq_self.mpr fun x hx => by simpa using (hlow x hx).le
    have hnone : post.filter (fun x => decide (x.1 ≤ lo)) = [] :=
      List.filter_eq_nil_iff.mpr fun x hx => by simpa using hpost x hx
    rw [cumulative, ← h.sum_filter, hsplit]
    simp [hall, hnone]
  · intro x hx
    have hpos : ∀ y ∈ pre, 0 ≤ y.2 := by
      intro y hy
      have hmem : y ∈ sortedBuckets histogram := hsplit ▸ List.mem_append_left _ hy
      exact (mem_sortedBuckets.mp hmem).2.le
    have hnone : ((lo, n) :: post).filter (fun y => decide (y.1 ≤ x)) = [] := by
      refine List.filter_eq_nil_iff.mpr fun y hy => ?_
      have hle : lo ≤ y.1 := by
        rcases List.mem_cons.mp hy with rfl | hy
        · exact le_refl lo
        · exact (hpost y hy).le
      simpa using lt_of_lt_of_le hx hle
    rw [cumulative, ← h.sum_filter, hsplit, List.filter_append, hnone, List.append_nil]
    refine List.Sublist.sum_le_sum (List.Sublist.map _ List.filter_sublist) ?_
    intro m hm
    obtain ⟨y, hy, rfl⟩ := List.mem_map.mp hm
    exact hpos y hy

/-- The last bucket has the largest bound, and the buckets do not overlap. -/
theorem TrexHistogram.separated (h : TrexHistogram histogram) {last : ℚ × ℤ}
    (hlast : (sortedBuckets histogram).getLast? = some last) :
    (∀ x ∈ sortedBuckets histogram, x.1 ≤ last.1) ∧
      Separated (bucketUpper last.1) (sortedBuckets histogram) := by
  have hbound : ∀ x ∈ sortedBuckets histogram, TrexBound x.1 :=
    fun x hx => h.bounds x (mem_sortedBuckets.mp hx).1
  obtain ⟨init, hsplit⟩ := List.getLast?_eq_some_iff.mp hlast
  have hmem : last ∈ sortedBuckets histogram := List.mem_of_getLast? hlast
  have hlow : ∀ x ∈ sortedBuckets histogram, x = last ∨ x.1 < last.1 := by
    intro x hx
    have hsorted := h.sorted
    rw [hsplit] at hx hsorted
    rcases List.mem_append.mp hx with hx | hx
    · exact Or.inr ((List.pairwise_append.mp hsorted).2.2 x hx last List.mem_cons_self)
    · exact Or.inl (List.mem_singleton.mp hx)
  refine ⟨fun x hx => ?_, fun x hx => (mem_sortedBuckets.mp hx).2, ?_, fun x hx => ?_⟩
  · rcases hlow x hx with rfl | hlt
    · exact le_refl _
    · exact hlt.le
  · exact h.sorted.imp_of_mem fun hx hy hlt => bucketUpper_le (hbound _ hx) (hbound _ hy) hlt
  · rcases hlow x hx with rfl | hlt
    · exact le_refl _
    · exact le_trans (bucketUpper_le (hbound x hx) (hbound last hmem) hlt)
        (lt_bucketUpper last.1).le

/-! ## The result -/

/-- The first bucket at which the counts reach a target. -/
def FirstReaching (histogram : List (ℚ × ℤ)) (target lo : ℚ) : Prop :=
  (∃ n, (lo, n) ∈ histogram) ∧ target ≤ cumulative histogram lo ∧
    ∀ x ∈ histogram, x.1 < lo → (cumulative histogram x.1 : ℚ) < target

/-- Percentiles in order, each in the bucket that reaches its share of the packets and not above
    any higher bucket with packets; the maximum ends the highest bucket with packets. -/
structure InBuckets (histogram : List (ℚ × ℤ)) (out : Percentiles) : Prop where
  keys : out.percentile.map Prod.fst = [50, 90, 95, 99]
  ordered : (out.percentile.map Prod.snd ++ [out.max]).Pairwise (· ≤ ·)
  bucket : ∀ p v, (p, v) ∈ out.percentile → ∃ lo,
    FirstReaching histogram (p / 100 * total histogram) lo ∧ lo ≤ v ∧ v ≤ bucketUpper lo ∧
      ∀ x ∈ histogram, 0 < x.2 → lo < x.1 → v ≤ x.1
  max_bucket : ∃ x ∈ histogram, 0 < x.2 ∧ (∀ y ∈ histogram, 0 < y.2 → y.1 ≤ x.1) ∧
    out.max = bucketUpper x.1

/-- There is a bucket with packets. -/
theorem TrexHistogram.exists_last (h : TrexHistogram histogram) :
    0 < total histogram ∧ ∃ last, (sortedBuckets histogram).getLast? = some last := by
  obtain ⟨x, hx, hne⟩ := h.some_count
  have hpos : 0 < x.2 := lt_of_le_of_ne (h.counts x hx) hne.symm
  have hmem : x ∈ sortedBuckets histogram := mem_sortedBuckets.mpr ⟨hx, hpos⟩
  constructor
  · have hle : x.2 ≤ ((sortedBuckets histogram).map Prod.snd).sum := by
      refine List.single_le_sum (fun m hm => ?_) _ (List.mem_map_of_mem hmem)
      obtain ⟨y, hy, rfl⟩ := List.mem_map.mp hm
      exact (mem_sortedBuckets.mp hy).2.le
    rw [h.sum_sortedBuckets] at hle
    omega
  · exact ⟨_, List.getLast?_eq_some_getLast (List.ne_nil_of_mem hmem)⟩

/-- One percentile is in its bucket. -/
theorem TrexHistogram.percentile_bucket (h : TrexHistogram histogram) {target out : ℚ}
    (hpos : 0 < target) (hle : target ≤ total histogram) :
    ∃ lo, FirstReaching histogram target lo ∧
      lo ≤ percentileFrom target out 0 (sortedBuckets histogram) ∧
      percentileFrom target out 0 (sortedBuckets histogram) ≤ bucketUpper lo ∧
      ∀ x ∈ histogram, 0 < x.2 → lo < x.1 →
        percentileFrom target out 0 (sortedBuckets histogram) ≤ x.1 := by
  have hsum : target ≤ (0 + ((sortedBuckets histogram).map Prod.snd).sum : ℤ) := by
    rw [h.sum_sortedBuckets, zero_add]
    exact hle
  obtain ⟨pre, lo, n, post, hsplit, hbefore, hreach, hlow, hhigh⟩ :=
    percentileFrom_split out (by exact_mod_cast hpos) hsum
  obtain ⟨hcum, hbelow⟩ := h.cumulative_split hsplit
  have hmem : (lo, n) ∈ histogram :=
    (mem_sortedBuckets.mp (hsplit ▸ List.mem_append_right _ List.mem_cons_self)).1
  rw [zero_add] at hbefore hreach
  refine ⟨lo, ⟨⟨n, hmem⟩, hcum ▸ hreach, fun x _ hx => ?_⟩, hlow, hhigh, fun x hx _ hlt => ?_⟩
  · have : (cumulative histogram x.1 : ℚ) ≤ ((pre.map Prod.snd).sum : ℤ) := by
      exact_mod_cast hbelow x.1 hx
    exact lt_of_le_of_lt this hbefore
  · exact le_trans hhigh (bucketUpper_le (h.bounds _ hmem) (h.bounds x hx) hlt)

/-- **Percentiles are in order and in the right bucket**; a bucket goes up to the next bound of its
    magnitude, and buckets do not overlap. -/
theorem histogramPercentiles_spec (h : TrexHistogram histogram) :
    (∃ out, histogramPercentiles histogram = some out ∧ InBuckets histogram out) ∧
      bucketUpper 0 = 10 ∧
      (∀ d k : ℕ, 1 ≤ d → d ≤ 9 → bucketUpper (d * 10 ^ k : ℕ) = ((d + 1) * 10 ^ k : ℕ)) ∧
      ∀ a b, TrexBound a → TrexBound b → a < b → bucketUpper a ≤ b := by
  refine ⟨?_, bucketUpper_zero, fun d k hd hd' => bucketUpper_digit hd hd', fun a b => bucketUpper_le⟩
  obtain ⟨htotal, last, hlast⟩ := h.exists_last
  obtain ⟨hmax, hsep⟩ := h.separated hlast
  have hlastmem := mem_sortedBuckets.mp (List.mem_of_getLast? hlast)
  have htotal' : (0 : ℚ) < total histogram := by exact_mod_cast htotal
  have hshare : ∀ p q : ℕ, p ≤ q → (p / 100 * total histogram : ℚ) ≤ q / 100 * total histogram := by
    intro p q hpq
    have hpq : (p : ℚ) ≤ q := by exact_mod_cast hpq
    gcongr
  have hmono : ∀ p q : ℕ, p ≤ q →
      percentileFrom (p / 100 * total histogram) (bucketUpper last.1) 0 (sortedBuckets histogram) ≤
      percentileFrom (q / 100 * total histogram) (bucketUpper last.1) 0 (sortedBuckets histogram) :=
    fun p q hpq => percentileFrom_mono hsep (hshare p q hpq) 0
  refine ⟨_, by rw [histogramPercentiles, hlast], ?_, ?_, ?_, ?_⟩
  · rfl
  · have hsorted : PERCENTILES.Pairwise (· ≤ ·) := by decide
    rw [h.sum_sortedBuckets, List.map_map, List.pairwise_append, List.pairwise_map]
    refine ⟨hsorted.imp (hmono _ _), List.pairwise_singleton _ _, fun x hx y hy => ?_⟩
    obtain ⟨p, -, rfl⟩ := List.mem_map.mp hx
    obtain rfl := List.mem_singleton.mp hy
    exact percentileFrom_le hsep 0
  · intro p v hv
    rw [h.sum_sortedBuckets] at hv
    obtain ⟨q, hq, heq⟩ := List.mem_map.mp hv
    obtain ⟨rfl, rfl⟩ := Prod.mk.inj heq
    have hrange : ∀ q ∈ PERCENTILES, 0 < q ∧ q ≤ 100 := by decide
    obtain ⟨hq0, hq100⟩ := hrange q hq
    have hq0' : (0 : ℚ) < q := by exact_mod_cast hq0
    refine h.percentile_bucket (by positivity) ?_
    calc (q / 100 * total histogram : ℚ) ≤ (100 : ℕ) / 100 * total histogram := hshare q 100 hq100
      _ = total histogram := by norm_num
  · exact ⟨last, hlastmem.1, hlastmem.2,
      fun y hy hpos => hmax y (mem_sortedBuckets.mpr ⟨hy, hpos⟩), rfl⟩

end Sorted

/-- Buckets of three magnitudes, one of them empty. -/
def probeHistogram : List (ℚ × ℤ) := [(20, 5), (100, 3), (0, 1), (90, 0)]

theorem probeHistogram_trex : TrexHistogram probeHistogram := by
  refine ⟨by decide +kernel, ?_, by decide +kernel, by decide +kernel⟩
  simp only [probeHistogram, List.forall_mem_cons]
  refine ⟨Or.inr ⟨2, 1, ?_⟩, Or.inr ⟨1, 2, ?_⟩, Or.inl rfl, Or.inr ⟨9, 1, ?_⟩, nofun⟩
  · norm_num
  · norm_num
  · norm_num

theorem probeHistogram_in_buckets :
    ∃ out, histogramPercentiles probeHistogram = some out ∧ InBuckets probeHistogram out :=
  (histogramPercentiles_spec probeHistogram_trex).1

end QueueDpdk.Trex
