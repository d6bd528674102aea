import Mathlib.Order.Interval.Set.Union
import Mathlib.Algebra.Order.Group.Nat
import Mathlib.Tactic.Ring

/-!
# Cutting an interval into slices

`n` consumers share the interval `[first, last)`: consumer `k` owns `[bound k, bound (k + 1))`.

* `Slices` — the bounds, strictly increasing from `first` to `last`.
* `Slices.owner_existsUnique` — every element of the interval has exactly one owner.
* `evenSlices` — the bounds `q * k / n`; no slice is longer than `q / n` rounded up.
* `dealtSlices` — every consumer gets `q / n` elements and the first `q % n` one more;
  `dealtOwner` computes the owner of an element from the other side.
-/

set_option autoImplicit false

namespace Lib

/-- The bounds of `n` consecutive non-empty slices of `[first, last)`. -/
structure Slices {β : Type} [LinearOrder β] (n : ℕ) (first last : β) where
  bound : ℕ → β
  bound_zero : bound 0 = first
  bound_last : bound n = last
  nonempty : ∀ k < n, bound k < bound (k + 1)

namespace Slices

variable {β : Type} [LinearOrder β] {n : ℕ} {first last : β} (S : Slices n first last)

/-- Consumer `k` owns `x`. -/
def Owns (k : ℕ) (x : β) : Prop := S.bound k ≤ x ∧ x < S.bound (k + 1)

theorem bound_mono {j k : ℕ} (hjk : j ≤ k) (hk : k ≤ n) : S.bound j ≤ S.bound k := by
  induction k with
  | zero => rw [Nat.le_zero.mp hjk]
  | succ k ih =>
    rcases Nat.lt_or_eq_of_le hjk with hlt | rfl
    · exact (ih (Nat.lt_succ_iff.mp hlt) (Nat.le_of_succ_le hk)).trans (S.nonempty k hk).le
    · exact le_refl _

theorem first_le_bound {k : ℕ} (hk : k ≤ n) : first ≤ S.bound k := by
  have h := S.bound_mono (Nat.zero_le k) hk
  rwa [S.bound_zero] at h

theorem bound_le_last {k : ℕ} (hk : k ≤ n) : S.bound k ≤ last := by
  have h := S.bound_mono hk (Nat.le_refl n)
  rwa [S.bound_last] at h

/-- The slices follow each other in the order of their consumers. -/
theorem ascending {j k : ℕ} (hjk : j < k) (hk : k < n) : S.bound (j + 1) ≤ S.bound k :=
  S.bound_mono hjk hk.le

theorem owns_unique {j k : ℕ} {x : β} (hj : S.Owns j x) (hk : S.Owns k x) (hjn : j < n)
    (hkn : k < n) : j = k := by
  rcases Nat.lt_trichotomy j k with hlt | rfl | hlt
  · exact absurd (hj.2.trans_le ((S.ascending hlt hkn).trans hk.1)) (lt_irrefl x)
  · rfl
  · exact absurd (hk.2.trans_le ((S.ascending hlt hjn).trans hj.1)) (lt_irrefl x)

theorem owns_mem {k : ℕ} {x : β} (hk : k < n) (h : S.Owns k x) : first ≤ x ∧ x < last :=
  ⟨(S.first_le_bound hk.le).trans h.1, h.2.trans_le (S.bound_le_last (Nat.succ_le_of_lt hk))⟩

theorem exists_owner {x : β} (h0 : first ≤ x) (h1 : x < last) : ∃ k < n, S.Owns k x := by
  rw [← S.bound_zero] at h0
  rw [← S.bound_last] at h1
  have hcover := Ico_subset_biUnion_Ico n S.bound ⟨h0, h1⟩
  simp only [Set.mem_iUnion, Finset.mem_range, Set.mem_Ico] at hcover
  obtain ⟨k, hk, hown⟩ := hcover
  exact ⟨k, hk, hown⟩

/-- **Every element has exactly one owner.** -/
theorem owner_existsUnique {x : β} (h0 : first ≤ x) (h1 : x < last) :
    ∃! k, k < n ∧ S.Owns k x := by
  obtain ⟨k, hk, hown⟩ := S.exists_owner h0 h1
  exact ⟨k, ⟨hk, hown⟩, fun j hj => S.owns_unique hj.2 hown hj.1 hk⟩

end Slices

/-! ## Even slices -/

theorem evenBound_lt {q n : ℕ} (hn : 1 ≤ n) (hq : n ≤ q) (k : ℕ) :
    q * k / n < q * (k + 1) / n := by
  have hstep : q * k / n + 1 ≤ (q * k + q) / n := by
    rw [← Nat.add_div_right _ hn]
    exact Nat.div_le_div_right (Nat.add_le_add_left hq _)
  rwa [Nat.mul_succ]

/-- `n` slices of `[0, q)` with the bounds `q * k / n`. -/
def evenSlices (q n : ℕ) (hn : 1 ≤ n) (hq : n ≤ q) : Slices n 0 q where
  bound k := q * k / n
  bound_zero := by rw [Nat.mul_zero, Nat.zero_div]
  bound_last := Nat.mul_div_cancel q hn
  nonempty k _ := evenBound_lt hn hq k

/-- The first bound of consumer `k` when the first `q % n` consumers get one element more. -/
def dealtBound (first q n k : ℕ) : ℕ := first + k * (q / n) + min k (q % n)

/-- Consumer `k` gets `q / n` elements, and one more if it is among the first `q % n`. -/
theorem dealtBound_succ (first q n k : ℕ) :
    dealtBound first q n (k + 1) =
      dealtBound first q n k + (q / n + if k < q % n then 1 else 0) := by
  unfold dealtBound
  rw [Nat.succ_mul]
  split <;> omega

/-- `n` slices of `q` elements from `first` on, dealt out as evenly as possible. -/
def dealtSlices (first q n : ℕ) (hn : 1 ≤ n) (hq : n ≤ q) : Slices n first (first + q) where
  bound := dealtBound first q n
  bound_zero := by
    unfold dealtBound
    omega
  bound_last := by
    have hmod := Nat.mod_lt q hn
    have hdiv := Nat.div_add_mod q n
    unfold dealtBound
    rw [Nat.min_eq_right hmod.le]
    omega
  nonempty k _ := by
    have hpos : 0 < q / n := Nat.div_pos hq hn
    rw [dealtBound_succ]
    omega

/-- The owner of element `x`, counted from `first`: the consumers with one element more come
    first and end at `q % n * (q / n + 1)`. -/
def dealtOwner (q n x : ℕ) : ℕ :=
  if x < q % n * (q / n + 1) then x / (q / n + 1)
  else q % n + (x - q % n * (q / n + 1)) / (q / n)

/-- The bounds of the consumers with one element more. -/
theorem dealtBound_low {q n k : ℕ} (hk : k ≤ q % n) :
    dealtBound 0 q n k = k * (q / n + 1) := by
  unfold dealtBound
  rw [Nat.min_eq_left hk, Nat.zero_add, Nat.mul_succ]

/-- The bounds of the others, counted from the boundary between the two kinds. -/
theorem dealtBound_high {q n k : ℕ} (hk : q % n ≤ k) :
    dealtBound 0 q n k = q % n * (q / n + 1) + (k - q % n) * (q / n) := by
  obtain ⟨j, rfl⟩ := Nat.exists_eq_add_of_le hk
  unfold dealtBound
  rw [Nat.min_eq_right hk, Nat.add_sub_cancel_left]
  ring

/-- **The two directions agree**: `dealtOwner` names the consumer whose slice holds `x`. -/
theorem dealtSlices_owns {q n x : ℕ} (hn : 1 ≤ n) (hq : n ≤ q) (hx : x < q) :
    dealtOwner q n x < n ∧ (dealtSlices 0 q n hn hq).Owns (dealtOwner q n x) x := by
  have hpos : 0 < q / n := Nat.div_pos hq hn
  have hmod : q % n < n := Nat.mod_lt q hn
  have hlast : dealtBound 0 q n n = 0 + q := (dealtSlices 0 q n hn hq).bound_last
  rw [dealtBound_high hmod.le] at hlast
  unfold dealtOwner
  split
  · rename_i hlt
    -- among the consumers with one element more
    have hk : x / (q / n + 1) < q % n := Nat.div_lt_of_lt_mul (by rwa [Nat.mul_comm])
    refine ⟨hk.trans hmod, ?_, ?_⟩
    · show dealtBound 0 q n (x / (q / n + 1)) ≤ x
      rw [dealtBound_low hk.le]
      exact Nat.div_mul_le_self _ _
    · show x < dealtBound 0 q n (x / (q / n + 1) + 1)
      rw [dealtBound_low hk]
      rw [Nat.mul_comm]
      exact Nat.lt_mul_div_succ x (Nat.succ_pos _)
  · rename_i hge
    -- among the others
    have hrest : x - q % n * (q / n + 1) < (q / n) * (n - q % n) := by
      rw [Nat.mul_comm (q / n)]
      omega
    have hk := Nat.div_lt_of_lt_mul hrest
    have hlow := Nat.div_mul_le_self (x - q % n * (q / n + 1)) (q / n)
    have hhigh := Nat.lt_mul_div_succ (x - q % n * (q / n + 1)) hpos
    rw [Nat.mul_comm (q / n)] at hhigh
    generalize (x - q % n * (q / n + 1)) / (q / n) = j at hk hlow hhigh ⊢
    refine ⟨by omega, ?_, ?_⟩
    · show dealtBound 0 q n (q % n + j) ≤ x
      rw [dealtBound_high (Nat.le_add_right _ _), Nat.add_sub_cancel_left]
      omega
    · show x < dealtBound 0 q n (q % n + j + 1)
      rw [dealtBound_high (by omega), Nat.add_assoc (q % n), Nat.add_sub_cancel_left]
      omega

/-- Shifting the interval shifts the slices. -/
theorem dealtSlices_owns_sub {first q n k x : ℕ} (hn : 1 ≤ n) (hq : n ≤ q) (hx : first ≤ x) :
    (dealtSlices first q n hn hq).Owns k x ↔ (dealtSlices 0 q n hn hq).Owns k (x - first) := by
  show dealtBound first q n k ≤ x ∧ x < dealtBound first q n (k + 1) ↔
    dealtBound 0 q n k ≤ x - first ∧ x - first < dealtBound 0 q n (k + 1)
  simp only [dealtBound]
  omega

/-- A consumer owns the elements of the interval that `dealtOwner` gives to it. -/
theorem dealtSlices_owns_iff {first q n k x : ℕ} (hn : 1 ≤ n) (hq : n ≤ q) (hk : k < n) :
    (dealtSlices first q n hn hq).Owns k x ↔
      (first ≤ x ∧ x < first + q) ∧ dealtOwner q n (x - first) = k := by
  constructor
  · intro h
    obtain ⟨h0, h1⟩ := (dealtSlices first q n hn hq).owns_mem hk h
    obtain ⟨hlt, hown⟩ := dealtSlices_owns hn hq (show x - first < q by omega)
    rw [dealtSlices_owns_sub hn hq h0] at h
    exact ⟨⟨h0, h1⟩, Slices.owns_unique _ hown h hlt hk⟩
  · rintro ⟨⟨h0, h1⟩, rfl⟩
    rw [dealtSlices_owns_sub hn hq h0]
    exact (dealtSlices_owns hn hq (by omega)).2

end Lib
