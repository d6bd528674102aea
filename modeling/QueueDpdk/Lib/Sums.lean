import Mathlib.Algebra.BigOperators.Group.List.Lemmas
import Mathlib.Algebra.Order.BigOperators.Group.List
import Mathlib.Algebra.Order.Ring.Nat

/-!
# Sums over some of the entries of a list

* `sum_filter_le`, `sum_filter_eq_iff` — leaving out entries makes a sum smaller, unless they are 0.
* `sum_filter_of_zero` — entries that are 0 can be left out.
* `sum_sub` — the sum of the differences is the difference of the sums.
-/

set_option autoImplicit false

namespace Lib

theorem sum_filter_of_zero {α M : Type} [AddMonoid M] {p : α → Bool} {f : α → M} {xs : List α}
    (h : ∀ x ∈ xs, p x = false → f x = 0) : ((xs.filter p).map f).sum = (xs.map f).sum := by
  induction xs with
  | nil => rfl
  | cons x xs ih =>
    have ih := ih fun y hy => h y (List.mem_cons_of_mem x hy)
    cases hp : p x with
    | true => simp [hp, ih]
    | false => simp [hp, ih, h x List.mem_cons_self hp]

variable {α : Type} {p : α → Bool} {f g : α → ℕ} {xs : List α}

theorem sum_filter_le (p : α → Bool) (f : α → ℕ) (xs : List α) :
    ((xs.filter p).map f).sum ≤ (xs.map f).sum := by
  induction xs with
  | nil => exact Nat.le_refl _
  | cons x xs ih =>
    cases hp : p x with
    | true => simpa [hp] using ih
    | false =>
      rw [List.filter_cons_of_neg (by simp [hp]), List.map_cons, List.sum_cons]
      exact Nat.le_trans ih (Nat.le_add_left _ _)

/-- Nothing is lost just in case the entries left out are 0. -/
theorem sum_filter_eq_iff :
    ((xs.filter p).map f).sum = (xs.map f).sum ↔ ∀ x ∈ xs, p x = false → f x = 0 := by
  induction xs with
  | nil => simp
  | cons x xs ih =>
    cases hp : p x with
    | true => simp [hp, ih]
    | false =>
      have hle := sum_filter_le p f xs
      rw [List.filter_cons_of_neg (by simp [hp]), List.map_cons, List.sum_cons]
      simp only [List.mem_cons, forall_eq_or_imp, hp, true_imp_iff, ← ih]
      omega

/-- The differences add up to the difference. -/
theorem sum_sub (h : ∀ x ∈ xs, f x ≤ g x) :
    (xs.map (fun x => g x - f x)).sum = (xs.map g).sum - (xs.map f).sum := by
  induction xs with
  | nil => rfl
  | cons x xs ih =>
    have hx := h x List.mem_cons_self
    have hxs := fun y hy => h y (List.mem_cons_of_mem x hy)
    have hle := List.sum_le_sum hxs
    have hih := ih hxs
    simp only [List.map_cons, List.sum_cons]
    omega

end Lib
