import Mathlib.Algebra.BigOperators.Group.Finset.Piecewise
import Mathlib.Data.List.Count

/-!
# Tallies

Items are counted by the index a function gives them; items without an index are not counted.

* `tally` — the number of items with an index.
* `tally_map` — if indices are merged, their counts add up; `sum_tally` — all counts together.
* `tally_le_map` — merging loses no item.
* `countP_any_congr` — equal tallies agree on every property of the index.
-/

set_option autoImplicit false

namespace Lib

variable {α ι κ : Type} [DecidableEq ι] [DecidableEq κ]

/-- How many items have the index `c`. -/
def tally (f : α → Option ι) (items : List α) (c : ι) : ℕ :=
  items.countP (fun x => decide (f x = some c))

theorem tally_nil (f : α → Option ι) (c : ι) : tally f [] c = 0 := rfl

theorem tally_concat (f : α → Option ι) (items : List α) (x : α) (c : ι) :
    tally f (items ++ [x]) c = tally f items c + if f x = some c then 1 else 0 := by
  simp only [tally, List.countP_append, List.countP_singleton, decide_eq_true_eq]

theorem tally_le_length (f : α → Option ι) (items : List α) (c : ι) :
    tally f items c ≤ items.length := List.countP_le_length

/-- One item in the merged tally. -/
theorem merged_one (g : ι → κ) {columns : Finset ι} (d : κ) {o : Option ι}
    (hcover : ∀ c, o = some c → c ∈ columns) :
    (if o.map g = some d then 1 else 0) =
      ∑ c ∈ columns with g c = d, if o = some c then 1 else 0 := by
  cases o with
  | none => simp
  | some c =>
    have hc := hcover c rfl
    simp only [Option.map_some, Option.some.injEq, Finset.sum_ite_eq, Finset.mem_filter, hc,
      true_and]

/-- **Merging indices** adds up their counts. -/
theorem tally_map (f : α → Option ι) (g : ι → κ) {columns : Finset ι} (d : κ) (items : List α)
    (hcover : ∀ x ∈ items, ∀ c, f x = some c → c ∈ columns) :
    tally (fun x => (f x).map g) items d = ∑ c ∈ columns with g c = d, tally f items c := by
  induction items using List.reverseRecOn with
  | nil => simp only [tally_nil, Finset.sum_const_zero]
  | append_singleton items x ih =>
    have hitems := ih (fun y hy => hcover y (List.mem_append_left _ hy))
    have hone := merged_one g d (hcover x (List.mem_append_right _ List.mem_cons_self))
    simp only [tally_concat, Finset.sum_add_distrib, hitems, hone]

/-- All counts together are the items that are counted at all. -/
theorem sum_tally (f : α → Option ι) {columns : Finset ι} (items : List α)
    (hcover : ∀ x ∈ items, ∀ c, f x = some c → c ∈ columns) :
    ∑ c ∈ columns, tally f items c = items.countP (fun x => (f x).isSome) := by
  have h := tally_map f (fun _ => ()) () items hcover
  rw [Finset.filter_true_of_mem (fun _ _ => rfl)] at h
  rw [← h, tally]
  congr 1
  funext x
  cases f x <;> rfl

theorem tally_le_map (f : α → Option ι) (g : ι → κ) (items : List α) (c : ι) :
    tally f items c ≤ tally (fun x => (f x).map g) items (g c) := by
  apply List.countP_mono_left
  intro x _ hx
  rw [decide_eq_true_eq] at hx ⊢
  show (f x).map g = some (g c)
  rw [hx, Option.map_some]

/-- Items with equal tallies have the same indices up to order. -/
theorem perm_of_tally {f g : α → Option ι} {items : List α}
    (h : ∀ c, tally f items c = tally g items c) :
    (items.filterMap f).Perm (items.filterMap g) := by
  have hcount : ∀ (f : α → Option ι) c, (items.filterMap f).count c = tally f items c := by
    intro f c
    rw [List.count_filterMap, tally]
    congr 1
    funext x
    exact Bool.eq_iff_iff.mpr (beq_iff_eq.trans decide_eq_true_iff.symm)
  rw [List.perm_iff_count]
  intro c
  rw [hcount, hcount]
  exact h c

/-- **Equal tallies** agree on every property of the index. -/
theorem countP_any_congr {f g : α → Option ι} {items : List α}
    (h : ∀ c, tally f items c = tally g items c) (p : ι → Bool) :
    items.countP (fun x => (f x).any p) = items.countP (fun x => (g x).any p) := by
  have hindex : ∀ f : α → Option ι,
      items.countP (fun x => (f x).any p) = (items.filterMap f).countP p := by
    intro f
    rw [List.countP_filterMap]
    congr 1
    funext x
    cases f x <;> rfl
  rw [hindex, hindex]
  exact (perm_of_tally h).countP_eq p

end Lib
