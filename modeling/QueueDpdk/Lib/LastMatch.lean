import Mathlib.Data.List.Induction

/-!
# The last match of a list

* `lastMatch` — the last item that passes a test.
* `lastMatch_max` — in a sorted list, no match has a greater key.
-/

set_option autoImplicit false

namespace Lib

variable {α : Type} {p : α → Bool} {xs : List α} {x : α}

/-- The last item that passes the test. -/
def lastMatch (p : α → Bool) (xs : List α) : Option α := xs.reverse.find? p

@[simp] theorem lastMatch_nil (p : α → Bool) : lastMatch p [] = none := rfl

@[simp] theorem lastMatch_snoc (p : α → Bool) (xs : List α) (x : α) :
    lastMatch p (xs ++ [x]) = if p x = true then some x else lastMatch p xs := by
  simp only [lastMatch, List.reverse_append, List.reverse_singleton, List.singleton_append,
    List.find?_cons]
  cases p x <;> simp

theorem lastMatch_mem (h : lastMatch p xs = some x) : x ∈ xs ∧ p x = true :=
  ⟨List.mem_reverse.mp (List.mem_of_find?_eq_some h), List.find?_some h⟩

/-- **The greatest key.**  In a sorted list, the last match has it. -/
theorem lastMatch_max {key : α → ℕ} (hsorted : xs.Pairwise fun a b => key a ≤ key b)
    (h : lastMatch p xs = some x) : ∀ y ∈ xs, p y = true → key y ≤ key x := by
  induction xs using List.reverseRecOn with
  | nil => simp
  | append_singleton xs z ih =>
    rw [List.pairwise_append] at hsorted
    obtain ⟨hxs, -, hlast⟩ := hsorted
    rw [lastMatch_snoc] at h
    intro y hy hpy
    rcases List.mem_append.mp hy with hmem | hz
    · split at h
      · cases h
        exact hlast y hmem _ List.mem_cons_self
      · exact ih hxs h y hmem hpy
    · obtain rfl : y = z := by simpa using hz
      rw [if_pos hpy] at h
      cases h
      exact Nat.le_refl _

end Lib
