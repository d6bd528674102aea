import Mathlib.Data.List.Basic
import Mathlib.Data.List.Induction

/-!
# Runs that may fail

A step that may fail, on one item after the other: `List.foldlM` in `Option`.

* `foldlM_split` — a run that succeeds, cut around one of its items.
* `foldlM_inv` — an invariant of the steps that succeed holds after the run, with the items read.
* `foldlM_keeps` — a function of the state that the items do not change.
-/

set_option autoImplicit false

namespace Lib

section Attempts

variable {σ ι : Type} {step : σ → ι → Option σ}

theorem foldlM_cons_some {x : ι} {xs : List ι} {s s' : σ} :
    (x :: xs).foldlM step s = some s' ↔ ∃ t, step s x = some t ∧ xs.foldlM step t = some s' := by
  rw [List.foldlM_cons]
  exact Option.bind_eq_some_iff

theorem foldlM_append_some {xs ys : List ι} {s s' : σ} :
    (xs ++ ys).foldlM step s = some s' ↔
      ∃ t, xs.foldlM step s = some t ∧ ys.foldlM step t = some s' := by
  rw [List.foldlM_append]
  exact Option.bind_eq_some_iff

/-- A cut around an item. -/
theorem foldlM_split {xs ys : List ι} {x : ι} {s s' : σ}
    (h : (xs ++ x :: ys).foldlM step s = some s') :
    ∃ t t', xs.foldlM step s = some t ∧ step t x = some t' ∧ ys.foldlM step t' = some s' := by
  obtain ⟨t, hxs, h⟩ := foldlM_append_some.mp h
  obtain ⟨t', hx, hys⟩ := foldlM_cons_some.mp h
  exact ⟨t, t', hxs, hx, hys⟩

/-- **Invariant rule**, for invariants that speak of the items read so far. -/
theorem foldlM_inv {I : List ι → σ → Prop} {s : σ} (h0 : I [] s)
    (hstep : ∀ xs x t t', I xs t → step t x = some t' → I (xs ++ [x]) t') :
    ∀ (xs : List ι) (s' : σ), xs.foldlM step s = some s' → I xs s' := by
  intro xs
  induction xs using List.reverseRecOn with
  | nil =>
    intro s' h
    obtain rfl := Option.some.inj h
    exact h0
  | append_singleton xs x ih =>
    intro s' h
    obtain ⟨t, t', hxs, hx, hnil⟩ := foldlM_split h
    obtain rfl := Option.some.inj hnil
    exact hstep xs x t t' (ih t hxs) hx

/-- **Frame rule.** -/
theorem foldlM_keeps {β : Type} {f : σ → β} {P : ι → Prop}
    (hstep : ∀ t x t', P x → step t x = some t' → f t' = f t) {xs : List ι} {s s' : σ}
    (hP : ∀ x ∈ xs, P x) (h : xs.foldlM step s = some s') : f s' = f s := by
  refine foldlM_inv (I := fun ys t => (∀ x ∈ ys, P x) → f t = f s) (fun _ => rfl) ?_ xs s' h hP
  intro ys x t t' ih hx hall
  rw [hstep t x t' (hall x (by simp)) hx]
  exact ih (fun y hy => hall y (List.mem_append_left _ hy))

end Attempts

end Lib
