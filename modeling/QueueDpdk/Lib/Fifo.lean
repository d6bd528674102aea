import QueueDpdk.Lib.Machine

/-!
# Queues along a run

A machine that holds a queue: in every step `ins` join it at the end and `outs` leave it at the
front.

* `Machine.fifo_run` — over a whole run what was held and what came in is, in this order, what went
  out and what is held.
* `Machine.fifo_segment` — between two states in which nothing is held, what went out is what came
  in.
-/

set_option autoImplicit false

namespace Lib.Machine

variable {σ ι ε α : Type} (M : Machine σ ι ε)

/-- A cut of the events is a cut of the inputs. -/
theorem events_split {s : σ} {xs : List ι} {a b : List ε} (h : M.events s xs = a ++ b) :
    ∃ ys zs, xs = ys ++ zs ∧ a = M.events s ys ∧ b = M.events (M.final s ys) zs := by
  obtain ⟨ta, tb, ht, rfl, rfl⟩ := List.map_eq_append_iff.mp h
  obtain ⟨ys, zs, rfl, rfl, rfl⟩ := M.trace_split ht
  exact ⟨ys, zs, rfl, rfl, rfl⟩

variable {I : σ → Prop} (held : σ → List α) (ins outs : ε → List α)

/-- **The order of a whole run.** -/
theorem fifo_run (hinv : ∀ s x, I s → I (M.step s x).1)
    (hstep : ∀ s x, I s → held s ++ ins (M.step s x).2 = outs (M.step s x).2 ++ held (M.step s x).1)
    (xs : List ι) {s : σ} (hs : I s) :
    held s ++ (M.events s xs).flatMap ins = (M.events s xs).flatMap outs ++ held (M.final s xs) := by
  induction xs generalizing s with
  | nil => simp [events]
  | cons x xs ih =>
    have htail := ih (hinv s x hs)
    simp only [events, trace_cons, List.map_cons, List.flatMap_cons, final_cons, move] at htail ⊢
    rw [← List.append_assoc, hstep s x hs, List.append_assoc, htail, List.append_assoc]

/-- **The order between two empty states.** -/
theorem fifo_segment (hinv : ∀ s x, I s → I (M.step s x).1)
    (hstep : ∀ s x, I s → held s ++ ins (M.step s x).2 = outs (M.step s x).2 ++ held (M.step s x).1)
    {xs : List ι} {s : σ} (hs : I s) (hbefore : held s = []) (hafter : held (M.final s xs) = []) :
    (M.events s xs).flatMap outs = (M.events s xs).flatMap ins := by
  have h := M.fifo_run held ins outs hinv hstep xs hs
  simpa [hbefore, hafter] using h.symm

end Lib.Machine
