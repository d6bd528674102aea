import Mathlib.Data.List.Basic
import Mathlib.Data.List.Induction
import Mathlib.Logic.Function.Basic

/-!
# Deterministic machines, their runs and their interleavings

A small library about machines that read one input per step, move their state and emit one
event.  It names nothing of a particular program.

* `forall_split_cons` — what holds at every position of a list, item by item.
* `epoch` — the number of marked events of a stream so far; `epoch_eq_iff` says that the times of
  one epoch form an interval between two marks.
* `Machine.trace` — the moves of a finite run, each with the state before and after it;
  `trace_append`, `trace_split` cut a run in two.
* `Machine.trace_inv` — an invariant kept by every move that satisfies a side condition holds
  along every run whose moves all satisfy it; `Machine.history_inv` is the rule for invariants
  that speak of the moves made so far; `Machine.Along` states a property of all steps of a run.
* `Machine.trace_map` — the lockstep rule: a state mapping that commutes with the steps maps the
  trace of one machine to the trace of the other; `Machine.run_sim` is the rule for a relation
  between the states.
* `Machine.run_erase` — deleting moves: if a machine simulates another one move for move except
  for the moves marked as dropped, on which the simulated machine stands still, then the trace
  without the dropped moves is a trace of the simulated machine.
* `Machine.reaches` / `Machine.length_le_of_measure` — progress from a decreasing measure, on
  infinite input streams and on finite runs.
* `Machine.fleet` — several machines taking turns in an arbitrary order; `fleet_trace` says that
  what one of them does is a run of that machine alone.
-/

set_option autoImplicit false

namespace Lib

/-- One move of a run: the state before it, the event it emits and the state after it. -/
structure Move (σ ε : Type) where
  src : σ
  event : ε
  dst : σ

/-- The move seen through a mapping of the states and one of the events. -/
def Move.map {σ ε τ η : Type} (g : σ → τ) (r : ε → η) (m : Move σ ε) : Move τ η :=
  ⟨g m.src, r m.event, g m.dst⟩

@[simp] theorem Move.map_id {σ ε : Type} : (Move.map id id : Move σ ε → Move σ ε) = id := rfl

/-! ## The positions of a list -/

section Positions

variable {α : Type} {P : List α → α → List α → Prop} {a : α} {xs : List α}

theorem forall_split_nil : ∀ ys x zs, [] = ys ++ x :: zs → P ys x zs := by
  intro ys x zs h
  simp at h

/-- What holds at every item of a list, with the items before it and behind it. -/
theorem forall_split_cons : (∀ ys x zs, a :: xs = ys ++ x :: zs → P ys x zs) ↔
    P [] a xs ∧ ∀ ys x zs, xs = ys ++ x :: zs → P (a :: ys) x zs := by
  constructor
  · intro h
    refine ⟨h [] a xs rfl, ?_⟩
    rintro ys x zs rfl
    exact h (a :: ys) x zs rfl
  · rintro ⟨ha, h⟩ ys x zs hsplit
    cases ys with
    | nil =>
      obtain ⟨rfl, rfl⟩ := List.cons.inj hsplit
      exact ha
    | cons y ys =>
      obtain ⟨rfl, hrest⟩ := List.cons.inj hsplit
      exact h ys x zs hrest

end Positions

/-! ## Epochs of a stream -/

section Epochs

variable {ε : Type} {mark : ε → Bool} {ev : ℕ → ε}

/-- The number of marked events before event `n` of a stream. -/
def epoch (mark : ε → Bool) (ev : ℕ → ε) : ℕ → ℕ
  | 0 => 0
  | n + 1 => epoch mark ev n + if mark (ev n) then 1 else 0

theorem epoch_mono (mark : ε → Bool) (ev : ℕ → ε) (t n : ℕ) :
    epoch mark ev t ≤ epoch mark ev (t + n) := by
  induction n with
  | zero => exact Nat.le_refl _
  | succ n ih => exact Nat.le_trans ih (Nat.le_add_right _ _)

theorem epoch_of_unmarked {T L : ℕ} (h : ∀ j < L, mark (ev (T + j)) = false) :
    ∀ j ≤ L, epoch mark ev (T + j) = epoch mark ev T := by
  intro j
  induction j with
  | zero => intro _; rfl
  | succ j ih =>
    intro hj
    rw [← Nat.add_assoc, epoch, ih (by omega), h j (by omega)]
    simp

/-- **An epoch is an interval**: it starts after a mark and ends with the next one. -/
theorem epoch_eq_iff {T L : ℕ} (hstart : T = 0 ∨ ∃ t, T = t + 1 ∧ mark (ev t) = true)
    (hin : ∀ j < L, mark (ev (T + j)) = false) (hend : mark (ev (T + L)) = true) (t : ℕ) :
    epoch mark ev t = epoch mark ev T ↔ T ≤ t ∧ t ≤ T + L := by
  have hafter : epoch mark ev (T + L + 1) = epoch mark ev T + 1 := by
    rw [epoch, epoch_of_unmarked hin L (Nat.le_refl L), hend]
    simp
  constructor
  · intro h
    refine ⟨?_, ?_⟩
    · rcases hstart with rfl | ⟨u, rfl, hu⟩
      · exact Nat.zero_le _
      · by_contra hlt
        have hm := epoch_mono mark ev t (u - t)
        rw [show t + (u - t) = u by omega] at hm
        rw [epoch, hu] at h
        simp at h
        omega
    · by_contra hlt
      have hm := epoch_mono mark ev (T + L + 1) (t - (T + L + 1))
      rw [show T + L + 1 + (t - (T + L + 1)) = t by omega] at hm
      omega
  · rintro ⟨h1, h2⟩
    have := epoch_of_unmarked hin (t - T) (by omega)
    rwa [show T + (t - T) = t by omega] at this

end Epochs

/-! ## Machines -/

/-- A deterministic machine with inputs `ι` and events `ε`. -/
structure Machine (σ ι ε : Type) where
  step : σ → ι → σ × ε

namespace Machine

variable {σ ι ε : Type} (M : Machine σ ι ε)

/-- The move made from `s` on input `x`. -/
def move (s : σ) (x : ι) : Move σ ε := ⟨s, (M.step s x).2, (M.step s x).1⟩

/-- The moves of a run. -/
def trace : σ → List ι → List (Move σ ε)
  | _, [] => []
  | s, x :: xs => M.move s x :: trace (M.step s x).1 xs

/-- The state after a run. -/
def final : σ → List ι → σ
  | s, [] => s
  | s, x :: xs => final (M.step s x).1 xs

/-- The events of a run. -/
def events (s : σ) (xs : List ι) : List ε := (M.trace s xs).map Move.event

@[simp] theorem trace_nil (s : σ) : M.trace s [] = [] := rfl

@[simp] theorem trace_cons (s : σ) (x : ι) (xs : List ι) :
    M.trace s (x :: xs) = M.move s x :: M.trace (M.step s x).1 xs := rfl

@[simp] theorem final_nil (s : σ) : M.final s [] = s := rfl

@[simp] theorem final_cons (s : σ) (x : ι) (xs : List ι) :
    M.final s (x :: xs) = M.final (M.step s x).1 xs := rfl

@[simp] theorem length_trace (s : σ) (xs : List ι) : (M.trace s xs).length = xs.length := by
  induction xs generalizing s with
  | nil => rfl
  | cons x xs ih => simp [ih]

theorem final_append (s : σ) (xs ys : List ι) :
    M.final s (xs ++ ys) = M.final (M.final s xs) ys := by
  induction xs generalizing s with
  | nil => rfl
  | cons x xs ih => simp [ih]

theorem trace_append (s : σ) (xs ys : List ι) :
    M.trace s (xs ++ ys) = M.trace s xs ++ M.trace (M.final s xs) ys := by
  induction xs generalizing s with
  | nil => rfl
  | cons x xs ih => simp [ih]

theorem final_snoc (s : σ) (xs : List ι) (x : ι) :
    M.final s (xs ++ [x]) = (M.step (M.final s xs) x).1 := M.final_append s xs [x]

theorem events_snoc (s : σ) (xs : List ι) (x : ι) :
    M.events s (xs ++ [x]) = M.events s xs ++ [(M.step (M.final s xs) x).2] := by
  simp [events, trace_append, move]

theorem events_append (s : σ) (xs ys : List ι) :
    M.events s (xs ++ ys) = M.events s xs ++ M.events (M.final s xs) ys := by
  simp [events, trace_append]

/-- A cut of the trace is a cut of the inputs. -/
theorem trace_split {s : σ} {xs : List ι} {a b : List (Move σ ε)} (h : M.trace s xs = a ++ b) :
    ∃ ys zs, xs = ys ++ zs ∧ a = M.trace s ys ∧ b = M.trace (M.final s ys) zs := by
  refine ⟨xs.take a.length, xs.drop a.length, (List.take_append_drop _ _).symm, ?_⟩
  rw [← List.take_append_drop a.length xs, trace_append] at h
  have hl : (M.trace s (xs.take a.length)).length = a.length := by
    have := congrArg List.length h
    simp only [List.length_append, length_trace] at this ⊢
    have ht : (xs.take a.length).length ≤ a.length := List.length_take_le _ _
    have hd : (xs.take a.length).length + (xs.drop a.length).length = xs.length := by
      rw [← List.length_append, List.take_append_drop]
    have hm : (xs.take a.length).length = min a.length xs.length := List.length_take
    omega
  obtain ⟨h1, h2⟩ := List.append_inj h hl
  exact ⟨h1.symm, h2.symm⟩

/-- A cut of the trace around one of its moves. -/
theorem trace_split_cons {s : σ} {xs : List ι} {a b : List (Move σ ε)} {m : Move σ ε}
    (h : M.trace s xs = a ++ m :: b) :
    ∃ ys x zs, xs = ys ++ x :: zs ∧ a = M.trace s ys ∧ m = M.move (M.final s ys) x ∧
      b = M.trace (M.step (M.final s ys) x).1 zs := by
  obtain ⟨ys, zs, rfl, ha, hb⟩ := M.trace_split h
  cases zs with
  | nil => cases hb
  | cons x zs =>
    simp only [trace_cons, List.cons.injEq] at hb
    exact ⟨ys, x, zs, rfl, ha, hb.1, hb.2⟩

theorem events_split_cons {s : σ} {xs : List ι} {a b : List ε} {e : ε}
    (h : M.events s xs = a ++ e :: b) :
    ∃ ys x zs, xs = ys ++ x :: zs ∧ a = M.events s ys ∧ e = (M.step (M.final s ys) x).2 ∧
      b = M.events (M.step (M.final s ys) x).1 zs := by
  obtain ⟨ta, tb, ht, rfl, hb⟩ := List.map_eq_append_iff.mp h
  obtain ⟨m, tc, rfl, rfl, rfl⟩ := List.map_eq_cons_iff.mp hb
  obtain ⟨ys, x, zs, rfl, rfl, rfl, rfl⟩ := M.trace_split_cons ht
  exact ⟨ys, x, zs, rfl, rfl, rfl, rfl⟩

/-! ## Invariants -/

/-- **Invariant rule.**  If every move that satisfies `P` keeps `I`, then `I` holds before and
    after every move of a run whose moves all satisfy `P`. -/
theorem trace_inv {I : σ → Prop} {P : Move σ ε → Prop}
    (hstep : ∀ s x, I s → P (M.move s x) → I (M.step s x).1) :
    ∀ (xs : List ι) (s : σ), I s → (∀ m ∈ M.trace s xs, P m) →
      I (M.final s xs) ∧ ∀ m ∈ M.trace s xs, I m.src ∧ I m.dst := by
  intro xs
  induction xs with
  | nil => intro s hs _; exact ⟨hs, by simp⟩
  | cons x xs ih =>
    intro s hs hok
    simp only [trace_cons, List.mem_cons, forall_eq_or_imp] at hok ⊢
    have h' := hstep s x hs hok.1
    obtain ⟨hf, hm⟩ := ih _ h' hok.2
    exact ⟨hf, ⟨hs, h'⟩, hm⟩

/-- The invariant rule without a side condition. -/
theorem final_inv {I : σ → Prop} (hstep : ∀ s x, I s → I (M.step s x).1) (xs : List ι) {s : σ}
    (hs : I s) : I (M.final s xs) :=
  (M.trace_inv (P := fun _ => True) (fun s x h _ => hstep s x h) xs s hs (by simp)).1

/-- **History rule.**  An invariant that relates the state to the moves made so far. -/
theorem history_inv {H : List (Move σ ε) → σ → Prop} {s : σ} (h0 : H [] s)
    (hstep : ∀ tr s x, H tr s → H (tr ++ [M.move s x]) (M.step s x).1) (xs : List ι) :
    H (M.trace s xs) (M.final s xs) := by
  induction xs using List.reverseRecOn with
  | nil => exact h0
  | append_singleton xs x ih =>
    rw [trace_append, final_append]
    exact hstep _ _ x ih

/-- `P` holds of every input of a run, in the state in which the machine reads it. -/
def Along (P : σ → ι → Prop) (s : σ) (xs : List ι) : Prop :=
  ∀ ys x zs, xs = ys ++ x :: zs → P (M.final s ys) x

theorem along_of_forall {P : σ → ι → Prop} {xs : List ι} (h : ∀ x ∈ xs, ∀ s, P s x) (s : σ) :
    M.Along P s xs := by
  rintro ys x zs rfl
  exact h x (by simp) _

@[simp] theorem along_nil (P : σ → ι → Prop) (s : σ) : M.Along P s [] := by
  intro ys x zs h
  simp at h

theorem along_cons {P : σ → ι → Prop} {s : σ} {x : ι} {xs : List ι} :
    M.Along P s (x :: xs) ↔ P s x ∧ M.Along P (M.step s x).1 xs := forall_split_cons

theorem along_snoc {P : σ → ι → Prop} {s : σ} {xs : List ι} {x : ι} :
    M.Along P s (xs ++ [x]) ↔ M.Along P s xs ∧ P (M.final s xs) x := by
  constructor
  · intro h
    refine ⟨fun ys y zs hsplit => ?_, h xs x [] rfl⟩
    apply h ys y (zs ++ [x])
    rw [hsplit]
    simp
  · rintro ⟨h, hx⟩ ys y zs hsplit
    rcases List.eq_nil_or_concat zs with rfl | ⟨zs, z, rfl⟩
    · obtain ⟨rfl, hxy⟩ := List.append_inj' hsplit rfl
      rw [← (List.cons.inj hxy).1]
      exact hx
    · rw [List.concat_eq_append, ← List.cons_append, ← List.append_assoc] at hsplit
      exact h ys y zs (List.append_inj' hsplit rfl).1

/-- Every move of a run is a move of the machine. -/
theorem mem_trace {s : σ} {xs : List ι} {m : Move σ ε} (h : m ∈ M.trace s xs) :
    ∃ x, m = M.move m.src x := by
  induction xs generalizing s with
  | nil => cases h
  | cons x xs ih =>
    rcases List.mem_cons.mp h with rfl | h
    · exact ⟨x, rfl⟩
    · exact ih h

/-! ## Lockstep -/

/-- **Lockstep rule.**  `g` maps the states of `M` to those of `N` and `r` the events.  If every
    step that satisfies `P` from a state in `I` is mapped to a step of `N` on the same input, the
    trace of a run whose moves all satisfy `P` is mapped to the trace of `N` on the same inputs. -/
theorem trace_map {τ η : Type} {N : Machine τ ι η} {g : σ → τ} {r : ε → η} {I : σ → Prop}
    {P : Move σ ε → Prop}
    (hstep : ∀ s x, I s → P (M.move s x) →
      I (M.step s x).1 ∧ N.step (g s) x = (g (M.step s x).1, r (M.step s x).2)) :
    ∀ (xs : List ι) (s : σ), I s → (∀ m ∈ M.trace s xs, P m) →
      (M.trace s xs).map (Move.map g r) = N.trace (g s) xs := by
  intro xs
  induction xs with
  | nil => intro s _ _; rfl
  | cons x xs ih =>
    intro s hs hok
    simp only [trace_cons, List.mem_cons, forall_eq_or_imp] at hok
    obtain ⟨hs', hN⟩ := hstep s x hs hok.1
    rw [trace_cons, trace_cons, List.map_cons, ih _ hs' hok.2]
    simp [move, Move.map, hN]

/-! ## Simulation -/

/-- **Simulation rule.**  `R` relates the states of `M` to those of `N`.  If every step of `M` on an
    input that satisfies `P` is matched by a step of `N` on the same input with the same event, so is
    a run of `M` whose inputs all satisfy `P`. -/
theorem run_sim {τ : Type} {N : Machine τ ι ε} {R : σ → τ → Prop} {P : σ → ι → Prop}
    (hstep : ∀ s t x, R s t → P s x →
      (M.step s x).2 = (N.step t x).2 ∧ R (M.step s x).1 (N.step t x).1)
    {s : σ} {t : τ} (h : R s t) (xs : List ι) (hok : M.Along P s xs) :
    M.events s xs = N.events t xs ∧ R (M.final s xs) (N.final t xs) := by
  induction xs using List.reverseRecOn with
  | nil => exact ⟨rfl, h⟩
  | append_singleton xs x ih =>
    rw [along_snoc] at hok
    obtain ⟨hevents, hfinal⟩ := ih hok.1
    obtain ⟨hevent, hnext⟩ := hstep _ _ x hfinal hok.2
    rw [events_snoc, events_snoc, final_snoc, final_snoc, hevents, hevent]
    exact ⟨rfl, hnext⟩

/-! ## Deleting moves -/

/-- The inputs of the moves that are not dropped. -/
def keptInputs (drop : ε → Bool) : σ → List ι → List ι
  | _, [] => []
  | s, x :: xs =>
    if drop (M.step s x).2 then keptInputs drop (M.step s x).1 xs
    else x :: keptInputs drop (M.step s x).1 xs

/-- A machine that moves in lockstep keeps the same inputs. -/
theorem keptInputs_map {τ : Type} {N : Machine τ ι ε} {g : σ → τ} {drop : ε → Bool}
    (hstep : ∀ s x, N.step (g s) x = (g (M.step s x).1, (M.step s x).2)) :
    ∀ (xs : List ι) (s : σ), N.keptInputs drop (g s) xs = M.keptInputs drop s xs := by
  intro xs
  induction xs with
  | nil => intro s; rfl
  | cons x xs ih =>
    intro s
    simp only [keptInputs, hstep, ih]

/-- **Deletion rule.**  `R` relates the states of `M` to those of `N`; a dropped move of `M`
    leaves the related state of `N` alone, every other one is matched by a move of `N` on the same
    input whose view is the same.  Then the view of the trace of `M` without the dropped moves is
    the view of the trace of `N` on the kept inputs. -/
theorem run_erase {τ ο : Type} {N : Machine τ ι ε} {R : σ → τ → Prop} {drop : ε → Bool}
    {view : Move σ ε → ο} {view' : Move τ ε → ο}
    (hdrop : ∀ s t x, R s t → drop (M.step s x).2 = true → R (M.step s x).1 t)
    (hkeep : ∀ s t x, R s t → drop (M.step s x).2 = false →
      view (M.move s x) = view' (N.move t x) ∧ R (M.step s x).1 (N.step t x).1) :
    ∀ (xs : List ι) (s : σ) (t : τ), R s t →
      ((M.trace s xs).filter (fun m => !drop m.event)).map view =
          (N.trace t (M.keptInputs drop s xs)).map view' ∧
        R (M.final s xs) (N.final t (M.keptInputs drop s xs)) := by
  intro xs
  induction xs with
  | nil => intro s t h; exact ⟨rfl, h⟩
  | cons x xs ih =>
    intro s t h
    cases hd : drop (M.step s x).2 with
    | true =>
      have := ih _ t (hdrop s t x h hd)
      simpa [keptInputs, hd, move] using this
    | false =>
      obtain ⟨hv, hr⟩ := hkeep s t x h hd
      have := ih _ _ hr
      simpa [keptInputs, hd, move] using ⟨⟨hv, this.1⟩, this.2⟩

/-! ## Progress -/

/-- The state after the first `n` inputs of a stream. -/
def stateAt (s : σ) (x : ℕ → ι) : ℕ → σ
  | 0 => s
  | n + 1 => (M.step (stateAt s x n) (x n)).1

/-- The event of the move on input `n` of a stream. -/
def eventAt (s : σ) (x : ℕ → ι) (n : ℕ) : ε := (M.step (M.stateAt s x n) (x n)).2

@[simp] theorem stateAt_zero (s : σ) (x : ℕ → ι) : M.stateAt s x 0 = s := rfl

@[simp] theorem stateAt_succ (s : σ) (x : ℕ → ι) (n : ℕ) :
    M.stateAt s x (n + 1) = (M.step (M.stateAt s x n) (x n)).1 := rfl

theorem stateAt_add (s : σ) (x : ℕ → ι) (t n : ℕ) :
    M.stateAt s x (t + n) = M.stateAt (M.stateAt s x t) (fun k => x (t + k)) n := by
  induction n with
  | zero => rfl
  | succ n ih => rw [← Nat.add_assoc, stateAt_succ, stateAt_succ, ih]

theorem stateAt_inv {I : σ → Prop} (hstep : ∀ s x, I s → I (M.step s x).1) {s : σ} (hs : I s)
    (x : ℕ → ι) (n : ℕ) : I (M.stateAt s x n) := by
  induction n with
  | zero => exact hs
  | succ n ih => exact hstep _ _ ih

/-- **Progress rule.**  If a measure decreases on every move made before `D` holds, `D`
    holds after at most as many moves as the measure says. -/
theorem reaches {I D : σ → Prop} [DecidablePred D] (μ : σ → ℕ)
    (hstep : ∀ s x, I s → ¬D s → I (M.step s x).1 ∧ μ (M.step s x).1 < μ s) :
    ∀ (n : ℕ) (s : σ) (x : ℕ → ι), μ s ≤ n → I s →
      ∃ k ≤ n, D (M.stateAt s x k) ∧ I (M.stateAt s x k) ∧ ∀ j < k, ¬D (M.stateAt s x j) := by
  intro n
  induction n with
  | zero =>
    intro s x hn hs
    by_cases hd : D s
    · exact ⟨0, Nat.le_refl _, hd, hs, fun j hj => absurd hj (Nat.not_lt_zero j)⟩
    · have := (hstep s (x 0) hs hd).2
      omega
  | succ n ih =>
    intro s x hn hs
    by_cases hd : D s
    · exact ⟨0, Nat.zero_le _, hd, hs, fun j hj => absurd hj (Nat.not_lt_zero j)⟩
    · obtain ⟨hi, hμ⟩ := hstep s (x 0) hs hd
      obtain ⟨k, hk, hdone, hik, hbefore⟩ :=
        ih (M.step s (x 0)).1 (fun j => x (1 + j)) (by omega) hi
      have hshift : ∀ j, M.stateAt s x (1 + j) =
          M.stateAt (M.step s (x 0)).1 (fun j => x (1 + j)) j := fun j => M.stateAt_add s x 1 j
      refine ⟨1 + k, by omega, by rw [hshift]; exact hdone, by rw [hshift]; exact hik, ?_⟩
      intro j hj
      cases j with
      | zero => exact hd
      | succ j =>
        rw [Nat.add_comm j 1, hshift]
        exact hbefore j (by omega)

/-! ### Finite runs -/

/-- On a finite run whose moves all decrease the measure, the measure bounds the length. -/
theorem length_le_of_measure (μ : σ → ℕ) :
    ∀ (xs : List ι) (s : σ), (∀ m ∈ M.trace s xs, μ m.dst < μ m.src) → xs.length ≤ μ s := by
  intro xs
  induction xs with
  | nil => intro s _; exact Nat.zero_le _
  | cons x xs ih =>
    intro s h
    simp only [trace_cons, List.mem_cons, forall_eq_or_imp] at h
    have h1 : μ (M.step s x).1 < μ s := h.1
    have h2 := ih _ h.2
    simp only [List.length_cons]
    omega

/-! ## Interleavings -/

/-- Several machines that take turns: an input names the machine that moves. -/
def fleet {κ : Type} [DecidableEq κ] (N : κ → Machine σ ι ε) :
    Machine (κ → σ) (κ × ι) (κ × ε) where
  step s kx := (Function.update s kx.1 ((N kx.1).step (s kx.1) kx.2).1,
    (kx.1, ((N kx.1).step (s kx.1) kx.2).2))

/-- The inputs addressed to machine `k`. -/
def inputsOf {κ : Type} [DecidableEq κ] (k : κ) (xs : List (κ × ι)) : List ι :=
  xs.filterMap (fun p => if p.1 = k then some p.2 else none)

/-- What a fleet's move looks like to machine `k`: nothing if another machine moved. -/
def seenBy {κ : Type} [DecidableEq κ] (k : κ) (m : Move (κ → σ) (κ × ε)) : Option (Move σ ε) :=
  if m.event.1 = k then some ⟨m.src k, m.event.2, m.dst k⟩ else none

/-- **Every interleaving projects to runs**: whatever the order of turns, machine `k` makes the
    moves it makes alone on the inputs addressed to it. -/
theorem fleet_trace {κ : Type} [DecidableEq κ] (N : κ → Machine σ ι ε) (k : κ) :
    ∀ (xs : List (κ × ι)) (s : κ → σ),
      ((fleet N).trace s xs).filterMap (seenBy k) = (N k).trace (s k) (inputsOf k xs) := by
  intro xs
  induction xs with
  | nil => intro s; rfl
  | cons p xs ih =>
    intro s
    obtain ⟨j, x⟩ := p
    rw [trace_cons, List.filterMap_cons, ih]
    by_cases hj : j = k
    · subst hj
      simp [seenBy, move, fleet, inputsOf]
    · have hk : k ≠ j := fun h => hj h.symm
      simp [seenBy, move, fleet, inputsOf, hj, hk]

end Machine

end Lib
