import Mathlib.Data.Finset.Card
import Mathlib.Logic.Function.Basic
import Mathlib.Order.Interval.Finset.Nat

/-!
# Linear probing with path counters

A table of `cap` slots.  An entry with home slot `h` is searched at `h`, `h + 1`, … modulo `cap`.
It names nothing of a particular program.

* `probe cap h i` — the `i`-th slot of the search that starts at `h`; `dist cap h s` — at which step
  it comes to `s`.
* `crossings` — how many busy slots are reached by a search that comes through a given slot first.
  A search may stop at a slot that nothing crosses (`crossings_pos`).
* `count_step` — what a search does to the counters of the slots it comes through.
* `crossings_insert`, `crossings_erase` — filling or emptying a slot changes the counters of the
  slots on the way to it by one.
-/

set_option autoImplicit false

namespace Lib

/-- The `i`-th slot of the search that starts at `h`. -/
def probe (cap h i : Nat) : Nat := (h + i) % cap

/-- The step at which the search that starts at `h` comes to `s`. -/
def dist (cap h s : Nat) : Nat := (s + cap - h) % cap

section Distance

variable {cap h s i : Nat}

theorem probe_lt (hc : 0 < cap) : probe cap h i < cap := Nat.mod_lt _ hc

theorem dist_lt (hc : 0 < cap) : dist cap h s < cap := Nat.mod_lt _ hc

theorem dist_eq (hh : h < cap) (hs : s < cap) :
    dist cap h s = if h ≤ s then s - h else s + cap - h := by
  unfold dist
  split
  · rw [show s + cap - h = s - h + cap by omega, Nat.add_mod_right, Nat.mod_eq_of_lt (by omega)]
  · exact Nat.mod_eq_of_lt (by omega)

theorem probe_eq (hh : h < cap) (hi : i < cap) :
    probe cap h i = if h + i < cap then h + i else h + i - cap := by
  unfold probe
  split
  · exact Nat.mod_eq_of_lt (by omega)
  · rw [show h + i = h + i - cap + cap by omega, Nat.add_mod_right, Nat.mod_eq_of_lt (by omega)]
    omega

theorem probe_dist (hh : h < cap) (hs : s < cap) : probe cap h (dist cap h s) = s := by
  have hd : dist cap h s < cap := dist_lt (by omega)
  rw [probe_eq hh hd, dist_eq hh hs]
  split <;> split <;> omega

theorem dist_probe (hh : h < cap) (hi : i < cap) : dist cap h (probe cap h i) = i := by
  have hp : probe cap h i < cap := probe_lt (by omega)
  rw [dist_eq hh hp, probe_eq hh hi]
  split <;> split <;> omega

/-- Counting the steps from `i` to `k` of a search: the first step, then the others. -/
theorem count_step {k : Nat} (hh : h < cap) (hi : i < cap) (hs : s < cap) (hk : i < k)
    (f : Nat → Int) (d : Int) :
    Function.update f (probe cap h i) (f (probe cap h i) + d) s +
        (if i + 1 ≤ dist cap h s ∧ dist cap h s < k then d else 0) =
      f s + if i ≤ dist cap h s ∧ dist cap h s < k then d else 0 := by
  by_cases hsi : s = probe cap h i
  · subst hsi
    rw [Function.update_self, dist_probe hh hi, if_neg (by omega), if_pos (by omega), Int.add_zero]
  · have hd : dist cap h s ≠ i := by
      intro hd
      apply hsi
      rw [← hd, probe_dist hh hs]
    rw [Function.update_of_ne hsi]
    congr 1
    apply if_congr _ rfl rfl
    constructor
    · rintro ⟨h1, h2⟩
      exact ⟨by omega, h2⟩
    · rintro ⟨h1, h2⟩
      exact ⟨by omega, h2⟩

end Distance

/-! ## Counters -/

/-- The busy slots whose search crosses `s`. -/
def crossing (cap : Nat) (busy : Nat → Bool) (home : Nat → Nat) (s : Nat) : Finset Nat :=
  (Finset.range cap).filter
    (fun j => busy j = true ∧ dist cap (home j) s < dist cap (home j) j)

/-- Their number. -/
def crossings (cap : Nat) (busy : Nat → Bool) (home : Nat → Nat) (s : Nat) : Nat :=
  (crossing cap busy home s).card

/-- The number of busy slots. -/
def occupied (cap : Nat) (busy : Nat → Bool) : Nat :=
  ((Finset.range cap).filter (fun j => busy j = true)).card

section Counters

variable {cap : Nat} {busy : Nat → Bool} {home : Nat → Nat} {j h : Nat}

theorem crossings_pos (s : Nat) (hj : j < cap) (hb : busy j = true)
    (hd : dist cap (home j) s < dist cap (home j) j) : 0 < crossings cap busy home s := by
  refine Finset.card_pos.mpr ⟨j, ?_⟩
  exact Finset.mem_filter.mpr ⟨Finset.mem_range.mpr hj, hb, hd⟩

theorem crossings_insert (home : Nat → Nat) (h : Nat) (hj : j < cap) (hb : busy j = false)
    (s : Nat) : crossings cap (Function.update busy j true) (Function.update home j h) s =
      crossings cap busy home s + if dist cap h s < dist cap h j then 1 else 0 := by
  have hold : j ∉ crossing cap busy home s := by
    intro hmem
    have := (Finset.mem_filter.mp hmem).2.1
    rw [hb] at this
    cases this
  have hset : crossing cap (Function.update busy j true) (Function.update home j h) s =
      if dist cap h s < dist cap h j then insert j (crossing cap busy home s)
      else crossing cap busy home s := by
    ext k
    unfold crossing
    by_cases hk : k = j
    · subst hk
      split <;> rename_i hd <;> simp [hb, hd, hj]
    · split <;> simp [hk]
  unfold crossings
  rw [hset]
  split
  · rw [Finset.card_insert_of_notMem hold]
  · rfl

theorem crossings_erase (hj : j < cap) (hb : busy j = true) (s : Nat) :
    crossings cap busy home s = crossings cap (Function.update busy j false) home s +
      if dist cap (home j) s < dist cap (home j) j then 1 else 0 := by
  have := crossings_insert home (home j) hj
    (show Function.update busy j false j = false from Function.update_self ..) s
  rwa [Function.update_idem, Function.update_eq_self, ← hb, Function.update_eq_self] at this

theorem occupied_insert (hj : j < cap) (hb : busy j = false) :
    occupied cap (Function.update busy j true) = occupied cap busy + 1 := by
  have hold : j ∉ (Finset.range cap).filter (fun j => busy j = true) := by
    simp [hb]
  have hset : (Finset.range cap).filter (fun k => Function.update busy j true k = true) =
      insert j ((Finset.range cap).filter (fun j => busy j = true)) := by
    ext k
    by_cases hk : k = j
    · subst hk; simp [hj]
    · simp [hk]
  unfold occupied
  rw [hset, Finset.card_insert_of_notMem hold]

theorem occupied_erase (hj : j < cap) (hb : busy j = true) :
    occupied cap busy = occupied cap (Function.update busy j false) + 1 := by
  have := occupied_insert hj (show Function.update busy j false j = false from
    Function.update_self ..)
  rwa [Function.update_idem, ← hb, Function.update_eq_self] at this

/-- A table that is not full has a slot to spare. -/
theorem exists_free (h : occupied cap busy < cap) : ∃ j < cap, busy j = false := by
  by_contra hno
  have hall : (Finset.range cap).filter (fun j => busy j = true) = Finset.range cap := by
    refine Finset.filter_true_of_mem (fun j hj => ?_)
    by_contra hb
    exact hno ⟨j, Finset.mem_range.mp hj, Bool.eq_false_iff.mpr hb⟩
  unfold occupied at h
  rw [hall, Finset.card_range] at h
  exact absurd h (Nat.lt_irrefl cap)

end Counters

end Lib
