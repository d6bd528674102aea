import Mathlib.Data.List.Perm.Basic
import QueueDpdk.Lib.Attempts

/-!
# Items dealt to rows

Each item is dealt to the next free place of a row of an array; all rows have one width.

* `place` — one item; it fails behind the array.
* `rowItems` — the items of a row, in the order in which they came.
* `places_spec` — if no row overflows, the rows hold just these.
-/

set_option autoImplicit false

namespace Lib

/-- The items dealt to a row. -/
def rowItems (ds : List (ℕ × ℕ)) (b : ℕ) : List ℕ :=
  (ds.filter fun d => d.1 == b).map Prod.snd

/-- The next place of each row, and the array of all rows. -/
structure Dealt where
  next : ℕ → ℕ
  cells : ℕ → ℕ

/-- An item for a row. -/
def place (height width : ℕ) (s : Dealt) (d : ℕ × ℕ) : Option Dealt :=
  if width * d.1 + s.next d.1 < height * width then
    some ⟨Function.update s.next d.1 (s.next d.1 + 1),
      Function.update s.cells (width * d.1 + s.next d.1) d.2⟩
  else none

/-- The rows hold the items that were dealt. -/
structure RowsHold (width : ℕ) (ds : List (ℕ × ℕ)) (s : Dealt) : Prop where
  fits : ∀ b, (rowItems ds b).length ≤ width
  next : ∀ b, s.next b = (rowItems ds b).length
  cells : ∀ b k x, (rowItems ds b)[k]? = some x → s.cells (width * b + k) = x

section Dealing

variable {height width b x : ℕ} {ds : List (ℕ × ℕ)} {s : Dealt}

@[simp] theorem rowItems_nil (b : ℕ) : rowItems [] b = [] := rfl

theorem rowItems_snoc_self (ds : List (ℕ × ℕ)) (b x : ℕ) :
    rowItems (ds ++ [(b, x)]) b = rowItems ds b ++ [x] := by
  simp [rowItems]

theorem rowItems_snoc_of_ne (ds : List (ℕ × ℕ)) {b c : ℕ} (h : c ≠ b) (x : ℕ) :
    rowItems (ds ++ [(b, x)]) c = rowItems ds c := by
  simp [rowItems, Ne.symm h]

theorem rowItems_append (ds es : List (ℕ × ℕ)) (b : ℕ) :
    rowItems (ds ++ es) b = rowItems ds b ++ rowItems es b := by
  simp [rowItems]

/-- Places of different rows differ. -/
theorem place_inj {k k' c : ℕ} (hk : k < width) (hk' : k' < width)
    (h : width * b + k = width * c + k') : b = c ∧ k = k' := by
  have hb : b = c := by
    have hdiv := congrArg (· / width) h
    simpa [Nat.mul_add_div (Nat.zero_lt_of_lt hk), Nat.div_eq_of_lt hk, Nat.div_eq_of_lt hk']
      using hdiv
  subst hb
  exact ⟨rfl, Nat.add_left_cancel h⟩

/-- One item, if its row has room. -/
theorem RowsHold.place (h : RowsHold width ds s) (hb : b < height)
    (hroom : (rowItems ds b).length < width) :
    ∃ s', place height width s (b, x) = some s' ∧ RowsHold width (ds ++ [(b, x)]) s' := by
  have hin : width * b + s.next b < height * width := by
    rw [h.next b]
    calc width * b + (rowItems ds b).length < width * b + width := Nat.add_lt_add_left hroom _
      _ = (b + 1) * width := by rw [Nat.mul_comm, Nat.succ_mul]
      _ ≤ height * width := Nat.mul_le_mul_right _ hb
  refine ⟨_, if_pos hin, fun c => ?_, fun c => ?_, fun c k y hy => ?_⟩
  · by_cases hc : c = b
    · rw [hc, rowItems_snoc_self, List.length_append]
      exact hroom
    · rw [rowItems_snoc_of_ne ds hc]
      exact h.fits c
  · by_cases hc : c = b
    · subst hc
      simp [rowItems_snoc_self, h.next]
    · simp only [Function.update_of_ne hc, rowItems_snoc_of_ne ds hc]
      exact h.next c
  · dsimp only
    rw [h.next b]
    have hfits : ∀ {c k y}, (rowItems ds c)[k]? = some y → k < width := by
      intro c k y hy
      obtain ⟨hlt, -⟩ := List.getElem?_eq_some_iff.mp hy
      exact Nat.lt_of_lt_of_le hlt (h.fits c)
    -- An older item is somewhere else.
    have hold : ∀ {c k y}, (rowItems ds c)[k]? = some y →
        (c = b → k < (rowItems ds b).length) →
        Function.update s.cells (width * b + (rowItems ds b).length) x (width * c + k) = y := by
      intro c k y hy hlt
      rw [Function.update_of_ne, h.cells c k y hy]
      intro heq
      obtain ⟨rfl, rfl⟩ := place_inj (hfits hy) hroom heq
      exact Nat.lt_irrefl _ (hlt rfl)
    by_cases hc : c = b
    · subst hc
      rw [rowItems_snoc_self, List.getElem?_append] at hy
      split at hy
      · exact hold hy fun _ => by assumption
      · rename_i hge
        obtain ⟨hk, hxy⟩ := List.getElem?_eq_some_iff.mp hy
        have hlen : k - (rowItems ds c).length < 1 := hk
        obtain rfl : k = (rowItems ds c).length := by omega
        rw [Function.update_self, ← hxy]
        simp
    · rw [rowItems_snoc_of_ne ds hc] at hy
      exact hold hy fun h => absurd h hc

/-- **All items**, if no row overflows. The step need only be `place` where the row has room. -/
theorem places_spec {ι : Type} {xs : List ι} {step : Dealt → ι → Option Dealt} (f : ι → ℕ × ℕ)
    (cells : ℕ → ℕ)
    (hstep : ∀ x ∈ xs, ∀ s, s.next (f x).1 < width → step s x = place height width s (f x))
    (hrow : ∀ x ∈ xs, (f x).1 < height) (hfits : ∀ b, (rowItems (xs.map f) b).length ≤ width) :
    ∃ s, xs.foldlM step ⟨fun _ => 0, cells⟩ = some s ∧ RowsHold width (xs.map f) s := by
  induction xs using List.reverseRecOn with
  | nil => exact ⟨_, rfl, by simp, by simp, by simp⟩
  | append_singleton xs x ih =>
    rw [List.map_append, List.map_singleton] at hfits ⊢
    have hpart : ∀ b, (rowItems (xs.map f) b).length ≤
        (rowItems (xs.map f ++ [f x]) b).length := by
      intro b
      rw [rowItems_append, List.length_append]
      exact Nat.le_add_right _ _
    have hroom : (rowItems (xs.map f) (f x).1).length < width := by
      have hx := hfits (f x).1
      rw [rowItems_snoc_self, List.length_append] at hx
      exact hx
    obtain ⟨t, ht, hholds⟩ := ih (fun y hy => hstep y (List.mem_append_left _ hy))
      (fun y hy => hrow y (List.mem_append_left _ hy))
      fun b => Nat.le_trans (hpart b) (hfits b)
    obtain ⟨t', ht', hholds'⟩ := hholds.place (hrow x (by simp)) hroom (x := (f x).2)
    refine ⟨t', ?_, hholds'⟩
    have hx : step t x = some t' := by
      rw [hstep x (by simp) t (by rwa [hholds.next])]
      exact ht'
    rw [List.foldlM_append, ht]
    simp [hx]

/-- What is in a row then. -/
theorem RowsHold.row (h : RowsHold width ds s) (hfull : (rowItems ds b).length = width) :
    (List.range width).map (fun k => s.cells (width * b + k)) = rowItems ds b := by
  apply List.ext_getElem (by simp [hfull])
  intro k hk hk'
  rw [List.getElem_map, List.getElem_range]
  exact h.cells b k _ (List.getElem?_eq_getElem hk')

end Dealing

end Lib
