import Mathlib.Data.Finset.Card
import Mathlib.Data.List.Infix
import Mathlib.Data.List.SplitBy

/-!
# Runs and groups in one pass

* `LongestRun`, `EndRun` — the longest run of equal items, and the run at the end; appending an item
  changes them as `endRun_snoc_same`, `endRun_snoc_new` and `longestRun_snoc` say.
* `LongestRun.bounds` — runs, distinct items and length.
* `groups` — the maximal groups of consecutive items with one key; `groups_snoc_same` and
  `groups_snoc_new` say what an item behind them does.
-/

set_option autoImplicit false

namespace Lib

section Runs

variable {α : Type} {xs : List α} {x y : α} {n c : ℕ}

/-- The length of the longest run of equal items. -/
def LongestRun (xs : List α) (n : ℕ) : Prop :=
  (∃ x, List.replicate n x <:+: xs) ∧ ∀ m x, List.replicate m x <:+: xs → m ≤ n

/-- The length of the run of `x` at the end. -/
def EndRun (xs : List α) (x : α) (n : ℕ) : Prop :=
  List.replicate n x <:+ xs ∧ ∀ m, List.replicate m x <:+ xs → m ≤ n

/-- A run that ends with the last item. -/
theorem replicate_suffix_snoc : List.replicate (n + 1) y <:+ xs ++ [x] ↔
    y = x ∧ List.replicate n y <:+ xs := by
  rw [List.replicate_succ', List.suffix_concat_iff]
  constructor
  · rintro (hnil | ⟨t, heq, ht⟩)
    · simp at hnil
    · obtain ⟨rfl, hxy⟩ := List.append_inj' heq rfl
      exact ⟨(List.cons.inj hxy).1, ht⟩
  · rintro ⟨rfl, h⟩
    exact Or.inr ⟨_, rfl, h⟩

/-- An item that repeats the last one makes the run at the end longer. -/
theorem endRun_snoc_same (h : EndRun xs x n) : EndRun (xs ++ [x]) x (n + 1) := by
  refine ⟨replicate_suffix_snoc.mpr ⟨rfl, h.1⟩, fun m hm => ?_⟩
  cases m with
  | zero => exact Nat.zero_le _
  | succ m => exact Nat.succ_le_succ (h.2 m (replicate_suffix_snoc.mp hm).2)

/-- Any other item starts a run. -/
theorem endRun_snoc_new (h : xs.getLast? ≠ some x) : EndRun (xs ++ [x]) x 1 := by
  refine ⟨replicate_suffix_snoc.mpr ⟨rfl, List.nil_suffix⟩, fun m hm => ?_⟩
  match m with
  | 0 => exact Nat.zero_le _
  | 1 => exact Nat.le_refl _
  | m + 2 =>
    obtain ⟨t, ht⟩ := (replicate_suffix_snoc.mp hm).2
    rw [List.replicate_succ', ← List.append_assoc] at ht
    exact absurd (by rw [← ht, List.getLast?_concat]) h

/-- The longest run is the longest so far or the one at the end. -/
theorem longestRun_snoc (h : LongestRun xs n) (hend : EndRun (xs ++ [x]) x c) :
    LongestRun (xs ++ [x]) (max n c) := by
  obtain ⟨⟨y, hy⟩, hmax⟩ := h
  refine ⟨?_, fun m z hz => ?_⟩
  · rcases Nat.le_total n c with hnc | hcn
    · rw [Nat.max_eq_right hnc]
      exact ⟨x, hend.1.isInfix⟩
    · rw [Nat.max_eq_left hcn]
      exact ⟨y, List.infix_concat_iff.mpr (Or.inr hy)⟩
  · rcases List.infix_concat_iff.mp hz with hz | hz
    · cases m with
      | zero => exact Nat.zero_le _
      | succ m =>
        obtain rfl := (replicate_suffix_snoc.mp hz).1
        exact Nat.le_trans (hend.2 _ hz) (Nat.le_max_right n c)
    · exact Nat.le_trans (hmax m z hz) (Nat.le_max_left n c)

theorem longestRun_nil (x : α) : LongestRun ([] : List α) 0 := by
  refine ⟨⟨x, List.infix_rfl⟩, fun m z hz => ?_⟩
  have := List.infix_nil.mp hz
  simpa using congrArg List.length this

/-- Runs and distinct items: a run leaves room for one distinct item on each other place. -/
theorem LongestRun.bounds [DecidableEq α] (h : LongestRun xs n) (hne : xs ≠ []) :
    1 ≤ n ∧ n ≤ xs.length ∧ 1 ≤ xs.toFinset.card ∧ xs.toFinset.card ≤ xs.length ∧
      xs.toFinset.card + n ≤ xs.length + 1 := by
  obtain ⟨⟨y, hy⟩, hmax⟩ := h
  obtain ⟨x, hx⟩ := List.exists_mem_of_ne_nil xs hne
  have hone : 1 ≤ n := hmax 1 x ((List.singleton_infix_iff x xs).mpr hx)
  refine ⟨hone, by simpa using hy.length_le, ?_, List.toFinset_card_le xs, ?_⟩
  · exact Finset.card_pos.mpr ⟨x, List.mem_toFinset.mpr hx⟩
  · obtain ⟨a, b, rfl⟩ := hy
    have hrun : (List.replicate n y).toFinset.card = 1 := by
      rw [List.toFinset_replicate_of_ne_zero (by omega), Finset.card_singleton]
    have ha := List.toFinset_card_le a
    have hb := List.toFinset_card_le b
    have hab := Finset.card_union_le (a.toFinset ∪ (List.replicate n y).toFinset) b.toFinset
    have har := Finset.card_union_le a.toFinset (List.replicate n y).toFinset
    rw [List.toFinset_append, List.toFinset_append]
    simp only [List.length_append, List.length_replicate]
    omega

end Runs

/-! ## Groups -/

section Groups

variable {α κ : Type} [DecidableEq κ] {key : α → κ} {xs g : List α} {x y : α}
  {done : List (List α)}

/-- The maximal groups of consecutive items with one key. -/
def groups (key : α → κ) (xs : List α) : List (List α) := xs.splitBy (fun x y => key x == key y)

theorem mem_groups_ne_nil (h : g ∈ groups key xs) : g ≠ [] := List.ne_nil_of_mem_splitBy h

theorem flatten_groups (key : α → κ) (xs : List α) : (groups key xs).flatten = xs :=
  List.flatten_splitBy _ _

/-- All items of a group have the key of its last one. -/
theorem key_of_mem_groups (h : g ∈ groups key xs) : ∀ x ∈ g, ∀ y ∈ g, key x = key y := by
  have hchain := List.isChain_of_mem_splitBy h
  have hpair : g.Pairwise (fun x y => key x = key y) := by
    have htrans : g.IsChain (fun x y => key x = key y) :=
      hchain.imp fun a b hab => by simpa using hab
    exact htrans.pairwise
  have hsymm : Std.Symm (fun x y => key x = key y) := ⟨fun _ _ hxy => hxy.symm⟩
  intro x hx y hy
  exact List.Pairwise.forall_of_forall (R := fun x y => key x = key y) (fun _ _ => rfl) hpair hx hy

/-- An item with another key starts a group. -/
theorem groups_snoc_new (h : ∀ y ∈ xs.getLast?, key y ≠ key x) :
    groups key (xs ++ [x]) = groups key xs ++ [[x]] := by
  have hne : ∀ y ∈ xs.getLast?, (key y == key x) = false := fun y hy => by simpa using h y hy
  exact List.splitBy_append_cons [] hne

/-- An item with the key of the last group joins it. -/
theorem groups_snoc_same (h : groups key xs = done ++ [g]) (hkey : ∀ y ∈ g, key y = key x) :
    groups key (xs ++ [x]) = done ++ [g ++ [x]] := by
  obtain ⟨hflat, hnil, hchain, hbound⟩ := List.splitBy_eq_iff.mp h
  have hg : g ≠ [] := fun hg => hnil (by simp [hg])
  refine List.splitBy_eq_iff.mpr ⟨?_, ?_, ?_, ?_⟩
  · simp [hflat]
  · simpa [hg] using hnil
  · intro m hm
    rcases List.mem_append.mp hm with hm | hm
    · exact hchain m (List.mem_append_left _ hm)
    · obtain rfl := List.mem_singleton.mp hm
      rw [List.isChain_append]
      refine ⟨hchain g (by simp), List.isChain_singleton _, fun a ha b hb => ?_⟩
      obtain rfl := Option.some.inj hb
      simpa using hkey a (List.mem_of_getLast? ha)
  · rw [List.isChain_append] at hbound ⊢
    refine ⟨hbound.1, List.isChain_singleton _, fun a ha b hb => ?_⟩
    obtain rfl := Option.some.inj hb
    obtain ⟨hane, hgne, hab⟩ := hbound.2.2 a ha g rfl
    refine ⟨hane, by simp, ?_⟩
    rwa [List.head_append_of_ne_nil hgne]

/-- Lists with one key each, which differs from the key of the next one, are the groups. -/
theorem groups_flatten {gs : List (List α)} (hne : ∀ g ∈ gs, g ≠ [])
    (hsame : ∀ g ∈ gs, ∀ x ∈ g, ∀ y ∈ g, key x = key y)
    (hdiff : gs.Pairwise (fun g g' => ∀ x ∈ g, ∀ y ∈ g', key x ≠ key y)) :
    groups key gs.flatten = gs := by
  refine List.splitBy_eq_iff.mpr ⟨rfl, fun hnil => hne [] hnil rfl, fun g hg => ?_, ?_⟩
  · have hpair : g.Pairwise (fun x y => (key x == key y) = true) :=
      List.pairwise_of_forall_mem_list fun x hx y hy => by simpa using hsame g hg x hx y hy
    exact hpair.isChain
  · refine (hdiff.imp_of_mem ?_).isChain
    intro g g' hg hg' hdiff
    refine ⟨hne g hg, hne g' hg', ?_⟩
    simpa using hdiff _ (List.getLast_mem (hne g hg)) _ (List.head_mem (hne g' hg'))

end Groups

/-! ## Numbered items -/

section Numbered

variable {α β γ : Type} {xs : List α}

/-- What holds of every item and its image, whatever its place is. -/
theorem forall₂_mapIdx {R : α → β → Prop} {f : ℕ → α → β}
    (h : ∀ k, ∀ x ∈ xs, R x (f k x)) : List.Forall₂ R xs (xs.mapIdx f) := by
  induction xs generalizing f with
  | nil => exact List.Forall₂.nil
  | cons x xs ih =>
    rw [List.mapIdx_cons]
    exact List.Forall₂.cons (h 0 x List.mem_cons_self)
      (ih fun k y hy => h (k + 1) y (List.mem_cons_of_mem x hy))

theorem mapIdx_congr {f g : ℕ → α → β} (h : ∀ k, ∀ x ∈ xs, f k x = g k x) :
    xs.mapIdx f = xs.mapIdx g := by
  refine List.ext_getElem (by simp) fun k hk _ => ?_
  simp [h k _ (List.getElem_mem _)]

theorem map_mapIdx {f : ℕ → α → β} {g : β → γ} {h : α → γ} (hf : ∀ k x, g (f k x) = h x)
    (xs : List α) : (xs.mapIdx f).map g = xs.map h :=
  List.ext_getElem (by simp) (by simp [hf])

/-- Two images are related if they are at every item. -/
theorem forall₂_mapIdx_iff {R : β → γ → Prop} {f : ℕ → α → β} {g : ℕ → α → γ} {P : α → Prop}
    (h : ∀ k x, R (f k x) (g k x) ↔ P x) :
    List.Forall₂ R (xs.mapIdx f) (xs.mapIdx g) ↔ ∀ x ∈ xs, P x := by
  induction xs generalizing f g with
  | nil => simp
  | cons x xs ih =>
    rw [List.mapIdx_cons, List.mapIdx_cons, List.forall₂_cons, List.forall_mem_cons, h,
      ih fun k x => h (k + 1) x]

end Numbered

end Lib
