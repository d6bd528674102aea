import Mathlib.Data.List.Induction
import Mathlib.Data.List.Nodup

/-!
# Dictionaries of lists

A dictionary is the list of its keys with their values, in the order in which the keys came in.

* `append` — a value behind those of its key.
* `collect` — the values of a list under their keys; `collect_eq` says what is under each key.
-/

set_option autoImplicit false

namespace Lib

variable {α κ ν : Type} [DecidableEq κ]

/-- `defaultdict(list)[k].append(v)`. -/
def append (k : κ) (v : ν) : List (κ × List ν) → List (κ × List ν)
  | [] => [(k, [v])]
  | (q, vs) :: dict => if q = k then (q, vs ++ [v]) :: dict else (q, vs) :: append k v dict

/-- The values of the items under their keys. -/
def collect (key : α → κ) (value : α → ν) (xs : List α) : List (κ × List ν) :=
  xs.foldl (fun dict x => append (key x) (value x) dict) []

section Collect

variable {key : α → κ} {value : α → ν} {k : κ} {v : ν} {ks : List κ} {vs : κ → List ν}

theorem append_new (h : k ∉ ks) : append k v (ks.map fun q => (q, vs q)) =
    ks.map (fun q => (q, vs q)) ++ [(k, [v])] := by
  induction ks with
  | nil => rfl
  | cons q ks ih =>
    obtain ⟨hne, hks⟩ := List.ne_and_not_mem_of_not_mem_cons h
    simp [append, Ne.symm hne, ih hks]

theorem append_old (hnodup : ks.Nodup) (h : k ∈ ks) : append k v (ks.map fun q => (q, vs q)) =
    ks.map fun q => (q, if q = k then vs q ++ [v] else vs q) := by
  induction ks with
  | nil => cases h
  | cons q ks ih =>
    obtain ⟨hq, hnodup⟩ := List.nodup_cons.mp hnodup
    by_cases hqk : q = k
    · subst hqk
      have hrest : ks.map (fun p => (p, vs p)) =
          ks.map fun p => (p, if p = q then vs p ++ [v] else vs p) := by
        refine List.map_congr_left fun p hp => ?_
        have hpq : p ≠ q := fun hpq => hq (hpq ▸ hp)
        rw [if_neg hpq]
      simp [append, hrest]
    · have hks : k ∈ ks := by simpa [Ne.symm hqk] using h
      simp [append, hqk, ih hnodup hks]

theorem collect_snoc (key : α → κ) (value : α → ν) (xs : List α) (x : α) :
    collect key value (xs ++ [x]) = append (key x) (value x) (collect key value xs) := by
  simp [collect]

/-- **The values under a key are those of its items**, and every key that came in is there once. -/
theorem collect_eq (key : α → κ) (value : α → ν) (xs : List α) :
    ∃ ks : List κ, ks.Nodup ∧ (∀ k, k ∈ ks ↔ ∃ x ∈ xs, key x = k) ∧
      collect key value xs =
        ks.map fun k => (k, (xs.filter fun x => key x = k).map value) := by
  induction xs using List.reverseRecOn with
  | nil => exact ⟨[], List.nodup_nil, by simp, rfl⟩
  | append_singleton xs x ih =>
    obtain ⟨ks, hnodup, hmem, heq⟩ := ih
    have hkeys : ∀ k, (∃ y ∈ xs ++ [x], key y = k) ↔ k ∈ ks ∨ key x = k := by
      intro k
      simp [hmem, or_and_right, exists_or]
    by_cases hx : key x ∈ ks
    · refine ⟨ks, hnodup, fun k => ?_, ?_⟩
      · rw [hkeys]
        exact ⟨Or.inl, fun h => h.elim id fun hk => hk ▸ hx⟩
      · rw [collect_snoc, heq, append_old hnodup hx]
        refine List.map_congr_left fun k _ => ?_
        by_cases hk : k = key x
        · subst hk
          simp
        · simp [hk, Ne.symm hk]
    · refine ⟨ks ++ [key x], by simpa using hnodup.concat hx, fun k => ?_, ?_⟩
      · rw [hkeys]
        simp [eq_comm]
      · -- no item before has the new key
        have hnone : xs.filter (fun y => key y = key x) = [] := by
          rw [List.filter_eq_nil_iff]
          intro y hy hyx
          exact hx ((hmem _).mpr ⟨y, hy, by simpa using hyx⟩)
        rw [collect_snoc, heq, append_new hx, List.map_append]
        congr 1
        · refine List.map_congr_left fun k hk => ?_
          have hne : key x ≠ k := fun h => hx (h ▸ hk)
          simp [hne]
        · simp [hnone]

/-- An item whose key no other item has. -/
theorem filter_key {xs : List α} {x : α} (h : (xs.map key).Nodup) (hx : x ∈ xs) :
    (xs.filter fun y => key y = key x) = [x] := by
  induction xs with
  | nil => cases hx
  | cons y ys ih =>
    obtain ⟨hy, hys⟩ := List.nodup_cons.mp h
    rcases List.mem_cons.mp hx with rfl | hmem
    · have hnone : ys.filter (fun z => key z = key x) = [] := by
        refine List.filter_eq_nil_iff.mpr fun z hz hzx => hy ?_
        rw [← of_decide_eq_true hzx]
        exact List.mem_map_of_mem hz
      rw [List.filter_cons_of_pos (by simp), hnone]
    · have hne : key y ≠ key x := fun hyx => hy (hyx ▸ List.mem_map_of_mem hmem)
      rw [List.filter_cons_of_neg (by simpa using hne), ih hys hmem]

end Collect

end Lib
