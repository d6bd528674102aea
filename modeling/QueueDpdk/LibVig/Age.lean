import QueueDpdk.LibVig.Coherence

/-!
# Indices by age (`utils/double-chain.h`, `utils/expirator.c`)

The predicate of a double chain asks that its indices are sorted by their time stamps, oldest
first.

* `ByAge` — they are, and none was used after `now`; `ByAge.insert`, `ByAge.touch`, `ByAge.suffix` —
  the operations keep it so.
* `expireItemsSingleMap_byAge` — the expiry loop then frees all indices older than `time`, and no
  others.
-/

set_option autoImplicit false

namespace QueueDpdk.LibVig

/-- `dchain_sorted_fp` of the allocated indices. -/
structure ByAge (timestamps : Int → VigorTime) (alloc : List Int) (now : VigorTime) : Prop where
  sorted : alloc.Pairwise (fun i j => timestamps i ≤ timestamps j)
  le_now : ∀ i ∈ alloc, timestamps i ≤ now

section Age

variable {timestamps : Int → VigorTime} {alloc : List Int} {now time : VigorTime}

theorem ByAge.nil (timestamps : Int → VigorTime) (now : VigorTime) : ByAge timestamps [] now :=
  ⟨List.Pairwise.nil, fun _ hi => by cases hi⟩

theorem ByAge.mono (h : ByAge timestamps alloc now) (hle : now ≤ time) :
    ByAge timestamps alloc time :=
  ⟨h.sorted, fun i hi => UInt64.le_trans (h.le_now i hi) hle⟩

theorem ByAge.sublist {alloc' : List Int} (h : ByAge timestamps alloc now)
    (hsub : alloc'.Sublist alloc) : ByAge timestamps alloc' now :=
  ⟨h.sorted.sublist hsub, fun i hi => h.le_now i (hsub.subset hi)⟩

/-- An index used now is the youngest. -/
theorem ByAge.insert (h : ByAge timestamps alloc now) (hle : now ≤ time) {i : Int}
    (hi : i ∉ alloc) : ByAge (Function.update timestamps i time) (alloc ++ [i]) time := by
  have hold : ∀ j ∈ alloc, Function.update timestamps i time j = timestamps j := by
    intro j hj
    have hne : j ≠ i := fun he => hi (he ▸ hj)
    rw [Function.update_of_ne hne]
  have hless : ∀ j ∈ alloc, Function.update timestamps i time j ≤ time := by
    intro j hj
    rw [hold j hj]
    exact UInt64.le_trans (h.le_now j hj) hle
  constructor
  · rw [List.pairwise_append]
    refine ⟨?_, List.pairwise_singleton _ _, ?_⟩
    · refine h.sorted.imp_of_mem ?_
      intro a b ha hb hab
      rwa [hold a ha, hold b hb]
    · intro a ha b hb
      rw [List.mem_singleton.mp hb, Function.update_self]
      exact hless a ha
  · intro j hj
    rcases List.mem_append.mp hj with hj | hj
    · exact hless j hj
    · rw [List.mem_singleton.mp hj, Function.update_self]
      exact UInt64.le_refl time

theorem ByAge.touch {l₁ l₂ : List Int} {i : Int} (h : ByAge timestamps (l₁ ++ i :: l₂) now)
    (hle : now ≤ time) (hnd : (l₁ ++ i :: l₂).Nodup) :
    ByAge (Function.update timestamps i time) (l₁ ++ l₂ ++ [i]) time := by
  have hrest : ByAge timestamps (l₁ ++ l₂) now :=
    h.sublist (List.Sublist.append_left (List.sublist_cons_self i l₂) l₁)
  exact hrest.insert hle (List.nodup_cons.mp (List.nodup_middle.mp hnd)).1

/-- The loop stops at an index that is not older than `time`. -/
theorem expire_stops {chain : DoubleChain} {size : Nat} {i : Int} {rest free : List Int}
    (h : ChainInv chain.cells size (i :: rest) free) (hnone : dchainExpireOneIndex chain time = none) :
    ¬chain.timestamps i < time := by
  intro ht
  obtain ⟨cells', hfree, -⟩ := free_spec (show ChainInv _ size ([] ++ i :: rest) free from h)
  unfold dchainExpireOneIndex at hnone
  rw [oldest_spec h, List.head?_cons] at hnone
  simp [ht, hfree] at hnone

end Age

section Expiry

variable {K : Type} {keysEq : K → K → Bool} {khash : K → Nat} {map : Map Int} {vector : Slots K}
  {chain : DoubleChain} {size : Nat} {alloc free : List Int}

/-- **Expiry of a sorted chain** frees exactly the indices older than `time`. -/
theorem expireItemsSingleMap_byAge (h : Coherent keysEq khash map vector chain size alloc free)
    (hk : LawfulKeys keysEq khash) {now : VigorTime} (hage : ByAge chain.timestamps alloc now)
    (time : VigorTime) :
    ∃ chain' map' expired rest, alloc = expired ++ rest ∧
      expireItemsSingleMap keysEq khash chain vector map time = (chain', map', expired.length) ∧
      (∀ i ∈ expired, chain.timestamps i < time) ∧ (∀ i ∈ rest, ¬chain.timestamps i < time) ∧
      chain'.timestamps = chain.timestamps ∧ ByAge chain'.timestamps rest now ∧
      Coherent keysEq khash map' vector chain' size rest (expired.reverse ++ free) := by
  obtain ⟨chain', map', expired, rest, rfl, hrun, hend, hold, hts, hc⟩ :=
    expireItemsSingleMap_spec h hk time
  have hrest : ByAge chain.timestamps rest now := hage.sublist (List.sublist_append_right _ _)
  refine ⟨chain', map', expired, rest, rfl, hrun, hold, ?_, hts, hts ▸ hrest, hc⟩
  cases rest with
  | nil => simp
  | cons i rest =>
    have hhead := expire_stops hc.linked.ring hend
    rw [hts] at hhead
    intro j hj
    rcases List.mem_cons.mp hj with rfl | hj
    · exact hhead
    · have hle := (List.pairwise_cons.mp hrest.sorted).1 j hj
      rw [UInt64.not_lt] at hhead ⊢
      exact UInt64.le_trans hhead hle

end Expiry

end QueueDpdk.LibVig
