import QueueDpdk.LibVig.DoubleChain
import QueueDpdk.LibVig.Map
import Mathlib.Data.Finset.Card
import Mathlib.Data.List.Dedup

/-!
# Map, vector and double chain of one table (`utils/expirator.c`)

The three structures are used together: the chain hands out indices, the vector keeps the key of
each index and the map finds the index of a key.  A pointer to a key is the number of its vector
slot.

* `Linked` — the entries of the map are those of the allocated indices, each keyed by its own slot.
* `Coherent` — in addition no two of these keys are equal.
* `Linked.insert`, `Linked.rejuvenate`, `Linked.lookup`, `Coherent.expireOne` — what each operation
  does to the two lists of the chain.
* `expireItemsSingleMap_spec` — the expiry loop ends, keeps the table coherent and frees the oldest
  indices.
-/

set_option autoImplicit false

namespace QueueDpdk.LibVig

open Lib

/-- What the map asks of its two function pointers. -/
structure LawfulKeys {K : Type} (keysEq : K → K → Bool) (khash : K → Nat) : Prop where
  refl : ∀ a, keysEq a a = true
  symm : ∀ a b, keysEq a b = true → keysEq b a = true
  hash : ∀ a b, keysEq a b = true → khash a = khash b

variable {K : Type}

/-- The contents of a `struct Vector`. -/
abbrev Slots (K : Type) := Int → K

/-- `vector_allocate` on freshly allocated memory. -/
def vectorAllocate (capacity : Nat) (initElem : K → K) (memory : Slots K) : Slots K :=
  fun i => if 0 ≤ i ∧ i < capacity then initElem (memory i) else memory i

section Expirator

variable (keysEq : K → K → Bool) (khash : K → Nat)

/-- The while loop of `expire_items_single_map`, with a bound on its iterations. -/
def expireItemsLoop (vector : Slots K) (time : VigorTime) :
    Nat → DoubleChain → Map Int → Nat → DoubleChain × Map Int × Nat
  | 0, chain, map, count => (chain, map, count)
  | n + 1, chain, map, count =>
    match dchainExpireOneIndex chain time with
    | none => (chain, map, count)
    | some (chain, index) =>
      expireItemsLoop vector time n chain (mapErase vector keysEq khash map (vector index)).1
        (count + 1)

/-- `expire_items_single_map`.  No chain holds more indices than the map has slots. -/
def expireItemsSingleMap (chain : DoubleChain) (vector : Slots K) (map : Map Int)
    (time : VigorTime) : DoubleChain × Map Int × Nat :=
  expireItemsLoop keysEq khash vector time map.capacity chain map 0

end Expirator

/-! ## The invariant -/

structure Linked (khash : K → Nat) (map : Map Int) (vector : Slots K) (chain : DoubleChain)
    (size : Nat) (alloc free : List Int) : Prop where
  ring : ChainInv chain.cells size alloc free
  table : MapInv map vector khash
  capacity : map.capacity = size
  entry : ∀ j < size, map.busybits j = true → map.vals j ∈ alloc ∧ map.keyps j = map.vals j
  indexed : ∀ i ∈ alloc, ∃ j < size, map.busybits j = true ∧ map.vals j = i
  unique : ∀ j < size, ∀ j' < size, map.busybits j = true → map.busybits j' = true →
    map.vals j = map.vals j' → j = j'

structure Coherent (keysEq : K → K → Bool) (khash : K → Nat) (map : Map Int) (vector : Slots K)
    (chain : DoubleChain) (size : Nat) (alloc free : List Int) : Prop where
  linked : Linked khash map vector chain size alloc free
  distinct : ∀ i ∈ alloc, ∀ i' ∈ alloc, keysEq (vector i) (vector i') = true → i = i'

section Operations

variable {keysEq : K → K → Bool} {khash : K → Nat} {map : Map Int} {vector : Slots K}
  {chain : DoubleChain} {size : Nat} {alloc free : List Int}

/-- A new table: everything is free. -/
theorem linked_init (khash : K → Nat) (map : Map Int) (vector : Slots K) (chain : DoubleChain)
    (hs : 1 ≤ size) : Linked khash (mapAllocate map size) vector (dchainAllocate chain size) size []
      ((List.range size).map Int.ofNat) := by
  refine ⟨init_spec _ hs, mapAllocate_inv map hs vector khash, rfl, ?_, ?_, ?_⟩
  · intro j _ hb
    cases hb
  · intro i hi
    cases hi
  · intro j _ j' _ hb
    cases hb

/-- The map counts the allocated indices. -/
theorem Linked.size_eq (h : Linked khash map vector chain size alloc free) :
    map.size = alloc.length := by
  have hnd : alloc.Nodup := (List.nodup_append.mp h.ring.nodup).1
  have himage : ((Finset.range map.capacity).filter (fun j => map.busybits j = true)).image map.vals =
      alloc.toFinset := by
    ext i
    simp only [Finset.mem_image, Finset.mem_filter, Finset.mem_range, List.mem_toFinset, h.capacity]
    constructor
    · rintro ⟨j, ⟨hj, hb⟩, rfl⟩
      exact (h.entry j hj hb).1
    · intro hi
      obtain ⟨j, hj, hb, hv⟩ := h.indexed i hi
      exact ⟨j, ⟨hj, hb⟩, hv⟩
  rw [h.table.size_eq, occupied, ← List.toFinset_card_of_nodup hnd, ← himage]
  refine (Finset.card_image_of_injOn ?_).symm
  intro j hj j' hj' hv
  simp only [Finset.coe_filter, Finset.mem_range, Set.mem_ofPred_eq, h.capacity] at hj hj'
  exact h.unique j hj.1 j' hj'.1 hj.2 hj'.2 hv

theorem Linked.length_le (h : Linked khash map vector chain size alloc free) :
    alloc.length ≤ size := by
  have := h.ring.length
  omega

/-- The table is full exactly when nothing is free. -/
theorem Linked.full_iff (h : Linked khash map vector chain size alloc free) :
    alloc.length = size ↔ free = [] := by
  rw [← List.length_eq_zero_iff, ← h.ring.length]
  omega

theorem Linked.bounds (h : Linked khash map vector chain size alloc free) {i : Int}
    (hi : i ∈ alloc) : 0 ≤ i ∧ i < size := (h.ring.mem_iff i).mp (Or.inl hi)

theorem Linked.disjoint (h : Linked khash map vector chain size alloc free) {i : Int}
    (hi : i ∈ alloc) : i ∉ free := fun hf =>
  (List.nodup_append.mp h.ring.nodup).2.2 i hi i hf rfl

theorem Linked.allocated_iff (h : Linked khash map vector chain size alloc free) {i : Int}
    (h0 : 0 ≤ i) (h1 : i < size) : dchainIsIndexAllocated chain i = true ↔ i ∈ alloc :=
  LibVig.allocated_iff h.ring h0 h1

/-! ## Looking up -/

/-- `map_get` answers with an index whose key equals the one looked for, if there is one. -/
theorem Linked.lookup (h : Linked khash map vector chain size alloc free)
    (hk : LawfulKeys keysEq khash) (key : K) :
    (∃ i ∈ alloc, mapGet vector keysEq khash map key = some i ∧ keysEq (vector i) key = true) ∨
    (mapGet vector keysEq khash map key = none ∧ ∀ i ∈ alloc, keysEq (vector i) key = false) := by
  rcases mapGet_spec h.table hk.hash key with ⟨j, hj, hget, hb, he⟩ | ⟨hget, hno⟩
  · rw [h.capacity] at hj
    obtain ⟨hv, hp⟩ := h.entry j hj hb
    exact Or.inl ⟨map.vals j, hv, hget, hp ▸ he⟩
  · refine Or.inr ⟨hget, ?_⟩
    intro i hi
    obtain ⟨j, hj, hb, rfl⟩ := h.indexed i hi
    rw [← (h.entry j hj hb).2]
    exact hno j (h.capacity ▸ hj) hb

/-! ## Rejuvenating -/

theorem touched_perm (l₁ l₂ : List Int) (i : Int) : (l₁ ++ l₂ ++ [i]).Perm (l₁ ++ i :: l₂) := by
  rw [List.append_assoc]
  exact List.Perm.append_left l₁ (List.perm_append_singleton i l₂)

/-- A rejuvenated index goes to the young end. -/
theorem Linked.rejuvenate_split {l₁ l₂ : List Int} {i : Int}
    (h : Linked khash map vector chain size (l₁ ++ i :: l₂) free) (time : VigorTime) :
    ∃ chain', dchainRejuvenateIndex chain i time = some chain' ∧
      chain'.timestamps = Function.update chain.timestamps i time ∧
      Linked khash map vector chain' size (l₁ ++ l₂ ++ [i]) free := by
  obtain ⟨cells', hrun, hinv⟩ := rejuvenate_spec h.ring
  have hperm := touched_perm l₁ l₂ i
  refine ⟨⟨cells', Function.update chain.timestamps i time⟩, ?_, rfl, ?_⟩
  · unfold dchainRejuvenateIndex
    rw [hrun]
  · refine ⟨hinv, h.table, h.capacity, ?_, ?_, h.unique⟩
    · intro j hj hb
      rw [hperm.mem_iff]
      exact h.entry j hj hb
    · intro i' hi'
      exact h.indexed i' (hperm.mem_iff.mp hi')

theorem Linked.rejuvenate (h : Linked khash map vector chain size alloc free) {i : Int}
    (hi : i ∈ alloc) (time : VigorTime) :
    ∃ chain' alloc', dchainRejuvenateIndex chain i time = some chain' ∧ alloc'.Perm alloc ∧
      Linked khash map vector chain' size alloc' free := by
  obtain ⟨l₁, l₂, rfl⟩ := List.append_of_mem hi
  obtain ⟨chain', hrun, -, hlinked⟩ := h.rejuvenate_split time
  exact ⟨chain', l₁ ++ l₂ ++ [i], hrun, touched_perm l₁ l₂ i, hlinked⟩

/-! ## Inserting -/

/-- Allocating an index, writing the key into its slot and putting it into the map. -/
theorem Linked.insert {i : Int} (h : Linked khash map vector chain size alloc (i :: free))
    (key : K) (time : VigorTime) :
    ∃ chain', dchainAllocateNewIndex chain time = some (chain', i) ∧
      Linked khash (mapPut (Function.update vector i key) khash map i i)
        (Function.update vector i key) chain' size (alloc ++ [i]) free := by
  obtain ⟨cells', hrun, hinv⟩ := allocate_spec h.ring
  refine ⟨⟨cells', Function.update chain.timestamps i time⟩, ?_, ?_⟩
  · unfold dchainAllocateNewIndex
    rw [hrun]
  · have hnew : i ∉ alloc := fun hi => h.disjoint hi List.mem_cons_self
    -- no entry of the map points to the slot that is overwritten
    have hmap : MapInv map (Function.update vector i key) khash := by
      refine h.table.congr (fun j hj hb => ?_)
      obtain ⟨hv, hp⟩ := h.entry j (h.capacity ▸ hj) hb
      have hne : map.vals j ≠ i := fun he => hnew (he ▸ hv)
      rw [hp, Function.update_of_ne hne]
    have hroom : map.size < map.capacity := by
      rw [h.size_eq, h.capacity, ← h.ring.length, List.length_cons]
      omega
    obtain ⟨p, hp, map', hput, hbp, hbusy, hkeyps, hvals, hcap, hmap'⟩ :=
      mapPut_spec hmap hroom i i
    rw [hput]
    rw [h.capacity] at hp
    refine ⟨hinv, hmap', hcap.trans h.capacity, ?_, ?_, ?_⟩
    · intro j hj hb
      rw [hkeyps, hvals]
      by_cases hjp : j = p
      · subst hjp
        simp
      · rw [hbusy, Function.update_of_ne hjp] at hb
        obtain ⟨hv, hk⟩ := h.entry j hj hb
        rw [Function.update_of_ne hjp, Function.update_of_ne hjp]
        exact ⟨List.mem_append_left _ hv, hk⟩
    · intro i' hi'
      rcases List.mem_append.mp hi' with hold | hi
      · obtain ⟨j, hj, hb, hv⟩ := h.indexed i' hold
        have hjp : j ≠ p := by
          rintro rfl
          rw [hbp] at hb
          cases hb
        refine ⟨j, hj, ?_, ?_⟩
        · rw [hbusy, Function.update_of_ne hjp, hb]
        · rw [hvals, Function.update_of_ne hjp, hv]
      · refine ⟨p, hp, ?_, ?_⟩
        · rw [hbusy, Function.update_self]
        · rw [hvals, Function.update_self, List.mem_singleton.mp hi]
    · intro j hj j' hj' hb hb' hv
      rw [hbusy] at hb hb'
      rw [hvals] at hv
      by_cases hjp : j = p
      · by_cases hjp' : j' = p
        · rw [hjp, hjp']
        · subst hjp
          rw [Function.update_of_ne hjp'] at hb'
          rw [Function.update_self, Function.update_of_ne hjp'] at hv
          exact absurd (hv ▸ (h.entry j' hj' hb').1) hnew
      · rw [Function.update_of_ne hjp] at hb hv
        by_cases hjp' : j' = p
        · subst hjp'
          rw [Function.update_self] at hv
          exact absurd (hv ▸ (h.entry j hj hb).1) hnew
        · rw [Function.update_of_ne hjp'] at hb' hv
          exact h.unique j hj j' hj' hb hb' hv

theorem Linked.insert_full (h : Linked khash map vector chain size alloc []) (time : VigorTime) :
    dchainAllocateNewIndex chain time = none := by
  unfold dchainAllocateNewIndex
  rw [allocate_full h.ring]

/-- A key that equals no other one keeps the keys apart. -/
theorem distinct_insert (hk : LawfulKeys keysEq khash)
    (hd : ∀ a ∈ alloc, ∀ b ∈ alloc, keysEq (vector a) (vector b) = true → a = b) {i : Int}
    (hi : i ∉ alloc) {key : K} (hnew : ∀ a ∈ alloc, keysEq (vector a) key = false) :
    ∀ a ∈ alloc ++ [i], ∀ b ∈ alloc ++ [i],
      keysEq (Function.update vector i key a) (Function.update vector i key b) = true → a = b := by
  have hold : ∀ a ∈ alloc, Function.update vector i key a = vector a := by
    intro a hm
    have hne : a ≠ i := fun he => hi (he ▸ hm)
    rw [Function.update_of_ne hne]
  intro a ha b hb he
  rcases List.mem_append.mp ha with ha | ha
  · rw [hold a ha] at he
    rcases List.mem_append.mp hb with hb | hb
    · rw [hold b hb] at he
      exact hd a ha b hb he
    · rw [List.mem_singleton.mp hb, Function.update_self, hnew a ha] at he
      cases he
  · rw [List.mem_singleton.mp ha, Function.update_self] at he
    rcases List.mem_append.mp hb with hb | hb
    · rw [hold b hb] at he
      have := hk.symm _ _ he
      rw [hnew b hb] at this
      cases this
    · rw [List.mem_singleton.mp ha, List.mem_singleton.mp hb]

/-- The new key must not be there yet. -/
theorem Coherent.insert {i : Int}
    (h : Coherent keysEq khash map vector chain size alloc (i :: free))
    (hk : LawfulKeys keysEq khash) {key : K} (hnew : ∀ i ∈ alloc, keysEq (vector i) key = false)
    (time : VigorTime) :
    ∃ chain', dchainAllocateNewIndex chain time = some (chain', i) ∧
      Coherent keysEq khash (mapPut (Function.update vector i key) khash map i i)
        (Function.update vector i key) chain' size (alloc ++ [i]) free := by
  obtain ⟨chain', hrun, hlinked⟩ := h.linked.insert key time
  have hi : i ∉ alloc := fun hm => h.linked.disjoint hm List.mem_cons_self
  exact ⟨chain', hrun, hlinked, distinct_insert hk h.distinct hi hnew⟩

theorem Coherent.rejuvenate_split {l₁ l₂ : List Int} {i : Int}
    (h : Coherent keysEq khash map vector chain size (l₁ ++ i :: l₂) free) (time : VigorTime) :
    ∃ chain', dchainRejuvenateIndex chain i time = some chain' ∧
      chain'.timestamps = Function.update chain.timestamps i time ∧
      Coherent keysEq khash map vector chain' size (l₁ ++ l₂ ++ [i]) free := by
  obtain ⟨chain', hrun, hts, hlinked⟩ := h.linked.rejuvenate_split time
  have hperm := touched_perm l₁ l₂ i
  refine ⟨chain', hrun, hts, hlinked, ?_⟩
  intro a ha b hb he
  exact h.distinct a (hperm.mem_iff.mp ha) b (hperm.mem_iff.mp hb) he

theorem Coherent.rejuvenate (h : Coherent keysEq khash map vector chain size alloc free) {i : Int}
    (hi : i ∈ alloc) (time : VigorTime) :
    ∃ chain' alloc', dchainRejuvenateIndex chain i time = some chain' ∧ alloc'.Perm alloc ∧
      Coherent keysEq khash map vector chain' size alloc' free := by
  obtain ⟨l₁, l₂, rfl⟩ := List.append_of_mem hi
  obtain ⟨chain', hrun, -, hc⟩ := h.rejuvenate_split time
  exact ⟨chain', l₁ ++ l₂ ++ [i], hrun, touched_perm l₁ l₂ i, hc⟩

/-! ## Expiring -/

/-- Erasing the key of an index leaves the entries of the others. -/
theorem Coherent.erase {i : Int} {rest : List Int}
    (h : Coherent keysEq khash map vector chain size (i :: rest) free)
    (hk : LawfulKeys keysEq khash) {chain' : DoubleChain}
    (hchain : ChainInv chain'.cells size rest (i :: free)) :
    Coherent keysEq khash (mapErase vector keysEq khash map (vector i)).1 vector chain' size rest
      (i :: free) := by
  have hnd : i ∉ rest := (List.nodup_cons.mp (List.nodup_append.mp h.linked.ring.nodup).1).1
  obtain ⟨e, he, hbe, hve⟩ := h.linked.indexed i List.mem_cons_self
  have hself : keysEq (vector (map.keyps e)) (vector i) = true := by
    rw [(h.linked.entry e he hbe).2, hve]
    exact hk.refl _
  obtain ⟨p, hp, map', herase, hbp, hep, hbusy, hkeyps, hvals, hcap, hmap'⟩ :=
    mapErase_spec h.linked.table hk.hash ⟨e, h.linked.capacity ▸ he, hbe, hself⟩
  rw [h.linked.capacity] at hp
  -- the erased entry is that of `i`, since no other key equals it
  have hvp : map.vals p = i := by
    obtain ⟨hv, hkp⟩ := h.linked.entry p hp hbp
    rw [hkp] at hep
    exact h.distinct _ hv i List.mem_cons_self hep
  have hkept : ∀ j, map'.busybits j = true → j ≠ p ∧ map.busybits j = true := by
    intro j hb
    rw [hbusy] at hb
    have hjp : j ≠ p := by
      rintro rfl
      rw [Function.update_self] at hb
      cases hb
    rw [Function.update_of_ne hjp] at hb
    exact ⟨hjp, hb⟩
  rw [herase]
  refine ⟨⟨hchain, hmap', hcap.trans h.linked.capacity, ?_, ?_, ?_⟩, ?_⟩
  · intro j hj hb
    obtain ⟨hjp, hb⟩ := hkept j hb
    obtain ⟨hv, hkp⟩ := h.linked.entry j hj hb
    rw [hkeyps, hvals]
    refine ⟨?_, hkp⟩
    rcases List.mem_cons.mp hv with hvi | hv
    · exact absurd (h.linked.unique j hj p hp hb hbp (hvi.trans hvp.symm)) hjp
    · exact hv
  · intro i' hi'
    obtain ⟨j, hj, hb, hv⟩ := h.linked.indexed i' (List.mem_cons_of_mem i hi')
    have hjp : j ≠ p := by
      rintro rfl
      exact hnd (hvp ▸ hv ▸ hi')
    refine ⟨j, hj, ?_, ?_⟩
    · rw [hbusy, Function.update_of_ne hjp, hb]
    · rw [hvals, hv]
  · intro j hj j' hj' hb hb' hv
    rw [hvals] at hv
    exact h.linked.unique j hj j' hj' (hkept j hb).2 (hkept j' hb').2 hv
  · intro a ha b hb he
    exact h.distinct a (List.mem_cons_of_mem i ha) b (List.mem_cons_of_mem i hb) he

/-- One iteration of the expiry loop. -/
theorem Coherent.expireOne (h : Coherent keysEq khash map vector chain size alloc free)
    (hk : LawfulKeys keysEq khash) (time : VigorTime) :
    dchainExpireOneIndex chain time = none ∨
    ∃ i rest chain', alloc = i :: rest ∧ chain.timestamps i < time ∧
      dchainExpireOneIndex chain time = some (chain', i) ∧ chain'.timestamps = chain.timestamps ∧
      Coherent keysEq khash (mapErase vector keysEq khash map (vector i)).1 vector chain' size rest
        (i :: free) := by
  rcases expire_spec h.linked.ring time with hnone | ⟨i, rest, cells', rfl, ht, hrun, hinv⟩
  · exact Or.inl hnone
  · exact Or.inr ⟨i, rest, _, rfl, ht, hrun, rfl, h.erase hk hinv⟩

theorem expireItemsLoop_spec (hk : LawfulKeys keysEq khash) (vector : Slots K) (size : Nat)
    (time : VigorTime) : ∀ (n : Nat) (chain : DoubleChain) (map : Map Int) (count : Nat)
      (alloc free : List Int), Coherent keysEq khash map vector chain size alloc free →
      alloc.length ≤ n →
      ∃ chain' map' expired rest, alloc = expired ++ rest ∧
        expireItemsLoop keysEq khash vector time n chain map count =
          (chain', map', count + expired.length) ∧
        dchainExpireOneIndex chain' time = none ∧
        (∀ i ∈ expired, chain.timestamps i < time) ∧ chain'.timestamps = chain.timestamps ∧
        Coherent keysEq khash map' vector chain' size rest (expired.reverse ++ free) := by
  intro n
  induction n with
  | zero =>
    intro chain map count alloc free h hn
    obtain rfl := List.length_eq_zero_iff.mp (Nat.le_zero.mp hn)
    refine ⟨chain, map, [], [], rfl, rfl, ?_, by simp, rfl, h⟩
    rcases h.expireOne hk time with hnone | ⟨i, rest, _, hnil, _⟩
    · exact hnone
    · cases hnil
  | succ n ih =>
    intro chain map count alloc free h hn
    unfold expireItemsLoop
    rcases h.expireOne hk time with hnone | ⟨i, rest, chain₁, rfl, ht, hrun, hts, hnext⟩
    · refine ⟨chain, map, [], alloc, rfl, ?_, hnone, by simp, rfl, h⟩
      rw [hnone]
      rfl
    · obtain ⟨chain', map', expired, kept, rfl, hloop, hend, hold, hts', hc⟩ :=
        ih chain₁ _ (count + 1) rest (i :: free) hnext (Nat.le_of_succ_le_succ hn)
      refine ⟨chain', map', i :: expired, kept, rfl, ?_, hend, ?_, hts'.trans hts, ?_⟩
      · rw [hrun]
        simp only [hloop, List.length_cons, Prod.mk.injEq, true_and]
        omega
      · intro i' hi'
        rcases List.mem_cons.mp hi' with rfl | hi'
        · exact ht
        · exact hts ▸ hold i' hi'
      · rw [List.reverse_cons, List.append_assoc]
        exact hc

/-- **The expiry loop** ends because nothing is left to expire: it frees the oldest indices, all of
    them older than `time`, and keeps the table coherent. -/
theorem expireItemsSingleMap_spec (h : Coherent keysEq khash map vector chain size alloc free)
    (hk : LawfulKeys keysEq khash) (time : VigorTime) :
    ∃ chain' map' expired rest, alloc = expired ++ rest ∧
      expireItemsSingleMap keysEq khash chain vector map time = (chain', map', expired.length) ∧
      dchainExpireOneIndex chain' time = none ∧
      (∀ i ∈ expired, chain.timestamps i < time) ∧ chain'.timestamps = chain.timestamps ∧
      Coherent keysEq khash map' vector chain' size rest (expired.reverse ++ free) := by
  have hlen : alloc.length ≤ map.capacity := by
    rw [h.linked.capacity]
    exact h.linked.length_le
  have := expireItemsLoop_spec hk vector size time map.capacity chain map 0 alloc free h hlen
  simpa only [Nat.zero_add, expireItemsSingleMap] using this

end Operations

end QueueDpdk.LibVig
