import QueueDpdk.Lib.Probe

/-!
# The hash map (`utils/map.c`, `utils/map-impl.c`)

Open addressing with linear probing.  A slot holds a pointer to its key, the key's hash and a value;
`chns[s]` counts the searches that come through slot `s`, so that a search may stop where nothing
comes through.  The keys themselves stay where the caller keeps them: `deref` reads one through its
pointer, `keysEq` and `khash` are the two function pointers of `struct Map`.

* `MapInv` — the counters are exact, stored hashes are those of the keys, `size` is the number of
  busy slots.
* `mapGet_spec`, `mapPut_spec`, `mapErase_spec` — one theorem for each operation.
-/

set_option autoImplicit false

namespace QueueDpdk.LibVig

open Lib

/-- `struct Map`, with pointers of type `P`. -/
structure Map (P : Type) where
  busybits : Nat → Bool
  keyps : Nat → P
  khs : Nat → Nat
  chns : Nat → Int
  vals : Nat → Int
  capacity : Nat
  size : Nat

def loop (k capacity : Nat) : Nat :=
  let g := k % capacity
  (g + capacity) % capacity

variable {P K : Type}

/-- `busybits[index] = bb`. -/
def Map.setBusy (m : Map P) (index : Nat) (bb : Bool) : Map P :=
  { m with busybits := Function.update m.busybits index bb }

/-- `chns[index] = chn`. -/
def Map.setChn (m : Map P) (index : Nat) (chn : Int) : Map P :=
  { m with chns := Function.update m.chns index chn }

/-- `map_allocate` on freshly allocated memory. -/
def mapAllocate (memory : Map P) (capacity : Nat) : Map P :=
  { memory with busybits := fun _ => false, chns := fun _ => 0, capacity := capacity, size := 0 }

section Operations

variable (deref : P → K) (keysEq : K → K → Bool) (khash : K → Nat)

/-- The loop of `find_key` from step `i`, with the number of steps left. -/
def findKeyFrom (m : Map P) (keyp : K) (keyHash start : Nat) (i : Nat) : Nat → Option Nat
  | 0 => none
  | n + 1 =>
    let index := loop (start + i) m.capacity
    if m.busybits index = true ∧ m.khs index = keyHash then
      if keysEq (deref (m.keyps index)) keyp then some index
      else findKeyFrom m keyp keyHash start (i + 1) n
    else if m.chns index = 0 then none
    else findKeyFrom m keyp keyHash start (i + 1) n

def findKey (m : Map P) (keyp : K) (keyHash : Nat) : Option Nat :=
  findKeyFrom deref keysEq m keyp keyHash (loop keyHash m.capacity) 0 m.capacity

/-- The loop of `find_key_remove_chain`. -/
def findKeyRemoveChainFrom (m : Map P) (keyp : K) (keyHash start : Nat) (i : Nat) :
    Nat → Map P × Option P
  | 0 => (m, none)
  | n + 1 =>
    let index := loop (start + i) m.capacity
    if (m.busybits index = true ∧ m.khs index = keyHash) ∧
        keysEq (deref (m.keyps index)) keyp = true then
      (m.setBusy index false, some (m.keyps index))
    else
      findKeyRemoveChainFrom (m.setChn index (m.chns index - 1)) keyp keyHash start (i + 1) n

def findKeyRemoveChain (m : Map P) (keyp : K) (keyHash : Nat) : Map P × Option P :=
  findKeyRemoveChainFrom deref keysEq m keyp keyHash (loop keyHash m.capacity) 0 m.capacity

/-- The loop of `find_empty`. -/
def findEmptyFrom (m : Map P) (start : Nat) (i : Nat) : Nat → Map P × Option Nat
  | 0 => (m, none)
  | n + 1 =>
    let index := loop (start + i) m.capacity
    if m.busybits index = false then (m, some index)
    else findEmptyFrom (m.setChn index (m.chns index + 1)) start (i + 1) n

def findEmpty (m : Map P) (start : Nat) : Map P × Option Nat := findEmptyFrom m start 0 m.capacity

def mapGet (m : Map P) (key : K) : Option Int :=
  (findKey deref keysEq m key (khash key)).map m.vals

/-- `map_put`.  The caller passes the pointer it wants stored.  In a full map `find_empty` returns
    -1 and the source writes out of bounds; the model then leaves the arrays alone. -/
def mapPut (m : Map P) (key : P) (value : Int) : Map P :=
  let hash := khash (deref key)
  let (m, index) := findEmpty m (loop hash m.capacity)
  match index with
  | some index =>
    { m.setBusy index true with
        keyps := Function.update m.keyps index key
        khs := Function.update m.khs index hash
        vals := Function.update m.vals index value
        size := m.size + 1 }
  | none => { m with size := m.size + 1 }

/-- `map_erase`, with the pointer it hands back in `trash`. -/
def mapErase (m : Map P) (key : K) : Map P × Option P :=
  let (m, trash) := findKeyRemoveChain deref keysEq m key (khash key)
  ({ m with size := m.size - 1 }, trash)

end Operations

theorem loop_eq (k capacity : Nat) : loop k capacity = k % capacity := by
  simp [loop]

theorem loop_probe (start i capacity : Nat) : loop (start + i) capacity = probe capacity start i :=
  loop_eq (start + i) capacity

/-! ## The invariant -/

/-- The slot where the search for the key in slot `j` starts. -/
def Map.home (m : Map P) (j : Nat) : Nat := m.khs j % m.capacity

structure MapInv (m : Map P) (deref : P → K) (khash : K → Nat) : Prop where
  capacity_pos : 0 < m.capacity
  hash : ∀ j < m.capacity, m.busybits j = true → m.khs j = khash (deref (m.keyps j))
  chains : ∀ s < m.capacity, m.chns s = crossings m.capacity m.busybits m.home s
  size_eq : m.size = occupied m.capacity m.busybits

theorem mapAllocate_inv (memory : Map P) {capacity : Nat} (h : 0 < capacity) (deref : P → K)
    (khash : K → Nat) : MapInv (mapAllocate memory capacity) deref khash := by
  refine ⟨h, ?_, ?_, ?_⟩
  · intro j _ hb
    cases hb
  · intro s _
    simp [mapAllocate, crossings, crossing]
  · simp [mapAllocate, occupied]

/-! ## Searching -/

section Search

variable {deref : P → K} {keysEq : K → K → Bool} {khash : K → Nat} {m : Map P}

/-- Slot `j` holds an entry for `key`. -/
def Matches (deref : P → K) (keysEq : K → K → Bool) (m : Map P) (key : K) (hash j : Nat) : Prop :=
  (m.busybits j = true ∧ m.khs j = hash) ∧ keysEq (deref (m.keyps j)) key = true

/-- A key is not stored beyond a slot on its way that no entry was moved past. -/
theorem no_match_beyond (hc : 0 < m.capacity)
    (hchains : ∀ s < m.capacity, m.chns s = crossings m.capacity m.busybits m.home s) {key : K}
    {hash i k : Nat} (hik : i < k) (hk : k < m.capacity)
    (h0 : m.chns (probe m.capacity (hash % m.capacity) i) = 0) :
    ¬Matches deref keysEq m key hash (probe m.capacity (hash % m.capacity) k) := by
  intro hm
  have hh : hash % m.capacity < m.capacity := Nat.mod_lt _ hc
  have hhome : m.home (probe m.capacity (hash % m.capacity) k) = hash % m.capacity := by
    rw [Map.home, hm.1.2]
  have hcross : dist m.capacity (m.home (probe m.capacity (hash % m.capacity) k))
      (probe m.capacity (hash % m.capacity) i) <
      dist m.capacity (m.home (probe m.capacity (hash % m.capacity) k))
        (probe m.capacity (hash % m.capacity) k) := by
    rw [hhome, dist_probe hh (by omega), dist_probe hh hk]
    exact hik
  have hpos := crossings_pos _ (probe_lt hc) hm.1.1 hcross
  rw [hchains _ (probe_lt hc)] at h0
  omega

theorem findKeyFrom_spec (deref : P → K) (keysEq : K → K → Bool) (hc : 0 < m.capacity)
    (hchains : ∀ s < m.capacity, m.chns s = crossings m.capacity m.busybits m.home s) (key : K)
    (hash : Nat) : ∀ (n i : Nat), i + n = m.capacity →
      (∃ j < m.capacity, findKeyFrom deref keysEq m key hash (hash % m.capacity) i n = some j ∧
        Matches deref keysEq m key hash j) ∨
      (findKeyFrom deref keysEq m key hash (hash % m.capacity) i n = none ∧
        ∀ k, i ≤ k → k < m.capacity →
          ¬Matches deref keysEq m key hash (probe m.capacity (hash % m.capacity) k)) := by
  intro n
  induction n with
  | zero =>
    intro i hi
    refine Or.inr ⟨rfl, fun k h1 h2 => ?_⟩
    omega
  | succ n ih =>
    intro i hi
    have hs : probe m.capacity (hash % m.capacity) i < m.capacity := probe_lt hc
    -- the steps after this one
    have hrest : ¬Matches deref keysEq m key hash (probe m.capacity (hash % m.capacity) i) →
        (∃ j < m.capacity,
          findKeyFrom deref keysEq m key hash (hash % m.capacity) (i + 1) n = some j ∧
          Matches deref keysEq m key hash j) ∨
        (findKeyFrom deref keysEq m key hash (hash % m.capacity) (i + 1) n = none ∧
          ∀ k, i ≤ k → k < m.capacity →
            ¬Matches deref keysEq m key hash (probe m.capacity (hash % m.capacity) k)) := by
      intro hno
      rcases ih (i + 1) (by omega) with hfound | ⟨hnone, hlater⟩
      · exact Or.inl hfound
      · refine Or.inr ⟨hnone, fun k h1 h2 => ?_⟩
        rcases Nat.eq_or_lt_of_le h1 with rfl | hlt
        · exact hno
        · exact hlater k hlt h2
    unfold findKeyFrom
    simp only [loop_probe]
    by_cases hb : m.busybits (probe m.capacity (hash % m.capacity) i) = true ∧
        m.khs (probe m.capacity (hash % m.capacity) i) = hash
    · rw [if_pos hb]
      by_cases he : keysEq (deref (m.keyps (probe m.capacity (hash % m.capacity) i))) key = true
      · rw [if_pos he]
        exact Or.inl ⟨_, hs, rfl, hb, he⟩
      · rw [if_neg he]
        exact hrest (fun hm => he hm.2)
    · rw [if_neg hb]
      by_cases h0 : m.chns (probe m.capacity (hash % m.capacity) i) = 0
      · -- nothing comes through this slot, so the key cannot be further on
        rw [if_pos h0]
        refine Or.inr ⟨rfl, fun k h1 h2 hm => ?_⟩
        rcases Nat.eq_or_lt_of_le h1 with rfl | hlt
        · exact hb hm.1
        · exact no_match_beyond hc hchains hlt h2 h0 hm
      · rw [if_neg h0]
        exact hrest (fun hm => hb hm.1)

/-- **`map_get`** finds a value stored under an equal key, and fails only if there is none. -/
theorem mapGet_spec (h : MapInv m deref khash) (heq : ∀ a b, keysEq a b = true → khash a = khash b)
    (key : K) :
    (∃ j < m.capacity, mapGet deref keysEq khash m key = some (m.vals j) ∧ m.busybits j = true ∧
      keysEq (deref (m.keyps j)) key = true) ∨
    (mapGet deref keysEq khash m key = none ∧
      ∀ j < m.capacity, m.busybits j = true → keysEq (deref (m.keyps j)) key = false) := by
  have hh : khash key % m.capacity < m.capacity := Nat.mod_lt _ h.capacity_pos
  unfold mapGet findKey
  rw [loop_eq]
  rcases findKeyFrom_spec deref keysEq h.capacity_pos h.chains key
    (khash key) m.capacity 0 (Nat.zero_add _) with ⟨j, hj, hfind, hm⟩ | ⟨hnone, hno⟩
  · exact Or.inl ⟨j, hj, by rw [hfind]; rfl, hm.1.1, hm.2⟩
  · refine Or.inr ⟨by rw [hnone]; rfl, fun j hj hb => ?_⟩
    by_contra he
    have he' : keysEq (deref (m.keyps j)) key = true := (Bool.not_eq_false _).mp he
    have := hno _ (Nat.zero_le _) (@dist_lt m.capacity (khash key % m.capacity) j h.capacity_pos)
    rw [probe_dist hh hj] at this
    exact this ⟨⟨hb, (h.hash j hj hb).trans (heq _ _ he')⟩, he'⟩

end Search

/-! ## Removing -/

section Removal

variable {deref : P → K} {keysEq : K → K → Bool} {khash : K → Nat}

theorem findKeyRemoveChainFrom_spec (deref : P → K) (keysEq : K → K → Bool) (hash : Nat) (key : K) :
    ∀ (n i : Nat) (m : Map P), 0 < m.capacity → i + n = m.capacity →
      (∃ k, i ≤ k ∧ k < m.capacity ∧
        Matches deref keysEq m key hash (probe m.capacity (hash % m.capacity) k)) →
      ∃ k chns, i ≤ k ∧ k < m.capacity ∧
        Matches deref keysEq m key hash (probe m.capacity (hash % m.capacity) k) ∧
        findKeyRemoveChainFrom deref keysEq m key hash (hash % m.capacity) i n =
          ({ m.setBusy (probe m.capacity (hash % m.capacity) k) false with chns := chns },
            some (m.keyps (probe m.capacity (hash % m.capacity) k))) ∧
        ∀ s < m.capacity, chns s = m.chns s +
          if i ≤ dist m.capacity (hash % m.capacity) s ∧ dist m.capacity (hash % m.capacity) s < k
          then -1 else 0 := by
  intro n
  induction n with
  | zero =>
    rintro i m - hi ⟨k, h1, h2, -⟩
    omega
  | succ n ih =>
    intro i m hc hi hex
    have hh : hash % m.capacity < m.capacity := Nat.mod_lt _ hc
    rcases Classical.em (Matches deref keysEq m key hash (probe m.capacity (hash % m.capacity) i))
      with hm | hm
    · refine ⟨i, m.chns, Nat.le_refl i, by omega, hm, ?_, fun s _ => ?_⟩
      · unfold findKeyRemoveChainFrom
        simp only [loop_probe]
        exact if_pos hm
      · rw [if_neg (by omega), Int.add_zero]
    · obtain ⟨k, h1, h2, hk⟩ := hex
      have hlt : i < k := by
        rcases Nat.eq_or_lt_of_le h1 with rfl | hlt
        · exact absurd hk hm
        · exact hlt
      obtain ⟨k', chns, h1', h2', hk', hrun, hchns⟩ :=
        ih (i + 1) (m.setChn (probe m.capacity (hash % m.capacity) i)
          (m.chns (probe m.capacity (hash % m.capacity) i) - 1)) hc
          (by show i + 1 + n = m.capacity; omega) ⟨k, hlt, h2, hk⟩
      refine ⟨k', chns, by omega, h2', hk', ?_, fun s hs => ?_⟩
      · unfold findKeyRemoveChainFrom
        simp only [loop_probe]
        exact (if_neg hm).trans hrun
      · rw [hchns s hs]
        exact count_step hh (by omega) hs h1' m.chns (-1)

/-- **`map_erase`** of a stored key empties a slot with an equal key and hands its pointer back. -/
theorem mapErase_spec {m : Map P} (h : MapInv m deref khash)
    (heq : ∀ a b, keysEq a b = true → khash a = khash b) {key : K}
    (hex : ∃ j < m.capacity, m.busybits j = true ∧ keysEq (deref (m.keyps j)) key = true) :
    ∃ j < m.capacity, ∃ m', mapErase deref keysEq khash m key = (m', some (m.keyps j)) ∧
      m.busybits j = true ∧ keysEq (deref (m.keyps j)) key = true ∧
      m'.busybits = Function.update m.busybits j false ∧ m'.keyps = m.keyps ∧ m'.vals = m.vals ∧
      m'.capacity = m.capacity ∧ MapInv m' deref khash := by
  have hh : khash key % m.capacity < m.capacity := Nat.mod_lt _ h.capacity_pos
  obtain ⟨j, hj, hb, he⟩ := hex
  have hkh : m.khs j = khash key := (h.hash j hj hb).trans (heq _ _ he)
  obtain ⟨k, chns, -, hk, ⟨⟨hbk, hkk⟩, hek⟩, hrun, hchns⟩ :=
    findKeyRemoveChainFrom_spec deref keysEq (khash key) key m.capacity 0 m
      h.capacity_pos (Nat.zero_add _)
      ⟨dist m.capacity (khash key % m.capacity) j, Nat.zero_le _, dist_lt h.capacity_pos, by
        rw [probe_dist hh hj]
        exact ⟨⟨hb, hkh⟩, he⟩⟩
  have hhome : m.home (probe m.capacity (khash key % m.capacity) k) = khash key % m.capacity := by
    rw [Map.home, hkk]
  have hp : probe m.capacity (khash key % m.capacity) k < m.capacity := probe_lt h.capacity_pos
  have hdp := dist_probe hh hk
  generalize probe m.capacity (khash key % m.capacity) k = p at *
  refine ⟨p, hp, { m.setBusy p false with chns := chns, size := m.size - 1 }, ?_, hbk, hek, rfl,
    rfl, rfl, rfl, ?_, ?_, ?_, ?_⟩
  · unfold mapErase findKeyRemoveChain
    rw [loop_eq, hrun]
    rfl
  · exact h.capacity_pos
  · intro i hi hbi
    have hne : i ≠ p := by
      rintro rfl
      change Function.update m.busybits i false i = true at hbi
      rw [Function.update_self] at hbi
      cases hbi
    change Function.update m.busybits p false i = true at hbi
    rw [Function.update_of_ne hne] at hbi
    exact h.hash i hi hbi
  · intro s hs
    have hcross := @crossings_erase _ _ m.home _ hp hbk s
    show chns s = crossings m.capacity (Function.update m.busybits p false) m.home s
    rw [hchns s hs, h.chains s hs, hcross, hhome, hdp]
    by_cases hd : dist m.capacity (khash key % m.capacity) s < k
    · rw [if_pos hd, if_pos ⟨Nat.zero_le _, hd⟩]
      omega
    · rw [if_neg hd, if_neg (fun hc => hd hc.2)]
      omega
  · have := occupied_erase hp hbk
    show m.size - 1 = occupied m.capacity (Function.update m.busybits p false)
    rw [h.size_eq]
    omega

end Removal

/-! ## Inserting -/

section Insertion

theorem findEmptyFrom_spec (start : Nat) :
    ∀ (n i : Nat) (m : Map P), start < m.capacity → i + n = m.capacity →
      (∃ k, i ≤ k ∧ k < m.capacity ∧ m.busybits (probe m.capacity start k) = false) →
      ∃ k chns, i ≤ k ∧ k < m.capacity ∧ m.busybits (probe m.capacity start k) = false ∧
        findEmptyFrom m start i n = ({ m with chns := chns }, some (probe m.capacity start k)) ∧
        ∀ s < m.capacity, chns s = m.chns s +
          if i ≤ dist m.capacity start s ∧ dist m.capacity start s < k then 1 else 0 := by
  intro n
  induction n with
  | zero =>
    rintro i m - hi ⟨k, h1, h2, -⟩
    omega
  | succ n ih =>
    intro i m hh hi hex
    cases hb : m.busybits (probe m.capacity start i) with
    | false =>
      refine ⟨i, m.chns, Nat.le_refl i, by omega, hb, ?_, fun s _ => ?_⟩
      · unfold findEmptyFrom
        simp only [loop_probe]
        exact if_pos hb
      · rw [if_neg (by omega), Int.add_zero]
    | true =>
      obtain ⟨k, h1, h2, hk⟩ := hex
      have hlt : i < k := by
        rcases Nat.eq_or_lt_of_le h1 with rfl | hlt
        · rw [hb] at hk
          cases hk
        · exact hlt
      obtain ⟨k', chns, h1', h2', hk', hrun, hchns⟩ :=
        ih (i + 1) (m.setChn (probe m.capacity start i)
          (m.chns (probe m.capacity start i) + 1)) hh
          (by show i + 1 + n = m.capacity; omega) ⟨k, hlt, h2, hk⟩
      refine ⟨k', chns, by omega, h2', hk', ?_, fun s hs => ?_⟩
      · unfold findEmptyFrom
        simp only [loop_probe]
        rw [hb, if_neg (by decide)]
        exact hrun
      · rw [hchns s hs]
        exact count_step hh (by omega) hs h1' m.chns 1

/-- **`map_put`** fills an empty slot, provided there is one. -/
theorem mapPut_spec {deref : P → K} {khash : K → Nat} {m : Map P} (h : MapInv m deref khash)
    (hroom : m.size < m.capacity) (key : P) (value : Int) :
    ∃ j < m.capacity, ∃ m', mapPut deref khash m key value = m' ∧ m.busybits j = false ∧
      m'.busybits = Function.update m.busybits j true ∧
      m'.keyps = Function.update m.keyps j key ∧ m'.vals = Function.update m.vals j value ∧
      m'.capacity = m.capacity ∧ MapInv m' deref khash := by
  have hh : khash (deref key) % m.capacity < m.capacity := Nat.mod_lt _ h.capacity_pos
  obtain ⟨e, he, hbe⟩ := exists_free (h.size_eq ▸ hroom)
  obtain ⟨k, chns, -, hk, hbk, hrun, hchns⟩ :=
    findEmptyFrom_spec (khash (deref key) % m.capacity) m.capacity 0 m hh (Nat.zero_add _)
      ⟨dist m.capacity (khash (deref key) % m.capacity) e, Nat.zero_le _, dist_lt h.capacity_pos, by
        rw [probe_dist hh he]
        exact hbe⟩
  have hp : probe m.capacity (khash (deref key) % m.capacity) k < m.capacity :=
    probe_lt h.capacity_pos
  have hdp := dist_probe hh hk
  generalize probe m.capacity (khash (deref key) % m.capacity) k = p at *
  refine ⟨p, hp, { m.setBusy p true with
      keyps := Function.update m.keyps p key
      khs := Function.update m.khs p (khash (deref key))
      chns := chns
      vals := Function.update m.vals p value
      size := m.size + 1 }, ?_, hbk, rfl, rfl, rfl, rfl, h.capacity_pos, ?_, ?_, ?_⟩
  · unfold mapPut findEmpty
    simp only [loop_eq, hrun]
    rfl
  · intro i hi hbi
    by_cases hne : i = p
    · subst hne
      simp
    · simp only [Map.setBusy, Function.update_of_ne hne] at hbi ⊢
      exact h.hash i hi hbi
  · intro s hs
    have hcross := crossings_insert m.home (khash (deref key) % m.capacity) hp hbk s
    have hhome : Function.update m.home p (khash (deref key) % m.capacity) =
        fun j => Function.update m.khs p (khash (deref key)) j % m.capacity := by
      funext j
      by_cases hj : j = p
      · subst hj
        simp
      · simp [hj, Map.home]
    rw [hhome, hdp] at hcross
    show chns s = crossings m.capacity (Function.update m.busybits p true)
      (fun j => Function.update m.khs p (khash (deref key)) j % m.capacity) s
    rw [hcross, hchns s hs, h.chains s hs]
    by_cases hd : dist m.capacity (khash (deref key) % m.capacity) s < k
    · rw [if_pos hd, if_pos ⟨Nat.zero_le _, hd⟩]
      omega
    · rw [if_neg hd, if_neg (fun hc => hd hc.2)]
      omega
  · show m.size + 1 = occupied m.capacity (Function.update m.busybits p true)
    rw [occupied_insert hp hbk, h.size_eq]

end Insertion

/-- The map does not read the keys of empty slots. -/
theorem MapInv.congr {deref deref' : P → K} {khash : K → Nat} {m : Map P} (h : MapInv m deref khash)
    (hsame : ∀ j < m.capacity, m.busybits j = true → deref' (m.keyps j) = deref (m.keyps j)) :
    MapInv m deref' khash := by
  refine ⟨h.capacity_pos, fun j hj hb => ?_, h.chains, h.size_eq⟩
  rw [h.hash j hj hb, hsame j hj hb]

/-! ## Values -/

/-- Every value in the map satisfies `S`. -/
def Map.ValuesIn (m : Map P) (S : Int → Prop) : Prop := ∀ j, m.busybits j = true → S (m.vals j)

section Values

variable {S : Int → Prop} {deref : P → K} {keysEq : K → K → Bool} {khash : K → Nat} {m : Map P}

theorem mapAllocate_valuesIn (memory : Map P) (capacity : Nat) :
    (mapAllocate memory capacity).ValuesIn S := fun _ hb => by cases hb

theorem findKeyFrom_busy {key : K} {hash start : Nat} :
    ∀ {n i j : Nat}, findKeyFrom deref keysEq m key hash start i n = some j →
      m.busybits j = true := by
  intro n
  induction n with
  | zero => intro i j h; cases h
  | succ n ih =>
    intro i j h
    rw [findKeyFrom] at h
    split at h
    · rename_i hbusy
      split at h
      · cases h
        exact hbusy.1
      · exact ih h
    · split at h
      · cases h
      · exact ih h

/-- What a lookup returns is in the map. -/
theorem mapGet_mem (h : m.ValuesIn S) {key : K} {i : Int}
    (hget : mapGet deref keysEq khash m key = some i) : S i := by
  obtain ⟨j, hj, rfl⟩ := Option.map_eq_some_iff.mp hget
  exact h j (findKeyFrom_busy hj)

theorem findEmptyFrom_frame (start : Nat) :
    ∀ (n : Nat) (m : Map P) (i : Nat),
      (findEmptyFrom m start i n).1.busybits = m.busybits ∧
        (findEmptyFrom m start i n).1.vals = m.vals := by
  intro n
  induction n with
  | zero => intro m i; exact ⟨rfl, rfl⟩
  | succ n ih =>
    intro m i
    rw [findEmptyFrom]
    split
    · exact ⟨rfl, rfl⟩
    · exact ih (m.setChn _ _) (i + 1)

theorem mapPut_valuesIn (h : m.ValuesIn S) (key : P) {value : Int} (hv : S value) :
    (mapPut deref khash m key value).ValuesIn S := by
  obtain ⟨hbusy, hvals⟩ := findEmptyFrom_frame (loop (khash (deref key)) m.capacity) m.capacity m 0
  intro j hb
  unfold mapPut findEmpty at hb ⊢
  simp only at hb ⊢
  split at hb
  · rename_i p _
    simp only at hb ⊢
    by_cases hj : j = p
    · rw [hj, Function.update_self]
      exact hv
    · rw [Function.update_of_ne hj, hvals]
      simp only [Map.setBusy, Function.update_of_ne hj, hbusy] at hb
      exact h j hb
  · simp only at hb ⊢
    rw [hvals]
    exact h j (hbusy ▸ hb)

theorem findKeyRemoveChainFrom_valuesIn {key : K} {hash start : Nat} :
    ∀ (n : Nat) (m : Map P) (i : Nat), m.ValuesIn S →
      (findKeyRemoveChainFrom deref keysEq m key hash start i n).1.ValuesIn S := by
  intro n
  induction n with
  | zero => intro m i h; exact h
  | succ n ih =>
    intro m i h
    rw [findKeyRemoveChainFrom]
    split
    · rename_i p
      intro j hb
      by_cases hj : j = loop (start + i) m.capacity
      · simp only [Map.setBusy, hj, Function.update_self] at hb
        cases hb
      · simp only [Map.setBusy, Function.update_of_ne hj] at hb
        exact h j hb
    · exact ih _ _ h

theorem mapErase_valuesIn (h : m.ValuesIn S) (key : K) :
    (mapErase deref keysEq khash m key).1.ValuesIn S :=
  findKeyRemoveChainFrom_valuesIn m.capacity m 0 h

end Values

end QueueDpdk.LibVig
