import QueueDpdk.Lib.Memory
import QueueDpdk.LibVig.Coherence

/-!
# Vectors of bytes and pointers into them (`utils/vector.c`)

`struct Vector` is an array of bytes; a pointer to an element is its address, and the map keeps such
pointers.

* `Map.Rep` — two maps that differ in what their pointers are; `mapGet_rep`, `mapPut_rep`,
  `mapErase_rep` — the operations do not see the difference.
* `Raw.Vector`, `Raw.vectorAllocate`, `Raw.vectorBorrow` — the vector as the source has it.
* `Raw.modify_slots` — a write to an element stays in it, whatever the size of the elements is.
* `Raw.expireItemsSingleMap_rep` — the expiry loop on pointers does what the one on slots does.
-/

set_option autoImplicit false

namespace QueueDpdk.LibVig

open Lib

/-! ## What pointers are -/

section Pointers

variable {P P' K K' : Type} {p : P' → P}

/-- `m` keeps `p q` wherever `m'` keeps the pointer `q`. -/
structure Map.Rep (p : P' → P) (m : Map P) (m' : Map P') : Prop where
  busybits : m.busybits = m'.busybits
  keyps : ∀ j, m'.busybits j = true → m.keyps j = p (m'.keyps j)
  khs : m.khs = m'.khs
  chns : m.chns = m'.chns
  vals : m.vals = m'.vals
  capacity : m.capacity = m'.capacity
  size : m.size = m'.size

theorem Map.Rep.setChn {m : Map P} {m' : Map P'} (h : m.Rep p m') (index : Nat) (chn : Int) :
    (m.setChn index chn).Rep p (m'.setChn index chn) := by
  refine ⟨h.busybits, h.keyps, h.khs, ?_, h.vals, h.capacity, h.size⟩
  show Function.update m.chns index chn = Function.update m'.chns index chn
  rw [h.chns]

theorem Map.Rep.setBusy_false {m : Map P} {m' : Map P'} (h : m.Rep p m') (index : Nat) :
    (m.setBusy index false).Rep p (m'.setBusy index false) := by
  refine ⟨?_, ?_, h.khs, h.chns, h.vals, h.capacity, h.size⟩
  · show Function.update m.busybits index false = Function.update m'.busybits index false
    rw [h.busybits]
  · intro j hb
    change Function.update m'.busybits index false j = true at hb
    by_cases hj : j = index
    · rw [hj, Function.update_self] at hb
      cases hb
    · rw [Function.update_of_ne hj] at hb
      exact h.keyps j hb

section Lookups

variable {deref : P → K} {deref' : P' → K'} {keysEq : K → K → Bool} {keysEq' : K' → K' → Bool}
  {khash : K → Nat} {khash' : K' → Nat} {key : K} {key' : K'}

theorem findKeyFrom_rep {m : Map P} {m' : Map P'} (h : m.Rep p m')
    (hkey : ∀ q, keysEq (deref (p q)) key = keysEq' (deref' q) key') (hash start : Nat) :
    ∀ n i : Nat, findKeyFrom deref keysEq m key hash start i n =
      findKeyFrom deref' keysEq' m' key' hash start i n := by
  intro n
  induction n with
  | zero => intro i; rfl
  | succ n ih =>
    intro i
    simp only [findKeyFrom, h.busybits, h.khs, h.chns, h.capacity, ih]
    by_cases hb : m'.busybits (loop (start + i) m'.capacity) = true ∧
        m'.khs (loop (start + i) m'.capacity) = hash
    · rw [if_pos hb, if_pos hb, h.keyps _ hb.1, hkey]
    · rw [if_neg hb, if_neg hb]

theorem findKeyRemoveChainFrom_rep
    (hkey : ∀ q, keysEq (deref (p q)) key = keysEq' (deref' q) key') (hash start : Nat) :
    ∀ (n i : Nat) (m : Map P) (m' : Map P'), m.Rep p m' →
      (findKeyRemoveChainFrom deref keysEq m key hash start i n).1.Rep p
        (findKeyRemoveChainFrom deref' keysEq' m' key' hash start i n).1 := by
  intro n
  induction n with
  | zero => intro i m m' h; exact h
  | succ n ih =>
    intro i m m' h
    -- an empty slot matches no key, and the key of a busy one is read through either pointer
    have hmatch : ∀ j, ((m.busybits j = true ∧ m.khs j = hash) ∧
        keysEq (deref (m.keyps j)) key = true) ↔ (m'.busybits j = true ∧ m'.khs j = hash) ∧
        keysEq' (deref' (m'.keyps j)) key' = true := by
      intro j
      rw [h.busybits, h.khs]
      refine and_congr_right (fun hb => ?_)
      rw [h.keyps j hb.1, hkey]
    simp only [findKeyRemoveChainFrom, hmatch, h.capacity, h.chns]
    split
    · exact h.setBusy_false _
    · exact ih _ _ _ (h.setChn _ _)

theorem findEmptyFrom_rep (start : Nat) :
    ∀ (n i : Nat) (m : Map P) (m' : Map P'), m.Rep p m' →
      (findEmptyFrom m start i n).1.Rep p (findEmptyFrom m' start i n).1 ∧
        (findEmptyFrom m start i n).2 = (findEmptyFrom m' start i n).2 := by
  intro n
  induction n with
  | zero => intro i m m' h; exact ⟨h, rfl⟩
  | succ n ih =>
    intro i m m' h
    simp only [findEmptyFrom, h.busybits, h.capacity, h.chns]
    split
    · exact ⟨h, rfl⟩
    · exact ih _ _ _ (h.setChn _ _)

theorem mapGet_rep {m : Map P} {m' : Map P'} (h : m.Rep p m')
    (hkey : ∀ q, keysEq (deref (p q)) key = keysEq' (deref' q) key')
    (hhash : khash key = khash' key') :
    mapGet deref keysEq khash m key = mapGet deref' keysEq' khash' m' key' := by
  unfold mapGet findKey
  rw [hhash, h.capacity, h.vals, findKeyFrom_rep h hkey]

theorem mapErase_rep {m : Map P} {m' : Map P'} (h : m.Rep p m')
    (hkey : ∀ q, keysEq (deref (p q)) key = keysEq' (deref' q) key')
    (hhash : khash key = khash' key') :
    (mapErase deref keysEq khash m key).1.Rep p (mapErase deref' keysEq' khash' m' key').1 := by
  have hremoved := findKeyRemoveChainFrom_rep hkey (khash' key')
    (loop (khash' key') m'.capacity) m'.capacity 0 m m' h
  unfold mapErase findKeyRemoveChain
  rw [hhash, h.capacity]
  exact ⟨hremoved.busybits, hremoved.keyps, hremoved.khs, hremoved.chns, hremoved.vals,
    hremoved.capacity, congrArg (· - 1) hremoved.size⟩

theorem mapPut_rep {m : Map P} {m' : Map P'} (h : m.Rep p m') {q : P'}
    (hhash : khash (deref (p q)) = khash' (deref' q)) (value : Int) :
    (mapPut deref khash m (p q) value).Rep p (mapPut deref' khash' m' q value) := by
  obtain ⟨hfound, hindex⟩ := findEmptyFrom_rep (loop (khash' (deref' q)) m'.capacity) m'.capacity 0
    m m' h
  unfold mapPut findEmpty
  simp only [hhash, h.capacity, hindex]
  split
  · rename_i index _
    refine ⟨?_, ?_, ?_, hfound.chns, ?_, hfound.capacity, ?_⟩
    · simp only [Map.setBusy, hfound.busybits]
    · intro j hb
      by_cases hj : j = index
      · simp only [hj, Function.update_self]
      · simp only [Map.setBusy, Function.update_of_ne hj] at hb ⊢
        exact hfound.keyps j hb
    · simp only [hfound.khs]
    · simp only [hfound.vals]
    · simp only [hfound.size]
  · exact ⟨hfound.busybits, hfound.keyps, hfound.khs, hfound.chns, hfound.vals, hfound.capacity,
      congrArg (· + 1) hfound.size⟩

end Lookups

/-- A new map keeps no pointers. -/
theorem mapAllocate_rep (p : P' → P) (memory : Map P) (q : P') (capacity : Nat) :
    (mapAllocate memory capacity).Rep p
      (mapAllocate { memory with keyps := fun _ => q } capacity) :=
  ⟨rfl, fun _ hb => (by cases hb), rfl, rfl, rfl, rfl, rfl⟩

end Pointers

namespace Raw

/-! ## The vector -/

/-- `struct Vector`, with the memory its data lies in. -/
structure Vector where
  memory : ByteMemory
  data : Int
  elemSize : Nat
  capacity : Nat

/-- `vector_borrow`: the pointer it hands out. -/
def vectorBorrow (vector : Vector) (index : Int) : Int := vector.data + index * vector.elemSize

/-- What a function does to the bytes it gets a pointer to. -/
def Vector.modify (vector : Vector) (elem : Int) (f : Bytes → Bytes) : Vector :=
  { vector with memory := store vector.memory elem (f (load vector.memory elem)) }

/-- The loop of `vector_allocate` from element `i` on, with the number of elements left. -/
def initElems (initElem : Bytes → Bytes) (vector : Vector) (i : Nat) : Nat → Vector
  | 0 => vector
  | n + 1 => initElems initElem (vector.modify (vectorBorrow vector i) initElem) (i + 1) n

/-- `vector_allocate`, given the address and the contents of the memory it allocates. -/
def vectorAllocate (elemSize capacity : Nat) (initElem : Bytes → Bytes) (memory : ByteMemory)
    (data : Int) : Vector :=
  initElems initElem ⟨memory, data, elemSize, capacity⟩ 0 capacity

variable {K : Type}

/-- The elements as a function reads them. -/
def Vector.slots (vector : Vector) (read : Bytes → K) : Slots K :=
  fun i => read (load vector.memory (vectorBorrow vector i))

/-- A function that looks at the first `w` bytes only. -/
def Reads (w : Nat) (read : Bytes → K) : Prop :=
  ∀ b b' : Bytes, (∀ k < w, b k = b' k) → read b = read b'

section Elements

variable {vector : Vector} {read : Bytes → K} {w : Nat}

/-- **Elements do not overlap**: what is written within one is not read in another. -/
theorem modify_slots (hread : Reads w read) (hw : w ≤ vector.elemSize) (i : Int)
    {f : Bytes → Bytes} (hf : ∀ b, Within vector.elemSize b (f b)) :
    (vector.modify (vectorBorrow vector i) f).slots read =
      Function.update (vector.slots read) i
        (read (f (load vector.memory (vectorBorrow vector i)))) := by
  funext j
  by_cases hj : j = i
  · subst hj
    rw [Function.update_self]
    exact congrArg read (load_store _ _ _)
  · rw [Function.update_of_ne hj]
    apply hread
    intro k hk
    exact load_store_of_disjoint (hf _)
      (show _ ∨ _ from entry_disjoint vector.data hj) (Nat.lt_of_lt_of_le hk hw)

theorem initElems_slots (hread : Reads w read) {initElem : Bytes → Bytes} {init : K → K}
    (hinit : ∀ b, read (initElem b) = init (read b)) :
    ∀ (n i : Nat) (vector : Vector), w ≤ vector.elemSize →
      (∀ b, Within vector.elemSize b (initElem b)) →
      (initElems initElem vector i n).slots read =
        fun j => if (i : Int) ≤ j ∧ j < i + n then init (vector.slots read j)
          else vector.slots read j := by
  intro n
  induction n with
  | zero =>
    intro i vector _ _
    funext j
    rw [if_neg (by omega)]
    rfl
  | succ n ih =>
    intro i vector hw hwithin
    have hfirst := modify_slots hread hw (i : Int) hwithin
    rw [hinit] at hfirst
    have hrest := ih (i + 1) (vector.modify (vectorBorrow vector i) initElem) hw hwithin
    rw [initElems, hrest, hfirst]
    funext j
    by_cases hj : j = i
    · subst hj
      rw [if_neg (by omega), if_pos (by omega), Function.update_self]
      rfl
    · rw [Function.update_of_ne hj]
      by_cases hin : (i : Int) ≤ j ∧ j < i + (n + 1 : Nat)
      · rw [if_pos hin, if_pos (by omega)]
      · rw [if_neg hin, if_neg (by omega)]

/-- The new vector, element by element. -/
theorem vectorAllocate_slots (hread : Reads w read) {initElem : Bytes → Bytes} {init : K → K}
    (hinit : ∀ b, read (initElem b) = init (read b)) {elemSize : Nat} (hw : w ≤ elemSize)
    (hwithin : ∀ b, Within elemSize b (initElem b)) (capacity : Nat) (memory : ByteMemory)
    (data : Int) :
    (vectorAllocate elemSize capacity initElem memory data).slots read =
      LibVig.vectorAllocate capacity init
        ((⟨memory, data, elemSize, capacity⟩ : Vector).slots read) := by
  have hall := initElems_slots hread hinit capacity 0 ⟨memory, data, elemSize, capacity⟩ hw hwithin
  rw [vectorAllocate, hall]
  funext j
  simp [LibVig.vectorAllocate]

end Elements

/-- The loop writes bytes only. -/
theorem initElems_shape (initElem : Bytes → Bytes) :
    ∀ (n i : Nat) (vector : Vector),
      (initElems initElem vector i n).elemSize = vector.elemSize := by
  intro n
  induction n with
  | zero => intro i vector; rfl
  | succ n ih => intro i vector; exact ih (i + 1) _

/-! ## Expiry -/

section Expirator

variable (keysEq : K → K → Bool) (khash : K → Nat) (readKey : Bytes → K)

/-- The while loop of `expire_items_single_map`, with a bound on its iterations. -/
def expireItemsLoop (vector : Vector) (time : VigorTime) :
    Nat → DoubleChain → Map Int → Nat → DoubleChain × Map Int × Nat
  | 0, chain, map, count => (chain, map, count)
  | n + 1, chain, map, count =>
    match dchainExpireOneIndex chain time with
    | none => (chain, map, count)
    | some (chain, index) =>
      let deref := fun keyp : Int => readKey (load vector.memory keyp)
      let key := vectorBorrow vector index
      expireItemsLoop vector time n chain (mapErase deref keysEq khash map (deref key)).1 (count + 1)

/-- `expire_items_single_map`, on pointers. -/
def expireItemsSingleMap (chain : DoubleChain) (vector : Vector) (map : Map Int)
    (time : VigorTime) : DoubleChain × Map Int × Nat :=
  expireItemsLoop keysEq khash readKey vector time map.capacity chain map 0

end Expirator

section Rep

variable {K' : Type} {keysEq : K → K → Bool} {khash : K → Nat} {keysEq' : K' → K' → Bool}
  {khash' : K' → Nat} {readKey : Bytes → K} {read : Bytes → K'} {vector : Vector}

/-- The keys in the map are read off the elements. -/
structure SameKeys (keysEq : K → K → Bool) (khash : K → Nat) (readKey : Bytes → K)
    (keysEq' : K' → K' → Bool) (khash' : K' → Nat) (read : Bytes → K') : Prop where
  eq : ∀ b b', keysEq (readKey b) (readKey b') = keysEq' (read b) (read b')
  hash : ∀ b, khash (readKey b) = khash' (read b)

theorem expireItemsLoop_rep (hsame : SameKeys keysEq khash readKey keysEq' khash' read)
    (time : VigorTime) :
    ∀ (n : Nat) (chain : DoubleChain) (map map' : Map Int) (count : Nat),
      map.Rep (vectorBorrow vector) map' →
      let r := expireItemsLoop keysEq khash readKey vector time n chain map count
      let r' := LibVig.expireItemsLoop keysEq' khash' (vector.slots read) time n chain map' count
      r.1 = r'.1 ∧ r.2.1.Rep (vectorBorrow vector) r'.2.1 ∧ r.2.2 = r'.2.2 := by
  intro n
  induction n with
  | zero => intro chain map map' count h; exact ⟨rfl, h, rfl⟩
  | succ n ih =>
    intro chain map map' count h
    unfold expireItemsLoop LibVig.expireItemsLoop
    cases hone : dchainExpireOneIndex chain time with
    | none => exact ⟨rfl, h, rfl⟩
    | some r =>
      obtain ⟨chain', index⟩ := r
      exact ih _ _ _ _ (mapErase_rep h (fun q => hsame.eq _ _) (hsame.hash _))

/-- **Expiry on pointers** is expiry on slots. -/
theorem expireItemsSingleMap_rep (hsame : SameKeys keysEq khash readKey keysEq' khash' read)
    (time : VigorTime) (chain : DoubleChain) {map map' : Map Int}
    (h : map.Rep (vectorBorrow vector) map') :
    let r := expireItemsSingleMap keysEq khash readKey chain vector map time
    let r' := LibVig.expireItemsSingleMap keysEq' khash' chain (vector.slots read) map' time
    r.1 = r'.1 ∧ r.2.1.Rep (vectorBorrow vector) r'.2.1 ∧ r.2.2 = r'.2.2 := by
  unfold expireItemsSingleMap LibVig.expireItemsSingleMap
  rw [h.capacity]
  exact expireItemsLoop_rep hsame time _ _ _ _ _ h

end Rep

end Raw

end QueueDpdk.LibVig
