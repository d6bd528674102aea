import QueueDpdk.Lib.Bytes

/-!
# Structures in an addressed memory

A pointer to a structure gives access to the bytes from its address on.

* `load`, `store` — the bytes from an address on, and the memory after they were replaced.
* `memcpy` — the copy of a number of bytes.
* `memcpy_hides_iff` — when a copy hides what was there before.
* `copyAt`, `readBytes` — the copy to an offset, and the bytes at one; `readBytes_eq_iff`.
* `Within` — a change to the first bytes only; `load_store_of_disjoint` — what it leaves alone.
* `entry_disjoint` — the entries of an array do not overlap.
-/

set_option autoImplicit false

namespace Lib

/-- Bytes by address. -/
abbrev ByteMemory := Int → UInt8

/-- The bytes from an address on. -/
def load (memory : ByteMemory) (a : Int) : Bytes := fun k : Nat => memory (a + k)

/-- The memory after the bytes from an address on were replaced. -/
def store (memory : ByteMemory) (a : Int) (b : Bytes) : ByteMemory :=
  fun x => if a ≤ x then b (x - a).toNat else memory x

/-- `n` bytes of `src`, over those of `dst`. -/
def memcpy (dst src : Bytes) (n : Nat) : Bytes := fun k => if k < n then src k else dst k

/-- `n` bytes of `src`, over those from an offset on. -/
def copyAt (dst : Bytes) (off : Nat) (src : Bytes) (n : Nat) : Bytes := fun k =>
  if off ≤ k ∧ k < off + n then src (k - off) else dst k

/-- `n` bytes from an offset on. -/
def readBytes (b : Bytes) (off n : Nat) : List UInt8 := (List.range n).map (fun k => b (off + k))

/-- Only the first `n` bytes were written. -/
def Within (n : Nat) (b b' : Bytes) : Prop := ∀ k, n ≤ k → b' k = b k

section Writes

variable {b b' b'' : Bytes} {n n' off : Nat}

theorem Within.mono (h : Within n b b') (hle : n ≤ n') : Within n' b b' :=
  fun k hk => h k (Nat.le_trans hle hk)

theorem Within.trans (h : Within n b b') (h' : Within n b' b'') : Within n b b'' :=
  fun k hk => (h' k hk).trans (h k hk)

theorem memcpy_within (dst src : Bytes) (n : Nat) : Within n dst (memcpy dst src n) := by
  intro k hk
  rw [memcpy, if_neg (by omega)]

theorem memcpy_of_lt (dst src : Bytes) {k : Nat} (h : k < n) : memcpy dst src n k = src k :=
  if_pos h

theorem memcpy_of_le (dst src : Bytes) {k : Nat} (h : n ≤ k) : memcpy dst src n k = dst k :=
  memcpy_within dst src n k h

/-- A copy hides what was there before just in case it covers all of it. -/
theorem memcpy_hides_iff (src : Bytes) :
    (∀ dst dst' : Bytes, ∀ k < n', memcpy dst src n k = memcpy dst' src n k) ↔ n' ≤ n := by
  constructor
  · intro h
    by_contra hlt
    have hbyte := h (fun _ => 0) (fun _ => 1) n (Nat.not_le.mp hlt)
    rw [memcpy_of_le _ _ (Nat.le_refl n), memcpy_of_le _ _ (Nat.le_refl n)] at hbyte
    exact absurd hbyte (by decide)
  · intro hle dst dst' k hk
    have hlt : k < n := Nat.lt_of_lt_of_le hk hle
    rw [memcpy_of_lt dst src hlt, memcpy_of_lt dst' src hlt]

theorem set16_within (v : UInt16) (h : off + 2 ≤ n) : Within n b (set16 b off v) :=
  fun _ hk => set16_apply b v (Or.inr (Nat.le_trans h hk))

theorem set32_within (v : UInt32) (h : off + 4 ≤ n) : Within n b (set32 b off v) :=
  fun _ hk => set32_apply b v (Or.inr (Nat.le_trans h hk))

theorem update_within (v : UInt8) (h : off < n) : Within n b (Function.update b off v) :=
  fun k hk => Function.update_of_ne (show k ≠ off by omega) v b

end Writes

section Copies

variable {b b' src : Bytes} {off off' n n' k : Nat}

theorem copyAt_zero (dst src : Bytes) (n : Nat) : copyAt dst 0 src n = memcpy dst src n := by
  funext k
  simp [copyAt, memcpy]

theorem copyAt_congr {src' : Bytes} (dst : Bytes) (off : Nat) (h : ∀ k < n, src k = src' k) :
    copyAt dst off src n = copyAt dst off src' n := by
  funext k
  unfold copyAt
  split
  · exact h _ (by omega)
  · rfl

theorem copyAt_add (dst src : Bytes) (off : Nat) (h : k < n) :
    copyAt dst off src n (off + k) = src k := by
  rw [copyAt, if_pos (by omega), Nat.add_sub_cancel_left]

theorem copyAt_of_lt (dst src : Bytes) (h : k < off) : copyAt dst off src n k = dst k :=
  if_neg (by omega)

theorem copyAt_of_le (dst src : Bytes) (h : off + n ≤ k) : copyAt dst off src n k = dst k :=
  if_neg (by omega)

theorem getLE_copyAt_of_disjoint (b src : Bytes) (h : off + n ≤ off' ∨ off' + n' ≤ off) :
    getLE (copyAt b off src n) off' n' = getLE b off' n' := by
  apply getLE_congr
  intro k h1 h2
  rcases h with h | h
  · exact copyAt_of_le b src (by omega)
  · exact copyAt_of_lt b src (by omega)

@[simp] theorem readBytes_length (b : Bytes) (off n : Nat) : (readBytes b off n).length = n := by
  simp [readBytes]

@[simp] theorem readBytes_take (b : Bytes) (off n m : Nat) :
    (readBytes b off n).take m = readBytes b off (min m n) := by
  rw [readBytes, ← List.map_take, List.take_range, readBytes]

theorem getLE_shift (b : Bytes) (a : Nat) :
    ∀ (n off : Nat), getLE b (a + off) n = getLE (fun k => b (a + k)) off n
  | 0, _ => rfl
  | n + 1, off => by rw [getLE, getLE, Nat.add_assoc, getLE_shift b a n (off + 1)]

/-- A number from the list of its bytes. -/
theorem getLE_readBytes (b : Bytes) (off n : Nat) :
    getLE (fun k => (readBytes b off n).getD k 0) 0 n = getLE b off n := by
  have hshift := getLE_shift b off n 0
  rw [Nat.add_zero] at hshift
  rw [hshift]
  refine getLE_congr n 0 (fun k _ hk => ?_)
  simp [readBytes, (by omega : k < n)]

/-- Two memories have the same bytes there. -/
theorem readBytes_eq_iff :
    readBytes b off n = readBytes b' off' n ↔ ∀ k < n, b (off + k) = b' (off' + k) := by
  simp [readBytes, List.map_inj_left]

theorem readBytes_copyAt (b src : Bytes) (off n : Nat) :
    readBytes (copyAt b off src n) off n = readBytes src 0 n := by
  rw [readBytes_eq_iff]
  intro k hk
  rw [copyAt_add b src off hk, Nat.zero_add]

theorem readBytes_copyAt_of_disjoint (b src : Bytes) (h : off + n ≤ off' ∨ off' + n' ≤ off) :
    readBytes (copyAt b off src n) off' n' = readBytes b off' n' := by
  rw [readBytes_eq_iff]
  intro k hk
  rcases h with h | h
  · exact copyAt_of_le b src (by omega)
  · exact copyAt_of_lt b src (by omega)

theorem readBytes_setLE_of_disjoint (b : Bytes) (v : Nat)
    (h : off + n ≤ off' ∨ off' + n' ≤ off) :
    readBytes (setLE b off n v) off' n' = readBytes b off' n' := by
  rw [readBytes_eq_iff]
  intro k hk
  rcases h with h | h
  · exact setLE_apply_of_le n b off v (by omega)
  · exact setLE_apply_of_lt n b off v (by omega)

end Copies

section Access

variable {memory : ByteMemory} {a a' : Int} {b : Bytes} {n w : Nat}

@[simp] theorem load_store (memory : ByteMemory) (a : Int) (b : Bytes) :
    load (store memory a b) a = b := by
  funext k
  have hle : a ≤ a + (k : Int) := by omega
  have hk : (a + (k : Int) - a).toNat = k := by omega
  rw [load, store, if_pos hle, hk]

/-- A write within `n` bytes is not seen in `w` bytes elsewhere. -/
theorem load_store_of_disjoint (h : Within n (load memory a) b) (hd : a' + w ≤ a ∨ a + n ≤ a')
    {k : Nat} (hk : k < w) : load (store memory a b) a' k = load memory a' k := by
  unfold load store
  split
  · rename_i hle
    have hrest : n ≤ (a' + (k : Int) - a).toNat := by omega
    have hsame := h _ hrest
    have hback : a + ((a' + (k : Int) - a).toNat : Int) = a' + k := by omega
    unfold load at hsame
    rw [hsame, hback]
  · rfl

/-- Entries of an array lie side by side. -/
theorem entry_disjoint (data : Int) {size : Nat} {i j : Int} (h : i ≠ j) :
    data + i * size + size ≤ data + j * size ∨ data + j * size + size ≤ data + i * size := by
  have hstep : ∀ a b : Int, a < b → data + a * size + size ≤ data + b * size := by
    intro a b hab
    have hmul : (a + 1) * (size : Int) ≤ b * size :=
      Int.mul_le_mul_of_nonneg_right hab (Int.natCast_nonneg size)
    rw [Int.add_mul, Int.one_mul] at hmul
    omega
  rcases Int.lt_or_gt_of_ne h with hlt | hgt
  · exact Or.inl (hstep i j hlt)
  · exact Or.inr (hstep j i hgt)

end Access

end Lib
