import Mathlib.Algebra.Group.Nat.Defs
import Mathlib.Data.Nat.Bitwise
import Mathlib.Logic.Function.Basic

/-!
# Little-endian numbers in byte memories

* `getLE`, `setLE` — reading and writing `n` bytes at an offset.
* `getLE_setLE` — what was written is read back; `getLE_setLE_of_disjoint` — bytes elsewhere stay;
  `setLE_getLE` — writing back what is there changes nothing.
* `get16`, `get32`, `set16`, `set32` — the same for machine words.
* `be16` — words in network byte order, and `netWord` what a machine word is read as.
* `mask_bit_iff` — the bit of a 32-bit mask that a shifted 1 selects.
-/

set_option autoImplicit false

namespace Lib

/-- Bytes by offset. -/
abbrev Bytes := Nat → UInt8

def getLE (b : Bytes) (off : Nat) : Nat → Nat
  | 0 => 0
  | n + 1 => (b off).toNat + 256 * getLE b (off + 1) n

def setLE (b : Bytes) (off : Nat) : Nat → Nat → Bytes
  | 0, _ => b
  | n + 1, v => setLE (Function.update b off (UInt8.ofNat v)) (off + 1) n (v / 256)

theorem setLE_apply_of_lt {k : Nat} : ∀ (n : Nat) (b : Bytes) (off v : Nat), k < off →
    setLE b off n v k = b k
  | 0, _, _, _, _ => rfl
  | n + 1, b, off, v, h => by
    rw [setLE, setLE_apply_of_lt n _ _ _ (by omega), Function.update_of_ne (by omega)]

theorem setLE_apply_of_le {k : Nat} : ∀ (n : Nat) (b : Bytes) (off v : Nat), off + n ≤ k →
    setLE b off n v k = b k
  | 0, _, _, _, _ => rfl
  | n + 1, b, off, v, h => by
    rw [setLE, setLE_apply_of_le n _ _ _ (by omega), Function.update_of_ne (by omega)]

/-- The bytes of the number. -/
theorem setLE_apply : ∀ (n k : Nat) (b : Bytes) (off v : Nat), k < n →
    setLE b off n v (off + k) = UInt8.ofNat (v / 256 ^ k)
  | 0, _, _, _, _, h => absurd h (Nat.not_lt_zero _)
  | n + 1, 0, b, off, v, _ => by
    show setLE b off (n + 1) v off = _
    rw [setLE, setLE_apply_of_lt n _ _ _ (Nat.lt_add_one off), Function.update_self, Nat.pow_zero,
      Nat.div_one]
  | n + 1, k + 1, b, off, v, h => by
    rw [setLE, show off + (k + 1) = off + 1 + k by omega,
      setLE_apply n k _ _ _ (Nat.lt_of_succ_lt_succ h), Nat.div_div_eq_div_mul, Nat.pow_succ,
      Nat.mul_comm]

theorem setLE_zero (n : Nat) (b : Bytes) (off k : Nat) :
    setLE b off n 0 k = if off ≤ k ∧ k < off + n then 0 else b k := by
  split
  · rename_i hk
    have hbyte := setLE_apply n (k - off) b off 0 (by omega)
    rw [show off + (k - off) = k by omega, Nat.zero_div] at hbyte
    exact hbyte
  · rename_i hk
    rcases Nat.lt_or_ge k off with hlt | hge
    · exact setLE_apply_of_lt n b off 0 hlt
    · exact setLE_apply_of_le n b off 0 (by omega)

theorem getLE_congr {b b' : Bytes} : ∀ (n off : Nat),
    (∀ k, off ≤ k → k < off + n → b k = b' k) → getLE b off n = getLE b' off n
  | 0, _, _ => rfl
  | n + 1, off, h => by
    rw [getLE, getLE, h off (Nat.le_refl _) (by omega),
      getLE_congr n (off + 1) (fun k h1 h2 => h k (by omega) (by omega))]

theorem getLE_setLE : ∀ (n : Nat) (b : Bytes) (off v : Nat), v < 256 ^ n →
    getLE (setLE b off n v) off n = v
  | 0, _, _, v, h => by
    rw [Nat.pow_zero] at h
    rw [getLE]
    omega
  | n + 1, b, off, v, h => by
    have hdiv : v / 256 < 256 ^ n := by
      apply Nat.div_lt_of_lt_mul
      rwa [Nat.pow_succ, Nat.mul_comm] at h
    have hlow : (UInt8.ofNat v).toNat = v % 256 := UInt8.toNat_ofNat'
    rw [getLE, setLE, setLE_apply_of_lt n _ _ _ (Nat.lt_succ_self off), Function.update_self,
      getLE_setLE n _ _ _ hdiv, hlow]
    exact Nat.mod_add_div v 256

theorem getLE_setLE_of_disjoint (b : Bytes) {off off' n n' : Nat} (v : Nat)
    (h : off + n ≤ off' ∨ off' + n' ≤ off) : getLE (setLE b off n v) off' n' = getLE b off' n' := by
  apply getLE_congr
  intro k h1 h2
  rcases h with h | h
  · exact setLE_apply_of_le n b off v (by omega)
  · exact setLE_apply_of_lt n b off v (by omega)

theorem getLE_lt (b : Bytes) : ∀ (n off : Nat), getLE b off n < 256 ^ n
  | 0, _ => Nat.one_pos
  | n + 1, off => by
    have hrest := getLE_lt b n (off + 1)
    have hbyte := (b off).toNat_lt
    rw [getLE, Nat.pow_succ]
    omega

theorem setLE_getLE : ∀ (n : Nat) (b : Bytes) (off : Nat), setLE b off n (getLE b off n) = b
  | 0, _, _ => rfl
  | n + 1, b, off => by
    have hbyte := (b off).toNat_lt
    have hlow : UInt8.ofNat (getLE b off (n + 1)) = b off := by
      apply UInt8.toNat_inj.mp
      rw [UInt8.toNat_ofNat', getLE]
      omega
    have hhigh : getLE b off (n + 1) / 256 = getLE b (off + 1) n := by
      rw [getLE]
      omega
    rw [setLE, hlow, hhigh, Function.update_eq_self, setLE_getLE n b (off + 1)]

/-! ## Machine words -/

def get16 (b : Bytes) (off : Nat) : UInt16 := UInt16.ofNat (getLE b off 2)
def get32 (b : Bytes) (off : Nat) : UInt32 := UInt32.ofNat (getLE b off 4)
def set16 (b : Bytes) (off : Nat) (v : UInt16) : Bytes := setLE b off 2 v.toNat
def set32 (b : Bytes) (off : Nat) (v : UInt32) : Bytes := setLE b off 4 v.toNat

variable (b : Bytes) {off off' : Nat}

@[simp] theorem get16_set16 (off : Nat) (v : UInt16) : get16 (set16 b off v) off = v := by
  rw [get16, set16, getLE_setLE 2 b off _ (UInt16.toNat_lt v), UInt16.ofNat_toNat]

@[simp] theorem get32_set32 (off : Nat) (v : UInt32) : get32 (set32 b off v) off = v := by
  rw [get32, set32, getLE_setLE 4 b off _ (UInt32.toNat_lt v), UInt32.ofNat_toNat]

theorem get32_set16 (v : UInt16) (h : off + 2 ≤ off' ∨ off' + 4 ≤ off) :
    get32 (set16 b off v) off' = get32 b off' := by
  rw [get32, set16, getLE_setLE_of_disjoint b _ h, get32]

theorem set16_get16 (off : Nat) : set16 b off (get16 b off) = b := by
  rw [set16, get16, UInt16.toNat_ofNat_of_lt' (getLE_lt b 2 off), setLE_getLE]

theorem set32_get32 (off : Nat) : set32 b off (get32 b off) = b := by
  rw [set32, get32, UInt32.toNat_ofNat_of_lt' (getLE_lt b 4 off), setLE_getLE]

/-- Bytes outside the word stay. -/
theorem set16_apply (v : UInt16) {k : Nat} (h : k < off ∨ off + 2 ≤ k) : set16 b off v k = b k :=
  h.elim (setLE_apply_of_lt 2 b off _) (setLE_apply_of_le 2 b off _)

theorem set32_apply (v : UInt32) {k : Nat} (h : k < off ∨ off + 4 ≤ k) : set32 b off v k = b k :=
  h.elim (setLE_apply_of_lt 4 b off _) (setLE_apply_of_le 4 b off _)

/-- A word that differs differs in one of its bytes. -/
theorem exists_byte_ne {b b' : Bytes} (h : get16 b off ≠ get16 b' off) :
    ∃ k, (off ≤ k ∧ k < off + 2) ∧ b k ≠ b' k := by
  by_contra hno
  apply h
  rw [get16, get16, getLE_congr 2 off]
  intro k h0 h1
  by_contra hne
  exact hno ⟨k, ⟨h0, h1⟩, hne⟩

/-! ## Network byte order -/

/-- The word at an offset as receivers read it. -/
def be16 (b : Bytes) (off : Nat) : Nat := 256 * (b off).toNat + (b (off + 1)).toNat

/-- A machine word as receivers read it. -/
def netWord (v : Nat) : Nat := 256 * (v % 256) + v / 256 % 256

/-- Both ends swap the same way. -/
theorem netWord_netWord {v : Nat} (h : v < 65536) : netWord (netWord v) = v := by
  have hlow : netWord v % 256 = v / 256 := by
    unfold netWord
    omega
  have hhigh : netWord v / 256 = v % 256 := by
    unfold netWord
    omega
  rw [netWord, hlow, hhigh]
  omega

theorem be16_lt (off : Nat) : be16 b off < 65536 := by
  have hhigh := (b off).toNat_lt
  have hlow := (b (off + 1)).toNat_lt
  unfold be16
  omega

theorem be16_congr {b' : Bytes} (h : b off = b' off) (h' : b (off + 1) = b' (off + 1)) :
    be16 b off = be16 b' off := by
  rw [be16, be16, h, h']

theorem get16_toNat (off : Nat) :
    (get16 b off).toNat = (b off).toNat + 256 * (b (off + 1)).toNat := by
  rw [get16, UInt16.toNat_ofNat_of_lt' (getLE_lt b 2 off)]
  simp only [getLE, Nat.mul_zero, Nat.add_zero]

theorem be16_eq (off : Nat) : be16 b off = netWord (get16 b off).toNat := by
  have hlow := (b off).toNat_lt
  have hhigh := (b (off + 1)).toNat_lt
  rw [be16, netWord, get16_toNat]
  omega

theorem be16_setLE {n k : Nat} (off v : Nat) (h : k + 1 < n) :
    be16 (setLE b off n v) (off + k) = netWord (v / 256 ^ k) := by
  have hnext : v / 256 ^ (k + 1) = v / 256 ^ k / 256 := by
    rw [Nat.pow_succ, Nat.div_div_eq_div_mul]
  rw [be16, Nat.add_assoc, setLE_apply n k b off v (by omega), setLE_apply n (k + 1) b off v h,
    UInt8.toNat_ofNat', UInt8.toNat_ofNat', hnext]
  rfl

theorem be16_set16 (off : Nat) (v : UInt16) : be16 (set16 b off v) off = netWord v.toNat := by
  have h := be16_setLE b off v.toNat (show 0 + 1 < 2 by decide)
  rwa [Nat.pow_zero, Nat.div_one] at h

theorem be16_set32 (off : Nat) (v : UInt32) : be16 (set32 b off v) off = netWord v.toNat := by
  have h := be16_setLE b off v.toNat (show 0 + 1 < 4 by decide)
  rwa [Nat.pow_zero, Nat.div_one] at h

theorem be16_set32_high (off : Nat) (v : UInt32) :
    be16 (set32 b off v) (off + 2) = netWord (v.toNat / 65536) :=
  be16_setLE b off v.toNat (show 2 + 1 < 4 by decide)

/-! ## Bits of a mask -/

/-- A shift by a number of bits is one by that number modulo 32. -/
theorem mask_bit_iff (mask k : UInt32) :
    mask &&& (1 <<< k) ≠ 0 ↔ mask.toNat.testBit (k.toNat % 32) = true := by
  have hlt : k.toNat % 32 < 32 := Nat.mod_lt _ (by decide)
  have hpow : 2 ^ (k.toNat % 32) < 2 ^ 32 := Nat.pow_lt_pow_right (by decide) hlt
  have hshift : (1 <<< k : UInt32).toNat = 2 ^ (k.toNat % 32) := by
    rw [UInt32.toNat_shiftLeft, UInt32.toNat_one, Nat.one_shiftLeft, Nat.mod_eq_of_lt hpow]
  rw [Ne, ← UInt32.toNat_inj, UInt32.toNat_and, hshift, Nat.and_two_pow]
  cases mask.toNat.testBit (k.toNat % 32) <;> simp

end Lib
