import Mathlib.Algebra.Group.Nat.Defs
import Mathlib.Data.Nat.Basic

/-!
# Prefixes of numbers that are written in words

* `ofWords` — the number of some words, the first one being the most significant.
* `SamePrefix` — two numbers of `width` bits begin with the same `len` bits.
* `samePrefix_words` — a prefix of a number is a prefix of each of its words.
-/

set_option autoImplicit false

namespace Lib

/-- The number of words of `w` bits. -/
def ofWords (w : ℕ) : List ℕ → ℕ
  | [] => 0
  | x :: xs => x * 2 ^ (w * xs.length) + ofWords w xs

/-- The first `len` of `width` bits are the same. -/
def SamePrefix (width len x y : ℕ) : Prop := x / 2 ^ (width - len) = y / 2 ^ (width - len)

/-- How many bits of the prefix are in each of `n` words. -/
def wordPrefixes (w : ℕ) : ℕ → ℕ → List ℕ
  | _, 0 => []
  | len, n + 1 => min w len :: wordPrefixes w (len - w) n

/-- Every word begins with the bits of the prefix that are in it. -/
def WordsAgree (w : ℕ) : List ℕ → List ℕ → List ℕ → Prop
  | [], [], [] => True
  | len :: lens, x :: xs, y :: ys => SamePrefix w len x y ∧ WordsAgree w lens xs ys
  | _, _, _ => False

section Prefixes

variable {w k len x y lo lo' : ℕ}

theorem ofWords_lt : ∀ {xs : List ℕ}, (∀ x ∈ xs, x < 2 ^ w) → ofWords w xs < 2 ^ (w * xs.length)
  | [], _ => by simp [ofWords]
  | x :: xs, h => by
    have hx : x + 1 ≤ 2 ^ w := h x List.mem_cons_self
    have hrest := ofWords_lt fun y hy => h y (List.mem_cons_of_mem x hy)
    calc ofWords w (x :: xs) < x * 2 ^ (w * xs.length) + 2 ^ (w * xs.length) :=
          Nat.add_lt_add_left hrest _
      _ = (x + 1) * 2 ^ (w * xs.length) := (Nat.succ_mul _ _).symm
      _ ≤ 2 ^ w * 2 ^ (w * xs.length) := Nat.mul_le_mul_right _ hx
      _ = 2 ^ (w * (x :: xs).length) := by
        rw [List.length_cons, Nat.mul_succ, Nat.add_comm (w * xs.length), Nat.pow_add]

/-- A prefix of no bits. -/
theorem samePrefix_zero (hx : x < 2 ^ k) (hy : y < 2 ^ k) : SamePrefix k 0 x y := by
  rw [SamePrefix, Nat.sub_zero, Nat.div_eq_of_lt hx, Nat.div_eq_of_lt hy]

/-- A prefix that ends in the first word. -/
theorem samePrefix_short (hlo : lo < 2 ^ k) (hlo' : lo' < 2 ^ k) (hlen : len ≤ w) :
    SamePrefix (w + k) len (x * 2 ^ k + lo) (y * 2 ^ k + lo') ↔ SamePrefix w len x y := by
  have hdiv : ∀ z l : ℕ, l < 2 ^ k →
      (z * 2 ^ k + l) / 2 ^ (w + k - len) = z / 2 ^ (w - len) := by
    intro z l hl
    rw [show w + k - len = k + (w - len) by omega, Nat.pow_add, ← Nat.div_div_eq_div_mul,
      Nat.mul_comm z, Nat.mul_add_div (Nat.two_pow_pos k), Nat.div_eq_of_lt hl, Nat.add_zero]
  rw [SamePrefix, SamePrefix, hdiv x lo hlo, hdiv y lo' hlo']

/-- A prefix with the whole first word. -/
theorem samePrefix_long (hlo : lo < 2 ^ k) (hlo' : lo' < 2 ^ k) (hlen : w ≤ len)
    (hmax : len ≤ w + k) :
    SamePrefix (w + k) len (x * 2 ^ k + lo) (y * 2 ^ k + lo') ↔
      x = y ∧ SamePrefix k (len - w) lo lo' := by
  have hpow : 2 ^ k = 2 ^ (w + k - len) * 2 ^ (len - w) := by
    rw [← Nat.pow_add]
    congr 1
    omega
  have hpos : 0 < 2 ^ (w + k - len) := Nat.two_pow_pos _
  have hdiv : ∀ z l : ℕ, (z * 2 ^ k + l) / 2 ^ (w + k - len) =
      2 ^ (len - w) * z + l / 2 ^ (w + k - len) := by
    intro z l
    rw [hpow, Nat.mul_comm z, Nat.mul_assoc, Nat.mul_add_div hpos]
  have hsmall : ∀ l : ℕ, l < 2 ^ k → l / 2 ^ (w + k - len) < 2 ^ (len - w) := by
    intro l hl
    rw [hpow] at hl
    exact Nat.div_lt_of_lt_mul hl
  have hwidth : k - (len - w) = w + k - len := by omega
  rw [SamePrefix, SamePrefix, hdiv, hdiv, hwidth]
  constructor
  · intro h
    have hx := congrArg (· / 2 ^ (len - w)) h
    have hl := congrArg (· % 2 ^ (len - w)) h
    simp only [Nat.mul_add_div (Nat.two_pow_pos _), Nat.div_eq_of_lt (hsmall lo hlo),
      Nat.div_eq_of_lt (hsmall lo' hlo'), Nat.add_zero] at hx
    simp only [Nat.mul_add_mod, Nat.mod_eq_of_lt (hsmall lo hlo),
      Nat.mod_eq_of_lt (hsmall lo' hlo')] at hl
    exact ⟨hx, hl⟩
  · rintro ⟨rfl, hl⟩
    rw [hl]

end Prefixes

/-- **A prefix of a number is a prefix of each of its words**: all of the first ones, a part of one,
    and nothing of the others. -/
theorem samePrefix_words {w : ℕ} : ∀ {xs ys : List ℕ} {len : ℕ}, xs.length = ys.length →
    (∀ x ∈ xs, x < 2 ^ w) → (∀ y ∈ ys, y < 2 ^ w) → len ≤ w * xs.length →
    (WordsAgree w (wordPrefixes w len xs.length) xs ys ↔
      SamePrefix (w * xs.length) len (ofWords w xs) (ofWords w ys))
  | [], [], _, _, _, _, _ => by simp [wordPrefixes, WordsAgree, SamePrefix]
  | x :: xs, y :: ys, len, hlength, hx, hy, hlen => by
    have hsame : xs.length = ys.length := Nat.succ.inj hlength
    have hx0 : x < 2 ^ w := hx x List.mem_cons_self
    have hy0 : y < 2 ^ w := hy y List.mem_cons_self
    have hxs : ∀ z ∈ xs, z < 2 ^ w := fun z hz => hx z (List.mem_cons_of_mem x hz)
    have hys : ∀ z ∈ ys, z < 2 ^ w := fun z hz => hy z (List.mem_cons_of_mem y hz)
    have hlo := ofWords_lt hxs
    have hlo' := ofWords_lt hys
    have hwidth : w * (xs.length + 1) = w + w * xs.length := by
      rw [Nat.mul_succ, Nat.add_comm]
    rw [List.length_cons, hwidth] at hlen
    rw [← hsame] at hlo'
    simp only [List.length_cons, wordPrefixes, WordsAgree, ofWords, hwidth]
    rw [← hsame, samePrefix_words hsame hxs hys (by omega)]
    rcases Nat.le_total len w with hshort | hlong
    · rw [samePrefix_short hlo hlo' hshort, Nat.min_eq_right hshort, Nat.sub_eq_zero_of_le hshort]
      exact and_iff_left (samePrefix_zero hlo hlo')
    · rw [samePrefix_long hlo hlo' hlong hlen, Nat.min_eq_left hlong]
      simp [SamePrefix]

end Lib
