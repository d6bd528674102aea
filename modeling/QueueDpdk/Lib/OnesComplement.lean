import Mathlib.Algebra.BigOperators.Intervals
import Mathlib.Data.Nat.ModEq

/-!
# One's-complement sums

Words up to `top` are added with the carry brought round to the low end.

* `onesSum` — the sum of a list of words; `Verifies` — it is the largest word.
* `verifies_iff` — that is, the words add up to a multiple of `top`, and not to 0.
* `sum_replace` — the sum after some words were replaced; `Verifies.replace_iff` — it verifies again
  exactly if what is new equals what is old, up to a multiple of `top`.
-/

set_option autoImplicit false

namespace Lib

def onesAdd (top a b : ℕ) : ℕ := if a + b ≤ top then a + b else a + b - top

def onesSum (top : ℕ) (words : List ℕ) : ℕ := words.foldl (onesAdd top) 0

/-- A block of words that holds its own checksum. -/
def Verifies (top : ℕ) (words : List ℕ) : Prop := onesSum top words = top

section Sums

variable {top : ℕ}

theorem onesAdd_le {a b : ℕ} (ha : a ≤ top) (hb : b ≤ top) : onesAdd top a b ≤ top := by
  unfold onesAdd
  split <;> omega

/-- The carry is brought round, not lost. -/
theorem onesAdd_modEq (a b : ℕ) : onesAdd top a b ≡ a + b [MOD top] := by
  unfold onesAdd
  split
  · exact Nat.ModEq.refl _
  · rename_i h
    have hsplit : a + b - top + top = a + b := Nat.sub_add_cancel (by omega)
    calc a + b - top ≡ a + b - top + top [MOD top] := (Nat.add_modEq_right).symm
      _ = a + b := hsplit

/-- Only zeros add up to zero. -/
theorem onesAdd_pos_iff (a b : ℕ) : 0 < onesAdd top a b ↔ 0 < a + b := by
  unfold onesAdd
  split <;> omega

theorem foldl_onesAdd {words : List ℕ} (h : ∀ w ∈ words, w ≤ top) :
    ∀ start ≤ top, words.foldl (onesAdd top) start ≤ top ∧
      words.foldl (onesAdd top) start ≡ start + words.sum [MOD top] ∧
      (0 < words.foldl (onesAdd top) start ↔ 0 < start + words.sum) := by
  induction words with
  | nil =>
    intro start hstart
    exact ⟨hstart, Nat.ModEq.refl _, Iff.rfl⟩
  | cons w rest ih =>
    intro start hstart
    obtain ⟨hle, hmod, hpos⟩ := ih (fun v hv => h v (List.mem_cons_of_mem w hv))
      (onesAdd top start w) (onesAdd_le hstart (h w List.mem_cons_self))
    have hone := @onesAdd_pos_iff top start w
    rw [List.foldl_cons, List.sum_cons]
    refine ⟨hle, ?_, by omega⟩
    calc rest.foldl (onesAdd top) (onesAdd top start w)
        ≡ onesAdd top start w + rest.sum [MOD top] := hmod
      _ ≡ start + w + rest.sum [MOD top] := (onesAdd_modEq start w).add_right _
      _ = start + (w + rest.sum) := Nat.add_assoc _ _ _

/-- **Verification is divisibility**, apart from words that are all zero. -/
theorem verifies_iff (htop : 0 < top) {words : List ℕ} (h : ∀ w ∈ words, w ≤ top) :
    Verifies top words ↔ 0 < words.sum ∧ top ∣ words.sum := by
  obtain ⟨hle, hmod, hpos⟩ := foldl_onesAdd h 0 (Nat.zero_le _)
  rw [Nat.zero_add] at hmod hpos
  unfold Verifies onesSum
  constructor
  · intro hsum
    rw [hsum] at hmod hpos
    exact ⟨hpos.mp htop, (hmod.dvd_iff (Nat.dvd_refl top)).mp (Nat.dvd_refl top)⟩
  · rintro ⟨hsum, hdvd⟩
    have hdvd' := (hmod.dvd_iff (Nat.dvd_refl top)).mpr hdvd
    exact Nat.le_antisymm hle (Nat.le_of_dvd (hpos.mpr hsum) hdvd')

/-- Sums of words that differ at the places of `changed` only. -/
theorem sum_replace {n : ℕ} {f g : ℕ → ℕ} {changed : Finset ℕ} (hsub : changed ⊆ Finset.range n)
    (h : ∀ k < n, k ∉ changed → g k = f k) :
    ((List.range n).map g).sum + ∑ k ∈ changed, f k =
      ((List.range n).map f).sum + ∑ k ∈ changed, g k := by
  have hlist : ∀ f : ℕ → ℕ, ((List.range n).map f).sum = ∑ k ∈ Finset.range n, f k := by
    intro f
    rfl
  have hrest : ∑ k ∈ Finset.range n \ changed, g k = ∑ k ∈ Finset.range n \ changed, f k := by
    apply Finset.sum_congr rfl
    intro k hk
    rw [Finset.mem_sdiff, Finset.mem_range] at hk
    exact h k hk.1 hk.2
  rw [hlist, hlist, ← Finset.sum_sdiff hsub, ← Finset.sum_sdiff hsub, hrest]
  omega

/-- **Replacing words**: what is written has to equal what it replaces. -/
theorem Verifies.replace_iff (htop : 0 < top) {words words' : List ℕ} (h : Verifies top words)
    (hle : ∀ w ∈ words, w ≤ top) (hle' : ∀ w ∈ words', w ≤ top) {old new : ℕ}
    (hsum : words'.sum + old ≡ words.sum + new [MOD top]) (hpos : 0 < words'.sum) :
    Verifies top words' ↔ new ≡ old [MOD top] := by
  have hdvd := ((verifies_iff htop hle).mp h).2
  have hnew : words.sum + new ≡ new [MOD top] := by
    have := (Nat.modEq_zero_iff_dvd.mpr hdvd).add_right new
    rwa [Nat.zero_add] at this
  rw [verifies_iff htop hle', and_iff_right hpos, ← Nat.modEq_zero_iff_dvd]
  constructor
  · intro hzero
    calc new ≡ words.sum + new [MOD top] := hnew.symm
      _ ≡ words'.sum + old [MOD top] := hsum.symm
      _ ≡ 0 + old [MOD top] := hzero.add_right old
      _ = old := Nat.zero_add old
  · intro heq
    apply Nat.ModEq.add_right_cancel' old
    calc words'.sum + old ≡ words.sum + new [MOD top] := hsum
      _ ≡ new [MOD top] := hnew
      _ ≡ old [MOD top] := heq
      _ = 0 + old := (Nat.zero_add old).symm

end Sums

end Lib
