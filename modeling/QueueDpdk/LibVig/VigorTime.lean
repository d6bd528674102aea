import QueueDpdk.LibVig.DoubleChain
import Mathlib.Algebra.Group.Nat.Defs

/-!
# The clock (`utils/vigor-time.c`)

`current_time` scales the time stamp counter to nanoseconds.  The product is a 64-bit one.

* `currentTime` — the function; `nanoseconds` — the time it stands for.
* `IsClock` — its contract on an earlier and a later counter value.
* `clock_iff` — the contract holds as long as the product does not wrap, and no longer.
-/

set_option autoImplicit false

namespace QueueDpdk.LibVig

/-- `rte_rdtsc() * 1000000000ul / rte_get_tsc_hz()`. -/
def currentTime (tsc tscHz : UInt64) : VigorTime :=
  tsc * 1000000000 / tscHz

/-- The nanoseconds since the counter started, over the integers. -/
def nanoseconds (tsc tscHz : UInt64) : ℕ :=
  tsc.toNat * 1000000000 / tscHz.toNat

/-- The clock shows the nanoseconds, if they fit. -/
def KeepsTime (tscHz tsc : UInt64) : Prop :=
  nanoseconds tsc tscHz < 2 ^ 64 → (currentTime tsc tscHz).toNat = nanoseconds tsc tscHz

/-- `ensures x <= result`, and both results are right. -/
structure IsClock (tscHz a b : UInt64) : Prop where
  mono : currentTime a tscHz ≤ currentTime b tscHz
  earlier : KeepsTime tscHz a
  later : KeepsTime tscHz b

theorem currentTime_toNat (tsc tscHz : UInt64) :
    (currentTime tsc tscHz).toNat = tsc.toNat * 1000000000 % 2 ^ 64 / tscHz.toNat := by
  rw [currentTime, UInt64.toNat_div, UInt64.toNat_mul]
  rfl

/-- Without a wrap the clock is right. -/
theorem currentTime_of_lt {tsc : UInt64} (h : tsc.toNat * 1000000000 < 2 ^ 64) (tscHz : UInt64) :
    (currentTime tsc tscHz).toNat = nanoseconds tsc tscHz := by
  rw [currentTime_toNat, Nat.mod_eq_of_lt h, nanoseconds]

/-- A difference of a whole tick survives the division. -/
theorem div_lt_div_of_add_le {a b d : ℕ} (hd : 0 < d) (h : a + d ≤ b) : a / d < b / d := by
  have hle : (a + d) / d ≤ b / d := Nat.div_le_div_right h
  rw [Nat.add_div_right _ hd] at hle
  exact hle

section Clock

variable {tscHz : UInt64}

/-- A wrap takes away at least `2 ^ 64`, which is more than the frequency. -/
theorem currentTime_lt_of_wrap (h0 : 0 < tscHz.toNat) (h1 : tscHz.toNat ≤ 10000000000)
    {tsc : UInt64} (h : 2 ^ 64 ≤ tsc.toNat * 1000000000) :
    (currentTime tsc tscHz).toNat < nanoseconds tsc tscHz := by
  have hsplit := Nat.mod_add_div (tsc.toNat * 1000000000) (2 ^ 64)
  have hwraps : 0 < tsc.toNat * 1000000000 / 2 ^ 64 := Nat.div_pos h (Nat.two_pow_pos 64)
  have hle : tsc.toNat * 1000000000 % 2 ^ 64 + tscHz.toNat ≤ tsc.toNat * 1000000000 := by
    omega
  rw [currentTime_toNat, nanoseconds]
  exact div_lt_div_of_add_le h0 hle

theorem keepsTime_iff (h0 : 0 < tscHz.toNat) (h1 : tscHz.toNat ≤ 10000000000) (tsc : UInt64) :
    KeepsTime tscHz tsc ↔ tsc.toNat * 1000000000 < 2 ^ 64 ∨ 2 ^ 64 ≤ nanoseconds tsc tscHz := by
  constructor
  · intro h
    by_contra hno
    rw [not_or, Nat.not_lt, Nat.not_le] at hno
    exact absurd (h hno.2) (Nat.ne_of_lt (currentTime_lt_of_wrap h0 h1 hno.1))
  · rintro (h | h) hfits
    · exact currentTime_of_lt h tscHz
    · exact absurd hfits (Nat.not_lt.mpr h)

theorem isClock_of_lt {a b : UInt64} (hab : a ≤ b) (h : b.toNat * 1000000000 < 2 ^ 64) :
    IsClock tscHz a b := by
  have hle : a.toNat * 1000000000 ≤ b.toNat * 1000000000 :=
    Nat.mul_le_mul_right _ (UInt64.le_iff_toNat_le.mp hab)
  have ha := currentTime_of_lt (Nat.lt_of_le_of_lt hle h) tscHz
  have hb := currentTime_of_lt h tscHz
  refine ⟨?_, fun _ => ha, fun _ => hb⟩
  rw [UInt64.le_iff_toNat_le, ha, hb]
  exact Nat.div_le_div_right hle

/-- The clock jumps back where the product first wraps. -/
theorem currentTime_jump (h0 : 0 < tscHz.toNat) (h1 : tscHz.toNat ≤ 10000000000) :
    currentTime 18446744074 tscHz < currentTime 18446744073 tscHz := by
  have hgap : 290448384 + tscHz.toNat ≤ 18446744073000000000 := by omega
  have hlow : (18446744074 : UInt64).toNat * 1000000000 % 2 ^ 64 = 290448384 := by
    decide +kernel
  have hhigh : (18446744073 : UInt64).toNat * 1000000000 % 2 ^ 64 = 18446744073000000000 := by
    decide +kernel
  rw [UInt64.lt_iff_toNat_lt, currentTime_toNat, currentTime_toNat]
  apply div_lt_div_of_add_le h0
  rwa [hlow, hhigh]

/-- **Main result**: up to a counter value the clock keeps its contract exactly if the product does
not wrap there, and so do two values, as long as the later time fits.  Where it does not, only the
order is promised, and it is the order of the wrapped products. -/
theorem clock_iff (h0 : 1 ≤ tscHz.toNat) (h1 : tscHz.toNat ≤ 10000000000) :
    (∀ last : UInt64, (∀ a b, a ≤ b → b ≤ last → IsClock tscHz a b) ↔
      last.toNat * 1000000000 < 2 ^ 64) ∧
    ∀ a b : UInt64, a ≤ b → (IsClock tscHz a b ↔ b.toNat * 1000000000 < 2 ^ 64 ∨
      2 ^ 64 ≤ nanoseconds b tscHz ∧
      (a.toNat * 1000000000 < 2 ^ 64 ∨ 2 ^ 64 ≤ nanoseconds a tscHz) ∧
      a.toNat * 1000000000 % 2 ^ 64 / tscHz.toNat ≤
        b.toNat * 1000000000 % 2 ^ 64 / tscHz.toNat) := by
  refine ⟨fun last => ⟨fun h => ?_, fun h a b hab hb => ?_⟩, fun a b hab => ⟨fun h => ?_, ?_⟩⟩
  · by_contra hno
    have hlast : (18446744074 : UInt64) ≤ last := by
      have htick : (18446744074 : UInt64).toNat = 18446744074 := by decide +kernel
      rw [UInt64.le_iff_toNat_le, htick]
      omega
    have hmono := (h 18446744073 18446744074 (by decide +kernel) hlast).mono
    exact absurd (currentTime_jump h0 h1) (UInt64.not_lt.mpr hmono)
  · have hle := Nat.mul_le_mul_right 1000000000 (UInt64.le_iff_toNat_le.mp hb)
    exact isClock_of_lt hab (Nat.lt_of_le_of_lt hle h)
  · have hmono := UInt64.le_iff_toNat_le.mp h.mono
    rw [currentTime_toNat, currentTime_toNat] at hmono
    rcases (keepsTime_iff h0 h1 b).mp h.later with hb | hb
    · exact Or.inl hb
    · exact Or.inr ⟨hb, (keepsTime_iff h0 h1 a).mp h.earlier, hmono⟩
  · rintro (h | ⟨hb, ha, hmono⟩)
    · exact isClock_of_lt hab h
    · refine ⟨?_, (keepsTime_iff h0 h1 a).mpr ha, (keepsTime_iff h0 h1 b).mpr (Or.inr hb)⟩
      rw [UInt64.le_iff_toNat_le, currentTime_toNat, currentTime_toNat]
      exact hmono

end Clock

/-- At two gigahertz, over the first ten seconds. -/
theorem clock_two_gigahertz : (1 ≤ (2000000000 : UInt64).toNat ∧
    (2000000000 : UInt64).toNat ≤ 10000000000) ∧ IsClock 2000000000 0 18446744073 :=
  ⟨by decide +kernel, ((clock_iff (by decide +kernel) (by decide +kernel)).2 0 18446744073
    (by decide +kernel)).mpr (Or.inl (by decide +kernel))⟩

/-- One tick later it stands at 0. -/
theorem clock_jumps_back : ¬∀ a b tscHz : UInt64, a ≤ b → 1 ≤ tscHz.toNat →
    tscHz.toNat ≤ 10000000000 → IsClock tscHz a b := by
  intro h
  have hmono := (h 18446744073 18446744074 2000000000 (by decide +kernel) (by decide +kernel)
    (by decide +kernel)).mono
  exact absurd hmono (by decide +kernel)

end QueueDpdk.LibVig
