import Mathlib.Algebra.Group.Nat.Defs
import Mathlib.Data.List.Basic
import Mathlib.Data.List.TakeWhile

/-!
# `strtoul` of the C library

Strings are lists of characters without the terminator.

* `strtoul` — blanks, a sign and digits up to the first other character, in 64 bits: a number that
  does not fit becomes the largest one, and a minus sign negates modulo `2 ^ 64`.
* `IsNumeral` — a string of blanks, a sign and decimal digits, and `numeral` its number.
* `strtoul_numeral`, `isNumeral_of_strtoul` — these are the strings that are read to their end.
* `IsDecimal` — plain decimal numbers; `IsNumeral.plain_iff` that they have no blanks and no sign.
-/

set_option autoImplicit false

namespace Lib

/-! ## The function -/

/-- `isspace` of the C locale. -/
def isSpace (c : Char) : Bool := c == ' ' || ('\t' ≤ c && c ≤ '\r')

/-- The value of a digit of a base up to 36. -/
def digitVal (c : Char) : Option ℕ :=
  if '0' ≤ c ∧ c ≤ '9' then some (c.toNat - 48)
  else if 'a' ≤ c ∧ c ≤ 'z' then some (c.toNat - 87)
  else if 'A' ≤ c ∧ c ≤ 'Z' then some (c.toNat - 55)
  else none

def isDigitIn (base : ℕ) (c : Char) : Bool := (digitVal c).any (fun d => decide (d < base))

/-- The number of some digits. -/
def ofDigits (base : ℕ) (digits : List Char) : ℕ :=
  digits.foldl (fun v c => base * v + (digitVal c).getD 0) 0

def takeSign : List Char → Bool × List Char
  | '-' :: s => (true, s)
  | '+' :: s => (false, s)
  | s => (false, s)

/-- The base, which a prefix may select. -/
def takeRadix (base : ℕ) (s : List Char) : ℕ × List Char :=
  match s with
  | '0' :: x :: c :: rest =>
    if (base = 0 ∨ base = 16) ∧ (x = 'x' ∨ x = 'X') ∧ isDigitIn 16 c = true then (16, c :: rest)
    else (if base = 0 then 8 else base, s)
  | '0' :: _ => (if base = 0 then 8 else base, s)
  | _ => (if base = 0 then 10 else base, s)

def ULONG_MAX : ℕ := 18446744073709551615

/-- The value of some digits after a sign. -/
def signedValue (neg : Bool) (v : ℕ) : ℕ :=
  if ULONG_MAX < v then ULONG_MAX
  else if neg then (ULONG_MAX + 1 - v) % (ULONG_MAX + 1)
  else v

/-- The value, the rest of the string, and whether `errno` is set. -/
structure Parsed where
  value : ℕ
  rest : List Char
  range : Bool
deriving DecidableEq, Repr

def strtoul (s : List Char) (base : ℕ) : Parsed :=
  let (neg, t) := takeSign (s.dropWhile isSpace)
  let (radix, t) := takeRadix base t
  let digits := t.takeWhile (isDigitIn radix)
  if digits = [] then ⟨0, s, false⟩
  else ⟨signedValue neg (ofDigits radix digits), t.dropWhile (isDigitIn radix),
    decide (ULONG_MAX < ofDigits radix digits)⟩

theorem signedValue_lt (neg : Bool) (v : ℕ) : signedValue neg v < 2 ^ 64 := by
  have hmax : (2 : ℕ) ^ 64 = ULONG_MAX + 1 := rfl
  rw [hmax]
  unfold signedValue
  split
  · exact Nat.lt_succ_self _
  · split
    · exact Nat.mod_lt _ (Nat.succ_pos _)
    · omega

/-! ## Decimal numerals -/

/-- Blanks, a sign and at least one digit. -/
structure IsNumeral (s blanks sign digits : List Char) : Prop where
  eq : s = blanks ++ (sign ++ digits)
  blanks : ∀ c ∈ blanks, isSpace c = true
  sign : sign = [] ∨ sign = ['+'] ∨ sign = ['-']
  ne_nil : digits ≠ []
  digits : ∀ c ∈ digits, isDigitIn 10 c = true

/-- The number of a numeral. -/
def numeral (sign digits : List Char) : ℕ := signedValue (sign == ['-']) (ofDigits 10 digits)

/-- A plain decimal number. -/
def IsDecimal (s : List Char) : Prop := s ≠ [] ∧ ∀ c ∈ s, isDigitIn 10 c = true

instance (s : List Char) : Decidable (IsDecimal s) :=
  inferInstanceAs (Decidable (_ ∧ _))

theorem isDigitIn_ten {c : Char} (h : isDigitIn 10 c = true) : 48 ≤ c.toNat ∧ c.toNat ≤ 57 := by
  unfold isDigitIn digitVal at h
  split at h
  · rename_i hc
    exact ⟨hc.1, hc.2⟩
  · split at h
    · rename_i hc
      have hlow : 97 ≤ c.toNat := hc.1
      simp only [Option.any_some, decide_eq_true_eq] at h
      omega
    · split at h
      · rename_i hc
        have hlow : 65 ≤ c.toNat := hc.1
        simp only [Option.any_some, decide_eq_true_eq] at h
        omega
      · cases h

/-- No digit is a blank or a sign. -/
theorem isDigitIn_ne {base : ℕ} {c : Char} (h : isDigitIn base c = true) :
    isSpace c = false ∧ c ≠ '+' ∧ c ≠ '-' := by
  have hlow : 48 ≤ c.toNat := by
    unfold isDigitIn digitVal at h
    split at h
    · rename_i hc
      exact hc.1
    · split at h
      · rename_i hc
        exact Nat.le_trans (by decide : 48 ≤ 97) hc.1
      · split at h
        · rename_i hc
          exact Nat.le_trans (by decide : 48 ≤ 65) hc.1
        · cases h
  refine ⟨?_, ?_, ?_⟩
  · unfold isSpace
    rw [Bool.or_eq_false_iff, Bool.and_eq_false_iff, beq_eq_false_iff_ne, decide_eq_false_iff_not,
      decide_eq_false_iff_not]
    refine ⟨?_, Or.inr ?_⟩
    · rintro rfl
      exact absurd hlow (by decide)
    · intro hc
      have hle : c.toNat ≤ 13 := hc
      omega
  · rintro rfl
    exact absurd hlow (by decide)
  · rintro rfl
    exact absurd hlow (by decide)

theorem takeRadix_ten (s : List Char) : takeRadix 10 s = (10, s) := by
  unfold takeRadix
  split
  · rw [if_neg (fun h => absurd h.1 (by decide)), if_neg (by decide)]
  · rw [if_neg (by decide)]
  · rw [if_neg (by decide)]

/-- A sign is taken off. -/
theorem takeSign_spec (t : List Char) : ∃ sign, t = sign ++ (takeSign t).2 ∧
    (sign = [] ∨ sign = ['+'] ∨ sign = ['-']) ∧ (takeSign t).1 = (sign == ['-']) := by
  unfold takeSign
  split
  · exact ⟨['-'], rfl, Or.inr (Or.inr rfl), rfl⟩
  · exact ⟨['+'], rfl, Or.inr (Or.inl rfl), rfl⟩
  · exact ⟨[], rfl, Or.inl rfl, rfl⟩

section Numerals

variable {s blanks sign digits : List Char}

/-- The first digit. -/
theorem IsNumeral.head (h : IsNumeral s blanks sign digits) :
    ∃ c rest, digits = c :: rest ∧ isDigitIn 10 c = true := by
  obtain ⟨c, rest, hd⟩ := List.exists_cons_of_ne_nil h.ne_nil
  exact ⟨c, rest, hd, h.digits c (hd ▸ List.mem_cons_self)⟩

/-- **Numerals are read to their end.** -/
theorem strtoul_numeral (h : IsNumeral s blanks sign digits) :
    strtoul s 10 = ⟨numeral sign digits, [], decide (ULONG_MAX < ofDigits 10 digits)⟩ := by
  obtain ⟨c, rest, hd, hc⟩ := h.head
  obtain ⟨hspace, hplus, hminus⟩ := isDigitIn_ne hc
  have hblanks : s.dropWhile isSpace = sign ++ digits := by
    rw [h.eq, List.dropWhile_append_of_pos h.blanks, hd]
    rcases h.sign with rfl | rfl | rfl
    · rw [List.nil_append, List.dropWhile_cons_of_neg (Bool.eq_false_iff.mp hspace)]
    · rfl
    · rfl
  have hsign : takeSign (sign ++ digits) = (sign == ['-'], digits) := by
    rw [hd]
    rcases h.sign with rfl | rfl | rfl
    · unfold takeSign
      split
      · rename_i heq
        exact absurd (List.cons.inj heq).1 hminus
      · rename_i heq
        exact absurd (List.cons.inj heq).1 hplus
      · rfl
    · rfl
    · rfl
  have htake : digits.takeWhile (isDigitIn 10) = digits := List.takeWhile_eq_self_iff.mpr h.digits
  have hdrop : digits.dropWhile (isDigitIn 10) = [] := List.dropWhile_eq_nil_iff.mpr h.digits
  unfold strtoul
  rw [hblanks, hsign]
  dsimp only
  rw [takeRadix_ten]
  dsimp only
  rw [htake, hdrop, if_neg h.ne_nil, numeral]

/-- A string is read as one number only. -/
theorem IsNumeral.unique {blanks' sign' digits' : List Char} (h : IsNumeral s blanks sign digits)
    (h' : IsNumeral s blanks' sign' digits') :
    numeral sign' digits' = numeral sign digits := by
  have hread := strtoul_numeral h
  rw [strtoul_numeral h', Parsed.mk.injEq] at hread
  exact hread.1

/-- **Only numerals are.** -/
theorem isNumeral_of_strtoul (hs : s ≠ []) (h : (strtoul s 10).rest = []) :
    ∃ blanks sign digits, IsNumeral s blanks sign digits := by
  obtain ⟨sign, heq, hsign, -⟩ := takeSign_spec (s.dropWhile isSpace)
  unfold strtoul at h
  dsimp only at h
  rw [takeRadix_ten] at h
  dsimp only at h
  obtain ⟨u, hu⟩ : ∃ u, u = (takeSign (s.dropWhile isSpace)).2 := ⟨_, rfl⟩
  rw [← hu] at h heq
  split at h
  · exact absurd h hs
  · rename_i hne
    have hall : u.takeWhile (isDigitIn 10) = u :=
      List.takeWhile_eq_self_iff.mpr (List.dropWhile_eq_nil_iff.mp h)
    rw [hall] at hne
    refine ⟨s.takeWhile isSpace, sign, u, ?_, ?_, hsign, hne, List.dropWhile_eq_nil_iff.mp h⟩
    · rw [← heq, List.takeWhile_append_dropWhile]
    · intro c hc
      exact List.mem_takeWhile_imp hc

/-- Plain numbers are the numerals without blanks and without a sign. -/
theorem IsNumeral.plain_iff (h : IsNumeral s blanks sign digits) :
    IsDecimal s ↔ blanks = [] ∧ sign = [] := by
  constructor
  · rintro ⟨-, hall⟩
    rw [h.eq] at hall
    constructor
    · rw [List.eq_nil_iff_forall_not_mem]
      intro c hc
      have hdigit := isDigitIn_ne (hall c (List.mem_append_left _ hc))
      rw [h.blanks c hc] at hdigit
      cases hdigit.1
    · have hsigns : ∀ c ∈ sign, c ≠ '+' ∧ c ≠ '-' := fun c hc =>
        (isDigitIn_ne (hall c (List.mem_append_right _ (List.mem_append_left _ hc)))).2
      rcases h.sign with rfl | rfl | rfl
      · rfl
      · exact absurd rfl (hsigns '+' List.mem_cons_self).1
      · exact absurd rfl (hsigns '-' List.mem_cons_self).2
  · rintro ⟨rfl, rfl⟩
    rw [h.eq]
    exact ⟨h.ne_nil, h.digits⟩

/-- A plain number is a numeral. -/
theorem IsDecimal.numeral (h : IsDecimal s) : IsNumeral s [] [] s :=
  ⟨rfl, nofun, Or.inl rfl, h.1, h.2⟩

/-- A plain number that fits into 64 bits is read as it is. -/
theorem numeral_plain (h : ofDigits 10 digits < 2 ^ 64) :
    Lib.numeral [] digits = ofDigits 10 digits := by
  have hfits : ¬ULONG_MAX < ofDigits 10 digits := Nat.not_lt.mpr (Nat.le_of_lt_succ h)
  unfold Lib.numeral signedValue
  rw [if_neg hfits]
  rfl

end Numerals

end Lib
