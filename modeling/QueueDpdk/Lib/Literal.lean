import QueueDpdk.Lib.Strtoul

/-!
# Numbers whose prefix selects the base

* `IsLiteral` — decimal numbers, octal ones after `0` and hexadecimal ones after `0x`.
* `strtoul_literal`, `literal_of_strtoul` — what `strtoul` with base 0 reads are these, after
  blanks and a sign, or nothing at all.
-/

set_option autoImplicit false

namespace Lib

/-- An unsigned number as C writes it, and its value. -/
inductive IsLiteral : List Char → ℕ → Prop
  | decimal {c : Char} {ds : List Char} (hc : c ≠ '0')
      (hds : ∀ d ∈ c :: ds, isDigitIn 10 d = true) : IsLiteral (c :: ds) (ofDigits 10 (c :: ds))
  | octal {ds : List Char} (hds : ∀ d ∈ ds, isDigitIn 8 d = true) :
      IsLiteral ('0' :: ds) (ofDigits 8 ds)
  | hex {x : Char} {ds : List Char} (hx : x = 'x' ∨ x = 'X') (hne : ds ≠ [])
      (hds : ∀ d ∈ ds, isDigitIn 16 d = true) : IsLiteral ('0' :: x :: ds) (ofDigits 16 ds)

/-- A character that ends every number. -/
def Ends (rest : List Char) : Prop := ∀ c ∈ rest.head?, digitVal c = none

theorem isDigitIn_of_none {base : ℕ} {c : Char} (h : digitVal c = none) :
    isDigitIn base c = false := by
  simp [isDigitIn, h]

section Reading

variable {p : Char → Bool} {s rest ds : List Char} {base : ℕ}

theorem Ends.stops (h : Ends rest) (base : ℕ) :
    rest.takeWhile (isDigitIn base) = [] ∧ rest.dropWhile (isDigitIn base) = rest := by
  cases rest with
  | nil => exact ⟨rfl, rfl⟩
  | cons c cs =>
    have hc : isDigitIn base c = false := isDigitIn_of_none (h c rfl)
    simp [hc]

/-- The digits of a number are read up to its end. -/
theorem Ends.digits (h : Ends rest) (hds : ∀ d ∈ ds, isDigitIn base d = true) :
    (ds ++ rest).takeWhile (isDigitIn base) = ds ∧
      (ds ++ rest).dropWhile (isDigitIn base) = rest := by
  obtain ⟨htake, hdrop⟩ := h.stops base
  rw [List.takeWhile_append_of_pos hds, List.dropWhile_append_of_pos hds, htake, hdrop]
  simp

theorem ofDigits_zero_cons (base : ℕ) (ds : List Char) :
    ofDigits base ('0' :: ds) = ofDigits base ds := by
  have h0 : (digitVal '0').getD 0 = 0 := by decide
  unfold ofDigits
  rw [List.foldl_cons, h0]
  rfl

theorem takeRadix_hex {x c : Char} {t : List Char} (hx : x = 'x' ∨ x = 'X')
    (hc : isDigitIn 16 c = true) : takeRadix 0 ('0' :: x :: c :: t) = (16, c :: t) := by
  simp [takeRadix, hx, hc]

/-- Without a hexadecimal prefix a leading zero selects base 8. -/
theorem takeRadix_octal (h : ∀ x ∈ s.head?, x ≠ 'x' ∧ x ≠ 'X') :
    takeRadix 0 ('0' :: s) = (8, '0' :: s) := by
  match s with
  | [] => rfl
  | [x] => rfl
  | x :: c :: cs =>
    obtain ⟨hlow, hup⟩ := h x rfl
    simp [takeRadix, hlow, hup]

theorem takeRadix_decimal {c : Char} (hc : c ≠ '0') : takeRadix 0 (c :: s) = (10, c :: s) := by
  unfold takeRadix
  split
  · rename_i heq
    exact absurd (List.cons.inj heq).1 hc
  · rename_i heq
    exact absurd (List.cons.inj heq).1 hc
  · rfl

/-- Before a digit there is neither a blank nor a sign to skip. -/
theorem digit_lead {c : Char} (hc : isDigitIn base c = true) :
    takeSign ((c :: s).dropWhile isSpace) = (false, c :: s) := by
  obtain ⟨hspace, hplus, hminus⟩ := isDigitIn_ne hc
  rw [List.dropWhile_cons_of_neg (by simp [hspace])]
  unfold takeSign
  split
  · rename_i heq
    exact absurd (List.cons.inj heq).1 hminus
  · rename_i heq
    exact absurd (List.cons.inj heq).1 hplus
  · rfl

/-- What is left to do once the base is known. -/
theorem strtoul_of_radix {t : List Char} {neg : Bool} {u : List Char} {radix : ℕ}
    (hlead : takeSign (s.dropWhile isSpace) = (neg, t)) (hradix : takeRadix 0 t = (radix, u)) :
    strtoul s 0 =
      if u.takeWhile (isDigitIn radix) = [] then ⟨0, s, false⟩
      else ⟨signedValue neg (ofDigits radix (u.takeWhile (isDigitIn radix))),
        u.dropWhile (isDigitIn radix),
        decide (ULONG_MAX < ofDigits radix (u.takeWhile (isDigitIn radix)))⟩ := by
  simp only [strtoul, hlead, hradix]

end Reading

/-- **A literal is read to its end.** -/
theorem strtoul_literal {s rest : List Char} {v : ℕ} (h : IsLiteral s v) (hrest : Ends rest) :
    strtoul (s ++ rest) 0 = ⟨signedValue false v, rest, decide (ULONG_MAX < v)⟩ := by
  have hzero : isDigitIn 10 '0' = true := by decide
  cases h with
  | @decimal c ds hc hds =>
    obtain ⟨htake, hdrop⟩ := hrest.digits hds
    have hlead := digit_lead (s := ds ++ rest) (hds c List.mem_cons_self)
    rw [List.cons_append, strtoul_of_radix hlead (takeRadix_decimal hc), ← List.cons_append,
      htake, hdrop, if_neg (List.cons_ne_nil c ds)]
  | @octal ds hds =>
    have hall : ∀ d ∈ '0' :: ds, isDigitIn 8 d = true := by
      simpa using ⟨by decide, hds⟩
    have hfirst : ∀ x ∈ (ds ++ rest).head?, x ≠ 'x' ∧ x ≠ 'X' := by
      intro x hx
      have hval : isDigitIn 8 x = true ∨ digitVal x = none := by
        cases ds with
        | nil => exact Or.inr (hrest x hx)
        | cons d ds =>
          cases hx
          exact Or.inl (hds _ List.mem_cons_self)
      constructor
      · rintro rfl
        exact absurd hval (by decide)
      · rintro rfl
        exact absurd hval (by decide)
    obtain ⟨htake, hdrop⟩ := hrest.digits hall
    rw [List.cons_append, strtoul_of_radix (digit_lead hzero) (takeRadix_octal hfirst),
      ← List.cons_append, htake, hdrop, if_neg (List.cons_ne_nil '0' ds), ofDigits_zero_cons]
  | @hex x ds hx hne hds =>
    obtain ⟨c, cs, rfl⟩ := List.exists_cons_of_ne_nil hne
    obtain ⟨htake, hdrop⟩ := hrest.digits hds
    have hradix := takeRadix_hex (t := cs ++ rest) hx (hds c List.mem_cons_self)
    have happ : '0' :: x :: (c :: cs) ++ rest = '0' :: x :: c :: (cs ++ rest) := rfl
    rw [happ, strtoul_of_radix (digit_lead hzero) hradix, ← List.cons_append, htake, hdrop,
      if_neg hne]

/-- What base selection leaves is the digits of a literal. -/
theorem literal_of_radix {t u : List Char} {radix : ℕ} (hradix : takeRadix 0 t = (radix, u))
    (hne : u.takeWhile (isDigitIn radix) ≠ []) :
    ∃ text, t = text ++ u.dropWhile (isDigitIn radix) ∧
      IsLiteral text (ofDigits radix (u.takeWhile (isDigitIn radix))) := by
  have hsplit : u = u.takeWhile (isDigitIn radix) ++ u.dropWhile (isDigitIn radix) :=
    List.takeWhile_append_dropWhile.symm
  have hdigits : ∀ d ∈ u.takeWhile (isDigitIn radix), isDigitIn radix d = true :=
    fun d hd => List.mem_takeWhile_imp hd
  -- a leading zero which is not part of a prefix is the first digit of an octal number
  have hoctal : ∀ cs, t = '0' :: cs → radix = 8 → u = t →
      ∃ text, t = text ++ u.dropWhile (isDigitIn radix) ∧
        IsLiteral text (ofDigits radix (u.takeWhile (isDigitIn radix))) := by
    rintro cs rfl rfl rfl
    have hzero : isDigitIn 8 '0' = true := by decide
    rw [List.takeWhile_cons_of_pos hzero] at hdigits ⊢
    rw [List.dropWhile_cons_of_pos hzero, ofDigits_zero_cons]
    refine ⟨'0' :: cs.takeWhile (isDigitIn 8), ?_, .octal fun d hd => ?_⟩
    · rw [List.cons_append, List.takeWhile_append_dropWhile]
    · exact hdigits d (List.mem_cons_of_mem _ hd)
  unfold takeRadix at hradix
  split at hradix
  · rename_i x c cs
    split at hradix
    · rename_i hx
      obtain ⟨rfl, rfl⟩ := Prod.mk.inj hradix
      refine ⟨'0' :: x :: (c :: cs).takeWhile (isDigitIn 16), ?_, .hex hx.2.1 hne hdigits⟩
      rw [List.cons_append, List.cons_append, ← hsplit]
    · obtain ⟨hr, hu⟩ := Prod.mk.inj hradix
      exact hoctal _ rfl hr.symm hu.symm
  · obtain ⟨hr, hu⟩ := Prod.mk.inj hradix
    exact hoctal _ rfl hr.symm hu.symm
  · rename_i hzero
    obtain ⟨hr, hu⟩ := Prod.mk.inj hradix
    obtain rfl : radix = 10 := hr.symm
    subst hu
    obtain ⟨c, ds, hds⟩ := List.exists_cons_of_ne_nil hne
    refine ⟨t.takeWhile (isDigitIn 10), hsplit, ?_⟩
    rw [hds] at hdigits hsplit ⊢
    refine .decimal ?_ hdigits
    rintro rfl
    exact hzero _ hsplit

/-- **All that is read is a literal**, after blanks and a sign, or nothing. -/
theorem literal_of_strtoul (s : List Char) :
    strtoul s 0 = ⟨0, s, false⟩ ∨ ∃ blanks sign text v, IsLiteral text v ∧
      s = blanks ++ sign ++ text ++ (strtoul s 0).rest ∧ (∀ c ∈ blanks, isSpace c = true) ∧
      (sign = [] ∨ sign = ['+'] ∨ sign = ['-']) ∧
      (strtoul s 0).value = signedValue (sign == ['-']) v ∧
      (strtoul s 0).range = decide (ULONG_MAX < v) := by
  obtain ⟨sign, heq, hsign, hneg⟩ := takeSign_spec (s.dropWhile isSpace)
  obtain ⟨neg, t, hlead⟩ : ∃ neg t, takeSign (s.dropWhile isSpace) = (neg, t) := ⟨_, _, rfl⟩
  obtain ⟨radix, u, hradix⟩ : ∃ radix u, takeRadix 0 t = (radix, u) := ⟨_, _, rfl⟩
  rw [hlead] at heq hneg
  have hread := strtoul_of_radix hlead hradix
  split at hread
  · exact Or.inl hread
  · rename_i hne
    obtain ⟨text, htext, hlit⟩ := literal_of_radix hradix hne
    refine Or.inr ⟨s.takeWhile isSpace, sign, text, _, hlit, ?_,
      fun c hc => List.mem_takeWhile_imp hc, hsign, ?_, ?_⟩
    · have hblanks : s = s.takeWhile isSpace ++ s.dropWhile isSpace :=
        List.takeWhile_append_dropWhile.symm
      rw [hread, List.append_assoc, List.append_assoc, ← htext, ← heq, ← hblanks]
    · rw [hread, ← hneg]
    · rw [hread]

end Lib
