import Mathlib.Data.List.DropRight
import Mathlib.Data.Nat.Digits.Defs
import QueueDpdk.Lib.Literal

/-!
# Strings of Python

Strings are lists of characters. The tables are those of the Unicode character database.

* `strip`, `strIsdigit`, `strIsdecimal` — the methods of `str`.
* `pyInt` — `int` of a string, `none` for a `ValueError`.
* `pyInt_isSome_iff` — of the digits between white space, `int` reads those of `IsNumber`;
  `pyInt_of_strip` says which number it makes of them.
* `pyInt_toDigits` — decimal numbers are read back.
-/

set_option autoImplicit false

namespace Lib

/-! ## Characters -/

/-- Ranges of code points. -/
def inRanges (ranges : List (ℕ × ℕ)) (c : Char) : Bool :=
  ranges.any (fun r => decide (r.1 ≤ c.toNat) && decide (c.toNat ≤ r.2))

/-- White space. -/
def spaceRanges : List (ℕ × ℕ) :=
  [(0x9, 0xd), (0x1c, 0x20), (0x85, 0x85), (0xa0, 0xa0), (0x1680, 0x1680), (0x2000, 0x200a),
    (0x2028, 0x2029), (0x202f, 0x202f), (0x205f, 0x205f), (0x3000, 0x3000)]

/-- The zeros of the decimal digits, each before its other nine digits. -/
def decimalZeros : List ℕ :=
  [0x30, 0x660, 0x6f0, 0x7c0, 0x966, 0x9e6, 0xa66, 0xae6, 0xb66, 0xbe6, 0xc66, 0xce6, 0xd66, 0xde6,
    0xe50, 0xed0, 0xf20, 0x1040, 0x1090, 0x17e0, 0x1810, 0x1946, 0x19d0, 0x1a80, 0x1a90, 0x1b50,
    0x1bb0, 0x1c40, 0x1c50, 0xa620, 0xa8d0, 0xa900, 0xa9d0, 0xa9f0, 0xaa50, 0xabf0, 0xff10, 0x104a0,
    0x10d30, 0x11066, 0x110f0, 0x11136, 0x111d0, 0x112f0, 0x11450, 0x114d0, 0x11650, 0x116c0,
    0x11730, 0x118e0, 0x11950, 0x11c50, 0x11d50, 0x11da0, 0x16a60, 0x16ac0, 0x16b50, 0x1d7ce,
    0x1d7d8, 0x1d7e2, 0x1d7ec, 0x1d7f6, 0x1e140, 0x1e2f0, 0x1e950, 0x1fbf0]

/-- Digits that are not decimal: superscripts, subscripts, circled digits and the like. -/
def digitRanges : List (ℕ × ℕ) :=
  [(0xb2, 0xb3), (0xb9, 0xb9), (0x1369, 0x1371), (0x19da, 0x19da), (0x2070, 0x2070),
    (0x2074, 0x2079), (0x2080, 0x2089), (0x2460, 0x2468), (0x2474, 0x247c), (0x2488, 0x2490),
    (0x24ea, 0x24ea), (0x24f5, 0x24fd), (0x24ff, 0x24ff), (0x2776, 0x277e), (0x2780, 0x2788),
    (0x278a, 0x2792), (0x10a40, 0x10a43), (0x10e60, 0x10e68), (0x11052, 0x1105a),
    (0x1f100, 0x1f10a)]

/-- `str.isspace` of a character. -/
def pyIsspace (c : Char) : Bool := inRanges spaceRanges c

/-- The value of a decimal digit. -/
def decimalValue (c : Char) : Option ℕ :=
  (decimalZeros.find? (fun z => decide (z ≤ c.toNat) && decide (c.toNat < z + 10))).map
    (fun z => c.toNat - z)

/-- `str.isdecimal` and `str.isdigit` of a character. -/
def pyIsdecimal (c : Char) : Bool := (decimalValue c).isSome

def pyIsdigit (c : Char) : Bool := pyIsdecimal c || inRanges digitRanges c

/-! ## Strings -/

/-- `str.strip`. -/
def strip (s : List Char) : List Char := (s.dropWhile pyIsspace).rdropWhile pyIsspace

/-- `str.isdigit`. -/
def strIsdigit (s : List Char) : Bool := !s.isEmpty && s.all pyIsdigit

/-- `str.isdecimal`. -/
def strIsdecimal (s : List Char) : Bool := !s.isEmpty && s.all pyIsdecimal

/-- `sys.int_info.default_max_str_digits`. -/
def MAX_STR_DIGITS : ℕ := 4300

/-- What `int` makes of a character: decimal digits and spaces become those of ASCII. -/
def asciiOf (c : Char) : Char :=
  if c.toNat < 127 then c
  else if pyIsspace c then ' '
  else
    match decimalValue c with
    | some d => Char.ofNat (48 + d)
    | none => '?'

/-- `int` of a string, with groups of digits between single underscores. -/
def pyInt (s : List Char) : Option ℤ :=
  let t := (s.map asciiOf).dropWhile isSpace
  let (neg, t) := takeSign t
  let digitGroups := (t.rdropWhile isSpace).splitOn '_'
  let digits := digitGroups.flatten
  if (digitGroups.all fun g => !g.isEmpty && g.all (isDigitIn 10)) && digits.length ≤ MAX_STR_DIGITS
  then some (if neg then -(ofDigits 10 digits : ℤ) else ofDigits 10 digits)
  else none

/-- Control characters that are white space for `strip` and not for `int`. -/
def isSeparator (c : Char) : Bool := decide (0x1c ≤ c.toNat) && decide (c.toNat ≤ 0x1f)

/-- Digits that `int` reads: decimal ones, not too many, without separators around them. -/
def IsNumber (s : List Char) : Prop :=
  strIsdecimal (strip s) = true ∧ (strip s).length ≤ MAX_STR_DIGITS ∧ ∀ c ∈ s, isSeparator c = false

instance (s : List Char) : Decidable (IsNumber s) :=
  -- not by going over all characters
  haveI : Decidable (∀ c ∈ s, isSeparator c = false) := List.decidableBAll _ s
  inferInstanceAs (Decidable (_ ∧ _ ∧ _))

/-! ## Digits that `int` reads -/

theorem inRanges_iff {ranges : List (ℕ × ℕ)} {c : Char} :
    inRanges ranges c = true ↔ ∃ r ∈ ranges, r.1 ≤ c.toNat ∧ c.toNat ≤ r.2 := by
  simp [inRanges]

/-- Ranges that do not overlap. -/
theorem not_inRanges {ranges ranges' : List (ℕ × ℕ)} {c : Char} (h : inRanges ranges c = true)
    (hdisj : ∀ r ∈ ranges, ∀ r' ∈ ranges', r.2 < r'.1 ∨ r'.2 < r.1) :
    inRanges ranges' c = false := by
  obtain ⟨r, hr, hlow, hhigh⟩ := inRanges_iff.mp h
  rw [← Bool.not_eq_true, inRanges_iff]
  rintro ⟨r', hr', hlow', hhigh'⟩
  rcases hdisj r hr r' hr' with h | h
  · omega
  · omega

/-- Decimal digits stand behind one of the zeros. -/
theorem decimalValue_spec {c : Char} {d : ℕ} (h : decimalValue c = some d) :
    ∃ z ∈ decimalZeros, c.toNat = z + d ∧ d < 10 := by
  obtain ⟨z, hfind, rfl⟩ := Option.map_eq_some_iff.mp h
  have hrange : z ≤ c.toNat ∧ c.toNat < z + 10 := by
    simpa using List.find?_some hfind
  exact ⟨z, List.mem_of_find?_eq_some hfind, by omega, by omega⟩

/-- Digits are not white space. -/
theorem isspace_of_isdigit {c : Char} (h : pyIsdigit c = true) : pyIsspace c = false := by
  rcases (Bool.or_eq_true _ _).mp h with hdec | hrange
  · obtain ⟨d, hd⟩ := Option.isSome_iff_exists.mp hdec
    obtain ⟨z, hz, hc, hlt⟩ := decimalValue_spec hd
    have hranges : inRanges [(z, z + 9)] c = true :=
      inRanges_iff.mpr ⟨(z, z + 9), by simp, by simp only; omega, by simp only; omega⟩
    have hdisj : ∀ z ∈ decimalZeros, ∀ r ∈ spaceRanges, z + 9 < r.1 ∨ r.2 < z := by decide
    exact not_inRanges hranges fun r hr => by
      obtain rfl := List.mem_singleton.mp hr
      exact hdisj z hz
  · exact not_inRanges hrange (by decide)

/-- A digit that is not decimal is not ASCII. -/
theorem asciiOf_digit {c : Char} (hdigit : pyIsdigit c = true) (hdec : pyIsdecimal c = false) :
    asciiOf c = '?' := by
  have hrange : inRanges digitRanges c = true := by simpa [pyIsdigit, hdec] using hdigit
  have hspace := isspace_of_isdigit hdigit
  have hascii : ¬c.toNat < 127 := by
    obtain ⟨r, hr, hlow, -⟩ := inRanges_iff.mp hrange
    have hmin : ∀ r ∈ digitRanges, 127 ≤ r.1 := by decide
    have := hmin r hr
    omega
  have hnone : decimalValue c = none := by simpa [pyIsdecimal] using hdec
  simp [asciiOf, hascii, hspace, hnone]

theorem mem_dropWhile {p : Char → Bool} {s : List Char} {c : Char} (hc : c ∈ s) (hp : p c = false) :
    c ∈ s.dropWhile p := by
  rw [← List.takeWhile_append_dropWhile (p := p) (l := s)] at hc
  rcases List.mem_append.mp hc with hc | hc
  · rw [List.mem_takeWhile_imp hc] at hp
    cases hp
  · exact hc

theorem mem_rdropWhile {p : Char → Bool} {s : List Char} {c : Char} (hc : c ∈ s)
    (hp : p c = false) : c ∈ s.rdropWhile p := by
  unfold List.rdropWhile
  rw [List.mem_reverse]
  exact mem_dropWhile (List.mem_reverse.mpr hc) hp

/-- Only separators are lost in a split. -/
theorem exists_mem_splitOn {s : List Char} {c d : Char} (hc : c ∈ s) (hne : c ≠ d) :
    ∃ g ∈ s.splitOn d, c ∈ g := by
  induction s with
  | nil => cases hc
  | cons a s ih =>
    rw [List.splitOn_cons_eq_if_modifyHead]
    rcases List.mem_cons.mp hc with rfl | hc
    · obtain ⟨g, gs, hgs⟩ := List.exists_cons_of_ne_nil (List.splitOn_ne_nil d s)
      simp [hne, hgs]
    · obtain ⟨g, hg, hcg⟩ := ih hc
      split
      · exact ⟨g, List.mem_cons_of_mem _ hg, hcg⟩
      · obtain ⟨g', gs, hgs⟩ := List.exists_cons_of_ne_nil (List.splitOn_ne_nil d s)
        rw [hgs] at hg ⊢
        rcases List.mem_cons.mp hg with rfl | hg
        · exact ⟨a :: g, List.mem_cons_self, List.mem_cons_of_mem a hcg⟩
        · exact ⟨g, List.mem_cons_of_mem _ hg, hcg⟩

/-- A character that no number has makes `int` fail. -/
theorem not_mem_of_pyInt {s : List Char} {v : ℤ} (h : pyInt s = some v) {c : Char}
    (hspace : isSpace c = false) (hsign : c ≠ '+' ∧ c ≠ '-') (hunder : c ≠ '_')
    (hdigit : isDigitIn 10 c = false) : c ∉ s.map asciiOf := by
  intro hmem
  obtain ⟨sign, heq, hsigns, -⟩ := takeSign_spec ((s.map asciiOf).dropWhile isSpace)
  have hmem := mem_dropWhile hmem hspace
  rw [heq] at hmem
  have hmem : c ∈ (takeSign ((s.map asciiOf).dropWhile isSpace)).2 := by
    rcases List.mem_append.mp hmem with hmem | hmem
    · rcases hsigns with rfl | rfl | rfl <;> simp [hsign] at hmem
    · exact hmem
  obtain ⟨g, hg, hcg⟩ := exists_mem_splitOn (mem_rdropWhile hmem hspace) hunder
  unfold pyInt at h
  dsimp only at h
  split at h
  · rename_i hok
    rw [Bool.and_eq_true, List.all_eq_true] at hok
    have hdigits := hok.1 g hg
    rw [Bool.and_eq_true, List.all_eq_true] at hdigits
    rw [hdigits.2 c hcg] at hdigit
    cases hdigit
  · cases h

theorem mem_of_mem_strip {s : List Char} {c : Char} (hc : c ∈ strip s) : c ∈ s :=
  (List.dropWhile_suffix _).subset ((List.rdropWhile_prefix _ _).subset hc)

/-- **Digits that `int` reads are decimal.** -/
theorem isdecimal_of_int {s : List Char} {v : ℤ} (hdigit : strIsdigit (strip s) = true)
    (h : pyInt s = some v) : strIsdecimal (strip s) = true := by
  unfold strIsdigit at hdigit
  unfold strIsdecimal
  rw [Bool.and_eq_true, List.all_eq_true] at hdigit ⊢
  refine ⟨hdigit.1, fun c hc => ?_⟩
  by_contra hdec
  have hmem : '?' ∈ s.map asciiOf := by
    rw [← asciiOf_digit (hdigit.2 c hc) (by simpa using hdec)]
    exact List.mem_map_of_mem (mem_of_mem_strip hc)
  exact not_mem_of_pyInt h (by decide) (by decide) (by decide) (by decide) hmem

theorem isdigit_of_isdecimal {s : List Char} (h : strIsdecimal s = true) :
    strIsdigit s = true := by
  unfold strIsdecimal at h
  unfold strIsdigit
  rw [Bool.and_eq_true, List.all_eq_true] at h ⊢
  exact ⟨h.1, fun c hc => by simp [pyIsdigit, h.2 c hc]⟩

/-! ## Decimal numbers -/

section Decimal

variable {p : Char → Bool} {s t : List Char} {n : ℕ}

theorem ascii_of_isDigitIn {c : Char} (h : isDigitIn 10 c = true) :
    asciiOf c = c ∧ pyIsdecimal c = true := by
  obtain ⟨hlow, hhigh⟩ := isDigitIn_ten h
  constructor
  · have hlt : c.toNat < 127 := by omega
    simp [asciiOf, hlt]
  · have hfind : decide (0x30 ≤ c.toNat) && decide (c.toNat < 0x30 + 10) := by
      simp only [Bool.and_eq_true, decide_eq_true_eq]
      omega
    simp only [pyIsdecimal, decimalValue, decimalZeros, List.find?_cons, hfind]
    rfl

theorem dropWhile_eq_self (h : ∀ c ∈ s, p c = false) : s.dropWhile p = s := by
  cases s with
  | nil => rfl
  | cons c s => rw [List.dropWhile_cons_of_neg (by simp [h c List.mem_cons_self])]

theorem rdropWhile_eq_self (h : ∀ c ∈ s, p c = false) : s.rdropWhile p = s := by
  unfold List.rdropWhile
  rw [dropWhile_eq_self (fun c hc => h c (List.mem_reverse.mp hc)), List.reverse_reverse]

theorem rdropWhile_append (h : ∀ c ∈ t, p c = true) : (s ++ t).rdropWhile p = s.rdropWhile p := by
  unfold List.rdropWhile
  rw [List.reverse_append, List.dropWhile_append_of_pos fun c hc => h c (List.mem_reverse.mp hc)]

/-- What `strip` takes away. -/
theorem strip_spec (s : List Char) : ∃ lead trail, s = lead ++ (strip s ++ trail) ∧
    (∀ c ∈ lead, pyIsspace c = true) ∧ ∀ c ∈ trail, pyIsspace c = true := by
  refine ⟨s.takeWhile pyIsspace, (s.dropWhile pyIsspace).rtakeWhile pyIsspace, ?_,
    fun c hc => List.mem_takeWhile_imp hc, fun c hc => List.mem_rtakeWhile_imp hc⟩
  rw [strip, List.rdropWhile_append_rtakeWhile, List.takeWhile_append_dropWhile]

/-- White space around a number. -/
theorem isSpace_asciiOf {c : Char} (h : pyIsspace c = true) (hsep : isSeparator c = false) :
    isSpace (asciiOf c) = true := by
  unfold asciiOf
  split
  · rename_i hascii
    obtain ⟨r, hr, hlow, hhigh⟩ := inRanges_iff.mp h
    have hranges : ∀ r ∈ spaceRanges, r = (0x9, 0xd) ∨ r = (0x1c, 0x20) ∨ 127 ≤ r.1 := by decide
    have hsep : ¬(28 ≤ c.toNat ∧ c.toNat ≤ 31) := by simpa [isSeparator] using hsep
    rcases hranges r hr with rfl | rfl | hr
    · have hblank : '\t' ≤ c ∧ c ≤ '\r' := ⟨hlow, hhigh⟩
      simp [isSpace, hblank]
    · have hnat : c.toNat = 32 := by
        simp only at hlow hhigh
        omega
      have hspace : c = ' ' := Char.toNat_inj.mp hnat
      simp [isSpace, hspace]
    · omega
  · simp [isSpace]

theorem isDigitIn_of_isDigit {c : Char} (h : c.isDigit = true) :
    isDigitIn 10 c = true ∧ (digitVal c).getD 0 = c.toNat - 48 := by
  have hval : 48 ≤ c.val ∧ c.val ≤ 57 := by simpa [Char.isDigit] using h
  have hrange : '0' ≤ c ∧ c ≤ '9' := hval
  have hhigh : c.toNat ≤ 57 := hrange.2
  constructor
  · simp only [isDigitIn, digitVal, hrange, and_self, if_true, Option.any_some, decide_eq_true_eq]
    omega
  · simp [digitVal, hrange]

/-- `strip` leaves digits alone. -/
theorem strip_of_isdigit (h : strIsdigit s = true) : strip s = s := by
  unfold strIsdigit at h
  rw [Bool.and_eq_true, List.all_eq_true] at h
  have hspace : ∀ c ∈ s, pyIsspace c = false := fun c hc => isspace_of_isdigit (h.2 c hc)
  rw [strip, dropWhile_eq_self hspace, rdropWhile_eq_self hspace]

/-- A decimal digit of any script. -/
theorem isDigitIn_asciiOf {c : Char} (h : pyIsdecimal c = true) :
    isDigitIn 10 (asciiOf c) = true := by
  obtain ⟨d, hd⟩ := Option.isSome_iff_exists.mp h
  obtain ⟨z, hz, hc, hlt⟩ := decimalValue_spec hd
  by_cases hascii : c.toNat < 127
  · have hzeros : ∀ z ∈ decimalZeros, z = 48 ∨ 127 ≤ z := by decide
    have hz : z = 48 := by
      have := hzeros z hz
      omega
    have hdigit : c.isDigit = true := by
      have hval : 48 ≤ c.val.toNat ∧ c.val.toNat ≤ 57 := by
        have : c.val.toNat = c.toNat := rfl
        omega
      simpa [Char.isDigit, UInt32.le_iff_toNat_le] using hval
    simp [asciiOf, hascii, isDigitIn_of_isDigit hdigit]
  · have hspace : pyIsspace c = false := isspace_of_isdigit (by simp [pyIsdigit, h])
    have hvals : ∀ d < 10, isDigitIn 10 (Char.ofNat (48 + d)) = true := by decide
    simp only [asciiOf, hascii, hspace, hd]
    exact hvals d hlt

/-- **Decimal digits between white space.** -/
theorem pyInt_of_strip (hdec : strIsdecimal (strip s) = true)
    (hsep : ∀ c ∈ s, isSeparator c = false) : pyInt s =
      if (strip s).length ≤ MAX_STR_DIGITS then some (ofDigits 10 ((strip s).map asciiOf) : ℤ)
      else none := by
  obtain ⟨lead, trail, hs, hlead, htrail⟩ := strip_spec s
  unfold strIsdecimal at hdec
  rw [Bool.and_eq_true, List.all_eq_true] at hdec
  have hblank : ∀ ws : List Char, (∀ c ∈ ws, pyIsspace c = true) → (∀ c ∈ ws, c ∈ s) →
      ∀ c ∈ ws.map asciiOf, isSpace c = true := by
    intro ws hws hmem c hc
    obtain ⟨a, ha, rfl⟩ := List.mem_map.mp hc
    exact isSpace_asciiOf (hws a ha) (hsep a (hmem a ha))
  have hleads := hblank lead hlead fun c hc => by rw [hs]; simp [hc]
  have htrails := hblank trail htrail fun c hc => by rw [hs]; simp [hc]
  set ds := (strip s).map asciiOf with hds
  have hdigits : ∀ c ∈ ds, isDigitIn 10 c = true := by
    intro c hc
    obtain ⟨a, ha, rfl⟩ := List.mem_map.mp hc
    exact isDigitIn_asciiOf (hdec.2 a ha)
  have hne : ds ≠ [] := by simpa [hds] using hdec.1
  have hmap : s.map asciiOf = lead.map asciiOf ++ (ds ++ trail.map asciiOf) := by
    conv_lhs => rw [hs]
    simp [hds]
  obtain ⟨c, cs, hcs⟩ := List.exists_cons_of_ne_nil hne
  have hsign : takeSign ((s.map asciiOf).dropWhile isSpace) =
      (false, ds ++ trail.map asciiOf) := by
    rw [hmap, List.dropWhile_append_of_pos hleads, hcs]
    exact digit_lead (hdigits c (hcs ▸ List.mem_cons_self))
  have hspace : ∀ c ∈ ds, isSpace c = false := fun c hc => (isDigitIn_ne (hdigits c hc)).1
  have hunder : '_' ∉ ds := by
    intro hmem
    exact absurd (hdigits _ hmem) (by decide)
  have hall : ds.all (isDigitIn 10) = true := List.all_eq_true.mpr hdigits
  have hlen : ds.length = (strip s).length := List.length_map _
  simp [pyInt, hsign, rdropWhile_append htrails, rdropWhile_eq_self hspace,
    List.splitOn_eq_singleton hunder, hne, hall, hlen]

/-- No number has a separator. -/
theorem separator_spec {c : Char} (h : isSeparator c = true) : asciiOf c = c ∧ isSpace c = false ∧
    (c ≠ '+' ∧ c ≠ '-') ∧ c ≠ '_' ∧ isDigitIn 10 c = false := by
  have hrange : 28 ≤ c.toNat ∧ c.toNat ≤ 31 := by simpa [isSeparator] using h
  have hall : ∀ n < 32, 28 ≤ n → asciiOf (Char.ofNat n) = Char.ofNat n ∧
      isSpace (Char.ofNat n) = false ∧ (Char.ofNat n ≠ '+' ∧ Char.ofNat n ≠ '-') ∧
      Char.ofNat n ≠ '_' ∧ isDigitIn 10 (Char.ofNat n) = false := by decide
  rw [← Char.ofNat_toNat c]
  exact hall _ (by omega) hrange.1

/-- **The digits that `int` reads.** -/
theorem pyInt_isSome_iff (h : strIsdigit (strip s) = true) : (pyInt s).isSome ↔ IsNumber s := by
  constructor
  · intro hsome
    obtain ⟨v, hv⟩ := Option.isSome_iff_exists.mp hsome
    have hdec := isdecimal_of_int h hv
    have hsep : ∀ c ∈ s, isSeparator c = false := by
      intro c hc
      by_contra hc'
      obtain ⟨hascii, hspace, hsign, hunder, hdigit⟩ := separator_spec (by simpa using hc')
      have hmem := List.mem_map_of_mem (f := asciiOf) hc
      rw [hascii] at hmem
      exact not_mem_of_pyInt hv hspace hsign hunder hdigit hmem
    refine ⟨hdec, ?_, hsep⟩
    by_contra hlen
    rw [pyInt_of_strip hdec hsep, if_neg hlen] at hv
    cases hv
  · rintro ⟨hdec, hlen, hsep⟩
    rw [pyInt_of_strip hdec hsep, if_pos hlen]
    rfl

/-- Plain decimal numbers are digits, and `int` reads them. -/
theorem IsDecimal.isdecimal (h : IsDecimal s) : strIsdecimal s = true := by
  unfold strIsdecimal
  rw [Bool.and_eq_true, List.all_eq_true]
  exact ⟨by simpa using h.1, fun c hc => (ascii_of_isDigitIn (h.2 c hc)).2⟩

theorem IsDecimal.pyInt (h : IsDecimal s) (hlen : s.length ≤ MAX_STR_DIGITS) :
    pyInt s = some (ofDigits 10 s : ℤ) := by
  have hdec := h.isdecimal
  have hstrip := strip_of_isdigit (isdigit_of_isdecimal hdec)
  have hmap : s.map asciiOf = s := by
    conv_rhs => rw [← List.map_id s]
    exact List.map_congr_left fun c hc => (ascii_of_isDigitIn (h.2 c hc)).1
  have hsep : ∀ c ∈ s, isSeparator c = false := by
    intro c hc
    have hdigit := isDigitIn_ten (h.2 c hc)
    simp only [isSeparator, Bool.and_eq_false_iff, decide_eq_false_iff_not]
    omega
  rw [pyInt_of_strip (by rwa [hstrip]) hsep, hstrip, hmap, if_pos hlen]

theorem isDecimal_toDigits (n : ℕ) : IsDecimal (Nat.toDigits 10 n) :=
  ⟨Nat.toDigits_ne_nil, fun _ hc =>
    (isDigitIn_of_isDigit (Nat.isDigit_of_mem_toDigits (by decide) (by decide) hc)).1⟩

theorem ofDigits_toDigits (n : ℕ) : ofDigits 10 (Nat.toDigits 10 n) = n := by
  have hfold : ofDigits 10 (Nat.toDigits 10 n) = Nat.ofDigitChars 10 (Nat.toDigits 10 n) 0 := by
    unfold ofDigits Nat.ofDigitChars
    refine List.foldl_ext _ _ _ fun v c hc => ?_
    rw [(isDigitIn_of_isDigit (Nat.isDigit_of_mem_toDigits (by decide) (by decide) hc)).2]
    rfl
  rw [hfold, Nat.ofDigitChars_ten_toDigits]

/-- **What is written in decimal is read back.** -/
theorem pyInt_toDigits (h : n < 10 ^ MAX_STR_DIGITS) : pyInt (Nat.toDigits 10 n) = some (n : ℤ) := by
  have hlen := Nat.toDigits_length 10 n MAX_STR_DIGITS (by decide) h
  rw [(isDecimal_toDigits n).pyInt hlen, ofDigits_toDigits]

end Decimal

end Lib
