import QueueDpdk.Locality.Bursts

/-!
# The group-by of `locality-bench.py`

* `Valid`, `GroupBy` — the rows of a capture, and the bursts that belong to them.
* `burstAnalysis_iff` — `burst_analysis` writes these bursts for every input in which the rows that
  begin with digits begin with a number. `strip` and `isdigit` let other digits pass, and `int`
  raises a `ValueError` for them.
-/

set_option autoImplicit false

namespace QueueDpdk.Locality.Bench

open Lib

/-! ## Groups -/

/-- A row of a capture: at least 7 fields, and the first one is a decimal number. -/
def Valid (row : Row) : Prop := 7 ≤ row.length ∧ strIsdecimal (strip (row.getD 0 [])) = true

instance : DecidablePred Valid := fun _ => inferInstanceAs (Decidable (_ ∧ _))

/-- `burst_id`, `queue` and the flow of a row. -/
def RowItem (row : Row) (x : Item) : Prop :=
  pyInt (row.getD 0 []) = some x.burstId ∧ pyInt (row.getD 1 []) = some x.queue ∧
    x.flow = row.drop 2

/-- The record of a group. -/
structure Describes (g : List Item) (b : Burst) : Prop where
  burst : ∀ x ∈ g, x.burstId = b.burst
  coda : g.getLast?.map Item.queue = some b.coda
  flussi : b.flussi = (g.map Item.flow).toFinset.card
  consecutivi : LongestRun (g.map Item.flow) b.pacchettiConsecutivi
  totali : b.pacchettiTotali = g.length

/-- The bursts of the valid rows, and their number. -/
structure GroupBy (rows : List Row) (bursts : List Burst) (ret : ℕ) : Prop where
  groups : ∃ items, List.Forall₂ RowItem (rows.filter (fun row => Valid row)) items ∧
    List.Forall₂ Describes (groups Item.burstId items) bursts ∧
    ret = (groups Item.burstId items).length
  sum : (bursts.map Burst.pacchettiTotali).sum = (rows.filter (fun row => Valid row)).length
  bounds : ∀ b ∈ bursts, 1 ≤ b.pacchettiConsecutivi ∧ b.pacchettiConsecutivi ≤ b.pacchettiTotali ∧
    1 ≤ b.flussi ∧ b.flussi ≤ b.pacchettiTotali ∧
    b.flussi + b.pacchettiConsecutivi ≤ b.pacchettiTotali + 1

/-! ## Rows -/

section Rows

variable {row : Row}

/-- What `burst_analysis` does with a row, by its fields. -/
theorem read_eq (row : Row) : read row =
    if 7 ≤ row.length ∧ strIsdigit (strip (row.getD 0 [])) = true then
      match pyInt (row.getD 0 []), pyInt (row.getD 1 []) with
      | some burstId, some queue => some (some ⟨burstId, queue, row.drop 2⟩)
      | _, _ => none
    else some none := by
  cases row with
  | nil => rfl
  | cons first rest =>
    have hfirst : (first :: rest).getD 0 [] = first := rfl
    have hsecond : (first :: rest).getD 1 [] = rest.getD 0 [] := rfl
    rw [hfirst, hsecond, read]
    split
    · rename_i hdigit
      simp [hdigit]
    · rename_i hdigit
      split
      · rename_i hlen
        rw [if_neg (by omega)]
      · rename_i hlen
        exact (if_pos ⟨by omega, by simpa using hdigit⟩).symm

/-- A row is read if the digits it begins with are a number. -/
theorem read_isSome_iff (hqueue : Valid row → (pyInt (row.getD 1 [])).isSome) :
    (read row).isSome ↔ (7 ≤ row.length → strIsdigit (strip (row.getD 0 [])) = true →
      IsNumber (row.getD 0 [])) := by
  rw [read_eq]
  split
  · rename_i h
    have hnumber := pyInt_isSome_iff h.2
    cases hfirst : pyInt (row.getD 0 []) with
    | none =>
      rw [hfirst] at hnumber
      exact ⟨nofun, fun hall => hnumber.mpr (hall h.1 h.2)⟩
    | some burstId =>
      obtain ⟨queue, hsecond⟩ := Option.isSome_iff_exists.mp
        (hqueue ⟨h.1, isdecimal_of_int h.2 hfirst⟩)
      rw [hfirst] at hnumber
      rw [hsecond]
      exact ⟨fun _ _ _ => hnumber.mp rfl, fun _ => rfl⟩
  · rename_i h
    simp only [Option.isSome_some, true_iff]
    exact fun hlen hdigit => absurd ⟨hlen, hdigit⟩ h

/-- **A row that is read** is an item if it is valid, and is skipped otherwise. -/
theorem read_spec {r : Option Item} (h : read row = some r) :
    (Valid row ∧ ∃ x, r = some x ∧ RowItem row x) ∨ (¬Valid row ∧ r = none) := by
  rw [read_eq] at h
  split at h
  · rename_i hdigit
    left
    split at h
    · rename_i burstId queue hfirst hsecond
      obtain rfl := Option.some.inj h
      exact ⟨⟨hdigit.1, isdecimal_of_int hdigit.2 hfirst⟩, _, rfl, hfirst, hsecond, rfl⟩
    · cases h
  · rename_i hdigit
    right
    obtain rfl := Option.some.inj h
    exact ⟨fun hvalid => hdigit ⟨hvalid.1, isdigit_of_isdecimal hvalid.2⟩, rfl⟩

/-- The items are those of the valid rows. -/
theorem items_spec {rows : List Row} (h : ∀ row ∈ rows, (read row).isSome) :
    List.Forall₂ RowItem (rows.filter (fun row => Valid row)) (items script rows) := by
  induction rows with
  | nil => exact List.Forall₂.nil
  | cons row rows ih =>
    have ih := ih fun row hrow => h row (List.mem_cons_of_mem _ hrow)
    obtain ⟨r, hr⟩ := Option.isSome_iff_exists.mp (h row List.mem_cons_self)
    have hscript : script.read row = some r := hr
    rcases read_spec hr with ⟨hvalid, x, rfl, hx⟩ | ⟨hvalid, rfl⟩
    · have hitems : items script (row :: rows) = x :: items script rows := by
        simp [items, hscript]
      rw [List.filter_cons_of_pos (by simpa using hvalid), hitems]
      exact List.Forall₂.cons hx ih
    · have hitems : items script (row :: rows) = items script rows := by
        simp [items, hscript]
      rw [List.filter_cons_of_neg (by simpa using hvalid), hitems]
      exact ih

end Rows

/-! ## Bursts -/

section Records

variable {xs : List Item} {g : List Item} {b : Burst}

/-- The record that is written for a group. -/
theorem describes_groupRecord (k : ℕ) (hg : g ∈ groups Item.burstId xs) :
    Describes g (groupRecord script k g) := by
  obtain ⟨last, hlast⟩ := Option.ne_none_iff_exists'.mp
    (fun h => mem_groups_ne_nil hg (List.getLast?_eq_none_iff.mp h))
  obtain ⟨hflows, htotal, -, hlongest, hle, -⟩ := countOf_spec (g.map Item.flow)
  have hrecord : groupRecord script k g =
      (countOf (g.map Item.flow)).record last.burstId last.queue := by
    simp [groupRecord, hlast, script]
  rw [hrecord]
  refine ⟨fun x hx => key_of_mem_groups hg x hx last (List.mem_of_getLast? hlast), ?_, ?_, ?_, ?_⟩
  · simp [hlast, Count.record]
  · simp [Count.record, hflows]
  · simpa [Count.record, Nat.max_eq_left hle] using hlongest
  · simp [Count.record, htotal]

/-- The bounds of a burst. -/
theorem Describes.bounds (h : Describes g b) : 1 ≤ b.pacchettiConsecutivi ∧
    b.pacchettiConsecutivi ≤ b.pacchettiTotali ∧ 1 ≤ b.flussi ∧ b.flussi ≤ b.pacchettiTotali ∧
    b.flussi + b.pacchettiConsecutivi ≤ b.pacchettiTotali + 1 := by
  have hne : g.map Item.flow ≠ [] := by
    intro hnil
    have hcoda := h.coda
    rw [List.map_eq_nil_iff.mp hnil] at hcoda
    cases hcoda
  have hlen : (g.map Item.flow).length = b.pacchettiTotali := by
    rw [List.length_map, h.totali]
  obtain ⟨hone, hrun, hflow, hflows, hsum⟩ := h.consecutivi.bounds hne
  rw [← h.flussi, hlen] at *
  exact ⟨hone, hrun, hflow, hflows, hsum⟩

/-- The rows of the bursts add up. -/
theorem sum_totali {gs : List (List Item)} {bursts : List Burst}
    (h : List.Forall₂ Describes gs bursts) :
    (bursts.map Burst.pacchettiTotali).sum = gs.flatten.length := by
  induction h with
  | nil => rfl
  | cons h _ ih => simp [h.totali, ih]

end Records

/-! ## `burst_analysis` -/

section Analysis

variable {rows : List Row}

/-- If every row is read, the bursts are those of the groups. -/
theorem groupBy_of_read (h : ∀ row ∈ rows, (read row).isSome) :
    ∃ bursts ret, burstAnalysis rows = some (bursts, ret) ∧ GroupBy rows bursts ret := by
  have hscan : scanRows script rows =
      some ((groups Item.burstId (items script rows)).mapIdx (groupRecord script)) := by
    have hread : ∀ row ∈ rows, (script.read row).isSome := h
    rw [scanRows_eq, if_pos hread, scan_groups]
    rfl
  have hitems := items_spec h
  have hbursts : List.Forall₂ Describes (groups Item.burstId (items script rows))
      ((groups Item.burstId (items script rows)).mapIdx (groupRecord script)) :=
    forall₂_mapIdx fun k g hg => describes_groupRecord k hg
  refine ⟨_, _, by rw [burstAnalysis, hscan]; rfl, ⟨_, hitems, hbursts, ?_⟩, ?_, ?_⟩
  · rw [List.length_mapIdx]
  · rw [sum_totali hbursts, flatten_groups, hitems.length_eq]
  · intro b hb
    obtain ⟨k, hk, rfl⟩ := List.mem_mapIdx.mp hb
    exact (describes_groupRecord k (List.getElem_mem hk)).bounds

/-- **`burst_analysis` computes the group-by** exactly for the inputs in which every row of at least
    7 fields that begins with digits begins with a number. -/
theorem burstAnalysis_iff (rows : List Row)
    (hqueue : ∀ row ∈ rows, Valid row → (pyInt (row.getD 1 [])).isSome) :
    (∃ bursts ret, burstAnalysis rows = some (bursts, ret) ∧ GroupBy rows bursts ret) ↔
      ∀ row ∈ rows, 7 ≤ row.length → strIsdigit (strip (row.getD 0 [])) = true →
        IsNumber (row.getD 0 []) := by
  constructor
  · rintro ⟨bursts, ret, hanalysis, -⟩ row hrow
    rw [burstAnalysis, scanRows_eq] at hanalysis
    split at hanalysis
    · rename_i hread
      exact (read_isSome_iff (hqueue row hrow)).mp (hread row hrow)
    · cases hanalysis
  · intro h
    exact groupBy_of_read fun row hrow => (read_isSome_iff (hqueue row hrow)).mpr (h row hrow)

/-- Two bursts with a log line between their rows. -/
theorem burstAnalysis_two_bursts : ∃ bursts ret,
    burstAnalysis [[['0'], ['3'], ['a'], ['b'], ['1'], ['2'], ['6']], [['x']],
      [['0'], ['3'], ['a'], ['b'], ['1'], ['2'], ['6']],
      [['2'], ['3'], ['a'], ['b'], ['1'], ['2'], ['6']]] = some (bursts, ret) ∧
    GroupBy [[['0'], ['3'], ['a'], ['b'], ['1'], ['2'], ['6']], [['x']],
      [['0'], ['3'], ['a'], ['b'], ['1'], ['2'], ['6']],
      [['2'], ['3'], ['a'], ['b'], ['1'], ['2'], ['6']]] bursts ret :=
  (burstAnalysis_iff _ (by decide +kernel)).mpr (by decide +kernel)

/-- A line that begins with a superscript stops the analysis. -/
theorem superscript_not_skipped :
    ¬∀ rows : List Row, (∀ row ∈ rows, Valid row → (pyInt (row.getD 1 [])).isSome) →
      ∃ bursts ret, burstAnalysis rows = some (bursts, ret) ∧ GroupBy rows bursts ret := by
  intro h
  obtain ⟨bursts, ret, hanalysis, -⟩ :=
    h [[['²'], ['3'], ['a'], ['b'], ['1'], ['2'], ['6']]] (by decide +kernel)
  have hnone : burstAnalysis [[['²'], ['3'], ['a'], ['b'], ['1'], ['2'], ['6']]] = none := by
    decide +kernel
  rw [hnone] at hanalysis
  cases hanalysis

end Analysis

end QueueDpdk.Locality.Bench
