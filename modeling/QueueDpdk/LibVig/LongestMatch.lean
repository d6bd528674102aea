import Mathlib.Data.Finset.Card
import QueueDpdk.LibVig.Lpm

/-!
# Routes after ascending rules (`utils/lpm-dir-24-8.h`)

The header asks for the rules in ascending order of their lengths.

* `ascending_state` — the entries after such rules.
* `longest_match` — a lookup then gives the route of the longest match, but for short matches among
  longer rules.
* `all_taken_iff` — the rules are all taken if and only if the blocks are enough for them.
-/

set_option autoImplicit false

namespace QueueDpdk.LpmDir

open Lib

/-- The rule that should be found: the last and so the longest one. -/
def longest (rules : List Rule) (addr : UInt32) : Option Rule :=
  lastMatch (fun r => r.covers addr) rules

def Rule.isLong (r : Rule) : Bool := 25 ≤ r.prefixlen

/-- The rules that have a block for these 24 bits. -/
def longsAt (rules : List Rule) (h : ℕ) : List Rule :=
  rules.filter fun r => r.isLong && slot r.ipv4 == h

def longSlots (rules : List Rule) : Finset ℕ :=
  ((rules.filter Rule.isLong).map fun r => slot r.ipv4).toFinset

/-- The last short rule for these 24 bits. -/
def shortAt (rules : List Rule) (h : ℕ) : Option Rule :=
  lastMatch (fun r => !r.isLong && r.coversSlot h) rules

/-- The entry that they make. -/
def entryOf (rules : List Rule) (h : ℕ) : Entry :=
  if longsAt rules h = [] then .hop ((shortAt rules h).map Rule.route)
  else .block (longsAt rules h)

def Ascending (rules : List Rule) : Prop := rules.Pairwise fun r r' => r.prefixlen ≤ r'.prefixlen

/-- Every rule is taken. -/
def AllTaken (rules : List Rule) : Prop := ∀ e ∈ Dir.adds.events Dir.empty rules, e = some true

section Ascending

variable {rules : List Rule} {r : Rule} {h : ℕ}

theorem isLong_iff : r.isLong = true ↔ 25 ≤ r.prefixlen := by simp [Rule.isLong]

theorem longsAt_snoc (rules : List Rule) (r : Rule) (h : ℕ) : longsAt (rules ++ [r]) h =
    longsAt rules h ++ if r.isLong = true ∧ slot r.ipv4 = h then [r] else [] := by
  simp only [longsAt, List.filter_append, List.append_cancel_left_eq]
  split <;> simp_all

theorem longsAt_nil (hshort : ∀ r ∈ rules, r.isLong = false) (h : ℕ) : longsAt rules h = [] := by
  rw [longsAt, List.filter_eq_nil_iff]
  intro r hr
  simp [hshort r hr]

/-- Nothing longer has come before a short rule. -/
theorem Ascending.before_short (hsorted : Ascending (rules ++ [r])) (hr : r.isLong = false) :
    ∀ r' ∈ rules, r'.isLong = false := by
  intro r' hr'
  have hle := (List.pairwise_append.mp hsorted).2.2 r' hr' r List.mem_cons_self
  simp only [Rule.isLong, decide_eq_false_iff_not] at hr ⊢
  omega

theorem mem_longSlots : h ∈ longSlots rules ↔ longsAt rules h ≠ [] := by
  simp [longSlots, longsAt, List.filter_eq_nil_iff, and_assoc]

theorem longSlots_snoc (rules : List Rule) (r : Rule) : longSlots (rules ++ [r]) =
    if r.isLong = true then insert (slot r.ipv4) (longSlots rules) else longSlots rules := by
  ext h
  split <;> simp_all [longSlots]

theorem allTaken_snoc : AllTaken (rules ++ [r]) ↔
    AllTaken rules ∧ ((dirAfter rules).add r).2 = true := by
  simp [AllTaken, Machine.events_snoc, or_imp, forall_and, Dir.adds, dirAfter]

theorem dirAfter_snoc : dirAfter (rules ++ [r]) = ((dirAfter rules).add r).1 :=
  Dir.adds.final_snoc Dir.empty rules r

/-- The entries that the rules make, if all of them are taken, and when they are. -/
structure Built (rules : List Rule) : Prop where
  taken : AllTaken rules ↔ (longSlots rules).card ≤ lpm_LONG_OFFSET_MAX
  used : AllTaken rules → (dirAfter rules).used = (longSlots rules).card
  entry : AllTaken rules → ∀ h, (dirAfter rules).entry h = entryOf rules h

/-- A short rule, before any long one. -/
theorem Built.short (hb : Built rules) (hp : r.isLong = false)
    (hbefore : ∀ r' ∈ rules, r'.isLong = false) : Built (rules ++ [r]) := by
  have hlt : r.prefixlen < 25 := by simpa [Rule.isLong] using hp
  have hnone := longsAt_nil hbefore
  have htaken : AllTaken (rules ++ [r]) ↔ AllTaken rules := by
    simp [allTaken_snoc, Dir.add_short hlt]
  have hslots : longSlots (rules ++ [r]) = longSlots rules := by simp [longSlots_snoc, hp]
  refine ⟨by rw [htaken, hslots, hb.taken], fun h => ?_, fun h s => ?_⟩
  · rw [dirAfter_snoc, Dir.add_short hlt, hslots]
    exact hb.used (htaken.mp h)
  · rw [dirAfter_snoc, Dir.add_short hlt]
    dsimp only
    rw [hb.entry (htaken.mp h)]
    simp only [entryOf, longsAt_snoc, hnone, hp, Bool.false_eq_true, false_and, if_false,
      List.append_nil, if_true, shortAt, lastMatch_snoc, Bool.not_false, Bool.true_and]
    split <;> rfl

/-- The entries of the other blocks stay. -/
theorem entryOf_snoc_of_ne (hlong : r.isLong = true) (hne : h ≠ slot r.ipv4) :
    entryOf (rules ++ [r]) h = entryOf rules h := by
  simp [entryOf, longsAt_snoc, shortAt, hlong, Ne.symm hne]

theorem entryOf_snoc_self (hlong : r.isLong = true) : entryOf (rules ++ [r]) (slot r.ipv4) =
    .block (longsAt rules (slot r.ipv4) ++ [r]) := by
  simp [entryOf, longsAt_snoc, hlong]

/-- A long rule. -/
theorem Built.long (hb : Built rules) (hlong : r.isLong = true) : Built (rules ++ [r]) := by
  have hp : ¬r.prefixlen < 25 := Nat.not_lt.mpr (isLong_iff.mp hlong)
  have hslots : longSlots (rules ++ [r]) = insert (slot r.ipv4) (longSlots rules) := by
    rw [longSlots_snoc, if_pos hlong]
  have hupdate : ∀ {f : ℕ → Entry} {e : Entry}, (∀ h, f h = entryOf rules h) →
      e = .block (longsAt rules (slot r.ipv4) ++ [r]) →
      ∀ h, Function.update f (slot r.ipv4) e h = entryOf (rules ++ [r]) h := by
    rintro f _ hf rfl h
    by_cases hh : h = slot r.ipv4
    · rw [hh, Function.update_self, entryOf_snoc_self hlong]
    · rw [Function.update_of_ne hh, hf, entryOf_snoc_of_ne hlong hh]
  by_cases hall : AllTaken rules
  · have hused := hb.used hall
    have hentry := hb.entry hall
    have hcard := hb.taken.mp hall
    have hthere := hentry (slot r.ipv4)
    by_cases hnil : longsAt rules (slot r.ipv4) = []
    · rw [entryOf, if_pos hnil] at hthere
      have hnew : (longSlots (rules ++ [r])).card = (longSlots rules).card + 1 := by
        rw [hslots, Finset.card_insert_of_notMem (by rw [mem_longSlots, not_not, hnil])]
      by_cases hfree : (dirAfter rules).used < lpm_LONG_OFFSET_MAX
      · -- A new block.
        have hadd := Dir.add_new hp hthere hfree
        refine ⟨?_, fun _ => ?_, fun _ => ?_⟩
        · simp only [allTaken_snoc, hadd, hall, and_self, true_iff]
          omega
        · rw [dirAfter_snoc, hadd, hnew, ← hused]
        · rw [dirAfter_snoc, hadd]
          exact hupdate hentry (by rw [hnil, List.nil_append])
      · -- No block is left.
        have hnot : ¬AllTaken (rules ++ [r]) := by
          simp [allTaken_snoc, Dir.add_refused hp hthere hfree]
        refine ⟨?_, fun h => absurd h hnot, fun h => absurd h hnot⟩
        simp only [hnot, false_iff]
        omega
    · rw [entryOf, if_neg hnil] at hthere
      have hold : longSlots (rules ++ [r]) = longSlots rules := by
        rw [hslots, Finset.insert_eq_self.mpr (mem_longSlots.mpr hnil)]
      have hadd := Dir.add_block hp hthere
      refine ⟨?_, fun _ => ?_, fun _ => ?_⟩
      · simp only [allTaken_snoc, hadd, hall, hold, and_self, hcard]
      · rw [dirAfter_snoc, hadd, hold, ← hused]
      · rw [dirAfter_snoc, hadd]
        exact hupdate hentry rfl
  · have hnot : ¬AllTaken (rules ++ [r]) := fun h => hall (allTaken_snoc.mp h).1
    refine ⟨?_, fun h => absurd h hnot, fun h => absurd h hnot⟩
    have hcard : ¬(longSlots rules).card ≤ lpm_LONG_OFFSET_MAX := fun hle =>
      hall (hb.taken.mpr hle)
    have hmono : (longSlots rules).card ≤ (longSlots (rules ++ [r])).card := by
      rw [hslots]
      exact Finset.card_le_card (Finset.subset_insert _ _)
    simp only [hnot, false_iff]
    omega

/-- **Ascending rules** make these entries. -/
theorem Ascending.built (hsorted : Ascending rules) : Built rules := by
  induction rules using List.reverseRecOn with
  | nil =>
    refine ⟨⟨fun _ => Nat.zero_le _, fun _ e he => by cases he⟩, fun _ => rfl, fun _ _ => rfl⟩
  | append_singleton rules r ih =>
    have hrules := ih (List.pairwise_append.mp hsorted).1
    cases hr : r.isLong with
    | true => exact hrules.long hr
    | false => exact hrules.short hr (hsorted.before_short hr)

/-- In ascending rules the longest match is a long one, if there is any. -/
theorem Ascending.longest_eq (hsorted : Ascending rules) (addr : UInt32) : longest rules addr =
    (lastMatch (fun r => r.covers addr) (longsAt rules (slot addr))).or
      (shortAt rules (slot addr)) := by
  induction rules using List.reverseRecOn with
  | nil => rfl
  | append_singleton rules r ih =>
    have hrec := ih (List.pairwise_append.mp hsorted).1
    rw [longest] at hrec ⊢
    rw [lastMatch_snoc, longsAt_snoc, shortAt, lastMatch_snoc]
    cases hr : r.isLong with
    | true =>
      have hp := isLong_iff.mp hr
      by_cases hc : r.covers addr = true
      · simp [hc, (slot_of_covers hp hc).symm]
      · by_cases hs : slot r.ipv4 = slot addr
        · simpa [hc, hs, shortAt] using hrec
        · simpa [hc, hs, shortAt] using hrec
    | false =>
      have hp : r.prefixlen < 25 := by simpa [Rule.isLong] using hr
      rw [longsAt_nil (hsorted.before_short hr)] at hrec ⊢
      rw [covers_short hp]
      by_cases hc : r.coversSlot (slot addr) = true
      · simp [hc]
      · simpa [hc, shortAt] using hrec

/-- The sample's rules: 10.0.0.0/8 and 10.0.0.128/25. -/
def sampleRules : List Rule :=
  [⟨0x0A000000, 8, 1, by decide, by decide⟩, ⟨0x0A000080, 25, 2, by decide, by decide⟩]

theorem shortAt_short {addr : UInt32} (h : shortAt rules (slot addr) = some r) :
    r.isLong = false := by
  have hr := (lastMatch_mem h).2
  simp only [Bool.and_eq_true, Bool.not_eq_true'] at hr
  exact hr.1

/-- What is looked up after ascending rules that are all taken. -/
theorem Ascending.lookup (hsorted : Ascending rules) (hall : AllTaken rules) (addr : UInt32) :
    (dirAfter rules).lookup addr = match longest rules addr with
      | none => none
      | some r => if r.isLong = false ∧ slot addr ∈ longSlots rules then none else some r.route := by
  rw [Dir.lookup, hsorted.built.entry hall, entryOf, hsorted.longest_eq]
  by_cases hnil : longsAt rules (slot addr) = []
  · rw [if_pos hnil, hnil]
    cases hs : shortAt rules (slot addr) <;> simp [mem_longSlots, hnil]
  · rw [if_neg hnil]
    cases hl : lastMatch (fun r => r.covers addr) (longsAt rules (slot addr)) with
    | none =>
      cases hs : shortAt rules (slot addr) with
      | none => simp [hl]
      | some r => simp [hl, mem_longSlots, hnil, shortAt_short hs]
    | some r =>
      have hlong : r.isLong = true := by
        have hr := List.mem_filter.mp (lastMatch_mem hl).1
        simp only [Bool.and_eq_true] at hr
        exact hr.2.1
      simp [hl, hlong]

/-- **The longest match.**  After ascending rules with long ones for at most 256 different 24 bits, a
    lookup gives the route of a rule that covers the address and is longest; it gives no route if
    there is none, but also if the longest is a short one and a long rule has the same 24 bits. -/
theorem longest_match (lpm24 lpmLong : ℕ → UInt16) (hsorted : Ascending rules)
    (hroom : (longSlots rules).card ≤ lpm_LONG_OFFSET_MAX) :
    ∃ l, updates.final (lpmAllocate lpm24 lpmLong) rules = some l ∧ ∀ addr,
      (∀ r ∈ longest rules addr, r ∈ rules ∧ r.covers addr = true ∧
        ∀ r' ∈ rules, r'.covers addr = true → r'.prefixlen ≤ r.prefixlen) ∧
      lpmLookupElem l addr = match longest rules addr with
        | none => INVALID
        | some r =>
          if r.isLong = false ∧ slot addr ∈ longSlots rules then INVALID else r.route := by
  obtain ⟨-, l, hl, hrep⟩ := represents_run lpm24 lpmLong rules
  refine ⟨l, hl, fun addr => ⟨fun r hr => ?_, ?_⟩⟩
  · obtain ⟨hmem, hcovers⟩ := lastMatch_mem hr
    exact ⟨hmem, hcovers, lastMatch_max hsorted hr⟩
  · rw [hrep.lookup, hsorted.lookup (hsorted.built.taken.mpr hroom)]
    cases longest rules addr with
    | none => rfl
    | some r =>
      dsimp only
      split <;> rfl

/-- 10.0.0.1 is covered by the first rule only, and has no route. -/
theorem longest_match_sample : ∃ l,
    updates.final (lpmAllocate (fun _ => 0) fun _ => 0) sampleRules = some l ∧
      (longest sampleRules 0x0A000001).map Rule.route = some 1 ∧
      lpmLookupElem l 0x0A000001 = INVALID ∧ lpmLookupElem l 0x0A000081 = 2 := by
  have hsorted : Ascending sampleRules := by simp [Ascending, sampleRules]
  obtain ⟨l, hl, hlookup⟩ := longest_match (fun _ => 0) (fun _ => 0) hsorted (by decide)
  exact ⟨l, hl, rfl, (hlookup _).2.trans rfl, (hlookup _).2.trans rfl⟩

/-- **Room for the rules.**  Ascending rules are all taken if and only if the long ones have at most
    256 different 24 bits. -/
theorem all_taken_iff (lpm24 lpmLong : ℕ → UInt16) (hsorted : Ascending rules) :
    (∀ e ∈ updates.events (lpmAllocate lpm24 lpmLong) rules, e = some true) ↔
      (longSlots rules).card ≤ lpm_LONG_OFFSET_MAX := by
  rw [(represents_run lpm24 lpmLong rules).1]
  exact hsorted.built.taken

theorem all_taken_sample :
    (updates.events (lpmAllocate (fun _ => 0) fun _ => 0) sampleRules).all (· == some true) = true :=
  List.all_eq_true.mpr fun e he => beq_iff_eq.mpr <|
    (all_taken_iff (fun _ => 0) (fun _ => 0) (by simp [Ascending, sampleRules])).mpr (by decide) e he

end Ascending

end QueueDpdk.LpmDir
