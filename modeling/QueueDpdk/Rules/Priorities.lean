import QueueDpdk.Rules.Passes

/-!
# Priorities of rules

`add_rules` counts the priorities down over the lines of both kinds. Above the definition of
`ACL_RULE_PRIORITY_MAX` the source asks for rules that deny to come before routes.

* `AclOutranks` — they do, and the rules of a kind are in file order.
* `RulesFirst` — no deny line stands behind a route; from `WRAP` lines on it is the other way round,
  since the priorities start again from the largest number.
* `aclOutranks_iff` — the one is the other, for an accepted file.
-/

set_option autoImplicit false

namespace QueueDpdk.Rules

open Lib

/-! ## The property -/

/-- The rules handed out, without their offsets. -/
def Loaded.aclRules {F : Type} (out : Loaded F) : List (AclRule F) := out.acl.map Prod.snd

def Loaded.routeRules {F : Type} (out : Loaded F) : List (AclRule F) := out.route.map Prod.snd

/-- A rule that matches, of the highest priority among those that do. -/
structure BestMatch {F : Type} (rules : List (AclRule F)) (matching : AclRule F → Prop)
    (r : AclRule F) : Prop where
  mem : r ∈ rules
  hit : matching r
  best : ∀ s ∈ rules, matching s → s.priority ≤ r.priority

structure AclOutranks {F : Type} (out : Loaded F) : Prop where
  above : ∀ a ∈ out.aclRules, ∀ r ∈ out.routeRules, r.priority < a.priority
  denied : ∀ (matching : AclRule F → Prop), (∃ a ∈ out.aclRules, matching a) → ∀ r,
    BestMatch (out.aclRules ++ out.routeRules) matching r → r ∈ out.aclRules
  aclOrder : out.aclRules.Pairwise (fun r s => s.priority < r.priority)
  routeOrder : out.routeRules.Pairwise (fun r s => s.priority < r.priority)

/-- The highest match is a deny rule as soon as all of these are above the routes. -/
theorem bestMatch_acl {F : Type} {acl route : List (AclRule F)}
    (habove : ∀ a ∈ acl, ∀ r ∈ route, r.priority < a.priority) {matching : AclRule F → Prop}
    (hsome : ∃ a ∈ acl, matching a) {r : AclRule F} (h : BestMatch (acl ++ route) matching r) :
    r ∈ acl := by
  obtain ⟨a, ha, hmatch⟩ := hsome
  rcases List.mem_append.mp h.mem with hr | hr
  · exact hr
  · have hle := h.best a (List.mem_append_left _ ha) hmatch
    exact absurd (habove a ha r hr) (Int.not_lt.mpr hle)

/-- The property speaks of priorities only. -/
theorem aclOutranks_iff_priorities {F : Type} (out : Loaded F) : AclOutranks out ↔
    (∀ x ∈ out.aclRules.map AclRule.priority, ∀ y ∈ out.routeRules.map AclRule.priority, y < x) ∧
      (out.aclRules.map AclRule.priority).Pairwise (fun x y => y < x) ∧
      (out.routeRules.map AclRule.priority).Pairwise (fun x y => y < x) := by
  rw [List.pairwise_map, List.pairwise_map]
  simp only [List.forall_mem_map]
  constructor
  · intro h
    exact ⟨h.above, h.aclOrder, h.routeOrder⟩
  · rintro ⟨habove, hacl, hroute⟩
    exact ⟨habove, fun _ hsome _ hbest => bestMatch_acl habove hsome hbest, hacl, hroute⟩

/-! ## The priorities -/

/-- The number of lines after which the priorities start again from the largest number. -/
def WRAP : ℕ := 2 ^ 31 + 2 ^ 29

theorem nextPriority_ofNat {n : ℕ} (hn : n < 2 ^ 32) : nextPriority (UInt32.ofNat n) =
    if n < WRAP then 0x1fffffff - (n : Int) else 0x1fffffff - (n : Int) + 2 ^ 32 := by
  have hmax : RTE_ACL_MAX_PRIORITY.toNat = 0x1fffffff := rfl
  have hsub : (RTE_ACL_MAX_PRIORITY - UInt32.ofNat n).toNat =
      (2 ^ 32 - n + 0x1fffffff) % 2 ^ 32 := by
    rw [UInt32.toNat_sub, hmax, UInt32.toNat_ofNat', Nat.mod_eq_of_lt hn]
  unfold nextPriority toSigned WRAP
  rw [hsub, Int.bmod_def]
  omega

/-- They come round after `2 ^ 32` lines. -/
theorem nextPriority_add (n : ℕ) :
    nextPriority (UInt32.ofNat (n + 2 ^ 32)) = nextPriority (UInt32.ofNat n) := by
  have hmod : UInt32.ofNat (n + 2 ^ 32) = UInt32.ofNat n := by
    rw [← UInt32.toNat_inj, UInt32.toNat_ofNat', UInt32.toNat_ofNat', Nat.add_mod_right]
  rw [hmod]

/-- A line of a route. -/
def IsRoute (buff : List Char) : Prop := buff.head? = some ROUTE_LEAD_CHAR

instance : DecidablePred IsRoute := fun _ => inferInstanceAs (Decidable (_ = _))

/-- No deny line behind a route; or more than `WRAP` lines, the first of them routes and the others
    deny lines. -/
def RulesFirst (lines : List (List Char)) : Prop :=
  ((ruleLines lines).length ≤ WRAP ∧ (ruleLines lines).Pairwise (fun l m => IsRoute l → IsRoute m)) ∨
    (WRAP < (ruleLines lines).length ∧ (ruleLines lines).length ≤ 2 ^ 32 ∧
      ∀ i l, (ruleLines lines)[i]? = some l → (IsRoute l ↔ i < WRAP))

section Entries

variable {F : Type} {es : List (Entry F)}

/-- The priorities of the entries of a kind. -/
def prios (route : Bool) (es : List (Entry F)) : List Int :=
  (ofKind route es).map (fun x => nextPriority (UInt32.ofNat x.2))

theorem stored_prios (ruleSize : UInt32) (route : Bool) (es : List (Entry F)) :
    ((stored ruleSize route es).map Prod.snd).map AclRule.priority = prios route es := by
  apply List.ext_getElem?
  intro k
  simp [stored, prios, Entry.rule, Function.comp_def]

theorem mem_prios {route : Bool} {x : Int} : x ∈ prios route es ↔
    ∃ i e, es[i]? = some e ∧ e.route = route ∧ nextPriority (UInt32.ofNat i) = x := by
  simp only [prios, ofKind, List.mem_map, List.mem_filter, Prod.exists,
    List.mem_zipIdx_iff_getElem?, beq_iff_eq]
  constructor
  · rintro ⟨e, i, ⟨he, hr⟩, hx⟩
    exact ⟨i, e, he, hr, hx⟩
  · rintro ⟨i, e, he, hr, hx⟩
    exact ⟨e, i, ⟨he, hr⟩, hx⟩

theorem prios_pairwise {route : Bool} : (prios route es).Pairwise (fun x y => y < x) ↔
    ∀ i j e f, i < j → es[i]? = some e → es[j]? = some f → e.route = route → f.route = route →
      nextPriority (UInt32.ofNat j) < nextPriority (UInt32.ofNat i) := by
  rw [prios, ofKind, List.pairwise_map, List.pairwise_filter, List.pairwise_iff_getElem]
  constructor
  · intro h i j e f hij hi hj he hf
    obtain ⟨hil, rfl⟩ := List.getElem?_eq_some_iff.mp hi
    obtain ⟨hjl, rfl⟩ := List.getElem?_eq_some_iff.mp hj
    have hpair := h i j (by simpa using hil) (by simpa using hjl) hij
    simp only [List.getElem_zipIdx, Nat.zero_add, beq_iff_eq] at hpair
    exact hpair he hf
  · intro h i j hi hj hij he hf
    simp only [List.length_zipIdx] at hi hj
    simp only [List.getElem_zipIdx, Nat.zero_add, beq_iff_eq] at he hf ⊢
    exact h i j _ _ hij (List.getElem?_eq_getElem hi) (List.getElem?_eq_getElem hj) he hf

/-- The order that two entries should have. -/
def InOrder (i j : ℕ) (e f : Entry F) : Prop :=
  if e.route = true ∧ f.route = false then
    nextPriority (UInt32.ofNat i) < nextPriority (UInt32.ofNat j)
  else nextPriority (UInt32.ofNat j) < nextPriority (UInt32.ofNat i)

/-- All entries are in order just in case deny rules are above routes and each kind is in order. -/
theorem inOrder_iff : (∀ i j e f, i < j → es[i]? = some e → es[j]? = some f → InOrder i j e f) ↔
    (∀ x ∈ prios false es, ∀ y ∈ prios true es, y < x) ∧
      (prios false es).Pairwise (fun x y => y < x) ∧
      (prios true es).Pairwise (fun x y => y < x) := by
  simp only [mem_prios, prios_pairwise]
  constructor
  · intro h
    refine ⟨?_, ?_, ?_⟩
    · rintro x ⟨i, e, hi, he, rfl⟩ y ⟨j, f, hj, hf, rfl⟩
      rcases Nat.lt_trichotomy i j with hij | rfl | hij
      · simpa [InOrder, he] using h i j e f hij hi hj
      · obtain rfl := Option.some.inj (hi.symm.trans hj)
        rw [he] at hf
        cases hf
      · simpa [InOrder, he, hf] using h j i f e hij hj hi
    · intro i j e f hij hi hj he hf
      simpa [InOrder, he] using h i j e f hij hi hj
    · intro i j e f hij hi hj he hf
      simpa [InOrder, hf] using h i j e f hij hi hj
  · rintro ⟨habove, hacl, hroute⟩ i j e f hij hi hj
    unfold InOrder
    cases he : e.route with
    | true =>
      cases hf : f.route with
      | true => simpa using hroute i j e f hij hi hj he hf
      | false => simpa using habove _ ⟨j, f, hj, hf, rfl⟩ _ ⟨i, e, hi, he, rfl⟩
    | false =>
      cases hf : f.route with
      | true => simpa using habove _ ⟨i, e, hi, he, rfl⟩ _ ⟨j, f, hj, hf, rfl⟩
      | false => simpa using hacl i j e f hij hi hj he hf

/-- Of two lines the later one has the lower priority, unless it is in the next round. -/
theorem nextPriority_cases {i j : ℕ} (hij : i < j) (hj : j < 2 ^ 32) :
    (nextPriority (UInt32.ofNat j) < nextPriority (UInt32.ofNat i) ∧ ¬(i < WRAP ∧ WRAP ≤ j)) ∨
      (nextPriority (UInt32.ofNat i) < nextPriority (UInt32.ofNat j) ∧ i < WRAP ∧ WRAP ≤ j) := by
  rw [nextPriority_ofNat hj, nextPriority_ofNat (Nat.lt_trans hij hj)]
  unfold WRAP
  split
  · split
    · omega
    · omega
  · split
    · omega
    · omega

/-- Two entries are in order just in case both priorities are from one round and none is a deny rule
    behind a route, or it is such a rule in the next round. -/
theorem inOrder_pair {i j : ℕ} {e f : Entry F} (hij : i < j) (hj : j < 2 ^ 32) :
    InOrder i j e f ↔
      ((e.route = true ∧ f.route = false) ↔ (i < WRAP ∧ WRAP ≤ j)) := by
  unfold InOrder
  rcases nextPriority_cases hij hj with ⟨hlt, hround⟩ | ⟨hlt, hround⟩
  · split
    · rename_i hkind
      exact iff_of_false (by omega) (fun h => hround (h.mp hkind))
    · rename_i hkind
      exact iff_of_true hlt (iff_of_false hkind hround)
  · split
    · rename_i hkind
      exact iff_of_true hlt (iff_of_true hkind hround)
    · rename_i hkind
      exact iff_of_false (by omega) (fun h => hkind (h.mpr hround))

/-- At most `2 ^ 32` entries are in order. -/
theorem length_of_inOrder
    (h : ∀ i j e f, i < j → es[i]? = some e → es[j]? = some f → InOrder i j e f) :
    es.length ≤ 2 ^ 32 := by
  by_contra hlen
  have h0 : es[0]? = some es[0] := List.getElem?_eq_getElem (by omega)
  have h1 : es[2 ^ 32]? = some es[2 ^ 32] := List.getElem?_eq_getElem (by omega)
  have hsame : nextPriority (UInt32.ofNat (2 ^ 32)) = nextPriority (UInt32.ofNat 0) :=
    nextPriority_add 0
  have hpair := h 0 (2 ^ 32) _ _ (by decide) h0 h1
  unfold InOrder at hpair
  rw [hsame] at hpair
  split at hpair
  · exact Int.lt_irrefl _ hpair
  · exact Int.lt_irrefl _ hpair

/-- The condition on the lines, by the kinds of the entries. -/
theorem rulesFirst_entries {lines : List (List Char)} (hlines : es.map Entry.line = ruleLines lines)
    (hkind : ∀ e ∈ es, IsRoute e.line ↔ e.route = true) : RulesFirst lines ↔
      (es.length ≤ WRAP ∧ ∀ (i j : ℕ) (e f : Entry F), i < j → es[i]? = some e →
        es[j]? = some f → e.route = true → f.route = true) ∨
      (WRAP < es.length ∧ es.length ≤ 2 ^ 32 ∧
        ∀ i e, es[i]? = some e → (e.route = true ↔ i < WRAP)) := by
  have hpair : (ruleLines lines).Pairwise (fun l m => IsRoute l → IsRoute m) ↔
      ∀ (i j : ℕ) (e f : Entry F), i < j → es[i]? = some e → es[j]? = some f →
        e.route = true → f.route = true := by
    rw [← hlines, List.pairwise_map, List.pairwise_iff_getElem]
    constructor
    · intro h i j e f hij hi hj he
      obtain ⟨hil, rfl⟩ := List.getElem?_eq_some_iff.mp hi
      obtain ⟨hjl, rfl⟩ := List.getElem?_eq_some_iff.mp hj
      exact (hkind _ (List.getElem_mem hjl)).mp
        (h i j hil hjl hij ((hkind _ (List.getElem_mem hil)).mpr he))
    · intro h i j hi hj hij he
      rw [hkind _ (List.getElem_mem hi)] at he
      rw [hkind _ (List.getElem_mem hj)]
      exact h i j _ _ hij (List.getElem?_eq_getElem hi) (List.getElem?_eq_getElem hj) he
  have hround : (∀ i l, (ruleLines lines)[i]? = some l → (IsRoute l ↔ i < WRAP)) ↔
      ∀ i e, es[i]? = some e → (e.route = true ↔ i < WRAP) := by
    rw [← hlines]
    constructor
    · intro h i e he
      rw [← hkind e (List.mem_of_getElem? he)]
      exact h i e.line (by rw [List.getElem?_map, he]; rfl)
    · intro h i l hl
      rw [List.getElem?_map, Option.map_eq_some_iff] at hl
      obtain ⟨e, he, rfl⟩ := hl
      rw [hkind e (List.mem_of_getElem? he)]
      exact h i e he
  unfold RulesFirst
  rw [hpair, hround, ← hlines, List.length_map]

/-- The kinds of entries that are in order. -/
theorem rulesFirst_iff {lines : List (List Char)} (hlines : es.map Entry.line = ruleLines lines)
    (hkind : ∀ e ∈ es, IsRoute e.line ↔ e.route = true) : RulesFirst lines ↔
      ∀ i j e f, i < j → es[i]? = some e → es[j]? = some f → InOrder i j e f := by
  have hlt : ∀ {i : ℕ} {e : Entry F}, es[i]? = some e → i < es.length :=
    fun h => (List.getElem?_eq_some_iff.mp h).1
  rw [rulesFirst_entries hlines hkind]
  constructor
  · rintro (⟨hle, hroutes⟩ | ⟨-, hle, hround⟩) i j e f hij hi hj
    · have hjl := hlt hj
      rw [inOrder_pair hij (by unfold WRAP at hle; omega)]
      refine iff_of_false ?_ (by omega)
      rintro ⟨he, hf⟩
      rw [hroutes i j e f hij hi hj he] at hf
      cases hf
    · have hjl := hlt hj
      rw [inOrder_pair hij (by omega), hround i e hi, ← Bool.not_eq_true, hround j f hj, Nat.not_lt]
  · intro h
    have hlen := length_of_inOrder h
    have hpair : ∀ (i j : ℕ) (e f : Entry F), i < j → es[i]? = some e → es[j]? = some f →
        ((e.route = true ∧ f.route = false) ↔ (i < WRAP ∧ WRAP ≤ j)) := by
      intro i j e f hij hi hj
      exact (inOrder_pair hij (Nat.lt_of_lt_of_le (hlt hj) hlen)).mp (h i j e f hij hi hj)
    rcases Nat.lt_or_ge WRAP es.length with hlong | hshort
    · refine Or.inr ⟨hlong, hlen, fun i e he => ?_⟩
      have hil := hlt he
      have hpos : 0 < WRAP := by decide
      rcases Nat.lt_or_ge i WRAP with hi | hi
      · have hw := hpair i WRAP e es[WRAP] hi he (List.getElem?_eq_getElem hlong)
        exact iff_of_true (hw.mpr ⟨hi, Nat.le_refl _⟩).1 hi
      · have hw := hpair 0 i es[0] e (by omega) (List.getElem?_eq_getElem (by omega)) he
        exact iff_of_false (by simp [(hw.mpr ⟨hpos, hi⟩).2]) (by omega)
    · refine Or.inl ⟨hshort, fun i j e f hij hi hj he => ?_⟩
      have hjl := hlt hj
      cases hf : f.route with
      | true => rfl
      | false =>
        have := (hpair i j e f hij hi hj).mp ⟨he, hf⟩
        omega

variable {parser : Parser F} {mask ruleSize : UInt32} {content : List Char} {fseek : Int}
  {calloc : UInt32 → UInt32 → Bool} {out : Loaded F}

theorem Entry.Parsed.isRoute_iff {e : Entry F} (h : e.Parsed parser) :
    IsRoute e.line ↔ e.route = true := by
  unfold IsRoute
  rw [h.lead]
  cases e.route with
  | true => simp
  | false => exact iff_of_false (by decide) (by decide)

/-- **When deny rules outrank routes** in an accepted file. -/
theorem aclOutranks_iff
    (h : addRules (some content) fseek calloc mask ruleSize parser = some out) :
    AclOutranks out ↔ RulesFirst (fileLines content) := by
  obtain ⟨es, hlines, hall, -, rfl⟩ := addRules_some h
  rw [rulesFirst_iff hlines fun e he => (hall e he).1.isRoute_iff, inOrder_iff,
    aclOutranks_iff_priorities, Loaded.aclRules, Loaded.routeRules, stored_prios, stored_prios]

end Entries

/-- A file on which they do. -/
theorem denyThenRoute_outranks : AclOutranks denyThenRouteLoaded := by
  refine (aclOutranks_iff loadIpv4_denyThenRoute).mpr (Or.inl ?_)
  decide +kernel

/-- A route before a rule that denies comes first. -/
theorem routeThenDeny_not_outranks : ∃ out : Loaded Acl4Fields,
    loadIpv4 1 (defaultRoute "0" ++ denyPort "23") = some out ∧ ¬AclOutranks out := by
  refine ⟨⟨[(0, ⟨-1, 0x1ffffffe, 0xf0000000, denyFields 23⟩)], 1,
    [(0, ⟨-1, 0x1fffffff, 1, anyFields⟩)], 1, 1⟩, by decide +kernel, fun h => ?_⟩
  have habove := h.above _ List.mem_cons_self _ List.mem_cons_self
  exact absurd habove (by decide)

end QueueDpdk.Rules
