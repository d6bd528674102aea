import Mathlib.Data.Nat.Prime.Basic
import Mathlib.Data.Nat.ModEq
import Mathlib.Data.Finset.Card
import Mathlib.Data.List.ProdSigma
import QueueDpdk.Lib.Dealing
import QueueDpdk.LibVig.DoubleChain

/-!
# Consistent hashing (`utils/cht.c`)

Every bucket of hashes has a row of all backends, in the order in which it prefers them. An array is
a function of the index; an access of the vector behind its end is `none`.

* `chtFillCht`, `chtFindPreferredAvailableBackend` — as in the source.
* `chtFillCht_spec` — every row is a permutation of the backends.
* `preferred_active` — what is found; `hashes_stay` — which hashes move when backends come or go.
-/

set_option autoImplicit false

namespace QueueDpdk.Cht

open Lib QueueDpdk.LibVig

/-! ## The functions -/

def MAX_CHT_HEIGHT : ℕ := 40000
def INT_MAX : ℕ := 2147483647

/-- The sizes, with what the contract of `cht_fill_cht` asks. -/
structure Sizes where
  chtHeight : ℕ
  backendCapacity : ℕ
  height_lt : chtHeight < MAX_CHT_HEIGHT
  height_prime : chtHeight.Prime
  capacity_pos : 0 < backendCapacity
  capacity_lt : backendCapacity < chtHeight
  room : 4 * MAX_CHT_HEIGHT * (backendCapacity + 1) < INT_MAX

def loop (k capacity : ℕ) : ℕ := k % capacity

/-- `permut`, the bucket that backend `i` prefers in place `j`. -/
def permut (c : Sizes) (i j : ℕ) : ℕ :=
  let offsetAbsolut := i * 31 % 2 ^ 32
  let offset := loop offsetAbsolut c.chtHeight
  let baseShift := loop i (c.chtHeight - 1)
  let shift := baseShift + 1
  loop ((offset + shift * j) % 2 ^ 64) c.chtHeight

/-- The two loops over `i` and `j`. -/
def pairs (m n : ℕ) : List (ℕ × ℕ) := (List.range m).product (List.range n)

/-- `permutations`, on the memory it gets. -/
def fillPermutations (c : Sizes) (memory : ℕ → ℕ) : ℕ → ℕ :=
  (pairs c.backendCapacity c.chtHeight).foldl
    (fun t d => Function.update t ((d.1 * c.chtHeight + d.2) % 2 ^ 32) (permut c d.1 d.2)) memory

/-- Backend `j` is put into the next place of the row of the bucket that it prefers in place `i`. -/
def fillStep (c : Sizes) (permutations : ℕ → ℕ) (s : Dealt) (d : ℕ × ℕ) : Option Dealt :=
  let index := (d.2 * c.chtHeight + d.1) % 2 ^ 32
  let bucketId := permutations index
  let priority := s.next bucketId
  let next := Function.update s.next bucketId (s.next bucketId + 1)
  let place := (c.backendCapacity * bucketId + priority) % 2 ^ 32
  if place < c.chtHeight * c.backendCapacity then some ⟨next, Function.update s.cells place d.2⟩
  else none

/-- `cht_fill_cht` on the memory that it gets and the vector's old values, when no allocation
    fails. -/
def chtFillCht (c : Sizes) (memory cht : ℕ → ℕ) : Option (ℕ → ℕ) := do
  let s ← (pairs c.chtHeight c.backendCapacity).foldlM (fillStep c (fillPermutations c memory))
    ⟨fun _ => 0, cht⟩
  some s.cells

/-- The loop of `cht_find_preferred_available_backend` from place `i` on, with the number of places
    that are left. -/
def findPreferredFrom (c : Sizes) (cht : ℕ → ℕ) (activeBackends : DoubleChain) (start : ℕ) :
    ℕ → ℕ → Option ℕ
  | _, 0 => none
  | i, n + 1 =>
    let candidate := cht (start * c.backendCapacity + i)
    if dchainIsIndexAllocated activeBackends (candidate : Int) = true then some candidate
    else findPreferredFrom c cht activeBackends start (i + 1) n

/-- `cht_find_preferred_available_backend`: `chosen_backend`, if it returns 1. -/
def chtFindPreferredAvailableBackend (c : Sizes) (hash : ℕ) (cht : ℕ → ℕ)
    (activeBackends : DoubleChain) : Option ℕ :=
  findPreferredFrom c cht activeBackends (loop hash c.chtHeight) 0 c.backendCapacity

/-! ## The permutations -/

section Permutations

variable (c : Sizes)

theorem Sizes.bounds : c.chtHeight < 40000 ∧ c.backendCapacity < 13421 := by
  have h1 := c.height_lt
  have h2 := c.room
  unfold MAX_CHT_HEIGHT at h1 h2
  unfold INT_MAX at h2
  omega

/-- An index of an array of `m` rows is small. -/
theorem index_lt {i j m n : ℕ} (hi : i < m) (hj : j < n) : i * n + j < m * n := by
  calc i * n + j < i * n + n := Nat.add_lt_add_left hj _
    _ = (i + 1) * n := (Nat.succ_mul _ _).symm
    _ ≤ m * n := Nat.mul_le_mul_right _ hi

theorem Sizes.cells_lt : c.backendCapacity * c.chtHeight < 2 ^ 32 := by
  obtain ⟨hh, hc⟩ := c.bounds
  calc c.backendCapacity * c.chtHeight ≤ 13421 * 40000 := Nat.mul_le_mul hc.le hh.le
    _ < 2 ^ 32 := by decide

theorem permut_lt (i j : ℕ) : permut c i j < c.chtHeight := Nat.mod_lt _ c.height_prime.pos

/-- Nothing wraps around. -/
theorem permut_eq {i j : ℕ} (hi : i < c.backendCapacity) (hj : j < c.chtHeight) :
    permut c i j = (i * 31 % c.chtHeight + (i + 1) * j) % c.chtHeight := by
  obtain ⟨hh, hc⟩ := c.bounds
  have hlt := c.capacity_lt
  have hshift : i % (c.chtHeight - 1) = i := Nat.mod_eq_of_lt (by omega)
  have hmul : (i + 1) * j ≤ 13421 * 40000 := Nat.mul_le_mul (by omega) (by omega)
  have hmod := Nat.mod_lt (i * 31) c.height_prime.pos
  simp only [permut, loop, hshift]
  rw [Nat.mod_eq_of_lt (a := i * 31) (by omega), Nat.mod_eq_of_lt (b := 2 ^ 64) (by omega)]

/-- A backend prefers no bucket twice. -/
theorem permut_inj {i j j' : ℕ} (hi : i < c.backendCapacity) (hj : j < c.chtHeight)
    (hj' : j' < c.chtHeight) (h : permut c i j = permut c i j') : j = j' := by
  rw [permut_eq c hi hj, permut_eq c hi hj'] at h
  have hcoprime : Nat.Coprime c.chtHeight (i + 1) := by
    rw [c.height_prime.coprime_iff_not_dvd]
    have hlt := c.capacity_lt
    exact fun hdvd => absurd (Nat.le_of_dvd (Nat.succ_pos i) hdvd) (by omega)
  have hmul : (i + 1) * j ≡ (i + 1) * j' [MOD c.chtHeight] := Nat.ModEq.add_left_cancel' _ h
  have hmod : j ≡ j' [MOD c.chtHeight] := Nat.ModEq.cancel_left_of_coprime hcoprime hmul
  exact Nat.ModEq.eq_of_lt_of_lt hmod hj hj'

/-- And it prefers every one. -/
theorem permut_surj {i b : ℕ} (hi : i < c.backendCapacity) (hb : b < c.chtHeight) :
    ∃ j < c.chtHeight, permut c i j = b := by
  have himage : (Finset.range c.chtHeight).image (permut c i) = Finset.range c.chtHeight := by
    apply Finset.eq_of_subset_of_card_le
    · intro x hx
      obtain ⟨j, -, rfl⟩ := Finset.mem_image.mp hx
      exact Finset.mem_range.mpr (permut_lt c i j)
    · rw [Finset.card_image_of_injOn]
      intro j hj j' hj' h
      exact permut_inj c hi (Finset.mem_range.mp hj) (Finset.mem_range.mp hj') h
  have hmem := Finset.mem_range.mpr hb
  rw [← himage] at hmem
  obtain ⟨j, hj, hjb⟩ := Finset.mem_image.mp hmem
  exact ⟨j, Finset.mem_range.mp hj, hjb⟩

theorem mem_pairs {m n : ℕ} {d : ℕ × ℕ} : d ∈ pairs m n ↔ d.1 < m ∧ d.2 < n := by
  obtain ⟨i, j⟩ := d
  simp [pairs, List.pair_mem_product]

/-- What the array of permutations holds. -/
theorem fillPermutations_eq (memory : ℕ → ℕ) {i j : ℕ} (hi : i < c.backendCapacity)
    (hj : j < c.chtHeight) :
    fillPermutations c memory ((i * c.chtHeight + j) % 2 ^ 32) = permut c i j := by
  have hcells := c.cells_lt
  have hlist : ∀ (ds : List (ℕ × ℕ)) (t : ℕ → ℕ),
      (∀ d ∈ ds, d.1 < c.backendCapacity ∧ d.2 < c.chtHeight) → (i, j) ∈ ds →
      ds.foldl (fun t d => Function.update t ((d.1 * c.chtHeight + d.2) % 2 ^ 32)
        (permut c d.1 d.2)) t ((i * c.chtHeight + j) % 2 ^ 32) = permut c i j := by
    intro ds t hin hmem
    induction ds using List.reverseRecOn with
    | nil => cases hmem
    | append_singleton ds d ih =>
      obtain ⟨hd1, hd2⟩ := hin d (by simp)
      have hsmall := index_lt hi hj
      have hsmall' := index_lt hd1 hd2
      rw [List.foldl_append]
      simp only [List.foldl_cons, List.foldl_nil]
      by_cases heq : (i * c.chtHeight + j) % 2 ^ 32 = (d.1 * c.chtHeight + d.2) % 2 ^ 32
      · rw [Nat.mod_eq_of_lt (by omega), Nat.mod_eq_of_lt (by omega),
          Nat.mul_comm, Nat.mul_comm d.1] at heq
        obtain ⟨rfl, rfl⟩ := place_inj hj hd2 heq
        exact Function.update_self ..
      · rw [Function.update_of_ne heq]
        rcases List.mem_append.mp hmem with hds | hlast
        · exact ih (fun d hd => hin d (List.mem_append_left _ hd)) hds
        · obtain rfl : (i, j) = d := by simpa using hlast
          exact absurd rfl heq
  exact hlist _ _ (fun d hd => mem_pairs.mp hd) (mem_pairs.mpr ⟨hi, hj⟩)

end Permutations

/-! ## The rows -/

/-- The row of a bucket. -/
def row (c : Sizes) (cht : ℕ → ℕ) (b : ℕ) : List ℕ :=
  (List.range c.backendCapacity).map fun i => cht (b * c.backendCapacity + i)

section Rows

variable {c : Sizes} {cht : ℕ → ℕ} {b : ℕ}

/-- The bucket and the backend of each step. -/
def dealt (c : Sizes) (d : ℕ × ℕ) : ℕ × ℕ := (permut c d.2 d.1, d.2)

/-- What is dealt to a row are the backends. -/
theorem rowItems_perm (hb : b < c.chtHeight) :
    (rowItems ((pairs c.chtHeight c.backendCapacity).map (dealt c)) b).Perm
      (List.range c.backendCapacity) := by
  have hrow : rowItems ((pairs c.chtHeight c.backendCapacity).map (dealt c)) b =
      ((pairs c.chtHeight c.backendCapacity).filter
        fun d => permut c d.2 d.1 == b).map Prod.snd := by
    simp [rowItems, List.filter_map, dealt, Function.comp_def]
  rw [hrow]
  have hpairs : (pairs c.chtHeight c.backendCapacity).Nodup :=
    List.nodup_range.product List.nodup_range
  have hnodup := List.Nodup.map_on (f := Prod.snd) (fun d hd d' hd' heq => by
    obtain ⟨hmem, hdb⟩ := List.mem_filter.mp hd
    obtain ⟨hmem', hdb'⟩ := List.mem_filter.mp hd'
    obtain ⟨hi, hj⟩ := mem_pairs.mp hmem
    obtain ⟨hi', hj'⟩ := mem_pairs.mp hmem'
    have hsame : permut c d.2 d.1 = permut c d.2 d'.1 := by
      rw [beq_iff_eq] at hdb hdb'
      rw [hdb, heq, hdb']
    exact Prod.ext (permut_inj c hj hi hi' hsame) heq)
    (hpairs.filter fun d => permut c d.2 d.1 == b)
  rw [List.perm_ext_iff_of_nodup hnodup List.nodup_range]
  intro j
  rw [List.mem_map, List.mem_range]
  constructor
  · rintro ⟨d, hd, rfl⟩
    exact (mem_pairs.mp (List.mem_filter.mp hd).1).2
  · intro hj
    obtain ⟨i, hi, hib⟩ := permut_surj c hj hb
    exact ⟨(i, j), List.mem_filter.mpr ⟨mem_pairs.mpr ⟨hi, hj⟩, by simp [hib]⟩, rfl⟩

/-- The step of the source, where there is room. -/
theorem fillStep_eq (c : Sizes) (memory : ℕ → ℕ) {d : ℕ × ℕ} {s : Dealt}
    (hd : d ∈ pairs c.chtHeight c.backendCapacity)
    (hroom : s.next (dealt c d).1 < c.backendCapacity) :
    fillStep c (fillPermutations c memory) s d =
      place c.chtHeight c.backendCapacity s (dealt c d) := by
  obtain ⟨hi, hj⟩ := mem_pairs.mp hd
  have hcells := c.cells_lt
  have hsmall := index_lt (permut_lt c d.2 d.1) hroom
  rw [Nat.mul_comm] at hsmall hcells
  simp only [fillStep, fillPermutations_eq c memory hj hi, dealt, place] at hsmall ⊢
  rw [Nat.mod_eq_of_lt (by omega)]
  rfl

/-- The table is filled within its bounds, and every row is a permutation of the backends. -/
theorem chtFillCht_spec (c : Sizes) (memory old : ℕ → ℕ) :
    ∃ cht, chtFillCht c memory old = some cht ∧
      ∀ b < c.chtHeight, (row c cht b).Perm (List.range c.backendCapacity) := by
  have hlen : ∀ b < c.chtHeight, (rowItems ((pairs c.chtHeight c.backendCapacity).map (dealt c))
      b).length = c.backendCapacity := by
    intro b hb
    rw [(rowItems_perm hb).length_eq, List.length_range]
  have hfits : ∀ b, (rowItems ((pairs c.chtHeight c.backendCapacity).map (dealt c)) b).length ≤
      c.backendCapacity := by
    intro b
    by_cases hb : b < c.chtHeight
    · exact Nat.le_of_eq (hlen b hb)
    · have hnil : rowItems ((pairs c.chtHeight c.backendCapacity).map (dealt c)) b = [] := by
        simp only [rowItems, List.map_eq_nil_iff, List.filter_eq_nil_iff, List.mem_map]
        rintro _ ⟨d, -, rfl⟩
        have hlt := permut_lt c d.2 d.1
        simp only [dealt, beq_iff_eq]
        omega
      rw [hnil]
      exact Nat.zero_le _
  obtain ⟨s, hs, hholds⟩ := places_spec (dealt c) old
    (fun d hd s hroom => fillStep_eq c memory hd hroom) (fun d _ => permut_lt c d.2 d.1) hfits
  refine ⟨s.cells, by simp [chtFillCht, hs], fun b hb => ?_⟩
  have hrow := hholds.row (hlen b hb)
  simp only [Nat.mul_comm c.backendCapacity b] at hrow
  rw [row, hrow]
  exact rowItems_perm hb

/-! ## Preferences -/

/-- The loop gives the first active backend of the row. -/
theorem findPreferred_eq (activeBackends : DoubleChain) (hash : ℕ) :
    chtFindPreferredAvailableBackend c hash cht activeBackends =
      (row c cht (hash % c.chtHeight)).find?
        fun b : ℕ => dchainIsIndexAllocated activeBackends (b : Int) := by
  have hloop : ∀ n i, findPreferredFrom c cht activeBackends (hash % c.chtHeight) i n =
      ((List.range' i n).map fun k => cht (hash % c.chtHeight * c.backendCapacity + k)).find?
        fun b : ℕ => dchainIsIndexAllocated activeBackends (b : Int) := by
    intro n
    induction n with
    | zero => intro i; rfl
    | succ n ih =>
      intro i
      rw [List.range'_succ, List.map_cons, List.find?_cons, findPreferredFrom, ih]
      cases hactive : dchainIsIndexAllocated activeBackends
        (cht (hash % c.chtHeight * c.backendCapacity + i) : Int) <;> simp
  rw [chtFindPreferredAvailableBackend, loop, hloop, row, List.range_eq_range']

variable {memory old : ℕ → ℕ} {active active' : DoubleChain} {alloc free alloc' free' : List Int}

theorem row_perm (hfill : chtFillCht c memory old = some cht) (hash : ℕ) :
    (row c cht (hash % c.chtHeight)).Perm (List.range c.backendCapacity) := by
  obtain ⟨cht', hcht', hrows⟩ := chtFillCht_spec c memory old
  obtain rfl := Option.some.inj (hfill.symm.trans hcht')
  exact hrows _ (Nat.mod_lt _ c.height_prime.pos)

theorem active_iff (hchain : ChainInv active.cells c.backendCapacity alloc free) {b : ℕ}
    (hb : b < c.backendCapacity) :
    dchainIsIndexAllocated active (b : Int) = true ↔ (b : Int) ∈ alloc :=
  allocated_iff hchain (Int.natCast_nonneg b) (Int.ofNat_lt.mpr hb)

/-- What is found, in terms of the row. -/
theorem preferred_iff (hfill : chtFillCht c memory old = some cht)
    (hchain : ChainInv active.cells c.backendCapacity alloc free) (hash : ℕ) :
    chtFindPreferredAvailableBackend c hash cht active =
      (row c cht (hash % c.chtHeight)).find? fun b : ℕ => decide ((b : Int) ∈ alloc) := by
  rw [findPreferred_eq]
  have hcongr : ∀ xs : List ℕ, (∀ b ∈ xs, b < c.backendCapacity) →
      xs.find? (fun b : ℕ => dchainIsIndexAllocated active (b : Int)) =
        xs.find? fun b : ℕ => decide ((b : Int) ∈ alloc) := by
    intro xs hxs
    induction xs with
    | nil => rfl
    | cons b xs ih =>
      have hb := active_iff hchain (hxs b List.mem_cons_self)
      rw [List.find?_cons, List.find?_cons, ih fun x hx => hxs x (List.mem_cons_of_mem _ hx)]
      simp only [Bool.eq_iff_iff.mpr (hb.trans decide_eq_true_iff.symm)]
  exact hcongr _ fun b hb => List.mem_range.mp ((row_perm hfill hash).mem_iff.mp hb)

/-- Nothing is found if and only if no backend is active. -/
theorem preferred_none (hfill : chtFillCht c memory old = some cht)
    (hchain : ChainInv active.cells c.backendCapacity alloc free) (hash : ℕ) :
    chtFindPreferredAvailableBackend c hash cht active = none ↔ alloc = [] := by
  rw [preferred_iff hfill hchain, List.find?_eq_none]
  constructor
  · intro hnone
    rw [List.eq_nil_iff_forall_not_mem]
    intro i hi
    obtain ⟨h0, h1⟩ := (hchain.mem_iff i).mp (Or.inl hi)
    obtain ⟨b, rfl⟩ := Int.eq_ofNat_of_zero_le h0
    have hmem : b ∈ row c cht (hash % c.chtHeight) :=
      (row_perm hfill hash).mem_iff.mpr (List.mem_range.mpr (Int.ofNat_lt.mp h1))
    exact hnone b hmem (decide_eq_true hi)
  · rintro rfl b -
    simp

/-- **Filling and finding.**  The table is filled without leaving it, every backend has one place in
    every row, and for any hash and any active backends, one of these is found if there is one. -/
theorem preferred_active (c : Sizes) (memory old : ℕ → ℕ) :
    ∃ cht, chtFillCht c memory old = some cht ∧
      (∀ b < c.chtHeight, (row c cht b).Perm (List.range c.backendCapacity)) ∧
      ∀ active alloc free, ChainInv active.cells c.backendCapacity alloc free → ∀ hash,
        (chtFindPreferredAvailableBackend c hash cht active = none ↔ alloc = []) ∧
        ∀ b ∈ chtFindPreferredAvailableBackend c hash cht active, (b : Int) ∈ alloc := by
  obtain ⟨cht, hfill, hrows⟩ := chtFillCht_spec c memory old
  refine ⟨cht, hfill, hrows, fun active alloc free hchain hash =>
    ⟨preferred_none hfill hchain hash, fun b hb => ?_⟩⟩
  rw [preferred_iff hfill hchain] at hb
  have hfound := List.find?_some (Option.mem_def.mp hb)
  simpa using hfound

/-- The first one stays the first, if no other comes and it does not go. -/
theorem find?_stays {p q : ℕ → Bool} {xs : List ℕ} {b : ℕ} (hsub : ∀ x, q x = true → p x = true)
    (hfind : xs.find? p = some b) (hq : q b = true) : xs.find? q = some b := by
  obtain ⟨hb, as, bs, rfl, has⟩ := List.find?_eq_some_iff_append.mp hfind
  refine List.find?_eq_some_iff_append.mpr ⟨hq, as, bs, rfl, fun a ha => ?_⟩
  have hpa := has a ha
  simp only [Bool.not_eq_true'] at hpa ⊢
  cases hqa : q a with
  | false => rfl
  | true => rw [hsub a hqa] at hpa; cases hpa

/-- **Minimal disruption.**  When backends go, a hash keeps its backend if that stays; so when they
    come, a hash that gets another one gets a new one. -/
theorem hashes_stay (hfill : chtFillCht c memory old = some cht)
    (hchain : ChainInv active.cells c.backendCapacity alloc free)
    (hchain' : ChainInv active'.cells c.backendCapacity alloc' free') (hsub : alloc' ⊆ alloc)
    (hash : ℕ) :
    (∀ b ∈ chtFindPreferredAvailableBackend c hash cht active, (b : Int) ∈ alloc' →
      chtFindPreferredAvailableBackend c hash cht active' = some b) ∧
    (chtFindPreferredAvailableBackend c hash cht active ≠
        chtFindPreferredAvailableBackend c hash cht active' →
      ∃ b, chtFindPreferredAvailableBackend c hash cht active = some b ∧ (b : Int) ∉ alloc') := by
  have hstay : ∀ b ∈ chtFindPreferredAvailableBackend c hash cht active, (b : Int) ∈ alloc' →
      chtFindPreferredAvailableBackend c hash cht active' = some b := by
    intro b hb hmem
    rw [preferred_iff hfill hchain] at hb
    rw [preferred_iff hfill hchain']
    exact find?_stays (fun x hx => decide_eq_true (hsub (of_decide_eq_true hx))) hb
      (decide_eq_true hmem)
  refine ⟨hstay, fun hne => ?_⟩
  cases hold : chtFindPreferredAvailableBackend c hash cht active with
  | none =>
    have hnil := (preferred_none hfill hchain hash).mp hold
    subst hnil
    obtain rfl := List.subset_nil.mp hsub
    exact absurd (hold.trans ((preferred_none hfill hchain' hash).mpr rfl).symm) hne
  | some b => exact ⟨b, rfl, fun hmem => hne (hold.trans (hstay b hold hmem).symm)⟩

end Rows

/-- Five buckets and two backends. -/
def sampleSizes : Sizes :=
  ⟨5, 2, by decide, Nat.prime_five, by decide, by decide, by decide⟩

def sampleCht : ℕ → ℕ := (chtFillCht sampleSizes id id).getD id

/-- One backend is active, then the other one too. -/
def sampleChains : Option (DoubleChain × DoubleChain) := do
  let (one, _) ← dchainAllocateNewIndex (dchainAllocate ⟨fun _ => ⟨0, 0⟩, fun _ => 0⟩ 2) 7
  let (both, _) ← dchainAllocateNewIndex one 8
  some (one, both)

/-- The second backend goes; bucket 0 prefers the first. -/
theorem hashes_stay_sample : ∃ one both, sampleChains = some (one, both) ∧
    chtFindPreferredAvailableBackend sampleSizes 5 sampleCht both = some 0 ∧
    chtFindPreferredAvailableBackend sampleSizes 5 sampleCht one = some 0 := by
  obtain ⟨cht, hfill, -⟩ := chtFillCht_spec sampleSizes id id
  have hcht : chtFillCht sampleSizes id id = some sampleCht := by rw [sampleCht, hfill]; rfl
  have hinit : ChainInv (dchainImplInit (fun _ => ⟨0, 0⟩) 2) 2 [] [0, 1] :=
    init_spec _ (by decide)
  obtain ⟨cells, hone, hinv⟩ := allocate_spec hinit
  obtain ⟨cells', hboth, hinv'⟩ := allocate_spec hinv
  have hrow : row sampleSizes sampleCht 0 = [0, 1] := by decide +kernel
  have hchosen : chtFindPreferredAvailableBackend sampleSizes 5 sampleCht
      ⟨cells', Function.update (Function.update (fun _ => 0) 0 7) 1 8⟩ = some 0 := by
    rw [preferred_iff hcht hinv', show 5 % sampleSizes.chtHeight = 0 from rfl, hrow]
    rfl
  refine ⟨⟨cells, Function.update (fun _ => 0) 0 7⟩, _, ?_, hchosen, ?_⟩
  · simp [sampleChains, dchainAllocateNewIndex, dchainAllocate, hone, hboth]
  · exact (hashes_stay hcht hinv' hinv (by simp) 5).1 0 hchosen (by simp)

end QueueDpdk.Cht
