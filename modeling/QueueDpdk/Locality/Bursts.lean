import QueueDpdk.Lib.PyStr
import QueueDpdk.Lib.Runs

/-!
# Burst analysis (`locality/locality-bench.py`, `locality/analysis/locality.py`)

The input is the list of rows that `csv.reader` gives. `none` is a `ValueError`.

* `Count`, `Scan` — the loop that both scripts share; they differ in the fields they read from a
  row, in the key that ends a burst, and in the record they write for one.
* `Bench.burstAnalysis`, `Analysis.burstAnalysis` — `burst_analysis` of the two.
* `scanRows_eq`, `scan_groups` — the loop computes the maximal groups of rows with one key.
-/

set_option autoImplicit false

namespace QueueDpdk.Locality

open Lib

/-- The fields of a line. -/
abbrev Row := List (List Char)

/-- The tuple of a flow. -/
abbrev Flow := List (List Char)

/-- A record of `bursts`. -/
structure Burst where
  burst : ℤ
  coda : ℤ
  flussi : ℕ
  pacchettiConsecutivi : ℕ
  pacchettiTotali : ℕ
deriving DecidableEq, Repr, Inhabited

/-! ## The loop -/

/-- The variables that start again with every burst. -/
structure Count where
  flowsInBurst : Finset Flow
  packetsInBurst : ℕ
  prevFlow : Option Flow
  consecutiveCount : ℕ
  maxConsecutive : ℕ
deriving DecidableEq

def Count.init : Count := ⟨∅, 0, none, 0, 0⟩

/-- One more row of a burst. -/
def Count.add (c : Count) (flow : Flow) : Count :=
  let consecutiveCount := if some flow = c.prevFlow then c.consecutiveCount + 1 else 1
  { flowsInBurst := insert flow c.flowsInBurst
    packetsInBurst := c.packetsInBurst + 1
    prevFlow := some flow
    consecutiveCount := consecutiveCount
    maxConsecutive := max c.maxConsecutive consecutiveCount }

/-- The record of a burst. -/
def Count.record (c : Count) (burst coda : ℤ) : Burst :=
  { burst := burst
    coda := coda
    flussi := c.flowsInBurst.card
    pacchettiConsecutivi := max c.maxConsecutive c.consecutiveCount
    pacchettiTotali := c.packetsInBurst }

/-- What a script reads from a row, the key that ends a burst when it changes, and the record of a
    burst from the number of bursts before it and its last row. -/
structure Script (ι : Type) where
  read : Row → Option (Option ι)
  key : ι → ℤ
  flow : ι → Flow
  record : ℕ → ι → Count → Burst

/-- The state of the loop. The last row stands for the variables that are set from it. -/
structure Scan (ι : Type) where
  bursts : List Burst
  prev : Option ι
  count : Count

section Loop

variable {ι : Type} (S : Script ι)

def Scan.init : Scan ι := ⟨[], none, Count.init⟩

/-- A row that is not skipped. -/
def Scan.add (st : Scan ι) (x : ι) : Scan ι :=
  let st :=
    match st.prev with
    | some prev =>
      if S.key x ≠ S.key prev then
        { st with
          bursts := st.bursts ++ [S.record st.bursts.length prev st.count]
          count := Count.init }
      else st
    | none => st
  { st with prev := some x, count := st.count.add (S.flow x) }

/-- One row. -/
def Scan.row (st : Scan ι) (row : Row) : Option (Scan ι) :=
  match S.read row with
  | none => none
  | some none => some st
  | some (some x) => some (st.add S x)

/-- The last burst ends with the input. -/
def Scan.finish (st : Scan ι) : List Burst :=
  match st.prev with
  | some prev => st.bursts ++ [S.record st.bursts.length prev st.count]
  | none => st.bursts

def scanRows (rows : List Row) : Option (List Burst) :=
  (rows.foldlM (Scan.row S) Scan.init).map (Scan.finish S)

end Loop

/-! ## The two scripts -/

namespace Bench

/-- What `locality-bench.py` reads from a row. -/
structure Item where
  burstId : ℤ
  queue : ℤ
  flow : Flow
deriving DecidableEq, Repr

/-- A row is skipped if it is empty, does not begin with digits or is too short. -/
def read (row : Row) : Option (Option Item) :=
  match row with
  | [] => some none
  | first :: rest =>
    if strIsdigit (strip first) = false then some none
    else if row.length < 7 then some none
    else
      match pyInt first, pyInt (rest.getD 0 []) with
      | some burstId, some queue => some (some ⟨burstId, queue, row.drop 2⟩)
      | _, _ => none

def script : Script Item where
  read := read
  key := Item.burstId
  flow := Item.flow
  record _ last count := count.record last.burstId last.queue

/-- `burst_analysis` of `locality-bench.py`: the bursts it writes, and their number. -/
def burstAnalysis (rows : List Row) : Option (List Burst × ℕ) :=
  (scanRows script rows).map fun bursts => (bursts, bursts.length)

end Bench

namespace Analysis

/-- What `analysis/locality.py` reads from a row. -/
structure Item where
  queue : ℤ
  flow : Flow
deriving DecidableEq, Repr

def read (row : Row) : Option (Option Item) :=
  match row with
  | [] => some none
  | first :: rest =>
    if strIsdigit first = false then some none
    else
      match pyInt first with
      | some queue => some (some ⟨queue, rest⟩)
      | none => none

/-- It numbers the bursts itself, and a burst ends when the queue changes. -/
def script : Script Item where
  read := read
  key := Item.queue
  flow := Item.flow
  record number last count := count.record number last.queue

/-- `burst_analysis` of `analysis/locality.py`. -/
def burstAnalysis (rows : List Row) : Option (List Burst) := scanRows script rows

end Analysis

/-! ## What the loop computes -/

/-- The counts of some rows. -/
def countOf (flows : List Flow) : Count := flows.foldl Count.add Count.init

theorem countOf_snoc (flows : List Flow) (flow : Flow) :
    countOf (flows ++ [flow]) = (countOf flows).add flow := by
  simp [countOf]

/-- **The counts of a burst.** -/
theorem countOf_spec (flows : List Flow) :
    (countOf flows).flowsInBurst = flows.toFinset ∧
      (countOf flows).packetsInBurst = flows.length ∧
      (countOf flows).prevFlow = flows.getLast? ∧
      LongestRun flows (countOf flows).maxConsecutive ∧
      (countOf flows).consecutiveCount ≤ (countOf flows).maxConsecutive ∧
      ∀ last ∈ flows.getLast?, EndRun flows last (countOf flows).consecutiveCount := by
  induction flows using List.reverseRecOn with
  | nil => exact ⟨rfl, rfl, rfl, longestRun_nil [], Nat.le_refl 0, nofun⟩
  | append_singleton flows flow ih =>
    obtain ⟨hflows, htotal, hprev, hlongest, hle, hend⟩ := ih
    rw [countOf_snoc]
    have hrun : EndRun (flows ++ [flow]) flow ((countOf flows).add flow).consecutiveCount := by
      simp only [Count.add, hprev]
      split
      · rename_i hsame
        exact endRun_snoc_same (hend flow hsame.symm)
      · rename_i hnew
        exact endRun_snoc_new fun h => hnew h.symm
    refine ⟨?_, ?_, ?_, longestRun_snoc hlongest hrun, Nat.le_max_right _ _, ?_⟩
    · simp [Count.add, hflows]
    · simp [Count.add, htotal]
    · simp [Count.add]
    · intro last hlast
      rw [List.getLast?_concat] at hlast
      obtain rfl := Option.some.inj hlast
      exact hrun

/-- Other names for the flows change nothing but the set of them. -/
theorem countOf_map {f : Flow → Flow} (hf : Function.Injective f) (flows : List Flow) :
    countOf (flows.map f) =
      { countOf flows with
        flowsInBurst := (countOf flows).flowsInBurst.image f
        prevFlow := (countOf flows).prevFlow.map f } := by
  induction flows using List.reverseRecOn with
  | nil => rfl
  | append_singleton flows flow ih =>
    rw [List.map_append, List.map_singleton, countOf_snoc, countOf_snoc, ih]
    have hsame : some (f flow) = (countOf flows).prevFlow.map f ↔
        some flow = (countOf flows).prevFlow :=
      ⟨fun h => Option.map_injective hf h, fun h => by rw [← h, Option.map_some]⟩
    simp [Count.add, hsame, Finset.image_insert]

section Groups

variable {ι : Type} (S : Script ι)

/-- The rows that are not skipped. -/
def items (rows : List Row) : List ι := rows.filterMap (fun row => (S.read row).join)

/-- **The loop over the rows** fails at a row that cannot be read, and otherwise goes over the rows
    that are not skipped. -/
theorem foldlM_row (rows : List Row) (st : Scan ι) : rows.foldlM (Scan.row S) st =
    if ∀ row ∈ rows, (S.read row).isSome then some ((items S rows).foldl (Scan.add S) st)
    else none := by
  induction rows generalizing st with
  | nil => simp [items]
  | cons row rows ih =>
    rw [List.foldlM_cons, Scan.row]
    cases hread : S.read row with
    | none => simp [hread]
    | some x =>
      cases x with
      | none => simp [ih, items, hread]
      | some x => simp [ih, items, hread]

theorem scanRows_eq (rows : List Row) : scanRows S rows =
    if ∀ row ∈ rows, (S.read row).isSome then
      some (((items S rows).foldl (Scan.add S) Scan.init).finish S)
    else none := by
  rw [scanRows, foldlM_row]
  split <;> rfl

/-- The record of a group, the `k`-th one. -/
def groupRecord (k : ℕ) (g : List ι) : Burst :=
  match g.getLast? with
  | some last => S.record k last (countOf (g.map S.flow))
  | none => default

/-- The record of a group that is read from other items, if it does not depend on which one is the
    last. -/
theorem groupRecord_map (record : ℕ → Count → Burst) {β : Type} {ts : List β} {f : β → ι} {k : ℕ}
    (hne : ts ≠ []) (hrecord : ∀ k t c, S.record k (f t) c = record k c) :
    groupRecord S k (ts.map f) = record k (countOf (ts.map fun t => S.flow (f t))) := by
  have hlast : (ts.map f).getLast? = some (f (ts.getLast hne)) := by
    rw [List.getLast?_map, List.getLast?_eq_some_getLast hne, Option.map_some]
  simp [groupRecord, hlast, hrecord, Function.comp_def]

/-- The state after some rows: the finished groups and the last one. -/
def Scanned (xs : List ι) (st : Scan ι) : Prop :=
  ∃ done cur last, groups S.key xs = done ++ [cur] ∧ cur.getLast? = some last ∧
    xs.getLast? = some last ∧
    st = ⟨done.mapIdx (groupRecord S), some last, countOf (cur.map S.flow)⟩

variable {S}

theorem scanned_first (x : ι) : Scanned S [x] (Scan.init.add S x) :=
  ⟨[], [x], x, rfl, rfl, rfl, rfl⟩

/-- One row joins the last group or starts one. -/
theorem Scanned.add {xs : List ι} {st : Scan ι} (h : Scanned S xs st) (x : ι) :
    Scanned S (xs ++ [x]) (st.add S x) := by
  obtain ⟨done, cur, last, hgroups, hcur, hlast, rfl⟩ := h
  have hmem : cur ∈ groups S.key xs := hgroups ▸ List.mem_append_right _ List.mem_cons_self
  by_cases hkey : S.key x = S.key last
  · have hall : ∀ y ∈ cur, S.key y = S.key x := fun y hy => by
      rw [hkey]
      exact key_of_mem_groups hmem y hy last (List.mem_of_getLast? hcur)
    refine ⟨done, cur ++ [x], x, groups_snoc_same hgroups hall, by simp, by simp, ?_⟩
    simp [Scan.add, hkey, countOf_snoc]
  · have hnew : ∀ y ∈ xs.getLast?, S.key y ≠ S.key x := by
      intro y hy
      rw [hlast] at hy
      obtain rfl := Option.some.inj hy
      exact fun h => hkey h.symm
    refine ⟨done ++ [cur], [x], x, ?_, rfl, by simp, ?_⟩
    · rw [groups_snoc_new hnew, hgroups]
    · simp [Scan.add, hkey, groupRecord, hcur, countOf]

/-- **The loop computes the groups.** -/
theorem scan_groups (S : Script ι) (xs : List ι) :
    (xs.foldl (Scan.add S) Scan.init).finish S = (groups S.key xs).mapIdx (groupRecord S) := by
  have hrun : xs = [] ∨ Scanned S xs (xs.foldl (Scan.add S) Scan.init) := by
    induction xs using List.reverseRecOn with
    | nil => exact Or.inl rfl
    | append_singleton xs x ih =>
      right
      rw [List.foldl_append]
      rcases ih with rfl | ih
      · exact scanned_first x
      · exact ih.add x
  rcases hrun with rfl | ⟨done, cur, last, hgroups, hcur, -, hst⟩
  · rfl
  · simp [hst, Scan.finish, hgroups, groupRecord, hcur]

end Groups

end QueueDpdk.Locality
