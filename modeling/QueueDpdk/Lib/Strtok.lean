import Mathlib.Data.List.Basic
import Mathlib.Data.List.TakeWhile

/-!
# `strtok_r` of the C library

* `strtok` — the next field of a string, and what comes behind the delimiter that ends it.
* `fields` — the fields of a string; `strtok_eq` that `strtok` takes the first one.
* `strtokTimes_eq` — some calls in a row take the first fields, if there are that many.
-/

set_option autoImplicit false

namespace Lib

variable (dlm : Char → Bool)

/-- `strtok_r`: the next field, and where the next call continues. -/
def strtok (s : List Char) : Option (List Char × List Char) :=
  match s.dropWhile dlm with
  | [] => none
  | c :: t =>
    some (c :: t.takeWhile (fun d => !dlm d), (t.dropWhile (fun d => !dlm d)).tail)

/-- Calls in a row, which fail when the fields run out. -/
def strtokTimes : ℕ → List Char → Option (List (List Char))
  | 0, _ => some []
  | n + 1, s =>
    match strtok dlm s with
    | none => none
    | some (field, sp) => (strtokTimes n sp).map (field :: ·)

/-- The pieces of a string between delimiters that are not empty. -/
def fields (s : List Char) : List (List Char) := (s.splitOnP dlm).filter (· ≠ [])

variable {dlm}

@[simp] theorem fields_nil : fields dlm [] = [] := rfl

theorem fields_cons_delim {c : Char} {s : List Char} (hc : dlm c = true) :
    fields dlm (c :: s) = fields dlm s := by
  simp [fields, List.splitOnP_cons_eq_if_modifyHead, hc]

theorem fields_dropWhile (s : List Char) : fields dlm (s.dropWhile dlm) = fields dlm s := by
  induction s with
  | nil => rfl
  | cons c s ih =>
    cases hc : dlm c with
    | true => rw [List.dropWhile_cons_of_pos hc, ih, fields_cons_delim hc]
    | false => rw [List.dropWhile_cons_of_neg (by simp [hc])]

/-- A field goes on to the next delimiter. -/
theorem fields_append {field : List Char} (hne : field ≠ [])
    (hfield : ∀ c ∈ field, dlm c = false) (rest : List Char)
    (hrest : ∀ c ∈ rest.head?, dlm c = true) :
    fields dlm (field ++ rest) = field :: fields dlm rest.tail := by
  cases rest with
  | nil => simp [fields, List.splitOnP_eq_singleton hfield, hne]
  | cons c rest =>
    have hc : dlm c = true := hrest c rfl
    unfold fields
    rw [List.splitOnP_append_cons_of_forall_mem hfield c hc, List.filter_cons_of_pos (by simp [hne])]
    rfl

/-- The first field, and the string that has the others. -/
theorem strtok_eq (dlm : Char → Bool) (s : List Char) :
    (strtok dlm s = none ∧ fields dlm s = []) ∨
      ∃ field sp, strtok dlm s = some (field, sp) ∧ fields dlm s = field :: fields dlm sp := by
  rw [← fields_dropWhile s]
  unfold strtok
  cases hs : s.dropWhile dlm with
  | nil => exact Or.inl ⟨rfl, rfl⟩
  | cons c t =>
    have hc : dlm c = false := by
      have := List.head?_dropWhile_not dlm s
      simpa [hs] using this
    have hend : ∀ d ∈ (t.dropWhile (fun d => !dlm d)).head?, dlm d = true := by
      intro d hd
      have := List.head?_dropWhile_not (fun d => !dlm d) t
      rw [Option.mem_def.mp hd] at this
      simpa using this
    refine Or.inr ⟨_, _, rfl, ?_⟩
    have hfield : ∀ d ∈ c :: t.takeWhile (fun d => !dlm d), dlm d = false := by
      intro d hd
      rcases List.mem_cons.mp hd with rfl | hd
      · exact hc
      · simpa using List.mem_takeWhile_imp hd
    rw [← fields_append (List.cons_ne_nil _ _) hfield _ hend, List.cons_append,
      List.takeWhile_append_dropWhile]

/-- **Calls in a row take the first fields.** -/
theorem strtokTimes_eq (n : ℕ) (s : List Char) :
    strtokTimes dlm n s =
      if n ≤ (fields dlm s).length then some ((fields dlm s).take n) else none := by
  induction n generalizing s with
  | zero => simp [strtokTimes]
  | succ n ih =>
    rcases strtok_eq dlm s with ⟨hnone, hfields⟩ | ⟨field, sp, hsome, hfields⟩
    · simp [strtokTimes, hnone, hfields]
    · simp only [strtokTimes, hsome, ih, hfields, List.length_cons, Nat.add_le_add_iff_right,
        List.take_succ_cons]
      split <;> rfl

theorem strtokTimes_eq_some_iff {n : ℕ} {s : List Char} {taken : List (List Char)} :
    strtokTimes dlm n s = some taken ↔ taken <+: fields dlm s ∧ taken.length = n := by
  rw [strtokTimes_eq, List.prefix_iff_eq_take]
  constructor
  · intro h
    split at h
    · rename_i hle
      obtain rfl := Option.some.inj h
      simp [hle]
    · cases h
  · rintro ⟨htake, rfl⟩
    have hle : taken.length ≤ (fields dlm s).length := by
      have := congrArg List.length htake
      simp at this
      omega
    rw [if_pos hle, ← htake]

end Lib
