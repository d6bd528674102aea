import QueueDpdk.Lib.Bytes
import Mathlib.Algebra.BigOperators.Group.List.Basic
import Mathlib.Algebra.Order.Group.Nat
import Mathlib.Order.Basic

/-!
# Logs in circular memory

A log grows at its end and lives in a memory of `size` bytes, position `q` at address `q % size`.
What lies more than `size` bytes before the end has been overwritten.

* `cload`, `cstore` — the bytes from a position on, and the memory after some of them were replaced;
  `cstore_apply`, `cstore_apply_of_far` — what a write does to each position.
* `Starts`, `Boundary` — where the items of a log begin; `Starts.disjoint` — they do not overlap.
* `CircularLog` — every item still in memory begins with a header that has its length; `pop`, `push`
  and `frame` — dropping the oldest item, appending one, and writing past the headers.
-/

set_option autoImplicit false

namespace Lib

/-! ## Circular memory -/

/-- The bytes from a position on. -/
def cload (data : Bytes) (size a : ℕ) : Bytes := fun k => data ((a + k) % size)

/-- The steps from a position up to an address. -/
def cdist (size a x : ℕ) : ℕ := (x + size - a % size) % size

/-- The memory after `n` bytes from a position on were replaced. -/
def cstore (data : Bytes) (size a n : ℕ) (b : Bytes) : Bytes := fun x =>
  if cdist size a x < n then b (cdist size a x) else data x

section Memory

variable {data b : Bytes} {size a n k q : ℕ}

theorem cdist_add (hk : k < size) : cdist size a ((a + k) % size) = k := by
  have hr : a % size < size := Nat.mod_lt a (Nat.zero_lt_of_lt hk)
  unfold cdist
  rw [Nat.add_mod, Nat.mod_eq_of_lt hk]
  rcases Nat.lt_or_ge (a % size + k) size with hlt | hge
  · rw [Nat.mod_eq_of_lt hlt, show a % size + k + size - a % size = k + size by omega,
      Nat.add_mod_right, Nat.mod_eq_of_lt hk]
  · rw [Nat.mod_eq_sub_mod hge, Nat.mod_eq_of_lt (show a % size + k - size < size by omega),
      show a % size + k - size + size - a % size = k by omega, Nat.mod_eq_of_lt hk]

/-- What was written is there. -/
theorem cstore_apply (hk : k < n) (hn : n ≤ size) :
    cstore data size a n b ((a + k) % size) = b k := by
  rw [cstore, cdist_add (Nat.lt_of_lt_of_le hk hn), if_pos hk]

/-- Positions less than `size` bytes away and outside the range keep their bytes. -/
theorem cstore_apply_of_far (h : a + n ≤ q ∧ q < a + size ∨ q < a ∧ a + n ≤ q + size) :
    cstore data size a n b (q % size) = data (q % size) := by
  obtain ⟨d, hd, hn, hq⟩ : ∃ d, d < size ∧ n ≤ d ∧ q % size = (a + d) % size := by
    rcases h with ⟨h1, h2⟩ | ⟨h1, h2⟩
    · exact ⟨q - a, by omega, by omega, by rw [show a + (q - a) = q by omega]⟩
    · refine ⟨q + size - a, by omega, by omega, ?_⟩
      rw [show a + (q + size - a) = q + size by omega, Nat.add_mod_right]
  rw [hq, cstore, cdist_add hd, if_neg (by omega)]

theorem cload_cstore (hk : k < n) (hn : n ≤ size) :
    cload (cstore data size a n b) size a k = b k :=
  cstore_apply hk hn

theorem cload_cstore_of_far
    (h : a + n ≤ q + k ∧ q + k < a + size ∨ q + k < a ∧ a + n ≤ q + k + size) :
    cload (cstore data size a n b) size q k = cload data size q k :=
  cstore_apply_of_far h

/-- Only the first `n` bytes of what is written matter. -/
theorem cstore_congr {b' : Bytes} (h : ∀ k < n, b k = b' k) :
    cstore data size a n b = cstore data size a n b' := by
  funext x
  unfold cstore
  split
  · exact h _ ‹_›
  · rfl

/-- A position and its remainder are the same place. -/
theorem cload_mod {m : ℕ} (h : size ∣ m) : cload data size (a % m) = cload data size a := by
  funext k
  unfold cload
  rw [← Nat.mod_add_mod (a % m), Nat.mod_mod_of_dvd a h, Nat.mod_add_mod]

/-- The position that a write to its remainder reaches. -/
theorem cstore_mod {m : ℕ} (h : size ∣ m) :
    cstore data size (a % m) n b = cstore data size a n b := by
  unfold cstore cdist
  rw [Nat.mod_mod_of_dvd a h]

end Memory

/-! ## The items of a log -/

/-- An item of length `n` begins at `o`. -/
def Starts (log : List ℕ) (o n : ℕ) : Prop := ∃ a c, log = a ++ n :: c ∧ a.sum = o

/-- An item begins or the log ends at `p`. -/
def Boundary (log : List ℕ) (p : ℕ) : Prop := ∃ a c, log = a ++ c ∧ a.sum = p

section Items

variable {log : List ℕ} {o n o' n' m p : ℕ}

theorem Starts.mem (h : Starts log o n) : n ∈ log := by
  obtain ⟨a, c, rfl, -⟩ := h
  simp

theorem Starts.end_le (h : Starts log o n) : o + n ≤ log.sum := by
  obtain ⟨a, c, rfl, rfl⟩ := h
  simp

/-- An item that begins after another one begins after its end. -/
theorem Starts.disjoint (h : Starts log o n) (h' : Starts log o' n') (hlt : o < o') :
    o + n ≤ o' := by
  obtain ⟨a, c, hlog, rfl⟩ := h
  obtain ⟨a', c', hlog', rfl⟩ := h'
  rcases List.append_eq_append_iff.mp (hlog.symm.trans hlog') with ⟨t, rfl, ht⟩ | ⟨t, rfl, -⟩
  · cases t with
    | nil => simp at hlt
    | cons x t =>
      obtain ⟨rfl, -⟩ := List.cons.inj ht
      simp
  · simp at hlt

theorem Starts.unique (h : Starts log o n) (h' : Starts log o n') (hpos : ∀ m ∈ log, 0 < m) :
    n = n' := by
  obtain ⟨a, c, hlog, ha⟩ := h
  obtain ⟨a', c', hlog', ha'⟩ := h'
  have hn := hpos n (by simp [hlog])
  have hn' := hpos n' (by simp [hlog'])
  -- the longer of the two beginnings has the item of the other one in it
  rcases List.append_eq_append_iff.mp (hlog.symm.trans hlog') with ⟨t, rfl, ht⟩ | ⟨t, rfl, ht⟩
  · cases t with
    | nil => exact (List.cons.inj ht).1
    | cons x t =>
      obtain ⟨rfl, -⟩ := List.cons.inj ht
      simp at ha'
      omega
  · cases t with
    | nil => exact (List.cons.inj ht).1.symm
    | cons x t =>
      obtain ⟨rfl, -⟩ := List.cons.inj ht
      simp at ha
      omega

theorem Starts.snoc (h : Starts log o n) (m : ℕ) : Starts (log ++ [m]) o n := by
  obtain ⟨a, c, rfl, ho⟩ := h
  exact ⟨a, c ++ [m], by simp, ho⟩

theorem starts_last (log : List ℕ) (m : ℕ) : Starts (log ++ [m]) log.sum m := ⟨log, [], rfl, rfl⟩

/-- The items of a longer log. -/
theorem starts_snoc_iff : Starts (log ++ [m]) o n ↔ Starts log o n ∨ (o = log.sum ∧ n = m) := by
  constructor
  · rintro ⟨a, c, hlog, ho⟩
    rcases List.eq_nil_or_concat c with rfl | ⟨c, x, rfl⟩
    · obtain ⟨rfl, hm⟩ := List.append_inj' hlog rfl
      exact Or.inr ⟨ho.symm, (List.cons.inj hm).1.symm⟩
    · rw [List.concat_eq_append, ← List.cons_append, ← List.append_assoc] at hlog
      exact Or.inl ⟨a, c, (List.append_inj' hlog rfl).1, ho⟩
  · rintro (h | ⟨rfl, rfl⟩)
    · exact h.snoc m
    · exact starts_last log n

theorem boundary_zero (log : List ℕ) : Boundary log 0 := ⟨[], log, rfl, rfl⟩

theorem Boundary.le_sum (h : Boundary log p) : p ≤ log.sum := by
  obtain ⟨a, c, rfl, rfl⟩ := h
  simp

theorem Boundary.snoc (h : Boundary log p) (m : ℕ) : Boundary (log ++ [m]) p := by
  obtain ⟨a, c, rfl, ho⟩ := h
  exact ⟨a, c ++ [m], by simp, ho⟩

/-- Before the end of the log, an item begins and the next position of this kind is its end. -/
theorem Boundary.starts (h : Boundary log p) (hlt : p < log.sum) :
    ∃ n, Starts log p n ∧ Boundary log (p + n) := by
  obtain ⟨a, c, rfl, rfl⟩ := h
  cases c with
  | nil => simp at hlt
  | cons n c => exact ⟨n, ⟨a, c, rfl, rfl⟩, ⟨a ++ [n], c, by simp, by simp⟩⟩

end Items

/-! ## Headers -/

/-- A log whose items in memory begin with their lengths.  `hdr` reads a header of `w` bytes. -/
structure CircularLog (hdr : Bytes → ℕ) (w : ℕ) (data : Bytes) (size head : ℕ) (log : List ℕ) :
    Prop where
  width : ∀ n ∈ log, w ≤ n
  header : ∀ o n, Starts log o n → log.sum ≤ o + size → hdr (cload data size o) = n
  boundary : Boundary log head
  room : log.sum ≤ head + size

namespace CircularLog

variable {hdr : Bytes → ℕ} {w : ℕ} {data data' : Bytes} {size head n : ℕ} {log : List ℕ}

/-- The empty log. -/
theorem init (data : Bytes) (size : ℕ) : CircularLog hdr w data size 0 [] where
  width := by simp
  header := by
    rintro o n ⟨a, c, h, -⟩ -
    simp at h
  boundary := boundary_zero []
  room := Nat.zero_le _

/-- The oldest item is dropped. -/
theorem pop (h : CircularLog hdr w data size head log) (hlt : head < log.sum) :
    ∃ n, w ≤ n ∧ head + n ≤ log.sum ∧ hdr (cload data size head) = n ∧
      CircularLog hdr w data size (head + n) log := by
  obtain ⟨n, hn, hb⟩ := h.boundary.starts hlt
  refine ⟨n, h.width n hn.mem, hn.end_le, h.header head n hn h.room, h.width, h.header, hb, ?_⟩
  exact h.room.trans (by omega)

/-- Writing that keeps the headers. -/
theorem frame (h : CircularLog hdr w data size head log)
    (hsame : ∀ o n, Starts log o n → log.sum ≤ o + size →
      hdr (cload data' size o) = hdr (cload data size o)) :
    CircularLog hdr w data' size head log where
  width := h.width
  header o n hn hin := (hsame o n hn hin).trans (h.header o n hn hin)
  boundary := h.boundary
  room := h.room

variable (hloc : ∀ b b' : Bytes, (∀ k < w, b k = b' k) → hdr b = hdr b')

include hloc

/-- An item is appended where there is room for it. -/
theorem push (h : CircularLog hdr w data size head log) (hw : w ≤ n)
    (hroom : log.sum + n ≤ head + size) (hnew : hdr (cload data' size log.sum) = n)
    (hsame : ∀ q, q < log.sum → log.sum + n ≤ q + size → data' (q % size) = data (q % size)) :
    CircularLog hdr w data' size head (log ++ [n]) where
  width m hm := by
    rcases List.mem_append.mp hm with hm | hm
    · exact h.width m hm
    · rw [List.mem_singleton.mp hm]
      exact hw
  header o m hm hin := by
    rw [List.sum_append, List.sum_singleton] at hin
    rcases starts_snoc_iff.mp hm with hold | ⟨rfl, rfl⟩
    · have hend := hold.end_le
      have hwidth := h.width m hold.mem
      rw [← h.header o m hold (by omega)]
      exact hloc _ _ (fun k hk => hsame (o + k) (by omega) (by omega))
    · exact hnew
  boundary := h.boundary.snoc n
  room := by
    rw [List.sum_append, List.sum_singleton]
    exact hroom

end CircularLog

end Lib
