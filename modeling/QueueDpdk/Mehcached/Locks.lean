import Mathlib.Algebra.Group.Nat.Defs
import QueueDpdk.Lib.Machine

/-!
# Locks and versions (`ported-mica/table.c`, `ported-mica/alloc_pool.c`)

What several threads do with one table in `concurrent_access_mode` 2, access by access: a thread
locks a bucket by making its version odd, and inside of that the pool; a reader takes the version of
a bucket before and after it reads, and reads again if they differ.  The accesses to the versions,
the lock and the item vectors come one after the other, in any order of the threads.

* `Pc`, `next` — where a thread is, and its next access; `table` — the threads on one table.
* `Inv` — a version is odd just in case a thread is in the bucket; `inv_final`.
* `exclusive` — no two threads in a bucket or in the pool, and no assertion fails.
* `read_consistent` — **what a reader has seen** is what the bucket has, unless its version has come
  round.
* `can_finish` — **no deadlock**.
-/

set_option autoImplicit false

namespace QueueDpdk.Mehcached.Locks

open Lib

/-- The versions and item vectors of the buckets, and `alloc->lock`. -/
structure Shared where
  version : ℕ → UInt32
  lock : UInt32
  itemVecs : ℕ → ℕ → ℕ

def Shared.setVersion (sh : Shared) (b : ℕ) (v : UInt32) : Shared :=
  { sh with version := Function.update sh.version b v }

def Shared.setItemVec (sh : Shared) (b i v : ℕ) : Shared :=
  { sh with itemVecs := Function.update sh.itemVecs b (Function.update (sh.itemVecs b) i v) }

/-- Where a thread is: in `mehcached_lock_bucket`, in the bucket, in `mehcached_pool_lock` or
    `mehcached_pool_unlock`, in `mehcached_unlock_bucket`, or between `mehcached_read_version_begin`
    and `mehcached_read_version_end`, with what it has read.  `aborted` is a failed assertion. -/
inductive Pc
  | idle
  | lockLoad (b : ℕ)
  | lockCas (b : ℕ) (v : UInt32)
  | held (b : ℕ)
  | poolCas (b : ℕ)
  | poolHeld (b : ℕ)
  | poolStore (b : ℕ)
  | unlockLoad (b : ℕ)
  | unlockStore (b : ℕ) (v : UInt32)
  | beginLoad (b : ℕ)
  | reading (b : ℕ) (v : UInt32) (seen : List (ℕ × ℕ))
  | done (b : ℕ) (seen : List (ℕ × ℕ))
  | aborted

/-- What a thread does: begin an operation on a bucket, write or read an item vector, lock the pool,
    or go on. -/
inductive Act
  | lock (b : ℕ)
  | read (b : ℕ)
  | write (i v : ℕ)
  | lockPool
  | look (i : ℕ)
  | go

/-- One access, and the bucket whose version it stores. -/
def next (sh : Shared) : Pc → Act → Shared × Pc × Option ℕ
  | .idle, .lock b => (sh, .lockLoad b, none)
  | .idle, .read b => (sh, .beginLoad b, none)
  | .lockLoad b, .go => (sh, .lockCas b (sh.version b &&& ~~~1), none)
  | .lockCas b v, .go =>
    if sh.version b = v then (sh.setVersion b (v ||| 1), .held b, some b)
    else (sh, .lockLoad b, none)
  | .held b, .write i v => (sh.setItemVec b i v, .held b, none)
  | .held b, .lockPool => (sh, .poolCas b, none)
  | .held b, .go => (sh, if sh.version b &&& 1 = 1 then .unlockLoad b else .aborted, none)
  | .poolCas b, .go =>
    if sh.lock = 0 then ({ sh with lock := 1 }, .poolHeld b, none) else (sh, .poolCas b, none)
  | .poolHeld b, .write i v => (sh.setItemVec b i v, .poolHeld b, none)
  | .poolHeld b, .go => (sh, if sh.lock &&& 1 = 1 then .poolStore b else .aborted, none)
  | .poolStore b, .go => ({ sh with lock := 0 }, .held b, none)
  | .unlockLoad b, .go => (sh, .unlockStore b (sh.version b), none)
  | .unlockStore b v, .go => (sh.setVersion b (v + 1), .idle, some b)
  | .beginLoad b, .go =>
    (sh, if sh.version b &&& 1 ≠ 0 then .beginLoad b else .reading b (sh.version b) [], none)
  | .reading b v seen, .look i => (sh, .reading b v ((i, sh.itemVecs b i) :: seen), none)
  | .reading b v seen, .go =>
    (sh, if v ≠ sh.version b then .beginLoad b else .done b seen, none)
  | .done _ _, .go => (sh, .idle, none)
  | pc, _ => (sh, pc, none)

/-- The bucket that a thread has locked. -/
def Pc.bucket : Pc → Option ℕ
  | .held b => some b
  | .poolCas b => some b
  | .poolHeld b => some b
  | .poolStore b => some b
  | .unlockLoad b => some b
  | .unlockStore b _ => some b
  | _ => none

/-- A thread has locked the pool. -/
def Pc.inPool : Pc → Bool
  | .poolHeld _ => true
  | .poolStore _ => true
  | _ => false

section Threads

variable {Tid : Type}

structure State (Tid : Type) where
  shared : Shared
  pc : Tid → Pc

/-- Threads on one table. -/
def table [DecidableEq Tid] : Machine (State Tid) (Tid × Act) (Option ℕ) where
  step s x :=
    let r := next s.shared (s.pc x.1) x.2
    (⟨r.1, Function.update s.pc x.1 r.2.1⟩, r.2.2)

/-- No thread is in an operation, and all versions are even. -/
structure Start (s : State Tid) : Prop where
  idle : ∀ i, s.pc i = .idle
  even : ∀ b, s.shared.version b &&& 1 = 0
  free : s.shared.lock = 0

/-! ## Versions -/

theorem and_one_eq_zero_iff (v : UInt32) : v &&& 1 = 0 ↔ v.toNat % 2 = 0 := by
  rw [← UInt32.toNat_inj, UInt32.toNat_and, show (1 : UInt32).toNat = 1 from rfl,
    Nat.and_one_is_mod]
  rfl

theorem and_one_eq_one_iff (v : UInt32) : v &&& 1 = 1 ↔ v.toNat % 2 = 1 := by
  rw [← UInt32.toNat_inj, UInt32.toNat_and, show (1 : UInt32).toNat = 1 from rfl,
    Nat.and_one_is_mod]

theorem and_not_one (v : UInt32) : v &&& ~~~1 &&& 1 = 0 := by
  rw [UInt32.and_assoc, show (~~~1 &&& 1 : UInt32) = 0 by decide, UInt32.and_zero]

/-- A version that is made odd goes up by one. -/
theorem or_one {v : UInt32} (h : v &&& 1 = 0) : v ||| 1 = v + 1 := by
  rw [and_one_eq_zero_iff] at h
  have hlt := v.toNat_lt
  rw [← UInt32.toNat_inj, UInt32.toNat_or, UInt32.toNat_add, show (1 : UInt32).toNat = 1 from rfl,
    Nat.mod_eq_of_lt (by omega)]
  obtain ⟨k, hk⟩ : ∃ k, v.toNat = k <<< 1 := ⟨v.toNat / 2, by rw [Nat.shiftLeft_eq]; omega⟩
  rw [hk, Nat.shiftLeft_add_eq_or_of_lt (by decide)]

theorem succ_odd {v : UInt32} (h : v &&& 1 = 0) : v + 1 &&& 1 = 1 := by
  rw [and_one_eq_zero_iff] at h
  rw [and_one_eq_one_iff, UInt32.toNat_add, show (1 : UInt32).toNat = 1 from rfl]
  omega

theorem succ_even {v : UInt32} (h : v &&& 1 = 1) : v + 1 &&& 1 = 0 := by
  rw [and_one_eq_one_iff] at h
  rw [and_one_eq_zero_iff, UInt32.toNat_add, show (1 : UInt32).toNat = 1 from rfl]
  omega

theorem even_iff_not_odd (v : UInt32) : v &&& 1 = 0 ↔ ¬v &&& 1 = 1 := by
  rw [and_one_eq_zero_iff, and_one_eq_one_iff]
  omega

/-! ## What an access does -/

/-- The accesses by what they change. -/
inductive Effect (sh : Shared) (p : Pc) : Shared → Pc → Option ℕ → Prop
  | quiet (itemVecs : ℕ → ℕ → ℕ) (p' : Pc) (bucket : p'.bucket = p.bucket)
      (inPool : p'.inPool = p.inPool)
      (outside : ∀ b, p.bucket ≠ some b → itemVecs b = sh.itemVecs b)
      (cas : ∀ b v, p' = .lockCas b v → p = p' ∨ v &&& 1 = 0)
      (store : ∀ b v, p' = .unlockStore b v → p = p' ∨ sh.version b = v)
      (fails : p' = .aborted → p = .aborted) :
      Effect sh p { sh with itemVecs := itemVecs } p' none
  | fail (b : ℕ) (bucket : p.bucket = some b)
      (failed : ¬sh.version b &&& 1 = 1 ∨ p.inPool = true ∧ ¬sh.lock &&& 1 = 1) :
      Effect sh p sh .aborted none
  | lock (b : ℕ) (here : p = .lockCas b (sh.version b)) :
      Effect sh p (sh.setVersion b (sh.version b ||| 1)) (.held b) (some b)
  | unlock (b : ℕ) (v : UInt32) (here : p = .unlockStore b v) :
      Effect sh p (sh.setVersion b (v + 1)) .idle (some b)
  | lockPool (b : ℕ) (here : p = .poolCas b) (free : sh.lock = 0) :
      Effect sh p { sh with lock := 1 } (.poolHeld b) none
  | unlockPool (b : ℕ) (here : p = .poolStore b) :
      Effect sh p { sh with lock := 0 } (.held b) none

/-- An access that changes nothing. -/
theorem Effect.silent {sh : Shared} {p p' : Pc} (bucket : p'.bucket = p.bucket)
    (inPool : p'.inPool = p.inPool) (cas : ∀ b v, p' = .lockCas b v → p = p' ∨ v &&& 1 = 0)
    (store : ∀ b v, p' = .unlockStore b v → p = p' ∨ sh.version b = v)
    (fails : p' = .aborted → p = .aborted) : Effect sh p sh p' none :=
  .quiet sh.itemVecs p' bucket inPool (fun _ _ => rfl) cas store fails

/-- A write to the bucket that the thread has locked. -/
theorem Effect.written (sh : Shared) (p : Pc) (b i v : ℕ) (bucket : p.bucket = some b) :
    Effect sh p (sh.setItemVec b i v) p none := by
  refine .quiet _ p rfl rfl (fun b' hne => ?_) (fun _ _ _ => Or.inl rfl) (fun _ _ _ => Or.inl rfl) id
  exact Function.update_of_ne (fun heq => hne (by rw [bucket, heq])) _ _

theorem next_effect (sh : Shared) (p : Pc) (a : Act) :
    Effect sh p (next sh p a).1 (next sh p a).2.1 (next sh p a).2.2 := by
  unfold next
  split
  case h_1 => exact Effect.silent rfl rfl (by simp) (by simp) (by simp)
  case h_2 => exact Effect.silent rfl rfl (by simp) (by simp) (by simp)
  case h_3 b =>
    refine Effect.silent rfl rfl ?_ (by simp) (by simp)
    intro b' v' h
    cases h
    exact Or.inr (and_not_one _)
  case h_4 b v =>
    split
    · rename_i heq
      subst heq
      exact .lock b rfl
    · exact Effect.silent rfl rfl (by simp) (by simp) (by simp)
  case h_5 b i v => exact Effect.written sh (.held b) b i v rfl
  case h_6 => exact Effect.silent rfl rfl (by simp) (by simp) (by simp)
  case h_7 b =>
    by_cases hodd : sh.version b &&& 1 = 1
    · rw [if_pos hodd]
      exact Effect.silent rfl rfl (by simp) (by simp) (by simp)
    · rw [if_neg hodd]
      exact .fail b rfl (Or.inl hodd)
  case h_8 b =>
    split
    · exact .lockPool b rfl ‹_›
    · exact Effect.silent rfl rfl (by simp) (by simp) (by simp)
  case h_9 b i v => exact Effect.written sh (.poolHeld b) b i v rfl
  case h_10 b =>
    by_cases hodd : sh.lock &&& 1 = 1
    · rw [if_pos hodd]
      exact Effect.silent rfl rfl (by simp) (by simp) (by simp)
    · rw [if_neg hodd]
      exact .fail b rfl (Or.inr ⟨rfl, hodd⟩)
  case h_11 b => exact .unlockPool b rfl
  case h_12 b =>
    refine Effect.silent rfl rfl (by simp) ?_ (by simp)
    intro b' v' h
    cases h
    exact Or.inr rfl
  case h_13 b v => exact .unlock b v rfl
  case h_14 b =>
    split
    · exact Effect.silent rfl rfl (by simp) (by simp) (by simp)
    · exact Effect.silent rfl rfl (by simp) (by simp) (by simp)
  case h_15 => exact Effect.silent rfl rfl (by simp) (by simp) (by simp)
  case h_16 b v seen =>
    split
    · exact Effect.silent rfl rfl (by simp) (by simp) (by simp)
    · exact Effect.silent rfl rfl (by simp) (by simp) (by simp)
  case h_17 => exact Effect.silent rfl rfl (by simp) (by simp) (by simp)
  case h_18 =>
    exact Effect.silent rfl rfl (fun _ _ _ => Or.inl rfl) (fun _ _ _ => Or.inl rfl) id

/-! ## The invariant -/

/-- **The invariant.** -/
structure Inv (s : State Tid) : Prop where
  bucket : ∀ i j b, (s.pc i).bucket = some b → (s.pc j).bucket = some b → i = j
  odd : ∀ b, s.shared.version b &&& 1 = 1 ↔ ∃ i, (s.pc i).bucket = some b
  pool : ∀ i j, (s.pc i).inPool = true → (s.pc j).inPool = true → i = j
  locked : s.shared.lock &&& 1 = 1 ↔ ∃ i, (s.pc i).inPool = true
  binary : s.shared.lock = 0 ∨ s.shared.lock = 1
  cas : ∀ i b v, s.pc i = .lockCas b v → v &&& 1 = 0
  store : ∀ i b v, s.pc i = .unlockStore b v → s.shared.version b = v
  fine : ∀ i, s.pc i ≠ .aborted

theorem Start.inv {s : State Tid} (h : Start s) : Inv s where
  bucket i j b hi := by simp [h.idle i, Pc.bucket] at hi
  odd b := by
    have heven := (even_iff_not_odd _).mp (h.even b)
    simp [heven, h.idle, Pc.bucket]
  pool i j hi := by simp [h.idle i, Pc.inPool] at hi
  locked := by simp [h.free, h.idle, Pc.inPool]
  binary := Or.inl h.free
  cas i b v hi := by simp [h.idle i] at hi
  store i b v hi := by simp [h.idle i] at hi
  fine i := by simp [h.idle i]

section Step

variable [DecidableEq Tid] {s : State Tid} {i : Tid} {p : Pc}

theorem update_bucket (h : p.bucket = (s.pc i).bucket) (j : Tid) :
    (Function.update s.pc i p j).bucket = (s.pc j).bucket := by
  by_cases hji : j = i
  · subst hji
    rw [Function.update_self, h]
  · rw [Function.update_of_ne hji]

theorem update_inPool (h : p.inPool = (s.pc i).inPool) (j : Tid) :
    (Function.update s.pc i p j).inPool = (s.pc j).inPool := by
  by_cases hji : j = i
  · subst hji
    rw [Function.update_self, h]
  · rw [Function.update_of_ne hji]

/-- A thread that is where only the moving one or an old one can be. -/
theorem update_eq {q : Pc} {j : Tid} (h : Function.update s.pc i p j = q) :
    j = i ∧ p = q ∨ j ≠ i ∧ s.pc j = q := by
  by_cases hji : j = i
  · subst hji
    rw [Function.update_self] at h
    exact Or.inl ⟨rfl, h⟩
  · rw [Function.update_of_ne hji] at h
    exact Or.inr ⟨hji, h⟩

/-- A quiet access keeps the invariant. -/
theorem Inv.quiet (h : Inv s) (itemVecs : ℕ → ℕ → ℕ) (hbucket : p.bucket = (s.pc i).bucket)
    (hpool : p.inPool = (s.pc i).inPool)
    (hcas : ∀ b v, p = .lockCas b v → s.pc i = p ∨ v &&& 1 = 0)
    (hstore : ∀ b v, p = .unlockStore b v → s.pc i = p ∨ s.shared.version b = v)
    (hfails : p = .aborted → s.pc i = .aborted) :
    Inv ⟨{ s.shared with itemVecs := itemVecs }, Function.update s.pc i p⟩ where
  bucket j k b hj hk := by
    rw [update_bucket hbucket] at hj hk
    exact h.bucket j k b hj hk
  odd b := by
    simp only [update_bucket hbucket]
    exact h.odd b
  pool j k hj hk := by
    rw [update_inPool hpool] at hj hk
    exact h.pool j k hj hk
  locked := by
    simp only [update_inPool hpool]
    exact h.locked
  binary := h.binary
  cas j b v hj := by
    rcases update_eq hj with ⟨-, rfl⟩ | ⟨-, hold⟩
    · exact (hcas b v rfl).elim (fun hsame => h.cas i b v hsame) id
    · exact h.cas j b v hold
  store j b v hj := by
    rcases update_eq hj with ⟨-, rfl⟩ | ⟨-, hold⟩
    · exact (hstore b v rfl).elim (fun hsame => h.store i b v hsame) id
    · exact h.store j b v hold
  fine j hj := by
    rcases update_eq hj with ⟨-, rfl⟩ | ⟨-, hold⟩
    · exact h.fine i (hfails rfl)
    · exact h.fine j hold

/-- A thread locks a bucket that no other one has. -/
theorem Inv.lock {b : ℕ} (h : Inv s) (hhere : s.pc i = .lockCas b (s.shared.version b)) :
    Inv ⟨s.shared.setVersion b (s.shared.version b ||| 1), Function.update s.pc i (.held b)⟩ := by
  have heven := h.cas i b _ hhere
  have hfree : ∀ j, (s.pc j).bucket ≠ some b := fun j hj =>
    (even_iff_not_odd _).mp heven ((h.odd b).mpr ⟨j, hj⟩)
  have hother : ∀ j b', b' ≠ b → ((Function.update s.pc i (.held b) j).bucket = some b' ↔
      (s.pc j).bucket = some b') := by
    intro j b' hne
    by_cases hji : j = i
    · subst hji
      simp [hhere, Pc.bucket, hne.symm]
    · rw [Function.update_of_ne hji]
  have hpool : Pc.inPool (.held b) = (s.pc i).inPool := by rw [hhere]; rfl
  refine ⟨fun j k b' hj hk => ?_, fun b' => ?_, fun j k hj hk => ?_, ?_, h.binary,
    fun j b' v hj => ?_, fun j b' v hj => ?_, fun j hj => ?_⟩
  · by_cases hb : b' = b
    · subst hb
      have honly : ∀ j, (Function.update s.pc i (.held b') j).bucket = some b' → j = i := by
        intro j hj
        by_contra hji
        rw [Function.update_of_ne hji] at hj
        exact hfree j hj
      rw [honly j hj, honly k hk]
    · exact h.bucket j k b' ((hother j b' hb).mp hj) ((hother k b' hb).mp hk)
  · by_cases hb : b' = b
    · subst hb
      refine iff_of_true ?_ ⟨i, by simp [Pc.bucket]⟩
      show Function.update s.shared.version b' _ b' &&& 1 = 1
      rw [Function.update_self, or_one heven]
      exact succ_odd heven
    · show Function.update s.shared.version b _ b' &&& 1 = 1 ↔ _
      rw [Function.update_of_ne hb]
      simp only [hother _ b' hb]
      exact h.odd b'
  · rw [update_inPool hpool] at hj hk
    exact h.pool j k hj hk
  · simp only [update_inPool hpool]
    exact h.locked
  · rcases update_eq hj with ⟨-, hno⟩ | ⟨-, hold⟩
    · cases hno
    · exact h.cas j b' v hold
  · rcases update_eq hj with ⟨-, hno⟩ | ⟨-, hold⟩
    · cases hno
    · have hne : b' ≠ b := by
        rintro rfl
        exact hfree j (by rw [hold]; rfl)
      show Function.update s.shared.version b _ b' = v
      rw [Function.update_of_ne hne]
      exact h.store j b' v hold
  · rcases update_eq hj with ⟨-, hno⟩ | ⟨-, hold⟩
    · cases hno
    · exact h.fine j hold

/-- A thread unlocks its bucket. -/
theorem Inv.unlock {b : ℕ} {v : UInt32} (h : Inv s) (hhere : s.pc i = .unlockStore b v) :
    Inv ⟨s.shared.setVersion b (v + 1), Function.update s.pc i .idle⟩ := by
  have hmine : (s.pc i).bucket = some b := by rw [hhere]; rfl
  have hv : s.shared.version b = v := h.store i b v hhere
  have hodd := (h.odd b).mpr ⟨i, hmine⟩
  rw [hv] at hodd
  have hother : ∀ j b', (Function.update s.pc i .idle j).bucket = some b' ↔
      j ≠ i ∧ (s.pc j).bucket = some b' := by
    intro j b'
    by_cases hji : j = i
    · subst hji
      simp [Pc.bucket]
    · simp [hji]
  have hnone : ∀ j, ¬(Function.update s.pc i .idle j).bucket = some b := by
    intro j hj
    obtain ⟨hne, hold⟩ := (hother j b).mp hj
    exact hne (h.bucket j i b hold hmine)
  have hpool : Pc.inPool .idle = (s.pc i).inPool := by rw [hhere]; rfl
  refine ⟨fun j k b' hj hk => ?_, fun b' => ?_, fun j k hj hk => ?_, ?_, h.binary,
    fun j b' w hj => ?_, fun j b' w hj => ?_, fun j hj => ?_⟩
  · exact h.bucket j k b' ((hother j b').mp hj).2 ((hother k b').mp hk).2
  · by_cases hb : b' = b
    · subst hb
      refine iff_of_false ?_ (fun ⟨j, hj⟩ => hnone j hj)
      show ¬Function.update s.shared.version b' _ b' &&& 1 = 1
      rw [Function.update_self]
      exact (even_iff_not_odd _).mp (succ_even hodd)
    · show Function.update s.shared.version b _ b' &&& 1 = 1 ↔ _
      rw [Function.update_of_ne hb, h.odd b']
      constructor
      · rintro ⟨j, hj⟩
        refine ⟨j, (hother j b').mpr ⟨?_, hj⟩⟩
        rintro rfl
        exact hb (Option.some.inj (hj.symm.trans hmine))
      · rintro ⟨j, hj⟩
        exact ⟨j, ((hother j b').mp hj).2⟩
  · rw [update_inPool hpool] at hj hk
    exact h.pool j k hj hk
  · simp only [update_inPool hpool]
    exact h.locked
  · rcases update_eq hj with ⟨-, hno⟩ | ⟨-, hold⟩
    · cases hno
    · exact h.cas j b' w hold
  · rcases update_eq hj with ⟨-, hno⟩ | ⟨hne, hold⟩
    · cases hno
    · have hb : b' ≠ b := by
        rintro rfl
        exact hne (h.bucket j i b' (by rw [hold]; rfl) hmine)
      show Function.update s.shared.version b _ b' = w
      rw [Function.update_of_ne hb]
      exact h.store j b' w hold
  · rcases update_eq hj with ⟨-, hno⟩ | ⟨-, hold⟩
    · cases hno
    · exact h.fine j hold

/-- A thread locks the pool, or unlocks it. -/
theorem Inv.setLock {lock : UInt32} (h : Inv s) (hbucket : p.bucket = (s.pc i).bucket)
    (hcas : ∀ b v, p ≠ .lockCas b v) (hstore : ∀ b v, p ≠ .unlockStore b v) (hfine : p ≠ .aborted)
    (hpool : ∀ j, j ≠ i → (s.pc j).inPool = false)
    (hlock : lock = 0 ∧ p.inPool = false ∨ lock = 1 ∧ p.inPool = true) :
    Inv ⟨{ s.shared with lock := lock }, Function.update s.pc i p⟩ := by
  have hin : ∀ j, (Function.update s.pc i p j).inPool = true → j = i := by
    intro j hj
    by_contra hji
    rw [Function.update_of_ne hji, hpool j hji] at hj
    exact Bool.false_ne_true hj
  refine ⟨fun j k b hj hk => ?_, fun b => ?_, fun j k hj hk => ?_, ?_, ?_, fun j b v hj => ?_,
    fun j b v hj => ?_, fun j hj => ?_⟩
  · rw [update_bucket hbucket] at hj hk
    exact h.bucket j k b hj hk
  · simp only [update_bucket hbucket]
    exact h.odd b
  · rw [hin j hj, hin k hk]
  · rcases hlock with ⟨rfl, hno⟩ | ⟨rfl, hyes⟩
    · refine iff_of_false (by simp) ?_
      rintro ⟨j, hj⟩
      obtain rfl := hin j hj
      simp [hno] at hj
    · exact iff_of_true (by simp) ⟨i, by simp [hyes]⟩
  · exact hlock.imp And.left And.left
  · rcases update_eq hj with ⟨-, hno⟩ | ⟨-, hold⟩
    · exact absurd hno (hcas b v)
    · exact h.cas j b v hold
  · rcases update_eq hj with ⟨-, hno⟩ | ⟨-, hold⟩
    · exact absurd hno (hstore b v)
    · exact h.store j b v hold
  · rcases update_eq hj with ⟨-, hno⟩ | ⟨-, hold⟩
    · exact absurd hno hfine
    · exact h.fine j hold

/-- **Every access keeps the invariant.** -/
theorem inv_step (s : State Tid) (x : Tid × Act) (h : Inv s) : Inv (table.step s x).1 := by
  obtain ⟨i, a⟩ := x
  have he := next_effect s.shared (s.pc i) a
  show Inv ⟨(next s.shared (s.pc i) a).1, Function.update s.pc i (next s.shared (s.pc i) a).2.1⟩
  generalize (next s.shared (s.pc i) a).2.1 = p' at he ⊢
  generalize (next s.shared (s.pc i) a).1 = sh' at he ⊢
  generalize (next s.shared (s.pc i) a).2.2 = e at he
  cases he with
  | quiet itemVecs _ hbucket hpool _ hcas hstore hfails =>
    exact h.quiet itemVecs hbucket hpool hcas hstore hfails
  | fail b hb hfailed =>
    rcases hfailed with heven | ⟨hin, hfree⟩
    · exact absurd ((h.odd b).mpr ⟨i, hb⟩) heven
    · exact absurd (h.locked.mpr ⟨i, hin⟩) hfree
  | lock b hhere => exact h.lock hhere
  | unlock b v hhere => exact h.unlock hhere
  | lockPool b hhere hfree =>
    have hnone : ∀ j, (s.pc j).inPool = false := by
      intro j
      by_contra hj
      have hlocked := h.locked.mpr ⟨j, by simpa using hj⟩
      rw [hfree] at hlocked
      exact absurd hlocked (by decide)
    exact h.setLock (by rw [hhere]; rfl) (by simp) (by simp) (by simp) (fun j _ => hnone j)
      (Or.inr ⟨rfl, rfl⟩)
  | unlockPool b hhere =>
    have hmine : (s.pc i).inPool = true := by rw [hhere]; rfl
    refine h.setLock (by rw [hhere]; rfl) (by simp) (by simp) (by simp) (fun j hji => ?_)
      (Or.inl ⟨rfl, rfl⟩)
    by_contra hj
    exact hji (h.pool j i (by simpa using hj) hmine)

theorem inv_final (xs : List (Tid × Act)) (h : Inv s) : Inv (table.final s xs) :=
  table.final_inv inv_step xs h

/-- **Mutual exclusion.**  In every state that threads reach in any order of their accesses, no two
    of them are in one bucket or in the pool, and no assertion has failed. -/
theorem exclusive (h : Start s) (xs : List (Tid × Act)) :
    (∀ i j b, ((table.final s xs).pc i).bucket = some b →
      ((table.final s xs).pc j).bucket = some b → i = j) ∧
    (∀ i j, ((table.final s xs).pc i).inPool = true →
      ((table.final s xs).pc j).inPool = true → i = j) ∧
    ∀ i, (table.final s xs).pc i ≠ .aborted := by
  have hinv := inv_final xs h.inv
  exact ⟨hinv.bucket, hinv.pool, hinv.fine⟩

/-- A table that nobody uses yet. -/
def fresh (Tid : Type) : State Tid := ⟨⟨fun _ => 0, 0, fun _ _ => 0⟩, fun _ => .idle⟩

theorem fresh_start (Tid : Type) : Start (fresh Tid) := ⟨fun _ => rfl, fun _ => by simp [fresh], rfl⟩

/-- Two threads lock one bucket, and the first gets it. -/
def twoLock : State Bool :=
  table.final (fresh Bool) [(true, .lock 7), (false, .lock 7), (true, .go), (true, .go)]

theorem exclusive_sample : (twoLock.pc true).bucket = some 7 ∧ (twoLock.pc false).bucket ≠ some 7 :=
  ⟨rfl, fun h => absurd ((exclusive (fresh_start Bool) _).1 true false 7 rfl h) (by simp)⟩

/-! ## Readers -/

/-- An access to a bucket stores its version, one higher, or leaves the version alone; and the item
    vectors too, if no thread is in the bucket. -/
theorem step_version (h : Inv s) (x : Tid × Act) (b : ℕ) :
    (table.step s x).1.shared.version b = s.shared.version b +
        (if (table.step s x).2 = some b then 1 else 0) ∧
      (s.shared.version b &&& 1 = 0 →
        (table.step s x).1.shared.itemVecs b = s.shared.itemVecs b) := by
  obtain ⟨i, a⟩ := x
  have he := next_effect s.shared (s.pc i) a
  show (next s.shared (s.pc i) a).1.version b = s.shared.version b +
      (if (next s.shared (s.pc i) a).2.2 = some b then 1 else 0) ∧
    (_ → (next s.shared (s.pc i) a).1.itemVecs b = s.shared.itemVecs b)
  generalize (next s.shared (s.pc i) a).2.1 = p' at he
  generalize (next s.shared (s.pc i) a).1 = sh' at he ⊢
  generalize (next s.shared (s.pc i) a).2.2 = e at he ⊢
  have hset : ∀ b' w, w = s.shared.version b' + 1 → (s.shared.setVersion b' w).version b =
      s.shared.version b + (if some b' = some b then 1 else 0) := by
    rintro b' w rfl
    by_cases hb : b = b'
    · subst hb
      simp [Shared.setVersion]
    · simp [Shared.setVersion, hb, Ne.symm hb]
  cases he with
  | quiet itemVecs _ _ _ houtside =>
    refine ⟨by simp, fun heven => houtside b (fun hb => ?_)⟩
    exact (even_iff_not_odd _).mp heven ((h.odd b).mpr ⟨i, hb⟩)
  | fail => exact ⟨by simp, fun _ => rfl⟩
  | lock b' hhere => exact ⟨hset b' _ (or_one (h.cas i b' _ hhere)), fun _ => rfl⟩
  | unlock b' v hhere => exact ⟨hset b' _ (by rw [h.store i b' v hhere]), fun _ => rfl⟩
  | lockPool => exact ⟨by simp, fun _ => rfl⟩
  | unlockPool => exact ⟨by simp, fun _ => rfl⟩

/-- A thread that only reads goes on reading. -/
theorem step_reading {b : ℕ} {v : UInt32} {seen : List (ℕ × ℕ)} (hpc : s.pc i = .reading b v seen)
    (x : Tid × Act) (hx : x.1 = i → ∃ k, x.2 = .look k) :
    (table.step s x).1.pc i = .reading b v seen ∨
      ∃ k, (table.step s x).1.pc i = .reading b v ((k, s.shared.itemVecs b k) :: seen) := by
  obtain ⟨j, a⟩ := x
  by_cases hji : j = i
  · subst hji
    obtain ⟨k, rfl⟩ := hx rfl
    right
    refine ⟨k, ?_⟩
    show Function.update s.pc j (next s.shared (s.pc j) (.look k)).2.1 j = _
    rw [Function.update_self, hpc]
    rfl
  · left
    show Function.update s.pc j _ i = _
    rw [Function.update_of_ne (Ne.symm hji), hpc]

/-- While a thread reads a bucket: the version goes up with every store, and up to the first one the
    bucket stays. -/
theorem reading_run {b : ℕ} {v : UInt32} (h : Inv s) (hpc : s.pc i = .reading b v [])
    (hv : s.shared.version b = v) (heven : v &&& 1 = 0) (xs : List (Tid × Act))
    (hlook : ∀ x ∈ xs, x.1 = i → ∃ k, x.2 = .look k) :
    (table.final s xs).shared.version b = v + UInt32.ofNat ((table.events s xs).count (some b)) ∧
      ∃ seen, (table.final s xs).pc i = .reading b v seen ∧
        ((table.events s xs).count (some b) = 0 →
          (table.final s xs).shared.itemVecs b = s.shared.itemVecs b ∧
            ∀ x ∈ seen, s.shared.itemVecs b x.1 = x.2) := by
  induction xs using List.reverseRecOn with
  | nil =>
    refine ⟨?_, [], hpc, fun _ => ⟨rfl, by simp⟩⟩
    simp [Machine.events, hv]
  | append_singleton xs x ih =>
    obtain ⟨hver, seen, hat, hkeep⟩ := ih (fun y hy => hlook y (List.mem_append_left _ hy))
    have hinv := inv_final xs h
    obtain ⟨hstep, hsame⟩ := step_version hinv x b
    rw [table.final_snoc, table.events_snoc, List.count_append, List.count_singleton]
    refine ⟨?_, ?_⟩
    · rw [hstep, hver, UInt32.ofNat_add, ← UInt32.add_assoc]
      congr 1
      by_cases he : (table.step (table.final s xs) x).2 = some b <;> simp [he]
    · have hzero : (table.events s xs).count (some b) +
          (if (table.step (table.final s xs) x).2 == some b then 1 else 0) = 0 →
          (table.final s xs).shared.itemVecs b = s.shared.itemVecs b ∧
            (∀ x ∈ seen, s.shared.itemVecs b x.1 = x.2) ∧
            (table.step (table.final s xs) x).1.shared.itemVecs b = s.shared.itemVecs b := by
        intro hnone
        have hcount : (table.events s xs).count (some b) = 0 := by omega
        obtain ⟨hold, hseen⟩ := hkeep hcount
        refine ⟨hold, hseen, (hsame ?_).trans hold⟩
        rw [hver, hcount]
        simpa using heven
      rcases step_reading hat x (hlook x (by simp)) with hpc' | ⟨k, hpc'⟩
      · exact ⟨seen, hpc', fun hnone => ⟨(hzero hnone).2.2, (hzero hnone).2.1⟩⟩
      · refine ⟨_, hpc', fun hnone => ⟨(hzero hnone).2.2, fun y hy => ?_⟩⟩
        obtain ⟨hold, hseen, -⟩ := hzero hnone
        rcases List.mem_cons.mp hy with rfl | hy
        · exact (congrFun hold k).symm
        · exact hseen y hy

/-- **What a reader has seen** when it finds the version that it began with: all of it is in the
    bucket, which no thread has locked or written to, unless the version was stored `2 ^ 32` times
    meanwhile. -/
theorem read_consistent {b : ℕ} {v : UInt32} {seen : List (ℕ × ℕ)} {s₀ : State Tid} (h : Start s₀)
    (ws : List (Tid × Act)) (hbegin : (table.final s₀ ws).pc i = .beginLoad b)
    (hread : (table.final s₀ (ws ++ [(i, .go)])).pc i = .reading b v [])
    (xs : List (Tid × Act)) (hlook : ∀ x ∈ xs, x.1 = i → ∃ k, x.2 = .look k)
    (hdone : (table.final s₀ (ws ++ [(i, .go)] ++ xs ++ [(i, .go)])).pc i = .done b seen)
    (hstores : (table.events (table.final s₀ (ws ++ [(i, .go)])) xs).count (some b) < 2 ^ 32) :
    (table.events (table.final s₀ (ws ++ [(i, .go)])) xs).count (some b) = 0 ∧
      (∀ ys zs, xs = ys ++ zs →
        (∀ j, ((table.final s₀ (ws ++ [(i, .go)] ++ ys)).pc j).bucket ≠ some b) ∧
        (table.final s₀ (ws ++ [(i, .go)] ++ ys)).shared.itemVecs b =
          (table.final s₀ (ws ++ [(i, .go)])).shared.itemVecs b) ∧
      ∀ x ∈ seen, (table.final s₀ (ws ++ [(i, .go)])).shared.itemVecs b x.1 = x.2 := by
  have hinv := inv_final (ws ++ [(i, .go)]) h.inv
  have hload : (table.final s₀ (ws ++ [(i, .go)])).shared.version b = v ∧ v &&& 1 = 0 := by
    rw [table.final_snoc] at hread ⊢
    have hpc : Function.update (table.final s₀ ws).pc i (next (table.final s₀ ws).shared
        ((table.final s₀ ws).pc i) .go).2.1 i = .reading b v [] := hread
    have hsh : (table.step (table.final s₀ ws) (i, .go)).1.shared = (table.final s₀ ws).shared := by
      show (next (table.final s₀ ws).shared ((table.final s₀ ws).pc i) .go).1 = _
      rw [hbegin]
      rfl
    rw [Function.update_self, hbegin] at hpc
    rw [hsh]
    change (if (table.final s₀ ws).shared.version b &&& 1 ≠ 0 then Pc.beginLoad b
      else Pc.reading b ((table.final s₀ ws).shared.version b) []) = _ at hpc
    split at hpc
    · cases hpc
    · rename_i heven
      cases hpc
      exact ⟨rfl, not_not.mp heven⟩
  obtain ⟨hver, seen', hat, hkeep⟩ := reading_run hinv hread hload.1 hload.2 xs hlook
  rw [← table.final_append] at hver hat hkeep
  have hcompare : v = (table.final s₀ (ws ++ [(i, .go)] ++ xs)).shared.version b ∧ seen' = seen := by
    rw [table.final_snoc] at hdone
    have hpc : Function.update (table.final s₀ (ws ++ [(i, .go)] ++ xs)).pc i
        (next (table.final s₀ (ws ++ [(i, .go)] ++ xs)).shared
          ((table.final s₀ (ws ++ [(i, .go)] ++ xs)).pc i) .go).2.1 i = .done b seen := hdone
    rw [Function.update_self, hat] at hpc
    change (if v ≠ (table.final s₀ (ws ++ [(i, .go)] ++ xs)).shared.version b then Pc.beginLoad b
      else Pc.done b seen') = _ at hpc
    split at hpc
    · cases hpc
    · rename_i heq
      cases hpc
      exact ⟨not_not.mp heq, rfl⟩
  obtain ⟨hsame, rfl⟩ := hcompare
  have hnone : (table.events (table.final s₀ (ws ++ [(i, .go)])) xs).count (some b) = 0 := by
    rw [← hsame] at hver
    have hnat := congrArg UInt32.toNat hver
    rw [UInt32.toNat_add, UInt32.toNat_ofNat'] at hnat
    have hlt := v.toNat_lt
    omega
  refine ⟨hnone, fun ys zs hsplit => ?_, (hkeep hnone).2⟩
  subst hsplit
  rw [table.events_append, List.count_append] at hnone
  obtain ⟨hver', seen', -, hkeep'⟩ := reading_run hinv hread hload.1 hload.2 ys
    (fun x hx => hlook x (List.mem_append_left _ hx))
  have hcount : (table.events (table.final s₀ (ws ++ [(i, .go)])) ys).count (some b) = 0 := by omega
  rw [hcount, show UInt32.ofNat 0 = 0 from rfl, UInt32.add_zero] at hver'
  rw [table.final_append _ _ ys]
  refine ⟨fun j hj => ?_, (hkeep' hcount).1⟩
  have hodd := ((inv_final ys hinv).odd b).mpr ⟨j, hj⟩
  rw [hver'] at hodd
  exact (even_iff_not_odd v).mp hload.2 hodd

/-- A thread writes to a bucket, and goes on to another one while the bucket is read. -/
theorem read_consistent_sample :
    let ws : List (Bool × Act) := [(false, .lock 7), (false, .go), (false, .go), (false, .write 3 9),
      (false, .go), (false, .go), (false, .go), (true, .read 7)]
    let xs : List (Bool × Act) := [(true, .look 3), (false, .lock 8), (false, .go), (false, .go),
      (false, .write 3 5), (true, .look 4)]
    (table.final (fresh Bool) (ws ++ [(true, .go)] ++ xs ++ [(true, .go)])).pc true =
        .done 7 [(4, 0), (3, 9)] ∧
      ((table.final (fresh Bool) (ws ++ [(true, .go)] ++ xs)).pc false).bucket ≠ some 7 ∧
      ∀ x ∈ [(4, 0), (3, 9)],
        (table.final (fresh Bool) (ws ++ [(true, .go)])).shared.itemVecs 7 x.1 = x.2 := by
  intro ws xs
  have hdone : (table.final (fresh Bool) (ws ++ [(true, .go)] ++ xs ++ [(true, .go)])).pc true =
      .done 7 [(4, 0), (3, 9)] := rfl
  have h := read_consistent (fresh_start Bool) ws (i := true) (b := 7) (v := 2) rfl rfl xs
    (by simp [xs]) hdone (by decide)
  exact ⟨hdone, (h.2.1 xs [] (List.append_nil xs).symm).1 false, h.2.2⟩

/-! ## No deadlock -/

/-- Other threads can be run so that thread `i` gets to `p`, and those that have no bucket stay where
    they are. -/
def Leads (s : State Tid) (i : Tid) (P : State Tid → Prop) : Prop :=
  ∃ xs, P (table.final s xs) ∧
    ∀ j, j ≠ i → (s.pc j).bucket = none → (table.final s xs).pc j = s.pc j

/-- One access of thread `i`, then the rest. -/
theorem Leads.go {P : State Tid → Prop} (h : Leads (table.step s (i, .go)).1 i P) : Leads s i P := by
  obtain ⟨xs, hP, hkeep⟩ := h
  refine ⟨(i, .go) :: xs, hP, fun j hji hj => ?_⟩
  have hsame : (table.step s (i, .go)).1.pc j = s.pc j := Function.update_of_ne hji _ _
  rw [table.final_cons, hkeep j hji (by rw [hsame, hj]), hsame]

theorem step_pc (s : State Tid) (i : Tid) (a : Act) :
    (table.step s (i, a)).1.pc i = (next s.shared (s.pc i) a).2.1 := Function.update_self ..

theorem step_shared (s : State Tid) (i : Tid) (a : Act) :
    (table.step s (i, a)).1.shared = (next s.shared (s.pc i) a).1 := rfl

/-- A thread that is about to store the version leaves. -/
theorem leave_unlockStore {b : ℕ} {v : UInt32} (h : Inv s) (hpc : s.pc i = .unlockStore b v) :
    Leads s i (fun s' => s'.pc i = .idle ∧ s'.shared.version b &&& 1 = 0) := by
  refine ⟨[(i, .go)], ⟨?_, ?_⟩, fun j hji _ => Function.update_of_ne hji _ _⟩
  · rw [table.final_cons, table.final_nil, step_pc, hpc]
    rfl
  · have hodd := (h.odd b).mpr ⟨i, by rw [hpc]; rfl⟩
    rw [h.store i b v hpc] at hodd
    rw [table.final_cons, table.final_nil, step_shared, hpc]
    show Function.update s.shared.version b (v + 1) b &&& 1 = 0
    rw [Function.update_self]
    exact succ_even hodd

theorem leave_held {b : ℕ} (h : Inv s) (hpc : s.pc i = .held b) :
    Leads s i (fun s' => s'.pc i = .idle ∧ s'.shared.version b &&& 1 = 0) := by
  have hodd := (h.odd b).mpr ⟨i, by rw [hpc]; rfl⟩
  have h1 := inv_step s (i, .go) h
  have hpc1 : (table.step s (i, .go)).1.pc i = .unlockLoad b := by
    rw [step_pc, hpc]
    exact if_pos hodd
  have hpc2 : (table.step (table.step s (i, .go)).1 (i, .go)).1.pc i =
      .unlockStore b ((table.step s (i, .go)).1.shared.version b) := by
    rw [step_pc, hpc1]
    rfl
  exact Leads.go (Leads.go (leave_unlockStore (inv_step _ (i, .go) h1) hpc2))

theorem leave_poolHeld {b : ℕ} (h : Inv s) (hpc : s.pc i = .poolHeld b) :
    Leads s i (fun s' => s'.pc i = .idle ∧ s'.shared.version b &&& 1 = 0) := by
  have hlocked := h.locked.mpr ⟨i, by rw [hpc]; rfl⟩
  have h1 := inv_step s (i, .go) h
  have hpc1 : (table.step s (i, .go)).1.pc i = .poolStore b := by
    rw [step_pc, hpc]
    exact if_pos hlocked
  refine Leads.go (Leads.go (leave_held (inv_step _ (i, .go) h1) ?_))
  rw [step_pc, hpc1]
  rfl

/-- The pool can be freed, and only the thread in it moves. -/
theorem free_pool (h : Inv s) : ∃ xs, (table.final s xs).shared.lock = 0 ∧
    ∀ j, (s.pc j).inPool = false → (table.final s xs).pc j = s.pc j := by
  rcases h.binary with hfree | hlock
  · exact ⟨[], hfree, fun _ _ => rfl⟩
  · have hlocked : s.shared.lock &&& 1 = 1 := by rw [hlock]; decide
    obtain ⟨k, hk⟩ := h.locked.mp hlocked
    have hother : ∀ j, (s.pc j).inPool = false → j ≠ k := by
      rintro j hj rfl
      rw [hj] at hk
      exact Bool.false_ne_true hk
    have hstore : ∀ (t : State Tid) b, t.pc k = .poolStore b →
        (table.step t (k, .go)).1.shared.lock = 0 := by
      intro t b ht
      rw [step_shared, ht]
      rfl
    cases hpc : s.pc k with
    | poolStore b =>
      refine ⟨[(k, .go)], hstore s b hpc, fun j hj => ?_⟩
      exact Function.update_of_ne (hother j hj) _ _
    | poolHeld b =>
      have hpc1 : (table.step s (k, .go)).1.pc k = .poolStore b := by
        rw [step_pc, hpc]
        exact if_pos hlocked
      refine ⟨[(k, .go), (k, .go)], hstore _ b hpc1, fun j hj => ?_⟩
      exact (Function.update_of_ne (hother j hj) _ _).trans
        (Function.update_of_ne (hother j hj) _ _)
    | _ => simp [hpc, Pc.inPool] at hk

/-- **A thread in a bucket can leave it.** -/
theorem leave {b : ℕ} (h : Inv s) (hb : (s.pc i).bucket = some b) :
    Leads s i (fun s' => s'.pc i = .idle ∧ s'.shared.version b &&& 1 = 0) := by
  cases hpc : s.pc i with
  | held b' =>
    obtain rfl : b' = b := by simpa [hpc, Pc.bucket] using hb
    exact leave_held h hpc
  | poolCas b' =>
    obtain rfl : b' = b := by simpa [hpc, Pc.bucket] using hb
    obtain ⟨xs, hfree, hkeep⟩ := free_pool h
    have hstill : (table.final s xs).pc i = .poolCas b' := by
      rw [hkeep i (by rw [hpc]; rfl), hpc]
    have hin : (table.step (table.final s xs) (i, .go)).1.pc i = .poolHeld b' := by
      rw [step_pc, hstill]
      show (if (table.final s xs).shared.lock = 0 then _ else _ : Shared × Pc × Option ℕ).2.1 = _
      rw [if_pos hfree]
    obtain ⟨ys, hdone, hkeep'⟩ :=
      Leads.go (leave_poolHeld (inv_step _ (i, .go) (inv_final xs h)) hin)
    refine ⟨xs ++ ys, ?_, fun j hji hj => ?_⟩
    · rw [table.final_append]
      exact hdone
    · have hout : (s.pc j).inPool = false := by
        cases hpj : s.pc j <;> simp [hpj, Pc.bucket, Pc.inPool] at hj ⊢
      rw [table.final_append, hkeep' j hji (by rw [hkeep j hout, hj]), hkeep j hout]
  | poolHeld b' =>
    obtain rfl : b' = b := by simpa [hpc, Pc.bucket] using hb
    exact leave_poolHeld h hpc
  | poolStore b' =>
    obtain rfl : b' = b := by simpa [hpc, Pc.bucket] using hb
    refine Leads.go (leave_held (inv_step _ (i, .go) h) ?_)
    rw [step_pc, hpc]
    rfl
  | unlockLoad b' =>
    obtain rfl : b' = b := by simpa [hpc, Pc.bucket] using hb
    have hpc1 : (table.step s (i, .go)).1.pc i = .unlockStore b' (s.shared.version b') := by
      rw [step_pc, hpc]
      rfl
    exact Leads.go (leave_unlockStore (inv_step _ (i, .go) h) hpc1)
  | unlockStore b' v =>
    obtain rfl : b' = b := by simpa [hpc, Pc.bucket] using hb
    exact leave_unlockStore h hpc
  | _ => simp [hpc, Pc.bucket] at hb

/-- A thread that has no bucket can wait until one is free. -/
theorem wait_bucket (h : Inv s) (hi : (s.pc i).bucket = none) (b : ℕ) :
    ∃ xs, (table.final s xs).pc i = s.pc i ∧ (table.final s xs).shared.version b &&& 1 = 0 := by
  by_cases hodd : s.shared.version b &&& 1 = 1
  · obtain ⟨k, hk⟩ := (h.odd b).mp hodd
    obtain ⟨xs, ⟨-, heven⟩, hkeep⟩ := leave h hk
    have hne : i ≠ k := by
      rintro rfl
      rw [hi] at hk
      cases hk
    exact ⟨xs, hkeep i hne hi, heven⟩
  · exact ⟨[], rfl, (even_iff_not_odd _).mpr hodd⟩

/-- A thread can be run to the end of its operation. -/
def CanFinish (s : State Tid) (i : Tid) : Prop := ∃ xs, (table.final s xs).pc i = .idle

theorem CanFinish.of_final (xs : List (Tid × Act)) (h : CanFinish (table.final s xs) i) :
    CanFinish s i := by
  obtain ⟨ys, hys⟩ := h
  exact ⟨xs ++ ys, by rw [table.final_append]; exact hys⟩

theorem CanFinish.go (h : CanFinish (table.step s (i, .go)).1 i) : CanFinish s i :=
  CanFinish.of_final [(i, .go)] h

/-- An even version is what its own mask leaves of it. -/
theorem and_not_one_self {v : UInt32} (h : v &&& 1 = 0) : v &&& ~~~1 = v := by
  have hsplit : v &&& (1 ||| ~~~1) = v := by
    rw [show (1 ||| ~~~1 : UInt32) = -1 by decide, UInt32.and_neg_one]
  have hdistrib : v &&& (1 ||| ~~~1) = v &&& 1 ||| v &&& ~~~1 := by
    rw [← UInt32.toBitVec_inj]
    exact BitVec.and_or_distrib_left
  rw [hdistrib, h, UInt32.zero_or] at hsplit
  exact hsplit

/-- In `mehcached_lock_bucket`, with the bucket free. -/
theorem finish_lockLoad {b : ℕ} (h : Inv s) (hpc : s.pc i = .lockLoad b) : CanFinish s i := by
  obtain ⟨xs, hsame, heven⟩ := wait_bucket h (by rw [hpc]; rfl) b
  apply CanFinish.of_final xs
  generalize ht : table.final s xs = t at hsame heven
  have hinv : Inv t := ht ▸ inv_final xs h
  rw [hpc] at hsame
  have hpc1 : (table.step t (i, .go)).1.pc i = .lockCas b (t.shared.version b) := by
    rw [step_pc, hsame]
    show Pc.lockCas b (t.shared.version b &&& ~~~1) = _
    rw [and_not_one_self heven]
  have hver : (table.step t (i, .go)).1.shared.version b = t.shared.version b := by
    rw [step_shared, hsame]
    rfl
  have hpc2 : (table.step (table.step t (i, .go)).1 (i, .go)).1.pc i = .held b := by
    rw [step_pc, hpc1]
    show (if _ = _ then _ else _ : Shared × Pc × Option ℕ).2.1 = _
    rw [if_pos hver]
  have hinv2 := inv_step _ (i, .go) (inv_step t (i, .go) hinv)
  obtain ⟨ys, hdone, -⟩ := leave_held hinv2 hpc2
  exact CanFinish.go (CanFinish.go ⟨ys, hdone.1⟩)

theorem finish_reading {b : ℕ} {v : UInt32} {seen : List (ℕ × ℕ)} (hpc : s.pc i = .reading b v seen)
    (hver : s.shared.version b = v) : CanFinish s i := by
  have hpc1 : (table.step s (i, .go)).1.pc i = .done b seen := by
    rw [step_pc, hpc]
    exact if_neg (fun hne => hne hver.symm)
  refine CanFinish.go (CanFinish.go ⟨[], ?_⟩)
  rw [table.final_nil, step_pc, hpc1]
  rfl

theorem finish_beginLoad {b : ℕ} (h : Inv s) (hpc : s.pc i = .beginLoad b) : CanFinish s i := by
  obtain ⟨xs, hsame, heven⟩ := wait_bucket h (by rw [hpc]; rfl) b
  apply CanFinish.of_final xs
  generalize table.final s xs = t at hsame heven
  rw [hpc] at hsame
  have hpc1 : (table.step t (i, .go)).1.pc i = .reading b (t.shared.version b) [] := by
    rw [step_pc, hsame]
    exact if_neg (fun hne => hne heven)
  apply CanFinish.go
  refine finish_reading hpc1 ?_
  rw [step_shared, hsame]
  rfl

/-- **No deadlock.**  In every state that threads reach, every one of them can finish its
    operation. -/
theorem can_finish (h : Start s) (xs : List (Tid × Act)) (i : Tid) :
    CanFinish (table.final s xs) i := by
  have hinv := inv_final xs h.inv
  generalize table.final s xs = t at hinv
  have hin : ∀ b, (t.pc i).bucket = some b → CanFinish t i := by
    intro b hb
    obtain ⟨ys, hdone, -⟩ := leave hinv hb
    exact ⟨ys, hdone.1⟩
  cases hpc : t.pc i with
  | idle => exact ⟨[], hpc⟩
  | lockLoad b => exact finish_lockLoad hinv hpc
  | lockCas b v =>
    -- the version may have moved on since it was loaded
    have hinv1 := inv_step t (i, .go) hinv
    by_cases hsame : t.shared.version b = v
    · have hpc1 : (table.step t (i, .go)).1.pc i = .held b := by
        rw [step_pc, hpc]
        show (if _ = _ then _ else _ : Shared × Pc × Option ℕ).2.1 = _
        rw [if_pos hsame]
      obtain ⟨ys, hdone, -⟩ := leave_held hinv1 hpc1
      exact CanFinish.go ⟨ys, hdone.1⟩
    · have hpc1 : (table.step t (i, .go)).1.pc i = .lockLoad b := by
        rw [step_pc, hpc]
        show (if _ = _ then _ else _ : Shared × Pc × Option ℕ).2.1 = _
        rw [if_neg hsame]
      exact CanFinish.go (finish_lockLoad hinv1 hpc1)
  | beginLoad b => exact finish_beginLoad hinv hpc
  | reading b v seen =>
    by_cases hsame : t.shared.version b = v
    · exact finish_reading hpc hsame
    · have hpc1 : (table.step t (i, .go)).1.pc i = .beginLoad b := by
        rw [step_pc, hpc]
        exact if_pos (fun heq => hsame heq.symm)
      exact CanFinish.go (finish_beginLoad (inv_step t (i, .go) hinv) hpc1)
  | done b seen =>
    refine CanFinish.go ⟨[], ?_⟩
    rw [table.final_nil, step_pc, hpc]
    rfl
  | aborted => exact absurd hpc (hinv.fine i)
  | held b => exact hin b (by rw [hpc]; rfl)
  | poolCas b => exact hin b (by rw [hpc]; rfl)
  | poolHeld b => exact hin b (by rw [hpc]; rfl)
  | poolStore b => exact hin b (by rw [hpc]; rfl)
  | unlockLoad b => exact hin b (by rw [hpc]; rfl)
  | unlockStore b v => exact hin b (by rw [hpc]; rfl)

theorem can_finish_sample : CanFinish
    (table.final (fresh Bool) [(true, .lock 7), (true, .go), (true, .go), (false, .read 7)]) false :=
  can_finish (fresh_start Bool) _ false

end Step

end Threads

end QueueDpdk.Mehcached.Locks
