import Mathlib.Data.List.Basic
import Mathlib.Data.List.Induction
import Mathlib.Data.List.Nodup

/-!
# Ownership of resources along a trace

A trace of accesses to resources that are acquired, used and released.

* `OwnedOnce` — whatever is acquired is released exactly once, and nothing is used after its
  release.
* `Holding tr held` — after `tr` exactly the resources in `held` are still owned; the rules
  `Holding.acquire`, `Holding.use`, `Holding.release` and their versions for lists follow a program
  from access to access, and `Holding.ownedOnce` ends the proof when nothing is owned any more.
-/

set_option autoImplicit false

namespace Lib

inductive Access (α : Type) where
  | acquire (a : α)
  | use (a : α)
  | release (a : α)
deriving DecidableEq

/-- No use after release. -/
def NoLateUse {α : Type} (tr : List (Access α)) : Prop :=
  ∀ l a r, tr = l ++ .release a :: r → .use a ∉ r

theorem NoLateUse.snoc {α : Type} {tr : List (Access α)} {x : Access α} (h : NoLateUse tr)
    (hx : ∀ a, x = .use a → .release a ∉ tr) : NoLateUse (tr ++ [x]) := by
  intro l a r hsplit
  rcases List.eq_nil_or_concat r with rfl | ⟨r, y, rfl⟩
  · simp
  · rw [List.concat_eq_append, ← List.cons_append, ← List.append_assoc] at hsplit
    obtain ⟨htr, hxy⟩ := List.append_inj' hsplit rfl
    obtain rfl := (List.cons.inj hxy).1
    rw [List.concat_eq_append, List.mem_append, List.mem_singleton, not_or]
    refine ⟨h l a r htr, fun he => ?_⟩
    apply hx a he.symm
    rw [htr]
    simp

variable {α : Type} [DecidableEq α]

structure OwnedOnce (tr : List (Access α)) : Prop where
  once : ∀ a, .acquire a ∈ tr → tr.count (.release a) = 1
  late : NoLateUse tr

/-- **Ownership invariant.** -/
structure Holding (tr : List (Access α)) (held : List α) : Prop where
  nodup : held.Nodup
  acquired : ∀ a ∈ held, .acquire a ∈ tr
  unreleased : ∀ a ∈ held, .release a ∉ tr
  once : ∀ a, .acquire a ∈ tr → a ∉ held → tr.count (.release a) = 1
  known : ∀ a, .release a ∈ tr → .acquire a ∈ tr
  late : NoLateUse tr

section Rules

variable {tr : List (Access α)} {held : List α} {a : α}

theorem Holding.nil : Holding ([] : List (Access α)) [] :=
  ⟨List.nodup_nil, by simp, by simp, by simp, by simp, fun l a r h => by simp at h⟩

theorem Holding.acquire (h : Holding tr held) (ha : .acquire a ∉ tr) :
    Holding (tr ++ [.acquire a]) (held ++ [a]) := by
  have hnot : a ∉ held := fun hm => ha (h.acquired a hm)
  refine ⟨?_, ?_, ?_, ?_, ?_, h.late.snoc (by simp)⟩
  · rw [List.nodup_append]
    refine ⟨h.nodup, List.nodup_singleton a, ?_⟩
    rintro b hb c hc rfl
    exact hnot (List.mem_singleton.mp hc ▸ hb)
  · intro b hb
    rcases List.mem_append.mp hb with hb | hb
    · exact List.mem_append_left _ (h.acquired b hb)
    · rw [List.mem_singleton.mp hb]
      simp
  · intro b hb hrel
    rw [List.mem_append] at hb
    have hrel' : .release b ∈ tr := by simpa using hrel
    rcases hb with hb | hb
    · exact h.unreleased b hb hrel'
    · rw [List.mem_singleton.mp hb] at hrel'
      exact ha (h.known a hrel')
  · intro b hb hb'
    rw [List.mem_append, not_or, List.mem_singleton] at hb'
    rw [List.mem_append, List.mem_singleton] at hb
    rw [List.count_append]
    have hacq : .acquire b ∈ tr := by
      rcases hb with hb | hb
      · exact hb
      · exact absurd (Access.acquire.inj hb) hb'.2
    rw [h.once b hacq hb'.1]
    simp
  · intro b hb
    have hb' : .release b ∈ tr := by simpa using hb
    exact List.mem_append_left _ (h.known b hb')

theorem Holding.use (h : Holding tr held) (ha : a ∈ held) : Holding (tr ++ [.use a]) held := by
  have hrel : ∀ b, .release b ∈ tr ++ [Access.use a] ↔ .release b ∈ tr := by simp
  have hacq : ∀ b, .acquire b ∈ tr ++ [Access.use a] ↔ .acquire b ∈ tr := by simp
  refine ⟨h.nodup, ?_, ?_, ?_, ?_, h.late.snoc ?_⟩
  · intro b hb
    exact (hacq b).mpr (h.acquired b hb)
  · intro b hb
    rw [hrel]
    exact h.unreleased b hb
  · intro b hb hb'
    rw [List.count_append, h.once b ((hacq b).mp hb) hb']
    simp
  · intro b hb
    exact (hacq b).mpr (h.known b ((hrel b).mp hb))
  · intro b hb
    rw [← Access.use.inj hb]
    exact h.unreleased a ha

theorem Holding.release (h : Holding tr (a :: held)) : Holding (tr ++ [.release a]) held := by
  obtain ⟨hnot, hnd⟩ := List.nodup_cons.mp h.nodup
  have hacq : ∀ b, .acquire b ∈ tr ++ [Access.release a] ↔ .acquire b ∈ tr := by simp
  refine ⟨hnd, ?_, ?_, ?_, ?_, h.late.snoc (by simp)⟩
  · intro b hb
    exact (hacq b).mpr (h.acquired b (List.mem_cons_of_mem a hb))
  · intro b hb hrel
    rcases List.mem_append.mp hrel with hrel | hrel
    · exact h.unreleased b (List.mem_cons_of_mem a hb) hrel
    · exact hnot (Access.release.inj (List.mem_singleton.mp hrel) ▸ hb)
  · intro b hb hb'
    rw [List.count_append]
    by_cases hba : b = a
    · rw [hba, List.count_eq_zero_of_not_mem (h.unreleased a List.mem_cons_self)]
      simp
    · have hnot' : b ∉ a :: held := by
        rw [List.mem_cons, not_or]
        exact ⟨hba, hb'⟩
      rw [h.once b ((hacq b).mp hb) hnot']
      simp [Ne.symm hba]
  · intro b hb
    rw [hacq]
    rcases List.mem_append.mp hb with hb | hb
    · exact h.known b hb
    · rw [Access.release.inj (List.mem_singleton.mp hb)]
      exact h.acquired a List.mem_cons_self

/-! ## Several accesses -/

theorem Holding.acquireAll (new : List α) (h : Holding tr held) (hnd : new.Nodup)
    (hnew : ∀ a ∈ new, .acquire a ∉ tr) :
    Holding (tr ++ new.map .acquire) (held ++ new) := by
  induction new generalizing tr held with
  | nil => simpa using h
  | cons a new ih =>
    obtain ⟨hnot, hnd⟩ := List.nodup_cons.mp hnd
    have h' := ih (h.acquire (hnew a List.mem_cons_self)) hnd ?_
    · simpa using h'
    · intro b hb
      rw [List.mem_append, not_or, List.mem_singleton]
      refine ⟨hnew b (List.mem_cons_of_mem a hb), fun he => ?_⟩
      exact hnot (Access.acquire.inj he ▸ hb)

theorem Holding.useAll (new : List (Access α)) (h : Holding tr held)
    (hnew : ∀ x ∈ new, ∃ a ∈ held, x = .use a) : Holding (tr ++ new) held := by
  induction new generalizing tr with
  | nil => simpa using h
  | cons x new ih =>
    obtain ⟨a, ha, rfl⟩ := hnew x List.mem_cons_self
    have h' := ih (h.use ha) (fun y hy => hnew y (List.mem_cons_of_mem _ hy))
    simpa using h'

theorem Holding.releaseAll {gone : List α} (h : Holding tr (gone ++ held)) :
    Holding (tr ++ gone.map .release) held := by
  induction gone generalizing tr with
  | nil => simpa using h
  | cons a gone ih =>
    have h' := ih (Holding.release h)
    simpa using h'

/-- Nothing is owned at the end. -/
theorem Holding.ownedOnce (h : Holding tr []) : OwnedOnce tr :=
  ⟨fun a ha => h.once a ha (by simp), h.late⟩

end Rules

end Lib
