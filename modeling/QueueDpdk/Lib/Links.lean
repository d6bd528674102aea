import Mathlib.Data.List.Perm.Basic
import Mathlib.Logic.Function.Basic

/-!
# Linked lists in arrays of cells

A store maps node names to cells with two links.  It names nothing of a particular program.

* `Segment c a l b` — from `a` the forward links lead through the nodes of `l` to `b`, and the
  backward links lead back.  A ring with head `h` is `Segment c h l h`.
* `Chain c a l b` — the same with the forward links alone.
* `Segment.unlink`, `Segment.append`, `relink` — what the usual pointer assignments do to a segment.
* `Segment.congr`, `Chain.congr` — frame rules: assignments to other nodes change nothing.
-/

set_option autoImplicit false

namespace Lib

/-- A cell with a backward and a forward link. -/
@[ext] structure Cell (α : Type) where
  prev : α
  next : α

variable {α : Type}

/-! ## Segments -/

/-- `l` is linked in both directions between `a` and `b`. -/
def Segment (c : α → Cell α) : α → List α → α → Prop
  | a, [], b => (c a).next = b ∧ (c b).prev = a
  | a, x :: l, b => (c a).next = x ∧ (c x).prev = a ∧ Segment c x l b

/-- The forward links lead from `a` through `l` to `b`. -/
def Chain (c : α → Cell α) : α → List α → α → Prop
  | a, [], b => (c a).next = b
  | a, x :: l, b => (c a).next = x ∧ Chain c x l b

variable {c c' : α → Cell α} {a b x : α} {l l₁ l₂ : List α}

theorem Segment.congr (hn : ∀ u, u = a ∨ u ∈ l → (c' u).next = (c u).next)
    (hp : ∀ u, u ∈ l ∨ u = b → (c' u).prev = (c u).prev) (h : Segment c a l b) :
    Segment c' a l b := by
  induction l generalizing a with
  | nil => exact ⟨(hn a (Or.inl rfl)).trans h.1, (hp b (Or.inr rfl)).trans h.2⟩
  | cons y l ih =>
    obtain ⟨h1, h2, h3⟩ := h
    refine ⟨(hn a (Or.inl rfl)).trans h1, (hp y (Or.inl List.mem_cons_self)).trans h2, ih ?_ ?_ h3⟩
    · rintro u (rfl | hu)
      · exact hn u (Or.inr List.mem_cons_self)
      · exact hn u (Or.inr (List.mem_cons_of_mem y hu))
    · rintro u (hu | rfl)
      · exact hp u (Or.inl (List.mem_cons_of_mem y hu))
      · exact hp u (Or.inr rfl)

theorem Chain.congr (hn : ∀ u, u = a ∨ u ∈ l → (c' u).next = (c u).next) (h : Chain c a l b) :
    Chain c' a l b := by
  induction l generalizing a with
  | nil => exact (hn a (Or.inl rfl)).trans h
  | cons y l ih =>
    refine ⟨(hn a (Or.inl rfl)).trans h.1, ih ?_ h.2⟩
    rintro u (rfl | hu)
    · exact hn u (Or.inr List.mem_cons_self)
    · exact hn u (Or.inr (List.mem_cons_of_mem y hu))

theorem Segment.next_eq (h : Segment c a l b) : (c a).next = l.headD b := by
  cases l with
  | nil => exact h.1
  | cons y l => exact h.1

/-- A chain only depends on where its first node leads. -/
theorem Chain.restart {a' : α} (h : Chain c a l b) (ha : (c' a').next = (c a).next)
    (hn : ∀ u ∈ l, (c' u).next = (c u).next) : Chain c' a' l b := by
  cases l with
  | nil => exact ha.trans h
  | cons y l =>
    refine ⟨ha.trans h.1, h.2.congr ?_⟩
    rintro u (rfl | hu)
    · exact hn u List.mem_cons_self
    · exact hn u (List.mem_cons_of_mem y hu)

/-- The forward links of a chain stay in it. -/
theorem Chain.next_mem {u : α} (h : Chain c a l b) (hu : u = a ∨ u ∈ l) :
    (c u).next ∈ l ∨ (c u).next = b := by
  induction l generalizing a with
  | nil =>
    rcases hu with rfl | hu
    · exact Or.inr h
    · cases hu
  | cons y l ih =>
    rcases hu with rfl | hu
    · rw [h.1]
      exact Or.inl List.mem_cons_self
    · rcases ih h.2 (List.mem_cons.mp hu) with hy | hy
      · exact Or.inl (List.mem_cons_of_mem y hy)
      · exact Or.inr hy

theorem Segment.prev_eq (h : Segment c a l b) : (c b).prev = l.getLastD a := by
  induction l generalizing a with
  | nil => exact h.2
  | cons y l ih => rw [ih h.2.2, List.getLastD_cons]

theorem Segment.last_next (h : Segment c a l b) : (c (l.getLastD a)).next = b := by
  induction l generalizing a with
  | nil => exact h.1
  | cons y l ih =>
    rw [List.getLastD_cons]
    exact ih h.2.2

theorem Segment.split :
    Segment c a (l₁ ++ x :: l₂) b ↔ Segment c a l₁ x ∧ Segment c x l₂ b := by
  induction l₁ generalizing a with
  | nil => exact and_assoc.symm
  | cons y l₁ ih =>
    show (_ ∧ _ ∧ Segment c y (l₁ ++ x :: l₂) b) ↔ (_ ∧ _ ∧ Segment c y l₁ x) ∧ _
    rw [ih, and_assoc, and_assoc]

/-- The neighbours of a node of a segment. -/
theorem Segment.neighbours (h : Segment c a (l₁ ++ x :: l₂) b) :
    (c x).prev = l₁.getLastD a ∧ (c x).next = l₂.headD b :=
  ⟨(Segment.split.mp h).1.prev_eq, (Segment.split.mp h).2.next_eq⟩

theorem getLastD_mem (a : α) (l : List α) : l.getLastD a = a ∨ l.getLastD a ∈ l := by
  induction l generalizing a with
  | nil => exact Or.inl rfl
  | cons y l ih =>
    rw [List.getLastD_cons]
    rcases ih y with h | h
    · exact Or.inr (by rw [h]; exact List.mem_cons_self)
    · exact Or.inr (List.mem_cons_of_mem y h)

theorem headD_mem (b : α) (l : List α) : l.headD b = b ∨ l.headD b ∈ l := by
  cases l with
  | nil => exact Or.inl rfl
  | cons y l => exact Or.inr List.mem_cons_self

/-! ## Assignments -/

section Assignments

variable [DecidableEq α]

/-- `cells[u].next = v`. -/
def setNext (c : α → Cell α) (u v : α) : α → Cell α := Function.update c u { c u with next := v }

/-- `cells[u].prev = v`. -/
def setPrev (c : α → Cell α) (u v : α) : α → Cell α := Function.update c u { c u with prev := v }

theorem setNext_next (c : α → Cell α) (u v w : α) :
    (setNext c u v w).next = if w = u then v else (c w).next := by
  unfold setNext
  by_cases h : w = u
  · subst h; simp
  · simp [h]

@[simp] theorem setNext_prev (c : α → Cell α) (u v w : α) : (setNext c u v w).prev = (c w).prev := by
  unfold setNext
  by_cases h : w = u
  · subst h; simp
  · simp [h]

theorem setPrev_prev (c : α → Cell α) (u v w : α) :
    (setPrev c u v w).prev = if w = u then v else (c w).prev := by
  unfold setPrev
  by_cases h : w = u
  · subst h; simp
  · simp [h]

@[simp] theorem setPrev_next (c : α → Cell α) (u v w : α) : (setPrev c u v w).next = (c w).next := by
  unfold setPrev
  by_cases h : w = u
  · subst h; simp
  · simp [h]

/-- `u` and `v` become neighbours. -/
def link (c : α → Cell α) (u v : α) : α → Cell α := setPrev (setNext c u v) v u

theorem link_next (c : α → Cell α) (u v w : α) :
    (link c u v w).next = if w = u then v else (c w).next := by
  rw [link, setPrev_next, setNext_next]

theorem link_prev (c : α → Cell α) (u v w : α) :
    (link c u v w).prev = if w = v then u else (c w).prev := by
  rw [link, setPrev_prev, setNext_prev]

theorem link_of_ne {c : α → Cell α} {u v w : α} (hu : w ≠ u) (hv : w ≠ v) :
    link c u v w = c w := by
  apply Cell.ext
  · rw [link_prev, if_neg hv]
  · rw [link_next, if_neg hu]

/-- The four assignments that put `x` between `q` and `a`. -/
theorem link_link {x q : α} (hx : x ≠ a) (c : α → Cell α) :
    setPrev (setNext (setPrev (setNext c x a) x q) q x) a x = link (link c x a) q x := by
  funext w
  apply Cell.ext
  · rw [setPrev_prev, setNext_prev, setPrev_prev, setNext_prev, link_prev, link_prev]
    by_cases hw : w = x
    · rw [if_pos hw, if_pos hw, if_neg (fun h => hx (hw.symm.trans h))]
    · rw [if_neg hw, if_neg hw]
  · rw [setPrev_next, setNext_next, setPrev_next, setNext_next, link_next, link_next]

/-- Unlinking the node before `a` and linking it there again changes nothing. -/
theorem relink {x q : α} (hq : (c q).next = x) (hx : c x = ⟨q, a⟩) (ha : (c a).prev = x) :
    link (link (link c q a) x a) q x = c := by
  funext w
  apply Cell.ext
  · rw [link_prev, link_prev, link_prev]
    by_cases hwx : w = x
    · rw [if_pos hwx, hwx, hx]
    · rw [if_neg hwx]
      by_cases hwa : w = a
      · rw [if_pos hwa, hwa, ha]
      · rw [if_neg hwa, if_neg hwa]
  · rw [link_next, link_next, link_next]
    by_cases hwq : w = q
    · rw [if_pos hwq, hwq, hq]
    · rw [if_neg hwq, if_neg hwq]
      by_cases hwx : w = x
      · rw [if_pos hwx, hwx, hx]
      · rw [if_neg hwx]

/-- **Unlinking a node**: its neighbours are linked to each other. -/
theorem Segment.unlink (h : Segment c a (l₁ ++ x :: l₂) b) (hnd : (a :: (l₁ ++ x :: l₂)).Nodup)
    (hb : b ∉ l₁ ++ x :: l₂) :
    Segment (link c (l₁.getLastD a) (l₂.headD b)) a (l₁ ++ l₂) b := by
  induction l₁ generalizing a with
  | nil =>
    obtain ⟨-, -, hrest⟩ := h
    cases l₂ with
    | nil => exact ⟨by rw [link_next]; exact if_pos rfl, by rw [link_prev]; exact if_pos rfl⟩
    | cons y l =>
      simp only [List.nil_append, List.nodup_cons, List.mem_cons, not_or] at hnd hb
      refine ⟨by rw [link_next]; exact if_pos rfl, by rw [link_prev]; exact if_pos rfl,
        hrest.2.2.congr ?_ ?_⟩
      · intro u hu
        have hne : u ≠ a := by
          rintro rfl
          rcases hu with rfl | hu
          · exact hnd.1.2.1 rfl
          · exact hnd.1.2.2 hu
        rw [link_next]
        exact if_neg hne
      · intro u hu
        have hne : u ≠ y := by
          rintro rfl
          rcases hu with hu | rfl
          · exact hnd.2.2.1 hu
          · exact hb.2.1 rfl
        rw [link_prev]
        exact if_neg hne
  | cons z l₁ ih =>
    obtain ⟨h1, h2, hrest⟩ := h
    rw [List.cons_append, List.nodup_cons] at hnd
    rw [List.cons_append, List.mem_cons, not_or] at hb
    rw [List.getLastD_cons]
    refine ⟨?_, ?_, ih hrest hnd.2 hb.2⟩
    · have hne : a ≠ l₁.getLastD z := by
        intro he
        apply hnd.1
        rw [he]
        rcases getLastD_mem z l₁ with hz | hz
        · rw [hz]; exact List.mem_cons_self
        · exact List.mem_cons_of_mem z (List.mem_append_left _ hz)
      rw [link_next, if_neg hne, h1]
    · have hne : z ≠ l₂.headD b := by
        intro he
        rcases headD_mem b l₂ with hz | hz
        · exact hb.1 (hz ▸ he).symm
        · rw [← he] at hz
          exact (List.nodup_cons.mp hnd.2).1
            (List.mem_append_right _ (List.mem_cons_of_mem x hz))
      rw [link_prev, if_neg hne, h2]

/-- **Appending a node** at the end of a segment. -/
theorem Segment.append (h : Segment c a l b) (hnd : (a :: l).Nodup) (hb : b ∉ l) (hx : x ∉ l)
    (hxa : x ≠ a) (hxb : x ≠ b) :
    Segment (link (link c x b) (l.getLastD a) x) a (l ++ [x]) b := by
  induction l generalizing a with
  | nil =>
    refine ⟨?_, ?_, ?_, ?_⟩
    · rw [link_next]; exact if_pos rfl
    · rw [link_prev]; exact if_pos rfl
    · rw [link_next, if_neg (by exact hxa), link_next, if_pos rfl]
    · rw [link_prev, if_neg hxb.symm, link_prev, if_pos rfl]
  | cons y l ih =>
    obtain ⟨h1, h2, hrest⟩ := h
    rw [List.nodup_cons] at hnd
    rw [List.mem_cons, not_or] at hb hx
    rw [List.getLastD_cons]
    refine ⟨?_, ?_, ih hrest hnd.2 hb.2 hx.2 hx.1⟩
    · have hne : a ≠ l.getLastD y := by
        intro he
        apply hnd.1
        rw [he]
        rcases getLastD_mem y l with hz | hz
        · rw [hz]; exact List.mem_cons_self
        · exact List.mem_cons_of_mem y hz
      rw [link_next, if_neg hne, link_next, if_neg hxa.symm, h1]
    · rw [link_prev, if_neg (Ne.symm hx.1), link_prev, if_neg (Ne.symm hb.1), h2]

end Assignments

end Lib
