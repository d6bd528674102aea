import QueueDpdk.Lib.Links
import Mathlib.Data.List.Nodup

/-!
# The double chain (`utils/double-chain.c`, `utils/double-chain-impl.c`)

An index allocator with time stamps: an array of cells with two reserved heads, a ring of the
allocated indices from the oldest to the youngest and a stack of the free ones.

* `ChainInv` — the two lists the cells represent.  A free cell is told from an allocated one by
  equal links, which in the ring only a single allocated cell has, and there they are the head.
* `allocate_spec`, `rejuvenate_spec`, `free_spec`, `oldest_spec`, `allocated_iff` — one theorem for
  each operation.
* `rejuvenate_youngest` — the youngest index stays where it is.
-/

set_option autoImplicit false

namespace QueueDpdk.LibVig

open Lib

def DCHAIN_RESERVED : Int := 2
def ALLOC_LIST_HEAD : Int := 0
def FREE_LIST_HEAD : Int := 1
def INDEX_SHIFT : Int := DCHAIN_RESERVED

/-- `struct dchain_cell *cells`. -/
abbrev Cells := Int → Cell Int

/-- Both links of a cell of the free list. -/
def setBoth (cells : Cells) (u v : Int) : Cells :=
  let cells := setNext cells u v
  setPrev cells u (cells u).next

/-- The while loop of `dchain_impl_init`, with the number of its iterations. -/
def initFree (cells : Cells) (i : Int) : Nat → Cells
  | 0 => cells
  | n + 1 => initFree (setBoth cells i (i + 1)) (i + 1) n

def dchainImplInit (cells : Cells) (size : Nat) : Cells :=
  let cells := setPrev cells ALLOC_LIST_HEAD 0
  let cells := setNext cells ALLOC_LIST_HEAD 0
  let cells := setBoth cells FREE_LIST_HEAD INDEX_SHIFT
  let cells := initFree cells INDEX_SHIFT (size - 1)
  setBoth cells (INDEX_SHIFT + (size - 1 : Nat)) FREE_LIST_HEAD

def dchainImplAllocateNewIndex (cells : Cells) : Option (Cells × Int) :=
  let allocated := (cells FREE_LIST_HEAD).next
  if allocated = FREE_LIST_HEAD then none
  else
    let cells := setBoth cells FREE_LIST_HEAD (cells allocated).next
    let cells := setNext cells allocated ALLOC_LIST_HEAD
    let cells := setPrev cells allocated (cells ALLOC_LIST_HEAD).prev
    let cells := setNext cells (cells ALLOC_LIST_HEAD).prev allocated
    let cells := setPrev cells ALLOC_LIST_HEAD allocated
    some (cells, allocated - INDEX_SHIFT)

def dchainImplFreeIndex (cells : Cells) (index : Int) : Option Cells :=
  let freed := index + INDEX_SHIFT
  let freedPrev := (cells freed).prev
  let freedNext := (cells freed).next
  if freedNext = freedPrev ∧ freedPrev ≠ ALLOC_LIST_HEAD then none
  else
    let cells := setNext cells freedPrev freedNext
    let cells := setPrev cells freedNext freedPrev
    let cells := setBoth cells freed (cells FREE_LIST_HEAD).next
    some (setBoth cells FREE_LIST_HEAD freed)

def dchainImplGetOldestIndex (cells : Cells) : Option Int :=
  if (cells ALLOC_LIST_HEAD).next = ALLOC_LIST_HEAD then none
  else some ((cells ALLOC_LIST_HEAD).next - INDEX_SHIFT)

def dchainImplRejuvenateIndex (cells : Cells) (index : Int) : Option Cells :=
  let lifted := index + INDEX_SHIFT
  let liftedNext := (cells lifted).next
  let liftedPrev := (cells lifted).prev
  if liftedNext = liftedPrev then
    if liftedNext ≠ ALLOC_LIST_HEAD then none else some cells
  else
    let cells := setNext cells liftedPrev liftedNext
    let cells := setPrev cells liftedNext liftedPrev
    let alHeadPrev := (cells ALLOC_LIST_HEAD).prev
    let cells := setNext cells lifted ALLOC_LIST_HEAD
    let cells := setPrev cells lifted alHeadPrev
    let cells := setNext cells alHeadPrev lifted
    some (setPrev cells ALLOC_LIST_HEAD lifted)

def dchainImplIsIndexAllocated (cells : Cells) (index : Int) : Bool :=
  let lifted := index + INDEX_SHIFT
  if (cells lifted).next = (cells lifted).prev then decide ((cells lifted).next = ALLOC_LIST_HEAD)
  else true

theorem setBoth_next (cells : Cells) (u v w : Int) :
    (setBoth cells u v w).next = if w = u then v else (cells w).next := by
  simp only [setBoth, setPrev_next, setNext_next]

theorem setBoth_prev (cells : Cells) (u v w : Int) :
    (setBoth cells u v w).prev = if w = u then v else (cells w).prev := by
  simp only [setBoth, setPrev_prev, setNext_prev, setNext_next, if_pos]

theorem setBoth_self (cells : Cells) (u v : Int) : setBoth cells u v u = ⟨v, v⟩ := by
  apply Cell.ext
  · rw [setBoth_prev, if_pos rfl]
  · rw [setBoth_next, if_pos rfl]

theorem setBoth_of_ne {cells : Cells} {u v w : Int} (hu : w ≠ u) :
    setBoth cells u v w = cells w := by
  apply Cell.ext
  · rw [setBoth_prev, if_neg hu]
  · rw [setBoth_next, if_neg hu]

/-! ## The lists a store represents -/

/-- The cells of indices. -/
def shifted (l : List Int) : List Int := l.map (· + INDEX_SHIFT)

/-- The free list: a chain whose cells have equal links. -/
structure Stack (cells : Cells) (l : List Int) : Prop where
  chain : Chain cells FREE_LIST_HEAD l FREE_LIST_HEAD
  both : ∀ u, u = FREE_LIST_HEAD ∨ u ∈ l → (cells u).prev = (cells u).next

/-- **Representation invariant**: `alloc` from the oldest to the youngest allocated index, `free`
    from the next one to be allocated. -/
structure ChainInv (cells : Cells) (size : Nat) (alloc free : List Int) : Prop where
  ring : Segment cells ALLOC_LIST_HEAD (shifted alloc) ALLOC_LIST_HEAD
  stack : Stack cells (shifted free)
  perm : (alloc ++ free).Perm ((List.range size).map Int.ofNat)

section Indices

variable {cells : Cells} {size : Nat} {alloc free : List Int}

theorem ChainInv.nodup (h : ChainInv cells size alloc free) : (alloc ++ free).Nodup :=
  h.perm.nodup_iff.mpr (List.nodup_range.map (fun _ _ h => Int.ofNat.inj h))

theorem ChainInv.mem_iff (h : ChainInv cells size alloc free) (i : Int) :
    i ∈ alloc ∨ i ∈ free ↔ 0 ≤ i ∧ i < size := by
  rw [← List.mem_append, h.perm.mem_iff, List.mem_map]
  constructor
  · rintro ⟨n, hn, rfl⟩
    rw [List.mem_range] at hn
    exact ⟨Int.natCast_nonneg n, Int.ofNat_lt.mpr hn⟩
  · rintro ⟨h0, h1⟩
    exact ⟨i.toNat, List.mem_range.mpr (by omega), Int.toNat_of_nonneg h0⟩

theorem ChainInv.length (h : ChainInv cells size alloc free) : alloc.length + free.length = size := by
  have := h.perm.length_eq
  rwa [List.length_append, List.length_map, List.length_range] at this

theorem mem_shifted {l : List Int} {u : Int} : u ∈ shifted l ↔ u - INDEX_SHIFT ∈ l := by
  unfold shifted
  rw [List.mem_map]
  constructor
  · rintro ⟨i, hi, rfl⟩
    rwa [Int.add_sub_cancel]
  · intro h
    exact ⟨_, h, Int.sub_add_cancel u INDEX_SHIFT⟩

theorem ChainInv.two_le (h : ChainInv cells size alloc free) {u : Int}
    (hu : u ∈ shifted alloc ∨ u ∈ shifted free) : 2 ≤ u := by
  rw [mem_shifted, mem_shifted, h.mem_iff] at hu
  have : INDEX_SHIFT = 2 := rfl
  omega

theorem ChainInv.ring_nodup (h : ChainInv cells size alloc free) :
    (ALLOC_LIST_HEAD :: shifted alloc).Nodup := by
  refine List.nodup_cons.mpr ⟨?_, ?_⟩
  · intro hmem
    have := h.two_le (Or.inl hmem)
    unfold ALLOC_LIST_HEAD at this
    omega
  · exact (List.nodup_append.mp h.nodup).1.map (fun _ _ h => by simpa using h)

theorem ChainInv.disjoint (h : ChainInv cells size alloc free) {u : Int}
    (hu : u ∈ shifted alloc) : u ∉ shifted free := by
  rw [mem_shifted] at hu ⊢
  exact fun hf => (List.nodup_append.mp h.nodup).2.2 _ hu _ hf rfl

end Indices

/-! ## Allocated or free -/

section Status

variable {cells : Cells} {size : Nat} {alloc free : List Int}

theorem ChainInv.free_links (h : ChainInv cells size alloc free) {i : Int} (hi : i ∈ free) :
    (cells (i + INDEX_SHIFT)).next = (cells (i + INDEX_SHIFT)).prev ∧
      (cells (i + INDEX_SHIFT)).next ≠ ALLOC_LIST_HEAD := by
  have hu : i + INDEX_SHIFT ∈ shifted free := by rwa [mem_shifted, Int.add_sub_cancel]
  refine ⟨(h.stack.both _ (Or.inr hu)).symm, ?_⟩
  rcases h.stack.chain.next_mem (Or.inr hu) with hn | hn
  · have := h.two_le (Or.inr hn)
    unfold ALLOC_LIST_HEAD
    omega
  · rw [hn]
    decide

/-- The neighbours of an allocated cell. -/
theorem ChainInv.alloc_links (h : ChainInv cells size alloc free) {l₁ l₂ : List Int} {i : Int}
    (hi : alloc = l₁ ++ i :: l₂) :
    (cells (i + INDEX_SHIFT)).prev = (shifted l₁).getLastD ALLOC_LIST_HEAD ∧
      (cells (i + INDEX_SHIFT)).next = (shifted l₂).headD ALLOC_LIST_HEAD := by
  have hring := h.ring
  subst hi
  unfold shifted at hring
  rw [List.map_append, List.map_cons] at hring
  exact hring.neighbours

/-- Two equal links in the ring belong to its only node. -/
theorem ChainInv.alone (h : ChainInv cells size alloc free) {l₁ l₂ : List Int} {i : Int}
    (hi : alloc = l₁ ++ i :: l₂)
    (heq : (cells (i + INDEX_SHIFT)).next = (cells (i + INDEX_SHIFT)).prev) :
    l₁ = [] ∧ l₂ = [] := by
  obtain ⟨hprev, hnext⟩ := h.alloc_links hi
  have hnd := h.ring_nodup
  subst hi
  unfold shifted at hnd hprev hnext
  rw [List.map_append, List.map_cons] at hnd
  rw [hprev, hnext] at heq
  obtain ⟨hhead, hlist⟩ := List.nodup_cons.mp hnd
  rw [List.mem_append, List.mem_cons, not_or, not_or] at hhead
  cases l₂ with
  | nil =>
    refine ⟨?_, rfl⟩
    cases l₁ with
    | nil => rfl
    | cons j l₁ =>
      rw [List.map_cons, List.getLastD_cons] at heq
      rcases getLastD_mem (j + INDEX_SHIFT) (l₁.map (· + INDEX_SHIFT)) with hl | hl
      · exact absurd (List.mem_cons.mpr (Or.inl (heq.trans hl))) hhead.1
      · rw [← heq] at hl
        exact absurd (List.mem_cons_of_mem _ hl) hhead.1
  | cons j l₂ =>
    exfalso
    rw [List.map_cons] at heq
    change j + INDEX_SHIFT = _ at heq
    rcases getLastD_mem ALLOC_LIST_HEAD (l₁.map (· + INDEX_SHIFT)) with hl | hl
    · rw [hl] at heq
      exact hhead.2.2 (by rw [← heq]; exact List.mem_cons_self)
    · rw [← heq] at hl
      exact (List.nodup_append.mp hlist).2.2 _ hl _
        (List.mem_cons_of_mem _ List.mem_cons_self) rfl

theorem allocated_iff (h : ChainInv cells size alloc free) {i : Int} (h0 : 0 ≤ i) (h1 : i < size) :
    dchainImplIsIndexAllocated cells i = true ↔ i ∈ alloc := by
  simp only [dchainImplIsIndexAllocated]
  rcases (h.mem_iff i).mpr ⟨h0, h1⟩ with hi | hi
  · refine iff_of_true ?_ hi
    obtain ⟨l₁, l₂, hsplit⟩ := List.append_of_mem hi
    split
    · rename_i heq
      obtain ⟨rfl, rfl⟩ := h.alone hsplit heq
      exact decide_eq_true (h.alloc_links hsplit).2
    · rfl
  · obtain ⟨heq, hne⟩ := h.free_links hi
    refine iff_of_false ?_ (fun ha => ?_)
    · simp only [if_pos heq, decide_eq_true_eq]
      exact hne
    · exact (List.nodup_append.mp h.nodup).2.2 _ ha _ hi rfl

theorem oldest_spec (h : ChainInv cells size alloc free) :
    dchainImplGetOldestIndex cells = alloc.head? := by
  have hnext := h.ring.next_eq
  unfold dchainImplGetOldestIndex
  rw [hnext]
  cases alloc with
  | nil => rfl
  | cons i l =>
    have hu : i + INDEX_SHIFT ∈ shifted (i :: l) := List.mem_cons_self
    have h2 := h.two_le (Or.inl hu)
    have hne : i + INDEX_SHIFT ≠ ALLOC_LIST_HEAD := by
      unfold ALLOC_LIST_HEAD
      omega
    show (if i + INDEX_SHIFT = ALLOC_LIST_HEAD then none
      else some (i + INDEX_SHIFT - INDEX_SHIFT)) = some i
    rw [if_neg hne, Int.add_sub_cancel]

end Status

/-! ## Moving indices -/

theorem Stack.frame {cells cells' : Cells} {l : List Int} (h : Stack cells l)
    (hu : ∀ u, u = FREE_LIST_HEAD ∨ u ∈ l → cells' u = cells u) : Stack cells' l := by
  refine ⟨h.chain.congr (fun u hm => by rw [hu u hm]), ?_⟩
  intro u hm
  rw [hu u hm]
  exact h.both u hm

theorem Stack.pop {cells : Cells} {x : Int} {l : List Int} (h : Stack cells (x :: l))
    (hl : FREE_LIST_HEAD ∉ l) : Stack (setBoth cells FREE_LIST_HEAD (cells x).next) l := by
  have hne : ∀ u ∈ l, u ≠ FREE_LIST_HEAD := fun u hu he => hl (he ▸ hu)
  refine ⟨h.chain.2.restart (by rw [setBoth_self]) ?_, ?_⟩
  · intro u hu
    rw [setBoth_of_ne (hne u hu)]
  · rintro u (rfl | hu)
    · rw [setBoth_self]
    · rw [setBoth_of_ne (hne u hu)]
      exact h.both u (Or.inr (List.mem_cons_of_mem x hu))

theorem Stack.push {cells : Cells} {x : Int} {l : List Int} (h : Stack cells l) (hx : x ∉ l)
    (hx1 : x ≠ FREE_LIST_HEAD) (hl : FREE_LIST_HEAD ∉ l) :
    Stack (setBoth (setBoth cells x (cells FREE_LIST_HEAD).next) FREE_LIST_HEAD x) (x :: l) := by
  have hkeep : ∀ u ∈ l, setBoth (setBoth cells x (cells FREE_LIST_HEAD).next) FREE_LIST_HEAD x u =
      cells u := by
    intro u hu
    have hu1 : u ≠ FREE_LIST_HEAD := fun he => hl (he ▸ hu)
    have hux : u ≠ x := fun he => hx (he ▸ hu)
    rw [setBoth_of_ne hu1, setBoth_of_ne hux]
  refine ⟨⟨by rw [setBoth_self], h.chain.restart ?_ ?_⟩, ?_⟩
  · rw [setBoth_of_ne hx1, setBoth_self]
  · intro u hu
    rw [hkeep u hu]
  · intro u hu
    rw [List.mem_cons] at hu
    rcases hu with rfl | rfl | hu
    · rw [setBoth_self]
    · rw [setBoth_of_ne hx1, setBoth_self]
    · rw [hkeep u hu]
      exact h.both u (Or.inr hu)

section Moves

variable {cells : Cells} {size : Nat} {alloc free : List Int}

theorem ChainInv.ne_heads (h : ChainInv cells size alloc free) {u : Int}
    (hu : u ∈ shifted alloc ∨ u ∈ shifted free) : u ≠ ALLOC_LIST_HEAD ∧ u ≠ FREE_LIST_HEAD := by
  have := h.two_le hu
  unfold ALLOC_LIST_HEAD FREE_LIST_HEAD
  omega

theorem shifted_mem {l : List Int} {i : Int} (h : i ∈ l) : i + INDEX_SHIFT ∈ shifted l :=
  List.mem_map_of_mem h

/-- Nodes of the ring, its head included, are not on the stack. -/
theorem ChainInv.ring_ne_stack (h : ChainInv cells size alloc free) {u v : Int}
    (hu : u = ALLOC_LIST_HEAD ∨ u ∈ shifted alloc) (hv : v = FREE_LIST_HEAD ∨ v ∈ shifted free) :
    v ≠ u := by
  rintro rfl
  rcases hu with rfl | hu
  · rcases hv with hv | hv
    · cases hv
    · exact (h.ne_heads (Or.inr hv)).1 rfl
  · rcases hv with rfl | hv
    · exact (h.ne_heads (Or.inl hu)).2 rfl
    · exact h.disjoint hu hv

/-- The first free index is appended to the ring. -/
theorem allocate_spec {i : Int} {rest : List Int} (h : ChainInv cells size alloc (i :: rest)) :
    ∃ cells', dchainImplAllocateNewIndex cells = some (cells', i) ∧
      ChainInv cells' size (alloc ++ [i]) rest := by
  have hfirst : (cells FREE_LIST_HEAD).next = i + INDEX_SHIFT := h.stack.chain.1
  have hmem : i + INDEX_SHIFT ∈ shifted (i :: rest) := List.mem_cons_self
  obtain ⟨hx0, hx1⟩ := h.ne_heads (Or.inr hmem)
  have hxring : i + INDEX_SHIFT ∉ shifted alloc := fun ha => h.disjoint ha hmem
  have hxrest : i + INDEX_SHIFT ∉ shifted rest := by
    rw [mem_shifted, Int.add_sub_cancel]
    exact (List.nodup_cons.mp (List.nodup_append.mp h.nodup).2.1).1
  have hhead : FREE_LIST_HEAD ∉ shifted rest := fun hf =>
    (h.ne_heads (Or.inr (List.mem_cons_of_mem (i + INDEX_SHIFT) hf))).2 rfl
  have hstack := h.stack.pop hhead
  obtain ⟨popped, hpopped⟩ : ∃ popped, popped = setBoth cells FREE_LIST_HEAD
    (cells (i + INDEX_SHIFT)).next := ⟨_, rfl⟩
  rw [← hpopped] at hstack
  have hring : Segment popped ALLOC_LIST_HEAD (shifted alloc) ALLOC_LIST_HEAD := by
    have hkeep : ∀ u, u = ALLOC_LIST_HEAD ∨ u ∈ shifted alloc → popped u = cells u := fun u hu => by
      rw [hpopped, setBoth_of_ne (h.ring_ne_stack hu (Or.inl rfl)).symm]
    exact h.ring.congr (fun u hu => by rw [hkeep u hu]) (fun u hu => by rw [hkeep u hu.symm])
  have hlast : (popped ALLOC_LIST_HEAD).prev = (shifted alloc).getLastD ALLOC_LIST_HEAD :=
    hring.prev_eq
  have hnot0 : ALLOC_LIST_HEAD ∉ shifted alloc := fun ha => (h.ne_heads (Or.inl ha)).1 rfl
  refine ⟨link (link popped (i + INDEX_SHIFT) ALLOC_LIST_HEAD)
    ((shifted alloc).getLastD ALLOC_LIST_HEAD) (i + INDEX_SHIFT), ?_, ?_⟩
  · rw [← link_link hx0]
    simp only [dchainImplAllocateNewIndex, hfirst, if_neg hx1, Int.add_sub_cancel, ← hpopped,
      setNext_prev, hlast, setPrev_prev, if_neg hx0.symm]
  · refine ⟨?_, ?_, ?_⟩
    · unfold shifted at hring hxring hnot0 ⊢
      rw [List.map_append]
      exact hring.append (h.ring_nodup) hnot0 hxring hx0 hx0
    · refine hstack.frame ?_
      intro u hu
      have hux : u ≠ i + INDEX_SHIFT := by
        rintro rfl
        rcases hu with hu | hu
        · exact hx1 hu
        · exact hxrest hu
      have hold : u = FREE_LIST_HEAD ∨ u ∈ shifted (i :: rest) :=
        hu.imp id (List.mem_cons_of_mem (i + INDEX_SHIFT))
      rw [link_of_ne (h.ring_ne_stack (getLastD_mem _ _) hold) hux,
        link_of_ne hux (h.ring_ne_stack (Or.inl rfl) hold)]
    · rw [List.append_assoc]
      exact h.perm

theorem allocate_full (h : ChainInv cells size alloc []) :
    dchainImplAllocateNewIndex cells = none := by
  have hnext : (cells FREE_LIST_HEAD).next = FREE_LIST_HEAD := h.stack.chain
  simp only [dchainImplAllocateNewIndex, hnext, if_pos]

/-- Taking an index out of the ring. -/
theorem ChainInv.unlink {i : Int} {l₁ l₂ : List Int}
    (h : ChainInv cells size (l₁ ++ i :: l₂) free) :
    let cells' := link cells (cells (i + INDEX_SHIFT)).prev (cells (i + INDEX_SHIFT)).next
    Segment cells' ALLOC_LIST_HEAD (shifted (l₁ ++ l₂)) ALLOC_LIST_HEAD ∧
      Stack cells' (shifted free) := by
  intro cells'
  obtain ⟨hprev, hnext⟩ := h.alloc_links rfl
  have hring := h.ring
  have hnd := h.ring_nodup
  have hnot0 : ALLOC_LIST_HEAD ∉ shifted (l₁ ++ i :: l₂) := fun ha => (h.ne_heads (Or.inl ha)).1 rfl
  have hsub : ∀ u, u ∈ shifted l₁ ∨ u ∈ shifted l₂ → u ∈ shifted (l₁ ++ i :: l₂) := by
    intro u hu
    simp only [mem_shifted, List.mem_append, List.mem_cons] at hu ⊢
    exact hu.imp id Or.inr
  refine ⟨?_, h.stack.frame ?_⟩
  · unfold shifted at hring hnd hnot0 ⊢
    rw [List.map_append, List.map_cons] at hring hnd hnot0
    rw [List.map_append]
    show Segment (link cells _ _) _ _ _
    rw [hprev, hnext]
    exact hring.unlink hnd hnot0
  · intro u hu
    show link cells _ _ u = cells u
    rw [hprev, hnext]
    refine link_of_ne (h.ring_ne_stack ?_ hu) (h.ring_ne_stack ?_ hu)
    · exact (getLastD_mem _ _).imp id (fun hl => hsub _ (Or.inl hl))
    · exact (headD_mem _ _).imp id (fun hl => hsub _ (Or.inr hl))

/-- An allocated index goes back on the stack. -/
theorem free_spec {i : Int} {l₁ l₂ : List Int} (h : ChainInv cells size (l₁ ++ i :: l₂) free) :
    ∃ cells', dchainImplFreeIndex cells i = some cells' ∧
      ChainInv cells' size (l₁ ++ l₂) (i :: free) := by
  obtain ⟨hring, hstack⟩ := h.unlink
  have hguard : ¬((cells (i + INDEX_SHIFT)).next = (cells (i + INDEX_SHIFT)).prev ∧
      (cells (i + INDEX_SHIFT)).prev ≠ ALLOC_LIST_HEAD) := by
    rintro ⟨heq, hne⟩
    obtain ⟨rfl, rfl⟩ := h.alone rfl heq
    exact hne (h.alloc_links rfl).1
  have hmem : i + INDEX_SHIFT ∈ shifted (l₁ ++ i :: l₂) := shifted_mem (by simp)
  have hx1 := (h.ne_heads (Or.inl hmem)).2
  have hxfree : i + INDEX_SHIFT ∉ shifted free := h.disjoint hmem
  have hhead : FREE_LIST_HEAD ∉ shifted free := fun hf => (h.ne_heads (Or.inr hf)).2 rfl
  refine ⟨_, by simp only [dchainImplFreeIndex, if_neg hguard]; rfl, ?_, ?_, ?_⟩
  · -- the pushes touch neither the head nor the other nodes of the ring
    have hkeep : ∀ u, u = ALLOC_LIST_HEAD ∨ u ∈ shifted (l₁ ++ l₂) →
        u ≠ FREE_LIST_HEAD ∧ u ≠ i + INDEX_SHIFT := by
      rintro u (rfl | hu)
      · exact ⟨by decide, (h.ne_heads (Or.inl hmem)).1.symm⟩
      · have hold : u ∈ shifted (l₁ ++ i :: l₂) := by
          simp only [mem_shifted, List.mem_append, List.mem_cons] at hu ⊢
          exact hu.imp id Or.inr
        refine ⟨(h.ne_heads (Or.inl hold)).2, ?_⟩
        rintro rfl
        rw [mem_shifted, Int.add_sub_cancel] at hu
        have hnd := (List.nodup_append.mp h.nodup).1
        exact (List.nodup_middle.mp hnd |> List.nodup_cons.mp).1 hu
    refine hring.congr ?_ ?_
    · intro u hu
      obtain ⟨h1, h2⟩ := hkeep u hu
      rw [setBoth_of_ne h1, setBoth_of_ne h2]
      rfl
    · intro u hu
      obtain ⟨h1, h2⟩ := hkeep u hu.symm
      rw [setBoth_of_ne h1, setBoth_of_ne h2]
      rfl
  · exact hstack.push hxfree hx1 hhead
  · refine List.Perm.trans ?_ h.perm
    simp only [List.append_assoc, List.cons_append]
    exact List.Perm.append_left l₁ List.perm_middle

/-- An allocated index becomes the youngest one. -/
theorem rejuvenate_spec {i : Int} {l₁ l₂ : List Int}
    (h : ChainInv cells size (l₁ ++ i :: l₂) free) :
    ∃ cells', dchainImplRejuvenateIndex cells i = some cells' ∧
      ChainInv cells' size (l₁ ++ l₂ ++ [i]) free := by
  have hperm : (l₁ ++ l₂ ++ [i] ++ free).Perm ((List.range size).map Int.ofNat) := by
    refine List.Perm.trans ?_ h.perm
    simp only [List.append_assoc, List.cons_append, List.nil_append]
    exact List.Perm.append_left l₁ List.perm_middle
  by_cases heq : (cells (i + INDEX_SHIFT)).next = (cells (i + INDEX_SHIFT)).prev
  · obtain ⟨rfl, rfl⟩ := h.alone rfl heq
    refine ⟨cells, ?_, h.ring, h.stack, hperm⟩
    obtain ⟨hprev, hnext⟩ := h.alloc_links rfl
    simp only [dchainImplRejuvenateIndex, hprev, hnext]
    rfl
  · obtain ⟨hring, hstack⟩ := h.unlink
    have hmem : i + INDEX_SHIFT ∈ shifted (l₁ ++ i :: l₂) := shifted_mem (by simp)
    obtain ⟨hx0, hx1⟩ := h.ne_heads (Or.inl hmem)
    have hsub : ∀ u ∈ shifted (l₁ ++ l₂), u ∈ shifted (l₁ ++ i :: l₂) := by
      intro u hu
      simp only [mem_shifted, List.mem_append, List.mem_cons] at hu ⊢
      exact hu.imp id Or.inr
    have hx : i + INDEX_SHIFT ∉ shifted (l₁ ++ l₂) := by
      rw [mem_shifted, Int.add_sub_cancel]
      exact (List.nodup_cons.mp (List.nodup_middle.mp (List.nodup_append.mp h.nodup).1)).1
    have hnot0 : ALLOC_LIST_HEAD ∉ shifted (l₁ ++ l₂) := fun ha =>
      (h.ne_heads (Or.inl (hsub _ ha))).1 rfl
    have hnd : (ALLOC_LIST_HEAD :: shifted (l₁ ++ l₂)).Nodup := by
      refine List.nodup_cons.mpr ⟨hnot0, ?_⟩
      have hall := (List.nodup_cons.mp h.ring_nodup).2
      unfold shifted at hall ⊢
      rw [List.map_append, List.map_cons] at hall
      rw [List.map_append]
      exact (List.nodup_cons.mp (List.nodup_middle.mp hall)).2
    obtain ⟨rest, hrest⟩ : ∃ rest, rest = link cells (cells (i + INDEX_SHIFT)).prev
      (cells (i + INDEX_SHIFT)).next := ⟨_, rfl⟩
    rw [← hrest] at hring hstack
    have hlast := hring.prev_eq
    refine ⟨link (link rest (i + INDEX_SHIFT) ALLOC_LIST_HEAD)
      ((shifted (l₁ ++ l₂)).getLastD ALLOC_LIST_HEAD) (i + INDEX_SHIFT), ?_, ?_, ?_, hperm⟩
    · rw [← link_link hx0]
      unfold link at hrest
      simp only [dchainImplRejuvenateIndex, if_neg heq, ← hrest, hlast]
    · rw [show shifted (l₁ ++ l₂ ++ [i]) = shifted (l₁ ++ l₂) ++ [i + INDEX_SHIFT] by
        simp [shifted]]
      exact hring.append hnd hnot0 hx hx0 hx0
    · refine hstack.frame ?_
      intro u hu
      have hux : u ≠ i + INDEX_SHIFT := h.ring_ne_stack (Or.inr hmem) hu
      have hu0 : u ≠ ALLOC_LIST_HEAD := h.ring_ne_stack (Or.inl rfl) hu
      have hul : u ≠ (shifted (l₁ ++ l₂)).getLastD ALLOC_LIST_HEAD :=
        h.ring_ne_stack ((getLastD_mem _ _).imp id (hsub _)) hu
      rw [link_of_ne hul hux, link_of_ne hux hu0]

/-- The youngest index precedes the head of the ring. -/
theorem youngest_iff (h : ChainInv cells size alloc free) {i : Int} (hi : i ∈ alloc) :
    (cells ALLOC_LIST_HEAD).prev = i + INDEX_SHIFT ↔ ∃ l, alloc = l ++ [i] := by
  have hprev := h.ring.prev_eq
  constructor
  · intro hyoungest
    rcases List.eq_nil_or_concat alloc with rfl | ⟨l, j, rfl⟩
    · cases hi
    · rw [hyoungest] at hprev
      simp [shifted] at hprev
      exact ⟨l, by rw [hprev, List.concat_eq_append]⟩
  · rintro ⟨l, rfl⟩
    rw [hprev]
    simp [shifted]

/-- Rejuvenating the youngest index leaves the lists as they are. -/
theorem rejuvenate_youngest {i : Int} {l : List Int} (h : ChainInv cells size (l ++ [i]) free) :
    dchainImplRejuvenateIndex cells i = some cells := by
  obtain ⟨hprev, hnext⟩ := h.alloc_links rfl
  by_cases heq : (cells (i + INDEX_SHIFT)).next = (cells (i + INDEX_SHIFT)).prev
  · obtain ⟨rfl, -⟩ := h.alone rfl heq
    simp only [dchainImplRejuvenateIndex, hprev, hnext]
    rfl
  · have hmem : i + INDEX_SHIFT ∈ shifted (l ++ [i]) := shifted_mem (by simp)
    have hyoungest := (youngest_iff h (by simp)).mpr ⟨l, rfl⟩
    have hlast : (cells ((shifted l).getLastD ALLOC_LIST_HEAD)).next = i + INDEX_SHIFT := by
      have hring := h.ring
      unfold shifted at hring ⊢
      rw [List.map_append] at hring
      exact (Segment.split.mp hring).1.last_next
    have hx0 := (h.ne_heads (Or.inl hmem)).1
    obtain ⟨q, hq⟩ : ∃ q, q = (shifted l).getLastD ALLOC_LIST_HEAD := ⟨_, rfl⟩
    rw [← hq] at hprev hlast
    change _ = ALLOC_LIST_HEAD at hnext
    rw [hprev, hnext] at heq
    have hback : (setPrev (setNext cells q ALLOC_LIST_HEAD) ALLOC_LIST_HEAD q
        ALLOC_LIST_HEAD).prev = q := by
      rw [setPrev_prev, if_pos rfl]
    simp only [dchainImplRejuvenateIndex, if_neg heq, hprev, hnext, hback]
    rw [link_link hx0]
    exact congrArg some (relink hlast (Cell.ext hprev hnext) hyoungest)

theorem rejuvenate_unallocated {i : Int} (h : ChainInv cells size alloc free) (hi : i ∈ free) :
    dchainImplRejuvenateIndex cells i = none := by
  obtain ⟨heq, hne⟩ := h.free_links hi
  simp only [dchainImplRejuvenateIndex, if_pos heq, if_pos hne]

end Moves

/-! ## Initialisation -/

theorem initFree_eq (cells : Cells) (i : Int) (n : Nat) (w : Int) :
    initFree cells i n w = if i ≤ w ∧ w < i + n then ⟨w + 1, w + 1⟩ else cells w := by
  induction n generalizing cells i with
  | zero =>
    rw [if_neg (by omega)]
    rfl
  | succ n ih =>
    rw [initFree, ih]
    by_cases hw : w = i
    · subst hw
      rw [if_neg (by omega), if_pos (by omega), setBoth_self]
    · rw [setBoth_of_ne hw]
      split <;> split <;> first | rfl | omega

/-- Cells that lead to their successors form a chain. -/
theorem chain_of_successors {cells : Cells} {b : Int} :
    ∀ (n : Nat) (a : Int), (∀ u, a ≤ u → u < a + n → (cells u).next = u + 1) →
      (cells (a + n)).next = b →
      Chain cells a ((List.range n).map (fun k : Nat => a + 1 + k)) b := by
  intro n
  induction n with
  | zero =>
    intro a _ hb
    show (cells a).next = b
    rwa [Int.natCast_zero, Int.add_zero] at hb
  | succ n ih =>
    intro a hsucc hb
    have htail := ih (a + 1) (fun u h0 h1 => hsucc u (by omega) (by omega))
      (by rw [← hb]; congr 2; omega)
    rw [List.range_succ_eq_map, List.map_cons, List.map_map]
    refine ⟨?_, ?_⟩
    · rw [hsucc a (Int.le_refl a) (by omega)]
      simp
    · have hmap : (List.range n).map ((fun k : Nat => a + 1 + (k : Int)) ∘ Nat.succ) =
          (List.range n).map (fun k : Nat => a + 1 + 1 + (k : Int)) := by
        apply List.map_congr_left
        intro k _
        simp only [Function.comp]
        omega
      rw [hmap]
      simpa using htail

/-- All indices of a new chain are free, in ascending order. -/
theorem init_spec (cells : Cells) {size : Nat} (hs : 1 ≤ size) :
    ChainInv (dchainImplInit cells size) size [] ((List.range size).map Int.ofNat) := by
  obtain ⟨n, rfl⟩ : ∃ n, size = n + 1 := ⟨size - 1, by omega⟩
  -- the last cell leads back to the head, every other free cell to its successor
  have hlast : dchainImplInit cells (n + 1) (2 + n) = ⟨1, 1⟩ := setBoth_self _ _ _
  have hother : ∀ u, u ≠ 2 + (n : Int) → dchainImplInit cells (n + 1) u =
      if 2 ≤ u ∧ u < 2 + (n : Int) then ⟨u + 1, u + 1⟩
      else setBoth (setNext (setPrev cells 0 0) 0 0) 1 2 u := by
    intro u hu
    have h1 : dchainImplInit cells (n + 1) u =
        initFree (setBoth (setNext (setPrev cells 0 0) 0 0) 1 2) 2 n u := setBoth_of_ne hu
    rw [h1, initFree_eq]
  have hsucc : ∀ u, 1 ≤ u → u < 2 + (n : Int) → dchainImplInit cells (n + 1) u = ⟨u + 1, u + 1⟩ := by
    intro u h1 h2
    rw [hother u (by omega)]
    by_cases hu : u = 1
    · subst hu
      rw [if_neg (by omega), setBoth_self]
      rfl
    · rw [if_pos (by omega)]
  have hhead : dchainImplInit cells (n + 1) 0 = ⟨0, 0⟩ := by
    rw [hother 0 (by omega), if_neg (by omega), setBoth_of_ne (by omega)]
    apply Cell.ext
    · rw [setNext_prev, setPrev_prev, if_pos rfl]
    · rw [setNext_next, if_pos rfl]
  have hshift : shifted ((List.range (n + 1)).map Int.ofNat) =
      (List.range (n + 1)).map (fun k : Nat => (1 : Int) + 1 + k) := by
    unfold shifted
    rw [List.map_map]
    apply List.map_congr_left
    intro k _
    show (k : Int) + 2 = 1 + 1 + k
    omega
  refine ⟨⟨?_, ?_⟩, ⟨?_, ?_⟩, List.Perm.refl _⟩
  · show (dchainImplInit cells (n + 1) 0).next = 0
    rw [hhead]
  · show (dchainImplInit cells (n + 1) 0).prev = 0
    rw [hhead]
  · rw [hshift]
    refine chain_of_successors (n + 1) 1 (fun u h1 h2 => ?_) ?_
    · rw [hsucc u h1 (by omega)]
    · rw [show (1 : Int) + (n + 1 : Nat) = 2 + n by omega, hlast]
      rfl
  · intro u hu
    have hrange : 1 ≤ u ∧ u ≤ 2 + (n : Int) := by
      rw [hshift, List.mem_map] at hu
      rcases hu with rfl | ⟨k, hk, rfl⟩
      · exact ⟨by decide, by show (1 : Int) ≤ 2 + n; omega⟩
      · rw [List.mem_range] at hk
        omega
    by_cases hu' : u = 2 + (n : Int)
    · subst hu'
      rw [hlast]
    · rw [hsucc u hrange.1 (by omega)]

/-! ## Time stamps (`double-chain.c`) -/

/-- `vigor_time_t`. -/
abbrev VigorTime := UInt64

/-- `struct DoubleChain`. -/
structure DoubleChain where
  cells : Cells
  timestamps : Int → VigorTime

/-- `dchain_allocate` on freshly allocated memory. -/
def dchainAllocate (memory : DoubleChain) (indexRange : Nat) : DoubleChain :=
  { memory with cells := dchainImplInit memory.cells indexRange }

def dchainAllocateNewIndex (chain : DoubleChain) (time : VigorTime) : Option (DoubleChain × Int) :=
  match dchainImplAllocateNewIndex chain.cells with
  | some (cells, index) => some (⟨cells, Function.update chain.timestamps index time⟩, index)
  | none => none

def dchainRejuvenateIndex (chain : DoubleChain) (index : Int) (time : VigorTime) :
    Option DoubleChain :=
  match dchainImplRejuvenateIndex chain.cells index with
  | some cells => some ⟨cells, Function.update chain.timestamps index time⟩
  | none => none

def dchainExpireOneIndex (chain : DoubleChain) (time : VigorTime) : Option (DoubleChain × Int) :=
  match dchainImplGetOldestIndex chain.cells with
  | some index =>
    if chain.timestamps index < time then
      match dchainImplFreeIndex chain.cells index with
      | some cells => some ({ chain with cells := cells }, index)
      | none => none
    else none
  | none => none

def dchainIsIndexAllocated (chain : DoubleChain) (index : Int) : Bool :=
  dchainImplIsIndexAllocated chain.cells index

theorem allocate_timestamps {chain chain' : DoubleChain} {time : VigorTime} {i : Int}
    (h : dchainAllocateNewIndex chain time = some (chain', i)) :
    chain'.timestamps = Function.update chain.timestamps i time := by
  unfold dchainAllocateNewIndex at h
  split at h
  · obtain ⟨rfl, rfl⟩ := Prod.mk.inj (Option.some.inj h)
    rfl
  · cases h

/-- The oldest index is freed as long as its time stamp lies before `time`. -/
theorem expire_spec {chain : DoubleChain} {size : Nat} {alloc free : List Int}
    (h : ChainInv chain.cells size alloc free) (time : VigorTime) :
    dchainExpireOneIndex chain time = none ∨
    ∃ i rest cells', alloc = i :: rest ∧ chain.timestamps i < time ∧
      dchainExpireOneIndex chain time = some ({ chain with cells := cells' }, i) ∧
      ChainInv cells' size rest (i :: free) := by
  unfold dchainExpireOneIndex
  rw [oldest_spec h]
  cases alloc with
  | nil => exact Or.inl rfl
  | cons i rest =>
    rw [List.head?_cons]
    obtain ⟨cells', hfree, hinv⟩ := free_spec (show ChainInv _ size ([] ++ i :: rest) free from h)
    by_cases ht : chain.timestamps i < time
    · exact Or.inr ⟨i, rest, cells', rfl, ht, by simp [ht, hfree], hinv⟩
    · exact Or.inl (by simp [ht])

end QueueDpdk.LibVig
