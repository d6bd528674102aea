import QueueDpdk.Mehcached.Invariant

/-!
# Emptying slots (`mehcached_cleanup_bucket` and others)

* `Erased` — the table after some of its slots were emptied; `TableAt.erase` — the invariant stays,
  also for a map that forgets keys without an item.
* `cleanup_spec` — the sweep over the buckets that the log has passed ends, keeps all live items,
  and brings the invariant up to the new tail.
-/

set_option autoImplicit false

namespace QueueDpdk.Mehcached

open Lib

/-- Some slots were emptied. -/
structure Erased (t t' : Table) : Prop where
  alloc : t'.alloc = t.alloc
  numBuckets : t'.numBuckets = t.numBuckets
  rshift : t'.rshift = t.rshift
  mthThreshold : t'.mthThreshold = t.mthThreshold
  vecs : ∀ b i, t'.itemVecs b i = t.itemVecs b i ∨ t'.itemVecs b i = 0

section Erasing

variable {t t' t'' : Table} {b i : ℕ}

theorem Erased.refl (t : Table) : Erased t t := ⟨rfl, rfl, rfl, rfl, fun _ _ => Or.inl rfl⟩

theorem Erased.trans (h : Erased t t') (h' : Erased t' t'') : Erased t t'' where
  alloc := h'.alloc.trans h.alloc
  numBuckets := h'.numBuckets.trans h.numBuckets
  rshift := h'.rshift.trans h.rshift
  mthThreshold := h'.mthThreshold.trans h.mthThreshold
  vecs b i := by
    rcases h'.vecs b i with hs | h0
    · rw [hs]
      exact h.vecs b i
    · exact Or.inr h0

theorem erased_setItemVec (t : Table) (b i : ℕ) : Erased t (t.setItemVec b i 0) where
  alloc := rfl
  numBuckets := rfl
  rshift := rfl
  mthThreshold := rfl
  vecs b' i' := by
    by_cases hne : b' = b ∧ i' = i
    · obtain ⟨rfl, rfl⟩ := hne
      exact Or.inr (setItemVec_same t _ _ 0)
    · exact Or.inl (setItemVec_of_ne (by omega))

theorem erased_cleanItems (t : Table) (b : ℕ) : Erased t (cleanItems t b) where
  alloc := rfl
  numBuckets := rfl
  rshift := rfl
  mthThreshold := rfl
  vecs b' i' := by
    unfold cleanItems
    by_cases hb : b' = b
    · subst hb
      simp only [Function.update_self]
      split
      · exact Or.inr rfl
      · exact Or.inl rfl
    · exact Or.inl (by simp [hb])

theorem Erased.busy (h : Erased t t') (hbusy : Busy t' b i) :
    Busy t b i ∧ t'.itemVecs b i = t.itemVecs b i := by
  have hsame := (h.vecs b i).resolve_right hbusy.nonzero
  refine ⟨⟨?_, hbusy.index, ?_⟩, hsame⟩
  · rw [← h.numBuckets]
    exact hbusy.bucket
  · rw [← hsame]
    exact hbusy.nonzero

theorem calcBucketIndex_congr (h : t'.numBuckets = t.numBuckets) (hash : ℕ) :
    calcBucketIndex t' hash = calcBucketIndex t hash := by
  rw [calcBucketIndex, calcBucketIndex, h]

theorem TableShape.congr (h : TableShape t) (hn : t'.numBuckets = t.numBuckets)
    (hr : t'.rshift = t.rshift) : TableShape t' := by
  refine ⟨?_, ?_, ?_⟩
  · rw [hn]
    exact h.pow
  · rw [hn]
    exact h.two
  · rw [hn, hr]
    exact h.turn

theorem Live.congr {fixed : Option ℕ} {tag : ℕ} {item : Bytes} (h : Live fixed t b tag item)
    (hn : t'.numBuckets = t.numBuckets) : Live fixed t' b tag item where
  extent := h.extent
  tight := h.tight
  value := h.value
  bucket := (calcBucketIndex_congr hn _).trans h.bucket
  tag := h.tag

variable {fixed : Option ℕ} {log : List ℕ} {pos : ℕ → ℕ → ℕ} {M M' : Key → Option Value}
  {sweeps : ℕ}

/-- Emptying slots keeps the invariant. -/
theorem TableAt.erase (h : TableAt fixed t log pos M sweeps) (he : Erased t t')
    (hM : ∀ b i, Busy t' b i → t.alloc.tail ≤ pos b i + t.alloc.size →
      M' (itemKey (t.alloc.load (pos b i))) = M (itemKey (t.alloc.load (pos b i)))) :
    TableAt fixed t' log pos M' sweeps where
  shape := h.shape.congr he.numBuckets he.rshift
  pool := by
    rw [he.alloc]
    exact h.pool
  slot b i hbusy := by
    obtain ⟨hold, hsame⟩ := he.busy hbusy
    have hslot := h.slot b i hold
    refine ⟨?_, hslot.starts, ?_, ?_⟩
    · rw [hsame]
      exact hslot.offset
    · rw [he.numBuckets, he.rshift, he.alloc]
      exact hslot.swept
    · rw [he.alloc, hsame]
      exact fun hlive => (hslot.live hlive).congr he.numBuckets
  tags b i j hi hj htag := by
    rw [(he.busy hi).2, (he.busy hj).2] at htag
    exact h.tags b i j (he.busy hi).1 (he.busy hj).1 htag
  apart b i b' i' hb hb' hpos := h.apart b i b' i' (he.busy hb).1 (he.busy hb').1 hpos
  contents b i hbusy := by
    rw [he.alloc]
    intro hlive
    rw [hM b i hbusy hlive]
    exact h.contents b i (he.busy hbusy).1 hlive
  near := by
    rw [he.alloc, he.rshift]
    exact h.near

/-! ## Sweeping -/

/-- A bucket with live items only counts as cleaned up. -/
theorem TableAt.sweep (h : TableAt fixed t log pos M sweeps)
    (hpassed : (sweeps + 1) * 2 ^ t.rshift ≤ t.alloc.tail)
    (hlive : ∀ i, Busy t (sweeps % t.numBuckets) i →
      t.alloc.tail ≤ pos (sweeps % t.numBuckets) i + t.alloc.size) :
    TableAt fixed t log pos M (sweeps + 1) where
  shape := h.shape
  pool := h.pool
  slot b i hbusy := by
    have hslot := h.slot b i hbusy
    refine ⟨hslot.offset, hslot.starts, ?_, hslot.live⟩
    intro s hs hmod
    rcases Nat.lt_succ_iff_lt_or_eq.mp hs with hlt | rfl
    · exact hslot.swept s hlt hmod
    · subst hmod
      exact hpassed.trans (hlive i hbusy)
  tags := h.tags
  apart := h.apart
  contents := h.contents
  near := by
    have hnear := h.near
    rw [Nat.add_mul (sweeps + 1) 1]
    omega

/-- What is left in a bucket is alive. -/
theorem cleanItems_live (h : TableAt fixed t log pos M sweeps)
    (hbusy : Busy (cleanItems t b) b i) : t.alloc.tail ≤ pos b i + t.alloc.size := by
  obtain ⟨hold, hsame⟩ := (erased_cleanItems t b).busy hbusy
  rw [← h.valid_iff hold]
  by_contra hno
  apply hbusy.nonzero
  simp only [cleanItems, Function.update_self]
  exact if_pos ⟨hbusy.index, Bool.not_eq_true _ ▸ hno⟩

/-- Slots with valid offsets stay. -/
def KeepsValid (t t' : Table) : Prop :=
  ∀ b i, poolIsValid t.alloc (itemOffsetOf (t.itemVecs b i)) = true →
    t'.itemVecs b i = t.itemVecs b i

theorem keepsValid_cleanItems (t : Table) (b : ℕ) : KeepsValid t (cleanItems t b) := by
  intro b' i hvalid
  by_cases hb : b' = b
  · subst hb
    simp [cleanItems, hvalid]
  · simp [cleanItems, hb]

theorem KeepsValid.trans (h : KeepsValid t t') (he : Erased t t') (h' : KeepsValid t' t'') :
    KeepsValid t t'' := by
  intro b i hvalid
  have hsame := h b i hvalid
  rw [← hsame]
  apply h'
  rw [he.alloc, hsame]
  exact hvalid

/-- The loop, from the bucket of one sweep to the bucket of another. -/
theorem cleanupFrom_spec (last : ℕ) : ∀ (n : ℕ) (t : Table) (s : ℕ),
    TableAt fixed t log pos M s → s ≤ last → last ≤ s + n → last < s + t.numBuckets →
    last * 2 ^ t.rshift ≤ t.alloc.tail →
    ∃ t', cleanupFrom (last % t.numBuckets) n t (s % t.numBuckets) = some t' ∧
      TableAt fixed t' log pos M last ∧ Erased t t' ∧ KeepsValid t t'
  | n, t, s, h, hle, hfuel, hturn, hpassed => by
    rcases Nat.eq_or_lt_of_le hle with rfl | hlt
    · refine ⟨t, ?_, h, Erased.refl t, fun _ _ _ => rfl⟩
      cases n <;> exact if_pos rfl
    · have hne : s % t.numBuckets ≠ last % t.numBuckets := by
        intro heq
        have hdvd := Nat.dvd_of_mod_eq_zero (Nat.sub_mod_eq_zero_of_mod_eq heq.symm)
        have := Nat.le_of_dvd (by omega) hdvd
        omega
      obtain ⟨n, rfl⟩ : ∃ m, n = m + 1 := ⟨n - 1, by omega⟩
      have he := erased_cleanItems t (s % t.numBuckets)
      have hclean : TableAt fixed (cleanItems t (s % t.numBuckets)) log pos M s :=
        h.erase he (fun _ _ _ _ => rfl)
      have hstep : (s + 1) * 2 ^ t.rshift ≤ t.alloc.tail :=
        (Nat.mul_le_mul_right _ hlt).trans hpassed
      have hnext := hclean.sweep hstep (fun i hbusy =>
        cleanItems_live (t := t) (b := s % t.numBuckets) h hbusy)
      obtain ⟨t', hrun, hok, he', hkeep⟩ := cleanupFrom_spec last n _ (s + 1) hnext hlt
        (by omega) (by rw [he.numBuckets]; omega) hpassed
      refine ⟨t', ?_, hok, he.trans he', (keepsValid_cleanItems t _).trans he hkeep⟩
      rw [cleanupFrom, if_neg hne, h.shape.mask, Nat.mod_add_mod]
      exact hrun

/-- The bucket of a position is the one of its offset. -/
theorem TableShape.sweep_mod (h : TableShape t) (o : ℕ) :
    (o % 2 ^ 40) >>> t.rshift % t.numBuckets = o >>> t.rshift % t.numBuckets := by
  have hturn : 2 ^ 40 = 2 ^ t.rshift * (t.numBuckets * 2) := by
    rw [← Nat.mul_assoc, Nat.mul_comm (2 ^ t.rshift), h.turn]
    rfl
  rw [Nat.shiftRight_eq_div_pow, Nat.shiftRight_eq_div_pow, hturn, Nat.mod_mul_right_div_self,
    Nat.mod_mod_of_dvd _ (Nat.dvd_mul_right _ _)]

/-- **The clean-up** after the log has grown to the tail: it ends, empties slots of overwritten items
    only, and all buckets up to the tail are then cleaned up. -/
theorem cleanup_spec (old : ℕ) (h : TableAt fixed t log pos M (old >>> t.rshift))
    (hold : old ≤ t.alloc.tail) (hnew : t.alloc.tail ≤ old + MAX_ITEM) :
    ∃ t', cleanupBucket t (old % 2 ^ 40) t.alloc.tail = some t' ∧ TableOk fixed t' log pos M ∧
      Erased t t' ∧ KeepsValid t t' := by
  have hpow : 0 < 2 ^ t.rshift := Nat.two_pow_pos _
  have hpassed : t.alloc.tail >>> t.rshift * 2 ^ t.rshift ≤ t.alloc.tail := by
    rw [Nat.shiftRight_eq_div_pow]
    exact Nat.div_mul_le_self _ _
  have hle : old >>> t.rshift ≤ t.alloc.tail >>> t.rshift := by
    rw [Nat.shiftRight_eq_div_pow, Nat.shiftRight_eq_div_pow]
    exact Nat.div_le_div_right hold
  have hturn : t.alloc.tail >>> t.rshift < old >>> t.rshift + t.numBuckets := by
    -- one item does not reach around all buckets
    by_contra hno
    have hstep : (old >>> t.rshift + t.numBuckets) * 2 ^ t.rshift ≤ t.alloc.tail :=
      (Nat.mul_le_mul_right _ (Nat.not_lt.mp hno)).trans hpassed
    have hlow : old < (old >>> t.rshift + 1) * 2 ^ t.rshift := by
      rw [Nat.shiftRight_eq_div_pow, Nat.mul_comm]
      exact Nat.lt_mul_div_succ old hpow
    have htwo : 2 * 2 ^ t.rshift ≤ t.numBuckets * 2 ^ t.rshift :=
      Nat.mul_le_mul_right _ h.shape.two
    have hall := h.shape.turn
    rw [Nat.add_mul] at hstep hlow
    unfold MAX_ITEM at hnew
    omega
  obtain ⟨t', hrun, hok, he, hkeep⟩ := cleanupFrom_spec _ t.numBuckets t (old >>> t.rshift) h hle
    hturn.le hturn hpassed
  refine ⟨t', ?_, ?_, he, hkeep⟩
  · rw [cleanupBucket, h.shape.mask, h.shape.mask, h.shape.sweep_mod]
    exact hrun
  · rw [TableOk, he.alloc, he.rshift]
    exact hok

end Erasing

end QueueDpdk.Mehcached
