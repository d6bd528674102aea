import QueueDpdk.Lib.Ledger
import QueueDpdk.Qflow

/-!
# Transmission of the packets of a sweep

The part of `poll_loop` in `nf-chain/src/main.c` and `mica/main.c` that hands mbufs to the network
card: directly in Single mode, else through `tx_batch`, which is flushed when the next burst may not
fit and at the end of a sweep.  Mbufs are known by numbers.

* `MbufEvent` — what happens to an mbuf, and `access`, its meaning as an access to a resource.
* `txBurst`, `transmit`, `endSweep` — the three places that transmit.
* `transmit_holding`, `endSweep_holding` — each of them gives away exactly what it does not keep in
  the batch; `transmit_covers`, `endSweep_covers` — it offers all of that to the card.
-/

set_option autoImplicit false

namespace QueueDpdk.PollLoop

open Lib

/-- `offered` is passed to `rte_eth_tx_burst`, `accepted` is taken by it; `used` is a read or a
    write of the packet. -/
inductive MbufEvent where
  | received (m : Nat)
  | used (m : Nat)
  | offered (m : Nat)
  | accepted (m : Nat)
  | freed (m : Nat)
deriving DecidableEq, Repr

def MbufEvent.access : MbufEvent → Access Nat
  | .received m => .acquire m
  | .used m => .use m
  | .offered m => .use m
  | .accepted m => .release m
  | .freed m => .release m

def MbufEvent.mbuf : MbufEvent → Nat
  | .received m => m
  | .used m => m
  | .offered m => m
  | .accepted m => m
  | .freed m => m

theorem count_release (tr : List MbufEvent) (m : Nat) :
    (tr.map MbufEvent.access).count (.release m) =
      tr.count (.accepted m) + tr.count (.freed m) := by
  induction tr with
  | nil => rfl
  | cons a tr ih =>
    rw [List.map_cons, List.count_cons, List.count_cons, List.count_cons, ih]
    cases a <;> simp [MbufEvent.access] <;> omega

theorem acquire_mem {tr : List MbufEvent} {m : Nat}
    (h : .acquire m ∈ tr.map MbufEvent.access) : .received m ∈ tr := by
  obtain ⟨a, ha, he⟩ := List.mem_map.mp h
  cases a with
  | received n =>
    cases he
    exact ha
  | used n => cases he
  | offered n => cases he
  | accepted n => cases he
  | freed n => cases he

def TX_BATCH_SIZE : Nat := 512

/-- `rte_eth_tx_burst`, which takes the first `nbTx` mbufs, and the loop that frees the others. -/
def txBurst (pkts : List Nat) (nbTx : Nat) : List MbufEvent :=
  pkts.map .offered ++ ((pkts.take nbTx).map .accepted ++ (pkts.drop nbTx).map .freed)

/-- The transmit block after a burst; `txBatch` are the first `tx_total` entries of the array. -/
def transmit (mode : QflowMode) (txBatch pktsBurst : List Nat) (nbTx : Nat) :
    List Nat × List MbufEvent :=
  if mode = .single then (txBatch, txBurst pktsBurst nbTx)
  else if txBatch.length + pktsBurst.length > TX_BATCH_SIZE then (pktsBurst, txBurst txBatch nbTx)
  else (txBatch ++ pktsBurst, [])

/-- The transmit block at the end of a sweep; the next one starts with `tx_total = 0`. -/
def endSweep (mode : QflowMode) (txBatch : List Nat) (nbTx : Nat) : List Nat × List MbufEvent :=
  if mode ≠ .single ∧ 0 < txBatch.length then ([], txBurst txBatch nbTx) else ([], [])

section Ownership

variable {tr : List (Access Nat)} {held pkts txBatch pktsBurst : List Nat} {mode : QflowMode}

/-- Accepted or freed, an offered mbuf is given away. -/
theorem txBurst_holding (h : Holding tr (pkts ++ held)) (nbTx : Nat) :
    Holding (tr ++ (txBurst pkts nbTx).map MbufEvent.access) held := by
  have hoffer : Holding (tr ++ (pkts.map MbufEvent.offered).map MbufEvent.access)
      (pkts ++ held) := by
    refine h.useAll _ ?_
    intro x hx
    rw [List.map_map, List.mem_map] at hx
    obtain ⟨m, hm, rfl⟩ := hx
    exact ⟨m, List.mem_append_left _ hm, rfl⟩
  have hgive : ((pkts.take nbTx).map MbufEvent.accepted ++
      (pkts.drop nbTx).map MbufEvent.freed).map MbufEvent.access = pkts.map Access.release := by
    have htake : MbufEvent.access ∘ MbufEvent.accepted = Access.release := rfl
    have hdrop : MbufEvent.access ∘ MbufEvent.freed = Access.release := rfl
    rw [List.map_append, List.map_map, List.map_map, htake, hdrop, ← List.map_append,
      List.take_append_drop]
  unfold txBurst
  rw [List.map_append, ← List.append_assoc, hgive]
  exact hoffer.releaseAll

theorem transmit_holding (hsingle : mode = .single → txBatch = [])
    (h : Holding tr (txBatch ++ pktsBurst)) (nbTx : Nat) :
    Holding (tr ++ (transmit mode txBatch pktsBurst nbTx).2.map MbufEvent.access)
      (transmit mode txBatch pktsBurst nbTx).1 := by
  unfold transmit
  split
  · rename_i hm
    rw [hsingle hm, List.nil_append] at h
    rw [hsingle hm]
    apply txBurst_holding
    rwa [List.append_nil]
  · split
    · exact txBurst_holding h nbTx
    · simpa using h

theorem endSweep_holding (hsingle : mode = .single → txBatch = []) (h : Holding tr txBatch)
    (nbTx : Nat) : Holding (tr ++ (endSweep mode txBatch nbTx).2.map MbufEvent.access)
      (endSweep mode txBatch nbTx).1 := by
  unfold endSweep
  split
  · apply txBurst_holding
    rwa [List.append_nil]
  · rename_i hno
    have hempty : txBatch = [] := by
      by_cases hm : mode = .single
      · exact hsingle hm
      · apply List.eq_nil_of_length_eq_zero
        by_contra hne
        exact hno ⟨hm, Nat.pos_of_ne_zero hne⟩
    rw [hempty] at h
    simpa using h

end Ownership

/-! ## The order -/

def MbufEvent.received? : MbufEvent → Option Nat
  | .received m => some m
  | _ => none

def MbufEvent.offered? : MbufEvent → Option Nat
  | .offered m => some m
  | _ => none

section Order

variable {pkts txBatch pktsBurst : List Nat} {mode : QflowMode}

@[simp] theorem txBurst_offered? (pkts : List Nat) (nbTx : Nat) :
    (txBurst pkts nbTx).filterMap MbufEvent.offered? = pkts := by
  have hoffered : MbufEvent.offered? ∘ MbufEvent.offered = some := rfl
  have haccepted : MbufEvent.offered? ∘ MbufEvent.accepted = fun _ => none := rfl
  have hfreed : MbufEvent.offered? ∘ MbufEvent.freed = fun _ => none := rfl
  unfold txBurst
  simp only [List.filterMap_append, List.filterMap_map, hoffered, haccepted, hfreed]
  simp

@[simp] theorem txBurst_received? (pkts : List Nat) (nbTx : Nat) :
    (txBurst pkts nbTx).filterMap MbufEvent.received? = [] := by
  rw [List.filterMap_eq_nil_iff]
  intro e he
  unfold txBurst at he
  simp only [List.mem_append, List.mem_map] at he
  rcases he with ⟨m, -, rfl⟩ | ⟨m, -, rfl⟩ | ⟨m, -, rfl⟩ <;> rfl

/-- The batch is a queue: what is offered is taken from its front, the burst goes to its end. -/
theorem transmit_order (hsingle : mode = .single → txBatch = []) (nbTx : Nat) :
    txBatch ++ pktsBurst =
      (transmit mode txBatch pktsBurst nbTx).2.filterMap MbufEvent.offered? ++
        (transmit mode txBatch pktsBurst nbTx).1 := by
  unfold transmit
  split
  · rename_i hm
    simp [hsingle hm]
  · split <;> simp

theorem transmit_received? (nbTx : Nat) :
    (transmit mode txBatch pktsBurst nbTx).2.filterMap MbufEvent.received? = [] := by
  unfold transmit
  split
  · simp
  · split <;> simp

theorem endSweep_order (hsingle : mode = .single → txBatch = []) (nbTx : Nat) :
    txBatch = (endSweep mode txBatch nbTx).2.filterMap MbufEvent.offered? := by
  unfold endSweep
  split
  · simp
  · rename_i hno
    cases hb : txBatch with
    | nil => simp
    | cons m ms =>
      have hm : mode ≠ .single := fun hm => by simp [hsingle hm] at hb
      exact absurd ⟨hm, by simp [hb]⟩ hno

theorem endSweep_received? (nbTx : Nat) :
    (endSweep mode txBatch nbTx).2.filterMap MbufEvent.received? = [] := by
  unfold endSweep
  split <;> simp

end Order

/-! ## What is transmitted -/

section Offers

variable {pkts txBatch pktsBurst : List Nat} {mode : QflowMode} {nbTx m : Nat}

theorem txBurst_mem {e : MbufEvent} (he : e ∈ txBurst pkts nbTx) : e.mbuf ∈ pkts := by
  unfold txBurst at he
  simp only [List.mem_append, List.mem_map] at he
  rcases he with ⟨m, hm, rfl⟩ | ⟨m, hm, rfl⟩ | ⟨m, hm, rfl⟩
  · exact hm
  · exact List.mem_of_mem_take hm
  · exact List.mem_of_mem_drop hm

theorem txBurst_offered (hm : m ∈ pkts) : .offered m ∈ txBurst pkts nbTx :=
  List.mem_append_left _ (List.mem_map_of_mem hm)

theorem transmit_mem {e : MbufEvent} (he : e ∈ (transmit mode txBatch pktsBurst nbTx).2) :
    e.mbuf ∈ txBatch ∨ e.mbuf ∈ pktsBurst := by
  unfold transmit at he
  split at he
  · exact Or.inr (txBurst_mem he)
  · split at he
    · exact Or.inl (txBurst_mem he)
    · cases he

theorem transmit_batch (hm : m ∈ (transmit mode txBatch pktsBurst nbTx).1) :
    m ∈ txBatch ∨ m ∈ pktsBurst := by
  unfold transmit at hm
  split at hm
  · exact Or.inl hm
  · split at hm
    · exact Or.inr hm
    · exact List.mem_append.mp hm

/-- Nothing gets lost between the burst, the batch and the card. -/
theorem transmit_covers (hm : m ∈ txBatch ∨ m ∈ pktsBurst) :
    m ∈ (transmit mode txBatch pktsBurst nbTx).1 ∨
      .offered m ∈ (transmit mode txBatch pktsBurst nbTx).2 := by
  unfold transmit
  split
  · exact hm.imp id txBurst_offered
  · split
    · exact hm.symm.imp id txBurst_offered
    · exact Or.inl (List.mem_append.mpr hm)

theorem endSweep_mem {e : MbufEvent} (he : e ∈ (endSweep mode txBatch nbTx).2) :
    e.mbuf ∈ txBatch := by
  unfold endSweep at he
  split at he
  · exact txBurst_mem he
  · cases he

theorem endSweep_covers (hsingle : mode = .single → txBatch = []) (hm : m ∈ txBatch) :
    .offered m ∈ (endSweep mode txBatch nbTx).2 := by
  unfold endSweep
  rw [if_pos]
  · exact txBurst_offered hm
  · refine ⟨fun hs => ?_, List.length_pos_of_mem hm⟩
    rw [hsingle hs] at hm
    cases hm

@[simp] theorem endSweep_batch : (endSweep mode txBatch nbTx).1 = [] := by
  unfold endSweep
  split <;> rfl

theorem transmit_single (hsingle : mode = .single → txBatch = []) :
    mode = .single → (transmit mode txBatch pktsBurst nbTx).1 = [] := by
  intro hm
  unfold transmit
  rw [if_pos hm]
  exact hsingle hm

end Offers

end QueueDpdk.PollLoop
