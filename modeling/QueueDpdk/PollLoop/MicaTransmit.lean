import QueueDpdk.Lib.Fifo
import QueueDpdk.PollLoop.Mica
import QueueDpdk.PollLoop.Sweep
import QueueDpdk.PollLoop.Transmit

/-!
# mica: transmission of the packets of a sweep

`poll_loop` of `mica/main.c` with its packets: the array `tx_batch` and the count `tx_total`, next to
the scheduler.  Received mbufs are fresh: they are numbered as they come.

* `batchStep` — an iteration or the end of a sweep, on the array.
* `batchStep_moves` — a step does to the first `tx_total` entries of the array what `transmit` and
  `endSweep` do to a list.
* `Batched` — `tx_total` stays within the array; `BatchRun` — and the mbufs owned are these entries.
* `polls_run` — the polls are those of the scheduler; `received_run` — a poll of `n` packets
  receives the next `n` mbufs.
* `mica_batching` — no mbuf is lost, given away twice or sent out of order, and no entry is written
  outside the array.
-/

set_option autoImplicit false

namespace QueueDpdk.PollLoop.Mica

open Lib

/-- What the environment decides in one step: the trylock, the number of packets received, and the
    number of packets the card accepts. -/
structure BurstInput where
  lock : Bool
  nbRx : Nat
  nbTx : Nat
  nbRx_le : nbRx ≤ MAX_PKT_BURST

/-- The scheduler, the batch, and the number of the next mbuf to be received. -/
structure BatchState where
  loop : MicaState
  txBatch : Int → Nat
  txTotal : Int
  nextMbuf : Nat

/-- The first sweep starts with an array that holds anything. -/
def BatchState.init (c : MicaCfg) (txBatch : Int → Nat) : BatchState :=
  ⟨MicaState.init c, txBatch, 0, 0⟩

/-- What a step does: the decision of the scheduler, what happens to mbufs, and the entries of
    `tx_batch` it writes. -/
structure BatchEvent where
  poll : PollEvent
  mbufs : List MbufEvent
  writes : List Int

/-- The first `tx_total` entries of `tx_batch`. -/
def entries (txBatch : Int → Nat) (txTotal : Int) : List Nat :=
  (List.range txTotal.toNat).map (fun j : Nat => txBatch j)

def BatchState.batch (s : BatchState) : List Nat := entries s.txBatch s.txTotal

/-- The burst of a poll. -/
def BatchState.pktsBurst (s : BatchState) (x : BurstInput) : List Nat :=
  (List.range x.nbRx).map (s.nextMbuf + ·)

/-- `rte_memcpy(&tx_batch[tx_total], pkts_burst, …)`. -/
def memcpyBatch (txBatch : Int → Nat) (txTotal : Int) (pktsBurst : List Nat) : Int → Nat :=
  fun j => if txTotal ≤ j then (pktsBurst[(j - txTotal).toNat]?).getD (txBatch j) else txBatch j

/-- `mica_process_burst` reads and writes every packet.  It returns 0, so that `poll_loop` never
    takes its branch for a stop signal. -/
def micaProcessBurst (pktsBurst : List Nat) : List MbufEvent := pktsBurst.map .used

/-- The early flush: the entries that are left, and what was sent. -/
def flush (s : BatchState) (x : BurstInput) : Int × List MbufEvent :=
  if s.txTotal + x.nbRx > TX_BATCH_SIZE then (0, txBurst s.batch x.nbTx) else (s.txTotal, [])

/-- The transmit block after a burst. -/
def sendBurst (c : MicaCfg) (s : BatchState) (x : BurstInput) :
    (Int → Nat) × Int × List MbufEvent × List Int :=
  let pktsBurst := s.pktsBurst x
  if c.mode = .single then (s.txBatch, s.txTotal, txBurst pktsBurst x.nbTx, [])
  else
    let (txTotal, sent) := flush s x
    (memcpyBatch s.txBatch txTotal pktsBurst, txTotal + x.nbRx, sent,
      (List.range x.nbRx).map (fun j : Nat => txTotal + j))

/-- An iteration of the for loop, or the end of a sweep. -/
def batchStep (c : MicaCfg) (s : BatchState) (x : BurstInput) : BatchState × BatchEvent :=
  let r := step c s.loop ⟨x.lock, x.nbRx⟩
  match r.2 with
  | .poll _ _ _ _ =>
    if 0 < x.nbRx then
      let pktsBurst := s.pktsBurst x
      let (txBatch, txTotal, sent, writes) := sendBurst c s x
      (⟨r.1, txBatch, txTotal, s.nextMbuf + x.nbRx⟩,
        ⟨r.2, pktsBurst.map .received ++ (micaProcessBurst pktsBurst ++ sent), writes⟩)
    else ({ s with loop := r.1 }, ⟨r.2, [], []⟩)
  | .sweepEnd =>
    if c.mode ≠ .single ∧ 0 < s.txTotal then
      ({ s with loop := r.1, txTotal := 0 }, ⟨r.2, txBurst s.batch x.nbTx, []⟩)
    else ({ s with loop := r.1, txTotal := 0 }, ⟨r.2, [], []⟩)
  | _ => ({ s with loop := r.1 }, ⟨r.2, [], []⟩)

/-- `poll_loop` of one lcore of mica. -/
def micaTx (c : MicaCfg) : Machine BatchState BurstInput BatchEvent := ⟨batchStep c⟩

/-! ## The array as a list -/

section Entries

variable {txBatch : Int → Nat} {txTotal : Int} {pktsBurst : List Nat}

@[simp] theorem entries_zero (txBatch : Int → Nat) : entries txBatch 0 = [] := rfl

@[simp] theorem length_entries : (entries txBatch txTotal).length = txTotal.toNat := by
  simp [entries]

/-- The copy appends the burst. -/
theorem entries_memcpy (h : 0 ≤ txTotal) :
    entries (memcpyBatch txBatch txTotal pktsBurst) (txTotal + pktsBurst.length) =
      entries txBatch txTotal ++ pktsBurst := by
  obtain ⟨n, rfl⟩ := Int.eq_ofNat_of_zero_le h
  apply List.ext_getElem?
  intro j
  have hlen : ((n : Int) + pktsBurst.length).toNat = n + pktsBurst.length := by omega
  unfold entries
  rw [hlen, List.getElem?_map, Int.toNat_natCast]
  rcases Nat.lt_or_ge j n with hj | hj
  · rw [List.getElem?_append_left (by simpa using hj), List.getElem?_map,
      List.getElem?_range (by omega), List.getElem?_range hj]
    simp [memcpyBatch, Nat.not_le.mpr hj]
  · rw [List.getElem?_append_right (by simpa using hj), List.length_map, List.length_range]
    rcases Nat.lt_or_ge j (n + pktsBurst.length) with hin | hout
    · have hget : j - n < pktsBurst.length := by omega
      rw [List.getElem?_range hin]
      simp [memcpyBatch, hj, hget]
    · rw [List.getElem?_eq_none (by simpa using hout), List.getElem?_eq_none (by omega)]
      rfl

/-- The entries it writes. -/
theorem copy_lt {n : Nat} (h : 0 ≤ txTotal) (hfits : txTotal + n ≤ TX_BATCH_SIZE) :
    ∀ j ∈ (List.range n).map (fun k : Nat => txTotal + k), 0 ≤ j ∧ j < TX_BATCH_SIZE := by
  intro j hj
  simp only [List.mem_map, List.mem_range] at hj
  obtain ⟨k, hk, rfl⟩ := hj
  omega

end Entries

/-! ## The steps -/

/-- `tx_total` stays within the array, and Single mode batches nothing. -/
structure Batched (c : MicaCfg) (s : BatchState) : Prop where
  nonneg : 0 ≤ s.txTotal
  le : s.txTotal ≤ TX_BATCH_SIZE
  single : c.mode = .single → s.txTotal = 0

/-- What a step does to the batch, read as a list. -/
inductive BatchMove (c : MicaCfg) (s : BatchState) (x : BurstInput) (s' : BatchState)
    (e : BatchEvent) : Prop where
  | quiet (hbatch : s'.batch = s.batch) (htotal : s'.txTotal = s.txTotal)
      (hnext : s'.nextMbuf = s.nextMbuf) (hpoll : e.poll.isSweepEnd = false) (hm : e.mbufs = [])
      (hw : e.writes = [])
  | sweepEnd (hbatch : s'.batch = []) (htotal : s'.txTotal = 0) (hnext : s'.nextMbuf = s.nextMbuf)
      (hm : e.mbufs = (endSweep c.mode s.batch x.nbTx).2) (hw : e.writes = [])
  | sent (hbatch : s'.batch = (transmit c.mode s.batch (s.pktsBurst x) x.nbTx).1)
      (htotal : Batched c s') (hnext : s'.nextMbuf = s.nextMbuf + x.nbRx)
      (hpoll : e.poll.isSweepEnd = false)
      (hm : e.mbufs = (s.pktsBurst x).map .received ++ ((s.pktsBurst x).map .used ++
        (transmit c.mode s.batch (s.pktsBurst x) x.nbTx).2))
      (hw : ∀ j ∈ e.writes, 0 ≤ j ∧ j < TX_BATCH_SIZE)

section Steps

variable {c : MicaCfg} {s s' : BatchState} {x : BurstInput} {e : BatchEvent}

@[simp] theorem length_pktsBurst (s : BatchState) (x : BurstInput) :
    (s.pktsBurst x).length = x.nbRx := by
  simp [BatchState.pktsBurst]

theorem Batched.length (h : Batched c s) : (s.batch.length : Int) = s.txTotal := by
  have := h.nonneg
  simp [BatchState.batch]
  omega

theorem Batched.single_batch (h : Batched c s) : c.mode = .single → s.batch = [] := by
  intro hm
  simp [BatchState.batch, h.single hm]

/-- The early flush. -/
theorem Batched.flush_cases (h : Batched c s) (x : BurstInput) :
    (s.batch.length + x.nbRx > TX_BATCH_SIZE ∧ flush s x = (0, txBurst s.batch x.nbTx)) ∨
      (s.batch.length + x.nbRx ≤ TX_BATCH_SIZE ∧ flush s x = (s.txTotal, [])) := by
  have hlen := h.length
  unfold flush
  by_cases hbig : s.txTotal + x.nbRx > TX_BATCH_SIZE
  · exact Or.inl ⟨by omega, if_pos hbig⟩
  · exact Or.inr ⟨by omega, if_neg hbig⟩

/-- **The transmit block does to the array what `transmit` does to a list.** -/
theorem Batched.sendBurst_spec (h : Batched c s) (x : BurstInput) :
    entries (sendBurst c s x).1 (sendBurst c s x).2.1 =
        (transmit c.mode s.batch (s.pktsBurst x) x.nbTx).1 ∧
      (sendBurst c s x).2.2.1 = (transmit c.mode s.batch (s.pktsBurst x) x.nbTx).2 ∧
      (0 ≤ (sendBurst c s x).2.1 ∧ (sendBurst c s x).2.1 ≤ TX_BATCH_SIZE ∧
        (c.mode = .single → (sendBurst c s x).2.1 = 0)) ∧
      ∀ j ∈ (sendBurst c s x).2.2.2, 0 ≤ j ∧ j < TX_BATCH_SIZE := by
  have hnb := x.nbRx_le
  have hsize : MAX_PKT_BURST ≤ TX_BATCH_SIZE := by decide
  have hcopy : ∀ t : Int, 0 ≤ t → entries (memcpyBatch s.txBatch t (s.pktsBurst x)) (t + x.nbRx) =
      entries s.txBatch t ++ s.pktsBurst x := by
    intro t ht
    rw [← length_pktsBurst s x]
    exact entries_memcpy ht
  by_cases hm : c.mode = .single
  · simp only [sendBurst, transmit, hm, if_true]
    exact ⟨rfl, trivial, ⟨h.nonneg, h.le, fun _ => h.single hm⟩, by simp⟩
  · rcases h.flush_cases x with ⟨hbig, hflush⟩ | ⟨hfits, hflush⟩
    · simp only [sendBurst, transmit, hm, if_false, hflush, length_pktsBurst, if_pos hbig]
      exact ⟨by simpa using hcopy 0 (Int.le_refl 0), trivial, ⟨by omega, by omega, nofun⟩,
        copy_lt (Int.le_refl 0) (by omega)⟩
    · have hlen := h.length
      have h0 := h.nonneg
      simp only [sendBurst, transmit, hm, if_false, hflush, length_pktsBurst,
        if_neg (Nat.not_lt.mpr hfits)]
      exact ⟨hcopy _ h0, trivial, ⟨by omega, by omega, nofun⟩, copy_lt h0 (by omega)⟩

/-- A burst that is not empty is sent or batched. -/
theorem Batched.sent (h : Batched c s) (x : BurstInput) (loop : MicaState) {p : PollEvent}
    (hp : p.isSweepEnd = false) :
    BatchMove c s x
      ⟨loop, (sendBurst c s x).1, (sendBurst c s x).2.1, s.nextMbuf + x.nbRx⟩
      ⟨p, (s.pktsBurst x).map .received ++
        (micaProcessBurst (s.pktsBurst x) ++ (sendBurst c s x).2.2.1), (sendBurst c s x).2.2.2⟩ := by
  obtain ⟨hbatch, hsent, ⟨h0, hle, hsingle⟩, hw⟩ := h.sendBurst_spec x
  refine .sent hbatch ⟨h0, hle, hsingle⟩ rfl hp ?_ hw
  rw [hsent]
  rfl

/-- **A step on the array is a step on the list.** -/
theorem batchStep_moves (h : Batched c s) (x : BurstInput) :
    BatchMove c s x (batchStep c s x).1 (batchStep c s x).2 := by
  unfold batchStep
  generalize step c s.loop ⟨x.lock, x.nbRx⟩ = r
  obtain ⟨loop, ev⟩ := r
  cases ev with
  | skip q => exact .quiet rfl rfl rfl rfl rfl rfl
  | busy q diverted => exact .quiet rfl rfl rfl rfl rfl rfl
  | poll q n diverted latencyPoll =>
    dsimp only
    split
    · exact h.sent x loop rfl
    · exact .quiet rfl rfl rfl rfl rfl rfl
  | sweepEnd =>
    have hpos : 0 < s.batch.length ↔ 0 < s.txTotal := by
      have := h.length
      omega
    dsimp only
    split
    · rename_i hflush
      refine .sweepEnd rfl rfl rfl ?_ rfl
      simp only [endSweep, if_pos (And.intro hflush.1 (hpos.mpr hflush.2))]
    · rename_i hno
      refine .sweepEnd rfl rfl rfl ?_ rfl
      simp only [endSweep, if_neg (fun hf : c.mode ≠ .single ∧ 0 < s.batch.length =>
        hno ⟨hf.1, hpos.mp hf.2⟩)]

/-- The number of packets an event takes from a queue. -/
def burst : PollEvent → Nat
  | .poll _ n _ _ => n
  | _ => 0

/-- A poll takes what the environment hands out. -/
theorem step_burst (c : MicaCfg) (s : MicaState) (x : PollInput) :
    burst (step c s x).2 = if (step c s x).2.isPoll then x.nbRx else 0 := by
  by_cases hi : s.i < c.last
  · by_cases hp : penalised c s (s.i - c.first) = true
    · simp [step, iteration, hi, hp, burst, PollEvent.isPoll]
    · by_cases hl : c.mode = .shared ∧ x.lock = false
      · simp [step, iteration, hi, hp, hl, burst, PollEvent.isPoll]
      · simp [step, iteration, hi, hp, if_neg hl, burst, PollEvent.isPoll]
  · simp [step, hi, burst, PollEvent.isPoll]

/-- The numbers of the mbufs go up by the burst. -/
theorem batchStep_next (c : MicaCfg) (s : BatchState) (x : BurstInput) :
    (batchStep c s x).1.loop = (step c s.loop ⟨x.lock, x.nbRx⟩).1 ∧
      (batchStep c s x).2.poll = (step c s.loop ⟨x.lock, x.nbRx⟩).2 ∧
      (batchStep c s x).1.nextMbuf = s.nextMbuf + burst (batchStep c s x).2.poll := by
  have hburst := step_burst c s.loop ⟨x.lock, x.nbRx⟩
  unfold batchStep
  generalize step c s.loop ⟨x.lock, x.nbRx⟩ = r at hburst ⊢
  obtain ⟨loop, ev⟩ := r
  cases ev with
  | skip q => exact ⟨rfl, rfl, rfl⟩
  | busy q diverted => exact ⟨rfl, rfl, rfl⟩
  | poll q n diverted latencyPoll =>
    have hn : n = x.nbRx := hburst
    dsimp only
    split
    · exact ⟨rfl, rfl, congrArg (s.nextMbuf + ·) hn.symm⟩
    · exact ⟨rfl, rfl, by simp only [burst]; omega⟩
  | sweepEnd =>
    dsimp only
    split <;> exact ⟨rfl, rfl, rfl⟩

theorem BatchMove.batched (hm : BatchMove c s x s' e) (h : Batched c s) : Batched c s' := by
  cases hm with
  | quiet _ htotal => exact ⟨htotal ▸ h.nonneg, htotal ▸ h.le, fun hs => htotal.trans (h.single hs)⟩
  | sweepEnd _ htotal => exact ⟨by omega, by omega, fun _ => htotal⟩
  | sent _ htotal => exact htotal

theorem BatchMove.writes_lt (hm : BatchMove c s x s' e) {j : Int} (hj : j ∈ e.writes) :
    0 ≤ j ∧ j < TX_BATCH_SIZE := by
  cases hm with
  | quiet _ _ _ _ _ hw => simp [hw] at hj
  | sweepEnd _ _ _ _ hw => simp [hw] at hj
  | sent _ _ _ _ _ hw => exact hw j hj

/-- A burst is received and used before anything is offered to the card. -/
theorem burst_order (ms : List Nat) (sent : List MbufEvent) :
    (ms.map MbufEvent.received ++ (ms.map MbufEvent.used ++ sent)).filterMap MbufEvent.received? =
        ms ++ sent.filterMap MbufEvent.received? ∧
      (ms.map MbufEvent.received ++ (ms.map MbufEvent.used ++ sent)).filterMap MbufEvent.offered? =
        sent.filterMap MbufEvent.offered? := by
  have hself : MbufEvent.received? ∘ MbufEvent.received = some := rfl
  have hreceived : (ms.map MbufEvent.received).filterMap MbufEvent.received? = ms := by
    rw [List.filterMap_map, hself, List.filterMap_some]
  have hoffered : (ms.map MbufEvent.received).filterMap MbufEvent.offered? = [] := by
    simp [MbufEvent.offered?]
  have hused : (ms.map MbufEvent.used).filterMap MbufEvent.received? = [] ∧
      (ms.map MbufEvent.used).filterMap MbufEvent.offered? = [] := by
    simp [MbufEvent.received?, MbufEvent.offered?]
  simp only [List.filterMap_append, hreceived, hoffered, hused.1, hused.2, List.nil_append, and_self]

/-- A poll receives as many mbufs as its burst has packets, the next ones that come. -/
theorem BatchMove.received (hm : BatchMove c s x s' e) :
    e.mbufs.filterMap MbufEvent.received? =
      (List.range (s'.nextMbuf - s.nextMbuf)).map (s.nextMbuf + ·) := by
  cases hm with
  | quiet _ _ hnext _ hm => simp [hm, hnext]
  | sweepEnd _ _ hnext hm => simp [hm, hnext, endSweep_received?]
  | sent _ _ hnext _ hm =>
    rw [hm, (burst_order _ _).1, transmit_received?, List.append_nil, hnext,
      Nat.add_sub_cancel_left]
    rfl

/-- The batch is a queue. -/
theorem BatchMove.order (hm : BatchMove c s x s' e) (h : Batched c s) :
    s.batch ++ e.mbufs.filterMap MbufEvent.received? =
      e.mbufs.filterMap MbufEvent.offered? ++ s'.batch := by
  have hsingle := h.single_batch
  cases hm with
  | quiet hbatch _ _ _ hm => simp [hm, hbatch]
  | sweepEnd hbatch _ _ hm =>
    rw [hm, hbatch, endSweep_received?, ← endSweep_order hsingle]
  | sent hbatch _ _ _ hm =>
    obtain ⟨hreceived, hoffered⟩ := burst_order (s.pktsBurst x)
      (transmit c.mode s.batch (s.pktsBurst x) x.nbTx).2
    rw [hm, hbatch, hreceived, hoffered, transmit_received?, List.append_nil]
    exact transmit_order hsingle x.nbTx

/-- The mbufs known so far have smaller numbers. -/
theorem BatchMove.known (hm : BatchMove c s x s' e) (hbatch : ∀ m ∈ s.batch, m < s.nextMbuf) :
    s.nextMbuf ≤ s'.nextMbuf ∧ (∀ a ∈ e.mbufs, a.mbuf < s'.nextMbuf) ∧
      ∀ m ∈ s'.batch, m < s'.nextMbuf := by
  have hburst : ∀ m ∈ s.pktsBurst x, m < s.nextMbuf + x.nbRx := by
    intro m hm
    simp only [BatchState.pktsBurst, List.mem_map, List.mem_range] at hm
    obtain ⟨j, hj, rfl⟩ := hm
    omega
  cases hm with
  | quiet hb _ hnext _ hm _ =>
    rw [hb, hnext]
    exact ⟨Nat.le_refl _, by simp [hm], hbatch⟩
  | sweepEnd hb _ hnext hm _ =>
    rw [hb, hnext]
    refine ⟨Nat.le_refl _, fun a ha => ?_, by simp⟩
    rw [hm] at ha
    exact hbatch _ (endSweep_mem ha)
  | sent hb _ hnext _ hm _ =>
    have hboth : ∀ m, m ∈ s.batch ∨ m ∈ s.pktsBurst x → m < s'.nextMbuf := by
      rw [hnext]
      rintro m (hm | hm)
      · have := hbatch m hm
        omega
      · exact hburst m hm
    refine ⟨by omega, fun a ha => ?_, fun m hm => ?_⟩
    · rw [hm] at ha
      simp only [List.mem_append, List.mem_map] at ha
      rcases ha with ⟨m, hm, rfl⟩ | ⟨m, hm, rfl⟩ | ha
      · exact hboth m (Or.inr hm)
      · exact hboth m (Or.inr hm)
      · exact hboth _ (transmit_mem ha)
    · rw [hb] at hm
      exact hboth m (transmit_batch hm)

theorem pktsBurst_nodup (s : BatchState) (x : BurstInput) : (s.pktsBurst x).Nodup :=
  List.Nodup.map (fun _ _ h => Nat.add_left_cancel h) List.nodup_range

/-- The mbufs owned are those in the batch. -/
theorem BatchMove.holding (hm : BatchMove c s x s' e) (h : Batched c s) {tr : List MbufEvent}
    (hknown : ∀ a ∈ tr, a.mbuf < s.nextMbuf) (hold : Holding (tr.map MbufEvent.access) s.batch) :
    Holding ((tr ++ e.mbufs).map MbufEvent.access) s'.batch := by
  have hsingle := h.single_batch
  cases hm with
  | quiet hbatch _ _ _ hm =>
    rw [hm, hbatch, List.append_nil]
    exact hold
  | sweepEnd hbatch _ _ hm =>
    have hsent := endSweep_holding hsingle hold x.nbTx
    rw [endSweep_batch] at hsent
    rwa [hm, hbatch, List.map_append]
  | sent hbatch _ _ _ hm =>
    have hreceived := hold.acquireAll (s.pktsBurst x) (pktsBurst_nodup s x) (by
      intro m hmem hacq
      have hlt : m < s.nextMbuf := hknown _ (acquire_mem hacq)
      simp only [BatchState.pktsBurst, List.mem_map] at hmem
      obtain ⟨j, -, rfl⟩ := hmem
      omega)
    have hused := hreceived.useAll ((s.pktsBurst x).map Access.use) (by
      intro a ha
      obtain ⟨m, hm, rfl⟩ := List.mem_map.mp ha
      exact ⟨m, List.mem_append_right _ hm, rfl⟩)
    have hsent := transmit_holding hsingle hused x.nbTx
    have hacq : MbufEvent.access ∘ MbufEvent.received = Access.acquire := rfl
    have huse : MbufEvent.access ∘ MbufEvent.used = Access.use := rfl
    rw [hm, hbatch]
    simpa only [List.map_append, List.map_map, hacq, huse, List.append_assoc] using hsent

end Steps

/-! ## Runs -/

/-- What happens to mbufs in some steps. -/
def mbufTrace (es : List BatchEvent) : List MbufEvent := es.flatMap BatchEvent.mbufs

/-- The mbufs that are received in some steps, in their order. -/
def receivedIn (es : List BatchEvent) : List Nat :=
  es.flatMap fun e => e.mbufs.filterMap MbufEvent.received?

/-- The mbufs that are passed to `rte_eth_tx_burst` in some steps, in their order. -/
def offeredIn (es : List BatchEvent) : List Nat :=
  es.flatMap fun e => e.mbufs.filterMap MbufEvent.offered?

/-- Nothing has happened yet, or a sweep has just ended. -/
def EndsSweep (es : List BatchEvent) : Prop := ∀ e ∈ es.getLast?, e.poll = .sweepEnd

/-- What holds after the steps `es` of a run. -/
structure BatchRun (c : MicaCfg) (es : List BatchEvent) (s : BatchState) : Prop where
  batched : Batched c s
  known : ∀ a ∈ mbufTrace es, a.mbuf < s.nextMbuf
  batch_known : ∀ m ∈ s.batch, m < s.nextMbuf
  holding : Holding ((mbufTrace es).map MbufEvent.access) s.batch
  writes : ∀ e ∈ es, ∀ j ∈ e.writes, 0 ≤ j ∧ j < TX_BATCH_SIZE

section Runs

variable {c : MicaCfg} {s s' : BatchState} {x : BurstInput} {e : BatchEvent} {es : List BatchEvent}
  {txBatch : Int → Nat} {xs : List BurstInput}

theorem BatchRun.init (c : MicaCfg) (txBatch : Int → Nat) :
    BatchRun c [] (BatchState.init c txBatch) := by
  refine ⟨⟨Int.le_refl 0, Int.natCast_nonneg _, fun _ => rfl⟩, ?_, ?_, Holding.nil, ?_⟩ <;>
    simp [mbufTrace, BatchState.init, BatchState.batch]

theorem BatchRun.snoc (h : BatchRun c es s) (hm : BatchMove c s x s' e) :
    BatchRun c (es ++ [e]) s' := by
  obtain ⟨hnext, hnew, hbatch⟩ := hm.known h.batch_known
  have htrace : mbufTrace (es ++ [e]) = mbufTrace es ++ e.mbufs := by simp [mbufTrace]
  refine ⟨hm.batched h.batched, ?_, hbatch, ?_, ?_⟩
  · rw [htrace]
    intro a ha
    rcases List.mem_append.mp ha with ha | ha
    · exact Nat.lt_of_lt_of_le (h.known a ha) hnext
    · exact hnew a ha
  · rw [htrace]
    exact hm.holding h.batched h.known h.holding
  · intro e' he' j hj
    rcases List.mem_append.mp he' with he' | he'
    · exact h.writes e' he' j hj
    · rw [List.mem_singleton.mp he'] at hj
      exact hm.writes_lt hj

/-- **The run invariant.** -/
theorem batchRun (c : MicaCfg) (txBatch : Int → Nat) (xs : List BurstInput) :
    BatchRun c ((micaTx c).events (BatchState.init c txBatch) xs)
      ((micaTx c).final (BatchState.init c txBatch) xs) := by
  refine (micaTx c).history_inv (H := fun tr s => BatchRun c (tr.map Move.event) s)
    (BatchRun.init c txBatch) ?_ xs
  intro tr s x h
  rw [List.map_append]
  exact h.snoc (batchStep_moves h.batched x)

/-- **The scheduler is the one of the loop**: the array and the packets do not touch it. -/
theorem polls_run (c : MicaCfg) (txBatch : Int → Nat) (xs : List BurstInput) :
    ((micaTx c).final (.init c txBatch) xs).loop =
        (micaLoop c).final (.init c) (xs.map fun x => ⟨x.lock, x.nbRx⟩) ∧
      ((micaTx c).events (.init c txBatch) xs).map BatchEvent.poll =
        (micaLoop c).events (.init c) (xs.map fun x => ⟨x.lock, x.nbRx⟩) := by
  induction xs using List.reverseRecOn with
  | nil => exact ⟨rfl, rfl⟩
  | append_singleton xs x ih =>
    obtain ⟨hloop, hpoll, -⟩ := batchStep_next c ((micaTx c).final (.init c txBatch) xs) x
    rw [ih.1] at hloop hpoll
    rw [List.map_append, List.map_singleton, Machine.final_snoc, Machine.final_snoc,
      Machine.events_snoc, Machine.events_snoc, List.map_append, ih.2]
    exact ⟨hloop, congrArg (fun p => _ ++ [p]) hpoll⟩

/-- **A poll receives the mbufs of its burst**, numbered as they come. -/
theorem received_run (c : MicaCfg) (txBatch : Int → Nat) (xs : List BurstInput) :
    (∀ e ∈ (micaTx c).events (.init c txBatch) xs,
        (e.mbufs.filterMap MbufEvent.received?).length = burst e.poll) ∧
      receivedIn ((micaTx c).events (.init c txBatch) xs) =
        List.range ((micaTx c).final (.init c txBatch) xs).nextMbuf := by
  induction xs using List.reverseRecOn with
  | nil => exact ⟨by simp [Machine.events], rfl⟩
  | append_singleton xs x ih =>
    have hm := (batchStep_moves (batchRun c txBatch xs).batched x).received
    obtain ⟨-, -, hnext⟩ := batchStep_next c ((micaTx c).final (.init c txBatch) xs) x
    rw [hnext, Nat.add_sub_cancel_left] at hm
    rw [Machine.events_snoc, Machine.final_snoc]
    refine ⟨?_, ?_⟩
    · intro e he
      rcases List.mem_append.mp he with he | he
      · exact ih.1 e he
      · rw [List.mem_singleton.mp he]
        exact (congrArg List.length hm).trans (by simp [micaTx])
    · have hlast : ∀ es e, receivedIn (es ++ [e]) =
          receivedIn es ++ e.mbufs.filterMap MbufEvent.received? := by
        simp [receivedIn]
      rw [hlast, ih.2]
      show List.range _ ++ (batchStep c _ x).2.mbufs.filterMap MbufEvent.received? =
        List.range (batchStep c _ x).1.nextMbuf
      rw [hm, hnext, List.range_add]

/-- The batch is empty between the sweeps. -/
theorem batch_between (h : EndsSweep ((micaTx c).events (BatchState.init c txBatch) xs)) :
    ((micaTx c).final (BatchState.init c txBatch) xs).batch = [] := by
  induction xs using List.reverseRecOn with
  | nil => rfl
  | append_singleton xs x _ =>
    have hm := batchStep_moves (batchRun c txBatch xs).batched x
    rw [Machine.events_snoc] at h
    rw [Machine.final_snoc]
    have hend : (batchStep c ((micaTx c).final (BatchState.init c txBatch) xs) x).2.poll =
        .sweepEnd := h _ List.getLast?_concat
    cases hm with
    | quiet _ _ _ hpoll => rw [hend] at hpoll; cases hpoll
    | sweepEnd hbatch => exact hbatch
    | sent _ _ _ hpoll => rw [hend] at hpoll; cases hpoll

/-- An mbuf that is not in the batch has been given away once. -/
theorem BatchRun.given (h : BatchRun c es s) (hempty : s.batch = []) {m : Nat}
    (hm : .received m ∈ mbufTrace es) :
    (mbufTrace es).count (.accepted m) + (mbufTrace es).count (.freed m) = 1 := by
  have hold := h.holding
  rw [hempty] at hold
  rw [← count_release]
  exact hold.ownedOnce.once m (List.mem_map_of_mem (f := MbufEvent.access) hm)

/-- No mbuf is given away twice. -/
theorem BatchRun.given_le (h : BatchRun c es s) (m : Nat) :
    (mbufTrace es).count (.accepted m) + (mbufTrace es).count (.freed m) ≤ 1 := by
  rw [← count_release]
  by_cases hrel : .release m ∈ (mbufTrace es).map MbufEvent.access
  · have hacq := h.holding.known m hrel
    by_cases hheld : m ∈ s.batch
    · exact absurd hrel (h.holding.unreleased m hheld)
    · exact Nat.le_of_eq (h.holding.once m hacq hheld)
  · rw [List.count_eq_zero_of_not_mem hrel]
    exact Nat.zero_le 1

/-- From one sweep end to another one, mbufs are sent in the order in which they came. -/
theorem order_between {pre seg post : List BatchEvent}
    (hsplit : (micaTx c).events (BatchState.init c txBatch) xs = pre ++ (seg ++ post))
    (hpre : EndsSweep pre) (hseg : EndsSweep (pre ++ seg)) : offeredIn seg = receivedIn seg := by
  obtain ⟨ys, zs, -, rfl, hrest⟩ := (micaTx c).events_split hsplit
  obtain ⟨us, vs, -, rfl, -⟩ := (micaTx c).events_split hrest.symm
  have hbefore := batch_between hpre
  have hafter : ((micaTx c).final ((micaTx c).final (BatchState.init c txBatch) ys) us).batch =
      [] := by
    rw [← Machine.final_append]
    apply batch_between
    rwa [Machine.events_append]
  exact (micaTx c).fifo_segment (I := Batched c) BatchState.batch _ _
    (fun s x h => (batchStep_moves h x).batched h)
    (fun s x h => (batchStep_moves h x).order h) (batchRun c txBatch ys).batched hbefore hafter

end Runs

/-- **mica's transmit batching conserves packets**, for every mode, policy, burst and number of
    accepted packets.  The polls are those of the loop, and a poll of `n` packets receives `n` mbufs
    that were never received before; `tx_total` and the entries written stay within the array, an
    mbuf is given away at most once, and when a sweep has ended exactly once if it was received; the
    batch is empty then, and every sweep sends the mbufs in the order in which it received them. -/
theorem mica_batching (c : MicaCfg) (txBatch : Int → Nat) (xs : List BurstInput) :
    let es := (micaTx c).events (.init c txBatch) xs
    let s := (micaTx c).final (.init c txBatch) xs
    (es.map BatchEvent.poll =
        (micaLoop c).events (.init c) (xs.map fun x => ⟨x.lock, x.nbRx⟩) ∧
      (∀ e ∈ es, (e.mbufs.filterMap MbufEvent.received?).length = burst e.poll) ∧
      (receivedIn es).Nodup) ∧
    (0 ≤ s.txTotal ∧ s.txTotal ≤ TX_BATCH_SIZE) ∧
    (∀ e ∈ es, ∀ j ∈ e.writes, 0 ≤ j ∧ j < TX_BATCH_SIZE) ∧
    (∀ m, (mbufTrace es).count (.accepted m) + (mbufTrace es).count (.freed m) ≤ 1) ∧
    (EndsSweep es → s.batch = [] ∧ ∀ m, .received m ∈ mbufTrace es →
      (mbufTrace es).count (.accepted m) + (mbufTrace es).count (.freed m) = 1) ∧
    ∀ pre seg post, es = pre ++ (seg ++ post) → EndsSweep pre → EndsSweep (pre ++ seg) →
      offeredIn seg = receivedIn seg := by
  intro es s
  have hrun : BatchRun c es s := batchRun c txBatch xs
  obtain ⟨hlen, hreceived⟩ := received_run c txBatch xs
  have hnodup : (receivedIn es).Nodup := by
    rw [hreceived]
    exact List.nodup_range
  refine ⟨⟨(polls_run c txBatch xs).2, hlen, hnodup⟩, ⟨hrun.batched.nonneg, hrun.batched.le⟩,
    hrun.writes, hrun.given_le, fun hend => ?_, fun pre seg post => order_between⟩
  have hempty := batch_between hend
  exact ⟨hempty, fun m hm => hrun.given hempty hm⟩

/-- Three packets of queue 0, of which the card accepts two when the sweep ends. -/
def threePackets : List BurstInput :=
  [⟨true, 3, 0, by decide⟩, ⟨true, 0, 0, by decide⟩, ⟨true, 0, 2, by decide⟩]

theorem mica_batching_threePackets :
    let es := (micaTx (.allPolicies .partitioned)).events
      (.init (.allPolicies .partitioned) (fun _ => 0)) threePackets
    (mbufTrace es).filter (fun a => a.access ≠ .use a.mbuf) =
        [.received 0, .received 1, .received 2, .accepted 0, .accepted 1, .freed 2] ∧
      offeredIn es = receivedIn es ∧
      (mbufTrace es).count (.accepted 2) + (mbufTrace es).count (.freed 2) = 1 := by
  have h := mica_batching (.allPolicies .partitioned) (fun _ => 0) threePackets
  have hend : EndsSweep ((micaTx (.allPolicies .partitioned)).events
      (.init (.allPolicies .partitioned) (fun _ => 0)) threePackets) := by
    have hlast : ((micaTx (.allPolicies .partitioned)).events (.init (.allPolicies .partitioned)
        (fun _ => 0)) threePackets).getLast?.map BatchEvent.poll = some .sweepEnd := by
      decide +kernel
    intro e he
    rw [Option.mem_def.mp he] at hlast
    exact Option.some.inj hlast
  refine ⟨by decide +kernel, ?_, ?_⟩
  · exact h.2.2.2.2.2 [] _ [] (by simp) (by simp [EndsSweep]) (by simpa using hend)
  · exact (h.2.2.2.2.1 hend).2 2 (by decide +kernel)

end QueueDpdk.PollLoop.Mica
