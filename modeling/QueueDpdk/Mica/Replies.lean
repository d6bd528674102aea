import QueueDpdk.Chain.Burst
import QueueDpdk.Mehcached.Runs

/-!
# The replies of mica (`mica/main.c`)

Every packet is a request for the value of its flow, a GET or a SET in turn, and is sent back with
the value in it.  The table copies and compares keys in units of 8 bytes: the 3 bytes that follow a
`struct five_tuple` on the stack are part of the key.

* `micaTable` — the table that `main` sets up.
* `micaPacket`, `micaPackets` — the packets, one after the other, each with what the stack holds.
* `Answered` — a GET whose reply does not depend on the buffer, as the bucket of its key has it.
* `reply_fixed_iff` — a reply does not depend on what the buffer held before if and only if it answers
  a SET or an `Answered` GET; then neither do the replies to several packets.
* `answered_iff_filled` — where all values have the length of the buffer, as those of mica have, a GET
  is `Answered` just in case it finds an item whose value fills the buffer.
-/

set_option autoImplicit false

namespace QueueDpdk.Mica

open Lib PollLoop NatFlow Chain QueueDpdk.Mehcached

def VALUE_SIZE : ℕ := 1400

/-- The value follows the headers and a `size_t`. -/
def VALUE_OFFSET : ℕ := 14 + 20 + 8 + 8

def NUM_KEYS : ℕ := 10000000

/-- The table of `main`, on the memory that it maps. -/
def micaTable (data : Bytes) (mthThreshold : ℕ) : Option Table :=
  tableInit data ((NUM_KEYS + ITEMS_PER_BUCKET - 1) / ITEMS_PER_BUCKET)
    (NUM_KEYS * (ITEM_HEADER + 8 + 8)) mthThreshold

/-- The globals `flag`, `get_set_toggle` and `table`. -/
structure MicaState where
  flag : Bool
  getSetToggle : UInt32 → Bool
  table : Table

/-- The key of a packet, its fields in network byte order. -/
def fiveTupleOf (pkt : Bytes) : FiveTuple :=
  ⟨get32 pkt SRC_ADDR, get32 pkt DST_ADDR, get16 pkt SRC_PORT, get16 pkt DST_PORT,
    pkt NEXT_PROTO_ID⟩

/-- `do_get`, from the toggle of the mode. -/
def MicaState.doGet (s : MicaState) (mode : QflowMode) (lcoreId : UInt32) : Bool :=
  if mode = .single then s.flag else s.getSetToggle lcoreId

/-- The other way next time. -/
def MicaState.toggle (s : MicaState) (mode : QflowMode) (lcoreId : UInt32) : MicaState :=
  if mode = .single then { s with flag := !s.flag }
  else { s with getSetToggle := Function.update s.getSetToggle lcoreId (!s.getSetToggle lcoreId) }

/-- The value that a SET stores. -/
def setValue : Bytes := fun k => if k < VALUE_SIZE - 1 then 0x41 else 0

/-- The packet after `memcpy(pkt + …, &value, VALUE_SIZE)`. -/
def writeValue (pkt value : Bytes) : Bytes := fun k =>
  if VALUE_OFFSET ≤ k ∧ k < VALUE_OFFSET + VALUE_SIZE then value (k - VALUE_OFFSET) else pkt k

/-- A packet, with what the stack holds: in the buffer `value`, and behind `key`. -/
structure Packet where
  pkt : Bytes
  value : Bytes
  behind : Bytes

def keyBytes (pkt : Bytes) : List UInt8 := (fiveTupleOf pkt).bytes

/-- The key that the table is asked for. -/
def Packet.request (hash : List UInt8 → UInt64) (p : Packet) : Mehcached.Request :=
  ⟨hash (keyBytes p.pkt),
    fun k => if k < 13 then (keyBytes p.pkt).getD k 0 else p.behind (k - 13), 13⟩

/-- `mica_process5tuple`; `none` if an assertion fails, of the ones that are compiled in. -/
def micaPacket (hash : List UInt8 → UInt64) (mode : QflowMode) (lcoreId : UInt32)
    (s : MicaState) (p : Packet) : Option (MicaState × Bytes) :=
  let doGet := s.doGet mode lcoreId
  let s := s.toggle mode lcoreId
  if doGet then do
    let (table, found, value) ← mehcachedGet s.table (p.request hash) p.value VALUE_SIZE false
    -- the assertion of the source, on the length that was found
    if s.table.alloc.ndebug = true ∨ ∀ x ∈ found, x.1 = VALUE_SIZE then
      some ({ s with table := table }, writeValue p.pkt value)
    else none
  else do
    let value := memcpy p.value setValue VALUE_SIZE
    let (table, stored) ← mehcachedSet s.table (p.request hash) value VALUE_SIZE 0 true
    if s.table.alloc.ndebug = true ∨ stored = true then
      some ({ s with table := table }, writeValue p.pkt value)
    else none

/-- Packets one after the other, as `mica_process_burst` takes them. -/
def micaPackets (hash : List UInt8 → UInt64) (mode : QflowMode) (lcoreId : UInt32) :
    MicaState → List Packet → Option (MicaState × List Bytes)
  | s, [] => some (s, [])
  | s, p :: rest => do
    let (s, reply) ← micaPacket hash mode lcoreId s p
    let (s, replies) ← micaPackets hash mode lcoreId s rest
    some (s, reply :: replies)

/-- How much room an item needs at the end of the log, as `mehcached_get` computes it. -/
def movedSize (item : Bytes) : ℕ :=
  ITEM_HEADER + roundup8 (min (keyLengthOf item) MAX_KEY_LENGTH) +
    roundup8 (min (valueLengthOf item) MAX_VALUE_LENGTH)

/-- The bucket has an item for the key of a packet, and its value, of which the table copies a
    multiple of 8 bytes, fills the buffer; or no reply leaves, as the item is still in the pool and
    the assertions see to its length, or its move to the end of the log does not come to an end. -/
def Answered (hash : List UInt8 → UInt64) (t : Table) (p : Packet) : Prop :=
  let r := p.request hash
  let b := calcBucketIndex t r.keyHash.toNat
  ∃ i, findItemIndex t b (calcTag r.keyHash.toNat) r = some i ∧
    (VALUE_SIZE ≤ roundup8 (valueLengthOf (t.item (t.itemVecs b i))) ∨
      poolIsValid t.alloc (itemOffsetOf (t.itemVecs b i)) = true ∧
        (t.alloc.ndebug = false ∨
          moveToHead t b i (movedSize (t.item (t.itemVecs b i))) = none))

/-- The bucket has an item for the key of a packet, and its value fills the buffer. -/
def Filled (hash : List UInt8 → UInt64) (t : Table) (p : Packet) : Prop :=
  let r := p.request hash
  let b := calcBucketIndex t r.keyHash.toNat
  ∃ i, findItemIndex t b (calcTag r.keyHash.toNat) r = some i ∧
    VALUE_SIZE ≤ roundup8 (valueLengthOf (t.item (t.itemVecs b i)))

/-- Every GET is answered, until an assertion fails. -/
def AllAnswered (hash : List UInt8 → UInt64) (mode : QflowMode) (lcoreId : UInt32) :
    MicaState → List Packet → Prop
  | _, [] => True
  | s, p :: rest => (s.doGet mode lcoreId = true → Answered hash s.table p) ∧
      ∀ s' reply, micaPacket hash mode lcoreId s p = some (s', reply) →
        AllAnswered hash mode lcoreId s' rest

/-! ## What is written -/

/-- What is written is what the buffer holds. -/
theorem writeValue_inj_iff {pkt value value' : Bytes} :
    writeValue pkt value = writeValue pkt value' ↔ ∀ k < VALUE_SIZE, value k = value' k := by
  constructor
  · intro h k hk
    have hbyte := congrFun h (VALUE_OFFSET + k)
    have hin : VALUE_OFFSET ≤ VALUE_OFFSET + k ∧
        VALUE_OFFSET + k < VALUE_OFFSET + VALUE_SIZE := by omega
    rw [writeValue, writeValue, if_pos hin, if_pos hin, Nat.add_sub_cancel_left] at hbyte
    exact hbyte
  · intro h
    funext k
    unfold writeValue
    split
    · rename_i hin
      exact h _ (by omega)
    · rfl

/-- A copy of `n` bytes decides what is written just in case it fills the buffer. -/
theorem writeValue_memcpy_iff (pkt src : Bytes) {n : ℕ} :
    (∀ value value', writeValue pkt (memcpy value src n) = writeValue pkt (memcpy value' src n)) ↔
      VALUE_SIZE ≤ n := by
  simp only [writeValue_inj_iff]
  exact memcpy_hides_iff src

theorem writeValue_set (pkt value : Bytes) :
    writeValue pkt (memcpy value setValue VALUE_SIZE) = writeValue pkt setValue :=
  writeValue_inj_iff.mpr (fun _ hk => memcpy_of_lt value setValue hk)

theorem roundup8_valueSize : roundup8 VALUE_SIZE = VALUE_SIZE := by decide

theorem toggle_table (s : MicaState) (mode : QflowMode) (lcoreId : UInt32) :
    (s.toggle mode lcoreId).table = s.table := by
  unfold MicaState.toggle
  split <;> rfl

/-! ## One packet -/

section Replies

variable {hash : List UInt8 → UInt64} {mode : QflowMode} {lcoreId : UInt32} {s : MicaState}
  {t : Table} {p : Packet} {b i : ℕ}

theorem get_missed {r : Mehcached.Request} (hk : r.keyLength ≤ MAX_KEY_LENGTH)
    (hfind : findItemIndex t (calcBucketIndex t r.keyHash.toNat) (calcTag r.keyHash.toNat) r = none)
    (value : Bytes) : mehcachedGet t r value VALUE_SIZE false = some (t, none, value) := by
  unfold mehcachedGet
  rw [if_neg (by omega)]
  dsimp only
  rw [hfind]

theorem request_keyLength (hash : List UInt8 → UInt64) (p : Packet) :
    (p.request hash).keyLength ≤ MAX_KEY_LENGTH := (by decide : 13 ≤ MAX_KEY_LENGTH)

/-- What a GET copies of an item: this many bytes, rounded up, from here. -/
def copied (item : Bytes) : ℕ :=
  min (min (valueLengthOf item) MAX_VALUE_LENGTH) VALUE_SIZE

def copiedFrom (item : Bytes) : Bytes := fun k =>
  dataOf item (roundup8 (min (keyLengthOf item) MAX_KEY_LENGTH) + k)

theorem copied_iff (item : Bytes) :
    VALUE_SIZE ≤ roundup8 (copied item) ↔ VALUE_SIZE ≤ roundup8 (valueLengthOf item) := by
  unfold copied roundup8 VALUE_SIZE MAX_VALUE_LENGTH
  omega

/-- **A GET that finds an item** copies its value, or what is now in its place. -/
theorem get_found {r : Mehcached.Request} {item : Bytes} (hk : r.keyLength ≤ MAX_KEY_LENGTH)
    (hb : calcBucketIndex t r.keyHash.toNat = b)
    (hfind : findItemIndex t b (calcTag r.keyHash.toNat) r = some i)
    (hitem : t.item (t.itemVecs b i) = item) (value : Bytes) :
    mehcachedGet t r value VALUE_SIZE false =
      if poolIsValid t.alloc (itemOffsetOf (t.itemVecs b i)) = true then
        (moveToHead t b i (movedSize item)).map (fun t' => (t',
          some (copied item, expireTimeOf item),
          memcpy value (copiedFrom item) (roundup8 (copied item))))
      else some (t.setItemVec b i 0, none,
        memcpy value (copiedFrom item) (roundup8 (copied item))) := by
  have hlen : ¬(t.alloc.ndebug = false ∧ 1500 < copied item) := by
    have hle : copied item ≤ VALUE_SIZE := Nat.min_le_right _ _
    unfold VALUE_SIZE at hle
    omega
  unfold mehcachedGet
  rw [if_neg (by omega)]
  dsimp only
  rw [hb, hfind]
  dsimp only
  rw [hitem, memcpy8, copyAt_zero]
  unfold copied at hlen ⊢
  cases hvalid : poolIsValid t.alloc (itemOffsetOf (t.itemVecs b i)) with
  | false => rfl
  | true =>
    rw [if_neg (by decide), if_neg hlen, if_pos rfl, movedSize]
    simp only [Bool.false_eq_true, if_false]
    cases moveToHead t b i _ <;> rfl

/-- A packet that is a GET. -/
theorem micaPacket_get (hget : s.doGet mode lcoreId = true) (value : Bytes) :
    micaPacket hash mode lcoreId s { p with value := value } =
      (mehcachedGet s.table (p.request hash) value VALUE_SIZE false).bind (fun x =>
        if s.table.alloc.ndebug = true ∨ ∀ y ∈ x.2.1, y.1 = VALUE_SIZE then
          some ({ s.toggle mode lcoreId with table := x.1 }, writeValue p.pkt x.2.2) else none) := by
  have htable := toggle_table s mode lcoreId
  unfold micaPacket
  dsimp only
  rw [hget, if_pos rfl, htable]
  rfl

/-- The reply to a GET that finds an item, if one leaves. -/
theorem reply_found {item : Bytes} (hget : s.doGet mode lcoreId = true)
    (hb : calcBucketIndex s.table (p.request hash).keyHash.toNat = b)
    (hfind : findItemIndex s.table b (calcTag (p.request hash).keyHash.toNat) (p.request hash) = some i)
    (hitem : s.table.item (s.table.itemVecs b i) = item) :
    ∃ leaves : Bool, (∀ value, (micaPacket hash mode lcoreId s { p with value := value }).map Prod.snd =
        if leaves then some (writeValue p.pkt
          (memcpy value (copiedFrom item) (roundup8 (copied item)))) else none) ∧
      (leaves = true ↔ (poolIsValid s.table.alloc (itemOffsetOf (s.table.itemVecs b i)) = true →
        moveToHead s.table b i (movedSize item) ≠ none ∧
          (s.table.alloc.ndebug = true ∨ copied item = VALUE_SIZE))) := by
  have hrun := get_found (request_keyLength hash p) hb hfind hitem
  cases hvalid : poolIsValid s.table.alloc (itemOffsetOf (s.table.itemVecs b i)) with
  | false =>
    refine ⟨true, fun value => ?_, by simp⟩
    rw [micaPacket_get hget, hrun, hvalid]
    simp
  | true =>
    cases hmove : moveToHead s.table b i (movedSize item) with
    | none =>
      refine ⟨false, fun value => ?_, by simp⟩
      rw [micaPacket_get hget, hrun, hvalid, hmove]
      rfl
    | some t' =>
      refine ⟨decide (s.table.alloc.ndebug = true ∨ copied item = VALUE_SIZE), fun value => ?_,
        by simp⟩
      rw [micaPacket_get hget, hrun, hvalid, hmove]
      dsimp only [Option.map_some, Option.bind_some]
      split <;> simp_all

/-- **A GET** whose reply does not depend on the buffer. -/
theorem get_fixed_iff (hget : s.doGet mode lcoreId = true) :
    (∀ value value', (micaPacket hash mode lcoreId s { p with value := value }).map Prod.snd =
        (micaPacket hash mode lcoreId s { p with value := value' }).map Prod.snd) ↔
      Answered hash s.table p := by
  unfold Answered
  dsimp only
  cases hfind : findItemIndex s.table (calcBucketIndex s.table (p.request hash).keyHash.toNat)
    (calcTag (p.request hash).keyHash.toNat) (p.request hash) with
  | none =>
    have hmiss := get_missed (request_keyLength hash p) hfind
    have hreply : ∀ value, (micaPacket hash mode lcoreId s { p with value := value }).map Prod.snd =
        some (writeValue p.pkt value) := by
      intro value
      rw [micaPacket_get hget, hmiss]
      simp
    refine iff_of_false (fun h => ?_) (by simp)
    have hbyte := h (fun _ => 0) (fun _ => 1)
    rw [hreply, hreply] at hbyte
    exact absurd (writeValue_inj_iff.mp (Option.some.inj hbyte) 0 (by decide)) (by decide)
  | some i =>
    obtain ⟨b, hb⟩ : ∃ b, calcBucketIndex s.table (p.request hash).keyHash.toNat = b := ⟨_, rfl⟩
    obtain ⟨item, hitem⟩ : ∃ item, s.table.item (s.table.itemVecs b i) = item := ⟨_, rfl⟩
    rw [hb] at hfind ⊢
    obtain ⟨leaves, hreply, hleaves⟩ := reply_found hget hb hfind hitem
    have hfull : copied item = VALUE_SIZE → VALUE_SIZE ≤ roundup8 (copied item) := by
      intro h
      rw [h]
      decide
    have hfixed : (∀ value value',
        (micaPacket hash mode lcoreId s { p with value := value }).map Prod.snd =
          (micaPacket hash mode lcoreId s { p with value := value' }).map Prod.snd) ↔
        (leaves = true → VALUE_SIZE ≤ roundup8 (copied item)) := by
      simp only [hreply]
      cases leaves with
      | false => simp
      | true =>
        simp only [if_true, Option.some.injEq, true_imp_iff]
        exact writeValue_memcpy_iff p.pkt (copiedFrom item)
    rw [hfixed, hleaves, copied_iff]
    rw [copied_iff] at hfull
    simp only [Option.some.injEq, exists_eq_left', hitem]
    -- a reply leaves unless the item is valid and an assertion or the move stops it
    by_cases hlong : VALUE_SIZE ≤ roundup8 (valueLengthOf item)
    · simp [hlong]
    · have hshort : copied item ≠ VALUE_SIZE := fun h => hlong (hfull h)
      cases hvalid : poolIsValid s.table.alloc (itemOffsetOf (s.table.itemVecs b i)) <;>
        cases hnd : s.table.alloc.ndebug <;> simp [hlong, hshort]

/-- An item that is still in the pool has a value like all others. -/
theorem answered_iff_filled {log : List ℕ} {pos : ℕ → ℕ → ℕ} {M : Key → Option Value}
    (h : TableOk (some VALUE_SIZE) t log pos M) : Answered hash t p ↔ Filled hash t p := by
  constructor
  · rintro ⟨i, hfind, hlong | ⟨hvalid, -⟩⟩
    · exact ⟨i, hfind, hlong⟩
    · obtain ⟨hbusy, -⟩ := h.find_some hfind
      have hlive := (h.live_slot hbusy ((h.valid_iff hbusy).mp hvalid)).1
      have hlen := (hlive.tight VALUE_SIZE rfl).1
      rw [← h.item_eq hbusy] at hlen
      exact ⟨i, hfind, Nat.le_of_eq hlen.symm⟩
  · rintro ⟨i, hfind, hlong⟩
    exact ⟨i, hfind, Or.inl hlong⟩

/-- A SET that the table has stored. -/
theorem micaPacket_stored {t' : Table} (hset : s.doGet mode lcoreId = false)
    (hrun : mehcachedSet s.table (p.request hash) (memcpy p.value setValue VALUE_SIZE) VALUE_SIZE 0
      true = some (t', true)) :
    micaPacket hash mode lcoreId s p =
      some ({ s.toggle mode lcoreId with table := t' }, writeValue p.pkt setValue) := by
  unfold micaPacket
  dsimp only
  rw [hset, toggle_table, hrun, writeValue_set]
  exact if_pos (Or.inr rfl)

/-- A GET that has found a value of the length of the buffer. -/
theorem answered_of_hit {t' : Table} {expireTime : ℕ} {value value' : Bytes}
    (hrun : mehcachedGet t (p.request hash) value VALUE_SIZE false =
      some (t', some (VALUE_SIZE, expireTime), value')) : Answered hash t p := by
  unfold Answered
  dsimp only
  cases hfind : findItemIndex t (calcBucketIndex t (p.request hash).keyHash.toNat)
    (calcTag (p.request hash).keyHash.toNat) (p.request hash) with
  | none =>
    rw [get_missed (request_keyLength hash p) hfind] at hrun
    cases hrun
  | some i =>
    rw [get_found (request_keyLength hash p) rfl hfind rfl] at hrun
    refine ⟨i, rfl, Or.inl ((copied_iff _).mp ?_)⟩
    split at hrun
    · obtain ⟨t1, -, hrun⟩ := Option.map_eq_some_iff.mp hrun
      have hlen : some (copied _) = some VALUE_SIZE :=
        congrArg (fun x => x.2.1.map Prod.fst) hrun
      rw [Option.some.inj hlen]
      decide
    · cases hrun

/-- A SET stores the bytes of the value only, rounded up to a multiple of 8. -/
theorem mehcachedSet_congr {value value' : Bytes} {valueLength : ℕ}
    (h : ∀ k < roundup8 valueLength, value k = value' k) (t : Table) (r : Mehcached.Request)
    (expireTime : UInt32) (overwrite : Bool) :
    mehcachedSet t r value valueLength expireTime overwrite =
      mehcachedSet t r value' valueLength expireTime overwrite := by
  have hcopy : ∀ dst off, copyAt dst off value (roundup8 valueLength) =
      copyAt dst off value' (roundup8 valueLength) := fun dst off => copyAt_congr dst off h
  simp only [mehcachedSet, setInPlace, setNew, setItem, setItemValue, memcpy8, hcopy]

/-- A SET replaces the whole buffer. -/
theorem set_fixed (hset : s.doGet mode lcoreId = false) (value value' : Bytes) :
    micaPacket hash mode lcoreId s { p with value := value } =
      micaPacket hash mode lcoreId s { p with value := value' } := by
  have hround : roundup8 VALUE_SIZE = VALUE_SIZE := by decide
  have hfill : ∀ k < VALUE_SIZE,
      memcpy value setValue VALUE_SIZE k = memcpy value' setValue VALUE_SIZE k :=
    (memcpy_hides_iff setValue).mpr (Nat.le_refl _) value value'
  have hwrite : writeValue p.pkt (memcpy value setValue VALUE_SIZE) =
      writeValue p.pkt (memcpy value' setValue VALUE_SIZE) := writeValue_inj_iff.mpr hfill
  have hstore := fun t r => mehcachedSet_congr
    (fun k hk => hfill k (Nat.lt_of_lt_of_eq hk hround)) t r 0 true
  unfold micaPacket
  dsimp only
  rw [hset, hwrite, hstore]
  rfl

/-- The state after a packet does not depend on the buffer. -/
theorem packet_state (value value' : Bytes) :
    (micaPacket hash mode lcoreId s { p with value := value }).map Prod.fst =
      (micaPacket hash mode lcoreId s { p with value := value' }).map Prod.fst := by
  cases hget : s.doGet mode lcoreId with
  | false => rw [set_fixed hget value value']
  | true =>
    rw [micaPacket_get hget, micaPacket_get hget]
    cases hfind : findItemIndex s.table (calcBucketIndex s.table (p.request hash).keyHash.toNat)
      (calcTag (p.request hash).keyHash.toNat) (p.request hash) with
    | none =>
      rw [get_missed (request_keyLength hash p) hfind, get_missed (request_keyLength hash p) hfind]
      simp
    | some i =>
      rw [get_found (request_keyLength hash p) rfl hfind rfl,
        get_found (request_keyLength hash p) rfl hfind rfl]
      split
      · cases moveToHead s.table _ i _ with
        | none => rfl
        | some t' =>
          dsimp only [Option.map_some, Option.bind_some]
          split <;> rfl
      · simp

/-- A packet that is a SET or an answered GET does not look at the buffer. -/
theorem packet_fixed (h : s.doGet mode lcoreId = true → Answered hash s.table p)
    (value value' : Bytes) :
    micaPacket hash mode lcoreId s { p with value := value } =
      micaPacket hash mode lcoreId s { p with value := value' } := by
  cases hget : s.doGet mode lcoreId with
  | false => exact set_fixed hget value value'
  | true =>
    have hreply := (get_fixed_iff hget).mpr (h hget) value value'
    have hstate := @packet_state hash mode lcoreId s p value value'
    generalize micaPacket hash mode lcoreId s { p with value := value } = x at hreply hstate ⊢
    generalize micaPacket hash mode lcoreId s { p with value := value' } = y at hreply hstate ⊢
    cases x <;> cases y <;> simp_all [Prod.ext_iff]

end Replies

/-! ## All packets -/

/-- The replies to packets of which every GET is answered do not depend on the buffers. -/
theorem packets_fixed {hash : List UInt8 → UInt64} {mode : QflowMode} {lcoreId : UInt32} :
    ∀ (ps ps' : List Packet) (s : MicaState),
      ps.map (fun p => (p.pkt, p.behind)) = ps'.map (fun p => (p.pkt, p.behind)) →
      AllAnswered hash mode lcoreId s ps →
      micaPackets hash mode lcoreId s ps = micaPackets hash mode lcoreId s ps' := by
  intro ps
  induction ps with
  | nil =>
    intro ps' s hps _
    rw [List.map_nil, eq_comm, List.map_eq_nil_iff] at hps
    rw [hps]
  | cons p rest ih =>
    intro ps' s hps hall
    cases ps' with
    | nil => cases hps
    | cons p' rest' =>
      obtain ⟨pkt, value, behind⟩ := p
      obtain ⟨pkt', value', behind'⟩ := p'
      obtain ⟨hp, hrest⟩ := List.cons.inj hps
      obtain ⟨rfl, rfl⟩ := Prod.mk.inj hp
      have hsame := packet_fixed hall.1 value value'
      simp only [micaPackets, ← hsame]
      cases hstep : micaPacket hash mode lcoreId s ⟨pkt, value, behind⟩ with
      | none => rfl
      | some r => simp only [Option.bind_eq_bind, Option.bind_some,
          ih rest' r.1 hrest (hall.2 r.1 r.2 hstep)]

/-- **The reply does not depend on what the buffer held** just in case it answers a SET, or a GET
    that is answered; and if all GETs among some packets are, none of their replies does.  Where all
    values have the length of the buffer, a GET is answered if it finds an item that fills it. -/
theorem reply_fixed_iff (hash : List UInt8 → UInt64) (mode : QflowMode) (lcoreId : UInt32)
    (s : MicaState) :
    (∀ p : Packet,
      (∀ value value',
        (micaPacket hash mode lcoreId s { p with value := value }).map Prod.snd =
          (micaPacket hash mode lcoreId s { p with value := value' }).map Prod.snd) ↔
        (s.doGet mode lcoreId = true → Answered hash s.table p)) ∧
    (∀ ps ps' : List Packet,
      ps.map (fun p => (p.pkt, p.behind)) = ps'.map (fun p => (p.pkt, p.behind)) →
      AllAnswered hash mode lcoreId s ps →
      (micaPackets hash mode lcoreId s ps).map Prod.snd =
        (micaPackets hash mode lcoreId s ps').map Prod.snd) ∧
    ((∃ log pos M, TableOk (some VALUE_SIZE) s.table log pos M) →
      ∀ p, Answered hash s.table p ↔ Filled hash s.table p) := by
  refine ⟨fun p => ?_, fun ps ps' hps hall => by rw [packets_fixed ps ps' s hps hall],
    fun ⟨_, _, _, hok⟩ p => answered_iff_filled hok⟩
  cases hget : s.doGet mode lcoreId with
  | false =>
    refine iff_of_true (fun value value' => ?_) (fun h => absurd h Bool.false_ne_true)
    rw [set_fixed hget value value']
  | true => exact (get_fixed_iff hget).trans ⟨fun h _ => h, fun h => h rfl⟩

/-- The table of `main`, before the loop. -/
theorem sample_micaTable : ∃ t, micaTable (fun _ => 0) 0 = some t :=
  Option.isSome_iff_exists.mp (by decide +kernel)

/-- The state of one core on a table, before a SET. -/
def stateOn (t : Table) : MicaState := ⟨false, fun _ => false, t⟩

/-- A SET, and the GET that follows it: the item is found and fills the buffer. -/
theorem sample_answered {t : Table} (ht : micaTable (fun _ => 0) 0 = some t) :
    ∃ s reply, micaPacket (fun _ => 1) .single 0 (stateOn t)
        ⟨fun _ => 0, fun _ => 2, fun _ => 3⟩ = some (s, reply) ∧
      Answered (fun _ => 1) s.table ⟨fun _ => 0, fun _ => 5, fun _ => 3⟩ := by
  obtain ⟨hok, hzero⟩ := tableInit_spec (by decide) (by decide) (by decide) ht (some VALUE_SIZE)
  obtain ⟨t1, t2, value, hset, hget, -⟩ := (hok.get_after_set (by rw [hzero]; decide)
    (rfl : (Packet.request (fun _ => 1) ⟨fun _ => 0, fun _ => 5, fun _ => 3⟩).toKey =
      (Packet.request (fun _ => 1) ⟨fun _ => 0, fun _ => 2, fun _ => 3⟩).toKey)
    (request_keyLength _ _) (memcpy (fun _ => 2) setValue VALUE_SIZE) VALUE_SIZE (by decide)
    (fun l hl => roundup8_valueSize.trans (Option.some.inj hl)) 0 true (fun _ => 5) VALUE_SIZE
    (by decide) false (Or.inr (Or.inr ⟨_, rfl⟩))).resolve_left (by simp)
  rw [Nat.min_self] at hget
  exact ⟨_, _, micaPacket_stored rfl hset, answered_of_hit hget⟩

theorem reply_fixed_setGet : ∃ t, micaTable (fun _ => 0) 0 = some t ∧
    (micaPackets (fun _ => 1) .single 0 (stateOn t)
        [⟨fun _ => 0, fun _ => 2, fun _ => 3⟩, ⟨fun _ => 0, fun _ => 5, fun _ => 3⟩]).map Prod.snd =
      (micaPackets (fun _ => 1) .single 0 (stateOn t)
        [⟨fun _ => 0, fun _ => 7, fun _ => 3⟩, ⟨fun _ => 0, fun _ => 9, fun _ => 3⟩]).map
          Prod.snd := by
  obtain ⟨t, ht⟩ := sample_micaTable
  obtain ⟨s, reply, hset, hanswered⟩ := sample_answered ht
  refine ⟨t, ht, (reply_fixed_iff (fun _ => 1) .single 0 (stateOn t)).2.1 _ _ rfl
    ⟨fun hno => absurd hno Bool.false_ne_true, fun s' reply' hrun => ?_⟩⟩
  cases hset.symm.trans hrun
  exact ⟨fun _ => hanswered, fun _ _ _ => trivial⟩

/-- The first byte of the value in the reply to a GET of one flow. -/
def firstByte (t : Table) (value : Bytes) : Option UInt8 :=
  (micaPacket (fun _ => 1) .single 0 ⟨true, fun _ => false, t⟩
    ⟨fun _ => 0, value, fun _ => 0⟩).map (fun r => r.2 VALUE_OFFSET)

/-- A GET for a flow that the table does not have: the reply is what the stack held, and the
    assertions say nothing. -/
theorem reply_of_miss : ∃ t, micaTable (fun _ => 0) 0 = some t ∧
    ¬∀ value value' : Bytes,
      (micaPacket (fun _ => 1) .single 0 ⟨true, fun _ => false, t⟩
          ⟨fun _ => 0, value, fun _ => 0⟩).map Prod.snd =
        (micaPacket (fun _ => 1) .single 0 ⟨true, fun _ => false, t⟩
          ⟨fun _ => 0, value', fun _ => 0⟩).map Prod.snd := by
  obtain ⟨t, ht⟩ := sample_micaTable
  refine ⟨t, ht, fun h => ?_⟩
  have hzero : (micaTable (fun _ => 0) 0).bind (firstByte · (fun _ => 0)) = some 0 := by
    decide +kernel
  have hletter : (micaTable (fun _ => 0) 0).bind (firstByte · (fun _ => 0x41)) = some 0x41 := by
    decide +kernel
  rw [ht, Option.bind_some] at hzero hletter
  have hsame := congrArg (Option.map (· VALUE_OFFSET)) (h (fun _ => 0) (fun _ => 0x41))
  rw [Option.map_map, Option.map_map] at hsame
  exact absurd (hzero.symm.trans (hsame.trans hletter)) (by decide)

end QueueDpdk.Mica
