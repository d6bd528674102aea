import QueueDpdk.Mica.Replies

/-!
# mica with its store (`mica/main.c`)

Packets are answered from the table that `main` sets up, by one polling core.

* `preload` — the SETs before the first packet.
* `packets_answered` — **no assertion fails**, and every reply has the value, unless it answers a GET
  for a key that is not found.
* `set_then_get` — a packet that follows one of the same flow; `hit_has_set` — what is found was set
  before, for the same flow and the same 3 bytes.
-/

set_option autoImplicit false

namespace QueueDpdk.Mica

open Lib PollLoop NatFlow Chain QueueDpdk.Mehcached

/-- The key `i` of `main`, a `size_t`. -/
def defaultKey (hash : List UInt8 → UInt64) (i : ℕ) : Mehcached.Request :=
  ⟨hash (bytesLE 8 i), fun k => (bytesLE 8 i).getD k 0, 8⟩

/-- The loop of `main` that fills the table; `none` if its assertion fails. -/
def preload (hash : List UInt8 → UInt64) : Table → List ℕ → Option Table
  | t, [] => some t
  | t, i :: rest => do
    let (t, stored) ← mehcachedSet t (defaultKey hash i) setValue VALUE_SIZE 0 false
    if stored = true then preload hash t rest else none

/-- A GET that does not find the key of a packet. -/
def Missed (hash : List UInt8 → UInt64) (t : Table) (p : Packet) : Prop :=
  ∃ t' value, mehcachedGet t (p.request hash) p.value VALUE_SIZE false = some (t', none, value)

/-- Every reply has the value, or answers a GET that found nothing. -/
def Answers (hash : List UInt8 → UInt64) (mode : QflowMode) (lcoreId : UInt32) :
    MicaState → List Packet → List Bytes → Prop
  | _, [], [] => True
  | s, p :: rest, reply :: replies =>
    (reply = writeValue p.pkt setValue ∨ s.doGet mode lcoreId = true ∧ Missed hash s.table p) ∧
      ∃ s', micaPacket hash mode lcoreId s p = some (s', reply) ∧
        Answers hash mode lcoreId s' rest replies
  | _, _, _ => False

/-- The value that all items have. -/
def defaultValue : Value := callerValue setValue VALUE_SIZE 0

/-- **The table between two packets**: all values have the same length, and only keys in `K` have
    one. -/
def Ready (t : Table) (steps : ℕ) (K : Key → Prop) : Prop :=
  ∃ log pos M, TableOk (some VALUE_SIZE) t log pos M ∧ t.alloc.tail ≤ steps * MAX_ITEM ∧
    ∀ key v, M key = some v → v = defaultValue ∧ K key

/-! ## One packet -/

section Packets

variable {hash : List UInt8 → UInt64} {mode : QflowMode} {lcoreId : UInt32} {t : Table}
  {steps : ℕ} {K : Key → Prop}

theorem callerValue_bytes (value : Bytes) (n : ℕ) (expireTime : UInt32) :
    (callerValue value n expireTime).bytes = readBytes value 0 (roundup8 n) := rfl

theorem defaultValue_take :
    defaultValue.bytes.take VALUE_SIZE = readBytes setValue 0 VALUE_SIZE := by
  rw [defaultValue, callerValue_bytes, readBytes_take, Nat.min_eq_left (le_roundup8 VALUE_SIZE)]

/-- A SET of the value. -/
theorem Ready.set (h : Ready t steps K) (hbound : (steps + 1) * MAX_ITEM ≤ 2 ^ 63)
    {r : Mehcached.Request} (hk : r.keyLength ≤ MAX_KEY_LENGTH) {value : Bytes}
    (hvalue : ∀ k < VALUE_SIZE, value k = setValue k) (overwrite : Bool) :
    (overwrite = false ∧ mehcachedSet t r value VALUE_SIZE 0 overwrite = some (t, false)) ∨
    ∃ t', mehcachedSet t r value VALUE_SIZE 0 overwrite = some (t', true) ∧
      Ready t' (steps + 1) (fun key => K key ∨ key = r.toKey) := by
  rw [Nat.add_mul] at hbound
  obtain ⟨log, pos, M, hok, htail, hM⟩ := h
  rcases set_spec value 0 hok (by omega) hk (by decide : VALUE_SIZE ≤ MAX_VALUE_LENGTH)
    (fun l hl => roundup8_valueSize.trans (Option.some.inj hl)) overwrite with
    hno | ⟨t', log', pos', i, o, hrun, hok', hstep, -⟩
  · exact Or.inl hno
  · refine Or.inr ⟨t', hrun, log', pos', _, hok', ?_, fun key v hv => ?_⟩
    · have := hstep.near
      rw [Nat.add_mul]
      omega
    · by_cases hkey : key = r.toKey
      · subst hkey
        rw [stored, Function.update_self] at hv
        cases hv
        refine ⟨?_, Or.inr rfl⟩
        rw [defaultValue, callerValue, callerValue, Value.mk.injEq, roundup8_valueSize,
          readBytes_eq_iff]
        refine ⟨rfl, rfl, fun k hk => ?_⟩
        rw [Nat.zero_add]
        exact hvalue k hk
      · rw [stored, Function.update_of_ne hkey] at hv
        exact ⟨(hM key v hv).1, Or.inl (hM key v hv).2⟩

/-- A GET. -/
theorem Ready.get (h : Ready t steps K) (hbound : (steps + 1) * MAX_ITEM ≤ 2 ^ 63)
    {r : Mehcached.Request} (hk : r.keyLength ≤ MAX_KEY_LENGTH) (value : Bytes) :
    ∃ t' found value', mehcachedGet t r value VALUE_SIZE false = some (t', found, value') ∧
      Ready t' (steps + 1) K ∧ ∀ x ∈ found, x.1 = VALUE_SIZE ∧ K r.toKey ∧
        ∀ k < VALUE_SIZE, value' k = setValue k := by
  rw [Nat.add_mul] at hbound
  obtain ⟨log, pos, M, hok, htail, hM⟩ := h
  obtain ⟨t', found, value', log', pos', hrun, hok', hstep, hfound, -⟩ :=
    get_spec hok (by omega) hk value (by decide : VALUE_SIZE ≤ 1500)
      (Or.inr (Or.inr ⟨VALUE_SIZE, rfl⟩) : false = true ∨ _)
  refine ⟨t', found, value', hrun, ⟨log', pos', M, hok', ?_, hM⟩, fun x hx => ?_⟩
  · have := hstep.near
    rw [Nat.add_mul]
    omega
  · obtain ⟨v, hv, hlen, -, hbytes⟩ := hfound x.1 x.2 hx
    obtain ⟨rfl, hkey⟩ := hM _ v hv
    have hfull : x.1 = VALUE_SIZE := hlen
    refine ⟨hfull, hkey, fun k hk' => ?_⟩
    rw [hfull, roundup8_valueSize, defaultValue_take, readBytes_eq_iff] at hbytes
    simpa using hbytes k hk'

/-- **One packet.** -/
theorem packet_spec (hash : List UInt8 → UInt64) (mode : QflowMode) (lcoreId : UInt32)
    {s : MicaState} (h : Ready s.table steps K)
    (hbound : (steps + 1) * MAX_ITEM ≤ 2 ^ 63) (p : Packet) :
    ∃ s' reply, micaPacket hash mode lcoreId s p = some (s', reply) ∧
      Ready s'.table (steps + 1) (fun key => K key ∨
        s.doGet mode lcoreId = false ∧ key = (p.request hash).toKey) ∧
      (reply = writeValue p.pkt setValue ∧
          (s.doGet mode lcoreId = true → K (p.request hash).toKey) ∨
        s.doGet mode lcoreId = true ∧ Missed hash s.table p) := by
  have htable := toggle_table s mode lcoreId
  unfold micaPacket
  dsimp only
  rw [htable]
  cases hget : s.doGet mode lcoreId with
  | true =>
    obtain ⟨t', found, value', hrun, hready, hfound⟩ :=
      h.get hbound (r := p.request hash) (by decide : 13 ≤ MAX_KEY_LENGTH) p.value
    refine ⟨{ s.toggle mode lcoreId with table := t' }, writeValue p.pkt value', ?_, ?_, ?_⟩
    · rw [if_pos rfl, hrun, Option.bind_eq_bind, Option.bind_some]
      exact if_pos (Or.inr (fun x hx => (hfound x hx).1))
    · obtain ⟨log, pos, M, hok, htail, hM⟩ := hready
      exact ⟨log, pos, M, hok, htail, fun key v hv => ⟨(hM key v hv).1, Or.inl (hM key v hv).2⟩⟩
    · cases found with
      | none => exact Or.inr ⟨rfl, t', value', hrun⟩
      | some x =>
        obtain ⟨-, hkey, hbytes⟩ := hfound x rfl
        exact Or.inl ⟨writeValue_inj_iff.mpr hbytes, fun _ => hkey⟩
  | false =>
    obtain ⟨t', hrun, hready⟩ := (h.set hbound (r := p.request hash)
      (by decide : 13 ≤ MAX_KEY_LENGTH) (fun k hk => memcpy_of_lt p.value setValue hk)
      true).resolve_left (by simp)
    refine ⟨{ s.toggle mode lcoreId with table := t' },
      writeValue p.pkt (memcpy p.value setValue VALUE_SIZE), ?_, ?_,
      Or.inl ⟨writeValue_set p.pkt p.value, fun hno => absurd hno (by simp)⟩⟩
    · rw [if_neg (by simp), hrun, Option.bind_eq_bind, Option.bind_some]
      exact if_pos (Or.inr rfl)
    · obtain ⟨log, pos, M, hok, htail, hM⟩ := hready
      refine ⟨log, pos, M, hok, htail, fun key v hv => ⟨(hM key v hv).1, ?_⟩⟩
      exact (hM key v hv).2.imp_right (fun hkey => ⟨rfl, hkey⟩)

/-! ## All packets -/

theorem toggle_doGet (mode : QflowMode) (lcoreId : UInt32) (s : MicaState) (t : Table) :
    ({ s.toggle mode lcoreId with table := t } : MicaState).doGet mode lcoreId =
      !s.doGet mode lcoreId := by
  unfold MicaState.doGet MicaState.toggle
  split <;> simp

/-- The next packet is the other way. -/
theorem packet_toggles {s s' : MicaState} {p : Packet} {reply : Bytes}
    (h : micaPacket hash mode lcoreId s p = some (s', reply)) :
    s'.doGet mode lcoreId = !s.doGet mode lcoreId := by
  unfold micaPacket at h
  dsimp only at h
  split at h
  · obtain ⟨x, -, h⟩ := Option.bind_eq_some_iff.mp h
    split at h
    · cases h
      exact toggle_doGet mode lcoreId s _
    · cases h
  · obtain ⟨x, -, h⟩ := Option.bind_eq_some_iff.mp h
    split at h
    · cases h
      exact toggle_doGet mode lcoreId s _
    · cases h

/-- The packets that are SETs, if the first one is a GET or not. -/
def setPackets : Bool → List Packet → List Packet
  | _, [] => []
  | true, _ :: rest => setPackets false rest
  | false, p :: rest => p :: setPackets true rest

/-- The keys that have a value after some packets. -/
def KeysAfter (hash : List UInt8 → UInt64) (K : Key → Prop) (doGet : Bool) (ps : List Packet) :
    Key → Prop := fun key => K key ∨ ∃ q ∈ setPackets doGet ps, key = (q.request hash).toKey

/-- **Packets one after the other.** -/
theorem packets_spec (hash : List UInt8 → UInt64) (mode : QflowMode) (lcoreId : UInt32)
    (ps : List Packet) : ∀ (s : MicaState) (steps : ℕ) (K : Key → Prop),
    Ready s.table steps K → (steps + ps.length) * MAX_ITEM ≤ 2 ^ 63 →
    ∃ s' replies, micaPackets hash mode lcoreId s ps = some (s', replies) ∧
      Ready s'.table (steps + ps.length) (KeysAfter hash K (s.doGet mode lcoreId) ps) ∧
      Answers hash mode lcoreId s ps replies := by
  induction ps with
  | nil =>
    intro s steps K h _
    refine ⟨s, [], rfl, ?_, trivial⟩
    obtain ⟨log, pos, M, hok, htail, hM⟩ := h
    exact ⟨log, pos, M, hok, htail, fun key v hv => ⟨(hM key v hv).1, Or.inl (hM key v hv).2⟩⟩
  | cons p ps ih =>
    intro s steps K h hbound
    rw [List.length_cons, show steps + (ps.length + 1) = steps + 1 + ps.length by omega] at *
    obtain ⟨s1, reply, hrun, hready, hreply⟩ := packet_spec hash mode
      lcoreId h (le_trans (Nat.mul_le_mul_right _ (by omega)) hbound) p
    obtain ⟨s2, replies, hruns, hready2, hanswers⟩ := ih s1 (steps + 1) _ hready hbound
    refine ⟨s2, reply :: replies, ?_, ?_, ?_⟩
    · simp [micaPackets, hrun, hruns]
    · obtain ⟨log, pos, M, hok, htail, hM⟩ := hready2
      refine ⟨log, pos, M, hok, htail, fun key v hv => ⟨(hM key v hv).1, ?_⟩⟩
      rcases (hM key v hv).2 with (hold | ⟨hset, rfl⟩) | ⟨q, hq, rfl⟩
      · exact Or.inl hold
      · exact Or.inr ⟨p, by rw [hset]; exact List.mem_cons_self, rfl⟩
      · refine Or.inr ⟨q, ?_, rfl⟩
        rw [packet_toggles hrun] at hq
        cases hget : s.doGet mode lcoreId with
        | true => simpa [setPackets, hget] using hq
        | false =>
          rw [hget] at hq
          exact List.mem_cons_of_mem _ hq
    · exact ⟨hreply.imp_left And.left, s1, hrun, hanswers⟩

theorem keyBytes_length (pkt : Bytes) : (keyBytes pkt).length = 13 := by
  simp [keyBytes, FiveTuple.bytes, bytesLE]

/-- Two packets have the same key just in case the 13 bytes of their flows are the same, and the 3
    bytes behind them. -/
theorem request_key_iff (p q : Packet) :
    (q.request hash).toKey = (p.request hash).toKey ↔
      keyBytes q.pkt = keyBytes p.pkt ∧ ∀ k < 3, q.behind k = p.behind k := by
  have hround : roundup8 13 = 16 := by decide
  constructor
  · intro h
    have hbytes := congrArg Key.bytes h
    simp only [Mehcached.Request.toKey, Packet.request, hround, readBytes_eq_iff,
      Nat.zero_add] at hbytes
    refine ⟨List.ext_getElem (by rw [keyBytes_length, keyBytes_length]) (fun k hk hk' => ?_),
      fun k hk => ?_⟩
    · rw [keyBytes_length] at hk
      have hbyte := hbytes k (by omega)
      rw [if_pos hk, if_pos hk, List.getD_eq_getElem _ _ (by rwa [keyBytes_length]),
        List.getD_eq_getElem _ _ (by rwa [keyBytes_length])] at hbyte
      exact hbyte
    · have hbyte := hbytes (13 + k) (by omega)
      rw [if_neg (by omega), if_neg (by omega), Nat.add_sub_cancel_left] at hbyte
      exact hbyte
  · rintro ⟨hkey, hbehind⟩
    simp only [Mehcached.Request.toKey, Packet.request, hround, hkey, Key.mk.injEq,
      readBytes_eq_iff, Nat.zero_add, true_and]
    intro k hk
    split
    · rfl
    · exact hbehind _ (by omega)

/-- A GET that has found a value of the length of the buffer. -/
theorem micaPacket_hit {s : MicaState} {p : Packet} {t' : Table} {expireTime : ℕ} {value : Bytes}
    (hget : s.doGet mode lcoreId = true)
    (hrun : mehcachedGet s.table (p.request hash) p.value VALUE_SIZE false =
      some (t', some (VALUE_SIZE, expireTime), value)) :
    micaPacket hash mode lcoreId s p =
      some ({ s.toggle mode lcoreId with table := t' }, writeValue p.pkt value) := by
  unfold micaPacket
  dsimp only
  rw [hget, toggle_table, hrun]
  exact if_pos (Or.inr (by simp))

/-- **A SET and the GET that follows it**, of the same flow and with the same 3 bytes behind it. -/
theorem Ready.set_thenGet (mode : QflowMode) (lcoreId : UInt32) {s : MicaState}
    (h : Ready s.table steps K)
    (hbound : (steps + 2) * MAX_ITEM ≤ 2 ^ 63) (hturn : s.doGet mode lcoreId = false) {p q : Packet}
    (hkey : keyBytes q.pkt = keyBytes p.pkt) (hbehind : ∀ k < 3, q.behind k = p.behind k) :
    ∃ s' t', micaPackets hash mode lcoreId s [p, q] =
        some (s', [writeValue p.pkt setValue, writeValue q.pkt setValue]) ∧
      micaPackets hash mode lcoreId s [p] =
        some ({ s.toggle mode lcoreId with table := t' }, [writeValue p.pkt setValue]) ∧
      ∃ t'' expireTime value, mehcachedGet t' (q.request hash) q.value VALUE_SIZE false =
        some (t'', some (VALUE_SIZE, expireTime), value) := by
  rw [Nat.add_mul] at hbound
  obtain ⟨log, pos, M, hok, htail, -⟩ := h
  have hsame : (q.request hash).toKey = (p.request hash).toKey :=
    (request_key_iff p q).mpr ⟨hkey, hbehind⟩
  obtain ⟨t1, t2, value, hset, hget, hbytes⟩ := (hok.get_after_set (by omega) hsame
    (request_keyLength hash p) (memcpy p.value setValue VALUE_SIZE) VALUE_SIZE (by decide)
    (fun l hl => roundup8_valueSize.trans (Option.some.inj hl)) 0 true q.value VALUE_SIZE
    (by decide) false (Or.inr (Or.inr ⟨_, rfl⟩))).resolve_left (by simp)
  rw [Nat.min_self] at hget hbytes
  rw [roundup8_valueSize, readBytes_eq_iff] at hbytes
  have hvalue : writeValue q.pkt value = writeValue q.pkt setValue := by
    refine writeValue_inj_iff.mpr (fun k hk => ?_)
    have hbyte := hbytes k hk
    rw [Nat.zero_add] at hbyte
    exact hbyte.trans (memcpy_of_lt p.value setValue hk)
  have hnext := toggle_doGet mode lcoreId s t1
  rw [hturn, Bool.not_false] at hnext
  have hfirst := micaPacket_stored hturn hset
  have hsecond := micaPacket_hit hnext hget
  rw [hvalue] at hsecond
  refine ⟨{ ({ s.toggle mode lcoreId with table := t1 } : MicaState).toggle mode lcoreId with
    table := t2 }, t1, ?_, ?_, t2, _, value, hget⟩
  · simp only [micaPackets, hfirst, hsecond, Option.bind_eq_bind, Option.bind_some]
  · simp only [micaPackets, hfirst, Option.bind_eq_bind, Option.bind_some]

end Packets

/-! ## From the start -/

section Start

variable {hash : List UInt8 → UInt64} {mode : QflowMode} {lcoreId : UInt32}

/-- The table before the first packet, if the assertion of the loop has not failed. -/
theorem preload_spec (keys : List ℕ) : ∀ (t t' : Table) (steps : ℕ),
    Ready t steps (fun key => key.length = 8) → (steps + keys.length) * MAX_ITEM ≤ 2 ^ 63 →
    preload hash t keys = some t' →
    Ready t' (steps + keys.length) (fun key => key.length = 8) := by
  induction keys with
  | nil =>
    intro t t' steps h _ hrun
    cases hrun
    exact h
  | cons i keys ih =>
    intro t t' steps h hbound hrun
    rw [List.length_cons, show steps + (keys.length + 1) = steps + 1 + keys.length by omega] at *
    obtain ⟨x, hset, hrest⟩ := Option.bind_eq_some_iff.mp hrun
    rcases h.set (le_trans (Nat.mul_le_mul_right _ (by omega)) hbound) (r := defaultKey hash i)
      (by decide : 8 ≤ MAX_KEY_LENGTH) (fun _ _ => rfl) false with ⟨-, hno⟩ | ⟨t1, hyes, hready⟩
    · cases hset.symm.trans hno
      cases hrest
    · cases hset.symm.trans hyes
      refine ih t1 t' (steps + 1) ?_ hbound hrest
      obtain ⟨log, pos, M, hok, htail, hM⟩ := hready
      refine ⟨log, pos, M, hok, htail, fun key v hv => ⟨(hM key v hv).1, ?_⟩⟩
      rcases (hM key v hv).2 with hold | rfl
      · exact hold
      · rfl

/-- What `main` has made ready. -/
theorem main_ready {data : Bytes} {mthThreshold : ℕ} {keys : List ℕ} {t t' : Table}
    (hinit : micaTable data mthThreshold = some t) (hload : preload hash t keys = some t')
    (hbound : keys.length * MAX_ITEM ≤ 2 ^ 63) :
    Ready t' keys.length (fun key => key.length = 8) := by
  obtain ⟨hok, hzero⟩ := tableInit_spec (by decide) (by decide) (by decide) hinit (some VALUE_SIZE)
  have h := preload_spec keys t t' 0
    ⟨_, _, _, hok, by omega, fun key v hv => absurd hv (by simp)⟩ (by rwa [Nat.zero_add]) hload
  rwa [Nat.zero_add] at h

/-- **Every reply has the value**, unless it answers a GET that found nothing; no assertion fails. -/
theorem packets_answered {data : Bytes} {mthThreshold : ℕ} {keys : List ℕ} {t : Table}
    {s : MicaState} (hinit : micaTable data mthThreshold = some t)
    (hload : preload hash t keys = some s.table) (ps : List Packet)
    (hbound : (keys.length + ps.length) * MAX_ITEM ≤ 2 ^ 63) :
    ∃ s' replies, micaPackets hash mode lcoreId s ps = some (s', replies) ∧
      Answers hash mode lcoreId s ps replies := by
  have hready := main_ready hinit hload (by rw [Nat.add_mul] at hbound; omega)
  obtain ⟨s', replies, hrun, -, hanswers⟩ := packets_spec hash mode lcoreId ps s _ _ hready hbound
  exact ⟨s', replies, hrun, hanswers⟩

/-- A packet, and one of the same flow with another buffer. -/
def samplePacket : Packet := ⟨fun _ => 0, fun _ => 2, fun _ => 3⟩

def sampleNext : Packet := ⟨fun _ => 0, fun _ => 5, fun k => if k < 3 then 3 else 4⟩

theorem sample_same : keyBytes sampleNext.pkt = keyBytes samplePacket.pkt ∧
    ∀ k < 3, sampleNext.behind k = samplePacket.behind k :=
  ⟨rfl, fun _ hk => if_pos hk⟩

/-- The table of `main`, with a key in it. -/
theorem sample_preload : ∃ t t', micaTable (fun _ => 0) 0 = some t ∧
    preload (fun _ => 1) t [7] = some t' := by
  obtain ⟨t, ht⟩ := sample_micaTable
  have hload : ((micaTable (fun _ => 0) 0).bind (preload (fun _ => 1) · [7])).isSome = true := by
    decide +kernel
  rw [ht] at hload
  obtain ⟨t', ht'⟩ := Option.isSome_iff_exists.mp hload
  exact ⟨t, t', ht, ht'⟩

theorem packets_answered_sample : ∃ t s',
    micaPackets (fun _ => 1) .single 0 ⟨false, fun _ => false, t⟩ [samplePacket, sampleNext] =
      some (s', [writeValue samplePacket.pkt setValue, writeValue sampleNext.pkt setValue]) ∧
    Answers (fun _ => 1) .single 0 ⟨false, fun _ => false, t⟩ [samplePacket, sampleNext]
      [writeValue samplePacket.pkt setValue, writeValue sampleNext.pkt setValue] := by
  obtain ⟨t0, t, hinit, hload⟩ := sample_preload
  have hload' : preload (fun _ => 1) t0 [7] = some (⟨false, fun _ => false, t⟩ : MicaState).table :=
    hload
  obtain ⟨s1, -, hhit, -⟩ := (main_ready hinit hload' (by decide)).set_thenGet .single 0 (by decide)
    rfl sample_same.1 sample_same.2
  obtain ⟨s', replies, hrun, hanswers⟩ :
      ∃ s' replies, micaPackets (fun _ => 1) .single 0 ⟨false, fun _ => false, t⟩
          [samplePacket, sampleNext] = some (s', replies) ∧
        Answers (fun _ => 1) .single 0 ⟨false, fun _ => false, t⟩ [samplePacket, sampleNext]
          replies :=
    packets_answered hinit hload' [samplePacket, sampleNext] (by decide)
  cases hrun.symm.trans hhit
  exact ⟨t, _, hrun, hanswers⟩

/-- **What is found was set before**, with the same flow and the same 3 bytes behind it. -/
theorem hit_has_set {data : Bytes} {mthThreshold : ℕ} {keys : List ℕ} {t : Table}
    {s s' : MicaState} {ps : List Packet} {replies : List Bytes}
    (hinit : micaTable data mthThreshold = some t) (hload : preload hash t keys = some s.table)
    (hbound : (keys.length + ps.length + 1) * MAX_ITEM ≤ 2 ^ 63)
    (hrun : micaPackets hash mode lcoreId s ps = some (s', replies)) {p : Packet} {t' : Table}
    {found : ℕ × ℕ} {value : Bytes}
    (hget : mehcachedGet s'.table (p.request hash) p.value VALUE_SIZE false =
      some (t', some found, value)) :
    ∃ q ∈ setPackets (s.doGet mode lcoreId) ps, keyBytes q.pkt = keyBytes p.pkt ∧
      ∀ k < 3, q.behind k = p.behind k := by
  rw [Nat.add_mul, Nat.add_mul] at hbound
  have hready := main_ready hinit hload (by omega)
  obtain ⟨s1, replies1, hrun1, hready1, -⟩ :=
    packets_spec hash mode lcoreId ps s _ _ hready
      (by rw [Nat.add_mul]; omega)
  cases hrun.symm.trans hrun1
  obtain ⟨t1, found1, value1, hget1, -, hfound⟩ := hready1.get (r := p.request hash)
    (by rw [Nat.add_mul, Nat.add_mul]; omega) (by decide : 13 ≤ MAX_KEY_LENGTH) p.value
  cases hget.symm.trans hget1
  rcases (hfound found rfl).2.1 with height | ⟨q, hq, hkey⟩
  · exact absurd height (by decide : 13 ≠ 8)
  · exact ⟨q, hq, (request_key_iff p q).mp hkey.symm⟩

theorem hit_has_set_sample : ∃ q ∈ setPackets false [samplePacket],
    keyBytes q.pkt = keyBytes sampleNext.pkt ∧ ∀ k < 3, q.behind k = sampleNext.behind k := by
  obtain ⟨t0, t, hinit, hload⟩ := sample_preload
  have hload' : preload (fun _ => 1) t0 [7] = some (⟨false, fun _ => false, t⟩ : MicaState).table :=
    hload
  obtain ⟨-, t1, -, hset, t2, expireTime, value, hget⟩ :=
    (main_ready hinit hload' (by decide)).set_thenGet .single 0 (by decide) rfl sample_same.1
      sample_same.2
  exact hit_has_set hinit hload' (by decide) hset hget

/-- **A GET right after the SET of the same flow** is answered, if the same 3 bytes are behind it. -/
theorem set_then_get {data : Bytes} {mthThreshold : ℕ} {keys : List ℕ} {t : Table}
    {s s' : MicaState} {ps : List Packet} {replies : List Bytes}
    (hinit : micaTable data mthThreshold = some t) (hload : preload hash t keys = some s.table)
    (hbound : (keys.length + ps.length + 2) * MAX_ITEM ≤ 2 ^ 63)
    (hrun : micaPackets hash mode lcoreId s ps = some (s', replies))
    (hturn : s'.doGet mode lcoreId = false) {p q : Packet}
    (hkey : keyBytes q.pkt = keyBytes p.pkt) (hbehind : ∀ k < 3, q.behind k = p.behind k) :
    ∃ s2, micaPackets hash mode lcoreId s' [p, q] =
      some (s2, [writeValue p.pkt setValue, writeValue q.pkt setValue]) := by
  rw [Nat.add_mul, Nat.add_mul] at hbound
  have hready := main_ready hinit hload (by omega)
  obtain ⟨s1, replies1, hrun1, hready1, -⟩ :=
    packets_spec hash mode lcoreId ps s _ _ hready
      (by rw [Nat.add_mul]; omega)
  cases hrun.symm.trans hrun1
  obtain ⟨s2, -, hboth, -⟩ := hready1.set_thenGet mode lcoreId
    (by rw [Nat.add_mul, Nat.add_mul]; omega) hturn hkey hbehind
  exact ⟨s2, hboth⟩

theorem set_then_get_sample : ∃ t s2, micaPackets (fun _ => 1) .single 0 ⟨false, fun _ => false, t⟩
    [samplePacket, sampleNext] =
      some (s2, [writeValue samplePacket.pkt setValue, writeValue sampleNext.pkt setValue]) := by
  obtain ⟨t0, t, hinit, hload⟩ := sample_preload
  have hload' : preload (fun _ => 1) t0 [7] = some (⟨false, fun _ => false, t⟩ : MicaState).table :=
    hload
  have hrun : micaPackets (fun _ => 1) .single 0 ⟨false, fun _ => false, t⟩ [] =
      some (⟨false, fun _ => false, t⟩, []) := rfl
  exact ⟨t, set_then_get hinit hload' (by decide) hrun rfl sample_same.1 sample_same.2⟩

end Start

end QueueDpdk.Mica
