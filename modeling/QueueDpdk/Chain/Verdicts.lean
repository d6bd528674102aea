import QueueDpdk.Chain.Calls

/-!
# The verdicts of the access control list

`poll_loop` asks the classifier for a result for every IPv4 and IPv6 packet and never looks at the
results: it sends the burst on as it came.  `send_one_packet`, which drops denied packets, is not
called.

* `VerdictsEnforced` — what is passed to `rte_eth_tx_burst` has a verdict to forward it.
* `ChainMove.forwarding` — the step lemma: a burst all of whose packets may be forwarded keeps that.
* `verdicts_enforced_iff` — the verdicts are enforced if and only if they forbid nothing: every
  packet of every burst has a verdict, and that is to forward it.
-/

set_option autoImplicit false

namespace QueueDpdk.Chain

open Lib PollLoop NatFlow

/-- The verdicts `send_one_packet` enforces, for a trace and the results given in it. -/
structure VerdictsEnforced (tr : List MbufEvent) (verdicts : List (Nat × UInt32)) : Prop where
  denied : ∀ m res, (m, res) ∈ verdicts → forwards res = false → .offered m ∉ tr
  approved : ∀ m, .offered m ∈ tr → ∃ res, (m, res) ∈ verdicts ∧ forwards res = true

/-- The classifier lets packet `m` of the burst pass. -/
def Passes (c : ChainCfg) (s : ChainState) (q : Int) (x : ChainInput) (m : Nat) : Prop :=
  ∃ kind, aclKind (s.receive x m) = some kind ∧
    forwards (c.classify kind (deref (s.process c q x).1.heap (headerPtr kind m))) = true

/-- All packets received in a step may be forwarded. -/
def AllForward (c : ChainCfg) (s : ChainState) (x : ChainInput) : Prop :=
  ∀ q, s.polls c x = some q → ¬s.stops c q x → ∀ m ∈ s.pktsBurst x, Passes c s q x m

section Steps

variable {c : ChainCfg} {s s' : ChainState} {x : ChainInput} {e : ChainEvent} {q : Int} {m : Nat}

/-- In a burst that may be forwarded, every result is a verdict to forward. -/
theorem ChainMove.verdict_forwards (h : ChainMove c s x s' e) (hall : AllForward c s x)
    {res : UInt32} (hres : (m, res) ∈ e.verdicts) : forwards res = true := by
  obtain ⟨q, hp, hstop, hres⟩ := h.of_verdict hres
  obtain ⟨hm, kind, hkind, rfl⟩ := mem_verdicts.mp hres
  obtain ⟨kind', hkind', hforward⟩ := hall q hp hstop m hm
  rw [hkind] at hkind'
  cases hkind'
  exact hforward

/-- A packet that passes has a verdict to forward it. -/
theorem Passes.verdict (h : Passes c s q x m) (hm : m ∈ s.pktsBurst x) :
    ∃ res, (m, res) ∈ s.verdicts c q x ∧ forwards res = true := by
  obtain ⟨kind, hkind, hforward⟩ := h
  exact ⟨_, mem_verdicts.mpr ⟨hm, kind, hkind, rfl⟩, hforward⟩

/-- A packet with a verdict to forward it passes. -/
theorem passes_of_verdict {res : UInt32} (hres : (m, res) ∈ s.verdicts c q x)
    (hforward : forwards res = true) : Passes c s q x m := by
  obtain ⟨-, kind, hkind, rfl⟩ := mem_verdicts.mp hres
  exact ⟨kind, hkind, hforward⟩

end Steps

/-! ## Runs -/

/-- **The verdict invariant**: what was offered or waits has a verdict to forward it, and there are
    no others. -/
structure Forwarding (tr : List MbufEvent) (verdicts : List (Nat × UInt32)) (txBatch : List Nat) :
    Prop where
  approved : ∀ m, .offered m ∈ tr ∨ m ∈ txBatch → ∃ res, (m, res) ∈ verdicts ∧ forwards res = true
  allowed : ∀ m res, (m, res) ∈ verdicts → forwards res = true

theorem Forwarding.enforced {tr : List MbufEvent} {verdicts : List (Nat × UInt32)}
    {txBatch : List Nat} (h : Forwarding tr verdicts txBatch) : VerdictsEnforced tr verdicts := by
  refine ⟨?_, fun m hm => h.approved m (Or.inl hm)⟩
  intro m res hres hno
  rw [h.allowed m res hres] at hno
  cases hno

theorem ChainMove.forwarding {c : ChainCfg} {s s' : ChainState} {x : ChainInput} {e : ChainEvent}
    (h : ChainMove c s x s' e) (hall : AllForward c s x) {tr : List MbufEvent}
    {verdicts : List (Nat × UInt32)} (hf : Forwarding tr verdicts s.txBatch) :
    Forwarding (tr ++ e.mbufs) (verdicts ++ e.verdicts) s'.txBatch := by
  constructor
  · intro m hm
    have hold : .offered m ∈ tr ∨ m ∈ s.txBatch →
        ∃ res, (m, res) ∈ verdicts ++ e.verdicts ∧ forwards res = true := by
      intro hm
      obtain ⟨res, hres, hforward⟩ := hf.approved m hm
      exact ⟨res, List.mem_append_left _ hres, hforward⟩
    rw [List.mem_append, or_assoc] at hm
    rcases hm with hm | hm
    · exact hold (Or.inl hm)
    · rcases h.offered hm with hm | ⟨q, hp, hstop, hm⟩
      · exact hold (Or.inr hm)
      · obtain ⟨-, -, -, hv⟩ := h.of_polls hp hstop hm
        obtain ⟨res, hres, hforward⟩ := (hall q hp hstop m hm).verdict hm
        rw [hv]
        exact ⟨res, List.mem_append_right _ hres, hforward⟩
  · intro m res hres
    rcases List.mem_append.mp hres with hres | hres
    · exact hf.allowed m res hres
    · exact h.verdict_forwards hall hres

section Runs

variable (c : ChainCfg) (heap : Heap) (shards : Nat → FlowManager) (inputs : List ChainInput)

theorem forwarding_run (hall : (chainLoop c).Along (AllForward c) (.init c heap shards) inputs) :
    Forwarding (mbufTrace c (.init c heap shards) inputs)
      (verdictTrace c (.init c heap shards) inputs)
      ((chainLoop c).final (.init c heap shards) inputs).txBatch := by
  induction inputs using List.reverseRecOn with
  | nil => exact ⟨by simp [mbufTrace, Machine.events, ChainState.init], by
      simp [verdictTrace, Machine.events]⟩
  | append_singleton inputs x ih =>
    rw [Machine.along_snoc] at hall
    rw [mbufTrace_snoc, verdictTrace_snoc, chain_final_snoc]
    exact (chainStep_cases c _ x).forwarding hall.2 (ih hall.1)

/-- **Verdicts are enforced only where there is nothing to enforce.**  In every mode and for every
    classifier, they are on a run if all packets of every burst sent on may be forwarded; and if they
    are on a run that ends with a sweep, all of them may. -/
theorem verdicts_enforced_iff :
    ((chainLoop c).Along (AllForward c) (.init c heap shards) inputs →
      VerdictsEnforced (mbufTrace c (.init c heap shards) inputs)
        (verdictTrace c (.init c heap shards) inputs)) ∧
    (Complete c (.init c heap shards) inputs →
      VerdictsEnforced (mbufTrace c (.init c heap shards) inputs)
        (verdictTrace c (.init c heap shards) inputs) →
      (chainLoop c).Along (AllForward c) (.init c heap shards) inputs) := by
  constructor
  · intro hall
    exact (forwarding_run c heap shards inputs hall).enforced
  · intro hend h ys x zs hsplit q hp hstop m hm
    have hoffered : .offered m ∈ mbufTrace c (.init c heap shards) inputs := by
      have := burst_covered (s := .init c heap shards) (fun _ => rfl) inputs ys x zs hsplit q hp
        hstop m hm
      rw [complete_batch rfl hend] at this
      exact this.resolve_right (by simp)
    obtain ⟨res, hres, hforward⟩ := h.approved m hoffered
    obtain ⟨-, hnext, -, hv⟩ := (chainStep_cases c _ x).of_polls hp hstop hm
    rw [hsplit] at hres
    have hown := verdict_of_burst hm hnext hres
    rw [hv] at hown
    exact passes_of_verdict hown hforward

end Runs

/-- A packet that the list forwards. -/
theorem verdicts_enforced_forward :
    VerdictsEnforced
      (mbufTrace (.oneQueue .shared (fun _ _ => 1)) (.oneQueue .shared (fun _ _ => 1))
        (onePacket ipv4Packet 1))
      (verdictTrace (.oneQueue .shared (fun _ _ => 1)) (.oneQueue .shared (fun _ _ => 1))
        (onePacket ipv4Packet 1)) := by
  refine (verdicts_enforced_iff (.oneQueue .shared (fun _ _ => 1)) _ _ (onePacket ipv4Packet 1)).1
    ((chainLoop _).along_of_forall (fun x hx s q _ _ m hm => ?_) _)
  obtain ⟨p, hp, hrec⟩ := receive_burst hm
  have hpkt : p.mbuf = ipv4Packet := by
    simp only [onePacket, List.mem_cons, List.not_mem_nil, or_false] at hx
    rcases hx with rfl | rfl
    · rw [List.mem_singleton.mp hp]
    · cases hp
  refine ⟨.ipv4, ?_, show forwards 1 = true by decide⟩
  rw [hrec, hpkt]
  decide +kernel

/-- A packet that the list denies is sent. -/
theorem denied_sent :
    let c := ChainCfg.oneQueue .single (fun _ _ => ACL_DENY_SIGNATURE)
    let s := ChainState.oneQueue .single (fun _ _ => ACL_DENY_SIGNATURE)
    ¬VerdictsEnforced (mbufTrace c s (onePacket ipv4Packet 1))
      (verdictTrace c s (onePacket ipv4Packet 1)) := by
  intro c s h
  have hverdict : (0, ACL_DENY_SIGNATURE) ∈ verdictTrace c s (onePacket ipv4Packet 1) := by
    decide +kernel
  have hoffered : .offered 0 ∈ mbufTrace c s (onePacket ipv4Packet 1) := by decide +kernel
  exact h.denied 0 ACL_DENY_SIGNATURE hverdict (by decide) hoffered

end QueueDpdk.Chain
