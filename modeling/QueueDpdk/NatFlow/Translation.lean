import QueueDpdk.NatFlow.Process

/-!
# What a packet is translated to (`nf-chain/src/nat_main.c`)

* `translation` — what `nf_process` is about to write, looked up in the tables as the call finds
  them.
* `nfProcessWith_payload` — this is what it writes.
-/

set_option autoImplicit false

namespace QueueDpdk.NatFlow

open LibVig Lib

/-- A new destination, a new source, or neither. -/
inductive Translation where
  | keep
  | dst (internalFlow : FlowId)
  | src (externalPort : UInt16)
deriving DecidableEq, Repr

def Translation.apply (config : NfConfig) (payload : Bytes) : Translation → Bytes
  | .keep => payload
  | .dst internalFlow => rewriteDst payload internalFlow
  | .src externalPort => rewriteSrc config payload externalPort

/-- An incoming packet gets the flow of its destination port; an outgoing one the port of its flow,
    or else that of the index the chain has next, or else what the local happens to hold. -/
def translation (between : FlowManager → FlowManager) (config : NfConfig) (dropWhenFull : Bool)
    (manager : FlowManager) (call : NfCall) : Translation :=
  if call.device = config.wanDevice then
    let index := externalIndex manager call.portDst
    if dchainIsIndexAllocated manager.state.heap index then .dst (manager.state.fv index) else .keep
  else
    match mapGet manager.state.fv keyEquals keyHash manager.state.fm call.flowId with
    | some index => .src (portOf manager index)
    | none =>
      match dchainAllocateNewIndex (between manager).state.heap call.now with
      | some (_, index) => .src (portOf (between manager) index)
      | none => if dropWhenFull then .keep else .src call.staleExternalPort

theorem nfProcessWith_payload (between : FlowManager → FlowManager) (config : NfConfig)
    (dropWhenFull : Bool) (manager : FlowManager) (call : NfCall) :
    (nfProcessWith between config dropWhenFull manager call).2.1 =
      (translation between config dropWhenFull manager call).apply config call.payload := by
  unfold nfProcessWith translation
  by_cases hwan : call.device = config.wanDevice
  · rw [if_pos hwan, if_pos hwan, getExternal_index]
    dsimp only
    cases dchainIsIndexAllocated manager.state.heap (externalIndex manager call.portDst) with
    | true => rfl
    | false => rfl
  · rw [if_neg hwan, if_neg hwan]
    unfold flowManagerGetInternal flowManagerAllocateFlow
    cases mapGet manager.state.fv keyEquals keyHash manager.state.fm call.flowId with
    | some index => rfl
    | none =>
      dsimp only
      cases dchainAllocateNewIndex (between manager).state.heap call.now with
      | some new => rfl
      | none => cases dropWhenFull <;> rfl

/-- The bytes of a packet count only as far as they are arguments. -/
theorem translation_congr (between : FlowManager → FlowManager) (config : NfConfig)
    (dropWhenFull : Bool) (manager : FlowManager) (call : NfCall) (payload : Bytes) :
    translation between config dropWhenFull manager { call with payload := payload } =
      translation between config dropWhenFull manager call := rfl

end QueueDpdk.NatFlow
