import Katana.Messaging.Service
import Katana.Primitives.Transaction

/-! Messages from Starknet to the appchain: the messaging contract
(contracts/messaging/cairo/src/appchain_messaging.cairo) and the L1 handler transactions that
are built from its events (messaging/src/starknet.rs). Selectors and the Poseidon hash are
functions of libraries. -/
namespace Katana.Messaging
open Primitives

structure Storage where
  snToAppcNonce : Felt
  snToAppcMessages : Felt → Felt

structure Event where
  keys : List Felt
  data : List Felt
  deriving DecidableEq, Repr

structure Sent where
  messageHash : Felt
  nonce : Felt
  event : Event
  storage : Storage

section Hashes
variable (selector : String → Felt) (poseidonHash : List Felt → Felt)

def hashData (fromAddress toAddress nonce selector : Felt) (payload : List Felt) : List Felt :=
  [fromAddress,toAddress,nonce,selector,Fin.ofNat feltPrime payload.length]++payload

def computeHashSnToAppc (fromAddress toAddress selector : Felt) (payload : List Felt)
    (nonce : Felt) : Felt :=
  poseidonHash (hashData fromAddress toAddress nonce selector payload)

/-- The first key of an event is the selector of its name. -/
def sendMessageToAppchain (caller toAddress entryPoint : Felt) (payload : List Felt)
    (s : Storage) : Sent :=
  let nonce := s.snToAppcNonce+1
  let msgHash := computeHashSnToAppc poseidonHash caller toAddress entryPoint payload nonce
  { messageHash := msgHash
    nonce := nonce
    event :=
      { keys := [selector "MessageSentToAppchain",msgHash,caller,toAddress]
        data := [entryPoint,nonce,Fin.ofNat feltPrime payload.length]++payload }
    storage :=
      { snToAppcNonce := nonce
        snToAppcMessages := fun h => if h=msgHash then nonce else s.snToAppcMessages h } }

def messageSentEventKey : Felt := selector "MessageSent"

def computeStarknetToAppchainMessageHash (fromAddress toAddress nonce entryPointSelector : Felt)
    (payload : List Felt) : Felt :=
  poseidonHash (hashData fromAddress toAddress nonce entryPointSelector payload)

/-- An event with another first key is an error, one with too few keys or data is a panic. The
hash is computed from the calldata, which starts with the sender. -/
def l1HandlerTxFromEvent (normalizeAddress : Felt → Felt) (chainId : ChainId) (event : Event) :
    Converted L1HandlerTx :=
  match event.keys[0]? with
  | none => .panic
  | some key =>
    if key≠messageSentEventKey selector then .err
    else
      match event.keys[2]?,event.keys[3]?,event.data[0]?,event.data[1]? with
      | some fromAddress,some toAddress,some entryPointSelector,some nonce =>
        if event.data.length<3 then .panic
        else
          let calldata := fromAddress::event.data.drop 3
          let messageHash := computeStarknetToAppchainMessageHash poseidonHash fromAddress
            toAddress nonce entryPointSelector calldata
          .ok
            { nonce := nonce
              calldata := calldata
              chainId := chainId
              messageHash := messageHash.toBytesBe
              paidFeeOnL1 := 30000
              entryPointSelector := entryPointSelector
              version := 0
              contractAddress := normalizeAddress toAddress }
      | _,_,_,_ => .panic

/-- A transaction is built from the event and carries the hash. -/
def HashAgrees (normalizeAddress : Felt → Felt) (chainId : ChainId) (event : Event)
    (hash : Felt) : Prop :=
  ∃ tx, l1HandlerTxFromEvent selector poseidonHash normalizeAddress chainId event=.ok tx ∧
    tx.messageHash=hash.toBytesBe

def Event.withKey (key : Felt) (event : Event) : Event := { event with keys := key::event.keys.tail }

variable {selector poseidonHash} {normalizeAddress : Felt → Felt} {chainId : ChainId}
  {s : Storage} {caller toAddress entryPoint : Felt} {payload : List Felt}

theorem not_hashAgrees_of_key {event : Event} {key hash : Felt} {keys : List Felt}
    (hk : event.keys=key::keys) (hne : key≠messageSentEventKey selector) :
    ¬HashAgrees selector poseidonHash normalizeAddress chainId event hash := by
  intro h
  obtain ⟨tx,htx,-⟩ := h
  rw [l1HandlerTxFromEvent,hk] at htx
  simp [hne] at htx

/-- What is built when the event comes under the expected name: the hash is of the payload with
the sender before it. -/
theorem l1HandlerTxFromEvent_withKey (sent : Sent)
    (h : sent=sendMessageToAppchain selector poseidonHash caller toAddress entryPoint payload s) :
    l1HandlerTxFromEvent selector poseidonHash normalizeAddress chainId
      (sent.event.withKey (messageSentEventKey selector))=
    .ok
      { nonce := sent.nonce
        calldata := caller::payload
        chainId := chainId
        messageHash :=
          (poseidonHash (hashData caller toAddress sent.nonce entryPoint (caller::payload))).toBytesBe
        paidFeeOnL1 := 30000
        entryPointSelector := entryPoint
        version := 0
        contractAddress := normalizeAddress toAddress } := by
  subst h
  have hlen : ¬payload.length+1+1+1<3 := by omega
  simp [l1HandlerTxFromEvent,sendMessageToAppchain,Event.withKey,hlen,
    computeStarknetToAppchainMessageHash]

/-- The contract records and emits its hash, and Katana never arrives at it: the event has not
the expected name, and under that name the hash would be of another list. -/
theorem message_hash_disagrees
    (hname : selector "MessageSentToAppchain"≠selector "MessageSent") (sent : Sent)
    (h : sent=sendMessageToAppchain selector poseidonHash caller toAddress entryPoint payload s) :
    (sent.event.keys[1]?=some sent.messageHash ∧
      sent.storage.snToAppcMessages sent.messageHash=sent.nonce) ∧
    ¬HashAgrees selector poseidonHash normalizeAddress chainId sent.event sent.messageHash ∧
    (HashAgrees selector poseidonHash normalizeAddress chainId
        (sent.event.withKey (messageSentEventKey selector)) sent.messageHash →
      poseidonHash (hashData caller toAddress sent.nonce entryPoint (caller::payload))=
        poseidonHash (hashData caller toAddress sent.nonce entryPoint payload) ∧
      hashData caller toAddress sent.nonce entryPoint (caller::payload)≠
        hashData caller toAddress sent.nonce entryPoint payload) := by
  refine ⟨?_,?_,?_⟩
  · subst h
    exact ⟨rfl,if_pos rfl⟩
  · subst h
    exact not_hashAgrees_of_key rfl hname
  · intro hagrees
    obtain ⟨tx,htx,hhash⟩ := hagrees
    rw [l1HandlerTxFromEvent_withKey sent h] at htx
    cases htx
    have heq := Felt.toBytesBe_inj hhash
    subst h
    refine ⟨heq,fun hdata => ?_⟩
    simpa [hashData] using congrArg List.length hdata

end Hashes

/-- Selectors and hashes for concrete runs: the number of characters, and of felts. -/
def lengthSelector (name : String) : Felt := Fin.ofNat feltPrime name.length

def lengthHash (xs : List Felt) : Felt := Fin.ofNat feltPrime xs.length

def sampleSent : Sent :=
  sendMessageToAppchain lengthSelector lengthHash 1 2 3 [4] ⟨0,fun _ => 0⟩

/-- The hash is recorded, the event is refused, and under the expected name another hash is built. -/
theorem sample_hash_disagrees :
    (sampleSent.event.keys[1]?=some sampleSent.messageHash ∧
      sampleSent.storage.snToAppcMessages sampleSent.messageHash=sampleSent.nonce) ∧
    ¬HashAgrees lengthSelector lengthHash id (.id 0) sampleSent.event sampleSent.messageHash ∧
    ¬HashAgrees lengthSelector lengthHash id (.id 0)
      (sampleSent.event.withKey (messageSentEventKey lengthSelector)) sampleSent.messageHash := by
  have hname : lengthSelector "MessageSentToAppchain"≠lengthSelector "MessageSent" := by
    decide +kernel
  obtain ⟨hrecorded,hrefused,hother⟩ := message_hash_disagrees hname sampleSent rfl
  exact ⟨hrecorded,hrefused,fun h => absurd (hother h).1 (by decide +kernel)⟩

/-- The event is refused; under the expected name the hash is 7 instead of 6. -/
theorem sample_hash_not_reached :
    l1HandlerTxFromEvent lengthSelector lengthHash id (.id 0) sampleSent.event=.err ∧
    sampleSent.messageHash=6 ∧
    ∃ tx, l1HandlerTxFromEvent lengthSelector lengthHash id (.id 0)
        (sampleSent.event.withKey (messageSentEventKey lengthSelector))=.ok tx ∧
      tx.messageHash=(7 : Felt).toBytesBe ∧ tx.messageHash≠sampleSent.messageHash.toBytesBe := by
  refine ⟨by decide +kernel,by decide +kernel,_,
    l1HandlerTxFromEvent_withKey sampleSent rfl,by decide +kernel,by decide +kernel⟩

end Katana.Messaging
