import Katana.Executor.Receipt
import Katana.Primitives.TransactionHash

/-! The hash of a receipt, of which the receipts commitment is built (primitives/src/receipt.rs). -/
namespace Katana.Executor
open Primitives
variable {Fee Vm : Type}

/-- Poseidon of an array and starknet_keccak of bytes. -/
structure ReceiptHashers where
  hashArray : List Felt → Felt
  starknetKeccak : ByteArray → Felt

/-- The amounts of gas are 64 bit numbers. -/
structure ReceiptWithTxHash (Fee Vm : Type) where
  txHash : Felt
  receipt : Receipt Fee Vm
  l2Gas_lt : receipt.fields.executionResources.gas.l2Gas<2^64
  l1Gas_lt : receipt.fields.executionResources.gas.l1Gas<2^64
  l1DataGas_lt : receipt.fields.executionResources.gas.l1DataGas<2^64

def MessageToL1.lengthPrefixed (msg : MessageToL1) : List Felt :=
  Fin.ofNat feltPrime msg.payload.length::msg.payload

namespace ReceiptWithTxHash
variable (H : ReceiptHashers) (overallFee : Fee → BitVec 128) (r : ReceiptWithTxHash Fee Vm)

def gasUsage : List Felt :=
  let gas := r.receipt.fields.executionResources.gas
  [Fin.ofNat feltPrime gas.l2Gas,Fin.ofNat feltPrime gas.l1Gas,
    Fin.ofNat feltPrime gas.l1DataGas]

def messageFields (msg : MessageToL1) : List Felt :=
  [msg.fromAddress,msg.toAddress,H.hashArray msg.lengthPrefixed]

def messageElements : List Felt :=
  r.receipt.fields.messagesSent.foldl (fun acc msg => acc++messageFields H msg)
    [Fin.ofNat feltPrime r.receipt.fields.messagesSent.length]

def computeMessagesToL1Hash : Felt := H.hashArray (r.messageElements H)

def revertReasonHash : Felt :=
  match r.receipt.fields.revertError with
  | some reason => H.starknetKeccak reason.toUTF8
  | none => 0

def elements : List Felt :=
  [r.txHash,ofU128 (overallFee r.receipt.fields.fee),r.computeMessagesToL1Hash H,
    r.revertReasonHash H,H.hashArray r.gasUsage]

def computeHash : Felt := H.hashArray (r.elements H overallFee)

/-- All arrays that are hashed on the way. -/
def hashedArrays : List (List Felt) :=
  r.elements H overallFee::r.gasUsage::r.messageElements H::
    r.receipt.fields.messagesSent.map MessageToL1.lengthPrefixed

/-- Nothing that is hashed for the one receipt collides with something that is hashed for the
other one, and starknet_keccak is never the zero of a receipt without a revert reason. -/
structure CollisionFree (r r' : ReceiptWithTxHash Fee Vm) : Prop where
  arrays : ∀ xs∈r.hashedArrays H overallFee, ∀ ys∈r'.hashedArrays H overallFee,
    H.hashArray xs=H.hashArray ys → xs=ys
  reasons : ∀ reason∈r.receipt.fields.revertError, ∀ reason'∈r'.receipt.fields.revertError,
    H.starknetKeccak reason.toUTF8=H.starknetKeccak reason'.toUTF8 →
      reason.toUTF8=reason'.toUTF8
  nonzero : ∀ bytes, H.starknetKeccak bytes≠0

variable {H overallFee r} {r' : ReceiptWithTxHash Fee Vm}

theorem messages_eq {msgs msgs' : List MessageToL1}
    (hc : ∀ msg∈msgs, ∀ msg'∈msgs', H.hashArray msg.lengthPrefixed=H.hashArray msg'.lengthPrefixed →
      msg.lengthPrefixed=msg'.lengthPrefixed)
    (h : (msgs.map (messageFields H)).flatten=(msgs'.map (messageFields H)).flatten) :
    msgs=msgs' := by
  induction msgs generalizing msgs' with
  | nil =>
    cases msgs' with
    | nil => rfl
    | cons msg' msgs' => cases h
  | cons msg msgs ih =>
    cases msgs' with
    | nil => cases h
    | cons msg' msgs' =>
      have hp := hc msg List.mem_cons_self msg' List.mem_cons_self
      have htail := ih (fun x hx y hy =>
        hc x (List.mem_cons_of_mem _ hx) y (List.mem_cons_of_mem _ hy))
      obtain ⟨fromAddress,toAddress,payload⟩ := msg
      obtain ⟨fromAddress',toAddress',payload'⟩ := msg'
      simp only [List.map_cons,List.flatten_cons,messageFields,List.cons_append,List.nil_append,
        List.cons.injEq] at h
      obtain ⟨rfl,rfl,hpayload,hrest⟩ := h
      obtain rfl : payload=payload' := (List.cons.inj (hp hpayload)).2
      rw [htail hrest]

theorem revertError_eq (hc : CollisionFree H overallFee r r')
    (h : r.revertReasonHash H=r'.revertReasonHash H) :
    r.receipt.fields.revertError=r'.receipt.fields.revertError := by
  rw [revertReasonHash,revertReasonHash] at h
  cases hr : r.receipt.fields.revertError with
  | none =>
    cases hr' : r'.receipt.fields.revertError with
    | none => rfl
    | some reason' =>
      simp only [hr,hr'] at h
      exact absurd h.symm (hc.nonzero _)
  | some reason =>
    cases hr' : r'.receipt.fields.revertError with
    | none =>
      simp only [hr,hr'] at h
      exact absurd h (hc.nonzero _)
    | some reason' =>
      simp only [hr,hr'] at h
      rw [String.toByteArray_inj.mp (hc.reasons reason hr reason' hr' h)]

theorem gas_eq (h : r.gasUsage=r'.gasUsage) :
    r.receipt.fields.executionResources.gas=r'.receipt.fields.executionResources.gas := by
  simp only [gasUsage,List.cons.injEq] at h
  obtain ⟨hl2,hl1,hdata,-⟩ := h
  have hlt : ∀ {n : Nat}, n<2^64 → n<feltPrime := fun hn => lt_trans hn (by decide)
  exact (GasVector.mk.injEq ..).mpr ⟨ofNat_inj (hlt r.l1Gas_lt) (hlt r'.l1Gas_lt) hl1,
    ofNat_inj (hlt r.l2Gas_lt) (hlt r'.l2Gas_lt) hl2,
    ofNat_inj (hlt r.l1DataGas_lt) (hlt r'.l1DataGas_lt) hdata⟩

/-- The events, the kind of the receipt and the resources other than the gas are not in it. -/
theorem receipt_hash_commits (H : ReceiptHashers) (overallFee : Fee → BitVec 128)
    {r r' : ReceiptWithTxHash Fee Vm} (hc : CollisionFree H overallFee r r')
    (h : r.computeHash H overallFee=r'.computeHash H overallFee) :
    r.txHash=r'.txHash ∧
    overallFee r.receipt.fields.fee=overallFee r'.receipt.fields.fee ∧
    r.receipt.fields.messagesSent=r'.receipt.fields.messagesSent ∧
    r.receipt.fields.revertError=r'.receipt.fields.revertError ∧
    r.receipt.fields.executionResources.gas=r'.receipt.fields.executionResources.gas := by
  have helements := hc.arrays _ (by simp [hashedArrays]) _ (by simp [hashedArrays]) h
  simp only [elements,List.cons.injEq] at helements
  obtain ⟨htx,hfee,hmessages,hreason,hgas,-⟩ := helements
  have hmessages := hc.arrays _ (by simp [hashedArrays]) _ (by simp [hashedArrays]) hmessages
  have hgas := hc.arrays _ (by simp [hashedArrays]) _ (by simp [hashedArrays]) hgas
  rw [messageElements,messageElements,List.foldl_append_eq_append,List.foldl_append_eq_append]
    at hmessages
  refine ⟨htx,ofU128_inj hfee,messages_eq ?_ (List.cons.inj hmessages).2,
    revertError_eq hc hreason,gas_eq hgas⟩
  intro msg hm msg' hm' hp
  exact hc.arrays _ (by simp [hashedArrays,List.mem_map_of_mem hm]) _
    (by simp [hashedArrays,List.mem_map_of_mem hm']) hp

def foldHashers : ReceiptHashers where
  hashArray xs := xs.foldl (fun acc x => 31*acc+x+1) 0
  starknetKeccak _ := 1

def sampleReceipt : TxReceipt (BitVec 128) Unit where
  fee := 5
  events := []
  messagesSent := [⟨1,2,[3,4]⟩,⟨1,2,[]⟩,⟨8,9,[6]⟩]
  revertError := some "failed"
  executionResources := ⟨⟨0,0⟩,(),⟨3,4,5⟩⟩

def sampleWithTxHash (receipt : Receipt (BitVec 128) Unit) (h : receipt.fields=sampleReceipt) :
    ReceiptWithTxHash (BitVec 128) Unit :=
  ⟨7,receipt,by rw [h]; decide,by rw [h]; decide,by rw [h]; decide⟩

theorem receipts_of_two_kinds :
    (sampleWithTxHash (.invoke sampleReceipt) rfl).receipt.fields.messagesSent=
      (sampleWithTxHash (.declare sampleReceipt) rfl).receipt.fields.messagesSent :=
  (receipt_hash_commits foldHashers id
    ⟨by decide,by decide,fun _ => show (1 : Felt)≠0 by decide⟩ rfl).2.2.1

end ReceiptWithTxHash
end Katana.Executor
