import Katana.Base.Wire
import Katana.Primitives.Transaction

/-! The postcard formats of the stored transactions: those of primitives/src/transaction.rs, and
those that database version 6 had (models/versioned/transaction/v6.rs). The variants of an enum
are numbered in the order of its declaration, which is not the same in both. -/
namespace Katana
open Primitives

namespace V6

structure ResourceBoundsMapping where
  l1Gas : ResourceBounds
  l2Gas : ResourceBounds
  deriving DecidableEq, Repr

/-- The fields that all transactions of version 3 have. -/
structure FieldsV3 where
  chainId : ChainId
  nonce : Felt
  signature : List Felt
  resourceBounds : ResourceBoundsMapping
  tip : BitVec 64
  paymasterData : List Felt
  nonceDataAvailabilityMode : DataAvailabilityMode
  feeDataAvailabilityMode : DataAvailabilityMode
  deriving DecidableEq, Repr

structure InvokeTxV3 extends FieldsV3 where
  senderAddress : Felt
  calldata : List Felt
  accountDeploymentData : List Felt
  deriving DecidableEq, Repr

structure DeclareTxV3 extends FieldsV3 where
  senderAddress : Felt
  classHash : Felt
  compiledClassHash : Felt
  accountDeploymentData : List Felt
  deriving DecidableEq, Repr

structure DeployAccountTxV3 extends FieldsV3 where
  classHash : Felt
  contractAddress : Felt
  contractAddressSalt : Felt
  constructorCalldata : List Felt
  deriving DecidableEq, Repr

inductive InvokeTx where
  | v0 (tx : InvokeTxV0)
  | v1 (tx : InvokeTxV1)
  | v3 (tx : InvokeTxV3)
  deriving DecidableEq, Repr

inductive DeclareTx where
  | v1 (tx : DeclareTxV1)
  | v2 (tx : DeclareTxV2)
  | v3 (tx : DeclareTxV3)
  | v0 (tx : DeclareTxV0)
  deriving DecidableEq, Repr

inductive DeployAccountTx where
  | v1 (tx : DeployAccountTxV1)
  | v3 (tx : DeployAccountTxV3)
  deriving DecidableEq, Repr

inductive Tx where
  | invoke (tx : InvokeTx)
  | declare (tx : DeclareTx)
  | l1Handler (tx : L1HandlerTx)
  | deployAccount (tx : DeployAccountTx)
  | deploy (tx : DeployTx)
  deriving DecidableEq, Repr

def ResourceBoundsMapping.into (b : ResourceBoundsMapping) : Primitives.ResourceBoundsMapping :=
  .l1Gas b.l1Gas

def FieldsV3.into (f : FieldsV3) : Primitives.FieldsV3 where
  chainId := f.chainId
  nonce := f.nonce
  signature := f.signature
  resourceBounds := f.resourceBounds.into
  tip := f.tip
  paymasterData := f.paymasterData
  nonceDataAvailabilityMode := f.nonceDataAvailabilityMode
  feeDataAvailabilityMode := f.feeDataAvailabilityMode

def InvokeTxV3.into (tx : InvokeTxV3) : Primitives.InvokeTxV3 :=
  { tx.toFieldsV3.into with
    senderAddress := tx.senderAddress
    calldata := tx.calldata
    accountDeploymentData := tx.accountDeploymentData }

def DeclareTxV3.into (tx : DeclareTxV3) : Primitives.DeclareTxV3 :=
  { tx.toFieldsV3.into with
    senderAddress := tx.senderAddress
    classHash := tx.classHash
    compiledClassHash := tx.compiledClassHash
    accountDeploymentData := tx.accountDeploymentData }

def DeployAccountTxV3.into (tx : DeployAccountTxV3) : Primitives.DeployAccountTxV3 :=
  { tx.toFieldsV3.into with
    classHash := tx.classHash
    contractAddress := tx.contractAddress
    contractAddressSalt := tx.contractAddressSalt
    constructorCalldata := tx.constructorCalldata }

def InvokeTx.into : InvokeTx → Primitives.InvokeTx
  | .v0 tx => .v0 tx
  | .v1 tx => .v1 tx
  | .v3 tx => .v3 tx.into

def DeclareTx.into : DeclareTx → Primitives.DeclareTx
  | .v0 tx => .v0 tx
  | .v1 tx => .v1 tx
  | .v2 tx => .v2 tx
  | .v3 tx => .v3 tx.into

def DeployAccountTx.into : DeployAccountTx → Primitives.DeployAccountTx
  | .v1 tx => .v1 tx
  | .v3 tx => .v3 tx.into

def Tx.into : Tx → Primitives.Tx
  | .invoke tx => .invoke tx.into
  | .declare tx => .declare tx.into
  | .l1Handler tx => .l1Handler tx
  | .deployAccount tx => .deployAccount tx.into
  | .deploy tx => .deploy tx

end V6

namespace Formats
open Wire

/-- A length byte and 32 bytes, which need not be below the prime. -/
def felt : Wire Felt where
  encode x := 32::x.toBytesBe
  decode
    | [] => none
    | b::bs => if b=32 ∧ 32≤bs.length then some (Felt.fromBytesBeSlice (bs.take 32),bs.drop 32)
      else none
  decode_encode x rest := by
    simp [List.take_left' x.toBytesBe_length,List.drop_left' x.toBytesBe_length]

theorem felt_encode (x : Felt) : felt.encode x=32::x.toBytesBe := rfl

/-- An enum of few variants has none with the number that starts a field element. -/
theorem choose_felt {α : Type} {f : Wire α} {branches : List (Bytes → Option (α × Bytes))}
    (hf : f.decode=choose branches) (h : branches.length≤32) (x : Felt) (bs : Bytes) :
    f.decode (felt.encode x++bs)=none := by
  rw [hf]
  exact choose_byte_none (b:=32) (by decide) h _

def felts : Wire (List Felt) := felt.list

def namedChainId : Wire NamedChainId where
  encode
    | .mainnet => index.encode 0
    | .goerli => index.encode 1
    | .sepolia => index.encode 2
  decode := choose [branch unit fun _ => .mainnet,branch unit fun _ => .goerli,
    branch unit fun _ => .sepolia]
  decode_encode c rest := by cases c <;> simp [branch,unit]

def chainId : Wire ChainId where
  encode
    | .named name => index.encode 0++namedChainId.encode name
    | .id value => index.encode 1++felt.encode value
  decode := choose [branch namedChainId .named,branch felt .id]
  decode_encode c rest := by cases c <;> simp

def dataAvailabilityMode : Wire DataAvailabilityMode where
  encode
    | .l1 => index.encode 0
    | .l2 => index.encode 1
  decode := choose [branch unit fun _ => .l1,branch unit fun _ => .l2]
  decode_encode m rest := by cases m <;> simp [branch,unit]

def resourceBounds : Wire ResourceBounds :=
  ((uint 64).pair (uint 128)).iso (fun r => ⟨r.1,r.2⟩) (fun b => (b.maxAmount,b.maxPricePerUnit))
    fun _ => rfl

def allResourceBoundsMapping : Wire AllResourceBoundsMapping :=
  (resourceBounds.pair (resourceBounds.pair resourceBounds)).iso (fun r => ⟨r.1,r.2.1,r.2.2⟩)
    (fun b => (b.l1Gas,b.l2Gas,b.l1DataGas)) fun _ => rfl

def resourceBoundsMapping : Wire ResourceBoundsMapping where
  encode
    | .l1Gas bounds => index.encode 0++resourceBounds.encode bounds
    | .all bounds => index.encode 1++allResourceBoundsMapping.encode bounds
  decode := choose [branch resourceBounds .l1Gas,branch allResourceBoundsMapping .all]
  decode_encode m rest := by cases m <;> simp

def invokeTxV0 : Wire InvokeTxV0 :=
  (felt.pair (felt.pair (felts.pair (felts.pair (uint 128))))).iso
    (fun r => ⟨r.1,r.2.1,r.2.2.1,r.2.2.2.1,r.2.2.2.2⟩)
    (fun tx => (tx.contractAddress,tx.entryPointSelector,tx.calldata,tx.signature,tx.maxFee))
    fun _ => rfl

def invokeTxV1 : Wire InvokeTxV1 :=
  (chainId.pair (felt.pair (felt.pair (felts.pair (felts.pair (uint 128)))))).iso
    (fun r => ⟨r.1,r.2.1,r.2.2.1,r.2.2.2.1,r.2.2.2.2.1,r.2.2.2.2.2⟩)
    (fun tx => (tx.chainId,tx.senderAddress,tx.nonce,tx.calldata,tx.signature,tx.maxFee))
    fun _ => rfl

/-- The fields of an invoke transaction of version 3 before its resource bounds. -/
def invokeHead : Wire (ChainId × Felt × Felt × List Felt × List Felt) :=
  chainId.pair (felt.pair (felt.pair (felts.pair felts)))

def declareHead : Wire (ChainId × Felt × Felt × List Felt × Felt × Felt) :=
  chainId.pair (felt.pair (felt.pair (felts.pair (felt.pair felt))))

def deployAccountHead : Wire (ChainId × Felt × List Felt × Felt × Felt × Felt × List Felt) :=
  chainId.pair (felt.pair (felts.pair (felt.pair (felt.pair (felt.pair felts)))))

/-- The lists and modes that follow the tip, with the data to deploy the account and without. -/
def listTail : Wire (List Felt × List Felt × DataAvailabilityMode × DataAvailabilityMode) :=
  felts.pair (felts.pair (dataAvailabilityMode.pair dataAvailabilityMode))

def deployListTail : Wire (List Felt × DataAvailabilityMode × DataAvailabilityMode) :=
  felts.pair (dataAvailabilityMode.pair dataAvailabilityMode)

/-- The resource bounds and what follows them. -/
def feeTail {B β : Type} (bounds : Wire B) (lists : Wire β) : Wire (B × BitVec 64 × β) :=
  bounds.pair ((uint 64).pair lists)

def invokeTxV3 : Wire InvokeTxV3 :=
  (invokeHead.pair (feeTail resourceBoundsMapping listTail)).iso
    (fun r => ⟨⟨r.1.1,r.1.2.2.1,r.1.2.2.2.2,r.2.1,r.2.2.1,r.2.2.2.1,r.2.2.2.2.2.1,
      r.2.2.2.2.2.2⟩,r.1.2.1,r.1.2.2.2.1,r.2.2.2.2.1⟩)
    (fun tx => ((tx.chainId,tx.senderAddress,tx.nonce,tx.calldata,tx.signature),
      tx.resourceBounds,tx.tip,tx.paymasterData,tx.accountDeploymentData,
      tx.nonceDataAvailabilityMode,tx.feeDataAvailabilityMode)) fun _ => rfl

def declareTxV0 : Wire DeclareTxV0 :=
  (chainId.pair (felt.pair (felts.pair (felt.pair (uint 128))))).iso
    (fun r => ⟨r.1,r.2.1,r.2.2.1,r.2.2.2.1,r.2.2.2.2⟩)
    (fun tx => (tx.chainId,tx.senderAddress,tx.signature,tx.classHash,tx.maxFee)) fun _ => rfl

def declareTxV1 : Wire DeclareTxV1 :=
  (chainId.pair (felt.pair (felt.pair (felts.pair (felt.pair (uint 128)))))).iso
    (fun r => ⟨r.1,r.2.1,r.2.2.1,r.2.2.2.1,r.2.2.2.2.1,r.2.2.2.2.2⟩)
    (fun tx => (tx.chainId,tx.senderAddress,tx.nonce,tx.signature,tx.classHash,tx.maxFee))
    fun _ => rfl

def declareTxV2 : Wire DeclareTxV2 :=
  (declareHead.pair (uint 128)).iso
    (fun r => ⟨r.1.1,r.1.2.1,r.1.2.2.1,r.1.2.2.2.1,r.1.2.2.2.2.1,r.1.2.2.2.2.2,r.2⟩)
    (fun tx => ((tx.chainId,tx.senderAddress,tx.nonce,tx.signature,tx.classHash,
      tx.compiledClassHash),tx.maxFee)) fun _ => rfl

def declareTxV3 : Wire DeclareTxV3 :=
  (declareHead.pair (feeTail resourceBoundsMapping listTail)).iso
    (fun r => ⟨⟨r.1.1,r.1.2.2.1,r.1.2.2.2.1,r.2.1,r.2.2.1,r.2.2.2.1,r.2.2.2.2.2.1,
      r.2.2.2.2.2.2⟩,r.1.2.1,r.1.2.2.2.2.1,r.1.2.2.2.2.2,r.2.2.2.2.1⟩)
    (fun tx => ((tx.chainId,tx.senderAddress,tx.nonce,tx.signature,tx.classHash,
      tx.compiledClassHash),tx.resourceBounds,tx.tip,tx.paymasterData,tx.accountDeploymentData,
      tx.nonceDataAvailabilityMode,tx.feeDataAvailabilityMode)) fun _ => rfl

def deployAccountTxV1 : Wire DeployAccountTxV1 :=
  (deployAccountHead.pair (uint 128)).iso
    (fun r => ⟨r.1.1,r.1.2.1,r.1.2.2.1,r.1.2.2.2.1,r.1.2.2.2.2.1,r.1.2.2.2.2.2.1,
      r.1.2.2.2.2.2.2,r.2⟩)
    (fun tx => ((tx.chainId,tx.nonce,tx.signature,tx.classHash,tx.contractAddress,
      tx.contractAddressSalt,tx.constructorCalldata),tx.maxFee)) fun _ => rfl

def deployAccountTxV3 : Wire DeployAccountTxV3 :=
  (deployAccountHead.pair (feeTail resourceBoundsMapping deployListTail)).iso
    (fun r => ⟨⟨r.1.1,r.1.2.1,r.1.2.2.1,r.2.1,r.2.2.1,r.2.2.2.1,r.2.2.2.2.1,r.2.2.2.2.2⟩,
      r.1.2.2.2.1,r.1.2.2.2.2.1,r.1.2.2.2.2.2.1,r.1.2.2.2.2.2.2⟩)
    (fun tx => ((tx.chainId,tx.nonce,tx.signature,tx.classHash,tx.contractAddress,
      tx.contractAddressSalt,tx.constructorCalldata),tx.resourceBounds,tx.tip,tx.paymasterData,
      tx.nonceDataAvailabilityMode,tx.feeDataAvailabilityMode)) fun _ => rfl

def l1HandlerTx : Wire L1HandlerTx :=
  (felt.pair (chainId.pair ((uint 128).pair (felt.pair (byteString.pair (felts.pair
    (felt.pair felt))))))).iso
    (fun r => ⟨r.1,r.2.1,r.2.2.1,r.2.2.2.1,r.2.2.2.2.1,r.2.2.2.2.2.1,r.2.2.2.2.2.2.1,
      r.2.2.2.2.2.2.2⟩)
    (fun tx => (tx.nonce,tx.chainId,tx.paidFeeOnL1,tx.version,tx.messageHash,tx.calldata,
      tx.contractAddress,tx.entryPointSelector)) fun _ => rfl

def deployTx : Wire DeployTx :=
  (felt.pair (felt.pair (felts.pair (felt.pair felt)))).iso
    (fun r => ⟨r.1,r.2.1,r.2.2.1,r.2.2.2.1,r.2.2.2.2⟩)
    (fun tx => (tx.contractAddress,tx.contractAddressSalt,tx.constructorCalldata,tx.classHash,
      tx.version)) fun _ => rfl

def invokeTx : Wire InvokeTx where
  encode
    | .v0 tx => index.encode 0++invokeTxV0.encode tx
    | .v1 tx => index.encode 1++invokeTxV1.encode tx
    | .v3 tx => index.encode 2++invokeTxV3.encode tx
  decode := choose [branch invokeTxV0 .v0,branch invokeTxV1 .v1,branch invokeTxV3 .v3]
  decode_encode tx rest := by cases tx <;> simp

def declareTx : Wire DeclareTx where
  encode
    | .v0 tx => index.encode 0++declareTxV0.encode tx
    | .v1 tx => index.encode 1++declareTxV1.encode tx
    | .v2 tx => index.encode 2++declareTxV2.encode tx
    | .v3 tx => index.encode 3++declareTxV3.encode tx
  decode := choose [branch declareTxV0 .v0,branch declareTxV1 .v1,branch declareTxV2 .v2,
    branch declareTxV3 .v3]
  decode_encode tx rest := by cases tx <;> simp

def deployAccountTx : Wire DeployAccountTx where
  encode
    | .v1 tx => index.encode 0++deployAccountTxV1.encode tx
    | .v3 tx => index.encode 1++deployAccountTxV3.encode tx
  decode := choose [branch deployAccountTxV1 .v1,branch deployAccountTxV3 .v3]
  decode_encode tx rest := by cases tx <;> simp

def tx : Wire Tx where
  encode
    | .invoke tx => index.encode 0++invokeTx.encode tx
    | .declare tx => index.encode 1++declareTx.encode tx
    | .l1Handler tx => index.encode 2++l1HandlerTx.encode tx
    | .deployAccount tx => index.encode 3++deployAccountTx.encode tx
    | .deploy tx => index.encode 4++deployTx.encode tx
  decode := choose [branch invokeTx .invoke,branch declareTx .declare,
    branch l1HandlerTx .l1Handler,branch deployAccountTx .deployAccount,branch deployTx .deploy]
  decode_encode tx rest := by cases tx <;> simp

namespace V6

def resourceBoundsMapping : Wire V6.ResourceBoundsMapping :=
  (resourceBounds.pair resourceBounds).iso (fun r => ⟨r.1,r.2⟩) (fun b => (b.l1Gas,b.l2Gas))
    fun _ => rfl

def invokeTxV3 : Wire V6.InvokeTxV3 :=
  (invokeHead.pair (feeTail resourceBoundsMapping listTail)).iso
    (fun r => ⟨⟨r.1.1,r.1.2.2.1,r.1.2.2.2.2,r.2.1,r.2.2.1,r.2.2.2.1,r.2.2.2.2.2.1,
      r.2.2.2.2.2.2⟩,r.1.2.1,r.1.2.2.2.1,r.2.2.2.2.1⟩)
    (fun tx => ((tx.chainId,tx.senderAddress,tx.nonce,tx.calldata,tx.signature),
      tx.resourceBounds,tx.tip,tx.paymasterData,tx.accountDeploymentData,
      tx.nonceDataAvailabilityMode,tx.feeDataAvailabilityMode)) fun _ => rfl

def declareTxV3 : Wire V6.DeclareTxV3 :=
  (declareHead.pair (feeTail resourceBoundsMapping listTail)).iso
    (fun r => ⟨⟨r.1.1,r.1.2.2.1,r.1.2.2.2.1,r.2.1,r.2.2.1,r.2.2.2.1,r.2.2.2.2.2.1,
      r.2.2.2.2.2.2⟩,r.1.2.1,r.1.2.2.2.2.1,r.1.2.2.2.2.2,r.2.2.2.2.1⟩)
    (fun tx => ((tx.chainId,tx.senderAddress,tx.nonce,tx.signature,tx.classHash,
      tx.compiledClassHash),tx.resourceBounds,tx.tip,tx.paymasterData,tx.accountDeploymentData,
      tx.nonceDataAvailabilityMode,tx.feeDataAvailabilityMode)) fun _ => rfl

def deployAccountTxV3 : Wire V6.DeployAccountTxV3 :=
  (deployAccountHead.pair (feeTail resourceBoundsMapping deployListTail)).iso
    (fun r => ⟨⟨r.1.1,r.1.2.1,r.1.2.2.1,r.2.1,r.2.2.1,r.2.2.2.1,r.2.2.2.2.1,r.2.2.2.2.2⟩,
      r.1.2.2.2.1,r.1.2.2.2.2.1,r.1.2.2.2.2.2.1,r.1.2.2.2.2.2.2⟩)
    (fun tx => ((tx.chainId,tx.nonce,tx.signature,tx.classHash,tx.contractAddress,
      tx.contractAddressSalt,tx.constructorCalldata),tx.resourceBounds,tx.tip,tx.paymasterData,
      tx.nonceDataAvailabilityMode,tx.feeDataAvailabilityMode)) fun _ => rfl

def invokeTx : Wire V6.InvokeTx where
  encode
    | .v0 tx => index.encode 0++invokeTxV0.encode tx
    | .v1 tx => index.encode 1++invokeTxV1.encode tx
    | .v3 tx => index.encode 2++invokeTxV3.encode tx
  decode := choose [branch invokeTxV0 .v0,branch invokeTxV1 .v1,branch invokeTxV3 .v3]
  decode_encode tx rest := by cases tx <;> simp

def declareTx : Wire V6.DeclareTx where
  encode
    | .v1 tx => index.encode 0++declareTxV1.encode tx
    | .v2 tx => index.encode 1++declareTxV2.encode tx
    | .v3 tx => index.encode 2++declareTxV3.encode tx
    | .v0 tx => index.encode 3++declareTxV0.encode tx
  decode := choose [branch declareTxV1 .v1,branch declareTxV2 .v2,branch declareTxV3 .v3,
    branch declareTxV0 .v0]
  decode_encode tx rest := by cases tx <;> simp

def deployAccountTx : Wire V6.DeployAccountTx where
  encode
    | .v1 tx => index.encode 0++deployAccountTxV1.encode tx
    | .v3 tx => index.encode 1++deployAccountTxV3.encode tx
  decode := choose [branch deployAccountTxV1 .v1,branch deployAccountTxV3 .v3]
  decode_encode tx rest := by cases tx <;> simp

def tx : Wire V6.Tx where
  encode
    | .invoke tx => index.encode 0++invokeTx.encode tx
    | .declare tx => index.encode 1++declareTx.encode tx
    | .l1Handler tx => index.encode 2++l1HandlerTx.encode tx
    | .deployAccount tx => index.encode 3++deployAccountTx.encode tx
    | .deploy tx => index.encode 4++deployTx.encode tx
  decode := choose [branch invokeTx .invoke,branch declareTx .declare,
    branch l1HandlerTx .l1Handler,branch deployAccountTx .deployAccount,branch deployTx .deploy]
  decode_encode tx rest := by cases tx <;> simp

end V6
end Formats
end Katana
