import Katana.Db.Codecs

/-! Transactions with all their fields (primitives/src/transaction.rs, fee.rs, da/mod.rs and
chain.rs) and their hashes (primitives/src/utils/transaction.rs). The two array hashes are
functions of libraries. -/
namespace Katana.Primitives

def shortString (s : List Char) : Felt := Fin.ofNat feltPrime (s.foldl (fun n c => n*256+c.toNat) 0)

inductive NamedChainId where
  | mainnet
  | goerli
  | sepolia
  deriving DecidableEq, Repr

def NamedChainId.id : NamedChainId → Felt
  | .mainnet => shortString ['S','N','_','M','A','I','N']
  | .goerli => shortString ['S','N','_','G','O','E','R','L','I']
  | .sepolia => shortString ['S','N','_','S','E','P','O','L','I','A']

inductive ChainId where
  | named (name : NamedChainId)
  | id (value : Felt)
  deriving DecidableEq, Repr

def ChainId.toFelt : ChainId → Felt
  | .named name => name.id
  | .id value => value

@[ext] structure ResourceBounds where
  maxAmount : BitVec 64
  maxPricePerUnit : BitVec 128
  deriving DecidableEq, Repr

def ResourceBounds.zero : ResourceBounds := ⟨0,0⟩

@[ext] structure AllResourceBoundsMapping where
  l1Gas : ResourceBounds
  l2Gas : ResourceBounds
  l1DataGas : ResourceBounds
  deriving DecidableEq, Repr

inductive ResourceBoundsMapping where
  | l1Gas (bounds : ResourceBounds)
  | all (bounds : AllResourceBoundsMapping)
  deriving DecidableEq, Repr

inductive DataAvailabilityMode where
  | l1
  | l2
  deriving DecidableEq, Repr

def DataAvailabilityMode.toNat : DataAvailabilityMode → Nat
  | .l1 => 0
  | .l2 => 1

structure InvokeTxV0 where
  contractAddress : Felt
  entryPointSelector : Felt
  calldata : List Felt
  signature : List Felt
  maxFee : BitVec 128
  deriving DecidableEq, Repr

structure InvokeTxV1 where
  chainId : ChainId
  senderAddress : Felt
  nonce : Felt
  calldata : List Felt
  signature : List Felt
  maxFee : BitVec 128
  deriving DecidableEq, Repr

structure FieldsV3 where
  chainId : ChainId
  nonce : Felt
  signature : List Felt
  resourceBounds : ResourceBoundsMapping
  tip : BitVec 64
  paymasterData : List Felt
  nonceDataAvailabilityMode : DataAvailabilityMode
  feeDataAvailabilityMode : DataAvailabilityMode
  deriving DecidableEq, Repr

structure InvokeTxV3 extends FieldsV3 where
  senderAddress : Felt
  calldata : List Felt
  accountDeploymentData : List Felt
  deriving DecidableEq, Repr

inductive InvokeTx where
  | v0 (tx : InvokeTxV0)
  | v1 (tx : InvokeTxV1)
  | v3 (tx : InvokeTxV3)
  deriving DecidableEq, Repr

structure DeclareTxV0 where
  chainId : ChainId
  senderAddress : Felt
  signature : List Felt
  classHash : Felt
  maxFee : BitVec 128
  deriving DecidableEq, Repr

structure DeclareTxV1 where
  chainId : ChainId
  senderAddress : Felt
  nonce : Felt
  signature : List Felt
  classHash : Felt
  maxFee : BitVec 128
  deriving DecidableEq, Repr

structure DeclareTxV2 where
  chainId : ChainId
  senderAddress : Felt
  nonce : Felt
  signature : List Felt
  classHash : Felt
  compiledClassHash : Felt
  maxFee : BitVec 128
  deriving DecidableEq, Repr

structure DeclareTxV3 extends FieldsV3 where
  senderAddress : Felt
  classHash : Felt
  compiledClassHash : Felt
  accountDeploymentData : List Felt
  deriving DecidableEq, Repr

inductive DeclareTx where
  | v0 (tx : DeclareTxV0)
  | v1 (tx : DeclareTxV1)
  | v2 (tx : DeclareTxV2)
  | v3 (tx : DeclareTxV3)
  deriving DecidableEq, Repr

structure DeployAccountTxV1 where
  chainId : ChainId
  nonce : Felt
  signature : List Felt
  classHash : Felt
  contractAddress : Felt
  contractAddressSalt : Felt
  constructorCalldata : List Felt
  maxFee : BitVec 128
  deriving DecidableEq, Repr

structure DeployAccountTxV3 extends FieldsV3 where
  classHash : Felt
  contractAddress : Felt
  contractAddressSalt : Felt
  constructorCalldata : List Felt
  deriving DecidableEq, Repr

inductive DeployAccountTx where
  | v1 (tx : DeployAccountTxV1)
  | v3 (tx : DeployAccountTxV3)
  deriving DecidableEq, Repr

structure L1HandlerTx where
  nonce : Felt
  chainId : ChainId
  paidFeeOnL1 : BitVec 128
  version : Felt
  messageHash : Bytes
  calldata : List Felt
  contractAddress : Felt
  entryPointSelector : Felt
  deriving DecidableEq, Repr

/-- The transaction that deployed a contract before there were deploy accounts. -/
structure DeployTx where
  contractAddress : Felt
  contractAddressSalt : Felt
  constructorCalldata : List Felt
  classHash : Felt
  version : Felt
  deriving DecidableEq, Repr

inductive Tx where
  | invoke (tx : InvokeTx)
  | declare (tx : DeclareTx)
  | l1Handler (tx : L1HandlerTx)
  | deployAccount (tx : DeployAccountTx)
  | deploy (tx : DeployTx)
  deriving DecidableEq, Repr

/-- A declared class travels with its transaction but is not hashed with it. -/
inductive ExecutableTx where
  | invoke (tx : InvokeTx)
  | l1Handler (tx : L1HandlerTx)
  | declare (tx : DeclareTx)
  | deployAccount (tx : DeployAccountTx)
  deriving DecidableEq, Repr

/-- The chained Pedersen hash and the Poseidon hash of a list. -/
structure Hashers where
  computeHashOnElements : List Felt → Felt
  poseidonHashMany : List Felt → Felt

/-- A felt from the limbs of its Montgomery form, most significant first. -/
def fromRaw (a b c d : Nat) : Felt :=
  Fin.ofNat feltPrime ((((a*2^64+b)*2^64+c)*2^64+d)*
    113078212145816603762751633895895194930089271709401121343797004406777446400)

def queryVersionOffset : Felt :=
  fromRaw 576460752142434320 18446744073709551584 17407 18446744073700081665

def prefixInvoke : Felt :=
  fromRaw 513398556346534256 18446744073709551615 18446744073709551615 18443034532770911073

def prefixDeclare : Felt :=
  fromRaw 191557713328401194 18446744073709551615 18446744073709551615 17542456862011667323

def prefixDeployAccount : Felt :=
  fromRaw 461298303000467581 18446744073709551615 18443211694809419988 3350261884043292318

def prefixL1Handler : Felt :=
  fromRaw 157895833347907735 18446744073709551615 18446744073708665300 1365666230910873368

/-- The factor is the inverse of the Montgomery radix. -/
example : 2^256*
    113078212145816603762751633895895194930089271709401121343797004406777446400%feltPrime=1 := by
  decide

example : prefixDeployAccount=
    shortString ['d','e','p','l','o','y','_','a','c','c','o','u','n','t'] := by decide

/-- The version that is hashed, apart for queries. -/
def hashedVersion (version : Felt) (isQuery : Bool) : Felt :=
  if isQuery then queryVersionOffset+version else version

def ascii (s : List Char) : Bytes := s.map (fun c => Fin.ofNat 256 c.toNat)

/-- Eight bytes for the name, eight for the amount and sixteen for the price. -/
def encodeGasBound (name : Bytes) (bound : ResourceBounds) : Felt :=
  Felt.fromBytesBeSlice ((List.replicate (8-name.length) 0++name)++
    ByteOrder.beBytes 8 bound.maxAmount.toNat++ByteOrder.beBytes 16 bound.maxPricePerUnit.toNat)

def ofU64 (x : BitVec 64) : Felt := Fin.ofNat feltPrime x.toNat

def ofU128 (x : BitVec 128) : Felt := Fin.ofNat feltPrime x.toNat

def l1GasName : Bytes := ascii ['L','1','_','G','A','S']

def l2GasName : Bytes := ascii ['L','2','_','G','A','S']

def l1DataGasName : Bytes := ascii ['L','1','_','D','A','T','A']

/-- The data gas is left out when there is no bound for it. -/
def hashFeeFields (H : Hashers) (tip : BitVec 64) (l1GasBounds l2GasBounds : ResourceBounds)
    (l1DataGasBounds : Option ResourceBounds) : Felt :=
  match l1DataGasBounds with
  | some dataGasBounds =>
    H.poseidonHashMany [ofU64 tip,encodeGasBound l1GasName l1GasBounds,
      encodeGasBound l2GasName l2GasBounds,encodeGasBound l1DataGasName dataGasBounds]
  | none =>
    H.poseidonHashMany [ofU64 tip,encodeGasBound l1GasName l1GasBounds,
      encodeGasBound l2GasName l2GasBounds]

def encodeDaMode (nonceDaMode feeDaMode : DataAvailabilityMode) : Felt :=
  Fin.ofNat feltPrime (nonceDaMode.toNat<<<32+feeDaMode.toNat)

section Compute
variable (H : Hashers)

def computeDeployAccountV1TxHash (senderAddress : Felt) (constructorCalldata : List Felt)
    (classHash contractAddressSalt : Felt) (maxFee : BitVec 128) (chainId nonce : Felt)
    (isQuery : Bool) : Felt :=
  H.computeHashOnElements [prefixDeployAccount,hashedVersion 1 isQuery,senderAddress,0,
    H.computeHashOnElements (classHash::contractAddressSalt::constructorCalldata),ofU128 maxFee,
    chainId,nonce]

def computeDeployAccountV3TxHash (contractAddress : Felt) (constructorCalldata : List Felt)
    (classHash contractAddressSalt : Felt) (tip : BitVec 64)
    (l1GasBounds l2GasBounds : ResourceBounds) (l1DataGasBounds : Option ResourceBounds)
    (paymasterData : List Felt) (chainId nonce : Felt)
    (nonceDaMode feeDaMode : DataAvailabilityMode) (isQuery : Bool) : Felt :=
  H.poseidonHashMany [prefixDeployAccount,hashedVersion 3 isQuery,contractAddress,
    hashFeeFields H tip l1GasBounds l2GasBounds l1DataGasBounds,H.poseidonHashMany paymasterData,
    chainId,nonce,encodeDaMode nonceDaMode feeDaMode,H.poseidonHashMany constructorCalldata,
    classHash,contractAddressSalt]

variable (senderAddress classHash : Felt)

def computeDeclareV0TxHash (maxFee : BitVec 128) (chainId : Felt) (isQuery : Bool) : Felt :=
  H.computeHashOnElements [prefixDeclare,hashedVersion 0 isQuery,senderAddress,0,
    H.computeHashOnElements [],ofU128 maxFee,chainId,classHash]

def computeDeclareV1TxHash (maxFee : BitVec 128) (chainId nonce : Felt) (isQuery : Bool) : Felt :=
  H.computeHashOnElements [prefixDeclare,hashedVersion 1 isQuery,senderAddress,0,
    H.computeHashOnElements [classHash],ofU128 maxFee,chainId,nonce]

def computeDeclareV2TxHash (maxFee : BitVec 128)
    (chainId nonce compiledClassHash : Felt) (isQuery : Bool) : Felt :=
  H.computeHashOnElements [prefixDeclare,hashedVersion 2 isQuery,senderAddress,0,
    H.computeHashOnElements [classHash],ofU128 maxFee,chainId,nonce,compiledClassHash]

def computeDeclareV3TxHash (senderAddress classHash compiledClassHash : Felt) (tip : BitVec 64)
    (l1GasBounds l2GasBounds : ResourceBounds) (l1DataGasBounds : Option ResourceBounds)
    (paymasterData : List Felt) (chainId nonce : Felt)
    (nonceDaMode feeDaMode : DataAvailabilityMode) (accountDeploymentData : List Felt)
    (isQuery : Bool) : Felt :=
  H.poseidonHashMany [prefixDeclare,hashedVersion 3 isQuery,senderAddress,
    hashFeeFields H tip l1GasBounds l2GasBounds l1DataGasBounds,H.poseidonHashMany paymasterData,
    chainId,nonce,encodeDaMode nonceDaMode feeDaMode,H.poseidonHashMany accountDeploymentData,
    classHash,compiledClassHash]

def computeInvokeV1TxHash (senderAddress : Felt) (calldata : List Felt) (maxFee : BitVec 128)
    (chainId nonce : Felt) (isQuery : Bool) : Felt :=
  H.computeHashOnElements [prefixInvoke,hashedVersion 1 isQuery,senderAddress,0,
    H.computeHashOnElements calldata,ofU128 maxFee,chainId,nonce]

def computeInvokeV3TxHash (senderAddress : Felt) (calldata : List Felt) (tip : BitVec 64)
    (l1GasBounds l2GasBounds : ResourceBounds) (l1DataGasBounds : Option ResourceBounds)
    (paymasterData : List Felt) (chainId nonce : Felt)
    (nonceDaMode feeDaMode : DataAvailabilityMode) (accountDeploymentData : List Felt)
    (isQuery : Bool) : Felt :=
  H.poseidonHashMany [prefixInvoke,hashedVersion 3 isQuery,senderAddress,
    hashFeeFields H tip l1GasBounds l2GasBounds l1DataGasBounds,H.poseidonHashMany paymasterData,
    chainId,nonce,encodeDaMode nonceDaMode feeDaMode,H.poseidonHashMany accountDeploymentData,
    H.poseidonHashMany calldata]

def computeL1HandlerTxHash (version contractAddress entryPointSelector : Felt)
    (calldata : List Felt) (chainId nonce : Felt) : Felt :=
  H.computeHashOnElements [prefixL1Handler,version,contractAddress,entryPointSelector,
    H.computeHashOnElements calldata,0,chainId,nonce]

variable (isQuery : Bool)

/-- The hash of an invoke transaction of version 0 is not implemented: the code panics. -/
def InvokeTx.calculateHash : InvokeTx → Option Felt
  | .v0 _ => none
  | .v1 tx => some (computeInvokeV1TxHash H tx.senderAddress tx.calldata tx.maxFee
      tx.chainId.toFelt tx.nonce isQuery)
  | .v3 tx =>
    match tx.resourceBounds with
    | .all bounds => some (computeInvokeV3TxHash H tx.senderAddress tx.calldata tx.tip bounds.l1Gas
        bounds.l2Gas (some bounds.l1DataGas) tx.paymasterData tx.chainId.toFelt tx.nonce
        tx.nonceDataAvailabilityMode tx.feeDataAvailabilityMode tx.accountDeploymentData isQuery)
    | .l1Gas bounds => some (computeInvokeV3TxHash H tx.senderAddress tx.calldata tx.tip bounds
        .zero none tx.paymasterData tx.chainId.toFelt tx.nonce tx.nonceDataAvailabilityMode
        tx.feeDataAvailabilityMode tx.accountDeploymentData isQuery)

def DeclareTx.calculateHash : DeclareTx → Felt
  | .v0 tx => computeDeclareV0TxHash H tx.senderAddress tx.classHash tx.maxFee tx.chainId.toFelt
      isQuery
  | .v1 tx => computeDeclareV1TxHash H tx.senderAddress tx.classHash tx.maxFee tx.chainId.toFelt
      tx.nonce isQuery
  | .v2 tx => computeDeclareV2TxHash H tx.senderAddress tx.classHash tx.maxFee tx.chainId.toFelt
      tx.nonce tx.compiledClassHash isQuery
  | .v3 tx =>
    match tx.resourceBounds with
    | .all bounds => computeDeclareV3TxHash H tx.senderAddress tx.classHash tx.compiledClassHash
        tx.tip bounds.l1Gas bounds.l2Gas (some bounds.l1DataGas) tx.paymasterData
        tx.chainId.toFelt tx.nonce tx.nonceDataAvailabilityMode tx.feeDataAvailabilityMode
        tx.accountDeploymentData isQuery
    | .l1Gas bounds => computeDeclareV3TxHash H tx.senderAddress tx.classHash tx.compiledClassHash
        tx.tip bounds .zero none tx.paymasterData tx.chainId.toFelt tx.nonce
        tx.nonceDataAvailabilityMode tx.feeDataAvailabilityMode tx.accountDeploymentData isQuery

def L1HandlerTx.calculateHash (tx : L1HandlerTx) : Felt :=
  computeL1HandlerTxHash H tx.version tx.contractAddress tx.entryPointSelector tx.calldata
    tx.chainId.toFelt tx.nonce

def DeployAccountTx.calculateHash : DeployAccountTx → Felt
  | .v1 tx => computeDeployAccountV1TxHash H tx.contractAddress tx.constructorCalldata tx.classHash
      tx.contractAddressSalt tx.maxFee tx.chainId.toFelt tx.nonce isQuery
  | .v3 tx =>
    match tx.resourceBounds with
    | .all bounds => computeDeployAccountV3TxHash H tx.contractAddress tx.constructorCalldata
        tx.classHash tx.contractAddressSalt tx.tip bounds.l1Gas bounds.l2Gas
        (some bounds.l1DataGas) tx.paymasterData tx.chainId.toFelt tx.nonce
        tx.nonceDataAvailabilityMode tx.feeDataAvailabilityMode isQuery
    | .l1Gas bounds => computeDeployAccountV3TxHash H tx.contractAddress tx.constructorCalldata
        tx.classHash tx.contractAddressSalt tx.tip bounds .zero none tx.paymasterData
        tx.chainId.toFelt tx.nonce tx.nonceDataAvailabilityMode tx.feeDataAvailabilityMode isQuery

/-- An L1 handler transaction has no query form. -/
def ExecutableTx.calculateHash : ExecutableTx → Option Felt
  | .l1Handler tx => some (tx.calculateHash H)
  | .invoke tx => tx.calculateHash H isQuery
  | .declare tx => some (tx.calculateHash H isQuery)
  | .deployAccount tx => some (tx.calculateHash H isQuery)

end Compute
end Katana.Primitives
