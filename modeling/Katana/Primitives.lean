import Katana.Base.SortedMap
import Katana.Db.Codecs

/-! Blocks, state updates and errors as the storage layer sees them (katana-primitives
block.rs and state.rs, the versioned models of the database, error.rs). -/
namespace Katana

structure GasPrice where
  eth : Nat
  strk : Nat
  deriving DecidableEq, Repr, Inhabited

inductive L1DataAvailabilityMode where
  | blob
  | calldata
  deriving DecidableEq, Repr, Inhabited

structure HeaderV6 where
  parentHash : Felt
  number : Nat
  stateDiffCommitment : Felt
  transactionsCommitment : Felt
  receiptsCommitment : Felt
  eventsCommitment : Felt
  stateRoot : Felt
  transactionCount : Nat
  eventsCount : Nat
  stateDiffLength : Nat
  timestamp : Nat
  sequencerAddress : Felt
  l1GasPrices : GasPrice
  l1DataGasPrices : GasPrice
  l1DaMode : L1DataAvailabilityMode
  protocolVersion : List Nat
  deriving DecidableEq, Repr, Inhabited

structure Header extends HeaderV6 where
  l2GasPrices : GasPrice
  deriving DecidableEq, Repr, Inhabited

inductive VersionedHeader where
  | v6 (header : HeaderV6)
  | v7 (header : Header)
  deriving DecidableEq, Repr

def VersionedHeader.ofHeader (h : Header) : VersionedHeader := .v7 h

/-- A version 6 header gets the minimal l2 gas price. -/
def VersionedHeader.toHeader : VersionedHeader → Header
  | .v7 h => h
  | .v6 h => { h with l2GasPrices := ⟨1,1⟩ }

/-- The types the storage layer passes through without looking inside. -/
structure Payloads where
  Tx : Type
  TxV6 : Type
  upgradeTx : TxV6 → Tx
  Receipt : Type
  ExecutionInfo : Type
  ContractClass : Type

/-- Payloads without content, for concrete runs. -/
def unitPayloads : Payloads := ⟨Unit,Unit,id,Unit,Unit,Unit⟩

inductive VersionedTx (P : Payloads) where
  | v6 (tx : P.TxV6)
  | v7 (tx : P.Tx)

def VersionedTx.ofTx {P : Payloads} (tx : P.Tx) : VersionedTx P := .v7 tx

def VersionedTx.toTx {P : Payloads} : VersionedTx P → P.Tx
  | .v6 tx => P.upgradeTx tx
  | .v7 tx => tx

inductive FinalityStatus where
  | acceptedOnL2
  | acceptedOnL1
  deriving DecidableEq, Repr

structure TxWithHash (P : Payloads) where
  hash : Felt
  transaction : P.Tx

structure SealedBlock (P : Payloads) where
  hash : Felt
  header : Header
  body : List (TxWithHash P)

structure SealedBlockWithStatus (P : Payloads) where
  block : SealedBlock P
  status : FinalityStatus

@[ext] structure StateUpdates where
  nonceUpdates : SortedMap Felt Felt := ∅
  storageUpdates : SortedMap Felt (SortedMap Felt Felt) := ∅
  deployedContracts : SortedMap Felt Felt := ∅
  replacedClasses : SortedMap Felt Felt := ∅
  declaredClasses : SortedMap Felt Felt := ∅
  deprecatedDeclaredClasses : SortedSet Felt := ∅
  deriving DecidableEq

structure StateUpdatesWithClasses (P : Payloads) where
  stateUpdates : StateUpdates
  classes : SortedMap Felt P.ContractClass

inductive BlockHashOrNumber where
  | hash (h : Felt)
  | num (n : Nat)
  deriving DecidableEq, Repr

/-- The errors of the database layer; code is what libmdbx returned. -/
inductive DatabaseError where
  | codec (e : CodecError)
  | commit (code : Int)
  | read (code : Int)
  | write (code : Int) (table : String) (key : Bytes)
  | openDb (code : Int)
  | stat (code : Int)
  | createCursor (code : Int)
  | createROTx (code : Int)
  | createRWTx (code : Int)
  | delete (code : Int)
  deriving DecidableEq, Repr

/-- What the RPC provider of the forked network answers instead of a value. -/
inductive StarknetProviderError where
  | contractNotFound
  | classHashNotFound
  | starknetError (code : Int)
  | rateLimited
  | other (message : String)
  deriving DecidableEq, Repr

/-- The errors of the fork backend (storage/fork/src/lib.rs). -/
inductive BackendError where
  | backendThreadInit (message : String)
  | starknetProvider (e : StarknetProviderError)
  | unexpectedReceiveResult (message : String)
  deriving DecidableEq, Repr

inductive BackendClientError where
  | failedSendRequest
  | failedReceiveResult
  | backendError (e : BackendError)
  | classConversion (message : String)
  | classCompilation (message : String)
  | classHashComputation (message : String)
  | unexpectedResponse (message : String)
  deriving DecidableEq, Repr

inductive ProviderError where
  | missingLatestBlockHash
  | missingLatestBlockNumber
  | missingBlockHash (block : Nat)
  | missingBlockHeader (block : Nat)
  | missingBlockTxs (block : Nat)
  | missingBlockBodyIndices (block : Nat)
  | missingBlockStatus (block : Nat)
  | missingTx (tx : Nat)
  | missingTxBlock (tx : Nat)
  | missingTxHash (tx : Nat)
  | missingTxReceipt (tx : Nat)
  | missingTxExecution (tx : Nat)
  | missingCompiledClassHash (hash : Felt)
  | missingContractClassChangeEntry (block : Nat) (contractAddress : Felt)
  | missingContractNonceChangeEntry (block : Nat) (contractAddress : Felt)
  | missingStorageChangeEntry (block : Nat) (contractAddress storageKey : Felt)
  | missingContractClassHash (address : Felt)
  | missingContractNonce (address : Felt)
  | database (e : DatabaseError)
  | forkedBackend1 (e : BackendClientError)
  deriving DecidableEq, Repr

end Katana
