import Katana.Base.Interrupted
import Katana.Provider.ClassHistory
import Katana.Provider.Atomicity
import Katana.Provider.StateUpdate
import Katana.Sync.Pipeline

/-! The stages of the full node (sync/stage/src/blocks.rs and classes.rs) over the database
provider. Every call of the provider and of the feeder gateway can fail, and the process can
stop before each of them. -/
namespace Katana

namespace FeederGateway

inductive BlockStatus where
  | pending
  | aborted
  | reverted
  | acceptedOnL2
  | acceptedOnL1
  deriving DecidableEq, Repr

def BlockStatus.debug : BlockStatus → String
  | .pending => "Pending"
  | .aborted => "Aborted"
  | .reverted => "Reverted"
  | .acceptedOnL2 => "AcceptedOnL2"
  | .acceptedOnL1 => "AcceptedOnL1"

structure ResourcePrice where
  priceInFri : Felt := 1
  priceInWei : Felt := 1

structure Block (T R : Type) where
  blockHash : Option Felt := none
  blockNumber : Option Nat := none
  parentBlockHash : Felt
  timestamp : Nat
  sequencerAddress : Option Felt := none
  stateRoot : Option Felt := none
  transactionCommitment : Option Felt := none
  eventCommitment : Option Felt := none
  status : BlockStatus
  l1DaMode : L1DataAvailabilityMode
  l2GasPrice : ResourcePrice := {}
  l1GasPrice : ResourcePrice
  l1DataGasPrice : ResourcePrice
  transactions : List T
  transactionReceipts : List R
  starknetVersion : Option (List Nat) := none

structure StateUpdateWithBlock (T R : Type) where
  stateDiff : StateDiff
  block : Block T R

inductive ClientError where
  | network (message : String)
  | sequencer (message : String)
  | invalidHeaderValue (value : String)
  | rateLimited
  deriving DecidableEq, Repr

/-- What the gateway answers when it does, with the conversions of its transactions, receipts
and classes; the conversion of a receipt can panic. -/
structure SequencerGateway (P : Payloads) where
  Transaction : Type
  Receipt : Type
  getStateUpdateWithBlock : Nat → StateUpdateWithBlock Transaction Receipt
  getClass : Felt → Nat → Except String P.ContractClass
  toTx : Transaction → Except String (TxWithHash P)
  toReceipt : Receipt → TxWithHash P → Except String P.Receipt

end FeederGateway

namespace Sync
open FeederGateway DbTx
variable {P : Payloads} {α : Type}

inductive StageError where
  | provider (e : ProviderError)
  | gateway (e : ClientError)
  | missingBlockDeclaredClasses (block : Nat)
  | conversion (message : String)
  | other (message : String)
  deriving DecidableEq, Repr

/-- How a run ends before its time. -/
inductive Interruption where
  | failed (f : Failure StageError)
  | stopped
  deriving DecidableEq, Repr

abbrev Outcome (α : Type) := Except (Failure StageError) α

def toU128 (x : Felt) : Outcome Nat :=
  if x.val<2^128 then .ok x.val else .error (.panic "valid u128")

/-- Both prices are read from price_in_fri. -/
def toGasPrices (prices : ResourcePrice) : Outcome GasPrice := do
  let eth ← toU128 prices.priceInFri
  let strk ← toU128 prices.priceInFri
  return ⟨eth,strk⟩

def finalityStatus : BlockStatus → Outcome FinalityStatus
  | .acceptedOnL2 => .ok .acceptedOnL2
  | .acceptedOnL1 => .ok .acceptedOnL1
  | status => .error (.panic ("unsupported block status: "++status.debug))

/-- A receipt beyond the transactions is dropped by the zip. -/
def extractBlockData (G : SequencerGateway P)
    (data : StateUpdateWithBlock G.Transaction G.Receipt) : Outcome (BlockInput P) := do
  let status ← finalityStatus data.block.status
  let transactions ← data.block.transactions.mapM
    (fun tx => (G.toTx tx).mapError (fun e => .err (.other e)))
  let receipts ← (data.block.transactionReceipts.zip transactions).mapM
    (fun r => (G.toReceipt r.1 r.2).mapError .panic)
  let l1GasPrices ← toGasPrices data.block.l1GasPrice
  let l2GasPrices ← toGasPrices data.block.l2GasPrice
  let l1DataGasPrices ← toGasPrices data.block.l1DataGasPrice
  let header : Header :=
    { transactionCount := transactions.length%2^32
      timestamp := data.block.timestamp
      l1DaMode := data.block.l1DaMode
      eventsCount := 0
      parentHash := data.block.parentBlockHash
      stateDiffLength := 0
      receiptsCommitment := 0
      stateDiffCommitment := 0
      number := data.block.blockNumber.getD 0
      l1GasPrices := l1GasPrices
      l2GasPrices := l2GasPrices
      stateRoot := data.block.stateRoot.getD 0
      l1DataGasPrices := l1DataGasPrices
      protocolVersion := data.block.starknetVersion.getD [0,1,0,0]
      eventsCommitment := data.block.eventCommitment.getD 0
      sequencerAddress := data.block.sequencerAddress.getD 0
      transactionsCommitment := data.block.transactionCommitment.getD 0 }
  return data.stateDiff.insertion ⟨⟨data.block.blockHash.getD 0,header,transactions⟩,status⟩ receipts

/-- What happens at one call: the process stops before it, or the call is made, and the
transaction or the client may fail. -/
inductive CallEnv where
  | stop
  | go (tx : TxEnv) (client : Option ClientError)

/-- The database, and the calls made so far. -/
structure SyncState (P : Payloads) where
  db : Db P
  calls : Nat := 0

abbrev SyncM (P : Payloads) := EStateM Interruption (SyncState P)

variable (C : Codecs) (G : SequencerGateway P) (env : Nat → CallEnv)

def call (f : TxEnv → Option ClientError → Db P → Outcome α × Db P) : SyncM P α := fun s =>
  match env s.calls with
  | .stop => .error .stopped s
  | .go tx client =>
    match f tx client s.db with
    | (.ok a,db) => .ok a ⟨db,s.calls+1⟩
    | (.error e,db) => .error (.failed e) ⟨db,s.calls+1⟩

def pureStep (r : Outcome α) : SyncM P α := fun s =>
  match r with
  | .ok a => .ok a s
  | .error e => .error (.failed e) s

def providerError (e : ProviderError) : Failure StageError := .err (.provider e)

def view (tx : TxEnv) (f : Db P → Except ProviderError α) (db : Db P) : Outcome α × Db P :=
  (match tx.begin,tx.faults 0,f db,tx.commit with
    | some e,_,_,_ => .error (providerError (.database e))
    | none,some fault,_,_ => .error (providerError fault.error)
    | none,none,.error e,_ => .error (providerError e)
    | none,none,.ok _,some e => .error (providerError (.database e))
    | none,none,.ok a,none => .ok a,db)

def fetch (client : Option ClientError) (r : Outcome α) (db : Db P) : Outcome α × Db P :=
  (match client with
    | some e => .error (.err (.gateway e))
    | none => r,db)

def checkpoint (id : String) : SyncM P (Option Nat) :=
  call env (fun tx _ => view tx (fun db => .ok (db.get .stageCheckpoints id)))

/-- A transaction that is not committed is dropped. -/
def setCheckpoint (id : String) (n : Nat) : SyncM P Unit :=
  call env (fun tx _ db =>
    match tx.begin,put .stageCheckpoints id n tx.faults db 0,tx.commit with
    | some e,_,_ => (.error (providerError (.database e)),db)
    | none,(.error fault,_),_ => (.error (providerError fault.error),db)
    | none,(.ok _,_),some e => (.error (providerError (.database e)),db)
    | none,(.ok _,db',_),none => (.ok (),db'))

def setClass (hash : Felt) (artifact : P.ContractClass) : SyncM P Unit :=
  call env (fun tx _ db =>
    match update tx (put .classes hash artifact) db with
    | (.error e,db') => (.error (providerError (.database e)),db')
    | (.ok (.error fault),db') => (.error (providerError fault.error),db')
    | (.ok (.ok ()),db') => (.ok (),db'))

def insertBlock (b : BlockInput P) : SyncM P Unit :=
  call env (fun tx _ db =>
    let r := insertBlockWithStatesAndReceipts C tx b db
    (r.1.mapError providerError,r.2))

/-- The start of every batch of a sequence of the given length. -/
def batchStarts (size length : Nat) : List Nat :=
  (List.range ((length+size-1)/size)).map (fun i => i*size)

/-- The blocks of the range in batches; the requests of a batch are retried together. -/
def downloadBlocks (batchSize lo hi : Nat) :
    SyncM P (List (StateUpdateWithBlock G.Transaction G.Receipt)) := do
  if batchSize=0 then
    throw (.failed (.panic "assertion failed: step != 0"))
  else
    let batches ← (batchStarts batchSize (hi+1-lo)).mapM (fun start => do
      let batchStart := lo+start
      let batchEnd := min (batchStart+batchSize-1) hi
      call env (fun _ client => fetch client
        (.ok ((List.range' batchStart (batchEnd+1-batchStart)).map G.getStateUpdateWithBlock))))
    return batches.flatten

def Blocks.execute (batchSize : Nat) (input : StageExecutionInput) : SyncM P Unit := do
  let blocks ← downloadBlocks G env batchSize input.fromBlock input.toBlock
  blocks.forM (fun data => do
    let block ← pureStep (extractBlockData G data)
    insertBlock C env block)

def downloadClasses (batchSize : Nat)
    (hashes : List Felt) (block : Nat) : SyncM P (List P.ContractClass) := do
  if batchSize=0 then
    throw (.failed (.panic "chunk size must be non-zero"))
  else
    let batches ← (batchStarts batchSize hashes.length).mapM (fun start =>
      call env (fun _ client => fetch client (((hashes.drop start).take batchSize).mapM
        (fun hash => (G.getClass hash block).mapError (fun e => .err (.conversion e))))))
    return batches.flatten

/-- All the artifacts are downloaded before the first one is stored. -/
def Classes.execute (batchSize : Nat) (input : StageExecutionInput) : SyncM P Unit := do
  let classes ← (List.range' input.fromBlock (input.toBlock+1-input.fromBlock)).mapM
    (fun block => do
      let found ← call env (fun tx _ => view tx (fun db => declaredClasses C db (.num block)))
      match found with
      | none => pureStep (.error (.err (.missingBlockDeclaredClasses block)))
      | some declared =>
        let classHashes := declared.rows.map Prod.fst
        let classArtifacts ← downloadClasses G env batchSize classHashes block
        return classHashes.zip classArtifacts)
  classes.flatten.forM (fun r => setClass env r.1 r.2)

/-- Blocks with one transaction that write the same slot and nonce; block 1 declares a class. -/
def sampleGateway : SequencerGateway unitPayloads where
  Transaction := Felt
  Receipt := Unit
  getStateUpdateWithBlock n :=
    { stateDiff :=
        { storageDiffs := SortedMap.ofList [(1,[⟨5,Fin.ofNat feltPrime n⟩])]
          declaredClasses := if n=1 then [⟨50,51⟩] else []
          nonces := SortedMap.ofList [(1,Fin.ofNat feltPrime n)] }
      block :=
        { blockHash := some (Fin.ofNat feltPrime (100+n))
          blockNumber := some n
          parentBlockHash := Fin.ofNat feltPrime (99+n)
          timestamp := n
          status := .acceptedOnL2
          l1DaMode := .calldata
          l1GasPrice := {}
          l1DataGasPrice := {}
          transactions := [Fin.ofNat feltPrime (10+n)]
          transactionReceipts := [()] } }
  getClass _ _ := .ok ()
  toTx hash := .ok ⟨hash,()⟩
  toReceipt _ _ := .ok ()

end Sync
end Katana
