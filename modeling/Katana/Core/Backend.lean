import Katana.Core.Block
import Katana.Service.Executor

/-! Mining a block (core/backend/mod.rs). The two tries and the block are written by three
calls of the provider, each with a transaction of its own. -/
namespace Katana
open Service (BlockProductionError ExecutionResult)
variable {P : Payloads}

section Calls
variable {ε δ α : Type}

def fallible (fault : Option ProviderError) (f : Db P → Except ProviderError α) :
    CallM P ProviderError α := fun db =>
  match fault with
  | some e => .error (.err e) db
  | none =>
    match f db with
    | .ok a => .ok a db
    | .error e => .error (.err e) db

def mapErr (f : ε → δ) (m : CallM P ε α) : CallM P δ α := fun db =>
  match m db with
  | .ok a db' => .ok a db'
  | .error (.err e) db' => .error (.err (f e)) db'
  | .error (.panic message) db' => .error (.panic message) db'

def expect (message : String) (m : CallM P ε α) : CallM P δ α := fun db =>
  match m db with
  | .ok a db' => .ok a db'
  | .error (.err _) db' => .error (.panic message) db'
  | .error (.panic message') db' => .error (.panic message') db'

def leftBy : EStateM.Result (Failure ε) (Db P) α → Db P
  | .ok _ db => db
  | .error _ db => db

def failed : EStateM.Result (Failure ε) (Db P) α → Bool
  | .ok _ _ => false
  | .error _ _ => true

theorem ok_of_not_failed {r : EStateM.Result (Failure ε) (Db P) α} (h : failed r=false) :
    ∃ a, r=.ok a (leftBy r) := by
  cases r with
  | ok a db => exact ⟨a,rfl⟩
  | error e db => cases h

section Ok
variable {β : Type} {m : CallM P ε α} {db db' : Db P} {a : α}

theorem bind_eq_ok {f : α → CallM P ε β} {b : β} {db'' : Db P}
    (h : (m>>=f) db=.ok b db'') : ∃ a db', m db=.ok a db' ∧ f a db'=.ok b db'' := by
  simp only [bind,EStateM.bind] at h
  cases hm : m db with
  | ok a db' =>
    rw [hm] at h
    exact ⟨a,db',rfl,h⟩
  | error e db' =>
    rw [hm] at h
    cases h

theorem fallible_ok {f : Db P → Except ProviderError α} (h : f db=.ok a) :
    fallible none f db=.ok a db := by
  simp only [fallible,h]

theorem mapErr_ok (h : m db=.ok a db') (f : ε → δ) : mapErr f m db=.ok a db' := by
  simp only [mapErr,h]

theorem expect_ok (h : m db=.ok a db') (message : String) :
    (expect message m : CallM P δ α) db=.ok a db' := by
  simp only [expect,h]

end Ok
end Calls

structure Event where
  fromAddress : Felt
  keys : List Felt
  data : List Felt
  deriving DecidableEq, Repr

structure ReceiptWithTxHash (P : Payloads) where
  txHash : Felt
  receipt : P.Receipt

/-- The libraries below the backend, and what it reads of receipts and traces. -/
structure Backend (P : Payloads) where
  hashes : Hashes
  tries : TrieTable → Bonsai
  codecs : Codecs
  computeMerkleRoot : List Felt → Felt
  Trace : Type
  typedExecutionInfo : P.Receipt → Trace → P.ExecutionInfo
  events : P.Receipt → List Event
  receiptHash : ReceiptWithTxHash P → Felt

structure ExecutionStats where
  l1GasUsed : Nat := 0
  cairoStepsUsed : Nat := 0
  deriving DecidableEq, Repr

structure ExecutionOutput (K : Backend P) where
  stats : ExecutionStats := {}
  states : StateUpdatesWithClasses P
  transactions : List (TxWithHash P × ExecutionResult (P.Receipt × K.Trace)) := []

structure MinedBlockOutcome where
  blockNumber : Nat
  txs : List Felt
  stats : ExecutionStats
  deriving DecidableEq, Repr

/-- Only successful transactions go into the block. -/
def ExecutionOutput.successes {K : Backend P} (output : ExecutionOutput K) :
    List (TxWithHash P × P.Receipt × K.Trace) :=
  output.transactions.filterMap (fun r => match r.2 with
    | .success res => some (r.1,res)
    | .failed _ => none)

structure TrieWriter (P : Payloads) where
  trieInsertDeclaredClasses : Nat → SortedMap Felt Felt → CallM P ProviderError Felt
  trieInsertContractUpdates : Nat → StateUpdates → CallM P ProviderError Felt

structure UncommittedBlock (P : Payloads) where
  header : PartialHeader
  transactions : List (TxWithHash P)
  receipts : List (ReceiptWithTxHash P)
  stateUpdates : StateUpdates

/-- What fails while a block is mined. -/
structure MineEnv where
  latestHash : Option ProviderError := none
  blockHash : Option ProviderError := none
  classes : TxEnv := {}
  contracts : TxEnv := {}
  insert : TxEnv := {}

def storedBlockHashBuffer : Nat := 10

/-- The storage of contract 0x1 gets the hash of an older block. -/
def StateUpdates.withBlockHash (u : StateUpdates) (number : Nat) (hash : Felt) : StateUpdates :=
  let storages := (u.storageUpdates.get 1).getD ∅
  { u with storageUpdates := u.storageUpdates.put 1 (storages.put (Felt.ofNat number) hash) }

def updateBlockHashRegistryContract (fault : Option ProviderError) (u : StateUpdates)
    (blockNumber : Nat) : CallM P ProviderError StateUpdates :=
  if storedBlockHashBuffer≤blockNumber then do
    let number := blockNumber-storedBlockHashBuffer
    let blockHash ← fallible fault (fun db => blockHashByNum db number)
    return u.withBlockHash number (blockHash.getD 0)
  else return u

namespace Backend
variable (K : Backend P)

def provider (classes contracts : TxEnv) : TrieWriter P where
  trieInsertDeclaredClasses := Katana.trieInsertDeclaredClasses K.hashes K.tries K.codecs classes
  trieInsertContractUpdates := Katana.trieInsertContractUpdates K.hashes K.tries K.codecs contracts

def stateRoot (contractTrieRoot classTrieRoot : Felt) : Felt :=
  K.hashes.poseidonArray [shortString "STARKNET_STATE_V0",contractTrieRoot,classTrieRoot]

variable (b : UncommittedBlock P)

def computeNewStateRoot {ε : Type} (w : TrieWriter P) (b : UncommittedBlock P) :
    CallM P ε Felt := do
  let classTrieRoot ← expect "failed to update class trie"
    (w.trieInsertDeclaredClasses b.header.number b.stateUpdates.declaredClasses)
  let contractTrieRoot ← expect "failed to update contract trie"
    (w.trieInsertContractUpdates b.header.number b.stateUpdates)
  return K.stateRoot contractTrieRoot classTrieRoot

def computeTransactionCommitment : Felt :=
  K.computeMerkleRoot (b.transactions.map (fun tx => tx.hash))

def computeReceiptCommitment : Felt :=
  K.computeMerkleRoot (b.receipts.map K.receiptHash)

def eventHash (tx : Felt) (e : Event) : Felt :=
  K.hashes.poseidonArray [tx,e.fromAddress,K.hashes.poseidonArray e.keys,
    K.hashes.poseidonArray e.data]

def computeEventCommitment : Felt :=
  K.computeMerkleRoot (b.receipts.flatMap (fun r =>
    (K.events r.receipt).map (K.eventHash r.txHash)))

/-- The block under a state root: the commitments, the counts and the hash. -/
def sealBlock (root : Felt) : SealedBlock P :=
  let header : Header := {
    stateRoot := root
    parentHash := b.header.parentHash
    eventsCount := (b.receipts.map (fun r => (K.events r.receipt).length%2^32)).sum%2^32
    stateDiffLength := b.stateUpdates.len%2^32
    transactionCount := b.transactions.length%2^32
    eventsCommitment := K.computeEventCommitment b
    receiptsCommitment := K.computeReceiptCommitment b
    stateDiffCommitment := computeStateDiffHash K.hashes b.stateUpdates
    transactionsCommitment := K.computeTransactionCommitment b
    number := b.header.number
    timestamp := b.header.timestamp
    l1DaMode := b.header.l1DaMode
    l2GasPrices := b.header.l2GasPrices
    l1GasPrices := b.header.l1GasPrices
    l1DataGasPrices := b.header.l1DataGasPrices
    sequencerAddress := b.header.sequencerAddress
    protocolVersion := b.header.protocolVersion }
  ⟨header.computeHash K.hashes,header,b.transactions⟩

def commit {ε : Type} (w : TrieWriter P) (b : UncommittedBlock P) : CallM P ε (SealedBlock P) := do
  let root ← K.computeNewStateRoot w b
  return K.sealBlock b root

def commitBlock (env : MineEnv) (b : UncommittedBlock P) :
    CallM P BlockProductionError (SealedBlock P × StateUpdates) := do
  let u ← mapErr .provider
    (updateBlockHashRegistryContract env.blockHash b.stateUpdates b.header.number)
  let block ← K.commit (K.provider env.classes env.contracts) { b with stateUpdates := u }
  return (block,u)

def storeBlock {ε : Type} (f : ProviderError → ε) (env : TxEnv) (b : BlockInput P) :
    CallM P ε Unit := fun db =>
  match insertBlockWithStatesAndReceipts K.codecs env b db with
  | (.ok (),db') => .ok () db'
  | (.error e,db') => .error (.err (f e)) db'

def partialHeader (blockEnv : BlockEnv) (parentHash : Felt) : PartialHeader where
  parentHash := parentHash
  number := blockEnv.number
  timestamp := blockEnv.timestamp
  sequencerAddress := blockEnv.sequencerAddress
  l1GasPrices := blockEnv.l1GasPrices
  l1DataGasPrices := blockEnv.l1DataGasPrices
  l2GasPrices := blockEnv.l2GasPrices
  l1DaMode := .calldata
  protocolVersion := currentStarknetVersion

/-- The block before the state root is known. -/
def uncommitted (header : PartialHeader) (output : ExecutionOutput K) : UncommittedBlock P where
  header := header
  transactions := output.successes.map (fun r => r.1)
  receipts := output.successes.map (fun r => ⟨r.1.hash,r.2.1⟩)
  stateUpdates := output.states.stateUpdates

def blockInput (block : SealedBlock P) (status : FinalityStatus) (u : StateUpdates)
    (output : ExecutionOutput K) : BlockInput P where
  block := ⟨block,status⟩
  states := { output.states with stateUpdates := u }
  receipts := output.successes.map (fun r => r.2.1)
  executions := output.successes.map (fun r => K.typedExecutionInfo r.2.1 r.2.2)

/-- do_mine_block up to the block that it stores. -/
def produceBlock (env : MineEnv) (blockEnv : BlockEnv) (output : ExecutionOutput K) :
    CallM P BlockProductionError (BlockInput P) := do
  let parentHash ← mapErr .provider (fallible env.latestHash latestHash)
  let (block,u) ← K.commitBlock env (K.uncommitted (partialHeader blockEnv parentHash) output)
  return K.blockInput block .acceptedOnL2 u output

def doMineBlock (env : MineEnv) (blockEnv : BlockEnv) (output : ExecutionOutput K) :
    CallM P BlockProductionError MinedBlockOutcome := do
  let b ← K.produceBlock env blockEnv output
  K.storeBlock .provider env.insert b
  return ⟨b.number,b.body.map (fun tx => tx.hash),output.stats⟩

end Backend
end Katana
