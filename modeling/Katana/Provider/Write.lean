import Katana.Db.Tx

/-! Block insertion: insert_block_with_states_and_receipts of providers/db/mod.rs,
one definition per part of the closure. -/
namespace Katana
open DbTx
variable {P : Payloads}

structure BlockInput (P : Payloads) where
  block : SealedBlockWithStatus P
  states : StateUpdatesWithClasses P
  receipts : List P.Receipt
  executions : List P.ExecutionInfo

namespace BlockInput

variable (b : BlockInput P)

def number : Nat := b.block.block.header.number
def hash : Felt := b.block.block.hash
def body : List (TxWithHash P) := b.block.block.body
def updates : StateUpdates := b.states.stateUpdates

end BlockInput

def storeBlock (b : BlockInput P) (txOffset : Nat) : TxM P Unit := do
  put .blockHashes b.number b.hash
  put .blockNumbers b.hash b.number
  put .blockStatusses b.number b.block.status
  put .headers b.number (VersionedHeader.ofHeader b.block.block.header)
  put .blockBodyIndices b.number ⟨txOffset,b.body.length⟩

def storeTransaction (blockNumber txNumber : Nat) (tx : TxWithHash P) : TxM P Unit := do
  put .txHashes txNumber tx.hash
  put .txNumbers tx.hash txNumber
  put .txBlocks txNumber blockNumber
  put .transactions txNumber (VersionedTx.ofTx tx.transaction)

def storeTransactions (blockNumber txOffset : Nat) (txs : List (TxWithHash P)) : TxM P Unit :=
  txs.zipIdx.forM (fun r => storeTransaction blockNumber (txOffset+r.2) r.1)

def storeReceipts (txOffset : Nat) (receipts : List P.Receipt) : TxM P Unit :=
  receipts.zipIdx.forM (fun r => put .receipts (txOffset+r.2) r.1)

def storeExecutions (txOffset : Nat) (executions : List P.ExecutionInfo) : TxM P Unit :=
  executions.zipIdx.forM (fun r => put .txTraces (txOffset+r.2) r.1)

variable (C : Codecs) (blockNumber : Nat)

def storeDeclaredClasses (declared : SortedMap Felt Felt) : TxM P Unit :=
  declared.rows.forM (fun r => do
    put .compiledClassHashes r.1 r.2
    put .classDeclarationBlock r.1 blockNumber
    putDup .classDeclarations blockNumber (C.felt.encode r.1))

def storeDeprecatedClasses (deprecated : SortedSet Felt) : TxM P Unit :=
  deprecated.elems.forM (fun h => do
    put .classDeclarationBlock h blockNumber
    putDup .classDeclarations blockNumber (C.felt.encode h))

def storeClasses (classes : SortedMap Felt P.ContractClass) : TxM P Unit :=
  classes.rows.forM (fun r => put .classes r.1 r.2)

def deleteCurrentEntry (addr key : Felt) : TxM P Unit := do
  let current ← seekByKeySubkey .contractStorage addr key.toBytesBe (StorageEntry.decompress C)
  match current with
  | some (raw,e) => if e.key=key then deleteCurrent .contractStorage addr raw else pure ()
  | none => pure ()

/-- The current entry is replaced, the block joins the change list of the key and the
entry joins the history. -/
def storeStorageEntry (addr : Felt) (entry : StorageEntry) : TxM P Unit := do
  deleteCurrentEntry C addr entry.key
  let list ← get .storageChangeSet (toLex (addr,entry.key))
  put .storageChangeSet (toLex (addr,entry.key)) (BlockList.extend list blockNumber)
  putDup .contractStorage addr (entry.compress C)
  putDup .storageChangeHistory blockNumber
    (ContractStorageEntry.compress C ⟨⟨addr,entry.key⟩,entry.value⟩)

def storeStorageUpdates (storage : SortedMap Felt (SortedMap Felt Felt)) : TxM P Unit := do
  cursorDupMut
  storage.rows.forM (fun r =>
    r.2.rows.forM (fun e => storeStorageEntry C blockNumber r.1 ⟨e.1,e.2⟩))

/-- A missing contract record is filled with defaults. -/
def GenericContractInfo.withClass (info : Option GenericContractInfo) (classHash : Felt) :
    GenericContractInfo :=
  match info with
  | some info => { info with classHash := classHash }
  | none => { classHash := classHash }

def GenericContractInfo.withNonce (info : Option GenericContractInfo) (nonce : Felt) :
    GenericContractInfo :=
  match info with
  | some info => { info with nonce := nonce }
  | none => { nonce := nonce }

def ContractInfoChangeList.withClassChange (changeSet : Option ContractInfoChangeList)
    (blockNumber : Nat) : ContractInfoChangeList :=
  match changeSet with
  | some cs => { cs with classChangeList := SortedSet.insert blockNumber cs.classChangeList }
  | none => { classChangeList := BlockList.ofOne blockNumber }

def ContractInfoChangeList.withNonceChange (changeSet : Option ContractInfoChangeList)
    (blockNumber : Nat) : ContractInfoChangeList :=
  match changeSet with
  | some cs => { cs with nonceChangeList := SortedSet.insert blockNumber cs.nonceChangeList }
  | none => { nonceChangeList := BlockList.ofOne blockNumber }

def storeDeployedContract (addr classHash : Felt) : TxM P Unit := do
  let info ← get .contractInfo addr
  let changeSet ← get .contractInfoChangeSet addr
  put .contractInfo addr (GenericContractInfo.withClass info classHash)
  putDup .classChangeHistory blockNumber (ContractClassChange.compress C ⟨addr,classHash⟩)
  put .contractInfoChangeSet addr (ContractInfoChangeList.withClassChange changeSet blockNumber)

def storeNonceUpdate (addr nonce : Felt) : TxM P Unit := do
  let info ← get .contractInfo addr
  let changeSet ← get .contractInfoChangeSet addr
  put .contractInfo addr (GenericContractInfo.withNonce info nonce)
  putDup .nonceChangeHistory blockNumber (ContractNonceChange.compress C ⟨addr,nonce⟩)
  put .contractInfoChangeSet addr (ContractInfoChangeList.withNonceChange changeSet blockNumber)

def storeDeployedContracts (deployed : SortedMap Felt Felt) : TxM P Unit :=
  deployed.rows.forM (fun r => storeDeployedContract C blockNumber r.1 r.2)

def storeNonceUpdates (nonces : SortedMap Felt Felt) : TxM P Unit :=
  nonces.rows.forM (fun r => storeNonceUpdate C blockNumber r.1 r.2)

def storeBlockAndClasses (b : BlockInput P) (txOffset : Nat) : TxM P Unit := do
  storeBlock b txOffset
  storeTransactions b.number txOffset b.body
  storeReceipts txOffset b.receipts
  storeExecutions txOffset b.executions
  storeDeclaredClasses C b.number b.updates.declaredClasses
  storeDeprecatedClasses C b.number b.updates.deprecatedDeclaredClasses
  storeClasses b.states.classes

/-- The closure of the insertion. Replaced classes are not written. -/
def insertBlockTx (b : BlockInput P) : TxM P Unit := do
  let txOffset ← entries .transactions
  storeBlockAndClasses C b txOffset
  storeStorageUpdates C b.number b.updates.storageUpdates
  storeDeployedContracts C b.number b.updates.deployedContracts
  storeNonceUpdates C b.number b.updates.nonceUpdates

def insertBlockWithStatesAndReceipts (env : TxEnv) (b : BlockInput P) (db : Db P) :
    Except ProviderError Unit × Db P :=
  match update env (insertBlockTx C b) db with
  | (.error e,db') => (.error (.database e),db')
  | (.ok (.error f),db') => (.error f.error,db')
  | (.ok (.ok ()),db') => (.ok (),db')

/-- The database after inserting the blocks one by one, nothing failing. -/
def insertBlocks (blocks : List (BlockInput P)) : Db P :=
  blocks.foldl (fun db b => (insertBlockWithStatesAndReceipts C {} b db).2) Db.empty

def stateBlock (number : Nat) (hash : Felt) (updates : StateUpdates) : BlockInput unitPayloads where
  block := ⟨⟨hash,{ (default : Header) with number := number },[]⟩,.acceptedOnL2⟩
  states := ⟨updates,∅⟩
  receipts := []
  executions := []

end Katana
