import Katana.Provider.State
import Katana.Trie.Bonsai
import Katana.Trie.Snapshot

/-! The trie writers of providers/db/trie.rs and the tries of katana-trie they go through.
The calls into a trie are unwrapped, so a failed operation panics; only latest() makes the
closure return an error. -/
namespace Katana
open DbTx Panicking
variable {P : Payloads}

/-- The hash functions of starknet-types-core. -/
structure Hashes where
  pedersen : Felt → Felt → Felt
  poseidon : Felt → Felt → Felt
  poseidonArray : List Felt → Felt

def ascii (s : String) : Bytes := s.toList.map (fun c => Fin.ofNat 256 c.toNat)

/-- The cairo short string of a text of at most 31 characters. -/
def shortString (s : String) : Felt := Felt.fromBytesBeSlice (ascii s)

def contractClassLeafV0 : Felt := shortString "CONTRACT_CLASS_LEAF_V0"

def computeClassesTrieValue (H : Hashes) (compiledClassHash : Felt) : Felt :=
  H.poseidon contractClassLeafV0 compiledClassHash

def computeContractStateHash (H : Hashes) (classHash storageRoot nonce : Felt) : Felt :=
  H.pedersen (H.pedersen (H.pedersen classHash storageRoot) nonce) 0

def bonsaiIdentifier (t : TrieTable) (address : Felt) : Bytes :=
  match t with
  | .classes => ascii "classes"
  | .contracts => ascii "contracts"
  | .storages => address.toBytesBe

@[simp] theorem bonsaiIdentifier_storages (a : Felt) :
    bonsaiIdentifier .storages a=a.toBytesBe := rfl

abbrev TrieM (P : Payloads) (α : Type) := Panicking TxFault (Db P) α

def trieRows (t : TrieTable) (db : Db P) : TrieRows := fun k => db.get (.trie t) k.encode

/-- TrieDbMut::insert and TrieDbMut::remove: the old value is read first. -/
def writeRow (t : TrieTable) (w : TrieWrite) : TxM P Unit := do
  let _ ← get (.trie t) w.1.encode
  match w.2 with
  | some v => put (.trie t) w.1.encode v
  | none => write (Db.delete (.trie t) w.1.encode)

/-- The write cache of TrieDbMut after the writes. -/
def writeCache (writes : List TrieWrite) : SortedMap TrieDatabaseKey Bytes :=
  writes.foldl (fun cache w => match w.2 with
    | some v => cache.put w.1 v
    | none => cache) ∅

def snapshotRow (C : Codecs) (t : TrieTable) (block : Nat) (e : TrieDatabaseKey × Bytes) :
    TrieM P Unit := do
  let set ← orPanic "failed to get trie change set" (get (.trieChangeSet t) e.1.encode)
  orPanic "failed to put trie change set"
    (put (.trieChangeSet t) e.1.encode (SortedSet.insert block (set.getD ∅)))
  orPanic "failed to put trie history entry"
    (putDup (.trieHistory t) block (TrieHistoryEntry.compress C ⟨e.1,e.2⟩))

/-- The insertions of a trie and its commit: every insertion loads nodes, the commit
writes rows and takes the snapshot. -/
def commitTrie (B : Bonsai) (C : Codecs) (t : TrieTable) (id : Bytes) (block : Nat)
    (entries : List (TriePath × Felt)) : TrieM P Unit := do
  entries.forM (fun _ => orPanic "called Result::unwrap() on an Err value" (read (fun _ => .ok ())))
  let writes ← orPanic "failed to commit trie"
    (read (fun db => .ok (B.commit (trieRows t db) id entries)))
  writes.forM (fun w => orPanic "failed to commit trie" (writeRow t w))
  (writeCache writes).rows.forM (snapshotRow C t block)

def rootTrie (B : Bonsai) (t : TrieTable) (id : Bytes) : TrieM P Felt :=
  orPanic "failed to get trie root" (read (fun db => .ok (B.rootHash (trieRows t db) id)))

/-- Database::update. A panic drops the transaction, an error of the closure does not. -/
def updateTrie {α : Type} (env : TxEnv) (m : TrieM P α) : CallM P ProviderError α := fun db =>
  match env.begin with
  | some e => .error (.err (.database e)) db
  | none =>
    match m.run env.faults db 0 with
    | (.ok (.error message),_,_) => .error (.panic message) db
    | (.ok (.ok a),db',_) =>
      match env.commit with
      | some e => .error (.err (.database e)) db
      | none => .ok a db'
    | (.error f,db',_) =>
      match env.commit with
      | some e => .error (.err (.database e)) db
      | none => .error (.err f.error) (if f.aborts then db else db')

section Writers
variable (H : Hashes) (B : TrieTable → Bonsai) (C : Codecs)

def insertClassesTx (block : Nat) (updates : SortedMap Felt Felt) : TrieM P Felt := do
  commitTrie (B .classes) C .classes (bonsaiIdentifier .classes 0) block
    (updates.rows.map (fun r => (triePath r.1,computeClassesTrieValue H r.2)))
  rootTrie (B .classes) .classes (bonsaiIdentifier .classes 0)

def trieInsertDeclaredClasses (env : TxEnv) (block : Nat) (updates : SortedMap Felt Felt) :
    CallM P ProviderError Felt :=
  updateTrie env (insertClassesTx H B C block updates)

structure ContractLeaf where
  classHash : Option Felt := none
  storageRoot : Option Felt := none
  nonce : Option Felt := none
  deriving DecidableEq, Repr

/-- The contracts that an update touches, with the new class hash and nonce. -/
def contractLeafs (u : StateUpdates) : SortedMap Felt ContractLeaf :=
  let leafs : SortedMap Felt ContractLeaf := SortedMap.merge (fun _ _ => {}) ∅ u.storageUpdates
  let leafs := leafs.merge (fun leaf nonce => { leaf.getD {} with nonce := some nonce })
    u.nonceUpdates
  let leafs := leafs.merge (fun leaf hash => { leaf.getD {} with classHash := some hash })
    u.deployedContracts
  leafs.merge (fun leaf hash => { leaf.getD {} with classHash := some hash }) u.replacedClasses

/-- A read transaction of its own: it sees the committed database. -/
def openLatest (committed : Db P) : TrieM P (StateProvider P) :=
  ExceptT.lift (fun F s n => match F n with
    | some f => (.error { f with aborts := false },s,n+1)
    | none => (.ok (.latest committed),s,n+1))

/-- Both fields are read, also when the update has them. -/
def contractStateLeafHash (provider : StateProvider P) (address : Felt) (leaf : ContractLeaf) :
    TrieM P Felt := do
  let nonce ← orPanic "called Result::unwrap() on an Err value"
    (read (fun _ => provider.nonce C address))
  let classHash ← orPanic "called Result::unwrap() on an Err value"
    (read (fun _ => provider.classHashOfContract C address))
  match leaf.storageRoot with
  | none => throw "root need to set"
  | some storageRoot =>
    return computeContractStateHash H (leaf.classHash.getD (classHash.getD 0)) storageRoot
      (leaf.nonce.getD (nonce.getD 0))

def leafHash (committed : Db P) (r : Felt × ContractLeaf) : TrieM P (Felt × Felt) := do
  let storageRoot ← rootTrie (B .storages) .storages (bonsaiIdentifier .storages r.1)
  let latestState ← openLatest committed
  let hash ← contractStateLeafHash H C latestState r.1 { r.2 with storageRoot := some storageRoot }
  return (r.1,hash)

def insertContractsTx (block : Nat) (u : StateUpdates) (committed : Db P) : TrieM P Felt := do
  u.storageUpdates.rows.forM (fun r =>
    commitTrie (B .storages) C .storages (bonsaiIdentifier .storages r.1) block
      (TrieMap.entries r.2))
  let leafHashes ← (contractLeafs u).rows.mapM (leafHash H B C committed)
  commitTrie (B .contracts) C .contracts (bonsaiIdentifier .contracts 0) block
    (leafHashes.map (fun r => (triePath r.1,r.2)))
  rootTrie (B .contracts) .contracts (bonsaiIdentifier .contracts 0)

def trieInsertContractUpdates (env : TxEnv) (block : Nat) (u : StateUpdates) :
    CallM P ProviderError Felt :=
  fun db => updateTrie env (insertContractsTx H B C block u db) db

end Writers
end Katana
