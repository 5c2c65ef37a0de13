import Katana.Core.Atomic
import Katana.Core.Past
import Katana.Rpc.Api

/-! Storage proofs (starknet/mod.rs get_proofs): the roots of the tries at a block and the
parts that the leaf of a contract is hashed from. -/
namespace Katana.Rpc
open ChainState
variable {P : Payloads}

/-- Proofs are made by the library from the rows it reads. -/
structure ProofLibrary where
  MultiProof : Type
  empty : MultiProof
  multiproof : (TrieDatabaseKey → Except TrieError (Option Bytes)) → Bytes → List TriePath →
    Except TrieError MultiProof

structure ContractLeafData where
  storageRoot : Felt
  classHash : Felt
  nonce : Felt
  deriving DecidableEq, Repr

structure GlobalRoots where
  blockHash : Felt
  classesTreeRoot : Felt
  contractsTreeRoot : Felt
  deriving DecidableEq, Repr

structure ContractsProof (L : ProofLibrary) where
  nodes : L.MultiProof := L.empty
  contractLeavesData : List ContractLeafData := []

structure GetStorageProofResponse (L : ProofLibrary) where
  globalRoots : GlobalRoots
  classesProof : L.MultiProof
  contractsProof : ContractsProof L
  contractsStorageProofs : List L.MultiProof

section Reads
variable (K : Backend P) (L : ProofLibrary)

def trieGet (C : Codecs) (s : TrieTable) (k : TrieDatabaseKey) :
    StateProvider P → Except TrieError (Option Bytes)
  | .latest db => .ok (trieRows s db k)
  | .historical db blockNumber => snapshotGet C s db blockNumber k

def orPanic {α : Type} (message : String) (r : Except TrieError α) : RpcM α :=
  match r with
  | .ok a => .ok a
  | .error (.panic message') => .error (.panic message')
  | .error (.codec _) => .error (.panic message)

variable (state : StateProvider P)

def trieRoot (s : TrieTable) (id : Bytes) (state : StateProvider P) : RpcM Felt := do
  let node ← orPanic "failed to get trie root"
    (trieGet K.codecs s ((K.tries s).rootKey id) state)
  return (node.map (K.tries s).nodeHash).getD 0

def classesRoot : RpcM Felt :=
  trieRoot K .classes (bonsaiIdentifier .classes 0) state

def contractsRoot : RpcM Felt :=
  trieRoot K .contracts (bonsaiIdentifier .contracts 0) state

def storageRoot (address : Felt) (state : StateProvider P) : RpcM (Option Felt) := do
  let root ← trieRoot K .storages (bonsaiIdentifier .storages address) state
  return some root

def trieMultiproof (s : TrieTable) (id : Bytes) (keys : List Felt) (state : StateProvider P) :
    RpcM L.MultiProof :=
  orPanic "failed to get multiproof"
    (L.multiproof (fun k => trieGet K.codecs s k state) id (keys.map triePath))

def classMultiproof (classes : List Felt) (state : StateProvider P) : RpcM L.MultiProof :=
  trieMultiproof K L .classes (bonsaiIdentifier .classes 0) classes state

def contractMultiproof (addresses : List Felt) (state : StateProvider P) : RpcM L.MultiProof :=
  trieMultiproof K L .contracts (bonsaiIdentifier .contracts 0) addresses state

def storageMultiproof (address : Felt) (storageKeys : List Felt) (state : StateProvider P) :
    RpcM L.MultiProof :=
  trieMultiproof K L .storages (bonsaiIdentifier .storages address) storageKeys state

end Reads

structure ContractStorageKeys where
  address : Felt
  keys : List Felt
  deriving DecidableEq, Repr

/-- The library makes the proofs of a request from the rows that the state answers. -/
structure ProofLibrary.Succeeds (L : ProofLibrary) (K : Backend P) (state : StateProvider P)
    (classHashes : Option (List Felt)) (addresses : List Felt)
    (keys : Option (List ContractStorageKeys)) : Prop where
  classes : ∀ classes∈classHashes, ∃ p, L.multiproof (fun k => trieGet K.codecs .classes k state)
    (bonsaiIdentifier .classes 0) (classes.map triePath)=.ok p
  contracts : ∃ p, L.multiproof (fun k => trieGet K.codecs .contracts k state)
    (bonsaiIdentifier .contracts 0) (addresses.map triePath)=.ok p
  storages : ∀ requests∈keys, ∀ r∈requests, ∃ p,
    L.multiproof (fun k => trieGet K.codecs .storages k state)
      (bonsaiIdentifier .storages r.address) (r.keys.map triePath)=.ok p

section Proofs
variable (K : Backend P) (L : ProofLibrary) (maxProofKeys : Option Nat) (db : Db P)

def stateAt (blockNum : Nat) : RpcM (StateProvider P) := do
  let state ← ofProvider (historical db (.num blockNum))
  okOrNotFound .blockNotFound state

variable (state : StateProvider P)

def contractLeafData (address : Felt) : RpcM ContractLeafData := do
  let nonce ← ofProvider (state.nonce K.codecs address)
  let classHash ← ofProvider (state.classHashOfContract K.codecs address)
  let root ← storageRoot K address state
  return ⟨root.getD 0,classHash.getD 0,nonce.getD 0⟩

def totalKeys (classHashes contractAddresses : Option (List Felt))
    (contractsStorageKeys : Option (List ContractStorageKeys)) : Nat :=
  (classHashes.map List.length).getD 0+(contractAddresses.map List.length).getD 0+
    (contractsStorageKeys.map List.length).getD 0

def checkProofKeys (total : Nat) : RpcM Unit :=
  match maxProofKeys with
  | some limit => if limit<total then .error (.err (.proofLimitExceeded limit total)) else .ok ()
  | none => .ok ()

def classesProof : Option (List Felt) → RpcM L.MultiProof
  | some classes => classMultiproof K L classes state
  | none => return L.empty

def contractsProof : Option (List Felt) → RpcM (ContractsProof L)
  | some addresses => do
    let nodes ← contractMultiproof K L addresses state
    let leaves ← addresses.mapM (contractLeafData K state)
    return ⟨nodes,leaves⟩
  | none => return {}

def contractsStorageProofs : Option (List ContractStorageKeys) → RpcM (List L.MultiProof)
  | some keys => keys.mapM (fun r => storageMultiproof K L r.address r.keys state)
  | none => return []

def getProofs (blockId : BlockIdOrTag) (classHashes contractAddresses : Option (List Felt))
    (contractsStorageKeys : Option (List ContractStorageKeys)) :
    RpcM (GetStorageProofResponse L) := do
  let blockNum ← ofProvider (convertBlockId db blockId)
  let blockNum ← okOrNotFound .blockNotFound blockNum
  checkProofKeys maxProofKeys (totalKeys classHashes contractAddresses contractsStorageKeys)
  let state ← stateAt db blockNum
  let blockHash ← ofProvider (blockHashByNum db blockNum)
  let blockHash ← ofProvider (okOr (.missingBlockHeader blockNum) blockHash)
  let classes ← classesProof K L state classHashes
  let contracts ← contractsProof K L state contractAddresses
  let storages ← contractsStorageProofs K L state contractsStorageKeys
  let classesTreeRoot ← classesRoot K state
  let contractsTreeRoot ← contractsRoot K state
  return ⟨⟨blockHash,classesTreeRoot,contractsTreeRoot⟩,classes,contracts,storages⟩

end Proofs

section Chain
open Backend
variable {K : Backend P} {L : ProofLibrary} {pre post : List (BlockInput P)} {b : BlockInput P}

theorem pinned_info (hinc : Increasing (pre++b::post)) (a : Felt) : ∃ nonce classHash,
    (pinned (K.chain (pre++b::post)) b post).nonce K.codecs a=.ok nonce ∧
    (pinned (K.chain (pre++b::post)) b post).classHashOfContract K.codecs a=.ok classHash ∧
      (post=[] ∨ K.codecs.normalizeAddress a=a →
        nonce.getD 0=(((K.chain (pre++[b])).get .contractInfo a).map
          (fun info => info.nonce)).getD 0 ∧
        classHash.getD 0=(((K.chain (pre++[b])).get .contractInfo a).map
          (fun info => info.classHash)).getD 0) := by
  cases post with
  | nil => exact ⟨_,_,rfl,rfl,fun _ => ⟨rfl,rfl⟩⟩
  | cons c rest =>
    have hrep := (chain_rep K hinc).contracts.indexed
    refine ⟨_,_,historical_nonce hrep b.number a,historical_class hrep b.number a,?_⟩
    intro hnorm
    have hnorm : K.codecs.normalizeAddress a=a := hnorm.resolve_left (by simp)
    rw [if_pos hnorm,if_pos hnorm,asOf_nonceLog hinc,asOf_classLog hinc,
      (chain_rep K hinc.upto).contracts.info,latest_nonceLog,latest_classLog,mergedInfo]
    cases lastNonceUpdate (pre++[b]) a <;> cases lastDeployedClass (pre++[b]) a <;>
      exact ⟨rfl,rfl⟩

/-- A block of the chain changes the storage, the nonce or the class of the contract. -/
def TouchedBy (blocks : List (BlockInput P)) (a : Felt) : Prop :=
  ∃ c∈blocks, c.updates.storageUpdates.get a≠none ∨ c.updates.nonceUpdates.get a≠none ∨
    c.updates.deployedContracts.get a≠none

theorem touched_iff (s : ChainState) (a : Felt) : s.touched.get a=some () ↔
    s.storage.get a≠none ∨ s.nonces.get a≠none ∨ s.classHashes.get a≠none := by
  rw [get_touched]
  cases s.storage.get a <;> cases s.nonces.get a <;> cases s.classHashes.get a <;> simp

theorem touched_apply_iff (s : ChainState) (u : StateUpdates) (a : Felt) :
    (s.apply u).touched.get a=some () ↔ s.touched.get a=some () ∨ u.storageUpdates.get a≠none ∨
      u.nonceUpdates.get a≠none ∨ u.deployedContracts.get a≠none := by
  have hmap : ∀ m u : SortedMap Felt Felt,
      (m.override u).get a≠none ↔ m.get a≠none ∨ u.get a≠none := by
    intro m u
    rw [SortedMap.get_override]
    cases u.get a <;> simp
  have hstorage : (s.apply u).storage.get a≠none ↔
      s.storage.get a≠none ∨ u.storageUpdates.get a≠none := by
    simp only [ChainState.apply,SortedMap.get_merge]
    cases u.storageUpdates.get a <;> simp
  rw [touched_iff,touched_iff,hstorage,ChainState.apply,hmap,hmap]
  tauto

theorem touched_of_touchedBy {blocks : List (BlockInput P)} {a : Felt}
    (h : TouchedBy blocks a) : (stateAfter blocks).touched.get a=some () := by
  induction blocks using List.reverseRecOn with
  | nil =>
    obtain ⟨c,hc,_⟩ := h
    cases hc
  | append_singleton blocks c ih =>
    rw [stateAfter_concat,touched_apply_iff]
    obtain ⟨d,hd,htouch⟩ := h
    rcases List.mem_append.mp hd with hd | hd
    · exact Or.inl (ih ⟨d,hd,htouch⟩)
    · exact Or.inr (List.mem_singleton.mp hd ▸ htouch)

theorem contracts_get_touched {blocks : List (BlockInput P)} {a : Felt}
    (hex : ∀ c∈blocks, Executed c.updates) (h : TouchedBy blocks a) :
    ((stateAfter blocks).tries K.hashes K.tries).contracts.get (triePath a)=
      nonzero ((stateAfter blocks).leaf K.hashes K.tries a) := by
  have hfits := (stateAfter_fits hex).leafs (H := K.hashes) (B := K.tries)
  have hget : ((stateAfter blocks).leafs K.hashes K.tries).get a=
      some ((stateAfter blocks).leaf K.hashes K.tries a) := by
    rw [leafs,SortedMap.get_mapValues,touched_of_touchedBy h]
    rfl
  have ha : a.val<2^251 := TrieMap.fits_iff.mp hfits a _ hget
  have hpath : pathKey (triePath a)=a := ((triePath_eq_iff ha (triePath a)).mp rfl).symm
  rw [ChainState.tries,TrieMap.stands_ofKeys hfits,hpath,hget]
  rfl

/-- The leaf data of a contract hashes to its leaf in the trie. -/
def HashesToLeaf (K : Backend P) (trie : TrieMap) (a : Felt) (leaf : ContractLeafData) : Prop :=
  trie.get (triePath a)=
    nonzero (computeContractStateHash K.hashes leaf.classHash leaf.storageRoot leaf.nonce)

instance (K : Backend P) (trie : TrieMap) (a : Felt) (leaf : ContractLeafData) :
    Decidable (HashesToLeaf K trie a leaf) := inferInstanceAs (Decidable (_=_))

section
variable (hroot : ∀ s, (K.tries s).RootStays) (hinc : Increasing (pre++b::post))
include hroot hinc

theorem trieGet_ok (s : TrieTable) : ∃ rows : TrieRows, ∀ k,
      trieGet K.codecs s k (pinned (K.chain (pre++b::post)) b post)=.ok (rows k) := by
  cases post with
  | nil => exact ⟨_,fun _ => rfl⟩
  | cons c rest =>
    obtain ⟨log,_,hget⟩ := snapshotGet_past hroot s hinc
    exact ⟨_,hget⟩

theorem trieRoot_ok (s : TrieTable) (id : Bytes) : ∃ root,
      trieRoot K s id (pinned (K.chain (pre++b::post)) b post)=.ok root := by
  obtain ⟨rows,hrows⟩ := trieGet_ok hroot hinc s
  refine ⟨(K.tries s).rootHash rows id,?_⟩
  rw [trieRoot,hrows]
  rfl

theorem trieRoot_eq {s : TrieTable} {id : Bytes} (hid : id.length=idLength s)
    (hkept : post=[] ∨ K.RootKept s id (pre++[b])) :
    trieRoot K s id (pinned (K.chain (pre++b::post)) b post)=
      .ok ((K.tries s).rootHash (trieRows s (K.chain (pre++[b]))) id) := by
  cases post with
  | nil => rfl
  | cons c rest =>
    have hkept : K.RootKept s id (pre++[b]) := hkept.resolve_left (by simp)
    rw [trieRoot,pinned,trieGet,snapshotGet_root hroot s hinc hid hkept]
    rfl

theorem contractLeafData_ok (hex : ∀ c∈pre++[b], Executed c.updates) (a : Felt) :
    ∃ leaf, contractLeafData K (pinned (K.chain (pre++b::post)) b post) a=.ok leaf ∧
      (TouchedBy (pre++[b]) a →
        (post=[] ∨ K.codecs.normalizeAddress a=a ∧
          K.RootKept .storages (bonsaiIdentifier .storages a) (pre++[b])) →
        HashesToLeaf K ((stateAfter (pre++[b])).tries K.hashes K.tries).contracts a leaf) := by
  obtain ⟨nonce,classHash,hnonce,hclass,hinfo⟩ := pinned_info (K := K) hinc a
  obtain ⟨root,hstorage⟩ := trieRoot_ok hroot hinc .storages (bonsaiIdentifier .storages a)
  refine ⟨⟨root,classHash.getD 0,nonce.getD 0⟩,?_,?_⟩
  · simp only [contractLeafData,hnonce,hclass,storageRoot,hstorage,ofProvider]
    rfl
  · intro htouched hkept
    have hstate := chain_holds K hex
    obtain ⟨hnonce',hclass'⟩ := hinfo (hkept.imp_right And.left)
    have heq := trieRoot_eq hroot hinc (bonsaiIdentifier_length .storages a)
      (hkept.imp_right And.right)
    rw [hstorage,Bonsai.rootHash_eq (hstate.ready.tries.storages a),Except.ok.injEq] at heq
    rw [HashesToLeaf,contracts_get_touched hex htouched,ChainState.leaf,heq,hnonce',hclass',
      hstate.info,ChainState.info,mergedInfo]
    cases (stateAfter (pre++[b])).classHashes.get a <;>
      cases (stateAfter (pre++[b])).nonces.get a <;> rfl

theorem contractsProof_ok {nodes : L.MultiProof} {addresses : List Felt}
    (hnodes : contractMultiproof K L addresses (pinned (K.chain (pre++b::post)) b post)=.ok nodes)
    (hex : ∀ c∈pre++[b], Executed c.updates) :
    ∃ proof, contractsProof K L (pinned (K.chain (pre++b::post)) b post) (some addresses)=
        .ok proof ∧
      List.Forall₂ (fun a leaf => TouchedBy (pre++[b]) a →
        (post=[] ∨ K.codecs.normalizeAddress a=a ∧
          K.RootKept .storages (bonsaiIdentifier .storages a) (pre++[b])) →
        HashesToLeaf K ((stateAfter (pre++[b])).tries K.hashes K.tries).contracts a leaf)
        addresses proof.contractLeavesData := by
  obtain ⟨leaves,hleaves,hall⟩ := mapM_ok addresses
    (fun a _ => contractLeafData_ok hroot hinc hex a)
  refine ⟨⟨nodes,leaves⟩,?_,hall⟩
  simp only [contractsProof,hnodes,hleaves]
  rfl

end

section Multiproofs
variable {state : StateProvider P} {classHashes : Option (List Felt)} {addresses : List Felt}
  {keys : Option (List ContractStorageKeys)} (h : L.Succeeds K state classHashes addresses keys)
include h

theorem ProofLibrary.Succeeds.classesProof_ok :
    ∃ p, classesProof K L state classHashes=.ok p := by
  cases classHashes with
  | none => exact ⟨_,rfl⟩
  | some classes =>
    obtain ⟨p,hp⟩ := h.classes classes rfl
    exact ⟨p,by rw [classesProof,classMultiproof,trieMultiproof,hp,orPanic]⟩

theorem ProofLibrary.Succeeds.contractMultiproof_ok :
    ∃ p, contractMultiproof K L addresses state=.ok p := by
  obtain ⟨p,hp⟩ := h.contracts
  exact ⟨p,by rw [contractMultiproof,trieMultiproof,hp,orPanic]⟩

theorem ProofLibrary.Succeeds.contractsStorageProofs_ok :
    ∃ ps, contractsStorageProofs K L state keys=.ok ps := by
  cases keys with
  | none => exact ⟨_,rfl⟩
  | some keys =>
    have hproof : ∀ r∈keys, ∃ p, storageMultiproof K L r.address r.keys state=.ok p ∧ True := by
      intro r hr
      obtain ⟨p,hp⟩ := h.storages keys rfl r hr
      exact ⟨p,by rw [storageMultiproof,trieMultiproof,hp,orPanic],trivial⟩
    obtain ⟨ps,hps,_⟩ := mapM_ok keys hproof
    exact ⟨ps,hps⟩

end Multiproofs

theorem header_stateRoot {G : GenesisClasses P}
    {execute : Rollup.ChainSpec P → Except String (ExecutionOutput K)} {spec : ChainSpec P}
    (h : K.Reached G execute spec (pre++b::post)) (hex : ∀ c∈pre++[b], Executed c.updates) :
    b.header.stateRoot=K.stateRoot
      ((K.tries .contracts).rootHash (trieRows .contracts (K.chain (pre++[b])))
        (bonsaiIdentifier .contracts 0))
      ((K.tries .classes).rootHash (trieRows .classes (K.chain (pre++[b])))
        (bonsaiIdentifier .classes 0)) := by
  have hpre := chain_holds K (fun c hc => hex c (List.mem_append_left _ hc))
  have hstate := (hpre.ready.insert (hpre.ready.chain_insert b)).tries
  obtain ⟨_,_,he,hroot⟩ := h.commits rfl
  rw [hpre.ready.extend_ok (hpre.ready.chain_insert b),EStateM.Result.ok.injEq,
    Prod.mk.injEq] at he
  rw [hroot,Bonsai.rootHash_eq hstate.contracts,Bonsai.rootHash_eq hstate.classes,he.1.1,he.1.2]

/-- The tip, or a block after which the trie has its root node or never had one. -/
def StillRead (K : Backend P) (s : TrieTable) (a : Felt) (pre post : List (BlockInput P))
    (b : BlockInput P) : Prop :=
  post=[] ∨ K.RootKept s (bonsaiIdentifier s a) (pre++[b])

/-- What a request at a block of the chain is answered. The roots are those of the header and the leaf
data those of the contracts trie as long as the tries involved are still read. -/
theorem proofs_match_chain {G : GenesisClasses P}
    {execute : Rollup.ChainSpec P → Except String (ExecutionOutput K)} {spec : ChainSpec P}
    {blockId : BlockIdOrTag} {maxProofKeys : Option Nat} (classHashes : Option (List Felt))
    (addresses : List Felt) (keys : Option (List ContractStorageKeys))
    (hroot : ∀ s, (K.tries s).RootStays)
    (hmulti : L.Succeeds K (pinned (K.chain (pre++b::post)) b post) classHashes addresses keys)
    (h : K.Reached G execute spec (pre++b::post)) (hex : ∀ c∈pre++[b], Executed c.updates)
    (hid : convertBlockId (K.chain (pre++b::post)) blockId=.ok (some b.number))
    (hlimit : ∀ limit, maxProofKeys=some limit →
      totalKeys classHashes (some addresses) keys≤limit) :
    ∃ r header trie,
      getProofs K L maxProofKeys (K.chain (pre++b::post)) blockId classHashes (some addresses)
        keys=.ok r ∧
      (K.chain (pre++b::post)).get .headers b.number=some header ∧
      (K.tries .contracts).Holds (trieRows .contracts (K.chain (pre++[b])))
        (bonsaiIdentifier .contracts 0) trie ∧
      (StillRead K .classes 0 pre post b → StillRead K .contracts 0 pre post b →
        K.stateRoot r.globalRoots.contractsTreeRoot r.globalRoots.classesTreeRoot=
          header.toHeader.stateRoot) ∧
      List.Forall₂ (fun a leaf => TouchedBy (pre++[b]) a →
          (post=[] ∨ K.codecs.normalizeAddress a=a) → StillRead K .storages a pre post b →
          HashesToLeaf K trie a leaf)
        addresses r.contractsProof.contractLeavesData := by
  have hinc := h.increasing
  have hheader : (K.chain (pre++b::post)).get .headers b.number=
      some (VersionedHeader.ofHeader b.header) := chain_header hinc (by simp)
  have hhash : (K.chain (pre++b::post)).get .blockHashes b.number=some b.hash :=
    chain_hash hinc (by simp)
  have hcheck : checkProofKeys maxProofKeys (totalKeys classHashes (some addresses) keys)=.ok () := by
    unfold checkProofKeys
    cases hm : maxProofKeys with
    | none => rfl
    | some limit => exact if_neg (Nat.not_lt.mpr (hlimit limit hm))
  obtain ⟨classes,hclasses⟩ := hmulti.classesProof_ok
  obtain ⟨nodes,hnodes⟩ := hmulti.contractMultiproof_ok
  obtain ⟨contracts,hcontracts,hleaves⟩ := contractsProof_ok hroot hinc hnodes hex
  obtain ⟨storages,hstorages⟩ := hmulti.contractsStorageProofs_ok
  obtain ⟨classesTreeRoot,hclassesRoot⟩ :=
    trieRoot_ok hroot hinc .classes (bonsaiIdentifier .classes 0)
  obtain ⟨contractsTreeRoot,hcontractsRoot⟩ :=
    trieRoot_ok hroot hinc .contracts (bonsaiIdentifier .contracts 0)
  refine ⟨⟨⟨b.hash,classesTreeRoot,contractsTreeRoot⟩,classes,contracts,storages⟩,_,_,?_,
    hheader,(chain_holds K hex).ready.tries.contracts,?_,?_⟩
  · simp only [getProofs,hid,ofProvider,okOrNotFound,hcheck,stateAt,historical_chain hinc,blockHashByNum,
      hhash,okOr,hclasses,hcontracts,hstorages,classesRoot,contractsRoot,hclassesRoot,
      hcontractsRoot,bind,Except.bind,pure,Except.pure]
  · intro hk hk'
    have hclasses := trieRoot_eq hroot hinc (bonsaiIdentifier_length .classes 0) hk
    have hcontracts := trieRoot_eq hroot hinc (bonsaiIdentifier_length .contracts 0) hk'
    rw [hclassesRoot,Except.ok.injEq] at hclasses
    rw [hcontractsRoot,Except.ok.injEq] at hcontracts
    rw [hclasses,hcontracts]
    exact (header_stateRoot h hex).symm
  · refine hleaves.imp ?_
    intro a leaf hleaf htouched hnorm hk
    refine hleaf htouched ?_
    rcases hnorm with hnorm | hnorm
    · exact Or.inl hnorm
    · exact hk.imp_right (fun hk => ⟨hnorm,hk⟩)

/-- The values that a trie in one node has on the paths. Bytes that are no such node have no
proof. -/
abbrev nodeProofs : ProofLibrary where
  MultiProof := List (TriePath × Option Felt)
  empty := []
  multiproof get id paths := do
    let some bs ← get ⟨.trie,id⟩ | return paths.map (fun p => (p,none))
    if SingleNode.encode (SingleNode.decode bs)=bs then
      return paths.map (fun p => (p,(SingleNode.decode bs).get p))
    else .error (.panic "no node")

theorem plainBackend_rootStays (s : TrieTable) : (plainBackend.tries s).RootStays := by
  intro rows id es v hv
  change (_,some v)∈SingleNode.bonsai.commit rows id es at hv
  change applyWrites (SingleNode.bonsai.commit rows id es) rows _=some v
  simp only [SingleNode.bonsai] at hv ⊢
  split at hv
  · cases hv
  · next hne =>
    rw [List.mem_singleton,Prod.mk.injEq] at hv
    simp [hne,applyWrites,hv.1,← hv.2]

def stepWith (u : StateUpdates) : MiningStep plainBackend :=
  { emptyStep with output := { states := ⟨u,∅⟩ } }

def ranDb (steps : List (MiningStep plainBackend)) : Db unitPayloads :=
  leftBy (plainBackend.runChain plainClasses noRollup (.dev emptySpec) steps Db.empty)

theorem ran {steps : List (MiningStep plainBackend)}
    (h : failed (plainBackend.runChain plainClasses noRollup (.dev emptySpec) steps Db.empty)=
      false) :
    plainBackend.runChain plainClasses noRollup (.dev emptySpec) steps Db.empty=
      .ok () (ranDb steps) := by
  obtain ⟨_,hran⟩ := ok_of_not_failed h
  exact hran

theorem eq_ranDb {steps : List (MiningStep plainBackend)} {db : Db unitPayloads}
    (h : plainBackend.runChain plainClasses noRollup (.dev emptySpec) steps Db.empty=.ok () db) :
    db=ranDb steps := by
  rw [ranDb,h]
  rfl

theorem mined_ok {step : MiningStep plainBackend} {db db' : Db unitPayloads}
    {outcome : MinedBlockOutcome} (h : plainBackend.mineNext step db=.ok outcome db') :
    (do
      let _ ← mapErr .production (plainBackend.mineNext step)
      return () : CallM unitPayloads GenesisError Unit) db=.ok () db' :=
  bind_ok (mapErr_ok h _) _

theorem exists_ok {ε α : Type} {r : Except ε α} (h : r.isOk=true) : ∃ a, r=.ok a := by
  cases r with
  | ok a => exact ⟨a,rfl⟩
  | error e => cases h

/-- A request at block 1, which deploys contract 5 and sets its slot, once block 2 is mined. -/
theorem proofs_match_past_block :
    ∃ db r header trie leaf,
      plainBackend.runChain plainClasses noRollup (.dev emptySpec)
        [stepWith slotSet.updates,emptyStep] Db.empty=.ok () db ∧ latestNumber db=.ok 2 ∧
      getProofs plainBackend nodeProofs none db (.number 1) (some [7]) (some [5])
        (some [⟨5,[1,2]⟩])=.ok r ∧
      db.get .headers 1=some header ∧
      plainBackend.stateRoot r.globalRoots.contractsTreeRoot r.globalRoots.classesTreeRoot=
        header.toHeader.stateRoot ∧
      r.contractsProof.contractLeavesData=[leaf] ∧ HashesToLeaf plainBackend trie 5 leaf := by
  have hstates : emptySpec.stateUpdates plainClasses=.ok emptyStates := rfl
  obtain ⟨g,hinit,hg,hc⟩ := plainGenesis hstates
  have hgenesis : plainBackend.Reached plainClasses noRollup (.dev emptySpec) [g] := .genesis hg hc
  obtain ⟨b,_,hmine,hreached,-,hupdates⟩ := hgenesis.mineNext
    (show 0+1<2^64 by decide) (stepWith slotSet.updates)
  obtain ⟨tip,_,hmine',hreached',-⟩ := hreached.mineNext (show 0+2<2^64 by decide) emptyStep
  -- the three databases of the run
  have hrun : plainBackend.runChain plainClasses noRollup (.dev emptySpec)
      [stepWith slotSet.updates,emptyStep] Db.empty=
        .ok () (plainBackend.chain ([g]++b::[tip])) :=
    (bind_ok hinit _).trans ((bind_ok (mined_ok hmine) _).trans (bind_ok (mined_ok hmine') _))
  have hfirst : plainBackend.chain [g]=ranDb [] := eq_ranDb (bind_ok hinit _)
  have hsecond : plainBackend.chain ([g]++[b])=ranDb [stepWith slotSet.updates] :=
    eq_ranDb ((bind_ok hinit _).trans (bind_ok (mined_ok hmine) _))
  have hdb := eq_ranDb hrun
  have hnumber : b.number=1 := by
    have hlast := (chain_latestHash (K := plainBackend) hreached.increasing).1
    have hone : latestNumber (ranDb [stepWith slotSet.updates])=.ok 1 := by decide +kernel
    rw [hsecond,hone,Except.ok.injEq] at hlast
    exact hlast.symm
  have hslot : b.updates=slotSet.updates := by
    rw [hupdates,hnumber]
    rfl
  have hempty : g.updates=emptyStates.stateUpdates := by
    have hs := hg.2.2.2
    rw [hstates,Except.ok.injEq] at hs
    rw [BlockInput.updates,← hs]
  have hex : ∀ c∈[g]++[b], Executed c.updates := by
    simp only [List.cons_append,List.nil_append,List.forall_mem_cons,hempty,hslot]
    decide +kernel
  have htouched : TouchedBy ([g]++[b]) 5 := by
    refine ⟨b,by simp,Or.inl ?_⟩
    rw [hslot]
    decide +kernel
  have hclasses : StillRead plainBackend .classes 0 [g] [tip] b := by
    refine Or.inr (Or.inr (fun pre hpre => ?_))
    rcases List.prefix_concat_iff.mp hpre with rfl | hpre
    · rw [hsecond]
      decide +kernel
    · rcases List.prefix_cons_iff.mp hpre with rfl | ⟨t,rfl,ht⟩
      · rfl
      · obtain rfl := List.prefix_nil.mp ht
        rw [hfirst]
        decide +kernel
  have hcontracts : StillRead plainBackend .contracts 0 [g] [tip] b :=
    Or.inr (Or.inl (by rw [hsecond]; decide +kernel))
  have hstorages : StillRead plainBackend .storages 5 [g] [tip] b :=
    Or.inr (Or.inl (by rw [hsecond]; decide +kernel))
  have hmulti : nodeProofs.Succeeds plainBackend
      (pinned (plainBackend.chain ([g]++b::[tip])) b [tip]) (some [7]) [5] (some [⟨5,[1,2]⟩]) := by
    rw [pinned,hnumber,hdb]
    refine ⟨?_,exists_ok (by decide +kernel),?_⟩
    · rintro _ ⟨⟩
      exact exists_ok (by decide +kernel)
    · rintro _ ⟨⟩ r hr
      obtain rfl := List.mem_singleton.mp hr
      exact exists_ok (by decide +kernel)
  have hid : convertBlockId (plainBackend.chain ([g]++b::[tip])) (.number 1)=.ok (some b.number) := by
    rw [hnumber]
    rfl
  have hlimit : ∀ limit, none=some limit →
      totalKeys (some [7]) (some [5]) (some [⟨5,[1,2]⟩])≤limit := by simp
  obtain ⟨r,header,trie,hr,hheader,_,hroots,hleaves⟩ := proofs_match_chain (some [7]) [5]
    (some [⟨5,[1,2]⟩]) plainBackend_rootStays hmulti hreached' hex hid hlimit
  obtain ⟨leaf,hleaf,hnil⟩ : ∃ leaf, HashesToLeaf plainBackend trie 5 leaf ∧
      r.contractsProof.contractLeavesData=[leaf] := by
    cases hl : r.contractsProof.contractLeavesData with
    | nil => simp [hl] at hleaves
    | cons leaf rest =>
      rw [hl,List.forall₂_cons] at hleaves
      obtain rfl : rest=[] := by simpa using hleaves.2
      exact ⟨leaf,hleaves.1 htouched (Or.inr (by decide +kernel)) hstorages,rfl⟩
  rw [hnumber] at hheader
  exact ⟨_,r,header,trie,leaf,hrun,by rw [hdb]; decide +kernel,hr,hheader,hroots hclasses hcontracts,
    hnil,hleaf⟩

/-- The only slot of a contract is set in block 1 and cleared in block 2. -/
def clearingSteps : List (MiningStep plainBackend) :=
  [stepWith slotSet.updates,stepWith slotCleared.updates]

def leavesOf (r : RpcM (GetStorageProofResponse nodeProofs)) : List ContractLeafData :=
  match r with
  | .ok r => r.contractsProof.contractLeavesData
  | .error _ => []

/-- Once a block is mined on top, the request at block 2 answers the storage root of block 1. -/
theorem proofs_stale_storage_root :
    ∃ before db trie,
      plainBackend.runChain plainClasses noRollup (.dev emptySpec) clearingSteps Db.empty=
        .ok () before ∧
      (plainBackend.tries .contracts).Holds (trieRows .contracts before)
        (bonsaiIdentifier .contracts 0) trie ∧
      plainBackend.runChain plainClasses noRollup (.dev emptySpec) (clearingSteps++[emptyStep])
        Db.empty=.ok () db ∧
      leavesOf (getProofs plainBackend nodeProofs none db (.number 2) none (some [5]) none)≠[] ∧
      ∀ leaf∈leavesOf (getProofs plainBackend nodeProofs none db (.number 2) none (some [5]) none),
        ¬HashesToLeaf plainBackend trie 5 leaf := by
  have hholds : trieRows .contracts (ranDb clearingSteps) ⟨.trie,bonsaiIdentifier .contracts 0⟩=
      SingleNode.node (SingleNode.held (trieRows .contracts (ranDb clearingSteps))
        ⟨.trie,bonsaiIdentifier .contracts 0⟩) := by decide +kernel
  have hleaves : leavesOf (getProofs plainBackend nodeProofs none (ranDb (clearingSteps++[emptyStep]))
        (.number 2) none (some [5]) none)≠[] ∧
      ∀ leaf∈leavesOf (getProofs plainBackend nodeProofs none (ranDb (clearingSteps++[emptyStep]))
          (.number 2) none (some [5]) none),
        ¬HashesToLeaf plainBackend (SingleNode.held (trieRows .contracts (ranDb clearingSteps))
          ⟨.trie,bonsaiIdentifier .contracts 0⟩) 5 leaf := by decide +kernel
  exact ⟨_,_,_,ran (by decide +kernel),hholds,ran (by decide +kernel),hleaves⟩

end Chain
end Katana.Rpc
