import Katana.Core.Backend
import Katana.Provider.Atomicity
import Katana.Trie.Commit

/-! The cumulative state of a chain and the tries built from it at once. A block that is
committed and stored takes the tries of the state before it to those of the state after. -/
namespace Katana
open ChangeLog SortedMap TrieMap

/-- What the blocks of a chain say together, the last one counting. -/
structure ChainState where
  declaredClasses : SortedMap Felt Felt := ∅
  storage : SortedMap Felt (SortedMap Felt Felt) := ∅
  classHashes : SortedMap Felt Felt := ∅
  nonces : SortedMap Felt Felt := ∅

namespace ChainState

def apply (s : ChainState) (u : StateUpdates) : ChainState where
  declaredClasses := s.declaredClasses.override u.declaredClasses
  storage := s.storage.merge (fun old m => (old.getD ∅).override m) u.storageUpdates
  classHashes := s.classHashes.override u.deployedContracts
  nonces := s.nonces.override u.nonceUpdates

/-- The contracts with a storage, a class or a nonce. -/
def touched (s : ChainState) : SortedMap Felt Unit :=
  let contracts : SortedMap Felt Unit := SortedMap.merge (fun _ _ => ()) ∅ s.storage
  (contracts.merge (fun _ _ => ()) s.classHashes).merge (fun _ _ => ()) s.nonces

section Roots
variable (H : Hashes) (B : TrieTable → Bonsai) (s : ChainState)

def storageTrie (a : Felt) : TrieMap := ofKeys ((s.storage.get a).getD ∅)

/-- The leaf of a contract, zero standing for what was never set. -/
def leaf (a : Felt) : Felt :=
  computeContractStateHash H ((s.classHashes.get a).getD 0) ((B .storages).root (s.storageTrie a))
    ((s.nonces.get a).getD 0)

def leafs : SortedMap Felt Felt := s.touched.mapValues (fun a _ => s.leaf H B a)

def tries : Tries where
  classes := ofKeys (classEntries H s.declaredClasses)
  contracts := ofKeys (s.leafs H B)
  storages := s.storageTrie

def classesRoot : Felt := (B .classes).root (s.tries H B).classes

def contractsRoot : Felt := (B .contracts).root (s.tries H B).contracts

end Roots

def info (s : ChainState) (a : Felt) : Option GenericContractInfo :=
  mergedInfo (s.classHashes.get a) (s.nonces.get a)

end ChainState

/-- What the executor hands over: replaced classes come as deployed contracts, and addresses,
storage keys and class hashes are below 2^251, the bound of a PatriciaKey of starknet_api. -/
structure Executed (u : StateUpdates) : Prop where
  replaced : u.replacedClasses=∅
  declared : TrieMap.Fits u.declaredClasses
  deployed : TrieMap.Fits u.deployedContracts
  nonces : TrieMap.Fits u.nonceUpdates
  storage : TrieMap.Fits u.storageUpdates
  keys : ∀ r∈u.storageUpdates.rows, TrieMap.Fits r.2

instance (u : StateUpdates) : Decidable (Executed u) :=
  decidable_of_iff (u.replacedClasses=∅ ∧ TrieMap.Fits u.declaredClasses ∧
      TrieMap.Fits u.deployedContracts ∧ TrieMap.Fits u.nonceUpdates ∧
      TrieMap.Fits u.storageUpdates ∧ ∀ r∈u.storageUpdates.rows, TrieMap.Fits r.2)
    ⟨fun ⟨hr,hc,hd,hn,hs,hk⟩ => ⟨hr,hc,hd,hn,hs,hk⟩,
      fun h => ⟨h.replaced,h.declared,h.deployed,h.nonces,h.storage,h.keys⟩⟩

namespace TrieMap
variable {ν μ : Type} {m : SortedMap Felt ν}

theorem fits_iff : Fits m ↔ ∀ k v, m.get k=some v → k.val<2^251 := by
  constructor
  · intro h k v hv
    exact h (k,v) ((get_eq_some m k v).mp hv)
  · intro h r hr
    exact h r.1 r.2 ((get_eq_some m r.1 r.2).mpr hr)

theorem Fits.merge {u : SortedMap Felt μ} (hm : Fits m) (hu : Fits u) (f : Option ν → μ → ν) :
    Fits (m.merge f u) := by
  rw [fits_iff] at hm hu ⊢
  intro k v hv
  rw [get_merge] at hv
  cases hk : u.get k with
  | some w => exact hu k w hk
  | none =>
    rw [hk] at hv
    exact hm k v hv

theorem Fits.mapValues (hm : Fits m) (f : Felt → ν → μ) : Fits (m.mapValues f) := by
  intro r hr
  obtain ⟨q,hq,rfl⟩ := List.mem_map.mp hr
  exact hm q hq

theorem fits_empty : Fits (∅ : SortedMap Felt ν) := by
  intro r hr
  cases hr

theorem ofKeys_override {m u : SortedMap Felt Felt} (hm : Fits m) (hu : Fits u) :
    (ofKeys m).setAll (entries u)=ofKeys (m.override u) := by
  refine Stands.unique ((stands_ofKeys hm).setAll hu) ?_
  have h : (ofKeys (m.override u)).Stands (m.override u).get := stands_ofKeys (hm.merge hu _)
  intro p
  rw [h p,get_override]

end TrieMap

theorem classEntries_override (H : Hashes) (m u : SortedMap Felt Felt) :
    classEntries H (m.override u)=(classEntries H m).override (classEntries H u) := by
  refine ext_get (fun k => ?_)
  simp only [classEntries,get_mapValues,get_override]
  cases u.get k <;> rfl

theorem get_contractLeafs {u : StateUpdates} (h : u.replacedClasses=∅) (a : Felt) :
    (contractLeafs u).get a=
      if u.storageUpdates.get a=none ∧ u.nonceUpdates.get a=none ∧ u.deployedContracts.get a=none
      then none
      else some { classHash := u.deployedContracts.get a, nonce := u.nonceUpdates.get a } := by
  simp only [contractLeafs,h,get_merge,get_empty]
  cases u.storageUpdates.get a <;> cases u.nonceUpdates.get a <;>
    cases u.deployedContracts.get a <;> rfl

namespace ChainState
variable {H : Hashes} {B : TrieTable → Bonsai} {s : ChainState} {u : StateUpdates}

theorem get_touched (s : ChainState) (a : Felt) :
    s.touched.get a=((s.nonces.get a).map (fun _ => ())).or
      (((s.classHashes.get a).map (fun _ => ())).or ((s.storage.get a).map (fun _ => ()))) := by
  simp only [touched,get_merge,get_empty]
  cases s.storage.get a <;> cases s.nonces.get a <;> cases s.classHashes.get a <;> rfl

/-- The keys of the state fit the paths. -/
structure Fits (s : ChainState) : Prop where
  declared : TrieMap.Fits s.declaredClasses
  classes : TrieMap.Fits s.classHashes
  nonces : TrieMap.Fits s.nonces
  storage : TrieMap.Fits s.storage
  keys : ∀ a, TrieMap.Fits ((s.storage.get a).getD ∅)

theorem fits_initial : Fits {} :=
  ⟨fits_empty,fits_empty,fits_empty,fits_empty,
    fun _ => fits_empty⟩

theorem get_storage_apply (s : ChainState) (u : StateUpdates) (a : Felt) :
    ((s.apply u).storage.get a).getD ∅=match u.storageUpdates.get a with
      | some m => ((s.storage.get a).getD ∅).override m
      | none => (s.storage.get a).getD ∅ := by
  simp only [apply,get_merge]
  cases u.storageUpdates.get a <;> rfl

theorem Executed.storage_fits (h : Executed u) {a : Felt} {m : SortedMap Felt Felt}
    (hm : u.storageUpdates.get a=some m) : TrieMap.Fits m :=
  h.keys (a,m) ((get_eq_some _ _ _).mp hm)

theorem leaf_apply_of_untouched {a : Felt} (hst : u.storageUpdates.get a=none)
    (hn : u.nonceUpdates.get a=none) (hd : u.deployedContracts.get a=none) :
    (s.apply u).leaf H B a=s.leaf H B a := by
  have hget : (s.apply u).storageTrie a=s.storageTrie a := by
    rw [storageTrie,storageTrie,get_storage_apply,hst]
  simp only [leaf,hget]
  simp [apply,get_override,hn,hd]

theorem Fits.leafs (hs : s.Fits) : TrieMap.Fits (s.leafs H B) := by
  have htouched : TrieMap.Fits s.touched :=
    ((fits_empty.merge hs.storage _).merge hs.classes _).merge hs.nonces _
  exact htouched.mapValues _

theorem Executed.leafs_fits (hu : Executed u) : TrieMap.Fits (contractLeafs u) := by
  have hempty : TrieMap.Fits u.replacedClasses := hu.replaced ▸ fits_empty
  exact (((fits_empty.merge hu.storage _).merge hu.nonces _).merge hu.deployed _).merge
    hempty _

section
variable (hs : s.Fits) (hu : Executed u)
include hs hu

theorem Fits.apply : (s.apply u).Fits where
  declared := hs.declared.merge hu.declared _
  classes := hs.classes.merge hu.deployed _
  nonces := hs.nonces.merge hu.nonces _
  storage := hs.storage.merge hu.storage _
  keys a := by
    rw [get_storage_apply]
    cases hm : u.storageUpdates.get a with
    | none => exact hs.keys a
    | some m => exact (hs.keys a).merge (Executed.storage_fits hu hm) _

theorem storagesAfter_eq :
    storagesAfter s.storageTrie u.storageUpdates=(s.apply u).storageTrie := by
  funext a
  rw [storagesAfter_apply,storageTrie,storageTrie,get_storage_apply]
  cases hm : u.storageUpdates.get a with
  | none => rfl
  | some m => exact ofKeys_override (hs.keys a) (Executed.storage_fits hu hm)

theorem leafValue_eq (a : Felt) :
    leafValue H s.info (fun a => (B .storages).root (storagesAfter s.storageTrie u.storageUpdates a))
      a { classHash := u.deployedContracts.get a, nonce := u.nonceUpdates.get a }=
      (s.apply u).leaf H B a := by
  simp only [leafValue,leaf,storagesAfter_eq hs hu,apply,info,get_override]
  cases u.deployedContracts.get a <;> cases u.nonceUpdates.get a <;>
    cases hc : s.classHashes.get a <;> cases hn : s.nonces.get a <;> simp [mergedInfo]

theorem leafs_apply :
    (s.leafs H B).override (leafEntries H B s.storageTrie s.info u)=(s.apply u).leafs H B := by
  refine ext_get (fun a => ?_)
  have htouched : (s.apply u).touched.get a=((contractLeafs u).get a).elim (s.touched.get a)
      (fun _ => some ()) := by
    rw [get_touched,get_touched,get_contractLeafs hu.replaced]
    simp only [apply,get_override,get_merge]
    cases u.storageUpdates.get a <;> cases u.nonceUpdates.get a <;>
      cases u.deployedContracts.get a <;> simp
  rw [get_override,leafEntries,get_mapValues,leafs,get_mapValues,
    leafs,get_mapValues,htouched,get_contractLeafs hu.replaced]
  by_cases hu' : u.storageUpdates.get a=none ∧ u.nonceUpdates.get a=none ∧
      u.deployedContracts.get a=none
  · simp [hu',leaf_apply_of_untouched hu'.1 hu'.2.1 hu'.2.2]
  · simp [hu',leafValue_eq hs hu]

theorem tries_apply :
    (s.tries H B).after H B s.info u=(s.apply u).tries H B := by
  have hclasses : (s.tries H B).classes.setAll
      (entries (classEntries H u.declaredClasses))=((s.apply u).tries H B).classes := by
    simp only [tries,apply,classEntries_override]
    exact ofKeys_override (hs.declared.mapValues _) (hu.declared.mapValues _)
  have hcontracts : (s.tries H B).contracts.setAll
      (entries (leafEntries H B s.storageTrie s.info u))=
        ((s.apply u).tries H B).contracts := by
    simp only [tries,← leafs_apply hs hu]
    exact ofKeys_override hs.leafs ((Executed.leafs_fits hu).mapValues _)
  simp only [Tries.after]
  rw [hclasses]
  change Tries.mk _ ((s.tries H B).contracts.setAll
    (entries (leafEntries H B s.storageTrie s.info u))) (storagesAfter s.storageTrie _)=_
  rw [hcontracts,storagesAfter_eq hs hu]
  rfl

end

theorem info_apply (s : ChainState) (u : StateUpdates) (a : Felt) :
    (s.apply u).info a=
      GenericContractInfo.after (s.info a) (u.deployedContracts.get a) (u.nonceUpdates.get a) := by
  rw [info,info,after_mergedInfo,apply,get_override,get_override]

end ChainState

variable {P : Payloads}

def stateAfter (blocks : List (BlockInput P)) : ChainState :=
  blocks.foldl (fun s b => s.apply b.updates) {}

theorem stateAfter_concat (blocks : List (BlockInput P)) (b : BlockInput P) :
    stateAfter (blocks++[b])=(stateAfter blocks).apply b.updates := by
  simp [stateAfter]

namespace Backend
variable (K : Backend P)

/-- The three calls that write a block: the class trie, the contract trie, the block. -/
def extend (b : BlockInput P) : CallM P ProviderError (Felt × Felt) := do
  let w := K.provider {} {}
  let classTrieRoot ← w.trieInsertDeclaredClasses b.number b.updates.declaredClasses
  let contractTrieRoot ← w.trieInsertContractUpdates b.number b.updates
  K.storeBlock id {} b
  return (classTrieRoot,contractTrieRoot)

def chain (blocks : List (BlockInput P)) : Db P :=
  blocks.foldl (fun db b => match K.extend b db with
    | .ok _ db' => db'
    | .error _ db' => db') Db.empty

/-- The tables hold these tries, and storage rows that decode: nothing makes a call fail. -/
structure Ready (t : Tries) (db : Db P) : Prop where
  tries : TriesHold K.tries t.classes t.contracts t.storages db
  decodes : StorageDecodes K.codecs db

def triesAfter (b : BlockInput P) (t : Tries) (db : Db P) : Tries :=
  t.after K.hashes K.tries (db.get .contractInfo) b.updates

/-- The database between the tries of a block and the block. -/
def withTries (b : BlockInput P) (t : Tries) (db : Db P) : Db P :=
  updateTries K.hashes K.tries K.codecs b.number b.updates t db

variable {K} {t : Tries} {db db' : Db P} {b : BlockInput P} {s : ChainState}
    {blocks : List (BlockInput P)}

theorem withTries_agree : Agree trieTables trieHistories db (K.withTries b t db) :=
  updateTries_agree _ _

theorem Ready.withTries_decodes (h : K.Ready t db) :
    StorageDecodes K.codecs (K.withTries b t db) :=
  h.decodes.of_agree withTries_agree (by decide)

theorem storeBlock_ok {ε : Type} {f : ProviderError → ε}
    (h : insertBlockWithStatesAndReceipts K.codecs {} b db=(.ok (),db')) :
    K.storeBlock f {} b db=.ok () db' := by
  simp only [storeBlock,h]

theorem Ready.inserts (h : K.Ready t db) (b : BlockInput P) :
    ∃ db', insertBlockWithStatesAndReceipts K.codecs {} b (K.withTries b t db)=(.ok (),db') := by
  obtain ⟨db',hins,_⟩ := insert_ensures (insertBlockTx_inserted (b := b) h.withTries_decodes)
  exact ⟨db',hins⟩

theorem Ready.trieInserts (h : K.Ready t db) (number : Nat) (u : StateUpdates) : ∃ db₁,
    (K.provider {} {}).trieInsertDeclaredClasses number u.declaredClasses db=
      .ok ((K.tries .classes).root
        (t.after K.hashes K.tries (db.get .contractInfo) u).classes) db₁ ∧
    (K.provider {} {}).trieInsertContractUpdates number u db₁=
      .ok ((K.tries .contracts).root
        (t.after K.hashes K.tries (db.get .contractInfo) u).contracts)
        (updateTries K.hashes K.tries K.codecs number u t db) :=
  trieInserts_ok h.tries u

section
variable (h : K.Ready t db)
  (hins : insertBlockWithStatesAndReceipts K.codecs {} b (K.withTries b t db)=(.ok (),db'))
include h hins

theorem Ready.extend_ok : K.extend b db=.ok ((K.tries .classes).root (K.triesAfter b t db).classes,
      (K.tries .contracts).root (K.triesAfter b t db).contracts) db' := by
  obtain ⟨db₁,h₁,h₂⟩ := h.trieInserts b.number b.updates
  have h₃ : K.storeBlock id {} b (updateTries K.hashes K.tries K.codecs b.number b.updates t db)=
      .ok () db' := storeBlock_ok hins
  simp only [extend,bind,EStateM.bind,h₁,h₂,h₃]
  rfl

theorem Ready.insert : K.Ready (K.triesAfter b t db) db' := by
  have hd : StorageDecodes K.codecs (K.withTries b t db) := h.withTries_decodes
  have hagree := (insert_spec hins
    ((insertBlockTx_writes K.codecs b).frame (insertBlockTx_inserted hd))).2
  have htries : TriesHold K.tries _ _ _ (K.withTries b t db) := h.tries.updateTries b.updates
  exact ⟨htries.of_agree hagree (by simp [blockTables]),
    (insert_spec hins (insertBlockTx_inserted hd)).2⟩

end

theorem Ready.empty : K.Ready {} Db.empty where
  tries := TriesHold.empty K.tries
  decodes _ _ hw := absurd hw (Db.hasDup_empty _ _ _)

structure HoldsState (K : Backend P) (s : ChainState) (db : Db P) : Prop where
  ready : K.Ready (s.tries K.hashes K.tries) db
  info : db.get .contractInfo=s.info

theorem HoldsState.triesAfter (h : K.HoldsState s db) (hu : Executed b.updates) (hs : s.Fits) :
    K.triesAfter b (s.tries K.hashes K.tries) db=(s.apply b.updates).tries K.hashes K.tries := by
  rw [Backend.triesAfter,h.info,ChainState.tries_apply hs hu]

theorem HoldsState.insert (h : K.HoldsState s db) (hu : Executed b.updates) (hs : s.Fits)
    (hins : insertBlockWithStatesAndReceipts K.codecs {} b
      (K.withTries b (s.tries K.hashes K.tries) db)=(.ok (),db')) :
    K.HoldsState (s.apply b.updates) db' := by
  have hready := h.ready.insert hins
  rw [h.triesAfter hu hs] at hready
  refine ⟨hready,funext (fun a => ?_)⟩
  rw [insert_spec hins (insertBlockTx_info h.ready.withTries_decodes) a,
    withTries_agree.get (by decide),h.info,ChainState.info_apply]

theorem stateAfter_fits (h : ∀ b∈blocks, Executed b.updates) : (stateAfter blocks).Fits := by
  induction blocks using List.reverseRecOn with
  | nil => exact ChainState.fits_initial
  | append_singleton blocks b ih =>
    rw [stateAfter_concat]
    exact (ih (fun c hc => h c (List.mem_append_left _ hc))).apply (h b (by simp))

theorem chain_concat (K : Backend P) (blocks : List (BlockInput P)) (b : BlockInput P) :
    K.chain (blocks++[b])=match K.extend b (K.chain blocks) with
      | .ok _ db' => db'
      | .error _ db' => db' := by
  simp [chain]

theorem Ready.chain_insert (h : K.Ready t (K.chain blocks)) (b : BlockInput P) :
    insertBlockWithStatesAndReceipts K.codecs {} b (K.withTries b t (K.chain blocks))=
      (.ok (),K.chain (blocks++[b])) := by
  obtain ⟨db',hins⟩ := h.inserts b
  rw [chain_concat,h.extend_ok hins]
  exact hins

theorem chain_ready (K : Backend P) (blocks : List (BlockInput P)) :
    ∃ t, K.Ready t (K.chain blocks) := by
  induction blocks using List.reverseRecOn with
  | nil => exact ⟨{},Ready.empty⟩
  | append_singleton blocks b ih =>
    obtain ⟨t,ht⟩ := ih
    exact ⟨_,ht.insert (ht.chain_insert b)⟩

theorem chain_holds (K : Backend P) (h : ∀ b∈blocks, Executed b.updates) :
    K.HoldsState (stateAfter blocks) (K.chain blocks) := by
  induction blocks using List.reverseRecOn with
  | nil => exact ⟨Ready.empty,rfl⟩
  | append_singleton blocks b ih =>
    have hpre : ∀ c∈blocks, Executed c.updates := fun c hc => h c (List.mem_append_left _ hc)
    rw [stateAfter_concat]
    exact (ih hpre).insert (h b (by simp)) (stateAfter_fits hpre) ((ih hpre).ready.chain_insert b)

/-- The roots computed for a block of a run are those of the tries built from scratch over
the state after the block. -/
theorem incremental_roots (K : Backend P) (blocks : List (BlockInput P)) (b : BlockInput P)
    (h : ∀ c∈blocks++[b], Executed c.updates) :
    K.extend b (K.chain blocks)=
      .ok ((stateAfter (blocks++[b])).classesRoot K.hashes K.tries,
        (stateAfter (blocks++[b])).contractsRoot K.hashes K.tries) (K.chain (blocks++[b])) := by
  have hpre : ∀ c∈blocks, Executed c.updates := fun c hc => h c (List.mem_append_left _ hc)
  have hstate := chain_holds K hpre
  rw [hstate.ready.extend_ok (hstate.ready.chain_insert b),
    hstate.triesAfter (h b (by simp)) (stateAfter_fits hpre),stateAfter_concat]
  rfl

/-- Arithmetic in place of the hashes and one row for a trie, for concrete runs. -/
def plainBackend : Backend unitPayloads where
  hashes := {
    pedersen := fun x y => 3*x+5*y+1
    poseidon := fun x y => 7*x+11*y+1
    poseidonArray := fun xs => xs.foldl (fun acc x => 13*acc+x+1) 0 }
  tries _ := SingleNode.bonsai
  codecs := starknetCodecs
  computeMerkleRoot xs := xs.foldl (fun acc x => 17*acc+x+1) 0
  Trace := Unit
  typedExecutionInfo _ _ := ()
  events _ := []
  receiptHash r := r.txHash

/-- A contract is deployed with one slot, which the next block sets to zero. -/
def slotSet : BlockInput unitPayloads :=
  stateBlock 0 100 {
    deployedContracts := SortedMap.put 5 7 ∅
    storageUpdates := SortedMap.put 5 (SortedMap.put 1 9 ∅) ∅ }

def slotCleared : BlockInput unitPayloads :=
  stateBlock 1 101 {
    nonceUpdates := SortedMap.put 5 1 ∅
    storageUpdates := SortedMap.put 5 (SortedMap.put 1 0 ∅) ∅ }

theorem incremental_roots_cleared :
    plainBackend.extend slotCleared (plainBackend.chain [slotSet])=
      .ok ((stateAfter [slotSet,slotCleared]).classesRoot plainBackend.hashes plainBackend.tries,
        (stateAfter [slotSet,slotCleared]).contractsRoot plainBackend.hashes plainBackend.tries)
        (plainBackend.chain [slotSet,slotCleared]) :=
  incremental_roots plainBackend [slotSet] slotCleared (by decide)

end Backend
end Katana
