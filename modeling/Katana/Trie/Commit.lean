import Katana.Trie.Writer

/-! What the trie writers do when nothing fails: the rows of the committed trie change as
the library says, the other tries and tables stay as they are. -/
namespace Katana
open ChangeLog DbTx Panicking
variable {P : Payloads} {B : Bonsai} {C : Codecs} {t : TrieTable} {id : Bytes} {block : Nat}
    {S : List Table} {D : List DupTable} {db' : Db P}
  {es : List (TriePath × Felt)} {db : Db P}

def putRow (t : TrieTable) (db : Db P) (w : TrieWrite) : Db P :=
  match w.2 with
  | some v => db.put (.trie t) w.1.encode v
  | none => db.delete (.trie t) w.1.encode

def commitDb (B : Bonsai) (C : Codecs) (t : TrieTable) (id : Bytes) (block : Nat)
    (es : List (TriePath × Felt)) (db : Db P) : Db P :=
  let writes := B.commit (trieRows t db) id es
  (writeCache writes).rows.foldl (TrieState.snapshotEntry C t block) (writes.foldl (putRow t) db)

theorem writeRow_ensures (w : TrieWrite) :
    Faulty.Ensures (writeRow t w) db (fun _ s => s=putRow t db w) := by
  refine get_then ?_
  obtain ⟨k,v⟩ := w
  cases v with
  | some v => exact ensures_put rfl
  | none => exact ensures_write rfl

theorem snapshotRow_returns (e : TrieDatabaseKey × Bytes) :
    Returns (snapshotRow C t block e) db
      (fun _ s => s=TrieState.snapshotEntry C t block db e) :=
  orPanic_then (ensures_read rfl) (orPanic_then (ensures_put ⟨rfl,rfl⟩)
    (returns_orPanic (ensures_putDup rfl)))

theorem returns_foldl {α : Type} {f : α → TrieM P Unit} {g : Db P → α → Db P} (l : List α)
    (h : ∀ x db, Returns (f x) db (fun _ s => s=g db x)) (db : Db P) :
    Returns (l.forM f) db (fun _ s => s=l.foldl g db) := by
  refine returns_forM (fun pre s => s=pre.foldl g db) l ?_ rfl
  rintro pre x post _ s rfl
  refine (h x _).mono ?_
  rintro _ s' rfl
  rw [List.foldl_append]
  rfl

theorem commitTrie_returns :
    Returns (commitTrie B C t id block es) db (fun _ s => s=commitDb B C t id block es db) := by
  have hload : Returns (es.forM (fun _ => orPanic "called Result::unwrap() on an Err value"
      (read (fun _ : Db P => .ok ())))) db (fun _ s => s=db) := by
    refine returns_forM (fun _ s => s=db) es ?_ rfl
    rintro _ _ _ _ s rfl
    exact returns_orPanic ((ensures_read (a := ()) rfl).mono (fun _ _ h => h.2))
  refine hload.bind ?_
  rintro _ _ rfl
  refine orPanic_then (ensures_read rfl) ?_
  refine (returns_foldl _ (fun w db => returns_orPanic (writeRow_ensures w)) _).bind ?_
  rintro _ _ rfl
  exact returns_foldl _ (fun e db => snapshotRow_returns e) _

theorem rootTrie_returns :
    Returns (rootTrie B t id) db (fun root s => root=B.rootHash (trieRows t db) id ∧ s=db) :=
  returns_orPanic (ensures_read rfl)

section Rows

theorem putRow_agree (db : Db P) (w : TrieWrite) : Agree [.trie t] [] db (putRow t db w) := by
  obtain ⟨k,v⟩ := w
  cases v with
  | some v | none =>
    exact ⟨fun t' ht' => Function.update_of_ne (by simpa using ht') _ _,fun _ _ => rfl⟩

theorem trieRows_putRow (db : Db P) (w : TrieWrite) :
    trieRows t (putRow t db w)=Function.update (trieRows t db) w.1 w.2 := by
  obtain ⟨k,v⟩ := w
  funext k'
  by_cases hk : k=k'
  · subst hk
    cases v <;> simp [trieRows,putRow,Db.get_delete]
  · have hne : ¬k.encode=k'.encode := fun he => hk (TrieDatabaseKey.encode_inj he)
    cases v <;> simp [trieRows,putRow,Db.get_put,Db.get_delete,hne,Function.update_of_ne (Ne.symm hk)]

theorem putRows_agree (writes : List TrieWrite) (db : Db P) :
    Agree [.trie t] [] db (writes.foldl (putRow t) db) := by
  induction writes generalizing db with
  | nil => exact Agree.refl _ _ db
  | cons w ws ih => exact (putRow_agree db w).trans (ih _)

theorem trieRows_putRows (writes : List TrieWrite) (db : Db P) :
    trieRows t (writes.foldl (putRow t) db)=applyWrites writes (trieRows t db) := by
  induction writes generalizing db with
  | nil => rfl
  | cons w ws ih => rw [List.foldl_cons,ih,trieRows_putRow]; rfl

theorem trieRows_of_agree {db : Db P} (h : Agree S D db db') (ht : .trie t∉S) :
    trieRows t db'=trieRows t db :=
  funext (fun _ => h.get ht _)

theorem holds_of_agree {db : Db P} {m : TrieMap} (ha : Agree S D db db') (ht : .trie t∉S)
    (h : B.Holds (trieRows t db) id m) : B.Holds (trieRows t db') id m := by
  rwa [trieRows_of_agree ha ht]

theorem trieRows_commitDb :
    trieRows t (commitDb B C t id block es db)=
      applyWrites (B.commit (trieRows t db) id es) (trieRows t db) := by
  rw [commitDb,trieRows_of_agree (snapshotEntries_agree _ _) (by simp),trieRows_putRows]

theorem commitDb_agree :
    Agree [.trie t,.trieChangeSet t] [.trieHistory t] db (commitDb B C t id block es db) := by
  have hrows := putRows_agree (t := t) (B.commit (trieRows t db) id es) db
  have hsnap := snapshotEntries_agree (C := C) (t := t) (b := block)
    ((B.commit (trieRows t db) id es).foldl (putRow t) db)
    (writeCache (B.commit (trieRows t db) id es)).rows
  exact ⟨fun t' ht' => (hsnap.kv t' (by simp_all)).trans (hrows.kv t' (by simp_all)),
    fun t' ht' => (hsnap.dup t' ht').trans (hrows.dup t' (by simp))⟩

end Rows

structure TriesHold (B : TrieTable → Bonsai) (classes contracts : TrieMap)
    (storages : Felt → TrieMap) (db : Db P) : Prop where
  classes : (B .classes).Holds (trieRows .classes db) (bonsaiIdentifier .classes 0) classes
  contracts : (B .contracts).Holds (trieRows .contracts db) (bonsaiIdentifier .contracts 0)
    contracts
  storages : ∀ a, (B .storages).Holds (trieRows .storages db) (bonsaiIdentifier .storages a)
    (storages a)

section Writers
variable {H : Hashes} {B : TrieTable → Bonsai} {classes contracts : TrieMap}
  {storages : Felt → TrieMap}

theorem TriesHold.empty (B : TrieTable → Bonsai) :
    TriesHold B ∅ ∅ (fun _ => ∅) (Db.empty : Db P) where
  classes := (B .classes).holds_empty _ _ (fun _ _ => rfl)
  contracts := (B .contracts).holds_empty _ _ (fun _ _ => rfl)
  storages _ := (B .storages).holds_empty _ _ (fun _ _ => rfl)

section
variable (h : TriesHold B classes contracts storages db)
include h

theorem TriesHold.of_agree (ha : Agree S D db db')
    (hS : ∀ t, .trie t∉S) : TriesHold B classes contracts storages db' where
  classes := holds_of_agree ha (hS .classes) h.classes
  contracts := holds_of_agree ha (hS .contracts) h.contracts
  storages a := holds_of_agree ha (hS .storages) (h.storages a)

theorem TriesHold.commitClasses :
    TriesHold B (classes.setAll es) contracts storages
      (commitDb (B .classes) C .classes (bonsaiIdentifier .classes 0) block es db) where
  classes := by
    rw [trieRows_commitDb]
    exact (B .classes).holds_commit _ _ _ es h.classes
  contracts := holds_of_agree commitDb_agree (by simp) h.contracts
  storages a := holds_of_agree commitDb_agree (by simp) (h.storages a)

theorem TriesHold.commitContracts :
    TriesHold B classes (contracts.setAll es) storages
      (commitDb (B .contracts) C .contracts (bonsaiIdentifier .contracts 0) block es db) where
  classes := holds_of_agree commitDb_agree (by simp) h.classes
  contracts := by
    rw [trieRows_commitDb]
    exact (B .contracts).holds_commit _ _ _ es h.contracts
  storages a := holds_of_agree commitDb_agree (by simp) (h.storages a)

theorem TriesHold.commitStorage (address : Felt) :
    TriesHold B classes contracts
      (Function.update storages address ((storages address).setAll es))
      (commitDb (B .storages) C .storages (bonsaiIdentifier .storages address) block es db) where
  classes := holds_of_agree commitDb_agree (by simp) h.classes
  contracts := holds_of_agree commitDb_agree (by simp) h.contracts
  storages a := by
    rw [trieRows_commitDb]
    by_cases ha : a=address
    · subst ha
      rw [Function.update_self]
      exact (B .storages).holds_commit _ _ _ es (h.storages a)
    · have hne : bonsaiIdentifier .storages a≠bonsaiIdentifier .storages address := by
        simp only [bonsaiIdentifier_storages]
        exact fun he => ha (Felt.toBytesBe_inj he)
      rw [Function.update_of_ne ha]
      exact Bonsai.holds_commit_ne (by simp) hne (h.storages a) es

end

def classEntries (H : Hashes) (u : SortedMap Felt Felt) : SortedMap Felt Felt :=
  u.mapValues (fun _ compiled => computeClassesTrieValue H compiled)

theorem insertClassesTx_returns (h : TriesHold B classes contracts storages db)
    (u : SortedMap Felt Felt) :
    Returns (insertClassesTx H B C block u) db (fun root s =>
      root=(B .classes).root (classes.setAll (TrieMap.entries (classEntries H u))) ∧
      s=commitDb (B .classes) C .classes (bonsaiIdentifier .classes 0) block
        (TrieMap.entries (classEntries H u)) db) := by
  have hes : u.rows.map (fun r => (triePath r.1,computeClassesTrieValue H r.2))=
      TrieMap.entries (classEntries H u) := by
    simp [TrieMap.entries,classEntries,SortedMap.mapValues]
  unfold insertClassesTx
  rw [hes]
  refine commitTrie_returns.bind ?_
  rintro _ _ rfl
  refine rootTrie_returns.mono ?_
  rintro _ _ ⟨rfl,rfl⟩
  exact ⟨Bonsai.rootHash_eq h.commitClasses.classes,rfl⟩

/-- The leaf of a touched contract: what the update does not say comes from the records
of the committed database. -/
def leafValue (H : Hashes) (info : Felt → Option GenericContractInfo) (storageRoot : Felt → Felt)
    (a : Felt) (leaf : ContractLeaf) : Felt :=
  computeContractStateHash H
    (leaf.classHash.getD (((info a).map (fun i => i.classHash)).getD 0)) (storageRoot a)
    (leaf.nonce.getD (((info a).map (fun i => i.nonce)).getD 0))

theorem leafHash_returns {committed : Db P} (h : TriesHold B classes contracts storages db)
    (r : Felt × ContractLeaf) :
    Returns (leafHash H B C committed r) db (fun e s =>
      e=(r.1,leafValue H (committed.get .contractInfo)
        (fun a => (B .storages).root (storages a)) r.1 r.2) ∧ s=db) := by
  refine rootTrie_returns.bind ?_
  rintro _ s ⟨rfl,hs⟩
  rw [hs]
  have hopen : Returns (openLatest committed) db (fun p s => p=.latest committed ∧ s=db) :=
    returns_lift (fun n => ⟨_,_,_,rfl,rfl,rfl⟩)
  refine hopen.bind ?_
  rintro _ s ⟨rfl,hs⟩
  rw [hs]
  have hhash : Returns (contractStateLeafHash H C (.latest committed) r.1
      { r.2 with storageRoot := some ((B .storages).rootHash (trieRows .storages db)
        (bonsaiIdentifier .storages r.1)) }) db (fun v s =>
      v=leafValue H (committed.get .contractInfo) (fun a => (B .storages).root (storages a)) r.1 r.2 ∧
      s=db) := by
    refine orPanic_then (ensures_read rfl) (orPanic_then (ensures_read rfl) ?_)
    refine returns_pure ⟨?_,rfl⟩
    rw [leafValue,Bonsai.rootHash_eq (h.storages r.1)]
  refine hhash.bind ?_
  rintro _ _ ⟨rfl,rfl⟩
  exact returns_pure ⟨rfl,rfl⟩

variable (u : SortedMap Felt (SortedMap Felt Felt))

def storagesAfter (storages : Felt → TrieMap) (u : SortedMap Felt (SortedMap Felt Felt)) :
    Felt → TrieMap :=
  u.rows.foldl (fun storages r =>
    Function.update storages r.1 ((storages r.1).setAll (TrieMap.entries r.2))) storages

theorem storagesAfter_apply (a : Felt) : storagesAfter storages u a=match u.get a with
      | some m => (storages a).setAll (TrieMap.entries m)
      | none => storages a := by
  unfold storagesAfter
  convert SortedMap.foldl_update (fun (t : TrieMap) m => t.setAll (TrieMap.entries m)) storages u a
  cases u.get a <;> rfl

def commitStorages (B : TrieTable → Bonsai) (C : Codecs) (block : Nat)
    (u : SortedMap Felt (SortedMap Felt Felt)) (db : Db P) : Db P :=
  u.rows.foldl (fun db r => commitDb (B .storages) C .storages
    (bonsaiIdentifier .storages r.1) block (TrieMap.entries r.2) db) db

theorem TriesHold.commitStorages (h : TriesHold B classes contracts storages db)
    (u : SortedMap Felt (SortedMap Felt Felt)) :
    TriesHold B classes contracts (storagesAfter storages u)
      (commitStorages B C block u db) := by
  have hrows : ∀ (l : List (Felt × SortedMap Felt Felt)) (storages : Felt → TrieMap) (db : Db P),
      TriesHold B classes contracts storages db →
      TriesHold B classes contracts
        (l.foldl (fun storages r =>
          Function.update storages r.1 ((storages r.1).setAll (TrieMap.entries r.2))) storages)
        (l.foldl (fun db r => commitDb (B .storages) C .storages
          (bonsaiIdentifier .storages r.1) block (TrieMap.entries r.2) db) db) := by
    intro l
    induction l with
    | nil => exact fun _ _ h => h
    | cons r rs ih => exact fun _ _ h => ih _ _ (h.commitStorage r.1)
  exact hrows u.rows storages db h

theorem commitStorages_agree :
    Agree [.trie .storages,.trieChangeSet .storages] [.trieHistory .storages] db
      (commitStorages B C block u db) := by
  have hrows : ∀ (l : List (Felt × SortedMap Felt Felt)) (db : Db P),
      Agree [.trie .storages,.trieChangeSet .storages] [.trieHistory .storages] db
        (l.foldl (fun db r => commitDb (B .storages) C .storages
          (bonsaiIdentifier .storages r.1) block (TrieMap.entries r.2) db) db) := by
    intro l
    induction l with
    | nil => exact fun db => Agree.refl _ _ db
    | cons r rs ih => exact fun db => commitDb_agree.trans (ih _)
  exact hrows u.rows db

def leafEntries (H : Hashes) (B : TrieTable → Bonsai) (storages : Felt → TrieMap)
    (info : Felt → Option GenericContractInfo) (u : StateUpdates) : SortedMap Felt Felt :=
  (contractLeafs u).mapValues (leafValue H info (fun a =>
    (B .storages).root (storagesAfter storages u.storageUpdates a)))

theorem insertContractsTx_returns (h : TriesHold B classes contracts storages db)
    (u : StateUpdates) (committed : Db P) :
    Returns (insertContractsTx H B C block u committed) db (fun root s =>
      root=(B .contracts).root (contracts.setAll (TrieMap.entries
        (leafEntries H B storages (committed.get .contractInfo) u))) ∧
      s=commitDb (B .contracts) C .contracts (bonsaiIdentifier .contracts 0) block
        (TrieMap.entries (leafEntries H B storages (committed.get .contractInfo) u))
        (commitStorages B C block u.storageUpdates db)) := by
  refine (returns_foldl _ (fun r db => commitTrie_returns) db).bind ?_
  rintro _ _ rfl
  have hs : TriesHold B classes contracts (storagesAfter storages u.storageUpdates)
      (commitStorages B C block u.storageUpdates db) := h.commitStorages u.storageUpdates
  refine (returns_mapM _ (fun r _ => leafHash_returns hs r)).bind ?_
  rintro _ _ ⟨rfl,rfl⟩
  have hes : ((contractLeafs u).rows.map (fun r => (r.1,leafValue H (committed.get .contractInfo)
      (fun a => (B .storages).root (storagesAfter storages u.storageUpdates a)) r.1 r.2))).map
        (fun r => (triePath r.1,r.2))=
      TrieMap.entries (leafEntries H B storages (committed.get .contractInfo) u) := rfl
  rw [hes]
  refine commitTrie_returns.bind ?_
  rintro _ _ rfl
  refine rootTrie_returns.mono ?_
  rintro _ _ ⟨rfl,rfl⟩
  exact ⟨Bonsai.rootHash_eq hs.commitContracts.contracts,rfl⟩

structure Tries where
  classes : TrieMap := ∅
  contracts : TrieMap := ∅
  storages : Felt → TrieMap := fun _ => ∅

def Tries.after (H : Hashes) (B : TrieTable → Bonsai) (info : Felt → Option GenericContractInfo)
    (u : StateUpdates) (t : Tries) : Tries where
  classes := t.classes.setAll (TrieMap.entries (classEntries H u.declaredClasses))
  contracts := t.contracts.setAll (TrieMap.entries (leafEntries H B t.storages info u))
  storages := storagesAfter t.storages u.storageUpdates

def trieTables : List Table :=
  [.trie .classes,.trieChangeSet .classes,.trie .contracts,.trieChangeSet .contracts,
    .trie .storages,.trieChangeSet .storages]

def trieHistories : List DupTable :=
  [.trieHistory .classes,.trieHistory .contracts,.trieHistory .storages]

theorem updateTrie_returns {α : Type} {m : TrieM P α} {Q : α → Db P → Prop}
    (h : Returns m db Q) : ∃ a db', updateTrie {} m db=.ok a db' ∧ Q a db' := by
  obtain ⟨_,db',n,hr,a,rfl,hq⟩ := h 0
  refine ⟨a,db',?_,hq⟩
  simp only [updateTrie,hr]

def updateTries (H : Hashes) (B : TrieTable → Bonsai) (C : Codecs) (block : Nat) (u : StateUpdates)
    (t : Tries) (db : Db P) : Db P :=
  let classEs := TrieMap.entries (classEntries H u.declaredClasses)
  let leafEs := TrieMap.entries (leafEntries H B t.storages (db.get .contractInfo) u)
  commitDb (B .contracts) C .contracts (bonsaiIdentifier .contracts 0) block leafEs
    (commitStorages B C block u.storageUpdates
      (commitDb (B .classes) C .classes (bonsaiIdentifier .classes 0) block classEs db))

theorem trieInserts_ok {t : Tries} (h : TriesHold B t.classes t.contracts t.storages db)
    (u : StateUpdates) : ∃ db₁,
      trieInsertDeclaredClasses H B C {} block u.declaredClasses db=
        .ok ((B .classes).root (t.after H B (db.get .contractInfo) u).classes) db₁ ∧
      trieInsertContractUpdates H B C {} block u db₁=
        .ok ((B .contracts).root (t.after H B (db.get .contractInfo) u).contracts)
          (updateTries H B C block u t db) := by
  have hclasses : Returns (insertClassesTx H B C block u.declaredClasses) db _ :=
    insertClassesTx_returns h u.declaredClasses
  obtain ⟨_,db₁,h₁,rfl,hdb⟩ := updateTrie_returns hclasses
  refine ⟨db₁,h₁,?_⟩
  have hheld : TriesHold B (t.after H B (db.get .contractInfo) u).classes t.contracts t.storages
      db₁ := hdb ▸ h.commitClasses
  have hinfo : db₁.get .contractInfo=db.get .contractInfo :=
    funext (fun a => hdb ▸ commitDb_agree.get (by simp) a)
  have hcontracts : Returns (insertContractsTx H B C block u db₁) db₁ _ :=
    insertContractsTx_returns hheld u db₁
  obtain ⟨_,_,h₂,rfl,rfl⟩ := updateTrie_returns hcontracts
  rw [hinfo,hdb] at h₂
  rw [hdb]
  exact h₂

theorem TriesHold.updateTries {t : Tries} (h : TriesHold B t.classes t.contracts t.storages db)
    (u : StateUpdates) :
    TriesHold B (t.after H B (db.get .contractInfo) u).classes
      (t.after H B (db.get .contractInfo) u).contracts
      (t.after H B (db.get .contractInfo) u).storages (updateTries H B C block u t db) :=
  (h.commitClasses.commitStorages u.storageUpdates).commitContracts

theorem updateTries_agree (u : StateUpdates) (t : Tries) :
    Agree trieTables trieHistories db (updateTries H B C block u t db) := by
  refine (commitDb_agree.mono ?_ ?_).trans (((commitStorages_agree _).mono ?_ ?_).trans
    (commitDb_agree.mono ?_ ?_)) <;> simp [trieTables,trieHistories]

end Writers
end Katana
