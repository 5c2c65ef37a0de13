import Katana.Provider.ContractRep
import Katana.Provider.StorageRep

/-! What one insertion does to every table, and what a run of insertions leaves: the
storage and contract tables hold the logs of all blocks of the run. -/
namespace Katana
open ChangeLog DbTx
variable {P : Payloads} {C : Codecs} {b : BlockInput P} {db : Db P}

section
variable (C : Codecs) (b : BlockInput P) (off : Nat)

def blockEffect : Effect P :=
  (Effect.put .blockHashes b.number b.hash).andThen <|
  (Effect.put .blockNumbers b.hash b.number).andThen <|
  (Effect.put .blockStatusses b.number b.block.status).andThen <|
  (Effect.put .headers b.number (VersionedHeader.ofHeader b.block.block.header)).andThen <|
  Effect.put .blockBodyIndices b.number ⟨off,b.body.length⟩

def transactionEffect (n i : Nat) (tx : TxWithHash P) : Effect P :=
  (Effect.put .txHashes i tx.hash).andThen <|
  (Effect.put .txNumbers tx.hash i).andThen <|
  (Effect.put .txBlocks i n).andThen <|
  Effect.put .transactions i (VersionedTx.ofTx tx.transaction)

def declaredEffect (n : Nat) (classHash compiledHash : Felt) : Effect P :=
  (Effect.put .compiledClassHashes classHash compiledHash).andThen <|
  (Effect.put .classDeclarationBlock classHash n).andThen <|
  Effect.putDup .classDeclarations n (C.felt.encode classHash)

def deprecatedEffect (n : Nat) (classHash : Felt) : Effect P :=
  (Effect.put .classDeclarationBlock classHash n).andThen <|
  Effect.putDup .classDeclarations n (C.felt.encode classHash)

/-- All puts of an insertion outside the storage and contract tables. -/
def insertEffect : Effect P :=
  (blockEffect b off).andThen <|
  (Effect.ofList b.body.zipIdx (fun r => transactionEffect b.number (off+r.2) r.1)).andThen <|
  (Effect.ofList b.receipts.zipIdx (fun r => Effect.put .receipts (off+r.2) r.1)).andThen <|
  (Effect.ofList b.executions.zipIdx (fun r => Effect.put .txTraces (off+r.2) r.1)).andThen <|
  (Effect.ofList b.updates.declaredClasses.rows
    (fun r => declaredEffect C b.number r.1 r.2)).andThen <|
  (Effect.ofList b.updates.deprecatedDeclaredClasses.elems
    (fun h => deprecatedEffect C b.number h)).andThen <|
  Effect.ofList b.states.classes.rows (fun r => Effect.put .classes r.1 r.2)

theorem storeBlockAndClasses_puts :
    Puts (storeBlockAndClasses C b off) (insertEffect C b off) := by
  have hput : ∀ (t : Table) (k : t.Key) (v : t.Value P),
      Puts (DbTx.put t k v) (Effect.put t k v) := .put
  have hblock : Puts (storeBlock b off) (blockEffect b off) :=
    (hput _ _ _).andThen <| (hput _ _ _).andThen <| (hput _ _ _).andThen <|
    (hput _ _ _).andThen <| hput _ _ _
  have htx : ∀ r : TxWithHash P × Nat, Puts
      (storeTransaction b.number (off+r.2) r.1) (transactionEffect b.number (off+r.2) r.1) :=
    fun r => (hput _ _ _).andThen <| (hput _ _ _).andThen <| (hput _ _ _).andThen <| hput _ _ _
  refine hblock.andThen <| (Puts.forM _ htx).andThen <| ?_
  refine (Puts.forM _ (fun r => hput _ _ _)).andThen <| ?_
  refine (Puts.forM _ (fun r => hput _ _ _)).andThen <| ?_
  refine (Puts.forM _ (fun r => ?_)).andThen <|
    (Puts.forM _ (fun h => ?_)).andThen <| Puts.forM _ (fun r => hput _ _ _)
  · exact (hput _ _ _).andThen <| (hput _ _ _).andThen <| .putDup _ _ _
  · exact (hput _ _ _).andThen <| .putDup _ _ _

def insertPuts : (t : Table) → List (Change t.Key (t.Value P))
  | .blockHashes => [⟨0,b.number,b.hash⟩]
  | .blockNumbers => [⟨0,b.hash,b.number⟩]
  | .blockStatusses => [⟨0,b.number,b.block.status⟩]
  | .headers => [⟨0,b.number,VersionedHeader.ofHeader b.block.block.header⟩]
  | .blockBodyIndices => [⟨0,b.number,⟨off,b.body.length⟩⟩]
  | .txHashes => numbered off TxWithHash.hash b.body
  | .txNumbers => b.body.zipIdx.map (fun r => ⟨0,r.1.hash,off+r.2⟩)
  | .txBlocks => numbered off (fun _ => b.number) b.body
  | .transactions => numbered off (fun tx => VersionedTx.ofTx tx.transaction) b.body
  | .receipts => numbered off id b.receipts
  | .txTraces => numbered off id b.executions
  | .compiledClassHashes => changesAt 0 b.updates.declaredClasses.rows
  | .classDeclarationBlock =>
    b.updates.declaredClasses.rows.map (fun r => ⟨0,r.1,b.number⟩)++
      b.updates.deprecatedDeclaredClasses.elems.map (fun h => ⟨0,h,b.number⟩)
  | .classes => changesAt 0 b.states.classes.rows
  | .stageCheckpoints | .contractInfo | .contractInfoChangeSet | .storageChangeSet => []
  | .trie _ | .trieChangeSet _ => []

theorem insertEffect_puts (t : Table) :
    (insertEffect C b off).puts t=insertPuts b off t := by
  open Effect in
  cases t with
  | blockHashes | blockNumbers | blockStatusses | headers | blockBodyIndices =>
    refine puts_andThen_left rfl ?_
    repeat' first | exact puts_ofList_none (fun _ => rfl) | refine puts_andThen_right ?_ ?_
  | txHashes | txNumbers | txBlocks | transactions =>
    refine puts_andThen_right rfl <| puts_andThen_left (puts_ofList_one (fun _ => rfl)) ?_
    repeat' first | exact puts_ofList_none (fun _ => rfl) | refine puts_andThen_right ?_ ?_
  | receipts =>
    refine puts_andThen_right rfl <| puts_andThen_right (puts_ofList_none (fun _ => rfl)) <|
      puts_andThen_left (puts_ofList_one (fun _ => rfl)) ?_
    repeat' first | exact puts_ofList_none (fun _ => rfl) | refine puts_andThen_right ?_ ?_
  | txTraces =>
    refine puts_andThen_right rfl <| puts_andThen_right (puts_ofList_none (fun _ => rfl)) <|
      puts_andThen_right (puts_ofList_none (fun _ => rfl)) <|
      puts_andThen_left (puts_ofList_one (fun _ => rfl)) ?_
    repeat' first | exact puts_ofList_none (fun _ => rfl) | refine puts_andThen_right ?_ ?_
  | compiledClassHashes =>
    refine puts_andThen_right rfl <| puts_andThen_right (puts_ofList_none (fun _ => rfl)) <|
      puts_andThen_right (puts_ofList_none (fun _ => rfl)) <|
      puts_andThen_right (puts_ofList_none (fun _ => rfl)) <|
      puts_andThen_left (puts_ofList_one (fun _ => rfl)) <|
      puts_andThen_right (puts_ofList_none (fun _ => rfl)) (puts_ofList_none (fun _ => rfl))
  | classDeclarationBlock =>
    refine puts_andThen_right rfl <| puts_andThen_right (puts_ofList_none (fun _ => rfl)) <|
      puts_andThen_right (puts_ofList_none (fun _ => rfl)) <|
      puts_andThen_right (puts_ofList_none (fun _ => rfl)) <|
      puts_andThen (puts_ofList_one (fun _ => rfl)) <|
      puts_andThen_left (puts_ofList_one (fun _ => rfl)) (puts_ofList_none (fun _ => rfl))
  | classes =>
    refine puts_andThen_right rfl ?_
    repeat' first
      | exact puts_ofList_none (fun _ => rfl)
      | exact puts_ofList_one (fun _ => rfl)
      | refine puts_andThen_right ?_ ?_
  | _ =>
    refine puts_andThen_right rfl ?_
    repeat' first | exact puts_ofList_none (fun _ => rfl) | refine puts_andThen_right ?_ ?_

theorem insertEffect_dups_none {t : DupTable}
    (ht : t≠.classDeclarations) : (insertEffect C b off).dups t=[] := by
  open Effect in
  have hput : ∀ (k : Nat) (w : Bytes), (Effect.putDup .classDeclarations k w : Effect P).dups t=[] :=
    fun k w => by simp [Effect.putDup,ht]
  refine dups_andThen_none rfl <| dups_andThen_none (dups_ofList_none (fun _ => rfl)) <|
    dups_andThen_none (dups_ofList_none (fun _ => rfl)) <|
    dups_andThen_none (dups_ofList_none (fun _ => rfl)) <|
    dups_andThen_none (dups_ofList_none (fun r => ?_)) <|
    dups_andThen_none (dups_ofList_none (fun h => ?_)) (dups_ofList_none (fun _ => rfl))
  · exact dups_andThen_none rfl (dups_andThen_none rfl (hput _ _))
  · exact dups_andThen_none rfl (hput _ _)

end

theorem latest_txNumbers_ne {x : Felt} (hx : ∃ tx∈b.body, tx.hash=x) (off : Nat) :
    latest (insertPuts b off .txNumbers) x≠none := by
  intro hn
  obtain ⟨tx,htx,he⟩ := hx
  obtain ⟨j,hj⟩ := List.mem_iff_getElem?.mp htx
  have hput : (⟨0,tx.hash,off+j⟩ : Change Felt Nat)∈insertPuts b off .txNumbers :=
    List.mem_map.mpr ⟨(tx,j),List.mk_mem_zipIdx_iff_getElem?.mpr hj,rfl⟩
  exact (latest_eq_none _ x).mp hn _ hput he

/-- The classes a block declares, of either kind. -/
def DeclaresClass (u : StateUpdates) (h : Felt) : Prop :=
  (∃ c, u.declaredClasses.get h=some c) ∨ h∈u.deprecatedDeclaredClasses

def DeclarationRow (C : Codecs) (u : StateUpdates) (w : Bytes) : Prop :=
  ∃ h, w=C.felt.encode h ∧ DeclaresClass u h

theorem mem_insertEffect_declarations (C : Codecs) (b : BlockInput P) (off n : Nat) (w : Bytes) :
    (n,w)∈(insertEffect C b off).dups .classDeclarations ↔
      n=b.number ∧ DeclarationRow C b.updates w := by
  have hd : (insertEffect C b off).dups .classDeclarations=
      b.updates.declaredClasses.rows.map (fun r => (b.number,C.felt.encode r.1))++
      b.updates.deprecatedDeclaredClasses.elems.map (fun h => (b.number,C.felt.encode h)) := by
    have hnil : ∀ {α β : Type} (l : List α), l.flatMap (fun _ => ([] : List β))=[] := by simp
    simp [insertEffect,blockEffect,transactionEffect,declaredEffect,deprecatedEffect,
      Effect.andThen,Effect.ofList,Effect.put,Effect.putDup,List.map_eq_flatMap,hnil]
  rw [hd]
  simp only [List.mem_append,List.mem_map,Prod.mk.injEq,DeclarationRow,DeclaresClass,SortedMap.get_eq_some,
    SortedSet.mem_elems]
  constructor
  · rintro (⟨r,hr,rfl,rfl⟩ | ⟨h,hh,rfl,rfl⟩)
    · exact ⟨rfl,r.1,rfl,Or.inl ⟨r.2,hr⟩⟩
    · exact ⟨rfl,h,rfl,Or.inr hh⟩
  · rintro ⟨rfl,h,rfl,⟨c,hc⟩ | hh⟩
    · exact Or.inl ⟨(h,c),hc,rfl,rfl⟩
    · exact Or.inr ⟨h,hh,rfl,rfl⟩

theorem Effect.Holds.dup_same {off : Nat} {db' : Db P} (he : (insertEffect C b off).Holds db db')
    {t : DupTable} (ht : t≠.classDeclarations) (k : t.Key) (w : Bytes) :
    db'.HasDup t k w ↔ db.HasDup t k w := by
  simp [he.dup,insertEffect_dups_none C b off ht]

theorem insertBlockTx_parts {Q R S T : Db P → Prop}
    (h₁ : ∀ s, (insertEffect C b (db.entries .transactions)).Holds db s → Q s)
    (h₂ : ∀ s, Q s → Faulty.Ensures (storeStorageUpdates C b.number b.updates.storageUpdates) s
      (fun _ s' => Agree [.storageChangeSet] [.contractStorage,.storageChangeHistory] s s' → R s'))
    (h₃ : ∀ s, R s → Faulty.Ensures
      (storeDeployedContracts C b.number b.updates.deployedContracts) s (fun _ s' =>
        Agree [.contractInfo,.contractInfoChangeSet] [.classChangeHistory] s s' → S s'))
    (h₄ : ∀ s, S s → Faulty.Ensures (storeNonceUpdates C b.number b.updates.nonceUpdates) s
      (fun _ s' => Agree [.contractInfo,.contractInfoChangeSet] [.nonceChangeHistory] s s' → T s')) :
    Faulty.Ensures (insertBlockTx C b) db (fun _ db' => T db') := by
  refine read_then rfl (((storeBlockAndClasses_puts C b _).hasEffect db).bind ?_)
  intro _ s₁ he
  refine ((storeStorageUpdates_writes C b.number _).frame (h₂ s₁ (h₁ s₁ he))).bind ?_
  intro _ s₂ hs₂
  refine ((storeDeployedContracts_writes C b.number _).frame (h₃ s₂ (hs₂.1 hs₂.2))).bind ?_
  intro _ s₃ hs₃
  refine ((storeNonceUpdates_writes C b.number _).frame (h₄ s₃ (hs₃.1 hs₃.2))).mono ?_
  intro _ s₄ hs₄
  exact hs₄.1 hs₄.2

theorem insertBlockTx_holds {value : ContractStorageKey → Option Felt}
    (h : HoldsStorage C value db) :
    Faulty.Ensures (insertBlockTx C b) db (fun _ db' => HoldsStorage C
      (fun x => (latest (storageChanges b.number b.updates.storageUpdates.rows) x).or (value x))
      db') := by
  refine insertBlockTx_parts (Q := HoldsStorage C value) ?_ ?_
    (fun s hs => (storeDeployedContracts_info C s _ _).mono
      (fun _ s' _ ha => HoldsStorage.of_agree hs ha (by decide)))
    (fun s hs => (storeNonceUpdates_info C s _ _).mono
      (fun _ s' _ ha => HoldsStorage.of_agree hs ha (by decide)))
  · intro s he a w
    rw [he.dup_same (by decide),h a w]
  · intro s hs
    exact (storeStorageUpdates_holds hs _ _).mono (fun _ s' h' _ => h')

theorem insertBlockTx_info (h : StorageDecodes C db) :
    Faulty.Ensures (insertBlockTx C b) db (fun _ db' => ∀ a, db'.get .contractInfo a=
      GenericContractInfo.after (db.get .contractInfo a) (b.updates.deployedContracts.get a)
        (b.updates.nonceUpdates.get a)) := by
  refine insertBlockTx_parts
    (Q := fun s => StorageDecodes C s ∧ ∀ a, s.get .contractInfo a=db.get .contractInfo a)
    (R := fun s => ∀ a, s.get .contractInfo a=db.get .contractInfo a)
    (S := fun s => ∀ a, s.get .contractInfo a=GenericContractInfo.after
      (db.get .contractInfo a) (b.updates.deployedContracts.get a) none) ?_ ?_ ?_ ?_
  · intro s he
    refine ⟨fun a w hw => h a w ((he.dup_same (by decide) a w).mp hw),?_⟩
    intro a
    rw [he.get,insertEffect_puts]
    rfl
  · intro s hs
    refine (storeStorageUpdates_decodes hs.1 _ _).mono ?_
    intro _ s' _ ha a
    rw [ha.get (by decide),hs.2]
  · intro s hs
    refine (storeDeployedContracts_info C s _ _).mono ?_
    intro _ s' h' _ a
    rw [h' a,hs a]
  · intro s hs
    refine (storeNonceUpdates_info C s _ _).mono ?_
    intro _ s' h' _ a
    rw [h' a,hs a]
    cases b.updates.deployedContracts.get a <;> rfl

theorem insertBlockTx_index {storage : StorageLog} {classes nonces : FeltLog}
    (hd : StorageDecodes C db) (hs : StorageIndexed C storage db)
    (hc : ContractIndexed C classes nonces db) (hst : ∀ d∈storage, d.time<b.number)
    (hct : ∀ d∈classes, d.time<b.number) (hnt : ∀ d∈nonces, d.time<b.number) :
    Faulty.Ensures (insertBlockTx C b) db (fun _ db' =>
      StorageIndexed C (storage++storageChanges b.number b.updates.storageUpdates.rows) db' ∧
      ContractIndexed C (classes++changesAt b.number b.updates.deployedContracts.rows)
        (nonces++changesAt b.number b.updates.nonceUpdates.rows) db') := by
  refine insertBlockTx_parts
    (Q := fun s => StorageDecodes C s ∧ StorageIndexed C storage s ∧
      ContractIndexed C classes nonces s)
    (R := fun s => StorageIndexed C
        (storage++storageChanges b.number b.updates.storageUpdates.rows) s ∧
      ContractIndexed C classes nonces s)
    (S := fun s => StorageIndexed C
        (storage++storageChanges b.number b.updates.storageUpdates.rows) s ∧
      ContractIndexed C (classes++changesAt b.number b.updates.deployedContracts.rows) nonces s)
    ?_ ?_ ?_ ?_
  · intro s he
    refine ⟨fun a w hw => hd a w ((he.dup_same (by decide) a w).mp hw),hs.of_same ?_ ?_,
      hc.of_same ?_ ?_ ?_⟩
    · intro k
      rw [he.get,insertEffect_puts]
      rfl
    · exact he.dup_same (by decide)
    · intro a
      rw [he.get,insertEffect_puts]
      rfl
    · exact he.dup_same (by decide)
    · exact he.dup_same (by decide)
  · intro s h
    refine (storeStorageUpdates_index h.1 h.2.1 hst _).mono ?_
    intro _ s' h' ha
    exact ⟨h',h.2.2.of_agree ha (by decide) (by decide) (by decide)⟩
  · intro s h
    refine (storeDeployedContracts_index h.2 hct _).mono ?_
    intro _ s' h' ha
    exact ⟨h.1.of_agree ha (by decide) (by decide),h'⟩
  · intro s h
    refine (storeNonceUpdates_index h.2 hnt _).mono ?_
    intro _ s' h' ha
    exact ⟨h.1.of_agree ha (by decide) (by decide),h'⟩

end Katana
