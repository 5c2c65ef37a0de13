import Katana.Provider.History

/-! The class of a contract and the declared classes, read at a block, against what the
blocks recorded. The insertion reads no entry of replaced_classes, and it keeps one
declaration block and one artifact for each class. -/
namespace Katana
open ChangeLog

/-! The state diff of the feeder gateway (feeder-gateway/src/types/mod.rs) and the block
that the Blocks stage inserts for it. -/
namespace FeederGateway

structure StorageDiff where
  key : Felt
  value : Felt

structure DeployedContract where
  address : Felt
  classHash : Felt

structure DeclaredContract where
  classHash : Felt
  compiledClassHash : Felt

structure StateDiff where
  storageDiffs : SortedMap Felt (List StorageDiff) := ∅
  deployedContracts : List DeployedContract := []
  oldDeclaredContracts : List Felt := []
  declaredClasses : List DeclaredContract := []
  nonces : SortedMap Felt Felt := ∅
  replacedClasses : List DeployedContract := []

def StateDiff.toStateUpdates (value : StateDiff) : StateUpdates where
  storageUpdates := SortedMap.ofList (value.storageDiffs.rows.map (fun r =>
    (r.1,SortedMap.ofList (r.2.map (fun diff => (diff.key,diff.value))))))
  deployedContracts :=
    SortedMap.ofList (value.deployedContracts.map (fun c => (c.address,c.classHash)))
  declaredClasses :=
    SortedMap.ofList (value.declaredClasses.map (fun c => (c.classHash,c.compiledClassHash)))
  replacedClasses :=
    SortedMap.ofList (value.replacedClasses.map (fun c => (c.address,c.classHash)))
  nonceUpdates := value.nonces
  deprecatedDeclaredClasses := value.oldDeclaredContracts.foldl (fun s h => s.insert h) ∅

variable {P : Payloads}

/-- The insertion of a downloaded block: no classes and no execution traces. -/
def StateDiff.insertion (diff : StateDiff) (block : SealedBlockWithStatus P)
    (receipts : List P.Receipt) : BlockInput P :=
  ⟨block,⟨diff.toStateUpdates,∅⟩,receipts,[]⟩

/-- The last entry of the diff for the contract, replacements after deployments. -/
def StateDiff.classEntry (diff : StateDiff) (a : Felt) : Option Felt :=
  ((diff.deployedContracts++diff.replacedClasses).reverse.find?
    (fun c => decide (c.address=a))).map DeployedContract.classHash

end FeederGateway

variable {P : Payloads}

/-- The entry for the contract in an update; a contract is replaced after its deployment. -/
def StateUpdates.classEntry (u : StateUpdates) (a : Felt) : Option Felt :=
  (u.replacedClasses.get a).or (u.deployedContracts.get a)

/-- The last entry among deployed_contracts and replaced_classes of the blocks. -/
def lastClassEntry (blocks : List (BlockInput P)) (a : Felt) : Option Felt :=
  blocks.reverse.findSome? (fun b => b.updates.classEntry a)

open FeederGateway in
theorem classEntry_toStateUpdates (diff : StateDiff) (a : Felt) :
    diff.toStateUpdates.classEntry a=diff.classEntry a := by
  have hfind : ∀ l : List DeployedContract,
      (SortedMap.ofList (l.map (fun c => (c.address,c.classHash)))).get a=
        (l.reverse.find? (fun c => decide (c.address=a))).map DeployedContract.classHash := by
    intro l
    rw [SortedMap.get_ofList_eq_find,← List.map_reverse,List.find?_map,Option.map_map]
    rfl
  simp only [StateUpdates.classEntry,StateDiff.toStateUpdates,hfind,StateDiff.classEntry,
    List.reverse_append,List.find?_append]
  cases diff.replacedClasses.reverse.find? (fun c => decide (c.address=a)) <;> rfl

open FeederGateway in
theorem lastClassEntry_synced
    (synced : List (StateDiff × SealedBlockWithStatus P × List P.Receipt)) (a : Felt) :
    lastClassEntry (synced.map (fun s => s.1.insertion s.2.1 s.2.2)) a=
      synced.reverse.findSome? (fun s => s.1.classEntry a) := by
  rw [lastClassEntry,← List.map_reverse,List.findSome?_map]
  congr 1
  funext s
  exact classEntry_toStateUpdates s.1 a

section Contracts
variable {pre post : List (BlockInput P)} {b : BlockInput P} {id : BlockHashOrNumber}

section
variable (C : Codecs) (pre post : List (BlockInput P)) (b : BlockInput P) (id : BlockHashOrNumber)
  (a : Felt)

/-- Both reads answer the last entry: the latest state when the block was the tip, and the
state of the block after any later blocks. -/
def ClassAsRecorded : Prop :=
  (StateProvider.latest (insertBlocks C (pre++[b]))).classHashOfContract C a=
      .ok (lastClassEntry (pre++[b]) a) ∧
    ∃ st, historical (insertBlocks C (pre++b::post)) id=.ok (some st) ∧
      st.classHashOfContract C a=.ok (lastClassEntry (pre++[b]) a)

/-- The last entry is a deployment or names the class of the last deployment, a nonce
update comes with a deployment, and history rows are found under the address. The other
case is a replacement by class zero, which the record of an address with a nonce shows by
default. -/
def ClassCondition : Prop :=
  lastClassEntry (pre++[b]) a=lastDeployedClass (pre++[b]) a ∧
      (lastNonceUpdate (pre++[b]) a≠none → lastDeployedClass (pre++[b]) a≠none) ∧
      (LatestRoute id b post ∨ C.normalizeAddress a=a ∨ lastDeployedClass (pre++[b]) a=none) ∨
    LatestRoute id b post ∧ lastDeployedClass (pre++[b]) a=none ∧
      lastNonceUpdate (pre++[b]) a≠none ∧ lastClassEntry (pre++[b]) a=some 0

end

theorem tip_class (C : Codecs) (h : Increasing (pre++b::post)) (a : Felt) :
    (StateProvider.latest (insertBlocks C (pre++[b]))).classHashOfContract C a=
      .ok ((mergedInfo (lastDeployedClass (pre++[b]) a) (lastNonceUpdate (pre++[b]) a)).map
        (fun info => info.classHash)) := by
  rw [latest_class (insertBlocks_rep C _ h.upto).contracts,latest_classLog,latest_nonceLog]

theorem contract_class_iff (C : Codecs) (h : Increasing (pre++b::post)) (hid : Names id b post)
    (a : Felt) : ClassAsRecorded C pre post b id a ↔ ClassCondition C pre post b id a := by
  obtain ⟨hlatest,hhist⟩ := historical_of_names C h hid
  unfold ClassAsRecorded ClassCondition
  rw [tip_class C h]
  by_cases hroute : LatestRoute id b post
  · have hpost := hroute.2
    subst hpost
    simp only [hlatest hroute,Except.ok.injEq,Option.some.injEq,exists_eq_left',tip_class C h,
      and_self,hroute,true_or,and_true,true_and]
    cases lastDeployedClass (pre++[b]) a <;> cases lastNonceUpdate (pre++[b]) a <;>
      simp [mergedInfo,eq_comm]
  · simp only [hhist hroute,Except.ok.injEq,Option.some.injEq,exists_eq_left',
      historical_class (insertBlocks_rep C _ h).contracts.indexed,asOf_classLog h,hroute,false_or,
      false_and,or_false]
    generalize lastClassEntry (pre++[b]) a=entry
    by_cases hn : C.normalizeAddress a=a <;> cases entry <;>
      cases lastDeployedClass (pre++[b]) a <;> cases lastNonceUpdate (pre++[b]) a <;>
      simp [mergedInfo,hn,eq_comm]

end Contracts

section Feeder
open FeederGateway

def deployDiff : StateDiff := { deployedContracts := [⟨1,2⟩],nonces := SortedMap.put 1 1 ∅ }

def replaceDiff : StateDiff := { replacedClasses := [⟨1,3⟩] }

def emptyBlock (number : Nat) (hash : Felt) : SealedBlockWithStatus unitPayloads :=
  ⟨⟨hash,{ (default : Header) with number := number },[]⟩,.acceptedOnL2⟩

def deployedInsertion : BlockInput unitPayloads := deployDiff.insertion (emptyBlock 0 100) []

def replacedInsertion : BlockInput unitPayloads := replaceDiff.insertion (emptyBlock 1 101) []

theorem contract_class_before_replacement :
    ClassAsRecorded starknetCodecs [] [replacedInsertion] deployedInsertion (.num 0) 1 :=
  (contract_class_iff starknetCodecs (by decide) (Or.inl rfl) 1).mpr
    (Or.inl ⟨by decide,fun _ => by decide,Or.inr (Or.inl (by decide))⟩)

/-- A synced block that replaces the class: the tip still answers the deployed class. -/
theorem contract_class_not_replaced :
    lastClassEntry [deployedInsertion,replacedInsertion] 1=some 3 ∧
    (StateProvider.latest (insertBlocks starknetCodecs
      [deployedInsertion,replacedInsertion])).classHashOfContract starknetCodecs 1=.ok (some 2) ∧
    ¬ClassAsRecorded starknetCodecs [deployedInsertion] [] replacedInsertion (.num 1) 1 := by
  have hinc : Increasing ([deployedInsertion]++replacedInsertion::[]) := by decide
  have hsynced := lastClassEntry_synced
    [(deployDiff,emptyBlock 0 100,[]),(replaceDiff,emptyBlock 1 101,[])] 1
  have hentry : lastClassEntry [deployedInsertion,replacedInsertion] 1=some 3 :=
    hsynced.trans (by decide)
  have htip := tip_class starknetCodecs hinc 1
  refine ⟨hentry,htip.trans (by decide),?_⟩
  intro hrec
  have hanswer := hrec.1.symm.trans htip
  exact absurd hanswer (by decide)

end Feeder

section Classes
variable {pre post : List (BlockInput P)} {b : BlockInput P} {id : BlockHashOrNumber}
  (blocks : List (BlockInput P)) (h : Felt)

/-- The artifact stored by the last of the blocks that brings one. -/
def lastArtifact : Option P.ContractClass :=
  blocks.reverse.findSome? (fun b => b.states.classes.get h)

instance (u : StateUpdates) (h : Felt) : Decidable (DeclaresClass u h) :=
  decidable_of_iff (u.declaredClasses.get h≠none ∨ h∈u.deprecatedDeclaredClasses)
    (or_congr_left Option.ne_none_iff_exists')

variable (C : Codecs)

theorem insertBlocks_classes (blocks : List (BlockInput P)) (h : Felt) :
    (insertBlocks C blocks).get .classes h=lastArtifact blocks h :=
  insertBlocks_get C (t := .classes) (by decide)
    (fun b _ => latest_changesAt 0 b.states.classes h) blocks

theorem mem_declarationPuts (b : BlockInput P) (off t : Nat) (h : Felt) (n : Nat) :
    (⟨t,h,n⟩ : Change Felt Nat)∈insertPuts b off .classDeclarationBlock ↔
      t=0 ∧ n=b.number ∧ DeclaresClass b.updates h := by
  simp only [insertPuts,List.mem_append,List.mem_map,Change.mk.injEq,DeclaresClass,
    SortedMap.get_eq_some,SortedSet.mem_elems]
  constructor
  · rintro (⟨r,hr,rfl,rfl,rfl⟩ | ⟨x,hx,rfl,rfl,rfl⟩)
    · exact ⟨rfl,rfl,Or.inl ⟨r.2,hr⟩⟩
    · exact ⟨rfl,rfl,Or.inr hx⟩
  · rintro ⟨rfl,rfl,⟨c,hc⟩ | hx⟩
    · exact Or.inl ⟨(h,c),hc,rfl,rfl,rfl⟩
    · exact Or.inr ⟨h,hx,rfl,rfl,rfl⟩

theorem latest_declarations (b : BlockInput P) (off : Nat) (h : Felt) :
    latest (insertPuts b off .classDeclarationBlock) h=
      if DeclaresClass b.updates h then some b.number else none := by
  cases hl : latest (insertPuts b off .classDeclarationBlock) h with
  | some n =>
    obtain ⟨t,ht⟩ := latest_mem hl
    obtain ⟨_,hn,hd⟩ := (mem_declarationPuts b off t h n).mp ht
    rw [if_pos hd,hn]
  | none =>
    refine (if_neg ?_).symm
    intro hd
    exact (latest_eq_none _ _).mp hl _ ((mem_declarationPuts b off 0 h _).mpr ⟨rfl,rfl,hd⟩) rfl

def declarationBlock : Option Nat :=
  blocks.reverse.findSome? (fun b => if DeclaresClass b.updates h then some b.number else none)

theorem insertBlocks_declarationBlock (blocks : List (BlockInput P)) (h : Felt) :
    (insertBlocks C blocks).get .classDeclarationBlock h=declarationBlock blocks h :=
  insertBlocks_get C (t := .classDeclarationBlock) (by decide)
    (fun b off => latest_declarations b off h) blocks

def DeclaredBy : Prop :=
  ∃ c∈blocks, DeclaresClass c.updates h

theorem declarationBlock_some {blocks : List (BlockInput P)} {h : Felt} {n : Nat}
    (hn : declarationBlock blocks h=some n) :
    ∃ c∈blocks, DeclaresClass c.updates h ∧ c.number=n := by
  obtain ⟨c,hc,hf⟩ := List.exists_of_findSome?_eq_some hn
  obtain ⟨hd,he⟩ := Option.ite_none_right_eq_some.mp hf
  exact ⟨c,List.mem_reverse.mp hc,hd,Option.some.inj he⟩

theorem declarationBlock_eq_none : declarationBlock blocks h=none ↔ ¬DeclaredBy blocks h := by
  simp [declarationBlock,DeclaredBy]

theorem declarationBlock_split (pre post : List (BlockInput P)) (b : BlockInput P) (h : Felt) :
    declarationBlock (pre++b::post) h=
      (declarationBlock post h).or (declarationBlock (pre++[b]) h) := by
  simp [declarationBlock,List.findSome?_append]

theorem declared_before_iff (hinc : Increasing (pre++b::post)) (h : Felt) :
    isClassDeclaredBeforeBlock (insertBlocks C (pre++b::post)) b.number h=true ↔
      DeclaredBy (pre++[b]) h ∧ ¬DeclaredBy post h := by
  rw [isClassDeclaredBeforeBlock,insertBlocks_declarationBlock,declarationBlock_split,
    ← declarationBlock_eq_none]
  cases hpost : declarationBlock post h with
  | some n =>
    obtain ⟨c,hc,_,rfl⟩ := declarationBlock_some hpost
    have hlt := hinc.lt_of_mem hc
    simp [hlt]
  | none =>
    cases hpre : declarationBlock (pre++[b]) h with
    | some n =>
      obtain ⟨c,hc,hd,rfl⟩ := declarationBlock_some hpre
      have hle := hinc.le_of_mem hc
      have hby : DeclaredBy (pre++[b]) h := ⟨c,hc,hd⟩
      simp [hle,hby]
    | none => simpa using (declarationBlock_eq_none _ _).mp hpre

theorem lastCompiledHash_of_not_declared {h : Felt} (hpost : ¬DeclaredBy post h) :
    lastCompiledHash (pre++b::post) h=lastCompiledHash (pre++[b]) h := by
  have hnone : post.reverse.findSome? (fun c => c.updates.declaredClasses.get h)=none := by
    rw [List.findSome?_eq_none_iff]
    intro c hc
    refine Option.eq_none_iff_forall_ne_some.mpr (fun x hx => hpost ?_)
    exact ⟨c,List.mem_reverse.mp hc,Or.inl ⟨x,hx⟩⟩
  simp [lastCompiledHash,List.findSome?_append,hnone]

/-- The state of the block answers for the class as the latest state did at the tip. -/
def ClassAsAtTip (pre post : List (BlockInput P)) (b : BlockInput P)
    (id : BlockHashOrNumber) (h : Felt) : Prop :=
  ∃ st, historical (insertBlocks C (pre++b::post)) id=.ok (some st) ∧
    st.class h=(StateProvider.latest (insertBlocks C (pre++[b]))).class h ∧
    st.compiledClassHashOfClassHash h=
      (StateProvider.latest (insertBlocks C (pre++[b]))).compiledClassHashOfClassHash h

/-- Either the declaration is found at the block and no later block changed the artifact,
or there was nothing to answer when the block was the tip. -/
def ClassKept (pre post : List (BlockInput P)) (b : BlockInput P) (id : BlockHashOrNumber)
    (h : Felt) : Prop :=
  LatestRoute id b post ∨
  (DeclaredBy (pre++[b]) h ∧ ¬DeclaredBy post h ∧
    lastArtifact (pre++b::post) h=lastArtifact (pre++[b]) h) ∨
  (DeclaredBy (pre++[b]) h → DeclaredBy post h) ∧
    lastArtifact (pre++[b]) h=none ∧ lastCompiledHash (pre++[b]) h=none

theorem class_as_at_tip_iff (hinc : Increasing (pre++b::post)) (hid : Names id b post) (h : Felt) :
    ClassAsAtTip C pre post b id h ↔ ClassKept pre post b id h := by
  obtain ⟨hlatest,hhist⟩ := historical_of_names C hinc hid
  unfold ClassAsAtTip ClassKept
  by_cases hroute : LatestRoute id b post
  · refine iff_of_true ⟨_,hlatest hroute,?_⟩ (Or.inl hroute)
    rw [hroute.2]
    exact ⟨rfl,rfl⟩
  · simp only [hhist hroute,Except.ok.injEq,Option.some.injEq,exists_eq_left',hroute,false_or,
      StateProvider.class,StateProvider.compiledClassHashOfClassHash,insertBlocks_classes,
      insertBlocks_compiledClassHashes]
    by_cases hdecl : DeclaredBy (pre++[b]) h ∧ ¬DeclaredBy post h
    · rw [(declared_before_iff C hinc h).mpr hdecl]
      simp [hdecl.1,hdecl.2,lastCompiledHash_of_not_declared hdecl.2]
    · have hno : isClassDeclaredBeforeBlock (insertBlocks C (pre++b::post)) b.number h=false :=
        Bool.eq_false_iff.mpr (fun hyes => hdecl ((declared_before_iff C hinc h).mp hyes))
      have himp : DeclaredBy (pre++[b]) h → DeclaredBy post h :=
        fun hd => not_not.mp (fun hp => hdecl ⟨hd,hp⟩)
      rw [hno]
      simp only [Bool.false_eq_true,if_false,Except.ok.injEq]
      constructor
      · rintro ⟨ha,hc⟩
        exact Or.inr ⟨himp,ha.symm,hc.symm⟩
      · rintro (⟨hd,hp,_⟩ | ⟨_,ha,hc⟩)
        · exact absurd ⟨hd,hp⟩ hdecl
        · exact ⟨ha.symm,hc.symm⟩

end Classes

def declaringBlock (number : Nat) (hash : Felt) : BlockInput unitPayloads :=
  { stateBlock number hash {} with
    states := ⟨{ declaredClasses := SortedMap.put 5 6 ∅ },SortedMap.put 5 () ∅⟩ }

theorem class_at_declaring_block :
    ClassAsAtTip starknetCodecs [] [laterBlock] (declaringBlock 0 100) (.num 0) 5 :=
  (class_as_at_tip_iff starknetCodecs (by decide) (Or.inl rfl) 5).mpr
    (Or.inr (Or.inl ⟨⟨_,List.mem_singleton.mpr rfl,by decide⟩,by simp [DeclaredBy]; decide,
      rfl⟩))

/-- A class that is declared again disappears from the block that declared it first. -/
theorem class_lost_by_redeclaration :
    (StateProvider.latest (insertBlocks starknetCodecs [declaringBlock 0 100])).class 5=
        .ok (some ()) ∧
    ¬ClassAsAtTip starknetCodecs [] [declaringBlock 1 101] (declaringBlock 0 100) (.num 0) 5 := by
  have hinc : Increasing ([]++declaringBlock 0 100::[declaringBlock 1 101]) := by decide
  have htip : (StateProvider.latest (insertBlocks starknetCodecs [declaringBlock 0 100])).class 5=
      .ok (some ()) := congrArg Except.ok (insertBlocks_classes starknetCodecs _ 5)
  refine ⟨htip,?_⟩
  rintro ⟨st,hst,hclass,-⟩
  have hhist := (historical_of_names starknetCodecs hinc (Or.inl rfl)).2 (by simp [LatestRoute])
  obtain rfl := Option.some.inj (Except.ok.inj (hhist.symm.trans hst))
  have hagain : DeclaredBy [declaringBlock 1 101] 5 := ⟨_,List.mem_singleton.mpr rfl,by decide⟩
  have hno : isClassDeclaredBeforeBlock (insertBlocks starknetCodecs
      ([]++declaringBlock 0 100::[declaringBlock 1 101])) (declaringBlock 0 100).number 5=false :=
    Bool.eq_false_iff.mpr (fun hyes =>
      ((declared_before_iff starknetCodecs hinc 5).mp hyes).2 hagain)
  have hnone := hclass.trans htip
  rw [StateProvider.class,hno] at hnone
  cases hnone

end Katana
