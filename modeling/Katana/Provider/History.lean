import Katana.Db.Postcard
import Katana.Provider.State

/-! Reads of the state of a block, after any later blocks, against what the blocks
wrote and against the latest state when the block was the tip. -/
namespace Katana
open ChangeLog
variable {P : Payloads} (blocks : List (BlockInput P))

def lastStorageWrite (a k : Felt) : Option Felt :=
  blocks.reverse.findSome? (fun b => (b.updates.storageUpdates.get a).bind (fun m => m.get k))

def lastDeployedClass (a : Felt) : Option Felt :=
  blocks.reverse.findSome? (fun b => b.updates.deployedContracts.get a)

def lastNonceUpdate (a : Felt) : Option Felt :=
  blocks.reverse.findSome? (fun b => b.updates.nonceUpdates.get a)

theorem lastStorageWrite_concat (b : BlockInput P) (a k : Felt) :
    lastStorageWrite (blocks++[b]) a k=
      ((b.updates.storageUpdates.get a).bind (fun m => m.get k)).or
        (lastStorageWrite blocks a k) := by
  cases h : (b.updates.storageUpdates.get a).bind (fun m => m.get k) <;>
    simp [lastStorageWrite,h]

theorem lastDeployedClass_concat (b : BlockInput P) (a : Felt) : lastDeployedClass (blocks++[b]) a=
      (b.updates.deployedContracts.get a).or (lastDeployedClass blocks a) := by
  cases h : b.updates.deployedContracts.get a <;> simp [lastDeployedClass,h]

theorem lastNonceUpdate_concat (b : BlockInput P) (a : Felt) : lastNonceUpdate (blocks++[b]) a=
      (b.updates.nonceUpdates.get a).or (lastNonceUpdate blocks a) := by
  cases h : b.updates.nonceUpdates.get a <;> simp [lastNonceUpdate,h]

/-- Only the number of the tip is answered from the latest state. -/
def LatestRoute (id : BlockHashOrNumber) (b : BlockInput P) (post : List (BlockInput P)) : Prop :=
  id=.num b.number ∧ post=[]

theorem latest_storageChanges (n : Nat) (m : SortedMap Felt (SortedMap Felt Felt)) (a k : Felt) :
    latest (storageChanges n m.rows) ⟨a,k⟩=(m.get a).bind (fun s => s.get k) := by
  cases hl : latest (storageChanges n m.rows) ⟨a,k⟩ with
  | some v =>
    obtain ⟨t,ht⟩ := latest_mem hl
    obtain ⟨_,r,hr,rfl,hv⟩ := mem_storageChanges.mp ht
    rw [(SortedMap.get_eq_some m r.1 r.2).mpr hr,Option.bind_some,hv]
  | none =>
    symm
    rw [Option.bind_eq_none_iff]
    intro s hs
    rw [Option.eq_none_iff_forall_ne_some]
    intro v hv
    have hmem : (⟨n,⟨a,k⟩,v⟩ : Change ContractStorageKey Felt)∈storageChanges n m.rows :=
      mem_storageChanges.mpr ⟨rfl,(a,s),(SortedMap.get_eq_some m a s).mp hs,rfl,hv⟩
    exact (latest_eq_none _ _).mp hl _ hmem rfl

theorem latest_storageLog (a k : Felt) :
    latest (storageLog blocks) ⟨a,k⟩=lastStorageWrite blocks a k := by
  rw [storageLog,latest_flatMap]
  simp only [latest_storageChanges,lastStorageWrite]

theorem latest_classLog (a : Felt) : latest (classLog blocks) a=lastDeployedClass blocks a := by
  rw [classLog,latest_flatMap]
  simp only [latest_changesAt,lastDeployedClass]

theorem latest_nonceLog (a : Felt) : latest (nonceLog blocks) a=lastNonceUpdate blocks a := by
  rw [nonceLog,latest_flatMap]
  simp only [latest_changesAt,lastNonceUpdate]

def upToBlock (n : Nat) : List (BlockInput P) :=
  blocks.filter (fun b => decide (b.number≤n))

theorem asOf_flatMap {κ : Type} [DecidableEq κ] {f : BlockInput P → List (Change κ Felt)}
    (blocks : List (BlockInput P)) (hf : ∀ c, ∀ x∈f c, x.time=c.number) (n : Nat) (k : κ) :
    asOf (blocks.flatMap f) n k=latest ((upToBlock blocks n).flatMap f) k := by
  have hupTo : upTo n (blocks.flatMap f)=(upToBlock blocks n).flatMap f := by
    induction blocks with
    | nil => rfl
    | cons b rest ih =>
      rw [List.flatMap_cons,upTo_append,ih]
      by_cases hb : b.number≤n
      · rw [upTo_eq_self (fun x hx => (hf b x hx).trans_le hb)]
        simp [hb,upToBlock]
      · rw [upTo_eq_nil (fun x hx => by rw [hf b x hx]; omega)]
        simp [hb,upToBlock]
  rw [asOf,hupTo]

section Split
variable {pre post : List (BlockInput P)} {b : BlockInput P}

section
variable (h : Increasing (pre++b::post))
include h

theorem Increasing.le_of_mem {c : BlockInput P}
    (hc : c∈pre++[b]) : c.number≤b.number := by
  obtain hc | hc := List.mem_append.mp hc
  · exact le_of_lt ((List.pairwise_append.mp h).2.2 c hc b List.mem_cons_self)
  · rw [List.mem_singleton.mp hc]

theorem Increasing.lt_of_mem {c : BlockInput P} (hc : c∈post) :
    b.number<c.number :=
  (List.pairwise_cons.mp (List.pairwise_append.mp h).2.1).1 c hc

theorem Increasing.upto : Increasing (pre++[b]) := by
  refine List.Pairwise.sublist ?_ h
  simp

theorem Increasing.upToBlock_eq :
    upToBlock (pre++b::post) b.number=pre++[b] := by
  have hpre : ∀ c∈pre++[b], decide (c.number≤b.number)=true :=
    fun c hc => decide_eq_true (h.le_of_mem hc)
  have hpost : ∀ c∈post, ¬decide (c.number≤b.number)=true :=
    fun c hc => by simpa using h.lt_of_mem hc
  have hsplit : pre++b::post=(pre++[b])++post := by simp
  rw [upToBlock,hsplit,List.filter_append,List.filter_eq_self.mpr hpre,
    List.filter_eq_nil_iff.mpr hpost,List.append_nil]

theorem asOf_split {κ : Type} [DecidableEq κ] {f : BlockInput P → List (Change κ Felt)}
    (hf : ∀ c, ∀ x∈f c, x.time=c.number) (k : κ) :
    asOf ((pre++b::post).flatMap f) b.number k=latest ((pre++[b]).flatMap f) k := by
  rw [asOf_flatMap _ hf,h.upToBlock_eq]

theorem asOf_storageLog (a k : Felt) :
    asOf (storageLog (pre++b::post)) b.number ⟨a,k⟩=lastStorageWrite (pre++[b]) a k :=
  (asOf_split h (fun _ _ hx => (mem_storageChanges.mp hx).1) _).trans (latest_storageLog _ a k)

theorem asOf_classLog (a : Felt) :
    asOf (classLog (pre++b::post)) b.number a=lastDeployedClass (pre++[b]) a :=
  (asOf_split h (fun _ _ hx => ((mem_changesAt _ _ _).mp hx).1) _).trans (latest_classLog _ a)

theorem asOf_nonceLog (a : Felt) :
    asOf (nonceLog (pre++b::post)) b.number a=lastNonceUpdate (pre++[b]) a :=
  (asOf_split h (fun _ _ hx => ((mem_changesAt _ _ _).mp hx).1) _).trans (latest_nonceLog _ a)

end

theorem NumberTables.latestNumber {db : Db P} (ht : NumberTables (pre++[b]) db)
    (h : Increasing (pre++[b])) : latestNumber db=.ok b.number := by
  have hlast : db.last .blockHashes=some (b.number,b.hash) := by
    refine (SortedMap.last_eq_some _ _ _).mpr ⟨(ht.hashes b.number).trans (by simp),?_⟩
    intro n hash hn
    have hn' := (ht.hashes n).symm.trans hn
    obtain ⟨c,hc,_⟩ := Option.map_eq_some_iff.mp hn'
    have hcn : c.number=n := by simpa using List.find?_some hc
    have hmem := List.mem_reverse.mp (List.mem_of_find?_eq_some hc)
    have hle := Increasing.le_of_mem (b := b) h hmem
    rw [← hcn]
    exact hle
  simp only [Katana.latestNumber,hlast]

/-- How the tables resolve an id of the block: by its number against the tip, or by its
hash. -/
theorem NumberTables.of_names {db : Db P} {id : BlockHashOrNumber}
    (ht : NumberTables (pre++b::post) db) (h : Increasing (pre++b::post)) (hid : Names id b post) :
    (LatestRoute id b post ∧ Katana.latestNumber db=.ok b.number) ∨
    (¬LatestRoute id b post ∧ id=.num b.number ∧
      ∃ tip, Katana.latestNumber db=.ok tip ∧ b.number<tip) ∨
    (¬LatestRoute id b post ∧ id=.hash b.hash ∧ db.get .blockNumbers b.hash=some b.number) := by
  obtain rfl | ⟨rfl,hlast⟩ := hid
  · cases post using List.reverseRecOn with
    | nil => exact Or.inl ⟨⟨rfl,rfl⟩,ht.latestNumber h⟩
    | append_singleton last c =>
      have hsplit : pre++b::(last++[c])=(pre++b::last)++[c] := by simp
      have hlt := h.lt_of_mem (c := c) (by simp)
      rw [hsplit] at h ht
      exact Or.inr (Or.inl ⟨by simp [LatestRoute],rfl,c.number,ht.latestNumber h,hlt⟩)
  · exact Or.inr (Or.inr ⟨by simp [LatestRoute],rfl,ht.number_of_hash hlast⟩)

/-- An id of an inserted block selects the block: the tip by number goes to the
latest state, everything else to the history. -/
theorem historical_of_names (C : Codecs) {id : BlockHashOrNumber} (h : Increasing (pre++b::post))
    (hid : Names id b post) :
    (LatestRoute id b post →
      historical (insertBlocks C (pre++b::post)) id=
        .ok (some (.latest (insertBlocks C (pre++b::post))))) ∧
    (¬LatestRoute id b post →
      historical (insertBlocks C (pre++b::post)) id=
        .ok (some (.historical (insertBlocks C (pre++b::post)) b.number))) := by
  obtain ⟨hr,hl⟩ | ⟨hr,rfl,tip,hl,hlt⟩ | ⟨hr,rfl,hn⟩ :=
    (insertBlocks_numberTables C (pre++b::post)).of_names h hid
  · refine ⟨fun _ => ?_,fun hno => absurd hr hno⟩
    rw [hr.1]
    simp [historical,hl]
  · refine ⟨fun hno => absurd hno hr,fun _ => ?_⟩
    simp [historical,hl,hlt]
  · refine ⟨fun hno => absurd hno hr,fun _ => ?_⟩
    simp only [historical,blockNumberByHash,hn]

theorem tip_nonce (C : Codecs) (h : Increasing (pre++b::post)) (a : Felt) :
    (StateProvider.latest (insertBlocks C (pre++[b]))).nonce C a=
      .ok ((mergedInfo (lastDeployedClass (pre++[b]) a) (lastNonceUpdate (pre++[b]) a)).map
        (fun info => info.nonce)) := by
  rw [latest_nonce (insertBlocks_rep C _ h.upto).contracts,latest_classLog,latest_nonceLog]

end Split

def nonceOnlyBlock : BlockInput unitPayloads :=
  stateBlock 0 100 { nonceUpdates := SortedMap.put 1 5 ∅ }

def deployOnlyBlock : BlockInput unitPayloads :=
  stateBlock 0 100 { deployedContracts := SortedMap.put 1 2 ∅ }

def accountBlock : BlockInput unitPayloads :=
  stateBlock 0 100
    { nonceUpdates := SortedMap.put 1 3 ∅
      storageUpdates := SortedMap.put 1 (SortedMap.put 7 9 ∅) ∅
      deployedContracts := SortedMap.put 1 2 ∅ }

def laterBlock : BlockInput unitPayloads :=
  stateBlock 1 101
    { nonceUpdates := SortedMap.put 1 4 ∅
      storageUpdates := SortedMap.put 1 (SortedMap.put 7 10 ∅) ∅ }

section Answers
variable {pre post : List (BlockInput P)} {b : BlockInput P} {id : BlockHashOrNumber}

/-- The nonce of an address at a block is the one the latest state had when the block
was the tip exactly when the request takes the latest state itself, or the address has a
nonce update and is a normalised one, or nothing touched the address: the change list
knows nonce updates only, while ContractInfo also answers for deployed contracts. -/
theorem historical_nonce_eq_tip_iff (C : Codecs) (h : Increasing (pre++b::post))
    (hid : Names id b post) (a : Felt) :
    (∃ st, historical (insertBlocks C (pre++b::post)) id=.ok (some st) ∧
      st.nonce C a=(StateProvider.latest (insertBlocks C (pre++[b]))).nonce C a) ↔
    LatestRoute id b post ∨
      (lastNonceUpdate (pre++[b]) a≠none ∧ C.normalizeAddress a=a) ∨
      (lastNonceUpdate (pre++[b]) a=none ∧ lastDeployedClass (pre++[b]) a=none) := by
  obtain ⟨hlatest,hhist⟩ := historical_of_names C h hid
  by_cases hroute : LatestRoute id b post
  · refine iff_of_true ⟨_,hlatest hroute,?_⟩ (Or.inl hroute)
    rw [hroute.2]
  · have hrep := (insertBlocks_rep C _ h).contracts
    rw [hhist hroute]
    simp only [Except.ok.injEq,Option.some.injEq,exists_eq_left',historical_nonce hrep.indexed,
      asOf_nonceLog h,tip_nonce C h,hroute,false_or]
    cases hn : lastNonceUpdate (pre++[b]) a with
    | some m =>
      by_cases hnorm : C.normalizeAddress a=a <;> simp [mergedInfo,hnorm]
    | none =>
      cases hd : lastDeployedClass (pre++[b]) a <;> simp [mergedInfo]

theorem historical_nonce_account :
    ∃ st, historical (insertBlocks starknetCodecs [accountBlock,laterBlock]) (.hash 100)=
        .ok (some st) ∧
      st.nonce starknetCodecs 1=
        (StateProvider.latest (insertBlocks starknetCodecs [accountBlock])).nonce
          starknetCodecs 1 :=
  (historical_nonce_eq_tip_iff starknetCodecs
    (by decide : Increasing ([]++accountBlock::[laterBlock])) (Or.inr ⟨rfl,by decide⟩) 1).mpr
      (Or.inr (Or.inl (by decide)))

/-- A contract deployed without a nonce update: zero in the latest state, nothing by the
hash of the same block. -/
theorem historical_nonce_of_deployed :
    (StateProvider.latest (insertBlocks starknetCodecs [deployOnlyBlock])).nonce
        starknetCodecs 1=.ok (some 0) ∧
    ∃ st, historical (insertBlocks starknetCodecs [deployOnlyBlock]) (.hash 100)=.ok (some st) ∧
      st.nonce starknetCodecs 1=.ok none := by
  have hinc : Increasing ([]++deployOnlyBlock::[]) := by decide
  have hid : Names (.hash 100) deployOnlyBlock [] := Or.inr ⟨rfl,by simp⟩
  refine ⟨(tip_nonce starknetCodecs hinc 1).trans (by decide),_,
    (historical_of_names starknetCodecs hinc hid).2 (by simp [LatestRoute]),?_⟩
  rw [historical_nonce (insertBlocks_rep starknetCodecs _ hinc).contracts.indexed,asOf_nonceLog hinc]
  decide

def NeverReplaced (blocks : List (BlockInput P)) (a : Felt) : Prop :=
  ∀ c∈blocks, c.updates.replacedClasses.get a=none

section
variable (C : Codecs) (pre post : List (BlockInput P)) (b : BlockInput P) (id : BlockHashOrNumber)
  (a k : Felt)

/-- The reads at the block answer what the last block up to it wrote, and the latest
state answered the same when the block was the tip. -/
def AnswersAsWritten : Prop :=
  ∃ st, historical (insertBlocks C (pre++b::post)) id=.ok (some st) ∧
    st.storage C a k=.ok (lastStorageWrite (pre++[b]) a k) ∧
    (StateProvider.latest (insertBlocks C (pre++[b]))).storage C a k=
      .ok (lastStorageWrite (pre++[b]) a k) ∧
    (NeverReplaced (pre++b::post) a →
      st.classHashOfContract C a=.ok (lastDeployedClass (pre++[b]) a))

/-- On the latest route a nonce update implies a deployment; on the historical route the
address is normalised, or nothing was written for it. -/
def HistoryCondition : Prop :=
  (LatestRoute id b post → NeverReplaced (pre++b::post) a →
    lastNonceUpdate (pre++[b]) a≠none → lastDeployedClass (pre++[b]) a≠none) ∧
  (¬LatestRoute id b post → C.normalizeAddress a=a ∨
    lastStorageWrite (pre++[b]) a k=none ∧
      (NeverReplaced (pre++b::post) a → lastDeployedClass (pre++[b]) a=none))

end

/-- No read of a block fails, and the reads are as written exactly under the condition. -/
theorem historical_answers_iff (C : Codecs) (h : Increasing (pre++b::post))
    (hid : Names id b post) (a k : Felt) :
    (AnswersAsWritten C pre post b id a k ↔ HistoryCondition C pre post b id a k) ∧
    ∃ st, historical (insertBlocks C (pre++b::post)) id=.ok (some st) ∧
      (∃ v, st.storage C a k=.ok v) ∧ ∃ c, st.classHashOfContract C a=.ok c := by
  obtain ⟨hlatest,hhist⟩ := historical_of_names C h hid
  obtain ⟨hs,hc⟩ := insertBlocks_rep C _ h
  unfold AnswersAsWritten HistoryCondition
  by_cases hroute : LatestRoute id b post
  · rw [hlatest hroute]
    have hpost := hroute.2
    subst hpost
    simp only [Except.ok.injEq,Option.some.injEq,exists_eq_left',latest_storage hs.holds,
      latest_storageLog,latest_class hc,latest_classLog,latest_nonceLog,true_and,and_true,
      hroute,forall_const,not_true_eq_false,false_implies]
    refine ⟨imp_congr_right (fun _ => ?_),⟨_,rfl⟩,⟨_,rfl⟩⟩
    cases lastDeployedClass (pre++[b]) a <;> cases lastNonceUpdate (pre++[b]) a <;>
      simp [mergedInfo]
  · rw [hhist hroute]
    simp only [Except.ok.injEq,Option.some.injEq,exists_eq_left',historical_storage hs.indexed,
      historical_class hc.indexed,asOf_storageLog h,asOf_classLog h,latest_storageLog,true_and,
      latest_storage (insertBlocks_rep C _ h.upto).storage.holds,
      hroute,not_false_eq_true,false_implies,forall_const]
    refine ⟨?_,⟨_,rfl⟩,⟨_,rfl⟩⟩
    by_cases hn : C.normalizeAddress a=a
    · simp [hn]
    · simp [hn,eq_comm]

theorem historical_answers_account :
    AnswersAsWritten starknetCodecs [] [laterBlock] accountBlock (.num 0) 1 7 :=
  (historical_answers_iff starknetCodecs (by decide) (Or.inl rfl) 1 7).1.mpr
    ⟨by simp [LatestRoute],fun _ => Or.inl (by decide)⟩

/-- A nonce update of an address that was never deployed: the tip answers class zero. -/
theorem tip_class_of_undeployed :
    ¬AnswersAsWritten starknetCodecs [] [] nonceOnlyBlock (.num 0) 1 0 := by
  rintro ⟨st,hst,-,-,hclass⟩
  have hinc : Increasing ([]++nonceOnlyBlock::[]) := by decide
  have htip := (historical_of_names starknetCodecs hinc (Or.inl rfl)).1 ⟨rfl,rfl⟩
  obtain rfl := Option.some.inj (Except.ok.inj (htip.symm.trans hst))
  have hzero := hclass (by simp [NeverReplaced,nonceOnlyBlock,stateBlock,BlockInput.updates])
  rw [latest_class (insertBlocks_rep starknetCodecs _ hinc).contracts,latest_classLog,
    latest_nonceLog] at hzero
  exact absurd hzero (by decide)

end Answers
end Katana
