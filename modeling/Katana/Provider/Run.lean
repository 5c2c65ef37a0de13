import Katana.Provider.Inserted

/-! Runs of insertions that do not fail. After the run of a list of blocks with
increasing numbers, the storage and contract tables hold the logs of the blocks. -/
namespace Katana
open ChangeLog DbTx
variable {P : Payloads} {blocks : List (BlockInput P)} {C : Codecs} {b : BlockInput P} {db : Db P}

section
variable (blocks : List (BlockInput P))

def storageLog : StorageLog :=
  blocks.flatMap (fun b => storageChanges b.number b.updates.storageUpdates.rows)

def classLog : FeltLog :=
  blocks.flatMap (fun b => changesAt b.number b.updates.deployedContracts.rows)

def nonceLog : FeltLog :=
  blocks.flatMap (fun b => changesAt b.number b.updates.nonceUpdates.rows)

def Increasing : Prop :=
  blocks.Pairwise (fun b c => b.number<c.number)

instance : Decidable (Increasing blocks) :=
  inferInstanceAs (Decidable (blocks.Pairwise (fun b c => b.number<c.number)))

def DistinctNumbers : Prop := (blocks.map BlockInput.number).Nodup

instance : Decidable (DistinctNumbers blocks) :=
  inferInstanceAs (Decidable (blocks.map BlockInput.number).Nodup)

def lastCompiledHash (h : Felt) : Option Felt :=
  blocks.reverse.findSome? (fun b => b.updates.declaredClasses.get h)

theorem increasing_concat (b : BlockInput P) :
    Increasing (blocks++[b]) ↔ Increasing blocks ∧ ∀ c∈blocks, c.number<b.number := by
  simp [Increasing,List.pairwise_append]

end

theorem Increasing.of_prefix {pre : List (BlockInput P)} (h : Increasing blocks)
    (hp : pre<+:blocks) : Increasing pre :=
  List.Pairwise.sublist hp.sublist h

theorem storageLog_time {c : Change ContractStorageKey Felt} (hc : c∈storageLog blocks) :
    ∃ b∈blocks, c.time=b.number := by
  obtain ⟨b,hb,hc⟩ := List.mem_flatMap.mp hc
  exact ⟨b,hb,(mem_storageChanges.mp hc).1⟩

theorem classLog_time {c : Change Felt Felt} (hc : c∈classLog blocks) :
    ∃ b∈blocks, c.time=b.number := by
  obtain ⟨b,hb,hc⟩ := List.mem_flatMap.mp hc
  exact ⟨b,hb,((mem_changesAt _ _ _).mp hc).1⟩

theorem nonceLog_time {c : Change Felt Felt} (hc : c∈nonceLog blocks) :
    ∃ b∈blocks, c.time=b.number := by
  obtain ⟨b,hb,hc⟩ := List.mem_flatMap.mp hc
  exact ⟨b,hb,((mem_changesAt _ _ _).mp hc).1⟩

/-- The tables that reads of the state go through, after the blocks. -/
structure StateRep (C : Codecs) (blocks : List (BlockInput P)) (db : Db P) : Prop where
  storage : StorageRep C (storageLog blocks) db
  contracts : ContractRep C (classLog blocks) (nonceLog blocks) db

theorem insertBlockTx_logs (hd : StorageDecodes C db) (hs : StorageIndexed C (storageLog blocks) db)
    (hc : ContractIndexed C (classLog blocks) (nonceLog blocks) db)
    (hinc : Increasing (blocks++[b])) :
    Faulty.Ensures (insertBlockTx C b) db (fun _ db' =>
      StorageIndexed C (storageLog (blocks++[b])) db' ∧
      ContractIndexed C (classLog (blocks++[b])) (nonceLog (blocks++[b])) db') := by
  have htime : ∀ {t : Nat}, (∃ c∈blocks, t=c.number) → t<b.number := by
    intro t ht
    obtain ⟨c,hc,rfl⟩ := ht
    exact ((increasing_concat blocks b).mp hinc).2 c hc
  refine (insertBlockTx_index hd hs hc (fun d hd => htime (storageLog_time hd))
    (fun d hd => htime (classLog_time hd)) (fun d hd => htime (nonceLog_time hd))).mono ?_
  intro _ db' h'
  simpa [storageLog,classLog,nonceLog] using h'

theorem StateRep.insert (h : StateRep C blocks db) (hinc : Increasing (blocks++[b])) :
    Faulty.Ensures (insertBlockTx C b) db (fun _ db' => StateRep C (blocks++[b]) db') := by
  have hd := h.storage.holds.decodes
  refine ((insertBlockTx_holds h.storage.holds).and ((insertBlockTx_info hd).and
    (insertBlockTx_logs hd h.storage.indexed h.contracts.indexed hinc))).mono ?_
  intro _ db' h'
  refine ⟨⟨h'.2.2.1,?_⟩,⟨h'.2.2.2.classIndex,h'.2.2.2.nonceIndex,?_⟩⟩
  · intro a w
    simpa [storageLog,latest_append] using h'.1 a w
  · intro a
    rw [h'.2.1 a,h.contracts.info,after_mergedInfo]
    simp [classLog,nonceLog,latest_append,latest_changesAt]

theorem insertBlocks_concat (C : Codecs) (blocks : List (BlockInput P)) (b : BlockInput P) :
    insertBlocks C (blocks++[b])=
      (insertBlockWithStatesAndReceipts C {} b (insertBlocks C blocks)).2 := by
  simp [insertBlocks]

theorem insert_ensures {Q : Unit → Db P → Prop} (h : Faulty.Ensures (insertBlockTx C b) db Q) :
    ∃ db', insertBlockWithStatesAndReceipts C {} b db=(.ok (),db') ∧ Q () db' := by
  obtain ⟨a,db',n,hr,hq⟩ := h 0
  refine ⟨db',?_,hq⟩
  simp only [insertBlockWithStatesAndReceipts,update,hr]

theorem insert_spec {db' : Db P} {Q : Unit → Db P → Prop}
    (hins : insertBlockWithStatesAndReceipts C {} b db=(.ok (),db'))
    (h : Faulty.Ensures (insertBlockTx C b) db Q) : Q () db' := by
  obtain ⟨db'',hins',hq⟩ := insert_ensures h
  rw [hins] at hins'
  cases hins'
  exact hq

section
variable (C : Codecs) (blocks : List (BlockInput P))

theorem insertBlocks_decodes : StorageDecodes C (insertBlocks C blocks) := by
  induction blocks using List.reverseRecOn with
  | nil =>
    intro a w hw
    exact absurd hw (Db.hasDup_empty _ _ _)
  | append_singleton blocks b ih =>
    obtain ⟨db',hr,_,hdec⟩ := insert_ensures (insertBlockTx_inserted (b := b) ih)
    rw [insertBlocks_concat,hr]
    exact hdec

theorem insertBlocks_step (b : BlockInput P) :
    insertBlockWithStatesAndReceipts C {} b (insertBlocks C blocks)=
        (.ok (),insertBlocks C (blocks++[b])) ∧
      Inserted C b (insertBlocks C blocks) (insertBlocks C (blocks++[b])) := by
  obtain ⟨db',hr,hins,_⟩ :=
    insert_ensures (insertBlockTx_inserted (b := b) (insertBlocks_decodes C blocks))
  rw [insertBlocks_concat,hr]
  exact ⟨rfl,hins⟩

theorem insertBlocks_rep (h : Increasing blocks) : StateRep C blocks (insertBlocks C blocks) := by
  induction blocks using List.reverseRecOn with
  | nil => exact ⟨StorageRep.empty C,ContractRep.empty C⟩
  | append_singleton blocks b ih =>
    have hi := ((increasing_concat blocks b).mp h).1
    obtain ⟨db',hr,hrep⟩ := insert_ensures ((ih hi).insert h)
    rw [insertBlocks_concat,hr]
    exact hrep

end

/-- BlockHashes and BlockNumbers after the blocks: the last block of a number or of a hash
counts. -/
structure NumberTables (blocks : List (BlockInput P)) (db : Db P) : Prop where
  hashes : ∀ n, db.get .blockHashes n=
    (blocks.reverse.find? (fun b => decide (b.number=n))).map BlockInput.hash
  numbers : ∀ h, db.get .blockNumbers h=
    (blocks.reverse.find? (fun b => decide (b.hash=h))).map BlockInput.number

theorem NumberTables.insert {db' : Db P} (h : NumberTables blocks db) (hi : Inserted C b db db') :
    NumberTables (blocks++[b]) db' where
  hashes n := by
    rw [hi.get _ (by decide),h.hashes]
    by_cases hn : b.number=n <;> simp [insertPuts,latest,hn]
  numbers hash := by
    rw [hi.get _ (by decide),h.numbers]
    by_cases hh : b.hash=hash <;> simp [insertPuts,latest,hh]

theorem insertBlocks_numberTables (C : Codecs) (blocks : List (BlockInput P)) :
    NumberTables blocks (insertBlocks C blocks) := by
  induction blocks using List.reverseRecOn with
  | nil => exact ⟨fun _ => rfl,fun _ => rfl⟩
  | append_singleton blocks b ih => exact ih.insert (insertBlocks_step C blocks b).2

theorem NumberTables.number_of_hash {pre post : List (BlockInput P)}
    (ht : NumberTables (pre++b::post) db) (h : ∀ c∈post, c.hash≠b.hash) :
    db.get .blockNumbers b.hash=some b.number := by
  have hnone : post.reverse.find? (fun c => decide (c.hash=b.hash))=none := by
    simpa [List.find?_eq_none] using h
  rw [ht.numbers]
  simp [List.find?_append,hnone]

/-- The id names the block b of a run that goes on with the blocks of post: by its
number, or by its hash if no later block reuses it. -/
def Names (id : BlockHashOrNumber) (b : BlockInput P) (post : List (BlockInput P)) : Prop :=
  id=.num b.number ∨ id=.hash b.hash ∧ ∀ c∈post, c.hash≠b.hash

theorem Increasing.distinctNumbers (h : Increasing blocks) : DistinctNumbers blocks :=
  List.pairwise_map.mpr (h.imp Nat.ne_of_lt)

theorem insertBlocks_rows {t : DupTable} {rows : BlockInput P → t.Key → Bytes → Prop}
    (h : ∀ pre b, RowsAdded t (rows b) (insertBlocks C pre) (insertBlocks C (pre++[b])))
    (blocks : List (BlockInput P)) (k : t.Key) (w : Bytes) :
    (insertBlocks C blocks).HasDup t k w ↔ ∃ b∈blocks, rows b k w := by
  induction blocks using List.reverseRecOn with
  | nil => simp [insertBlocks]
  | append_singleton blocks b ih =>
    rw [h blocks b k w,ih]
    simp only [List.mem_append,List.mem_singleton,or_and_right,exists_or,exists_eq_left]
    exact or_comm

theorem insertBlocks_get (C : Codecs) {t : Table} (ht : t∉historyTables) {k : t.Key}
    {f : BlockInput P → Option (t.Value P)} (h : ∀ b off, latest (insertPuts b off t) k=f b)
    (blocks : List (BlockInput P)) :
    (insertBlocks C blocks).get t k=blocks.reverse.findSome? f := by
  induction blocks using List.reverseRecOn with
  | nil => rfl
  | append_singleton blocks b ih =>
    rw [(insertBlocks_step C blocks b).2.get t ht,ih,h]
    simp only [List.reverse_append,List.reverse_cons,List.reverse_nil,List.nil_append,
      List.singleton_append,List.findSome?_cons]
    cases f b <;> rfl

theorem insertBlocks_compiledClassHashes (C : Codecs) (blocks : List (BlockInput P)) (h : Felt) :
    (insertBlocks C blocks).get .compiledClassHashes h=lastCompiledHash blocks h :=
  insertBlocks_get C (t := .compiledClassHashes) (by decide)
    (fun b _ => latest_changesAt 0 b.updates.declaredClasses h) blocks

end Katana
