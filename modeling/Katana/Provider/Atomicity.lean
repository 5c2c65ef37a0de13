import Katana.Provider.Insert
import Katana.Db.Postcard

/-! What a failed insertion leaves behind: Database::update commits whatever the closure
returned. -/
namespace Katana
variable {P : Payloads}
open DbTx

/-- The closure after the transaction count and the row of BlockHashes. -/
def afterBlockHash (C : Codecs) (b : BlockInput P) (txOffset : Nat) : TxM P Unit := do
  put .blockNumbers b.hash b.number
  put .blockStatusses b.number b.block.status
  put .headers b.number (VersionedHeader.ofHeader b.block.block.header)
  put .blockBodyIndices b.number ⟨txOffset,b.body.length⟩
  storeTransactions b.number txOffset b.body
  storeReceipts txOffset b.receipts
  storeExecutions txOffset b.executions
  storeDeclaredClasses C b.number b.updates.declaredClasses
  storeDeprecatedClasses C b.number b.updates.deprecatedDeclaredClasses
  storeClasses b.states.classes
  storeStorageUpdates C b.number b.updates.storageUpdates
  storeDeployedContracts C b.number b.updates.deployedContracts
  storeNonceUpdates C b.number b.updates.nonceUpdates

theorem insertBlockTx_eq (C : Codecs) (b : BlockInput P) :
    insertBlockTx C b=(do
      let txOffset ← entries .transactions
      put .blockHashes b.number b.hash
      afterBlockHash C b txOffset) := by
  simp only [insertBlockTx,storeBlockAndClasses,storeBlock,afterBlockHash,Faulty.bind_assoc]

section Writes
variable {S : List Table} {D : List DupTable}

theorem storeTransactions_writes
    (hS : [Table.txHashes,.txNumbers,.txBlocks,.transactions]⊆S) (n off : Nat)
    (txs : List (TxWithHash P)) : OnlyWrites S D (storeTransactions n off txs) := by
  apply OnlyWrites.forM
  intro r
  apply OnlyWrites.bind (OnlyWrites.put (hS (by simp)) _ _)
  intro _
  apply OnlyWrites.bind (OnlyWrites.put (hS (by simp)) _ _)
  intro _
  apply OnlyWrites.bind (OnlyWrites.put (hS (by simp)) _ _)
  intro _
  exact OnlyWrites.put (hS (by simp)) _ _

theorem storeDeclaredClasses_writes (C : Codecs)
    (hS : [Table.compiledClassHashes,.classDeclarationBlock]⊆S) (hD : .classDeclarations∈D)
    (n : Nat) (declared : SortedMap Felt Felt) :
    OnlyWrites S D (storeDeclaredClasses C n declared : TxM P Unit) := by
  apply OnlyWrites.forM
  intro r
  apply OnlyWrites.bind (OnlyWrites.put (hS (by simp)) _ _)
  intro _
  apply OnlyWrites.bind (OnlyWrites.put (hS (by simp)) _ _)
  intro _
  exact OnlyWrites.putDup hD _ _

theorem storeDeprecatedClasses_writes (C : Codecs) (hS : .classDeclarationBlock∈S)
    (hD : .classDeclarations∈D) (n : Nat) (deprecated : SortedSet Felt) :
    OnlyWrites S D (storeDeprecatedClasses C n deprecated : TxM P Unit) := by
  apply OnlyWrites.forM
  intro h
  apply OnlyWrites.bind (OnlyWrites.put hS _ _)
  intro _
  exact OnlyWrites.putDup hD _ _

theorem afterBlockHash_writes (C : Codecs) (b : BlockInput P) (off : Nat) :
    OnlyWrites [.blockNumbers,.blockStatusses,.headers,.blockBodyIndices,.txHashes,.txNumbers,
        .txBlocks,.transactions,.receipts,.txTraces,.compiledClassHashes,.classDeclarationBlock,
        .classes,.storageChangeSet,.contractInfo,.contractInfoChangeSet]
      [.classDeclarations,.contractStorage,.storageChangeHistory,.classChangeHistory,
        .nonceChangeHistory] (afterBlockHash C b off) := by
  apply OnlyWrites.bind (OnlyWrites.put (by simp) _ _)
  intro _
  apply OnlyWrites.bind (OnlyWrites.put (by simp) _ _)
  intro _
  apply OnlyWrites.bind (OnlyWrites.put (by simp) _ _)
  intro _
  apply OnlyWrites.bind (OnlyWrites.put (by simp) _ _)
  intro _
  apply OnlyWrites.bind (storeTransactions_writes (by simp) _ _ _)
  intro _
  apply OnlyWrites.bind (OnlyWrites.forM _ (fun _ => OnlyWrites.put (by simp) _ _))
  intro _
  apply OnlyWrites.bind (OnlyWrites.forM _ (fun _ => OnlyWrites.put (by simp) _ _))
  intro _
  apply OnlyWrites.bind (storeDeclaredClasses_writes C (by simp) (by simp) _ _)
  intro _
  apply OnlyWrites.bind (storeDeprecatedClasses_writes C (by simp) (by simp) _ _)
  intro _
  apply OnlyWrites.bind (OnlyWrites.forM _ (fun _ => OnlyWrites.put (by simp) _ _))
  intro _
  apply OnlyWrites.bind ((storeStorageUpdates_writes C _ _).mono (by simp) (by simp))
  intro _
  apply OnlyWrites.bind ((storeDeployedContracts_writes C _ _).mono (by simp) (by simp))
  intro _
  exact (storeNonceUpdates_writes C _ _).mono (by simp) (by simp)

def blockTables : List Table :=
  [.blockHashes,.blockNumbers,.blockStatusses,.headers,.blockBodyIndices,.txHashes,.txNumbers,
    .txBlocks,.transactions,.receipts,.txTraces,.compiledClassHashes,.classDeclarationBlock,
    .classes,.storageChangeSet,.contractInfo,.contractInfoChangeSet]

def blockHistories : List DupTable :=
  [.classDeclarations,.contractStorage,.storageChangeHistory,.classChangeHistory,
    .nonceChangeHistory]

theorem insertBlockTx_writes (C : Codecs) (b : BlockInput P) :
    OnlyWrites blockTables blockHistories (insertBlockTx C b) := by
  rw [insertBlockTx_eq]
  apply OnlyWrites.bind (OnlyWrites.read _)
  intro off
  apply OnlyWrites.bind (OnlyWrites.put (by simp [blockTables]) _ _)
  intro _
  exact (afterBlockHash_writes C b off).mono (by simp [blockTables]) (by simp [blockHistories])

end Writes

section Failure
variable {C : Codecs} {F : Nat → Option TxFault} {b : BlockInput P} {db : Db P}

theorem insertBlockTx_early (h : ∃ i<3, F i≠none) : (insertBlockTx C b F db 0).2.1=db := by
  rw [insertBlockTx_eq]
  cases h0 : F 0 with
  | some e =>
    have hoff : entries .transactions F db 0=(.error e,db,1) := read_fault _ h0 db
    rw [Faulty.bind_error hoff]
  | none =>
    have hoff : entries .transactions F db 0=(.ok (db.entries .transactions),db,1) := read_ok h0 rfl
    rw [Faulty.bind_ok hoff]
    cases h1 : F 1 with
    | some e => rw [Faulty.bind_error (put_fault_compress h1 db)]
    | none =>
      cases h2 : F 2 with
      | some e => rw [Faulty.bind_error (put_fault_write h1 h2 db)]
      | none =>
        obtain ⟨i,hi,hne⟩ := h
        have hcases : i=0 ∨ i=1 ∨ i=2 := by omega
        rcases hcases with rfl | rfl | rfl
        · exact absurd h0 hne
        · exact absurd h1 hne
        · exact absurd h2 hne

theorem insertBlockTx_late (h : ∀ i<3, F i=none) :
    (insertBlockTx C b F db 0).2.1.get .blockHashes b.number=some b.hash := by
  have hrest := afterBlockHash_writes C b (db.entries .transactions)
    (db.put .blockHashes b.number b.hash) F _ 3 (Agree.refl _ _ _)
  have hoff : entries .transactions F db 0=(.ok (db.entries .transactions),db,1) :=
    read_ok (h 0 (by omega)) rfl
  rw [insertBlockTx_eq,Faulty.bind_ok hoff,
    Faulty.bind_ok (put_ok (h 1 (by omega)) (h 2 (by omega)) db)]
  exact (hrest.get (t := .blockHashes) (by simp) b.number).trans (Db.get_put_self _ _ _ _)

/-- The failure comes before the first write, or the transaction is not committed. -/
def NothingWritten (env : TxEnv) (f : TxFault) : Prop :=
  (∃ i<3, env.faults i≠none) ∨ f.aborts=true ∨ env.commit≠none

/-- The call returns an error and leaves the database as it was. -/
def FailsUnchanged (C : Codecs) (env : TxEnv) (b : BlockInput P) (db : Db P) : Prop :=
  (∃ e, (insertBlockWithStatesAndReceipts C env b db).1=.error e) ∧
    (insertBlockWithStatesAndReceipts C env b db).2=db

/-- A failed insertion is undone if nothing was written, and only then, unless the same
block was stored before and the rows are written over themselves. -/
theorem insert_failed_unchanged_iff {env : TxEnv} {f : TxFault} {db' : Db P} {n : Nat}
    (hbegin : env.begin=none) (hfail : insertBlockTx C b env.faults db 0=(.error f,db',n)) :
    (∃ e, (insertBlockWithStatesAndReceipts C env b db).1=.error e) ∧
    (NothingWritten env f → FailsUnchanged C env b db) ∧
    (db.get .blockHashes b.number≠some b.hash →
      (FailsUnchanged C env b db ↔ NothingWritten env f)) := by
  unfold FailsUnchanged NothingWritten
  cases hc : env.commit with
  | some e => simp [insertBlockWithStatesAndReceipts,update,hbegin,hc]
  | none =>
    cases ha : f.aborts with
    | true => simp [insertBlockWithStatesAndReceipts,update,hbegin,hc,hfail,ha]
    | false =>
      simp only [insertBlockWithStatesAndReceipts,update,hbegin,hc,hfail,ha]
      by_cases hearly : ∃ i<3, env.faults i≠none
      · have hdb : (insertBlockTx C b env.faults db 0).2.1=db := insertBlockTx_early hearly
        rw [hfail] at hdb
        have hdb : db'=db := hdb
        simp [hearly,hdb]
      · have hnone : ∀ i<3, env.faults i=none :=
          fun i hi => not_not.mp (fun hne => hearly ⟨i,hi,hne⟩)
        have hget : (insertBlockTx C b env.faults db 0).2.1.get .blockHashes b.number=some b.hash :=
          insertBlockTx_late hnone
        rw [hfail] at hget
        have hne : db.get .blockHashes b.number≠some b.hash → db'≠db :=
          fun hnew he => hnew (he ▸ hget)
        simpa [hearly] using hne

def failingAt (n : Nat) (e : DatabaseError) : TxEnv where
  faults i := if i=n then some { error := .database e } else none

/-- The first write fails. -/
theorem insert_failed_at_first_write :
    FailsUnchanged starknetCodecs (failingAt 2 (.write 5 "BlockHashes" [])) (stateBlock 0 100 {})
      Db.empty :=
  ((insert_failed_unchanged_iff rfl rfl).2.2 (by simp)).mpr (Or.inl ⟨2,by decide,by decide⟩)

/-- The header is not encoded: the error is returned and the rows before it are committed. -/
theorem insert_failed_at_header :
    (insertBlockWithStatesAndReceipts starknetCodecs (failingAt 7 (.codec (.compress "header")))
      (stateBlock 0 100 {}) Db.empty).1=.error (.database (.codec (.compress "header"))) ∧
    (insertBlockWithStatesAndReceipts starknetCodecs (failingAt 7 (.codec (.compress "header")))
      (stateBlock 0 100 {}) Db.empty).2.get .blockHashes 0=some 100 ∧
    (Db.empty : Db unitPayloads).get .blockHashes 0=none := ⟨rfl,rfl,rfl⟩

end Failure

end Katana
