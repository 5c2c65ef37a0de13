import Katana.Provider.Insert

/-! What one insertion adds to the tables, whatever they hold and whatever the number of
the block. The insertion can only fail on a row of ContractStorage that does not decode. -/
namespace Katana
open ChangeLog DbTx
variable {P : Payloads} {C : Codecs}

def RowsAdded (t : DupTable) (rows : t.Key → Bytes → Prop) (db db' : Db P) : Prop :=
  ∀ k w, db'.HasDup t k w ↔ rows k w ∨ db.HasDup t k w

theorem forM_rows {α : Type} {I : Db P → Prop} {t : DupTable} {f : α → TxM P Unit}
    {rows : α → t.Key → Bytes → Prop} (l : List α)
    (h : ∀ x∈l, ∀ s, I s → Faulty.Ensures (f x) s (fun _ s' => I s' ∧ RowsAdded t (rows x) s s'))
    {s : Db P} (hs : I s) :
    Faulty.Ensures (l.forM f) s (fun _ s' =>
      I s' ∧ RowsAdded t (fun k w => ∃ x∈l, rows x k w) s s') := by
  refine Faulty.ensures_forM
    (fun pre s' => I s' ∧ RowsAdded t (fun k w => ∃ x∈pre, rows x k w) s s') l ?_ ?_
  · intro pre x post hl s₁ h₁
    refine (h x (by simp [hl]) s₁ h₁.1).mono ?_
    intro _ s₂ h₂
    refine ⟨h₂.1,?_⟩
    intro k w
    rw [h₂.2 k w,h₁.2 k w]
    simp only [List.mem_append,List.mem_singleton,or_and_right,exists_or,exists_eq_left]
    rw [← or_assoc]
    exact or_congr_left or_comm
  · exact ⟨hs,fun k w => by simp⟩

theorem storeStorageEntry_rows {db : Db P} (h : StorageDecodes C db) (n : Nat) (a : Felt)
    (e : StorageEntry) :
    Faulty.Ensures (storeStorageEntry C n a e) db (fun _ db' => StorageDecodes C db' ∧
      RowsAdded .storageChangeHistory
        (fun m w => m=n ∧ w=ContractStorageEntry.compress C ⟨⟨a,e.key⟩,e.value⟩) db db') := by
  refine (storeStorageEntry_decodes h n a e).and ((deleteCurrentEntry_decodes h a e.key).bind ?_)
  intro _ s₁ h₁
  refine get_then (put_then (putDup_then (ensures_putDup ?_)))
  intro m w
  simp only [Db.hasDup_putDup,Db.hasDup_putDup_table,Db.hasDup_put,ne_eq,reduceCtorEq,
    not_false_eq_true]
  rw [h₁.2.hasDup (by decide)]

def StorageRow (C : Codecs) (storage : SortedMap Felt (SortedMap Felt Felt)) (w : Bytes) : Prop :=
  ∃ a m k v, storage.get a=some m ∧ m.get k=some v ∧
    w=ContractStorageEntry.compress C ⟨⟨a,k⟩,v⟩

def ClassRow (C : Codecs) (deployed : SortedMap Felt Felt) (w : Bytes) : Prop :=
  ∃ a h, deployed.get a=some h ∧ w=ContractClassChange.compress C ⟨a,h⟩

def NonceRow (C : Codecs) (nonces : SortedMap Felt Felt) (w : Bytes) : Prop :=
  ∃ a n, nonces.get a=some n ∧ w=ContractNonceChange.compress C ⟨a,n⟩

theorem storeStorageUpdates_rows {db : Db P} (h : StorageDecodes C db) (n : Nat)
    (storage : SortedMap Felt (SortedMap Felt Felt)) :
    Faulty.Ensures (storeStorageUpdates C n storage) db (fun _ db' => StorageDecodes C db' ∧
      RowsAdded .storageChangeHistory (fun m w => m=n ∧ StorageRow C storage w) db db') := by
  refine read_then rfl ?_
  refine (forM_rows storage.rows (fun r _ s hs => forM_rows r.2.rows
    (fun e _ s' hs' => storeStorageEntry_rows hs' n r.1 ⟨e.1,e.2⟩) hs) h).mono ?_
  intro _ db' h'
  refine ⟨h'.1,?_⟩
  intro m w
  rw [h'.2 m w]
  refine or_congr_left ?_
  constructor
  · intro hrow
    obtain ⟨r,hr,e,he,hm,hw⟩ := hrow
    exact ⟨hm,r.1,r.2,e.1,e.2,(SortedMap.get_eq_some _ _ _).mpr hr,
      (SortedMap.get_eq_some _ _ _).mpr he,hw⟩
  · intro hrow
    obtain ⟨hm,a,inner,k,v,ha,hk,hw⟩ := hrow
    exact ⟨(a,inner),(SortedMap.get_eq_some _ _ _).mp ha,(k,v),(SortedMap.get_eq_some _ _ _).mp hk,
      hm,hw⟩

theorem forM_mapRows {t : DupTable} {n : t.Key} {enc : Felt → Felt → Bytes}
    {f : Felt × Felt → TxM P Unit}
    (h : ∀ r s, Faulty.Ensures (f r) s (fun _ s' =>
      RowsAdded t (fun k w => k=n ∧ w=enc r.1 r.2) s s')) (m : SortedMap Felt Felt) (db : Db P) :
    Faulty.Ensures (m.rows.forM f) db (fun _ db' =>
      RowsAdded t (fun k w => k=n ∧ ∃ a x, m.get a=some x ∧ w=enc a x) db db') := by
  refine (forM_rows m.rows (I := fun _ => True)
    (fun r _ s _ => (h r s).mono (fun _ _ hs => ⟨trivial,hs⟩)) trivial).mono ?_
  intro _ db' h' k w
  rw [h'.2 k w]
  refine or_congr_left ?_
  constructor
  · intro hrow
    obtain ⟨r,hr,hk,hw⟩ := hrow
    exact ⟨hk,r.1,r.2,(SortedMap.get_eq_some _ _ _).mpr hr,hw⟩
  · intro hrow
    obtain ⟨hk,a,x,ha,hw⟩ := hrow
    exact ⟨(a,x),(SortedMap.get_eq_some _ _ _).mp ha,hk,hw⟩

theorem storeDeployedContracts_rows (db : Db P) (n : Nat) (deployed : SortedMap Felt Felt) :
    Faulty.Ensures (storeDeployedContracts C n deployed) db (fun _ db' =>
      RowsAdded .classChangeHistory (fun m w => m=n ∧ ClassRow C deployed w) db db') := by
  refine forM_mapRows (t := .classChangeHistory) ?_ deployed db
  intro r s
  refine get_then (get_then (put_then (putDup_then (ensures_put ?_))))
  intro m w
  simp [Db.hasDup_putDup]

theorem storeNonceUpdates_rows (db : Db P) (n : Nat) (nonces : SortedMap Felt Felt) :
    Faulty.Ensures (storeNonceUpdates C n nonces) db (fun _ db' =>
      RowsAdded .nonceChangeHistory (fun m w => m=n ∧ NonceRow C nonces w) db db') := by
  refine forM_mapRows (t := .nonceChangeHistory) ?_ nonces db
  intro r s
  refine get_then (get_then (put_then (putDup_then (ensures_put ?_))))
  intro m w
  simp [Db.hasDup_putDup]

/-- The tables that an insertion does not only put to. -/
def historyTables : List Table := [.contractInfo,.contractInfoChangeSet,.storageChangeSet]

/-- What an insertion adds: puts outside the history tables, rows of the histories. -/
structure Inserted (C : Codecs) (b : BlockInput P) (db db' : Db P) : Prop where
  get : ∀ t, t∉historyTables → ∀ k,
    db'.get t k=(latest (insertPuts b (db.entries .transactions) t) k).or (db.get t k)
  declarations : RowsAdded .classDeclarations
    (fun n w => n=b.number ∧ DeclarationRow C b.updates w) db db'
  storageRows : RowsAdded .storageChangeHistory
    (fun n w => n=b.number ∧ StorageRow C b.updates.storageUpdates w) db db'
  classRows : RowsAdded .classChangeHistory
    (fun n w => n=b.number ∧ ClassRow C b.updates.deployedContracts w) db db'
  nonceRows : RowsAdded .nonceChangeHistory
    (fun n w => n=b.number ∧ NonceRow C b.updates.nonceUpdates w) db db'

theorem insertBlockTx_inserted {b : BlockInput P} {db : Db P} (h : StorageDecodes C db) :
    Faulty.Ensures (insertBlockTx C b) db (fun _ db' =>
      Inserted C b db db' ∧ StorageDecodes C db') := by
  refine read_then rfl ?_
  refine ((storeBlockAndClasses_puts C b _).hasEffect db).bind ?_
  intro _ s₁ he
  have h₁ : StorageDecodes C s₁ := fun a w hw => h a w ((he.dup_same (by decide) a w).mp hw)
  refine ((storeStorageUpdates_writes C b.number _).frame
    (storeStorageUpdates_rows h₁ _ _)).bind ?_
  intro _ s₂ h₂
  refine ((storeDeployedContracts_writes C b.number _).frame
    (storeDeployedContracts_rows s₂ _ _)).bind ?_
  intro _ s₃ h₃
  refine ((storeNonceUpdates_writes C b.number _).frame (storeNonceUpdates_rows s₃ _ _)).mono ?_
  intro _ s₄ h₄
  have ha₂ := h₂.2
  have ha₃ := h₃.2
  have ha₄ := h₄.2
  refine ⟨⟨?_,?_,?_,?_,?_⟩,(h₂.1.1.of_agree ha₃ (by decide)).of_agree ha₄ (by decide)⟩
  · intro t ht k
    have ht₂ : t∉[Table.storageChangeSet] := by
      intro hm
      exact ht (by simp_all [historyTables])
    have ht₃ : t∉[Table.contractInfo,Table.contractInfoChangeSet] := by
      intro hm
      rcases List.mem_cons.mp hm with rfl | hm
      · exact ht (by decide)
      · exact ht (by simp_all [historyTables])
    rw [ha₄.get ht₃,ha₃.get ht₃,ha₂.get ht₂,he.get,insertEffect_puts]
  · intro n w
    rw [ha₄.hasDup (by decide),ha₃.hasDup (by decide),ha₂.hasDup (by decide),he.dup,
      mem_insertEffect_declarations]
  · intro n w
    rw [ha₄.hasDup (by decide),ha₃.hasDup (by decide),h₂.1.2,he.dup_same (by decide)]
  · intro n w
    rw [ha₄.hasDup (by decide),h₃.1,ha₂.hasDup (by decide),he.dup_same (by decide)]
  · intro n w
    rw [h₄.1,ha₃.hasDup (by decide),ha₂.hasDup (by decide),he.dup_same (by decide)]

end Katana
