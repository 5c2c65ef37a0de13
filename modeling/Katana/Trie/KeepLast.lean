import Katana.Trie.Prune

/-! What pruning leaves of the change lists and of the history, and what a database pinned to
a kept block still answers. -/
namespace Katana
open ChangeLog
variable {P : Payloads}

section Changeset
variable {t : TrieTable} {cutoff : Nat}

def prunedList (cutoff : Nat) (list : BlockList) : Option BlockList :=
  if ∃ m∈list.elems, m≤cutoff then
    if ∃ m∈list.elems, cutoff < m then some (BlockList.removeUpTo list cutoff).1 else none
  else some list

theorem mem_prunedList (cutoff : Nat) (list : BlockList) (n : Nat) :
    n∈(prunedList cutoff list).getD ∅ ↔ n∈list ∧ cutoff<n := by
  unfold prunedList
  by_cases hlow : ∃ m∈list.elems, m≤cutoff
  · rw [if_pos hlow]
    by_cases hhigh : ∃ m∈list.elems, cutoff < m
    · simp [hhigh,BlockList.removeUpTo]
    · simp only [hhigh,if_false,Option.getD_none,SortedSet.not_mem_empty,false_iff]
      exact fun h => hhigh ⟨n,h.1,h.2⟩
  · rw [if_neg hlow,Option.getD_some]
    refine ⟨fun h => ⟨h,?_⟩,And.left⟩
    exact not_le.mp (fun hle => hlow ⟨n,h,hle⟩)

theorem removeUpTo_removed (list : BlockList) (cutoff : Nat) :
    0<(BlockList.removeUpTo list cutoff).2 ↔ ∃ m∈list.elems, m≤cutoff := by
  simp [BlockList.removeUpTo,BlockList.rank,List.length_pos_iff_exists_mem]

theorem removeUpTo_select (list : BlockList) (cutoff : Nat) :
    BlockList.select (BlockList.removeUpTo list cutoff).1 0=none ↔
      ¬∃ m∈list.elems, cutoff < m := by
  simp [BlockList.select,BlockList.removeUpTo,SortedSet.filter]

theorem applyPrunedKey_get (db : Db P) (k : TrieDatabaseKey) (new : Option BlockList)
    (raw : Bytes) : (applyPrunedKey t db (k,new)).get (.trieChangeSet t) raw=
      if k.encode=raw then new else db.get (.trieChangeSet t) raw := by
  by_cases h : k.encode=raw <;> cases new <;>
    simp [applyPrunedKey,Db.get_put,Db.get_delete,h]

theorem applyPrunedKey_agree (db : Db P) (r : TrieDatabaseKey × Option BlockList) :
    Agree [.trieChangeSet t] [] db (applyPrunedKey t db r) := by
  obtain ⟨k,new⟩ := r
  cases new with
  | none | some l =>
    exact ⟨fun t' ht' => Function.update_of_ne (by simpa using ht') _ _,fun _ _ => rfl⟩

theorem flushed_agree (acc : Db P × PrunedKeys) :
    Agree [.trieChangeSet t] [] acc.1 (flushed t acc) := by
  obtain ⟨db,keys⟩ := acc
  unfold flushed
  induction keys generalizing db with
  | nil => exact Agree.refl _ _ db
  | cons r rs ih => exact (applyPrunedKey_agree db r).trans (ih _)

theorem flushed_writeFullBatch (acc : Db P × PrunedKeys) :
    flushed t (writeFullBatch t acc)=flushed t acc := by
  unfold writeFullBatch
  by_cases h : batchSize≤acc.2.length
  · rw [if_pos h]
    rfl
  · rw [if_neg h]

theorem queueKey_eq (keys : PrunedKeys) (k : TrieDatabaseKey) (list : BlockList) :
    queueKey cutoff keys k list=
      if ∃ m∈list.elems, m≤cutoff then keys++[(k,prunedList cutoff list)] else keys := by
  unfold queueKey prunedList
  simp only [removeUpTo_removed,removeUpTo_select,ite_not]
  by_cases hlow : ∃ m∈list.elems, m≤cutoff
  · simp [hlow]
  · simp [hlow]

theorem pruneChangesetEntry_get (cutoff : Nat) {k : TrieDatabaseKey} (hk : k.Short) {list : BlockList}
    {acc : Db P × PrunedKeys}
    (hget : (flushed t acc).get (.trieChangeSet t) k.encode=some list) :
    ∃ acc', pruneChangesetEntry t cutoff acc (k.encode,list)=.ok acc' ∧
      Agree [.trieChangeSet t] [] acc.1 acc'.1 ∧
      ∀ raw, (flushed t acc').get (.trieChangeSet t) raw=
        if k.encode=raw then prunedList cutoff list
        else (flushed t acc).get (.trieChangeSet t) raw := by
  have hdec : TrieDatabaseKey.decode k.encode=.ok k := by
    simpa using TrieDatabaseKey.decode_append hk []
  refine ⟨writeFullBatch t (acc.1,queueKey cutoff acc.2 k list),
    by simp only [pruneChangesetEntry,hdec],?_,?_⟩
  · unfold writeFullBatch
    split
    · exact flushed_agree (acc.1,queueKey cutoff acc.2 k list)
    · exact Agree.refl _ _ _
  · intro raw
    rw [flushed_writeFullBatch,queueKey_eq]
    by_cases hlow : ∃ m∈list.elems, m≤cutoff
    · have hone : flushed t (acc.1,acc.2++[(k,prunedList cutoff list)])=
          applyPrunedKey t (flushed t acc) (k,prunedList cutoff list) := by
        simp [flushed]
      rw [if_pos hlow,hone,applyPrunedKey_get]
    · have hsame : prunedList cutoff list=some list := by simp [prunedList,hlow]
      rw [if_neg hlow,hsame]
      by_cases hr : k.encode=raw
      · subst hr
        simpa using hget
      · rw [if_neg hr]

theorem pruneChangesetEntries_get (cutoff : Nat) (db : Db P) (rows : List (Bytes × BlockList))
    (hn : (rows.map Prod.fst).Nodup)
    (hrows : ∀ r∈rows, db.get (.trieChangeSet t) r.1=some r.2 ∧
      ∃ k : TrieDatabaseKey, k.Short ∧ k.encode=r.1) :
    ∃ acc, rows.foldlM (pruneChangesetEntry t cutoff) (db,[])=.ok acc ∧
      Agree [.trieChangeSet t] [] db acc.1 ∧
      ∀ raw, (flushed t acc).get (.trieChangeSet t) raw=
        if raw∈rows.map Prod.fst then
          (db.get (.trieChangeSet t) raw).bind (fun l => prunedList cutoff l)
        else db.get (.trieChangeSet t) raw := by
  induction rows using List.reverseRecOn with
  | nil => exact ⟨(db,[]),rfl,Agree.refl _ _ db,by simp [flushed]⟩
  | append_singleton rows r ih =>
    simp only [List.map_append,List.map_cons,List.map_nil] at hn
    obtain ⟨hrn,_,hdisj⟩ := List.nodup_append.mp hn
    obtain ⟨acc,hacc,hag,hget⟩ := ih hrn (fun q hq => hrows q (List.mem_append_left _ hq))
    obtain ⟨hr,k,hk,he⟩ := hrows r (by simp)
    have hnew : r.1∉rows.map Prod.fst := fun hm => hdisj _ hm r.1 (by simp) rfl
    have hcur : (flushed t acc).get (.trieChangeSet t) k.encode=some r.2 := by
      rw [hget,he,if_neg hnew,hr]
    obtain ⟨acc',hacc',hag',hget'⟩ := pruneChangesetEntry_get cutoff hk hcur
    refine ⟨acc',?_,hag.trans hag',?_⟩
    · rw [he] at hacc'
      rw [List.foldlM_append,hacc]
      simp [bind,Except.bind,pure,Except.pure,hacc']
    · intro raw
      rw [hget' raw,hget raw,he]
      by_cases hraw : r.1=raw
      · subst hraw
        simp [hr]
      · have hmem : raw∈(rows++[r]).map Prod.fst ↔ raw∈rows.map Prod.fst := by
          rw [List.map_append,List.mem_append]
          simp [Ne.symm hraw]
        by_cases hm : raw∈rows.map Prod.fst
        · rw [if_neg hraw,if_pos hm,if_pos (hmem.mpr hm)]
        · rw [if_neg hraw,if_neg hm,if_neg (fun h => hm (hmem.mp h))]

theorem pruneChangesetTable_get (cutoff : Nat) (db : Db P)
    (hkeys : ∀ raw list, db.get (.trieChangeSet t) raw=some list →
      ∃ k : TrieDatabaseKey, k.Short ∧ k.encode=raw) :
    ∃ db', pruneChangesetTable t cutoff db=.ok db' ∧ Agree [.trieChangeSet t] [] db db' ∧
      ∀ raw, db'.get (.trieChangeSet t) raw=
        (db.get (.trieChangeSet t) raw).bind (prunedList cutoff) := by
  have hrow : ∀ r∈(db.kv (.trieChangeSet t)).rows, db.get (.trieChangeSet t) r.1=some r.2 :=
    fun r hr => (SortedMap.get_eq_some _ r.1 r.2).mpr hr
  obtain ⟨acc,hacc,hag,hget⟩ := pruneChangesetEntries_get (t := t) cutoff db _
    (db.kv (.trieChangeSet t)).keys_nodup (fun r hr => ⟨hrow r hr,hkeys _ _ (hrow r hr)⟩)
  refine ⟨flushed t acc,?_,hag.trans (flushed_agree acc),?_⟩
  · simp only [pruneChangesetTable]
    rw [hacc]
  · intro raw
    rw [hget]
    cases hraw : db.get (.trieChangeSet t) raw with
    | none => simp
    | some list =>
      have hmem : raw∈(db.kv (.trieChangeSet t)).rows.map Prod.fst :=
        List.mem_map.mpr ⟨_,(SortedMap.get_eq_some _ _ _).mp hraw,rfl⟩
      rw [if_pos hmem]

end Changeset

section Tables
variable {cutoff : Nat}

theorem pruneHistoryTable_all (t : TrieTable) (db : Db P) (t' : TrieTable) (n : Nat) (w : Bytes) :
    (pruneHistoryTable t cutoff db).HasDup (.trieHistory t') n w ↔
      db.HasDup (.trieHistory t') n w ∧ (t'=t → cutoff<n) := by
  by_cases ht : t'=t
  · subst ht
    simpa using pruneHistoryTable_hasDup (t := t') cutoff db n w
  · simpa [ht] using (pruneHistoryTable_agree (t := t) cutoff db).hasDup
      (t := .trieHistory t') (by simpa using ht) n w

/-- The changeset keys that the walk reads back as they were written. -/
def ShortKeys (db : Db P) : Prop :=
  ∀ t raw list, db.get (.trieChangeSet t) raw=some list →
    ∃ k : TrieDatabaseKey, k.Short ∧ k.encode=raw

theorem pruneKeepLastN_tables (hcut : 0<cutoff) (db : Db P) (hkeys : ShortKeys db) :
    ∃ db', pruneKeepLastN cutoff db=.ok db' ∧ ∀ t,
      (∀ n w, db'.HasDup (.trieHistory t) n w ↔ db.HasDup (.trieHistory t) n w ∧ cutoff<n) ∧
      ∀ raw, db'.get (.trieChangeSet t) raw=
        (db.get (.trieChangeSet t) raw).bind (prunedList cutoff) := by
  obtain ⟨h,hh⟩ : ∃ h, h=pruneHistoryTable .storages cutoff
    (pruneHistoryTable .contracts cutoff (pruneHistoryTable .classes cutoff db)) := ⟨_,rfl⟩
  have hget : ∀ t k, h.get (.trieChangeSet t) k=db.get (.trieChangeSet t) k := by
    intro t k
    rw [hh,(pruneHistoryTable_agree _ _).get (by simp),(pruneHistoryTable_agree _ _).get (by simp),
      (pruneHistoryTable_agree _ _).get (by simp)]
  obtain ⟨c₁,r₁,a₁,m₁⟩ := pruneChangesetTable_get (t := .classes) cutoff h
    (fun raw list hl => hkeys _ raw list (by rw [← hget,hl]))
  obtain ⟨c₂,r₂,a₂,m₂⟩ := pruneChangesetTable_get (t := .contracts) cutoff c₁
    (fun raw list hl => hkeys _ raw list (by rw [← hget,← a₁.get (by simp),hl]))
  obtain ⟨c₃,r₃,a₃,m₃⟩ := pruneChangesetTable_get (t := .storages) cutoff c₂
    (fun raw list hl => hkeys _ raw list
      (by rw [← hget,← a₁.get (by simp),← a₂.get (by simp),hl]))
  refine ⟨c₃,?_,?_⟩
  · simp only [pruneKeepLastN,Nat.pos_iff_ne_zero.mp hcut,if_false]
    rw [← hh,r₁]
    simp only [Except.bind]
    rw [r₂]
    exact r₃
  · intro t
    constructor
    · intro n w
      rw [a₃.hasDup (by simp),a₂.hasDup (by simp),a₁.hasDup (by simp),hh]
      simp only [pruneHistoryTable_all]
      cases t <;> simp
    · intro raw
      cases t with
      | classes => rw [a₃.get (by simp),a₂.get (by simp),m₁,hget]
      | contracts => rw [a₃.get (by simp),m₂,a₁.get (by simp),hget]
      | storages => rw [m₃,a₂.get (by simp),a₁.get (by simp),hget]

theorem mem_trieChangeBlocks_pruned {t : TrieTable} {db db' : Db P} {k : TrieDatabaseKey}
    (h : db'.get (.trieChangeSet t) k.encode=
      (db.get (.trieChangeSet t) k.encode).bind (prunedList cutoff)) (n : Nat) :
    n∈trieChangeBlocks t db' k ↔ n∈trieChangeBlocks t db k ∧ cutoff<n := by
  rw [trieChangeBlocks,trieChangeBlocks,h]
  cases db.get (.trieChangeSet t) k.encode with
  | none => simp
  | some list => exact mem_prunedList cutoff list n

end Tables

theorem HoldsLog.prune {C : Codecs} {t : TrieTable} {log : TrieLog} {db db' : Db P} {cutoff : Nat}
    (h : HoldsLog C t log db)
    (hd : ∀ n w, db'.HasDup (.trieHistory t) n w ↔ db.HasDup (.trieHistory t) n w ∧ cutoff<n)
    (hb : ∀ raw, db'.get (.trieChangeSet t) raw=
      (db.get (.trieChangeSet t) raw).bind (prunedList cutoff)) :
    HoldsLog C t (log.filter (fun c => decide (cutoff<c.time))) db' where
  ordered := List.Pairwise.filter _ h.ordered
  mem_blocks k n := by simp [mem_trieChangeBlocks_pruned (hb k.encode),h.mem_blocks]
  mem_rows n w := by
    rw [hd,h.mem_rows]
    simp only [List.mem_filter,decide_eq_true_eq]
    constructor
    · rintro ⟨⟨k,v,hv,hw⟩,hlt⟩
      exact ⟨k,v,⟨hv,hlt⟩,hw⟩
    · rintro ⟨k,v,⟨hv,hlt⟩,hw⟩
      exact ⟨⟨k,v,hv,hw⟩,hlt⟩

section KeepLastN
variable {C : Codecs} {s₀ s : TrieState P} {ops : List TrieOp} {blocks : Nat}

def prunedLog (t : TrieTable) (ops : List TrieOp) (cutoff : Nat) : TrieLog :=
  (trieView t ops).log.filter (fun c => decide (cutoff<c.time))

theorem TrieRep.prune (hrep : TrieRep C ops s) (hshort : ∀ t k v, .insert t k v∈ops → k.Short)
    (hpos : 0<blocks) (hlt : blocks<getLatestBlockNumber s.db) :
    ∃ db', pruneDatabase (.keepLastN blocks) s.db=.ok db' ∧
      ∀ t, HoldsLog C t (prunedLog t ops (getLatestBlockNumber s.db-blocks)) db' := by
  generalize hlatest : getLatestBlockNumber s.db=latest at *
  obtain ⟨db',hprune,htables⟩ := pruneKeepLastN_tables
    (by omega : 0<latest-blocks) s.db
    (fun t raw list hl => by
      obtain ⟨k,v,rfl,hm⟩ := hrep.keys t raw list hl
      exact ⟨k,hshort t k v hm,rfl⟩)
  refine ⟨db',?_,fun t => (hrep.log t).prune (htables t).1 (htables t).2⟩
  have h0 : ¬blocks=0 := by omega
  have h1 : ¬latest<blocks := by omega
  have h2 : ¬latest-blocks=0 := by omega
  simp [pruneDatabase,hlatest,h0,h1,h2,hprune]

theorem log_short (hshort : ∀ t k v, .insert t k v∈ops → k.Short) (t : TrieTable) :
    ∀ c∈(trieView t ops).log, c.key.Short :=
  fun c hc => hshort _ _ _ ((view_inserted t ops).2 c hc)

theorem prunedLog_short (hshort : ∀ t k v, .insert t k v∈ops → k.Short) (t : TrieTable)
    (cutoff : Nat) : ∀ c∈prunedLog t ops cutoff, c.key.Short :=
  fun c hc => log_short hshort t c (List.mem_filter.mp hc).1

/-- Pruning keeps the answer of a retained snapshot exactly if the key has a recorded
change between the cutoff and the snapshot, or none up to the cutoff. -/
theorem prune_snapshotGet_iff (hfresh : s₀.Fresh) (hrun : TrieRun C s₀ ops s)
    (hinc : SnapshotsIncrease ops) (hshort : ∀ t k v, .insert t k v∈ops → k.Short)
    (hpos : 0<blocks) (hlt : blocks<getLatestBlockNumber s.db) :
    ∃ db', pruneDatabase (.keepLastN blocks) s.db=.ok db' ∧
      ∀ t k b, getLatestBlockNumber s.db-blocks<b → b≤getLatestBlockNumber s.db →
        (snapshotGet C t db' b k=snapshotGet C t s.db b k ↔
          ((∃ c∈(trieView t ops).log, c.key=k ∧ c.time≤getLatestBlockNumber s.db-blocks) →
            ∃ c∈(trieView t ops).log, c.key=k ∧
              getLatestBlockNumber s.db-blocks<c.time ∧ c.time≤b)) := by
  have hrep : TrieRep C ops s := hrun.rep (hfresh.rep C) hinc
  obtain ⟨db',hprune,hlog⟩ := hrep.prune hshort hpos hlt
  refine ⟨db',hprune,?_⟩
  intro t k b hcb _
  rw [snapshotGet_eq (hrep.log t) (log_short hshort t),
    snapshotGet_eq (hlog t) (prunedLog_short hshort t _),Except.ok.injEq]
  exact (hrep.log t).ordered.asOf_dropUpTo_iff _ b hcb k

end KeepLastN

/-- Tries without nodes in a database whose last header is that of block 3. -/
def headedTries : TrieState unitPayloads :=
  ⟨Db.empty.put .headers 3 (.ofHeader default),fun _ => ∅⟩

theorem headedTries_fresh : headedTries.Fresh where
  live _ _ := by simp [headedTries]
  changes _ _ := by simp [headedTries]
  history _ _ _ := Db.hasDup_empty (P := unitPayloads) _ _ _
  cache _ := rfl

def rewrittenOps : List TrieOp :=
  [.insert .classes sampleKey [1],.snapshot .classes 1,.insert .classes sampleKey [2],
    .snapshot .classes 3]

def writtenOnceOps : List TrieOp := [.insert .classes sampleKey [1],.snapshot .classes 1]

def headedRun (ops : List TrieOp) : TrieState unitPayloads := runOps starknetCodecs ops headedTries

theorem rewrittenOps_short : ∀ t k v, .insert t k v∈rewrittenOps → k.Short := by
  intro t k v h
  simp [rewrittenOps] at h
  rcases h with ⟨_,rfl,_⟩ | ⟨_,rfl,_⟩ <;> decide

/-- A key written again after the cutoff keeps its answer. -/
theorem prune_snapshotGet_rewritten :
    ∃ db', pruneDatabase (.keepLastN 1) (headedRun rewrittenOps).db=.ok db' ∧
      snapshotGet starknetCodecs .classes db' 3 sampleKey=
        snapshotGet starknetCodecs .classes (headedRun rewrittenOps).db 3 sampleKey := by
  obtain ⟨db',hprune,hiff⟩ := prune_snapshotGet_iff headedTries_fresh
    (trieRun_runOps starknetCodecs rewrittenOps _) (by intro t; cases t <;> decide)
    rewrittenOps_short (by decide : 0<1) (by decide)
  refine ⟨db',hprune,(hiff .classes sampleKey 3 (by decide) (by decide)).mpr ?_⟩
  exact fun _ => ⟨⟨3,sampleKey,[2]⟩,by decide,rfl,by decide,by decide⟩

/-- A key written once, before the cutoff, is lost to the block that is kept. -/
theorem prune_snapshotGet_written_once :
    snapshotGet starknetCodecs .classes (headedRun writtenOnceOps).db 3 sampleKey=.ok (some [1]) ∧
    ∃ db', pruneDatabase (.keepLastN 1) (headedRun writtenOnceOps).db=.ok db' ∧
      snapshotGet starknetCodecs .classes db' 3 sampleKey=.ok none := by
  have hshort : ∀ t k v, .insert t k v∈writtenOnceOps → k.Short := by
    intro t k v h
    simp [writtenOnceOps] at h
    rw [h.2.1]
    decide
  have hrep : TrieRep starknetCodecs writtenOnceOps (headedRun writtenOnceOps) :=
    (trieRun_runOps starknetCodecs writtenOnceOps _).rep (headedTries_fresh.rep _)
      (by intro t; cases t <;> decide)
  obtain ⟨db',hprune,hlog⟩ := hrep.prune hshort (by decide : 0<1) (by decide)
  refine ⟨?_,db',hprune,?_⟩
  · exact (snapshotGet_eq (hrep.log .classes) (log_short hshort _) 3 sampleKey).trans
      (congrArg Except.ok (by decide))
  · exact (snapshotGet_eq (hlog .classes) (prunedLog_short hshort _ _) 3 sampleKey).trans
      (congrArg Except.ok (by decide))

end Katana
