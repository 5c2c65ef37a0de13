import Katana.Trie.View

/-! What a snapshot records, and what a database pinned to the snapshot answers. -/
namespace Katana
open ChangeLog
variable {P : Payloads}

def trieChangeBlocks (t : TrieTable) (db : Db P) (k : TrieDatabaseKey) : BlockList :=
  (db.get (.trieChangeSet t) k.encode).getD ∅

/-- The history tables of a trie hold the log. -/
def HoldsLog (C : Codecs) (t : TrieTable) (log : TrieLog) (db : Db P) : Prop :=
  Indexed log TrieDatabaseKey.encode C.byteVec.encode (trieChangeBlocks t db)
    (fun n w => db.HasDup (.trieHistory t) n w)

theorem HoldsLog.of_agree {C : Codecs} {t : TrieTable} {log : TrieLog} {db db' : Db P}
    {S : List Table} {D : List DupTable} (h : HoldsLog C t log db) (ha : Agree S D db db')
    (hS : .trieChangeSet t∉S) (hD : .trieHistory t∉D) : HoldsLog C t log db' := by
  have hb : trieChangeBlocks t db'=trieChangeBlocks t db := by
    funext k
    rw [trieChangeBlocks,trieChangeBlocks,ha.get hS]
  unfold HoldsLog at h ⊢
  rw [hb]
  simpa only [ha.hasDup hD] using h

section Snapshot
variable {C : Codecs} {t : TrieTable} {log : TrieLog} {db : Db P} {b : Nat}

theorem snapshotEntry_agree (db : Db P) (entry : TrieDatabaseKey × Bytes) :
    Agree [.trieChangeSet t] [.trieHistory t] db (TrieState.snapshotEntry C t b db entry) where
  kv t' ht' := Function.update_of_ne (by simpa using ht') _ _
  dup t' ht' := Function.update_of_ne (by simpa using ht') _ _

theorem snapshotEntries_agree (db : Db P) (entries : List (TrieDatabaseKey × Bytes)) :
    Agree [.trieChangeSet t] [.trieHistory t] db
      (entries.foldl (TrieState.snapshotEntry C t b) db) := by
  induction entries generalizing db with
  | nil => exact Agree.refl _ _ db
  | cons e es ih => exact (snapshotEntry_agree db e).trans (ih _)

theorem snapshotEntries_keys (db : Db P) (entries : List (TrieDatabaseKey × Bytes)) {raw : Bytes}
    {list : BlockList} (h : (entries.foldl (TrieState.snapshotEntry C t b) db).get
      (.trieChangeSet t) raw=some list) :
    (∃ e∈entries, raw=e.1.encode) ∨ ∃ list', db.get (.trieChangeSet t) raw=some list' := by
  induction entries generalizing db with
  | nil => exact Or.inr ⟨list,h⟩
  | cons e es ih =>
    obtain ⟨e',he',hr⟩ | ⟨list',hl'⟩ := ih (TrieState.snapshotEntry C t b db e) h
    · exact Or.inl ⟨e',List.mem_cons_of_mem e he',hr⟩
    · by_cases he : e.1.encode=raw
      · exact Or.inl ⟨e,List.mem_cons_self,he.symm⟩
      · refine Or.inr ⟨list',?_⟩
        simpa [TrieState.snapshotEntry,Db.get_put,he] using hl'

theorem snapshotEntry_holds (h : HoldsLog C t log db) {e : TrieDatabaseKey × Bytes}
    (hc : ∀ d∈log, d.time<b ∨ d.time=b ∧ d.key≠e.1) :
    HoldsLog C t (log++[⟨b,e.1,e.2⟩]) (TrieState.snapshotEntry C t b db e) := by
  refine h.concat hc ?_ ?_
  · intro k n
    by_cases hk : e.1=k
    · subst hk
      simp [trieChangeBlocks,TrieState.snapshotEntry]
    · have hne : ¬e.1.encode=k.encode := fun he => hk (TrieDatabaseKey.encode_inj he)
      simp [trieChangeBlocks,TrieState.snapshotEntry,Db.get_put,hne,hk]
  · intro n w
    rw [TrieState.snapshotEntry,Db.hasDup_putDup]
    rfl

theorem snapshotEntries_holds (h : HoldsLog C t log db)
    (entries : List (TrieDatabaseKey × Bytes)) (hn : (entries.map Prod.fst).Nodup)
    (hlt : ∀ d∈log, d.time<b ∨ d.time=b ∧ ∀ e∈entries, d.key≠e.1) :
    HoldsLog C t (log++changesAt b entries)
      (entries.foldl (TrieState.snapshotEntry C t b) db) := by
  induction entries using List.reverseRecOn with
  | nil => simpa [changesAt] using h
  | append_singleton es e ih =>
    simp only [List.map_append,List.map_cons,List.map_nil] at hn
    obtain ⟨hes,_,hdisj⟩ := List.nodup_append.mp hn
    have hlt' : ∀ d∈log, d.time<b ∨ d.time=b ∧ ∀ e∈es, d.key≠e.1 :=
      fun d hd => (hlt d hd).imp_right
        (fun hr => ⟨hr.1,fun e' he' => hr.2 e' (List.mem_append_left _ he')⟩)
    rw [List.foldl_append]
    have hstep := snapshotEntry_holds (ih hes hlt') (e := e) (b := b) (by
      intro d hd
      obtain hd | hd := List.mem_append.mp hd
      · exact (hlt d hd).imp_right (fun hr => ⟨hr.1,hr.2 e (by simp)⟩)
      · obtain ⟨ht,hk⟩ := (mem_changesAt _ _ _).mp hd
        exact Or.inr ⟨ht,hdisj _ (List.mem_map_of_mem hk) _ (by simp)⟩)
    simpa [changesAt] using hstep

end Snapshot
structure TrieState.Fresh (s : TrieState P) : Prop where
  live : ∀ t k, s.db.get (.trie t) k=none
  changes : ∀ t k, s.db.get (.trieChangeSet t) k=none
  history : ∀ t n w, ¬s.db.HasDup (.trieHistory t) n w
  cache : ∀ t, s.writeCache t=∅

/-- The state after the operations. -/
structure TrieRep (C : Codecs) (ops : List TrieOp) (s : TrieState P) : Prop where
  live : ∀ t k, s.get t k=liveValue t k ops
  cache : ∀ t, s.writeCache t=(trieView t ops).pending
  log : ∀ t, HoldsLog C t (trieView t ops).log s.db
  keys : ∀ t raw list, s.db.get (.trieChangeSet t) raw=some list →
    ∃ k v, raw=k.encode ∧ .insert t k v∈ops

/-- The snapshots of each trie have increasing numbers. -/
def SnapshotsIncrease (ops : List TrieOp) : Prop :=
  ∀ t, (snapshotBlocks t ops).Pairwise (·<·)

theorem SnapshotsIncrease.of_append {ops ops' : List TrieOp} (h : SnapshotsIncrease (ops++ops')) :
    SnapshotsIncrease ops := by
  intro t
  have ht := h t
  rw [snapshotBlocks_append] at ht
  exact (List.pairwise_append.mp ht).1

theorem SnapshotsIncrease.log_lt {ops ops' : List TrieOp} (h : SnapshotsIncrease (ops++ops'))
    {t : TrieTable} {b : Nat} (hb : b∈snapshotBlocks t ops') {c : Change TrieDatabaseKey Bytes}
    (hc : c∈(trieView t ops).log) : c.time<b := by
  have ht := h t
  rw [snapshotBlocks_append] at ht
  exact (List.pairwise_append.mp ht).2.2 _ (log_time t ops hc) b hb

section Run
variable {C : Codecs} {ops : List TrieOp} {op : TrieOp} {s s' : TrieState P} {t : TrieTable}
  {view : TrieView}

theorem TrieState.Fresh.rep (h : s.Fresh) (C : Codecs) : TrieRep C [] s where
  live t k := h.live t k.encode
  cache t := h.cache t
  log t := Indexed.empty (fun k => by rw [trieChangeBlocks,h.changes]; rfl) (h.history t)
  keys t raw list hl := by rw [h.changes] at hl; cases hl

theorem TrieStep.cache (hs : TrieStep C op s s') (h : s.writeCache t=view.pending) :
    s'.writeCache t=(view.step t op).pending := by
  cases hs with
  | insert t' k v =>
    by_cases ht : t'=t
    · subst ht
      simp [TrieState.insert,TrieView.step,h]
    · simp [TrieState.insert,TrieView.step,h,ht,Ne.symm ht]
  | remove t' k => exact h
  | snapshot t' b _ entries hp =>
    by_cases ht : t'=t
    · subst ht
      simp [TrieState.snapshot,TrieView.step]
    · simp [TrieState.snapshot,TrieView.step,h,ht,Ne.symm ht]

theorem trieInsert_agree (s : TrieState P) (t : TrieTable) (k : TrieDatabaseKey) (v : Bytes) :
    Agree [.trie t] [] s.db (s.insert t k v).2.db where
  kv t' ht' := Function.update_of_ne (by simpa using ht') _ _
  dup _ _ := rfl

theorem trieRemove_agree (s : TrieState P) (t : TrieTable) (k : TrieDatabaseKey) :
    Agree [.trie t] [] s.db (s.remove t k).2.db where
  kv t' ht' := Function.update_of_ne (by simpa using ht') _ _
  dup _ _ := rfl

section
variable (hs : TrieStep C op s s')
include hs

theorem TrieStep.log (hlog : HoldsLog C t view.log s.db) (h : s.writeCache t=view.pending)
    (hlt : ∀ b, op=.snapshot t b → ∀ c∈view.log, c.time<b) :
    HoldsLog C t (view.step t op).log s'.db := by
  cases hs with
  | insert t' k v =>
    have hv : (view.step t (.insert t' k v)).log=view.log := by
      by_cases ht : t'=t <;> simp [TrieView.step,ht]
    rw [hv]
    exact hlog.of_agree (trieInsert_agree s t' k v) (by simp) (by simp)
  | remove t' k => exact hlog.of_agree (trieRemove_agree s t' k) (by simp) (by simp)
  | snapshot t' b _ entries hp =>
    by_cases ht : t'=t
    · subst ht
      have hn : (entries.map Prod.fst).Nodup :=
        (hp.map Prod.fst).nodup_iff.mpr (s.writeCache t').keys_nodup
      have hall := snapshotEntries_holds hlog entries hn (fun d hd => Or.inl (hlt b rfl d hd))
      rw [h] at hp
      simp only [TrieView.step,if_true]
      refine hall.of_mem ?_ ?_
      · intro c
        simp [mem_changesAt,hp.mem_iff]
      · refine List.pairwise_append.mpr ⟨hlog.ordered,ordered_changesAt b _,?_⟩
        intro c hc d hd
        exact Or.inl (((mem_changesAt _ _ _).mp hd).1 ▸ hlt b rfl c hc)
    · simp only [TrieView.step,ht,if_false]
      exact hlog.of_agree (snapshotEntries_agree s.db entries) (by simpa using Ne.symm ht)
        (by simpa using Ne.symm ht)

theorem TrieStep.key {raw : Bytes} {list : BlockList}
    (hl : s'.db.get (.trieChangeSet t) raw=some list) :
    (∃ list', s.db.get (.trieChangeSet t) raw=some list') ∨
      ∃ k v, raw=k.encode ∧ (s.writeCache t).get k=some v := by
  cases hs with
  | insert t' k v => exact Or.inl ⟨list,by rw [← (trieInsert_agree s t' k v).get (by simp),hl]⟩
  | remove t' k => exact Or.inl ⟨list,by rw [← (trieRemove_agree s t' k).get (by simp),hl]⟩
  | snapshot t' b _ entries hp =>
    by_cases ht : t'=t
    · subst ht
      obtain ⟨e,he,rfl⟩ | hold := snapshotEntries_keys s.db entries hl
      · exact Or.inr ⟨e.1,e.2,rfl,(SortedMap.get_eq_some _ _ _).mpr (hp.mem_iff.mp he)⟩
      · exact Or.inl hold
    · refine Or.inl ⟨list,?_⟩
      rw [← hl]
      exact ((snapshotEntries_agree s.db entries).get (by simpa using Ne.symm ht) _).symm

theorem TrieStep.keys (hc : s.writeCache t=(trieView t ops).pending)
    (h : ∀ raw list, s.db.get (.trieChangeSet t) raw=some list →
      ∃ k v, raw=k.encode ∧ .insert t k v∈ops) (raw : Bytes) (list : BlockList)
    (hl : s'.db.get (.trieChangeSet t) raw=some list) :
    ∃ k v, raw=k.encode ∧ .insert t k v∈ops++[op] := by
  obtain ⟨list',hl'⟩ | ⟨k,v,rfl,hk⟩ := hs.key hl
  · obtain ⟨k,v,hk,hm⟩ := h raw list' hl'
    exact ⟨k,v,hk,List.mem_append_left _ hm⟩
  · rw [hc] at hk
    exact ⟨k,v,rfl,List.mem_append_left _ ((view_inserted t ops).1 _ _ hk)⟩

theorem TrieStep.live (h : ∀ t k, s.get t k=liveValue t k ops)
    (t : TrieTable) (k : TrieDatabaseKey) : s'.get t k=liveValue t k (ops++[op]) := by
  rw [liveValue_concat,← h t k]
  cases hs with
  | insert t' k' v =>
    by_cases ht : t'=t
    · subst ht
      by_cases hk : k'=k
      · simp [TrieState.get,TrieState.insert,hk]
      · have hne : ¬k'.encode=k.encode := fun he => hk (TrieDatabaseKey.encode_inj he)
        simp [TrieState.get,TrieState.insert,Db.get_put,hk,hne]
    · simp [TrieState.get,TrieState.insert,ht,Ne.symm ht]
  | remove t' k' =>
    by_cases ht : t'=t
    · subst ht
      by_cases hk : k'=k
      · simp [TrieState.get,TrieState.remove,Db.get_delete,hk]
      · have hne : ¬k'.encode=k.encode := fun he => hk (TrieDatabaseKey.encode_inj he)
        simp [TrieState.get,TrieState.remove,Db.get_delete,hk,hne]
    · simp [TrieState.get,TrieState.remove,ht,Ne.symm ht]
  | snapshot t' b _ entries hp => exact (snapshotEntries_agree s.db entries).get (by simp) _

end

theorem TrieRep.step (h : TrieRep C ops s) (hinc : SnapshotsIncrease (ops++[op]))
    (hs : TrieStep C op s s') : TrieRep C (ops++[op]) s' where
  live := hs.live h.live
  cache t := by
    rw [trieView_concat]
    exact hs.cache (h.cache t)
  log t := by
    rw [trieView_concat]
    refine hs.log (h.log t) (h.cache t) ?_
    rintro b rfl c hc
    exact hinc.log_lt (by simp [snapshotBlocks]) hc
  keys t := hs.keys (h.cache t) (h.keys t)

theorem TrieRun.rep {ops' : List TrieOp} (h : TrieRun C s ops' s') (hrep : TrieRep C ops s)
    (hinc : SnapshotsIncrease (ops++ops')) : TrieRep C (ops++ops') s' := by
  induction h with
  | nil => simpa using hrep
  | snoc _ hs ih =>
    rw [← List.append_assoc] at hinc ⊢
    exact (ih hinc.of_append).step hinc hs

end Run

theorem snapshotGet_eq {C : Codecs} {t : TrieTable} {log : TrieLog} {db : Db P}
    (h : HoldsLog C t log db) (hshort : ∀ c∈log, c.key.Short) (b : Nat) (k : TrieDatabaseKey) :
    snapshotGet C t db b k=.ok (asOf log b k) := by
  have hrecent : (db.get (.trieChangeSet t) k.encode).bind (recentChangeFromBlock b)=
      recentChangeFromBlock b (trieChangeBlocks t db k) := by
    rw [trieChangeBlocks]
    cases db.get (.trieChangeSet t) k.encode with
    | none => exact ((recent_eq_none b _).mpr (by simp)).symm
    | some l => rfl
  unfold snapshotGet
  rw [hrecent]
  cases hr : recentChangeFromBlock b (trieChangeBlocks t db k) with
  | none => rw [(h.recent_none b k).mp hr]
  | some n =>
    obtain ⟨v₀,hv₀⟩ := (h.mem_blocks k n).mp (recent_spec hr).1
    have hk : k.Short := hshort _ hv₀
    obtain ⟨v,hv,hrow,huniq⟩ := h.recent_some
      (fun c hc hp => (TrieDatabaseKey.eq_of_prefix hk (hshort c hc) hp).symm) hr
    have hseek : db.seek (.trieHistory t) n k.encode=some (TrieHistoryEntry.compress C ⟨k,v⟩) :=
      Db.seek_prefix hrow (List.prefix_append _ _) huniq
    simp [hseek,TrieHistoryEntry.decompress_compress C hk,hv]

theorem asOf_snapshot {pre post : List TrieOp} {t : TrieTable} {b : Nat}
    (hinc : SnapshotsIncrease (pre++[.snapshot t b]++post)) (k : TrieDatabaseKey) :
    asOf (trieView t (pre++[.snapshot t b]++post)).log b k=lastInsert t k pre := by
  obtain ⟨more,hlog,htime⟩ := log_append t (pre++[.snapshot t b]) post
  have hblock : snapshotBlocks t [.snapshot t b]=[b] := by simp [snapshotBlocks]
  have hbefore : ∀ c∈(trieView t (pre++[.snapshot t b])).log, c.time≤b := by
    intro c hc
    have hmem := log_time t _ hc
    have hlt := hinc.of_append t
    rw [snapshotBlocks_append,hblock] at hmem hlt
    obtain hm | hm := List.mem_append.mp hmem
    · exact le_of_lt ((List.pairwise_append.mp hlt).2.2 _ hm b (by simp))
    · exact le_of_eq (List.mem_singleton.mp hm)
  have hafter : ∀ c∈more, b<c.time := by
    intro c hc
    have hlt := hinc t
    rw [snapshotBlocks_append,snapshotBlocks_append,hblock] at hlt
    exact (List.pairwise_append.mp hlt).2.2 b (by simp) _ (htime c hc)
  have hlast := view_lastInsert t (pre++[.snapshot t b]) k
  rw [lastInsert_concat,trieView_concat] at hlast
  rw [hlog,asOf_append hbefore hafter,trieView_concat]
  simpa [TrieView.step] using hlast

/-- A snapshot answers what the live table held when it was taken, exactly for the keys
that were not removed after an insertion. -/
theorem snapshot_get_iff (C : Codecs) {s₀ s₁ s₂ s₃ : TrieState P} {pre post : List TrieOp}
    {t : TrieTable} {b : Nat} (hfresh : s₀.Fresh) (hpre : TrieRun C s₀ pre s₁)
    (hsnap : TrieStep C (.snapshot t b) s₁ s₂) (hpost : TrieRun C s₂ post s₃)
    (hinc : SnapshotsIncrease (pre++[.snapshot t b]++post))
    (hshort : ∀ k v, .insert t k v∈pre++[.snapshot t b]++post → k.Short)
    (k : TrieDatabaseKey) :
    snapshotGet C t s₃.db b k=.ok (s₁.get t k) ↔
      (lastInsert t k pre=none ∨ liveValue t k pre≠none) := by
  have hrep₁ : TrieRep C pre s₁ := hpre.rep (hfresh.rep C) hinc.of_append.of_append
  have hrep₃ := hpost.rep (hrep₁.step hinc.of_append hsnap) hinc
  have hkeys : ∀ c∈(trieView t (pre++[.snapshot t b]++post)).log, c.key.Short :=
    fun c hc => hshort _ _ ((view_inserted t _).2 c hc)
  rw [snapshotGet_eq (hrep₃.log t) hkeys,hrep₁.live]
  rw [asOf_snapshot hinc k,Except.ok.injEq]
  constructor
  · intro he
    cases hl : lastInsert t k pre with
    | none => exact Or.inl rfl
    | some v => exact Or.inr (by rw [← he,hl]; simp)
  · rintro (hn | hl)
    · cases hl : liveValue t k pre with
      | none => exact hn
      | some v =>
        rw [lastInsert_of_liveValue t pre hl] at hn
        cases hn
    · obtain ⟨v,hv⟩ := Option.ne_none_iff_exists'.mp hl
      rw [hv,lastInsert_of_liveValue t pre hv]

def emptyTries : TrieState P := ⟨Db.empty,fun _ => ∅⟩

theorem emptyTries_fresh : (emptyTries : TrieState P).Fresh where
  live _ _ := rfl
  changes _ _ := rfl
  history _ _ _ := Db.hasDup_empty _ _ _
  cache _ := rfl

def sampleKey : TrieDatabaseKey := ⟨.trie,[7]⟩

def keptOps : List TrieOp :=
  [.insert .classes sampleKey [1],.snapshot .classes 0,.insert .classes sampleKey [2]]

def removedOps : List TrieOp :=
  [.insert .classes sampleKey [1],.snapshot .classes 0,.remove .classes sampleKey]

def sampleTries (ops : List TrieOp) : TrieState unitPayloads :=
  runOps starknetCodecs ops emptyTries

theorem snapshot_get_kept :
    snapshotGet starknetCodecs .classes
        (runOps starknetCodecs [.snapshot .classes 1] (sampleTries keptOps)).db 1 sampleKey=
      .ok ((sampleTries keptOps).get .classes sampleKey) :=
  (snapshot_get_iff starknetCodecs emptyTries_fresh (trieRun_runOps _ keptOps _)
    (trieStep_run _ _ (.snapshot .classes 1)) (.nil _) (by intro t; cases t <;> decide)
    (by intro k v h; simp [keptOps] at h; rcases h with ⟨rfl,_⟩ | ⟨rfl,_⟩ <;> decide)
    sampleKey).mpr (Or.inr (by decide))

/-- A key removed before a snapshot is still in it. -/
theorem snapshot_get_removed :
    (sampleTries removedOps).get .classes sampleKey=none ∧
    snapshotGet starknetCodecs .classes
        (runOps starknetCodecs [.snapshot .classes 1] (sampleTries removedOps)).db 1 sampleKey=
      .ok (some [1]) := by
  have hinc : SnapshotsIncrease (removedOps++[.snapshot .classes 1]++[]) := by
    intro t
    cases t <;> decide
  have hrep : TrieRep starknetCodecs removedOps (sampleTries removedOps) :=
    (trieRun_runOps starknetCodecs removedOps emptyTries).rep (emptyTries_fresh.rep _)
      hinc.of_append.of_append
  have hrep' := hrep.step hinc.of_append (trieStep_run starknetCodecs _ (.snapshot .classes 1))
  refine ⟨(hrep.live .classes sampleKey).trans (by decide),?_⟩
  refine (snapshotGet_eq (hrep'.log .classes) ?_ 1 sampleKey).trans ?_
  · intro c hc
    have hmem := (view_inserted .classes _).2 c hc
    simp [removedOps] at hmem
    rw [hmem.1]
    decide
  · exact congrArg Except.ok ((asOf_snapshot hinc sampleKey).trans (by decide))

end Katana
