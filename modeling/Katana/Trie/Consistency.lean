import Katana.Trie.KeepLast

/-! The trie keys in the history tables, and the two history tables of a trie against each other
over trie operations and prune runs in any order. -/
namespace Katana
open ChangeLog
variable {P : Payloads} {C : Codecs} {t : TrieTable} {db : Db P} {k : TrieDatabaseKey}

/-- The history has an entry of the key under the block. -/
def HasEntry (C : Codecs) (t : TrieTable) (db : Db P) (k : TrieDatabaseKey) (block : Nat) : Prop :=
  ∃ raw e, db.HasDup (.trieHistory t) block raw ∧ TrieHistoryEntry.decompress C raw=.ok e ∧ e.key=k

/-- Seeking the key in the history lands on an entry of the key. -/
def SeekFinds (C : Codecs) (t : TrieTable) (db : Db P) (k : TrieDatabaseKey) (block : Nat) : Prop :=
  ∃ raw e, db.seek (.trieHistory t) block k.encode=some raw ∧
    TrieHistoryEntry.decompress C raw=.ok e ∧ e.key=k

theorem seek_stored {entries : Set TrieHistoryEntry} {block : Nat}
    (hshort : ∀ e∈entries, e.key.Short)
    (hrows : ∀ raw, db.HasDup (.trieHistory t) block raw ↔ ∃ e∈entries, raw=e.compress C)
    (hk : k.Short) : SeekFinds C t db k block ↔ ∃ e∈entries, e.key=k := by
  constructor
  · rintro ⟨raw,e,hseek,hdec,rfl⟩
    obtain ⟨e',he',rfl⟩ := (hrows raw).mp ((Db.seek_eq_some _ _ _ _ _).mp hseek).1
    rw [TrieHistoryEntry.decompress_compress C (hshort e' he')] at hdec
    exact ⟨e',he',by rw [← Except.ok.inj hdec]⟩
  · rintro ⟨e,he,rfl⟩
    have hrow := (hrows _).mpr ⟨e,he,rfl⟩
    have hle := ByteOrder.le_append e.key.encode (C.byteVec.encode e.value)
    cases hs : db.seek (.trieHistory t) block e.key.encode with
    | none => exact absurd hle ((Db.seek_eq_none _ _ _ _).mp hs _ hrow)
    | some raw =>
      -- what the seek returns stands between the key and the entry of the key
      obtain ⟨hraw,hge,hmin⟩ := (Db.seek_eq_some _ _ _ _ _).mp hs
      have hpre := ByteOrder.prefix_of_between _ _ _ hge (hmin _ hrow hle)
      obtain ⟨e',he',rfl⟩ := (hrows raw).mp hraw
      have hkey := TrieDatabaseKey.eq_of_prefix hk (hshort e' he') hpre
      exact ⟨_,e',hs,TrieHistoryEntry.decompress_compress C (hshort e' he') e'.value,hkey.symm⟩

/-- Keys of at most 255 bytes are read back, no encoding starts another, entries are read back,
and a seek by the encoded key finds an entry of the key exactly if one is stored. -/
theorem trie_key_codec (C : Codecs) (P : Payloads) :
    (∀ k : TrieDatabaseKey, k.Short → TrieDatabaseKey.decode k.encode=.ok k) ∧
    (∀ k k' : TrieDatabaseKey, k.Short → k'.Short → k.encode<+:k'.encode → k=k') ∧
    (∀ e : TrieHistoryEntry, e.key.Short → TrieHistoryEntry.decompress C (e.compress C)=.ok e) ∧
    ∀ (entries : Set TrieHistoryEntry) (db : Db P) (t : TrieTable) (block : Nat),
      (∀ e∈entries, e.key.Short) →
      (∀ raw, db.HasDup (.trieHistory t) block raw ↔ ∃ e∈entries, raw=e.compress C) →
      ∀ k : TrieDatabaseKey, k.Short → (SeekFinds C t db k block ↔ ∃ e∈entries, e.key=k) := by
  refine ⟨?_,?_,?_,?_⟩
  · intro k hk
    simpa using TrieDatabaseKey.decode_append hk []
  · intro k k' hk hk' hp
    exact TrieDatabaseKey.eq_of_prefix (w := []) hk hk' (by simpa using hp)
  · exact fun e he => TrieHistoryEntry.decompress_compress C he e.value
  · exact fun entries db t block hshort hrows k hk => seek_stored hshort hrows hk

/-- The bytes of the first key start those of the second. -/
def nestedEntries : List TrieHistoryEntry :=
  [⟨⟨.trie,[1]⟩,[7]⟩,⟨⟨.trie,[1,2]⟩,[8]⟩,⟨⟨.flat,[1]⟩,[9]⟩]

def nestedDb : Db unitPayloads :=
  nestedEntries.foldl (fun db e => db.putDup (.trieHistory .classes) 0 (e.compress starknetCodecs))
    Db.empty

theorem seek_nested_entries :
    SeekFinds starknetCodecs .classes nestedDb ⟨.trie,[1]⟩ 0 ∧
    SeekFinds starknetCodecs .classes nestedDb ⟨.trie,[1,2]⟩ 0 ∧
    ¬SeekFinds starknetCodecs .classes nestedDb ⟨.trie,[]⟩ 0 := by
  have hseek := (trie_key_codec starknetCodecs unitPayloads).2.2.2 {e | e∈nestedEntries} nestedDb
    .classes 0 (by simp only [Set.mem_ofPred_eq]; decide) (fun raw => by
      simp only [nestedDb,nestedEntries,List.foldl_cons,List.foldl_nil,Db.hasDup_putDup]
      simp
      tauto)
  simp only [Set.mem_ofPred_eq] at hseek
  exact ⟨(hseek _ (by decide)).mpr (by decide),(hseek _ (by decide)).mpr (by decide),
    fun h => absurd ((hseek _ (by decide)).mp h) (by decide)⟩

/-- Trie operations, and prune runs that are committed. The headers may have changed before a
prune run. -/
inductive PrunedRun (C : Codecs) : TrieState P → List TrieOp → TrieState P → Prop where
  | nil (s) : PrunedRun C s [] s
  | step {s s' s'' : TrieState P} {ops : List TrieOp} {op : TrieOp} (h : PrunedRun C s ops s')
      (hs : TrieStep C op s' s'') : PrunedRun C s (ops++[op]) s''
  | prune {s s' : TrieState P} {ops : List TrieOp} {mode : PruneMode} {db db' : Db P}
      (h : PrunedRun C s ops s') (hag : Agree [.headers] [] s'.db db)
      (hp : pruneDatabase mode db=.ok db') : PrunedRun C s ops { s' with db := db' }

/-- The tables hold a part of what the operations recorded. -/
structure PartRep (C : Codecs) (ops : List TrieOp) (s : TrieState P) : Prop where
  cache : ∀ t, s.writeCache t=(trieView t ops).pending
  log : ∀ t, ∃ log, HoldsLog C t log s.db ∧ ∀ c∈log, c∈(trieView t ops).log
  keys : ∀ t raw list, s.db.get (.trieChangeSet t) raw=some list →
    ∃ k v, raw=k.encode ∧ .insert t k v∈ops

section Run
variable {ops : List TrieOp} {op : TrieOp} {s s' : TrieState P}

theorem PartRep.step (h : PartRep C ops s) (hinc : SnapshotsIncrease (ops++[op]))
    (hs : TrieStep C op s s') : PartRep C (ops++[op]) s' where
  cache t := by
    rw [trieView_concat]
    exact hs.cache (h.cache t)
  log t := by
    obtain ⟨log,hlog,hsub⟩ := h.log t
    have hview : HoldsLog C t (TrieView.mk (trieView t ops).pending log).log s.db := hlog
    refine ⟨_,hs.log hview (h.cache t) ?_,?_⟩
    · rintro b rfl c hc
      exact hinc.log_lt (by simp [snapshotBlocks]) (hsub c hc)
    · intro c hc
      rw [trieView_concat]
      cases op with
      | insert t' k v =>
        by_cases ht : t'=t <;> simp only [TrieView.step,ht,if_true,if_false] at hc ⊢ <;>
          exact hsub c hc
      | remove t' k => exact hsub c hc
      | snapshot t' b =>
        by_cases ht : t'=t
        · simp only [TrieView.step,ht,if_true,List.mem_append] at hc ⊢
          exact hc.imp_left (hsub c)
        · simp only [TrieView.step,ht,if_false] at hc ⊢
          exact hsub c hc
  keys t := hs.keys (h.cache t) (h.keys t)

/-- What a prune run does to the tables of a trie: everything goes, or what is up to a cutoff. -/
theorem pruneDatabase_cases {mode : PruneMode} {db db' : Db P}
    (hkeys : ShortKeys db) (hp : pruneDatabase mode db=.ok db') :
    db'=db ∨
    (∀ t, (∀ n w, ¬db'.HasDup (.trieHistory t) n w) ∧ ∀ raw, db'.get (.trieChangeSet t) raw=none) ∨
    ∃ cutoff, ∀ t,
      (∀ n w, db'.HasDup (.trieHistory t) n w ↔ db.HasDup (.trieHistory t) n w ∧ cutoff<n) ∧
      ∀ raw, db'.get (.trieChangeSet t) raw=
        (db.get (.trieChangeSet t) raw).bind (prunedList cutoff) := by
  cases mode with
  | latest =>
    cases hp
    refine Or.inr (Or.inl (fun t => ⟨fun n w => ?_,fun raw => ?_⟩))
    · cases t <;> simp [pruneAllHistory,Db.HasDup,Db.clear,Db.clearDup]
    · cases t <;> simp [pruneAllHistory,Db.get,Db.clear,Db.clearDup]
  | keepLastN blocks =>
    simp only [pruneDatabase] at hp
    split_ifs at hp with h0 h1 h2
    · exact Or.inl (Except.ok.inj hp).symm
    · exact Or.inl (Except.ok.inj hp).symm
    · obtain ⟨db'',hprune,htables⟩ := pruneKeepLastN_tables (Nat.pos_of_ne_zero h2) db hkeys
      rw [hprune] at hp
      cases hp
      exact Or.inr (Or.inr ⟨_,htables⟩)

theorem PartRep.shortKeys (h : PartRep C ops s)
    (hshort : ∀ t k v, .insert t k v∈ops → k.Short) : ShortKeys s.db := by
  intro t raw list hl
  obtain ⟨k,v,rfl,hm⟩ := h.keys t raw list hl
  exact ⟨k,hshort t k v hm,rfl⟩

theorem PartRep.prune (h : PartRep C ops s) (hshort : ∀ t k v, .insert t k v∈ops → k.Short)
    {mode : PruneMode} {db db' : Db P} (hag : Agree [.headers] [] s.db db)
    (hp : pruneDatabase mode db=.ok db') : PartRep C ops { s with db := db' } := by
  have h' : PartRep C ops { s with db := db } :=
    { cache := h.cache
      log := fun t => by
        obtain ⟨log,hlog,hsub⟩ := h.log t
        exact ⟨log,hlog.of_agree hag (by simp) (by simp),hsub⟩
      keys := fun t raw list hl => h.keys t raw list (by rw [← hag.get (by simp),hl]) }
  obtain rfl | hnone | ⟨cutoff,hcut⟩ := pruneDatabase_cases (h'.shortKeys hshort) hp
  · exact h'
  · refine ⟨h.cache,fun t => ⟨[],?_,by simp⟩,fun t raw list hl => ?_⟩
    · exact Indexed.empty (fun k => by rw [trieChangeBlocks,(hnone t).2]; rfl) (hnone t).1
    · rw [(hnone t).2] at hl
      cases hl
  · refine ⟨h.cache,fun t => ?_,fun t raw list hl => ?_⟩
    · obtain ⟨log,hlog,hsub⟩ := h'.log t
      refine ⟨_,hlog.prune (hcut t).1 (hcut t).2,?_⟩
      exact fun c hc => hsub c (List.mem_filter.mp hc).1
    · rw [(hcut t).2] at hl
      obtain ⟨list',hl',_⟩ := Option.bind_eq_some_iff.mp hl
      exact h'.keys t raw list' hl'

theorem PrunedRun.rep (h : PrunedRun C s ops s') (hfresh : s.Fresh) (hinc : SnapshotsIncrease ops)
    (hshort : ∀ t k v, .insert t k v∈ops → k.Short) : PartRep C ops s' := by
  induction h with
  | nil =>
    have hrep := hfresh.rep C
    exact ⟨hrep.cache,fun t => ⟨_,hrep.log t,fun _ hc => hc⟩,hrep.keys⟩
  | step _ hs ih =>
    exact (ih hinc.of_append
      (fun t k v hm => hshort t k v (List.mem_append_left _ hm))).step hinc hs
  | prune _ hag hp ih => exact (ih hinc hshort).prune hshort hag hp

theorem HoldsLog.hasEntry_iff {log : TrieLog} (h : HoldsLog C t log db)
    (hshort : ∀ c∈log, c.key.Short) (k : TrieDatabaseKey) (b : Nat) :
    b∈trieChangeBlocks t db k ↔ HasEntry C t db k b := by
  rw [h.mem_blocks]
  constructor
  · rintro ⟨v,hv⟩
    exact ⟨_,⟨k,v⟩,(h.mem_rows b _).mpr ⟨k,v,hv,rfl⟩,
      TrieHistoryEntry.decompress_compress C (hshort _ hv) v,rfl⟩
  · rintro ⟨raw,e,hraw,hdec,rfl⟩
    obtain ⟨k,v,hv,rfl⟩ := (h.mem_rows b raw).mp hraw
    have he := (TrieHistoryEntry.decompress_compress C (hshort _ hv) v).symm.trans hdec
    rw [← Except.ok.inj he]
    exact ⟨v,hv⟩

/-- A block is in the change list of a key exactly if the history has an entry of the key under
it, and a snapshot is always read. -/
theorem trie_history_consistent {s₀ : TrieState P} (hfresh : s₀.Fresh)
    (hrun : PrunedRun C s₀ ops s) (hinc : SnapshotsIncrease ops)
    (hshort : ∀ t k v, .insert t k v∈ops → k.Short) (t : TrieTable) (k : TrieDatabaseKey)
    (b : Nat) :
    (b∈trieChangeBlocks t s.db k ↔ HasEntry C t s.db k b) ∧ ∃ v, snapshotGet C t s.db b k=.ok v := by
  obtain ⟨log,hlog,hsub⟩ := (hrun.rep hfresh hinc hshort).log t
  have hs : ∀ c∈log, c.key.Short := fun c hc => log_short hshort t c (hsub c hc)
  exact ⟨hlog.hasEntry_iff hs k b,_,snapshotGet_eq hlog hs b k⟩

end Run

theorem prunedRun_headed (ops : List TrieOp) :
    PrunedRun starknetCodecs headedTries ops (headedRun ops) := by
  induction ops using List.reverseRecOn with
  | nil => exact .nil _
  | append_singleton ops op ih =>
    rw [headedRun,runOps,List.foldl_append]
    exact .step ih (trieStep_run _ _ op)

theorem consistent_after_prune :
    ∃ db', pruneDatabase (.keepLastN 1) (headedRun rewrittenOps).db=.ok db' ∧
      ∃ v, snapshotGet starknetCodecs .classes db' 3 sampleKey=.ok v := by
  obtain ⟨db',hp⟩ : ∃ db', pruneDatabase (.keepLastN 1) (headedRun rewrittenOps).db=.ok db' :=
    ⟨_,rfl⟩
  exact ⟨db',hp,(trie_history_consistent headedTries_fresh
    (.prune (prunedRun_headed rewrittenOps) (Agree.refl _ _ _) hp)
    (by intro t; cases t <;> decide) rewrittenOps_short .classes sampleKey 3).2⟩

/-- A key whose length does not fit the length byte. -/
def longKey : TrieDatabaseKey := ⟨.trie,List.replicate 256 0⟩

def longKeyOps : List TrieOp := [.insert .classes longKey [1],.snapshot .classes 1]

/-- The walk over the change lists reads the key as the empty one and leaves its list. -/
theorem long_key_reaches_expect :
    ∃ s, PrunedRun starknetCodecs headedTries longKeyOps s ∧ SnapshotsIncrease longKeyOps ∧
      1∈trieChangeBlocks .classes s.db longKey ∧
      snapshotGet starknetCodecs .classes s.db 3 longKey=
        .error (.panic "entry should exist if in change set") := by
  have hall : ((pruneDatabase (.keepLastN 1) (headedRun longKeyOps).db).toOption.map (fun db =>
      (decide (1∈trieChangeBlocks .classes db longKey),
        snapshotGet starknetCodecs .classes db 3 longKey)))=
      some (true,.error (.panic "entry should exist if in change set")) := by decide +kernel
  cases hp : pruneDatabase (.keepLastN 1) (headedRun longKeyOps).db with
  | error e => simp [hp,Except.toOption] at hall
  | ok db' =>
    simp only [hp,Except.toOption,Option.map_some,Option.some.injEq,Prod.mk.injEq,
      decide_eq_true_eq] at hall
    exact ⟨_,.prune (prunedRun_headed longKeyOps) (Agree.refl _ _ _) hp,
      by intro t; cases t <;> decide,hall⟩

end Katana
