import Katana.Trie.Commit

/-! The past of the tries. A commit adds the rows it inserted to the history of its table,
under the number of the block; the rows it removed stay there. -/
namespace Katana
open ChangeLog
variable {P : Payloads}

section Cache
variable {writes : List TrieWrite} {rows : TrieRows} {k : TrieDatabaseKey} {v : Bytes}

theorem writeCache_concat (writes : List TrieWrite) (w : TrieWrite) :
    writeCache (writes++[w])=match w.2 with
      | some v => (writeCache writes).put w.1 v
      | none => writeCache writes := by
  rw [writeCache,List.foldl_append]
  cases hw : w.2 <;> simp [hw,writeCache]

theorem applyWrites_concat (writes : List TrieWrite) (w : TrieWrite) (rows : TrieRows) :
    applyWrites (writes++[w]) rows=Function.update (applyWrites writes rows) w.1 w.2 := by
  simp [applyWrites]

theorem cached_of_row (h : applyWrites writes rows k=some v) :
    (writeCache writes).get k=some v ∨ (writeCache writes).get k=none ∧ rows k=some v := by
  induction writes using List.reverseRecOn with
  | nil => exact Or.inr ⟨rfl,h⟩
  | append_singleton writes w ih =>
    obtain ⟨k',v'⟩ := w
    rw [applyWrites_concat] at h
    rw [writeCache_concat]
    by_cases hk : k'=k
    · subst hk
      simp only [Function.update_self] at h
      subst h
      exact Or.inl (by simp)
    · rw [Function.update_of_ne (Ne.symm hk)] at h
      have ih := ih h
      cases v' with
      | none => exact ih
      | some v' => simpa [SortedMap.get_put,hk] using ih

theorem written_of_cached (h : (writeCache writes).get k=some v) : (k,some v)∈writes := by
  induction writes using List.reverseRecOn with
  | nil => cases h
  | append_singleton writes w ih =>
    obtain ⟨k',v'⟩ := w
    rw [writeCache_concat] at h
    cases v' with
    | none => exact List.mem_append_left _ (ih h)
    | some v' =>
      simp only [SortedMap.get_put] at h
      split at h
      · next hk =>
        subst hk
        cases h
        simp
      · exact List.mem_append_left _ (ih h)

end Cache

/-- A root node that a commit writes is there after it: a commit writes the root once. -/
def Bonsai.RootStays (B : Bonsai) : Prop :=
  ∀ rows id es v, (B.rootKey id,some v)∈B.commit rows id es →
    applyWrites (B.commit rows id es) rows (B.rootKey id)=some v

/-- The history of a table has the log, which has the rows that are there now. -/
structure Recorded (C : Codecs) (t : TrieTable) (log : TrieLog) (db : Db P) : Prop where
  holds : HoldsLog C t log db
  short : ∀ c∈log, c.key.Short
  live : ∀ k v, trieRows t db k=some v → latest log k=some v

section Commits
variable {C : Codecs} {t : TrieTable} {log : TrieLog} {db db' : Db P} {B : Bonsai} {id : Bytes}
  {block n : Nat} {es : List (TriePath × Felt)}

theorem Recorded.empty : Recorded C t [] (Db.empty : Db P) where
  holds := ⟨List.Pairwise.nil,by simp [trieChangeBlocks],by simp⟩
  short := by simp
  live k v h := by cases h

theorem Recorded.of_agree {S : List Table} {D : List DupTable} (h : Recorded C t log db)
    (ha : Agree S D db db') (hS : .trieChangeSet t∉S) (hT : .trie t∉S) (hD : .trieHistory t∉D) :
    Recorded C t log db' where
  holds := h.holds.of_agree ha hS hD
  short := h.short
  live k v hk := h.live k v (by rwa [trieRows_of_agree ha hT] at hk)

def commitLog (B : Bonsai) (t : TrieTable) (id : Bytes) (block : Nat) (es : List (TriePath × Felt))
    (db : Db P) : TrieLog :=
  changesAt block (writeCache (B.commit (trieRows t db) id es)).rows

theorem mem_commitLog {d : Change TrieDatabaseKey Bytes} (h : d∈commitLog B t id block es db) :
    d.time=block ∧ (d.key,some d.value)∈B.commit (trieRows t db) id es := by
  obtain ⟨ht,hm⟩ := (mem_changesAt _ _ _).mp h
  exact ⟨ht,written_of_cached ((SortedMap.get_eq_some _ _ _).mpr hm)⟩

theorem Recorded.commit (h : Recorded C t log db) (hid : id.length≤32)
    (hlt : ∀ d∈log, d.time<block ∨ d.time=block ∧ ¬B.Owns id d.key) :
    Recorded C t (log++commitLog B t id block es db) (commitDb B C t id block es db) where
  holds := by
    have hrows : HoldsLog C t log
        ((B.commit (trieRows t db) id es).foldl (putRow t) db) :=
      h.holds.of_agree (putRows_agree _ _) (by simp) (by simp)
    refine snapshotEntries_holds hrows _ (SortedMap.keys_nodup _) ?_
    intro d hd
    refine (hlt d hd).imp_right (fun hr => ⟨hr.1,fun e he heq => hr.2 ?_⟩)
    rw [heq]
    exact B.commit_owns _ _ _ _ (written_of_cached ((SortedMap.get_eq_some _ _ _).mpr he))
  short c hc := by
    rcases List.mem_append.mp hc with hc | hc
    · exact h.short c hc
    · exact B.commit_short _ _ _ _ hid (mem_commitLog hc).2
  live k v hk := by
    rw [trieRows_commitDb] at hk
    rw [latest_append,commitLog,latest_changesAt]
    rcases cached_of_row hk with hc | ⟨hc,hr⟩
    · simp [hc]
    · simp [hc,h.live k v hr]

def commitAll (B : Bonsai) (C : Codecs) (t : TrieTable) (block : Nat)
    (l : List (Bytes × List (TriePath × Felt))) (db : Db P) : Db P :=
  l.foldl (fun db r => commitDb B C t r.1 block r.2 db) db

/-- What the commits of a block add to the history belongs to the tries that they commit;
the root nodes among it are there after them. -/
structure Added (B : Bonsai) (t : TrieTable) (n block : Nat) (ids : List Bytes) (more : TrieLog)
    (db : Db P) : Prop where
  time : ∀ d∈more, d.time=block
  owned : ∀ d∈more, ∃ id∈ids, B.Owns id d.key
  rooted : ∀ d∈more, ∀ id, id.length=n → d.key=B.rootKey id → trieRows t db d.key≠none

theorem Added.commit {ids : List Bytes} {more : TrieLog} (h : Added B t n block ids more db)
    (hroot : B.RootStays) (hids : ∀ i∈ids, i.length=n) (hid : id.length=n) (hnew : id∉ids) :
    Added B t n block (ids++[id]) (more++commitLog B t id block es db)
      (commitDb B C t id block es db) where
  time d hd := by
    rcases List.mem_append.mp hd with hd | hd
    · exact h.time d hd
    · exact (mem_commitLog hd).1
  owned d hd := by
    rcases List.mem_append.mp hd with hd | hd
    · obtain ⟨i,hi,ho⟩ := h.owned d hd
      exact ⟨i,List.mem_append_left _ hi,ho⟩
    · exact ⟨id,by simp,B.commit_owns _ _ _ _ (mem_commitLog hd).2⟩
  rooted d hd i hi hk := by
    rw [trieRows_commitDb]
    rcases List.mem_append.mp hd with hd | hd
    · -- another trie of the table, whose rows the commit leaves alone
      obtain ⟨j,hj,ho⟩ := h.owned d hd
      rw [applyWrites_of_not_mem]
      · exact h.rooted d hd i hi hk
      · intro w hw heq
        have hw := B.commit_owns _ _ _ w hw
        rw [heq] at hw
        have hji : j=id := B.owns_inj j id d.key ((hids j hj).trans hid.symm) ho hw
        exact hnew (hji ▸ hj)
    · have hw := (mem_commitLog hd).2
      have ho : B.Owns id d.key := B.commit_owns _ _ _ _ hw
      have hown : B.Owns i d.key := hk ▸ B.owns_rootKey i
      obtain rfl : i=id := B.owns_inj i id d.key (hi.trans hid.symm) hown ho
      rw [hk] at hw ⊢
      rw [hroot _ _ _ _ hw]
      simp

theorem Recorded.commitAll (h : Recorded C t log db) (hroot : B.RootStays)
    (hlt : ∀ d∈log, d.time<block) (hn : n≤32) (l : List (Bytes × List (TriePath × Felt)))
    (hlen : ∀ r∈l, r.1.length=n) (hnodup : (l.map Prod.fst).Nodup) :
    ∃ more, Recorded C t (log++more) (commitAll B C t block l db) ∧
      Added B t n block (l.map Prod.fst) more (Katana.commitAll B C t block l db) := by
  induction l using List.reverseRecOn with
  | nil => exact ⟨[],by rw [List.append_nil]; exact h,⟨by simp,by simp,by simp⟩⟩
  | append_singleton l r ih =>
    simp only [List.map_append,List.map_cons,List.map_nil] at hnodup
    obtain ⟨hl,_,hdisj⟩ := List.nodup_append.mp hnodup
    have hids : ∀ i∈l.map Prod.fst, i.length=n := by
      intro i hi
      obtain ⟨r',hr',rfl⟩ := List.mem_map.mp hi
      exact hlen r' (List.mem_append_left _ hr')
    have hr : r.1.length=n := hlen r (by simp)
    have hnew : r.1∉l.map Prod.fst := fun hm => hdisj _ hm _ (by simp) rfl
    obtain ⟨more,hrec,hadd⟩ := ih (fun r' hr' => hlen r' (List.mem_append_left _ hr')) hl
    have hfold : Katana.commitAll B C t block (l++[r]) db=
        commitDb B C t r.1 block r.2 (Katana.commitAll B C t block l db) := by
      simp [Katana.commitAll]
    rw [hfold,List.map_append]
    refine ⟨more++commitLog B t r.1 block r.2 (Katana.commitAll B C t block l db),?_,
      hadd.commit hroot hids hr hnew⟩
    rw [← List.append_assoc]
    refine hrec.commit (hr.trans_le hn) ?_
    intro d hd
    rcases List.mem_append.mp hd with hd | hd
    · exact Or.inl (hlt d hd)
    · refine Or.inr ⟨hadd.time d hd,fun ho => ?_⟩
      obtain ⟨j,hj,ho'⟩ := hadd.owned d hd
      have hji : j=r.1 := B.owns_inj j r.1 d.key ((hids j hj).trans hr.symm) ho' ho
      exact hnew (hji ▸ hj)

end Commits
end Katana
