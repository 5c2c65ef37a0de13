import Katana.Core.Chain
import Katana.Trie.Past

/-! The tries of a chain as of an earlier block. -/
namespace Katana
open ChangeLog
variable {P : Payloads}

def idLength : TrieTable → Nat
  | .classes => 7
  | .contracts => 9
  | .storages => 32

theorem bonsaiIdentifier_length (t : TrieTable) (a : Felt) :
    (bonsaiIdentifier t a).length=idLength t := by
  cases t with
  | classes | contracts => rfl
  | storages => exact Felt.toBytesBe_length a

theorem idLength_le (t : TrieTable) : idLength t≤32 := by
  cases t <;> decide

namespace Backend
variable {K : Backend P} {t : Tries} {db : Db P} {b : BlockInput P} {log : TrieLog}
  {blocks : List (BlockInput P)}

theorem added_of_agree {B : Bonsai} {s : TrieTable} {n block : Nat} {ids : List Bytes}
    {more : TrieLog} {db' : Db P} {S : List Table} {D : List DupTable}
    (h : Added B s n block ids more db) (ha : Agree S D db db') (hS : .trie s∉S) :
    Added B s n block ids more db' where
  time := h.time
  owned := h.owned
  rooted := by
    rw [trieRows_of_agree ha hS]
    exact h.rooted

theorem withTries_recorded (hroot : ∀ s, (K.tries s).RootStays) (s : TrieTable)
    (h : Recorded K.codecs s log db) (hlt : ∀ d∈log, d.time<b.number) :
    ∃ more ids, Recorded K.codecs s (log++more) (K.withTries b t db) ∧
      Added (K.tries s) s (idLength s) b.number ids more (K.withTries b t db) := by
  let classEs := TrieMap.entries (classEntries K.hashes b.updates.declaredClasses)
  let leafEs := TrieMap.entries
    (leafEntries K.hashes K.tries t.storages (db.get .contractInfo) b.updates)
  let db₁ := commitDb (K.tries .classes) K.codecs .classes (bonsaiIdentifier .classes 0) b.number
    classEs db
  let db₂ := commitStorages K.tries K.codecs b.number b.updates.storageUpdates db₁
  have h₁ : Agree [.trie .classes,.trieChangeSet .classes] [.trieHistory .classes] db db₁ :=
    commitDb_agree
  have h₂ : Agree [.trie .storages,.trieChangeSet .storages] [.trieHistory .storages] db₁ db₂ :=
    commitStorages_agree _
  have h₃ : Agree [.trie .contracts,.trieChangeSet .contracts] [.trieHistory .contracts] db₂
      (K.withTries b t db) := commitDb_agree
  cases s with
  | classes =>
    obtain ⟨more,hrec,hadd⟩ := h.commitAll (hroot .classes) hlt (idLength_le .classes)
      [(bonsaiIdentifier .classes 0,classEs)] (by simp [bonsaiIdentifier_length]) (by simp)
    exact ⟨more,_,(hrec.of_agree h₂ (by simp) (by simp) (by simp)).of_agree h₃ (by simp) (by simp)
      (by simp),added_of_agree (added_of_agree hadd h₂ (by simp)) h₃ (by simp)⟩
  | storages =>
    have hrec₁ := h.of_agree h₁ (by simp) (by simp) (by simp)
    have hlen : ∀ r∈b.updates.storageUpdates.rows.map
        (fun r => (bonsaiIdentifier .storages r.1,TrieMap.entries r.2)),
        r.1.length=idLength .storages := by
      intro r hr
      obtain ⟨_,_,rfl⟩ := List.mem_map.mp hr
      exact bonsaiIdentifier_length .storages _
    have hnodup : ((b.updates.storageUpdates.rows.map
        (fun r => (bonsaiIdentifier .storages r.1,TrieMap.entries r.2))).map Prod.fst).Nodup := by
      have hids := (SortedMap.keys_nodup b.updates.storageUpdates).map
        (f := bonsaiIdentifier .storages) (fun _ _ he => Felt.toBytesBe_inj he)
      simpa [Function.comp_def] using hids
    obtain ⟨more,hrec,hadd⟩ := hrec₁.commitAll (hroot .storages) hlt (idLength_le .storages)
      (b.updates.storageUpdates.rows.map
        (fun r => (bonsaiIdentifier .storages r.1,TrieMap.entries r.2)))
      hlen hnodup
    have hdb : commitAll (K.tries .storages) K.codecs .storages b.number
        (b.updates.storageUpdates.rows.map
          (fun r => (bonsaiIdentifier .storages r.1,TrieMap.entries r.2))) db₁=db₂ :=
      List.foldl_map
    rw [hdb] at hrec hadd
    exact ⟨more,_,hrec.of_agree h₃ (by simp) (by simp) (by simp),
      added_of_agree hadd h₃ (by simp)⟩
  | contracts =>
    have hrec₂ := (h.of_agree h₁ (by simp) (by simp) (by simp)).of_agree h₂ (by simp) (by simp)
      (by simp)
    obtain ⟨more,hrec,hadd⟩ := hrec₂.commitAll (hroot .contracts) hlt (idLength_le .contracts)
      [(bonsaiIdentifier .contracts 0,leafEs)] (by simp [bonsaiIdentifier_length]) (by simp)
    exact ⟨more,_,hrec,hadd⟩

theorem chain_trie_agree {blocks : List (BlockInput P)} (h : K.Ready t (K.chain blocks))
    (b : BlockInput P) : Agree blockTables blockHistories (K.withTries b t (K.chain blocks))
      (K.chain (blocks++[b])) :=
  (insert_spec (h.chain_insert b) ((insertBlockTx_writes K.codecs b).frame
    (insertBlockTx_inserted h.withTries_decodes))).2

/-- The log of a trie table after the blocks: a root node in it was there after some of
them. -/
structure Past (K : Backend P) (s : TrieTable) (blocks : List (BlockInput P)) (log : TrieLog) :
    Prop where
  recorded : Recorded K.codecs s log (K.chain blocks)
  time : ∀ d∈log, ∃ b∈blocks, d.time=b.number
  rooted : ∀ d∈log, ∀ id, id.length=idLength s → d.key=(K.tries s).rootKey id →
    ∃ pre, pre<+:blocks ∧ trieRows s (K.chain pre) d.key≠none

theorem Past.empty (s : TrieTable) : Past K s [] [] where
  recorded := Recorded.empty
  time := by simp
  rooted := by simp

theorem Past.step {s : TrieTable} (h : Past K s blocks log) (hroot : ∀ s, (K.tries s).RootStays)
    (hinc : Increasing (blocks++[b])) :
    ∃ more, Past K s (blocks++[b]) (log++more) ∧ ∀ d∈more, d.time=b.number := by
  obtain ⟨t,ht⟩ := chain_ready K blocks
  have hlt : ∀ d∈log, d.time<b.number := by
    intro d hd
    obtain ⟨c,hc,htime⟩ := h.time d hd
    rw [htime]
    exact ((increasing_concat blocks b).mp hinc).2 c hc
  obtain ⟨more,ids,hrec,hadd⟩ := withTries_recorded (t := t) hroot s h.recorded hlt
  have hagree := chain_trie_agree ht b
  have hchange : .trieChangeSet s∉blockTables := by simp [blockTables]
  have htrie : .trie s∉blockTables := by simp [blockTables]
  have hhist : .trieHistory s∉blockHistories := by simp [blockHistories]
  refine ⟨more,⟨hrec.of_agree hagree hchange htrie hhist,?_,?_⟩,hadd.time⟩
  · intro d hd
    rcases List.mem_append.mp hd with hd | hd
    · obtain ⟨c,hc,htime⟩ := h.time d hd
      exact ⟨c,List.mem_append_left _ hc,htime⟩
    · exact ⟨b,by simp,hadd.time d hd⟩
  · intro d hd id hid hk
    rcases List.mem_append.mp hd with hd | hd
    · obtain ⟨pre,hpre,hrow⟩ := h.rooted d hd id hid hk
      exact ⟨pre,hpre.trans (List.prefix_append _ _),hrow⟩
    · exact ⟨blocks++[b],List.prefix_rfl,
        (added_of_agree hadd hagree htrie).rooted d hd id hid hk⟩

theorem Past.extend {s : TrieTable} (h : Past K s blocks log)
    (hroot : ∀ s, (K.tries s).RootStays) (post : List (BlockInput P))
    (hinc : Increasing (blocks++post)) :
    ∃ more, Past K s (blocks++post) (log++more) ∧ ∀ d∈more, ∃ c∈post, d.time=c.number := by
  induction post using List.reverseRecOn with
  | nil => exact ⟨[],by simpa using h,by simp⟩
  | append_singleton post c ih =>
    rw [← List.append_assoc] at hinc ⊢
    obtain ⟨more,hpast,htime⟩ := ih ((increasing_concat _ _).mp hinc).1
    obtain ⟨more',hpast',htime'⟩ := hpast.step hroot hinc
    refine ⟨more++more',by rwa [← List.append_assoc],?_⟩
    intro d hd
    rcases List.mem_append.mp hd with hd | hd
    · obtain ⟨c',hc',ht⟩ := htime d hd
      exact ⟨c',List.mem_append_left _ hc',ht⟩
    · exact ⟨c,by simp,htime' d hd⟩

section AsOf
variable {pre post : List (BlockInput P)}

theorem snapshotGet_past (hroot : ∀ s, (K.tries s).RootStays) (s : TrieTable)
    (hinc : Increasing (pre++b::post)) :
    ∃ log, Past K s (pre++[b]) log ∧ ∀ k,
      snapshotGet K.codecs s (K.chain (pre++b::post)) b.number k=.ok (latest log k) := by
  obtain ⟨log,hpast,_⟩ := (Past.empty (K := K) s).extend hroot (pre++[b]) hinc.upto
  rw [List.nil_append,List.nil_append] at hpast
  have hsplit : pre++b::post=(pre++[b])++post := by simp
  obtain ⟨more,hall,htime⟩ := hpast.extend hroot post (by rwa [← hsplit])
  refine ⟨log,hpast,fun k => ?_⟩
  rw [hsplit,snapshotGet_eq hall.recorded.holds hall.recorded.short,asOf_append]
  · intro d hd
    obtain ⟨c,hc,ht⟩ := hpast.time d hd
    rw [ht]
    exact hinc.le_of_mem hc
  · intro d hd
    obtain ⟨c,hc,ht⟩ := htime d hd
    rw [ht]
    exact hinc.lt_of_mem hc

/-- The root node of the trie is there after the blocks, or it never was. -/
def RootKept (K : Backend P) (s : TrieTable) (id : Bytes) (blocks : List (BlockInput P)) : Prop :=
  trieRows s (K.chain blocks) ((K.tries s).rootKey id)≠none ∨
    ∀ pre, pre<+:blocks → trieRows s (K.chain pre) ((K.tries s).rootKey id)=none

theorem snapshotGet_root (hroot : ∀ s, (K.tries s).RootStays) (s : TrieTable)
    (hinc : Increasing (pre++b::post)) {id : Bytes} (hid : id.length=idLength s)
    (hkept : K.RootKept s id (pre++[b])) :
    snapshotGet K.codecs s (K.chain (pre++b::post)) b.number ((K.tries s).rootKey id)=
      .ok (trieRows s (K.chain (pre++[b])) ((K.tries s).rootKey id)) := by
  obtain ⟨log,hpast,hget⟩ := snapshotGet_past hroot s hinc
  rw [hget]
  cases hrow : trieRows s (K.chain (pre++[b])) ((K.tries s).rootKey id) with
  | some v => rw [hpast.recorded.live _ v hrow]
  | none =>
    rcases hkept with hkept | hkept
    · exact absurd hrow hkept
    · rw [(latest_eq_none log _).mpr]
      intro d hd hk
      obtain ⟨pre',hpre,hne⟩ := hpast.rooted d hd id hid hk
      rw [hk] at hne
      exact hne (hkept pre' hpre)

end AsOf
end Backend
end Katana
