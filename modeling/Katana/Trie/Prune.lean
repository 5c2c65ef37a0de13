import Katana.Trie.Snapshot

/-! Pruning of the trie history: katana db prune (cli/db/prune.rs). -/
namespace Katana
open ChangeLog
variable {P : Payloads}

inductive PruneMode where
  | latest
  | keepLastN (blocks : Nat)
  deriving DecidableEq, Repr

inductive PruneError where
  | message (text : String)
  | trie (e : TrieError)
  deriving DecidableEq, Repr

namespace Db

def firstDup (db : Db P) (t : DupTable) : Option (t.Key × Bytes) := (db.dup t).elems.head?.map ofLex

/-- delete_current_duplicates: all values of the key. -/
def deleteDups (t : DupTable) (k : t.Key) (db : Db P) : Db P :=
  { db with dup := Function.update db.dup t ((db.dup t).filter (fun r => decide ((ofLex r).1≠k))) }

/-- The row a cursor moves to after the values of the key were deleted. -/
def nextDup (db : Db P) (t : DupTable) (k : t.Key) : Option (t.Key × Bytes) :=
  ((db.dup t).first (fun r => decide (k<(ofLex r).1))).map ofLex

def clear (t : Table) (db : Db P) : Db P := { db with kv := Function.update db.kv t ∅ }

def clearDup (t : DupTable) (db : Db P) : Db P := { db with dup := Function.update db.dup t ∅ }

end Db

def getLatestBlockNumber (db : Db P) : Nat :=
  match db.last .headers with
  | some r => r.1
  | none => 0

def pruneAllHistory (db : Db P) : Db P :=
  let db := [TrieTable.classes,.contracts,.storages].foldl
    (fun db t => db.clearDup (.trieHistory t)) db
  [TrieTable.classes,.contracts,.storages].foldl (fun db t => db.clear (.trieChangeSet t)) db

/-- The while loop; the fuel bounds its rounds. -/
def pruneHistoryLoop (t : TrieTable) (cutoff : Nat) : Nat → Nat → Db P → Db P
  | 0, _, db => db
  | fuel+1, current, db =>
    if current≤cutoff then
      let db := db.deleteDups (.trieHistory t) current
      match db.nextDup (.trieHistory t) current with
      | some next => pruneHistoryLoop t cutoff fuel next.1 db
      | none => db
    else db

section
variable (t : TrieTable) (cutoff : Nat)

def pruneHistoryTable (db : Db P) : Db P :=
  match db.firstDup (.trieHistory t) with
  | some r => pruneHistoryLoop t cutoff (db.dup (.trieHistory t)).elems.length r.1 db
  | none => db

/-- Keys to update, or to delete if nothing is left. -/
abbrev PrunedKeys := List (TrieDatabaseKey × Option BlockList)

def applyPrunedKey (db : Db P) (r : TrieDatabaseKey × Option BlockList) : Db P :=
  match r.2 with
  | some list => db.put (.trieChangeSet t) r.1.encode list
  | none => db.delete (.trieChangeSet t) r.1.encode

/-- The tables once the queued keys are written. -/
def flushed (acc : Db P × PrunedKeys) : Db P :=
  acc.2.foldl (applyPrunedKey t) acc.1

/-- A key is queued if any of its blocks is removed. -/
def queueKey (keys : PrunedKeys) (key : TrieDatabaseKey) (list : BlockList) : PrunedKeys :=
  let removed := BlockList.removeUpTo list cutoff
  if 0<removed.2 then
    keys++[(key,if BlockList.select removed.1 0=none then none else some removed.1)]
  else keys

def batchSize : Nat := 1000

def writeFullBatch (acc : Db P × PrunedKeys) : Db P × PrunedKeys :=
  if batchSize≤acc.2.length then (flushed t acc,[]) else acc

def pruneChangesetEntry (acc : Db P × PrunedKeys) (entry : Bytes × BlockList) :
    Except TrieError (Db P × PrunedKeys) :=
  match TrieDatabaseKey.decode entry.1 with
  | .error e => .error e
  | .ok key => .ok (writeFullBatch t (acc.1,queueKey cutoff acc.2 key entry.2))

/-- The walk sees the entries as they were: only entries already passed are written. -/
def pruneChangesetTable (db : Db P) : Except TrieError (Db P) :=
  match (db.kv (.trieChangeSet t)).rows.foldlM (pruneChangesetEntry t cutoff) (db,[]) with
  | .error e => .error e
  | .ok acc => .ok (flushed t acc)

def pruneKeepLastN (db : Db P) : Except TrieError (Db P) :=
  if cutoff=0 then .ok db
  else
    let db := pruneHistoryTable .classes cutoff db
    let db := pruneHistoryTable .contracts cutoff db
    let db := pruneHistoryTable .storages cutoff db
    (pruneChangesetTable .classes cutoff db).bind fun db =>
    (pruneChangesetTable .contracts cutoff db).bind fun db =>
    pruneChangesetTable .storages cutoff db

end

/-- The result is what is committed; an error leaves the database as it was. -/
def pruneDatabase (mode : PruneMode) (db : Db P) : Except PruneError (Db P) :=
  match mode with
  | .latest => .ok (pruneAllHistory db)
  | .keepLastN blocks =>
    let latest := getLatestBlockNumber db
    if blocks=0 then .error (.message "Number of blocks to keep must be greater than 0")
    else if latest<blocks then .ok db
    else if latest-blocks=0 then .ok db
    else
      match pruneKeepLastN (latest-blocks) db with
      | .error e => .error (.trie e)
      | .ok db' => .ok db'

section History
variable {t : TrieTable} {cutoff : Nat} {db : Db P}

theorem hasDup_deleteDups (db : Db P) (t : DupTable) (k k' : t.Key) (w : Bytes) :
    (db.deleteDups t k).HasDup t k' w ↔ db.HasDup t k' w ∧ k'≠k := by
  simp only [Db.HasDup,Db.deleteDups,Function.update_self]
  exact (SortedSet.mem_filter _ _ _).trans (and_congr_right (fun _ => decide_eq_true_iff))

theorem nextDup_none {db : Db P} {t : DupTable} {k k' : t.Key} {w : Bytes}
    (h : db.nextDup t k=none) (hd : db.HasDup t k' w) : k'≤k := by
  have hno := (SortedSet.first_eq_none _ _).mp (Option.map_eq_none_iff.mp h) _ hd
  exact not_lt.mp (of_decide_eq_false hno)

theorem nextDup_some {db : Db P} {t : DupTable} {k : t.Key} {r : t.Key × Bytes}
    (h : db.nextDup t k=some r) :
    db.HasDup t r.1 r.2 ∧ k<r.1 ∧ ∀ k' w, db.HasDup t k' w → k<k' → r.1≤k' := by
  obtain ⟨x,hx,rfl⟩ := Option.map_eq_some_iff.mp h
  obtain ⟨hm,hp,hmin⟩ := (SortedSet.first_eq_some _ _ _).mp hx
  refine ⟨hm,of_decide_eq_true hp,?_⟩
  intro k' w hd hlt
  have hle := hmin (toLex (k',w)) hd (decide_eq_true hlt)
  obtain hlt' | ⟨he,_⟩ := Prod.Lex.le_iff.mp hle
  · exact le_of_lt hlt'
  · exact le_of_eq he

theorem deleteDups_agree (db : Db P) (t : DupTable) (k : t.Key) :
    Agree [] [t] db (db.deleteDups t k) where
  kv _ _ := rfl
  dup t' ht' := Function.update_of_ne (by simpa using ht') _ _

theorem deleteDups_length {db : Db P} {t : DupTable} {k : t.Key} {w : Bytes}
    (h : db.HasDup t k w) :
    ((db.deleteDups t k).dup t).elems.length<(db.dup t).elems.length := by
  simp only [Db.deleteDups,Function.update_self,SortedSet.filter]
  refine List.length_filter_lt_length_iff_exists.mpr ⟨toLex (k,w),h,?_⟩
  simp

theorem pruneHistoryLoop_hasDup (fuel current : Nat) (db : Db P)
    (hfuel : (db.dup (.trieHistory t)).elems.length≤fuel)
    (hmin : ∀ n w, db.HasDup (.trieHistory t) n w → current≤n)
    (hcur : ∃ w, db.HasDup (.trieHistory t) current w) (n : Nat) (w : Bytes) :
    (pruneHistoryLoop t cutoff fuel current db).HasDup (.trieHistory t) n w ↔
      db.HasDup (.trieHistory t) n w ∧ cutoff<n := by
  induction fuel generalizing current db with
  | zero =>
    obtain ⟨v,hv⟩ := hcur
    have hnil : (db.dup (.trieHistory t)).elems=[] := List.length_eq_zero_iff.mp (by omega)
    have hmem : toLex (current,v)∈(db.dup (.trieHistory t)).elems := hv
    rw [hnil] at hmem
    cases hmem
  | succ fuel ih =>
    obtain ⟨v,hv⟩ := hcur
    by_cases hc : current≤cutoff
    · have hlen := deleteDups_length hv
      have hdel : ∀ (n : Nat) w, (db.deleteDups (.trieHistory t) current).HasDup (.trieHistory t)
          n w ↔ db.HasDup (.trieHistory t) n w ∧ n≠current :=
        fun n w => hasDup_deleteDups db (.trieHistory t) current n w
      simp only [pruneHistoryLoop,hc,if_true]
      cases hn : (db.deleteDups (.trieHistory t) current).nextDup (.trieHistory t) current with
      | none =>
        rw [hdel]
        refine and_congr_right (fun hd => ?_)
        have hle := hmin n w hd
        constructor
        · intro hne
          have hle' : n≤current := nextDup_none hn ((hdel n w).mpr ⟨hd,hne⟩)
          omega
        · intro hlt
          omega
      | some next =>
        obtain ⟨hd,hlt,hleast⟩ := nextDup_some hn
        have hlt : current<next.1 := hlt
        rw [ih next.1 _ (by omega) ?_ ⟨next.2,hd⟩,hdel]
        · constructor
          · exact fun h => ⟨h.1.1,h.2⟩
          · exact fun h => ⟨⟨h.1,by omega⟩,h.2⟩
        · intro m v' hm
          have hm' := (hdel m v').mp hm
          have hle := hmin m v' hm'.1
          have hgt : current < m := by omega
          exact hleast m v' hm hgt
    · simp only [pruneHistoryLoop,hc,if_false]
      refine ⟨fun h => ⟨h,?_⟩,And.left⟩
      have := hmin n w h
      omega

theorem pruneHistoryLoop_agree (fuel current : Nat) (db : Db P) :
    Agree [] [.trieHistory t] db (pruneHistoryLoop t cutoff fuel current db) := by
  induction fuel generalizing current db with
  | zero => exact Agree.refl _ _ db
  | succ fuel ih =>
    by_cases hc : current≤cutoff
    · have hdel := deleteDups_agree db (.trieHistory t) current
      simp only [pruneHistoryLoop,hc,if_true]
      cases (db.deleteDups (.trieHistory t) current).nextDup (.trieHistory t) current with
      | none => exact hdel
      | some next => exact hdel.trans (ih next.1 _)
    · simp only [pruneHistoryLoop,hc,if_false]
      exact Agree.refl _ _ db

theorem pruneHistoryTable_hasDup (cutoff : Nat) (db : Db P) (n : Nat) (w : Bytes) :
    (pruneHistoryTable t cutoff db).HasDup (.trieHistory t) n w ↔
      db.HasDup (.trieHistory t) n w ∧ cutoff<n := by
  unfold pruneHistoryTable
  cases hf : db.firstDup (.trieHistory t) with
  | none =>
    have hnil : (db.dup (.trieHistory t)).elems=[] :=
      List.head?_eq_none_iff.mp (Option.map_eq_none_iff.mp hf)
    have hno : ¬db.HasDup (.trieHistory t) n w := by
      intro h
      have hmem : toLex (n,w)∈(db.dup (.trieHistory t)).elems := h
      rw [hnil] at hmem
      cases hmem
    exact iff_of_false hno (fun h => hno h.1)
  | some r =>
    obtain ⟨x,hx,rfl⟩ := Option.map_eq_some_iff.mp hf
    obtain ⟨rest,hrest⟩ := List.head?_eq_some_iff.mp hx
    refine pruneHistoryLoop_hasDup _ _ db le_rfl ?_ ⟨(ofLex x).2,?_⟩ n w
    · intro m v hm
      have hmem : toLex (m,v)∈(db.dup (.trieHistory t)).elems := hm
      have hs := (db.dup (.trieHistory t)).sorted
      rw [hrest] at hmem hs
      obtain he | hmem := List.mem_cons.mp hmem
      · rw [← he]
        exact le_refl _
      · obtain hlt | ⟨he,_⟩ := Prod.Lex.lt_iff.mp ((List.pairwise_cons.mp hs).1 _ hmem)
        · exact le_of_lt hlt
        · exact le_of_eq he
    · change x∈(db.dup (.trieHistory t)).elems
      rw [hrest]
      exact List.mem_cons_self

theorem pruneHistoryTable_agree (cutoff : Nat) (db : Db P) :
    Agree [] [.trieHistory t] db (pruneHistoryTable t cutoff db) := by
  unfold pruneHistoryTable
  cases db.firstDup (.trieHistory t) with
  | none => exact Agree.refl _ _ db
  | some r => exact pruneHistoryLoop_agree _ _ db

end History

end Katana
