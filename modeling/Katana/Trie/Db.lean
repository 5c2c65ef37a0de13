import Katana.Db.Store

/-! The trie tables: key codec (models/trie.rs), TrieDbMut with its write cache
(trie/mod.rs) and SnapshotTrieDb (trie/snapshot.rs). -/
namespace Katana
variable {P : Payloads}

inductive TrieDatabaseKeyType where
  | trie
  | flat
  | trieLog
  deriving DecidableEq, Repr

structure TrieDatabaseKey where
  type : TrieDatabaseKeyType
  key : Bytes
  deriving DecidableEq, Repr

inductive TrieError where
  | codec (e : CodecError)
  | panic (message : String)
  deriving DecidableEq, Repr

def TrieDatabaseKeyType.toByte : TrieDatabaseKeyType → Byte
  | .trie => 0
  | .flat => 1
  | .trieLog => 2

def TrieDatabaseKeyType.tryFrom (b : Byte) : Option TrieDatabaseKeyType :=
  if b=0 then some .trie else if b=1 then some .flat else if b=2 then some .trieLog else none

/-- The type byte, the low byte of the length, the key. -/
def TrieDatabaseKey.encode (k : TrieDatabaseKey) : Bytes :=
  k.type.toByte::Fin.ofNat 256 k.key.length::k.key

def TrieDatabaseKey.decode : Bytes → Except TrieError TrieDatabaseKey
  | type::len::rest =>
    match TrieDatabaseKeyType.tryFrom type with
    | none => .error (.panic "Invalid trie database key type")
    | some type =>
      if rest.length<len.val then .error (.panic "Buffer too short for key length")
      else .ok ⟨type,rest.take len.val⟩
  | _ => .error (.panic "empty buffer")

structure TrieHistoryEntry where
  key : TrieDatabaseKey
  value : Bytes
  deriving DecidableEq, Repr

def TrieHistoryEntry.compress (C : Codecs) (e : TrieHistoryEntry) : Bytes :=
  e.key.encode++C.byteVec.encode e.value

/-- The value starts where the decoded key says it does. -/
def TrieHistoryEntry.decompress (C : Codecs) (bs : Bytes) : Except TrieError TrieHistoryEntry :=
  match TrieDatabaseKey.decode bs with
  | .error e => .error e
  | .ok key =>
    match C.byteVec.decode (bs.drop (2+key.key.length)) with
    | .error e => .error (.codec e)
    | .ok value => .ok ⟨key,value⟩

theorem TrieDatabaseKeyType.tryFrom_toByte (t : TrieDatabaseKeyType) :
    TrieDatabaseKeyType.tryFrom t.toByte=some t := by
  cases t <;> rfl

theorem TrieDatabaseKeyType.toByte_inj {t u : TrieDatabaseKeyType} (h : t.toByte=u.toByte) :
    t=u := by
  have := congrArg TrieDatabaseKeyType.tryFrom h
  rw [tryFrom_toByte,tryFrom_toByte] at this
  exact Option.some.inj this

theorem TrieDatabaseKey.encode_inj {k k' : TrieDatabaseKey} (h : k.encode=k'.encode) : k=k' := by
  obtain ⟨type,key⟩ := k
  obtain ⟨type',key'⟩ := k'
  simp only [TrieDatabaseKey.encode,List.cons.injEq] at h
  obtain ⟨ht,_,rfl⟩ := h
  rw [TrieDatabaseKeyType.toByte_inj ht]

/-- Keys are ordered as their encodings. -/
instance : LinearOrder TrieDatabaseKey :=
  LinearOrder.lift' TrieDatabaseKey.encode (fun _ _ h => TrieDatabaseKey.encode_inj h)

/-- The keys whose length fits the length byte. -/
def TrieDatabaseKey.Short (k : TrieDatabaseKey) : Prop := k.key.length<256

instance (k : TrieDatabaseKey) : Decidable k.Short := inferInstanceAs (Decidable (_<_))

theorem TrieDatabaseKey.lengthByte {k : TrieDatabaseKey} (h : k.Short) :
    (Fin.ofNat 256 k.key.length).val=k.key.length := Nat.mod_eq_of_lt h

theorem TrieDatabaseKey.decode_append {k : TrieDatabaseKey} (h : k.Short) (x : Bytes) :
    TrieDatabaseKey.decode (k.encode++x)=.ok k := by
  have hlen := TrieDatabaseKey.lengthByte h
  have hn : ¬(k.key++x).length<(Fin.ofNat 256 k.key.length).val := by
    rw [hlen]
    simp
  simp only [TrieDatabaseKey.encode,List.cons_append,TrieDatabaseKey.decode,
    TrieDatabaseKeyType.tryFrom_toByte,if_neg hn]
  rw [hlen,List.take_left]

theorem TrieHistoryEntry.decompress_compress (C : Codecs) {k : TrieDatabaseKey} (h : k.Short)
    (v : Bytes) : TrieHistoryEntry.decompress C (TrieHistoryEntry.compress C ⟨k,v⟩)=.ok ⟨k,v⟩ := by
  have hdrop : (k.encode++C.byteVec.encode v).drop (2+k.key.length)=C.byteVec.encode v :=
    List.drop_left' (by simp [TrieDatabaseKey.encode]; omega)
  simp only [TrieHistoryEntry.decompress,TrieHistoryEntry.compress,
    TrieDatabaseKey.decode_append h,hdrop,C.byteVec.decode_encode]

theorem TrieDatabaseKey.eq_of_prefix {k k' : TrieDatabaseKey} {w : Bytes} (h : k.Short)
    (h' : k'.Short) (hp : k.encode<+:k'.encode++w) : k=k' := by
  have hlen : (Fin.ofNat 256 k.key.length : Byte)=Fin.ofNat 256 k'.key.length := by
    simp only [TrieDatabaseKey.encode,List.cons_append,List.cons_prefix_cons] at hp
    exact hp.2.1
  have hl : k.key.length=k'.key.length := by
    have := congrArg Fin.val hlen
    rwa [lengthByte h,lengthByte h'] at this
  exact encode_inj (ByteOrder.eq_of_prefix (by simp [TrieDatabaseKey.encode,hl]) hp)

/-- The tries of one transaction: the tables, and for each trie the pairs written since
its last snapshot. -/
structure TrieState (P : Payloads) where
  db : Db P
  writeCache : TrieTable → SortedMap TrieDatabaseKey Bytes

namespace TrieState

def get (t : TrieTable) (k : TrieDatabaseKey) (s : TrieState P) : Option Bytes :=
  s.db.get (.trie t) k.encode

/-- The live table and the cache are written; the old value is returned. -/
def insert (t : TrieTable) (k : TrieDatabaseKey) (v : Bytes) (s : TrieState P) :
    Option Bytes × TrieState P :=
  (s.get t k,⟨s.db.put (.trie t) k.encode v,
    Function.update s.writeCache t ((s.writeCache t).put k v)⟩)

def remove (t : TrieTable) (k : TrieDatabaseKey) (s : TrieState P) :
    Option Bytes × TrieState P :=
  (s.get t k,{ s with db := s.db.delete (.trie t) k.encode })

/-- The block joins the change list of the key, the entry joins the history. -/
def snapshotEntry (C : Codecs) (t : TrieTable) (block : Nat) (db : Db P)
    (entry : TrieDatabaseKey × Bytes) : Db P :=
  let set := (db.get (.trieChangeSet t) entry.1.encode).getD ∅
  (db.put (.trieChangeSet t) entry.1.encode (SortedSet.insert block set)).putDup (.trieHistory t)
    block (TrieHistoryEntry.compress C ⟨entry.1,entry.2⟩)

/-- The cache is emptied; its entries come in the order of a hash map. -/
def snapshot (C : Codecs) (t : TrieTable) (block : Nat) (entries : List (TrieDatabaseKey × Bytes))
    (s : TrieState P) : TrieState P :=
  ⟨entries.foldl (snapshotEntry C t block) s.db,Function.update s.writeCache t ∅⟩

end TrieState

def snapshotGet (C : Codecs) (t : TrieTable) (db : Db P) (block : Nat) (k : TrieDatabaseKey) :
    Except TrieError (Option Bytes) :=
  match (db.get (.trieChangeSet t) k.encode).bind (recentChangeFromBlock block) with
  | none => .ok none
  | some num =>
    match db.seek (.trieHistory t) num k.encode with
    | none => .error (.panic "entry should exist if in change set")
    | some raw =>
      match TrieHistoryEntry.decompress C raw with
      | .error e => .error e
      | .ok entry => .ok (if entry.key=k then some entry.value else none)

end Katana
