import Katana.Base.ChangeLog
import Katana.Trie.Db

/-! The tries of the bonsai-trie library as katana-trie uses them: the map from paths to
values that a trie stands for, and what is relied on of the way the library keeps a trie in
a key value table. -/
namespace Katana
open ChangeLog

abbrev TriePath := Fin (2^251)

/-- BonsaiTrie::insert keeps the last 251 bits of a key. -/
def triePath (key : Felt) : TriePath := Fin.ofNat (2^251) key.val

def pathKey (p : TriePath) : Felt := Fin.ofNat feltPrime p.val

@[simp] theorem pathKey_val (p : TriePath) : (pathKey p).val=p.val :=
  Nat.mod_eq_of_lt (p.isLt.trans (by decide))

theorem triePath_eq_iff {k : Felt} (hk : k.val<2^251) (p : TriePath) :
    triePath k=p ↔ k=pathKey p := by
  rw [Fin.ext_iff,Fin.ext_iff,pathKey_val,triePath,Fin.val_ofNat,Nat.mod_eq_of_lt hk]

abbrev TrieMap := SortedMap TriePath Felt

def nonzero (v : Felt) : Option Felt := if v=0 then none else some v

namespace TrieMap

def set (m : TrieMap) (p : TriePath) (v : Felt) : TrieMap := if v=0 then m.erase p else m.put p v

def setAll (m : TrieMap) (entries : List (TriePath × Felt)) : TrieMap :=
  entries.foldl (fun m e => set m e.1 e.2) m

theorem get_set (m : TrieMap) (p q : TriePath) (v : Felt) :
    (set m p v).get q=if p=q then nonzero v else m.get q := by
  unfold set nonzero
  by_cases hv : v=0
  · simp [hv,SortedMap.get_erase]
  · simp [hv,SortedMap.get_put]

theorem get_setAll (m : TrieMap) (entries : List (TriePath × Felt)) (q : TriePath) :
    (setAll m entries).get q=match latest (changesAt 0 entries) q with
      | some v => nonzero v
      | none => m.get q := by
  induction entries using List.reverseRecOn with
  | nil => rfl
  | append_singleton entries e ih =>
    have hcat : changesAt 0 (entries++[e])=changesAt 0 entries++[⟨0,e.1,e.2⟩] := by
      simp [changesAt]
    rw [hcat,latest_concat,setAll,List.foldl_append]
    simp only [List.foldl_cons,List.foldl_nil,get_set]
    by_cases he : e.1=q
    · simp [he]
    · simp only [he,if_false]
      exact ih

def entries (m : SortedMap Felt Felt) : List (TriePath × Felt) :=
  m.rows.map (fun r => (triePath r.1,r.2))

def ofKeys (m : SortedMap Felt Felt) : TrieMap := setAll ∅ (entries m)

/-- The trie has the values that are not zero, each under the path of its key. -/
def Stands (t : TrieMap) (value : Felt → Option Felt) : Prop :=
  ∀ p, t.get p=(value (pathKey p)).bind nonzero

theorem Stands.unique {t t' : TrieMap} {value : Felt → Option Felt} (h : t.Stands value)
    (h' : t'.Stands value) : t=t' :=
  SortedMap.ext_get (fun p => (h p).trans (h' p).symm)

theorem stands_empty : Stands ∅ (fun _ => none) := fun _ => rfl

def Fits {ν : Type*} (m : SortedMap Felt ν) : Prop := ∀ r∈m.rows, r.1.val<2^251

instance {ν : Type*} (m : SortedMap Felt ν) : Decidable (Fits m) :=
  inferInstanceAs (Decidable (∀ r∈m.rows, r.1.val<2^251))

variable {m : SortedMap Felt Felt}

theorem latest_entries (h : Fits m) (p : TriePath) :
    latest (changesAt 0 (entries m)) p=m.get (pathKey p) := by
  have hmap : ∀ l : List (Felt × Felt), (∀ r∈l, r.1.val<2^251) →
      latest (changesAt 0 (l.map (fun r => (triePath r.1,r.2)))) p=
        latest (changesAt 0 l) (pathKey p) := by
    intro l
    induction l using List.reverseRecOn with
    | nil => exact fun _ => rfl
    | append_singleton l r ih =>
      intro hl
      have hr : triePath r.1=p ↔ r.1=pathKey p := triePath_eq_iff (hl r (by simp)) p
      have ih := ih (fun r hr => hl r (List.mem_append_left _ hr))
      simp only [changesAt,List.map_append,List.map_cons,List.map_nil] at ih ⊢
      rw [latest_concat,latest_concat,ih]
      simp only [hr]
  exact (hmap m.rows h).trans (latest_changesAt 0 m _)

theorem Stands.setAll {t : TrieMap} {value : Felt → Option Felt} (h : t.Stands value)
    (hm : Fits m) : (TrieMap.setAll t (entries m)).Stands (fun k => (m.get k).or (value k)) := by
  intro p
  rw [get_setAll,latest_entries hm,h p]
  cases hk : m.get (pathKey p) <;> simp [hk]

theorem stands_ofKeys (hm : Fits m) : (ofKeys m).Stands m.get := by
  intro p
  rw [ofKeys,stands_empty.setAll hm p]
  simp

end TrieMap

abbrev TrieRows := TrieDatabaseKey → Option Bytes

/-- A row of the trie table is inserted or removed. -/
abbrev TrieWrite := TrieDatabaseKey × Option Bytes

def applyWrites (writes : List TrieWrite) (rows : TrieRows) : TrieRows :=
  writes.foldl (fun rows w => Function.update rows w.1 w.2) rows

theorem applyWrites_of_not_mem {writes : List TrieWrite} {k : TrieDatabaseKey}
    (h : ∀ w∈writes, w.1≠k) (rows : TrieRows) : applyWrites writes rows k=rows k := by
  induction writes generalizing rows with
  | nil => rfl
  | cons w ws ih =>
    have hw : w.1≠k := h w (by simp)
    have ih := ih (fun w' hw' => h w' (List.mem_cons_of_mem w hw')) (Function.update rows w.1 w.2)
    exact ih.trans (Function.update_of_ne (Ne.symm hw) _ _)

/-- How the library keeps tries in a table, each under an identifier. The rows it writes
when insertions are committed depend on the rows there; a trie is read through its root
node. -/
structure Bonsai where
  rootKey : Bytes → TrieDatabaseKey
  nodeHash : Bytes → Felt
  commit : TrieRows → Bytes → List (TriePath × Felt) → List TrieWrite
  Owns : Bytes → TrieDatabaseKey → Prop
  Holds : TrieRows → Bytes → TrieMap → Prop
  root : TrieMap → Felt
  owns_rootKey : ∀ id, Owns id (rootKey id)
  owns_inj : ∀ id id' k, id.length=id'.length → Owns id k → Owns id' k → id=id'
  holds_empty : ∀ rows id, (∀ k, Owns id k → rows k=none) → Holds rows id ∅
  holds_congr : ∀ rows rows' id m, (∀ k, Owns id k → rows' k=rows k) → Holds rows id m →
    Holds rows' id m
  holds_commit : ∀ rows id m es, Holds rows id m →
    Holds (applyWrites (commit rows id es) rows) id (m.setAll es)
  commit_owns : ∀ rows id es w, w∈commit rows id es → Owns id w.1
  commit_short : ∀ rows id es w, id.length≤32 → w∈commit rows id es → w.1.Short
  commit_nil : ∀ rows id, commit rows id []=[]
  holds_root : ∀ rows id m, Holds rows id m → root m=((rows (rootKey id)).map nodeHash).getD 0

namespace Bonsai
variable (B : Bonsai)

/-- The root of a trie is read from its root node; an empty trie has root zero. -/
def rootHash (rows : TrieRows) (id : Bytes) : Felt := ((rows (B.rootKey id)).map B.nodeHash).getD 0

variable {B} {rows : TrieRows} {id id' : Bytes} {m : TrieMap}

theorem rootHash_eq (h : B.Holds rows id m) : B.rootHash rows id=B.root m :=
  (B.holds_root rows id m h).symm

theorem holds_commit_ne (hl : id'.length=id.length) (hne : id'≠id)
    (h : B.Holds rows id' m) (es : List (TriePath × Felt)) :
    B.Holds (applyWrites (B.commit rows id es) rows) id' m := by
  refine B.holds_congr rows _ id' m ?_ h
  intro k hk
  refine applyWrites_of_not_mem ?_ rows
  rintro w hw rfl
  exact hne (B.owns_inj id' id _ hl hk (B.commit_owns rows id es w hw))

end Bonsai

namespace SingleNode

def encode (m : TrieMap) : Bytes :=
  m.rows.flatMap (fun r => (pathKey r.1).toBytesBe++r.2.toBytesBe)

def decodeRows : Nat → Bytes → List (TriePath × Felt)
  | 0,_ => []
  | n+1,bs => (triePath (Felt.fromBytesBeSlice (bs.take 32)),
      Felt.fromBytesBeSlice ((bs.drop 32).take 32))::decodeRows n (bs.drop 64)

def decode (bs : Bytes) : TrieMap := SortedMap.ofList (decodeRows (bs.length/64) bs)

theorem decodeRows_encode (rows : List (TriePath × Felt)) :
    decodeRows rows.length
      (rows.flatMap (fun r => (pathKey r.1).toBytesBe++r.2.toBytesBe))=rows := by
  induction rows with
  | nil => rfl
  | cons r rs ih =>
    have hpath : triePath (pathKey r.1)=r.1 :=
      (triePath_eq_iff ((pathKey_val r.1).trans_lt r.1.isLt) r.1).mpr rfl
    simp only [List.flatMap_cons,List.length_cons,decodeRows,List.append_assoc,
      List.take_left' (Felt.toBytesBe_length _),List.drop_left' (Felt.toBytesBe_length _),
      Felt.fromBytesBe_toBytesBe,hpath]
    rw [← List.append_assoc,List.drop_left' (by simp),ih]

theorem decode_encode (m : TrieMap) : decode (encode m)=m := by
  have hlen : (encode m).length/64=m.rows.length := by
    simp [encode]
  rw [decode,hlen,encode,decodeRows_encode]
  exact SortedMap.ext_get (fun k => SortedMap.get_ofList_eq (fun v =>
    (SortedMap.get_eq_some m k v).symm))

def held (rows : TrieRows) (key : TrieDatabaseKey) : TrieMap :=
  ((rows key).map decode).getD ∅

def node (m : TrieMap) : Option Bytes := if m=∅ then none else some (encode m)

theorem held_node {rows : TrieRows} {key : TrieDatabaseKey} {m : TrieMap}
    (h : rows key=node m) : held rows key=m := by
  unfold held
  rw [h,node]
  split
  · next he => simp [he]
  · simp [decode_encode]

/-- A library that keeps the whole map in the root node, for concrete runs. -/
def bonsai : Bonsai where
  rootKey id := ⟨.trie,id⟩
  nodeHash bs := Felt.fromBytesBeSlice (1::bs)
  commit rows id es :=
    let m := held rows ⟨.trie,id⟩
    if m.setAll es=m then [] else [(⟨.trie,id⟩,node (m.setAll es))]
  Owns id k := k=⟨.trie,id⟩
  Holds rows id m := rows ⟨.trie,id⟩=node m
  root m := ((node m).map (fun bs => Felt.fromBytesBeSlice (1::bs))).getD 0
  owns_rootKey _ := rfl
  owns_inj id id' k _ h h' := by
    rw [h] at h'
    exact (TrieDatabaseKey.mk.inj h').2
  holds_empty rows id h := h _ rfl
  holds_congr rows rows' id m h hm := (h _ rfl).trans hm
  holds_commit rows id m es h := by
    simp only [held_node h]
    split
    · next he => rw [he]; exact h
    · simp [applyWrites]
  commit_owns rows id es w hw := by
    simp only at hw
    split at hw
    · cases hw
    · rw [List.mem_singleton.mp hw]
  commit_short rows id es w hl hw := by
    simp only at hw
    split at hw
    · cases hw
    · rw [List.mem_singleton.mp hw]
      exact hl.trans_lt (by decide)
  commit_nil rows id := if_pos rfl
  holds_root rows id m h := by rw [h]

end SingleNode
end Katana
