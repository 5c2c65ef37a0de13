import Katana.Db.Effect
import Katana.Db.HistoryIndex
import Katana.Provider.Write

/-! The storage tables as a log of storage writes: ContractStorage holds the last
write of every slot, StorageChangeSet and StorageChangeHistory hold the whole log.
One storage entry appends one change. -/
namespace Katana
open ChangeLog DbTx StorageEntry
variable {P : Payloads} {S : List Table} {D : List DupTable} {a k v : Felt} {C : Codecs}

theorem StorageEntry.key_inj {k' v' : Felt} (h : compress C ⟨k,v⟩=compress C ⟨k',v'⟩) : k=k' :=
  Felt.toBytesBe_inj (compressEntry_inj C (by simp) h).1

abbrev StorageLog := List (Change ContractStorageKey Felt)

def storageChangeBlocks (db : Db P) (k : ContractStorageKey) : BlockList :=
  (db.get .storageChangeSet (toLex (k.contractAddress,k.key))).getD ∅

/-- ContractStorage holds these values, one row for each slot that has one. -/
def HoldsStorage (C : Codecs) (value : ContractStorageKey → Option Felt) (db : Db P) : Prop :=
  ∀ a w, db.HasDup .contractStorage a w ↔
    ∃ k v, value ⟨a,k⟩=some v ∧ w=compress C ⟨k,v⟩

def StorageDecodes (C : Codecs) (db : Db P) : Prop :=
  ∀ a w, db.HasDup .contractStorage a w → ∃ e, decompress C w=.ok e

def StorageIndexed (C : Codecs) (log : StorageLog) (db : Db P) : Prop :=
  Indexed log ContractStorageKey.encode C.felt.encode (storageChangeBlocks db)
    (fun n w => db.HasDup .storageChangeHistory n w)

structure StorageRep (C : Codecs) (log : StorageLog) (db : Db P) : Prop where
  index : Indexed log ContractStorageKey.encode C.felt.encode (storageChangeBlocks db)
    (fun n w => db.HasDup .storageChangeHistory n w)
  current : ∀ a w, db.HasDup .contractStorage a w ↔
    ∃ k v, latest log ⟨a,k⟩=some v ∧ w=compress C ⟨k,v⟩

theorem StorageDecodes.of_agree {db db' : Db P} (h : StorageDecodes C db)
    (ha : Agree S D db db') (hD : .contractStorage∉D) : StorageDecodes C db' :=
  fun a w hw => h a w ((ha.hasDup hD a w).mp hw)

variable {log : StorageLog}

theorem StorageIndexed.of_same {db db' : Db P} (h : StorageIndexed C log db)
    (hget : ∀ k, db'.get .storageChangeSet k=db.get .storageChangeSet k)
    (hrows : ∀ n w, db'.HasDup .storageChangeHistory n w ↔ db.HasDup .storageChangeHistory n w) :
    StorageIndexed C log db' := by
  have hb : storageChangeBlocks db'=storageChangeBlocks db := by
    funext k
    rw [storageChangeBlocks,storageChangeBlocks,hget]
  unfold StorageIndexed at h ⊢
  rw [hb]
  simpa only [hrows] using h

theorem StorageIndexed.of_agree {db db' : Db P}
    (h : StorageIndexed C log db) (ha : Agree S D db db') (hS : .storageChangeSet∉S)
    (hD : .storageChangeHistory∉D) : StorageIndexed C log db' :=
  h.of_same (fun _ => ha.get hS _) (fun _ _ => ha.hasDup hD _ _)

theorem StorageRep.holds {db : Db P} (h : StorageRep C log db) :
    HoldsStorage C (latest log) db := h.current

theorem StorageRep.indexed {db : Db P} (h : StorageRep C log db) :
    StorageIndexed C log db := h.index

theorem StorageRep.empty (C : Codecs) : StorageRep C [] (Db.empty : Db P) where
  index := Indexed.empty (fun _ => rfl) (by simp)
  current := by simp

namespace HoldsStorage
variable {C : Codecs} {value : ContractStorageKey → Option Felt} {db db' : Db P}

section
variable (h : HoldsStorage C value db)
include h

theorem decodes : StorageDecodes C db := by
  intro a w hw
  obtain ⟨k,v,_,rfl⟩ := (h a w).mp hw
  exact ⟨⟨k,v⟩,decompress_compress C _⟩

theorem of_eq {value' : ContractStorageKey → Option Felt}
    (he : ∀ x, value' x=value x) : HoldsStorage C value' db := by
  rwa [funext he]

theorem of_agree (ha : Agree S D db db') (hD : .contractStorage∉D) :
    HoldsStorage C value db' := by
  intro a w
  rw [ha.hasDup hD,h a w]

theorem value_of_row
    (hw : db.HasDup .contractStorage a (compress C ⟨k,v⟩)) : value ⟨a,k⟩=some v := by
  obtain ⟨k',v',hv',he⟩ := (h a _).mp hw
  obtain ⟨_,rfl⟩ := compressEntry_inj C (by simp) he
  obtain rfl := key_inj he
  exact hv'

theorem deleted
    (hdel : ∀ a' w, db'.HasDup .contractStorage a' w ↔
      db.HasDup .contractStorage a' w ∧ ¬(a'=a ∧ ∃ v, w=compress C ⟨k,v⟩)) :
    HoldsStorage C (Function.update value ⟨a,k⟩ none) db' := by
  intro a' w
  rw [hdel,h a' w]
  constructor
  · rintro ⟨⟨k',v',hv',rfl⟩,hno⟩
    refine ⟨k',v',?_,rfl⟩
    rw [Function.update_of_ne,hv']
    rintro ⟨⟩
    exact hno ⟨rfl,v',rfl⟩
  · rintro ⟨k',v',hv',rfl⟩
    by_cases hk : (⟨a',k'⟩ : ContractStorageKey)=⟨a,k⟩
    · rw [hk,Function.update_self] at hv'
      cases hv'
    · rw [Function.update_of_ne hk] at hv'
      refine ⟨⟨k',v',hv',rfl⟩,?_⟩
      rintro ⟨rfl,v₀,he⟩
      exact hk (by rw [key_inj he])

theorem putDup (hv : value ⟨a,k⟩=none ∨ value ⟨a,k⟩=some v) :
    HoldsStorage C (Function.update value ⟨a,k⟩ (some v))
      (db.putDup .contractStorage a (compress C ⟨k,v⟩)) := by
  intro a' w
  rw [Db.hasDup_putDup,h a' w]
  constructor
  · rintro (⟨rfl,rfl⟩ | ⟨k',v',hv',rfl⟩)
    · exact ⟨k,v,by simp,rfl⟩
    · refine ⟨k',v',?_,rfl⟩
      by_cases hk : (⟨a',k'⟩ : ContractStorageKey)=⟨a,k⟩
      · rw [hk,Function.update_self]
        rw [hk] at hv'
        rcases hv with hv | hv <;> rw [hv] at hv' <;> cases hv'
        rfl
      · rw [Function.update_of_ne hk,hv']
  · rintro ⟨k',v',hv',rfl⟩
    by_cases hk : (⟨a',k'⟩ : ContractStorageKey)=⟨a,k⟩
    · obtain ⟨rfl,rfl⟩ := ContractStorageKey.mk.inj hk
      rw [Function.update_self] at hv'
      cases hv'
      exact Or.inl ⟨rfl,rfl⟩
    · rw [Function.update_of_ne hk] at hv'
      exact Or.inr ⟨k',v',hv',rfl⟩

theorem row_of_prefix {w : Bytes} (hv : value ⟨a,k⟩=some v)
    (hw : db.HasDup .contractStorage a w) (hp : k.toBytesBe<+:w) :
    w=compress C ⟨k,v⟩ := by
  obtain ⟨k',v',hv',rfl⟩ := (h a w).mp hw
  obtain rfl : k=k' := Felt.eq_of_prefix hp
  rw [hv,Option.some.injEq] at hv'
  rw [hv']

theorem seek_some (hv : value ⟨a,k⟩=some v) :
    db.seek .contractStorage a k.toBytesBe=some (compress C ⟨k,v⟩) :=
  Db.seek_prefix ((h a _).mpr ⟨k,v,hv,rfl⟩) (List.prefix_append _ _)
    (fun _ hw hp => h.row_of_prefix hv hw hp)

theorem seek_none (hn : value ⟨a,k⟩=none) :
    db.seek .contractStorage a k.toBytesBe=none ∨
      ∃ k' v', k'≠k ∧
        db.seek .contractStorage a k.toBytesBe=some (compress C ⟨k',v'⟩) := by
  cases hs : db.seek .contractStorage a k.toBytesBe with
  | none => exact Or.inl rfl
  | some w =>
    obtain ⟨hw,_,_⟩ := (Db.seek_eq_some db .contractStorage a _ w).mp hs
    obtain ⟨k',v',hv',rfl⟩ := (h a w).mp hw
    refine Or.inr ⟨k',v',?_,rfl⟩
    rintro rfl
    rw [hn] at hv'
    cases hv'

end

end HoldsStorage

variable {C : Codecs} {log : StorageLog} {value : ContractStorageKey → Option Felt} {db : Db P}
    {n : Nat}

theorem deleteCurrentEntry_writes (C : Codecs) (addr key : Felt) :
    OnlyWrites [] [.contractStorage] (deleteCurrentEntry C addr key : TxM P Unit) := by
  refine (OnlyWrites.read _).bind ?_
  intro current
  cases current with
  | none => exact OnlyWrites.pure ()
  | some r =>
    obtain ⟨raw,e⟩ := r
    by_cases he : e.key=key
    · simp only [he,if_true]
      exact OnlyWrites.deleteCurrent (t := .contractStorage) (by simp) addr raw
    · simp only [he,if_false]
      exact OnlyWrites.pure ()

theorem deleteCurrentEntry_ensures (h : HoldsStorage C value db) (a k : Felt) :
    Faulty.Ensures (deleteCurrentEntry C a k) db (fun _ db' =>
      ∀ a' w, db'.HasDup .contractStorage a' w ↔
        db.HasDup .contractStorage a' w ∧ ¬(a'=a ∧ ∃ v, w=compress C ⟨k,v⟩)) := by
  cases hl : value ⟨a,k⟩ with
  | some v =>
    refine read_then (a := some (compress C ⟨k,v⟩,⟨k,v⟩)) ?_ ?_
    · simp [h.seek_some hl]
    · simp only [if_true]
      refine ensures_write ?_
      intro a' w
      rw [Db.hasDup_deleteDup]
      refine and_congr_right (fun hw => not_congr (and_congr_right ?_))
      rintro rfl
      refine ⟨fun he => ⟨v,he⟩,?_⟩
      rintro ⟨v',rfl⟩
      have := h.value_of_row hw
      rw [hl,Option.some.injEq] at this
      rw [this]
  | none =>
    have hnone : ∀ a' w, db.HasDup .contractStorage a' w →
        ¬(a'=a ∧ ∃ v, w=compress C ⟨k,v⟩) := by
      rintro a' w hw ⟨rfl,v,rfl⟩
      have := h.value_of_row hw
      rw [hl] at this
      cases this
    have hpost : ∀ a' w, db.HasDup .contractStorage a' w ↔
        db.HasDup .contractStorage a' w ∧ ¬(a'=a ∧ ∃ v, w=compress C ⟨k,v⟩) :=
      fun a' w => ⟨fun hw => ⟨hw,hnone a' w hw⟩,And.left⟩
    obtain hs | ⟨k',v',hk,hs⟩ := h.seek_none hl
    · refine read_then (a := none) ?_ (Faulty.ensures_pure hpost)
      simp only [hs]
    · refine read_then (a := some (compress C ⟨k',v'⟩,⟨k',v'⟩)) ?_ ?_
      · simp [hs]
      · simp only [hk,if_false]
        exact Faulty.ensures_pure hpost

theorem deleteCurrentEntry_decodes (h : StorageDecodes C db) (a k : Felt) :
    Faulty.Ensures (deleteCurrentEntry C a k) db (fun _ db' =>
      StorageDecodes C db' ∧ Agree [] [.contractStorage] db db') := by
  refine (deleteCurrentEntry_writes C a k).frame ?_
  cases hs : db.seek .contractStorage a k.toBytesBe with
  | none =>
    refine read_then (a := none) ?_ (Faulty.ensures_pure h)
    simp only [hs]
  | some raw =>
    obtain ⟨e,he⟩ := h a raw ((Db.seek_eq_some _ _ _ _ _).mp hs).1
    refine read_then (a := some (raw,e)) ?_ ?_
    · simp only [hs,he]
    · by_cases hk : e.key=k
      · simp only [hk,if_true]
        refine ensures_write ?_
        intro a' w hw
        exact h a' w ((Db.hasDup_deleteDup _ _ _ _ _ _).mp hw).1
      · simp only [hk,if_false]
        exact Faulty.ensures_pure h

theorem storeStorageEntry_writes (C : Codecs) (n : Nat) (addr : Felt) (e : StorageEntry) :
    OnlyWrites [.storageChangeSet] [.contractStorage,.storageChangeHistory]
      (storeStorageEntry C n addr e : TxM P Unit) := by
  have hd := deleteCurrentEntry_writes (P := P) C addr e.key
  refine OnlyWrites.bind (hd.mono (by simp) (by simp)) (fun _ => ?_)
  refine (OnlyWrites.read _).bind (fun list => ?_)
  refine (OnlyWrites.put (by simp) _ _).bind (fun _ => ?_)
  exact (OnlyWrites.putDup (by simp) _ _).bind (fun _ => OnlyWrites.putDup (by simp) _ _)

theorem storeStorageEntry_holds (h : HoldsStorage C value db) (n : Nat) (a k v : Felt) :
    Faulty.Ensures (storeStorageEntry C n a ⟨k,v⟩) db (fun _ db' =>
      HoldsStorage C (Function.update value ⟨a,k⟩ (some v)) db') := by
  refine (deleteCurrentEntry_ensures h a k).bind ?_
  intro _ db₁ hcur
  have hput := (h.deleted hcur).putDup (v := v) (Or.inl (Function.update_self _ _ _))
  rw [Function.update_idem] at hput
  refine get_then (put_then (putDup_then (ensures_putDup ?_)))
  intro a' w
  rw [Db.hasDup_putDup_table (by decide),Db.hasDup_putDup,Db.hasDup_put,← Db.hasDup_putDup]
  exact hput a' w

theorem storeStorageEntry_decodes (h : StorageDecodes C db) (n : Nat) (a : Felt)
    (e : StorageEntry) :
    Faulty.Ensures (storeStorageEntry C n a e) db (fun _ db' => StorageDecodes C db') := by
  refine (deleteCurrentEntry_decodes h a e.key).bind ?_
  intro _ db₁ h₁
  refine get_then (put_then (putDup_then (ensures_putDup ?_)))
  intro a' w hw
  simp only [Db.hasDup_putDup,Db.hasDup_putDup_table,Db.hasDup_put,ne_eq,reduceCtorEq,
    not_false_eq_true] at hw
  cases hw with
  | inl hnew => exact ⟨e,by rw [hnew.2,decompress_compress]⟩
  | inr hold => exact h₁.1 a' w hold

theorem storeStorageEntry_index (hd : StorageDecodes C db) (h : StorageIndexed C log db)
    (hc : ∀ d∈log, d.time<n ∨ d.time=n ∧ d.key≠⟨a,k⟩) :
    Faulty.Ensures (storeStorageEntry C n a ⟨k,v⟩) db (fun _ db' =>
      StorageIndexed C (log++[⟨n,⟨a,k⟩,v⟩]) db') := by
  refine (deleteCurrentEntry_decodes hd a k).bind ?_
  rintro _ db₁ ⟨_,hag⟩
  refine get_then (put_then (putDup_then (ensures_putDup (Indexed.concat h hc ?_ ?_))))
  · intro k' m
    have hget := hag.get (t := .storageChangeSet) (by simp)
    simp only [storageChangeBlocks,Db.get_putDup,Db.get_put,hget]
    by_cases hk : (⟨a,k⟩ : ContractStorageKey)=k'
    · subst hk
      simp
    · have hne : ¬toLex (a,k)=toLex (k'.contractAddress,k'.key) := by
        intro he
        exact hk (by cases k'; simpa using he)
      simp [hk,hne]
  · intro m w
    rw [Db.hasDup_putDup,Db.hasDup_putDup_table (by decide),Db.hasDup_put,
      hag.hasDup (by decide)]
    rfl

def contractStorageChanges (n : Nat) (addr : Felt) (entries : List (Felt × Felt)) : StorageLog :=
  entries.map (fun e => ⟨n,⟨addr,e.1⟩,e.2⟩)

def storageChanges (n : Nat) (storage : List (Felt × SortedMap Felt Felt)) : StorageLog :=
  storage.flatMap (fun r => contractStorageChanges n r.1 r.2.rows)

theorem mem_storageChanges {storage : List (Felt × SortedMap Felt Felt)}
    {c : Change ContractStorageKey Felt} : c∈storageChanges n storage ↔
      c.time=n ∧ ∃ r∈storage, r.1=c.key.contractAddress ∧ r.2.get c.key.key=some c.value := by
  simp only [storageChanges,contractStorageChanges,List.mem_flatMap,List.mem_map]
  constructor
  · rintro ⟨r,hr,e,he,rfl⟩
    exact ⟨rfl,r,hr,rfl,(SortedMap.get_eq_some _ _ _).mpr he⟩
  · rintro ⟨rfl,r,hr,hk,hg⟩
    refine ⟨r,hr,_,(SortedMap.get_eq_some _ _ _).mp hg,?_⟩
    rw [hk]

theorem storeStorageUpdates_loop {storage : SortedMap Felt (SortedMap Felt Felt)}
    (I : StorageLog → Db P → Prop)
    (hstep : ∀ done a k v s, I done s → (∀ d∈done, d.key≠⟨a,k⟩) → (∀ d∈done, d.time=n) →
      Faulty.Ensures (storeStorageEntry C n a ⟨k,v⟩) s (fun _ s' => I (done++[⟨n,⟨a,k⟩,v⟩]) s'))
    (h : I [] db) :
    Faulty.Ensures (storeStorageUpdates C n storage) db (fun _ db' =>
      I (storageChanges n storage.rows) db') := by
  refine read_then rfl ?_
  refine Faulty.ensures_forM (fun pre s => I (storageChanges n pre) s) storage.rows ?_ h
  intro pre r post hsplit s hs
  -- the inner loop runs over the slots of one contract, after those of the contracts before it
  have hloop := Faulty.ensures_forM (f := fun e => storeStorageEntry (P := P) C n r.1 ⟨e.1,e.2⟩)
    (fun done s => I (storageChanges n pre++contractStorageChanges n r.1 done) s) r.2.rows
    (by
      intro done e rest he s hs
      refine (hstep _ r.1 e.1 e.2 s hs ?_ ?_).mono (fun _ s' h' => by
        simpa [contractStorageChanges] using h')
      · intro d hd hk
        rcases List.mem_append.mp hd with hd | hd
        · obtain ⟨_,q,hq,hqk,_⟩ := mem_storageChanges.mp hd
          have := SortedMap.key_lt_of_split hsplit hq
          rw [hqk,hk] at this
          exact lt_irrefl _ this
        · obtain ⟨q,hq,rfl⟩ := List.mem_map.mp hd
          have := SortedMap.key_lt_of_split he hq
          rw [(ContractStorageKey.mk.inj hk).2] at this
          exact lt_irrefl _ this
      · intro d hd
        rcases List.mem_append.mp hd with hd | hd
        · exact (mem_storageChanges.mp hd).1
        · obtain ⟨q,_,rfl⟩ := List.mem_map.mp hd
          rfl)
    (s := s) (by simpa [contractStorageChanges] using hs)
  exact hloop.mono (fun _ s' h' => by simpa [storageChanges] using h')

theorem storeStorageUpdates_holds (h : HoldsStorage C value db) (n : Nat)
    (storage : SortedMap Felt (SortedMap Felt Felt)) :
    Faulty.Ensures (storeStorageUpdates C n storage) db (fun _ db' =>
      HoldsStorage C (fun x => (latest (storageChanges n storage.rows) x).or (value x)) db') := by
  refine storeStorageUpdates_loop
    (fun done s => HoldsStorage C (fun x => (latest done x).or (value x)) s) ?_ h
  intro done a k v s hs _ _
  refine (storeStorageEntry_holds hs n a k v).mono (fun _ s' h' => ?_)
  convert h' using 1
  funext x
  rw [latest_concat]
  by_cases hx : (⟨a,k⟩ : ContractStorageKey)=x
  · subst hx
    simp
  · simp [hx,Function.update_of_ne (Ne.symm hx)]

theorem storeStorageUpdates_decodes (h : StorageDecodes C db) (n : Nat)
    (storage : SortedMap Felt (SortedMap Felt Felt)) :
    Faulty.Ensures (storeStorageUpdates C n storage) db (fun _ db' => StorageDecodes C db') :=
  storeStorageUpdates_loop (fun _ s => StorageDecodes C s)
    (fun _ a k v _ hs _ _ => storeStorageEntry_decodes hs n a ⟨k,v⟩) h

theorem storeStorageUpdates_index (hd : StorageDecodes C db) (h : StorageIndexed C log db)
    (hlt : ∀ d∈log, d.time<n) (storage : SortedMap Felt (SortedMap Felt Felt)) :
    Faulty.Ensures (storeStorageUpdates C n storage) db (fun _ db' =>
      StorageIndexed C (log++storageChanges n storage.rows) db') := by
  refine (storeStorageUpdates_loop
    (fun done s => StorageDecodes C s ∧ StorageIndexed C (log++done) s) ?_
    ⟨hd,by simpa using h⟩).mono (fun _ _ h' => h'.2)
  intro done a k v s hs hne ht
  have hfresh : ∀ d∈log++done, d.time<n ∨ d.time=n ∧ d.key≠⟨a,k⟩ := by
    intro d hd
    rcases List.mem_append.mp hd with hd | hd
    · exact Or.inl (hlt d hd)
    · exact Or.inr ⟨ht d hd,hne d hd⟩
  refine (storeStorageEntry_decodes hs.1 n a ⟨k,v⟩).and ?_
  exact (storeStorageEntry_index hs.1 hs.2 hfresh).mono (fun _ s' h' => by
    simpa using h')

theorem storeStorageUpdates_writes (C : Codecs) (n : Nat)
    (storage : SortedMap Felt (SortedMap Felt Felt)) :
    OnlyWrites [.storageChangeSet] [.contractStorage,.storageChangeHistory]
      (storeStorageUpdates C n storage : TxM P Unit) :=
  (OnlyWrites.read _).bind (fun _ => OnlyWrites.forM _ (fun _ => OnlyWrites.forM _
    (fun _ => storeStorageEntry_writes C n _ _)))

end Katana
