import Katana.Db.Postcard
import Katana.Provider.BlockReads

/-! The state update of a block, assembled from the history tables, against the one that
was inserted (StateUpdateProvider of DbProvider). -/
namespace Katana
open SortedMap ContractStorageEntry
variable {P : Payloads}

/-- All values of a key, decoded; the first error ends the walk. -/
def dupEntries {α : Type} (db : Db P) (t : DupTable) (k : t.Key)
    (decode : Bytes → Except CodecError α) : Except ProviderError (List α) :=
  ((db.dups t k).mapM decode).mapError (fun e => .database (.codec e))

/-- A class with a compiled hash counts as declared, any other one as deprecated. -/
def readDeclaration (db : Db P) (acc : SortedMap Felt Felt × SortedSet Felt) (h : Felt) :
    SortedMap Felt Felt × SortedSet Felt :=
  match db.get .compiledClassHashes h with
  | some c => (acc.1.put h c,acc.2)
  | none => (acc.1,acc.2.insert h)

def readStorageEntry (m : SortedMap Felt (SortedMap Felt Felt)) (e : ContractStorageEntry) :
    SortedMap Felt (SortedMap Felt Felt) :=
  m.put e.key.contractAddress (((m.get e.key.contractAddress).getD ∅).put e.key.key e.value)

def stateUpdate (C : Codecs) (db : Db P) (id : BlockHashOrNumber) :
    Except ProviderError (Option StateUpdates) := do
  let some n ← blockNumberById db id | return none
  let nonces ← dupEntries db .nonceChangeHistory n (ContractNonceChange.decompress C)
  let deployed ← dupEntries db .classChangeHistory n (ContractClassChange.decompress C)
  let declared ← dupEntries db .classDeclarations n C.felt.decode
  let storage ← dupEntries db .storageChangeHistory n (decompress C)
  let classes := declared.foldl (readDeclaration db) (∅,∅)
  return some
    { nonceUpdates := SortedMap.ofList (nonces.map (fun c => (c.contractAddress,c.nonce)))
      storageUpdates := storage.foldl readStorageEntry ∅
      deployedContracts := SortedMap.ofList (deployed.map (fun c => (c.contractAddress,c.classHash)))
      replacedClasses := ∅
      declaredClasses := classes.1
      deprecatedDeclaredClasses := classes.2 }

def declaredClasses (C : Codecs) (db : Db P) (id : BlockHashOrNumber) :
    Except ProviderError (Option (SortedMap Felt Felt)) := do
  let some n ← blockNumberById db id | return none
  let declared ← dupEntries db .classDeclarations n C.felt.decode
  return some (declared.foldl (readDeclaration db) (∅,∅)).1

def deployedContracts (C : Codecs) (db : Db P) (id : BlockHashOrNumber) :
    Except ProviderError (Option (SortedMap Felt Felt)) := do
  let some n ← blockNumberById db id | return none
  let deployed ← dupEntries db .classChangeHistory n (ContractClassChange.decompress C)
  return some (SortedMap.ofList (deployed.map (fun c => (c.contractAddress,c.classHash))))

section Reads
variable {α : Type}

theorem mapM_decode (decode : Bytes → Except CodecError α) {l : List Bytes}
    (h : ∀ w∈l, ∃ a, decode w=.ok a) :
    ∃ r, l.mapM decode=.ok r ∧ ∀ p, p∈r ↔ ∃ w∈l, decode w=.ok p := by
  induction l with
  | nil => exact ⟨[],rfl,by simp⟩
  | cons w ws ih =>
    obtain ⟨a,ha⟩ := h w (by simp)
    obtain ⟨r,hr,hmem⟩ := ih (fun v hv => h v (by simp [hv]))
    refine ⟨a::r,?_,?_⟩
    · rw [List.mapM_cons,ha,hr]
      rfl
    · intro p
      simp only [List.mem_cons,hmem,exists_eq_or_imp,ha,Except.ok.injEq]
      exact or_congr_left eq_comm

theorem dupEntries_ok {ι : Type} {db : Db P} {t : DupTable} {k : t.Key} {Q : ι → Prop}
    {encode : ι → Bytes} {value : ι → α} (decode : Bytes → Except CodecError α)
    (hrows : ∀ w, db.HasDup t k w ↔ ∃ i, Q i ∧ w=encode i)
    (hdec : ∀ i, decode (encode i)=.ok (value i)) :
    ∃ l, dupEntries db t k decode=.ok l ∧ ∀ p, p∈l ↔ ∃ i, Q i ∧ p=value i := by
  obtain ⟨l,hl,hmem⟩ := mapM_decode decode (l := db.dups t k) (by
    intro w hw
    obtain ⟨i,_,he⟩ := (hrows w).mp ((Db.mem_dups db t k w).mp hw)
    exact ⟨value i,by rw [he,hdec]⟩)
  refine ⟨l,by rw [dupEntries,hl]; rfl,?_⟩
  intro p
  rw [hmem]
  constructor
  · intro ⟨w,hw,hp⟩
    obtain ⟨i,hi,he⟩ := (hrows w).mp ((Db.mem_dups db t k w).mp hw)
    rw [he,hdec,Except.ok.injEq] at hp
    exact ⟨i,hi,hp.symm⟩
  · intro ⟨i,hi,hp⟩
    exact ⟨encode i,(Db.mem_dups db t k _).mpr ((hrows _).mpr ⟨i,hi,rfl⟩),by rw [hdec,hp]⟩

theorem readDeclarations (db : Db P) (l : List Felt) (h : Felt) :
    (l.foldl (readDeclaration db) (∅,∅)).1.get h=
      (if h∈l then db.get .compiledClassHashes h else none) ∧
    (h∈(l.foldl (readDeclaration db) (∅,∅)).2 ↔ h∈l ∧ db.get .compiledClassHashes h=none) := by
  induction l using List.reverseRecOn with
  | nil => simp
  | append_singleton l x ih =>
    rw [List.foldl_append,List.foldl_cons,List.foldl_nil]
    by_cases he : x=h
    · subst he
      cases hx : db.get .compiledClassHashes x <;> simp [readDeclaration,hx,ih]
    · cases hx : db.get .compiledClassHashes x <;>
        simp [readDeclaration,hx,ih,get_put,he,Ne.symm he]

end Reads

section Storage

abbrev StorageMap := SortedMap Felt (SortedMap Felt Felt)

def StorageMap.lookup (m : StorageMap) (a k : Felt) : Option Felt :=
  (m.get a).bind (fun s => s.get k)

def StorageMap.NoneEmpty (m : StorageMap) : Prop := ∀ a s, m.get a=some s → s≠∅

theorem StorageMap.NoneEmpty.lookup {m : StorageMap} (h : m.NoneEmpty) {a : Felt}
    {s : SortedMap Felt Felt} (hs : m.get a=some s) : ∃ k v, m.lookup a k=some v := by
  by_contra hno
  apply h a s hs
  apply ext_get
  intro k
  cases hk : s.get k with
  | none => rfl
  | some v => exact absurd ⟨k,v,by simp [StorageMap.lookup,hs,hk]⟩ hno

theorem StorageMap.ext_lookup {m n : StorageMap} (hm : m.NoneEmpty) (hn : n.NoneEmpty)
    (h : ∀ a k, m.lookup a k=n.lookup a k) : m=n := by
  apply ext_get
  intro a
  cases hma : m.get a with
  | none =>
    cases hna : n.get a with
    | none => rfl
    | some t =>
      obtain ⟨k,v,hv⟩ := hn.lookup hna
      rw [← h] at hv
      simp [StorageMap.lookup,hma] at hv
  | some s =>
    cases hna : n.get a with
    | none =>
      obtain ⟨k,v,hv⟩ := hm.lookup hma
      rw [h] at hv
      simp [StorageMap.lookup,hna] at hv
    | some t =>
      apply congrArg some
      apply ext_get
      intro k
      simpa [StorageMap.lookup,hma,hna] using h a k

variable (l : List ContractStorageEntry)

/-- The entries under one key, contract address first. -/
def flatEntries : List ((Felt ×ₗ Felt) × Felt) :=
  l.map (fun e => (toLex (e.key.contractAddress,e.key.key),e.value))

theorem readStorage_noneEmpty : StorageMap.NoneEmpty (l.foldl readStorageEntry ∅) := by
  induction l using List.reverseRecOn with
  | nil =>
    intro a s hs
    cases hs
  | append_singleton l e ih =>
    intro a s hs he
    rw [List.foldl_append,List.foldl_cons,List.foldl_nil,readStorageEntry,get_put] at hs
    by_cases ha : e.key.contractAddress=a
    · simp only [ha,if_true,Option.some.injEq] at hs
      have hk := congrArg (fun m => m.get e.key.key) hs
      simp [he] at hk
    · simp only [ha,if_false] at hs
      exact ih a s hs he

theorem readStorage_lookup (a k : Felt) : StorageMap.lookup (l.foldl readStorageEntry ∅) a k=
      (SortedMap.ofList (flatEntries l)).get (toLex (a,k)) := by
  induction l using List.reverseRecOn with
  | nil => rfl
  | append_singleton l e ih =>
    have hflat : flatEntries (l++[e])=
        flatEntries l++[(toLex (e.key.contractAddress,e.key.key),e.value)] := by
      simp [flatEntries]
    rw [hflat,get_ofList_concat,← ih,List.foldl_append,List.foldl_cons,List.foldl_nil,
      readStorageEntry,StorageMap.lookup,get_put]
    by_cases ha : e.key.contractAddress=a
    · by_cases hk : e.key.key=k
      · simp [ha,hk]
      · cases hl : (l.foldl readStorageEntry ∅).get a <;>
          simp [ha,hk,hl,get_put,StorageMap.lookup]
    · simp [ha,StorageMap.lookup]

/-- Storage entries under normalised addresses give the updates back exactly if the
addresses were normalised. -/
theorem readStorage_eq_iff {norm : Felt → Felt} (hidem : ∀ a, norm (norm a)=norm a)
    {m : StorageMap} (hm : m.NoneEmpty) {l : List ContractStorageEntry}
    (hl : ∀ a k v, ⟨⟨a,k⟩,v⟩∈l ↔ ∃ a', m.lookup a' k=some v ∧ a=norm a') :
    l.foldl readStorageEntry ∅=m ↔ ∀ a, m.get a≠none → norm a=a := by
  have hflat : ∀ a k v, (toLex (a,k),v)∈flatEntries l ↔ ⟨⟨a,k⟩,v⟩∈l := by
    intro a k v
    simp only [flatEntries,List.mem_map,Prod.mk.injEq]
    constructor
    · intro ⟨e,he,hk,hv⟩
      obtain ⟨h₁,h₂⟩ := Prod.mk.inj (congrArg ofLex hk)
      rw [← h₁,← h₂,← hv]
      exact he
    · intro he
      exact ⟨_,he,rfl,rfl⟩
  constructor
  · intro he a ha
    obtain ⟨s,hs⟩ := Option.ne_none_iff_exists'.mp ha
    obtain ⟨k,v,hv⟩ := hm.lookup hs
    rw [← he,readStorage_lookup] at hv
    obtain ⟨b,_,hb⟩ := (hl a k v).mp ((hflat a k v).mp (mem_of_get_ofList hv))
    rw [hb,hidem]
  · intro hnorm
    have hmem : ∀ a k v, (toLex (a,k),v)∈flatEntries l ↔ m.lookup a k=some v := by
      intro a k v
      rw [hflat,hl]
      constructor
      · intro ⟨a',ha',hk⟩
        have hne : m.get a'≠none := by
          intro hnone
          simp [StorageMap.lookup,hnone] at ha'
        rw [hk,hnorm a' hne,ha']
      · intro hv
        have hne : m.get a≠none := by
          intro hnone
          simp [StorageMap.lookup,hnone] at hv
        exact ⟨a,hv,(hnorm a hne).symm⟩
    apply StorageMap.ext_lookup (readStorage_noneEmpty l) hm
    intro a k
    rw [readStorage_lookup]
    exact get_ofList_eq (hmem a k)

end Storage

section RoundTrip
variable {C : Codecs} {pre post : List (BlockInput P)} {b : BlockInput P}

structure BlockRows (C : Codecs) (db : Db P) (n : Nat) (u : StateUpdates) : Prop where
  nonces : ∀ w, db.HasDup .nonceChangeHistory n w ↔ NonceRow C u.nonceUpdates w
  deployed : ∀ w, db.HasDup .classChangeHistory n w ↔ ClassRow C u.deployedContracts w
  storage : ∀ w, db.HasDup .storageChangeHistory n w ↔ StorageRow C u.storageUpdates w
  declarations : ∀ w, db.HasDup .classDeclarations n w ↔ DeclarationRow C u w

theorem rows_of_block (h : DistinctNumbers (pre++b::post)) (R : BlockInput P → Bytes → Prop)
    (w : Bytes) : (∃ c∈pre++b::post, b.number=c.number ∧ R c w) ↔ R b w := by
  have hb : b∈pre++b::post := by simp
  constructor
  · intro ⟨c,hc,hn,hr⟩
    rw [List.inj_on_of_nodup_map h hb hc hn]
    exact hr
  · intro hr
    exact ⟨b,hb,rfl,hr⟩

theorem insertBlocks_blockRows (C : Codecs) (h : DistinctNumbers (pre++b::post)) :
    BlockRows C (insertBlocks C (pre++b::post)) b.number b.updates where
  nonces w := (insertBlocks_rows (fun pre b => (insertBlocks_step C pre b).2.nonceRows) _ _ w).trans
    (rows_of_block h (fun c => NonceRow C c.updates.nonceUpdates) w)
  deployed w := (insertBlocks_rows
    (fun pre b => (insertBlocks_step C pre b).2.classRows) _ _ w).trans
    (rows_of_block h (fun c => ClassRow C c.updates.deployedContracts) w)
  storage w := (insertBlocks_rows
    (fun pre b => (insertBlocks_step C pre b).2.storageRows) _ _ w).trans
    (rows_of_block h (fun c => StorageRow C c.updates.storageUpdates) w)
  declarations w := (insertBlocks_rows
    (fun pre b => (insertBlocks_step C pre b).2.declarations) _ _ w).trans
    (rows_of_block h (fun c => DeclarationRow C c.updates) w)

section Parts
variable {db : Db P} {n : Nat} {u : StateUpdates}

/-- Rows under normalised addresses give a map back exactly if its addresses were
normalised. -/
theorem readMap_eq_iff {α : Type} {t : DupTable} {k : t.Key} {m : SortedMap Felt Felt}
    {encode : Felt → Felt → Bytes} {value : Felt → Felt → α} (address contents : α → Felt)
    (decode : Bytes → Except CodecError α)
    (hrows : ∀ w, db.HasDup t k w ↔ ∃ a v, m.get a=some v ∧ w=encode a v)
    (hdec : ∀ a v, decode (encode a v)=.ok (value a v))
    (ha : ∀ a v, address (value a v)=C.normalizeAddress a) (hv : ∀ a v, contents (value a v)=v) :
    ∃ l, dupEntries db t k decode=.ok l ∧
      (SortedMap.ofList (l.map (fun c => (address c,contents c)))=m ↔
        ∀ a, m.get a≠none → C.normalizeAddress a=a) := by
  obtain ⟨l,hl,hmem⟩ := dupEntries_ok decode (fun w => (hrows w).trans Prod.exists'.symm)
    (fun r : Felt × Felt => hdec r.1 r.2)
  refine ⟨l,hl,ofList_rename_eq_iff C.normalize_idem ?_⟩
  intro x y
  simp only [List.mem_map,Prod.mk.injEq,hmem]
  constructor
  · intro ⟨c,⟨r,hr,hc⟩,hx,hy⟩
    rw [hc,ha] at hx
    rw [hc,hv] at hy
    exact ⟨r.1,hy ▸ hr,hx.symm⟩
  · intro ⟨a,hr,hx⟩
    exact ⟨value a y,⟨(a,y),hr,rfl⟩,by rw [ha,hx],hv a y⟩

theorem BlockRows.read_storage (h : BlockRows C db n u)
    (hne : StorageMap.NoneEmpty u.storageUpdates) :
    ∃ l, dupEntries db .storageChangeHistory n (decompress C)=.ok l ∧
      (l.foldl readStorageEntry ∅=u.storageUpdates ↔
        ∀ a, u.storageUpdates.get a≠none → C.normalizeAddress a=a) := by
  have hrows : ∀ w, db.HasDup .storageChangeHistory n w ↔ ∃ r : Felt × Felt × Felt,
      StorageMap.lookup u.storageUpdates r.1 r.2.1=some r.2.2 ∧
        w=compress C ⟨⟨r.1,r.2.1⟩,r.2.2⟩ := by
    intro w
    rw [h.storage]
    constructor
    · intro ⟨a,m,k,v,ha,hk,hw⟩
      exact ⟨(a,k,v),by simp [StorageMap.lookup,ha,hk],hw⟩
    · intro ⟨r,hr,hw⟩
      obtain ⟨m,hm,hk⟩ := Option.bind_eq_some_iff.mp hr
      exact ⟨r.1,m,r.2.1,r.2.2,hm,hk,hw⟩
  obtain ⟨l,hl,hmem⟩ := dupEntries_ok (decompress C) hrows
    (fun r => decompress_compress C r.1 r.2.1 r.2.2)
  refine ⟨l,hl,readStorage_eq_iff C.normalize_idem hne ?_⟩
  intro a k v
  rw [hmem]
  constructor
  · intro ⟨r,hr,he⟩
    simp only [ContractStorageEntry.mk.injEq,ContractStorageKey.mk.injEq] at he
    obtain ⟨⟨ha,hk⟩,hv⟩ := he
    exact ⟨r.1,by rw [hk,hv,hr],ha⟩
  · intro ⟨a',ha',ha⟩
    exact ⟨(a',k,v),ha',by rw [ha]⟩

theorem BlockRows.read_classes (h : BlockRows C db n u) :
    ∃ l, dupEntries db .classDeclarations n C.felt.decode=.ok l ∧
      ((l.foldl (readDeclaration db) (∅,∅)).1=u.declaredClasses ∧
        (l.foldl (readDeclaration db) (∅,∅)).2=u.deprecatedDeclaredClasses ↔
      (∀ h c, u.declaredClasses.get h=some c → db.get .compiledClassHashes h=some c) ∧
        ∀ h, h∈u.deprecatedDeclaredClasses → db.get .compiledClassHashes h=none) := by
  have hrows : ∀ w, db.HasDup .classDeclarations n w ↔
      ∃ x, DeclaresClass u x ∧ w=C.felt.encode x := by
    intro w
    rw [h.declarations,DeclarationRow]
    simp only [and_comm]
  obtain ⟨l,hl,hmem⟩ := dupEntries_ok C.felt.decode hrows C.felt.decode_encode
  have hmem : ∀ x, x∈l ↔ DeclaresClass u x := by
    intro x
    rw [hmem]
    simp
  refine ⟨l,hl,?_⟩
  constructor
  · intro hread
    obtain ⟨hdecl,hdepr⟩ := hread
    constructor
    · intro x c hx
      rw [← hdecl,(readDeclarations db l x).1] at hx
      by_cases hm : x∈l
      · simpa [hm] using hx
      · simp [hm] at hx
    · intro x hx
      rw [← hdepr,(readDeclarations db l x).2] at hx
      exact hx.2
  · intro hhashes
    obtain ⟨hdecl,hdepr⟩ := hhashes
    constructor
    · apply ext_get
      intro x
      rw [(readDeclarations db l x).1]
      cases hx : u.declaredClasses.get x with
      | some c => rw [if_pos ((hmem x).mpr (Or.inl ⟨c,hx⟩)),hdecl x c hx]
      | none =>
        by_cases hm : x∈l
        · rw [if_pos hm]
          cases (hmem x).mp hm with
          | inl hd => simp [hx] at hd
          | inr hd => exact hdepr x hd
        · rw [if_neg hm]
    · apply SortedSet.ext_mem
      intro x
      rw [(readDeclarations db l x).2,hmem]
      constructor
      · intro hread
        obtain ⟨hd,hn⟩ := hread
        cases hd with
        | inl hd =>
          obtain ⟨c,hc⟩ := hd
          simp [hdecl x c hc] at hn
        | inr hd => exact hd
      · intro hd
        exact ⟨Or.inr hd,hdepr x hd⟩

end Parts

/-- When the tables give an inserted update back: nothing replaced, all addresses
normalised, and the compiled hashes, which all blocks share, as the block has them. -/
structure RoundTrips (C : Codecs) (blocks : List (BlockInput P)) (u : StateUpdates) : Prop where
  nonces : ∀ a, u.nonceUpdates.get a≠none → C.normalizeAddress a=a
  storage : ∀ a, u.storageUpdates.get a≠none → C.normalizeAddress a=a
  deployed : ∀ a, u.deployedContracts.get a≠none → C.normalizeAddress a=a
  replaced : u.replacedClasses=∅
  declared : ∀ h c, u.declaredClasses.get h=some c → lastCompiledHash blocks h=some c
  deprecated : ∀ h, h∈u.deprecatedDeclaredClasses → lastCompiledHash blocks h=none

/-- The update of an inserted block is read back as it was inserted exactly under these
conditions. -/
theorem stateUpdate_eq_iff (C : Codecs) {id : BlockHashOrNumber}
    (hd : DistinctNumbers (pre++b::post)) (hid : Names id b post)
    (hne : StorageMap.NoneEmpty b.updates.storageUpdates) :
    stateUpdate C (insertBlocks C (pre++b::post)) id=.ok (some b.updates) ↔
      RoundTrips C (pre++b::post) b.updates := by
  have hrows := insertBlocks_blockRows C hd
  obtain ⟨nonces,hnonces,hn⟩ := readMap_eq_iff ContractNonceChange.contractAddress
    ContractNonceChange.nonce _ hrows.nonces (ContractNonceChange.decompress_compress C)
    (fun _ _ => rfl) (fun _ _ => rfl)
  obtain ⟨deployed,hdeployed,hp⟩ := readMap_eq_iff ContractClassChange.contractAddress
    ContractClassChange.classHash _ hrows.deployed (ContractClassChange.decompress_compress C)
    (fun _ _ => rfl) (fun _ _ => rfl)
  obtain ⟨classes,hclasses,hc⟩ := hrows.read_classes
  obtain ⟨storage,hstorage,hs⟩ := hrows.read_storage hne
  simp only [insertBlocks_compiledClassHashes] at hc
  have hread := blockNumberById_names C pre hid
  simp only [stateUpdate,hread,hnonces,hdeployed,hclasses,hstorage,bind,Except.bind,pure,
    Except.pure,Except.ok.injEq,Option.some.injEq]
  rw [StateUpdates.ext_iff]
  constructor
  · intro ⟨h₁,h₂,h₃,h₄,h₅,h₆⟩
    exact ⟨hn.mp h₁,hs.mp h₂,hp.mp h₃,h₄.symm,(hc.mp ⟨h₅,h₆⟩).1,(hc.mp ⟨h₅,h₆⟩).2⟩
  · intro h
    obtain ⟨h₅,h₆⟩ := hc.mpr ⟨h.declared,h.deprecated⟩
    exact ⟨hn.mpr h.nonces,hs.mpr h.storage,hp.mpr h.deployed,h.replaced.symm,h₅,h₆⟩

/-- An update with an entry of every kind but a replaced class. -/
def fullUpdate : StateUpdates where
  nonceUpdates := SortedMap.put 1 3 ∅
  storageUpdates := SortedMap.put 1 (SortedMap.put 7 9 ∅) ∅
  deployedContracts := SortedMap.put 1 2 ∅
  declaredClasses := SortedMap.put 20 21 ∅
  deprecatedDeclaredClasses := SortedSet.insert 22 ∅

def replacingUpdate : StateUpdates where
  replacedClasses := SortedMap.put 1 2 ∅

theorem stateUpdate_full :
    stateUpdate starknetCodecs
        (insertBlocks starknetCodecs ([]++stateBlock 5 100 fullUpdate::[stateBlock 3 101 {}]))
        (.hash 100)=.ok (some fullUpdate) :=
  (stateUpdate_eq_iff starknetCodecs (by decide) (Or.inr ⟨rfl,by decide⟩) (by
    intro a s hs he
    have ha : a=1 := eq_of_get_single (Option.ne_none_iff_exists'.mpr ⟨s,hs⟩)
    rw [ha,he] at hs
    exact absurd hs (by decide))).mpr
  { nonces := fun a ha => by rw [eq_of_get_single ha]; decide
    storage := fun a ha => by rw [eq_of_get_single ha]; decide
    deployed := fun a ha => by rw [eq_of_get_single ha]; decide
    replaced := rfl
    declared := fun h c hc => by
      have hh : h=20 := eq_of_get_single (Option.ne_none_iff_exists'.mpr ⟨c,hc⟩)
      rw [hh] at hc ⊢
      exact hc
    deprecated := fun h hh => by
      have hh : h=22 := by simpa using (SortedSet.mem_insert _ _ _).mp hh
      rw [hh]
      decide }

/-- A replaced class is not read back. -/
theorem stateUpdate_replacing :
    stateUpdate starknetCodecs (insertBlocks starknetCodecs [stateBlock 0 100 replacingUpdate])
        (.num 0)=.ok (some {}) ∧ ({} : StateUpdates)≠replacingUpdate := ⟨rfl,by decide⟩

end RoundTrip
end Katana
