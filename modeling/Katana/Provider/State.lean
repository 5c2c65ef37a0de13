import Katana.Provider.Run

/-! The state providers of providers/db/state.rs: the latest state is read from
ContractInfo and ContractStorage, the state of an earlier block from the change lists
and the change histories. -/
namespace Katana
open ChangeLog
variable {P : Payloads}

/-- Seeks a subkey and decodes the row found. -/
def Db.seekByKeySubkey {α : Type} (db : Db P) (t : DupTable) (k : t.Key) (subkey : Bytes)
    (decode : Bytes → Except CodecError α) : Except ProviderError (Option α) :=
  match db.seek t k subkey with
  | none => .ok none
  | some raw =>
    match decode raw with
    | .ok v => .ok (some v)
    | .error e => .error (.database (.codec e))

inductive StateProvider (P : Payloads) where
  | latest (db : Db P)
  | historical (db : Db P) (blockNumber : Nat)

/-- The three historical reads: the last listed change up to the block, then its row. -/
def readChange {α : Type} (blockNumber : Nat) (list : Option BlockList)
    (seek : Nat → Except ProviderError (Option α)) (missing : Nat → ProviderError)
    (pick : α → Option Felt) : Except ProviderError (Option Felt) :=
  match list.bind (recentChangeFromBlock blockNumber) with
  | none => .ok none
  | some num =>
    match seek num with
    | .error e => .error e
    | .ok none => .error (missing num)
    | .ok (some entry) => .ok (pick entry)

def StateProvider.nonce (C : Codecs) (address : Felt) :
    StateProvider P → Except ProviderError (Option Felt)
  | .latest db => .ok ((db.get .contractInfo address).map (fun info => info.nonce))
  | .historical db blockNumber =>
    readChange blockNumber
      ((db.get .contractInfoChangeSet address).map (fun entry => entry.nonceChangeList))
      (fun num => db.seekByKeySubkey .nonceChangeHistory num address.toBytesBe
        (ContractNonceChange.decompress C))
      (fun num => .missingContractNonceChangeEntry num address)
      (fun entry => if entry.contractAddress=address then some entry.nonce else none)

def StateProvider.classHashOfContract (C : Codecs) (address : Felt) :
    StateProvider P → Except ProviderError (Option Felt)
  | .latest db => .ok ((db.get .contractInfo address).map (fun info => info.classHash))
  | .historical db blockNumber =>
    readChange blockNumber
      ((db.get .contractInfoChangeSet address).map (fun entry => entry.classChangeList))
      (fun num => db.seekByKeySubkey .classChangeHistory num address.toBytesBe
        (ContractClassChange.decompress C))
      (fun num => .missingContractClassChangeEntry num address)
      (fun entry => if entry.contractAddress=address then some entry.classHash else none)

def StateProvider.storage (C : Codecs) (address storageKey : Felt) :
    StateProvider P → Except ProviderError (Option Felt)
  | .latest db =>
    match db.seekByKeySubkey .contractStorage address storageKey.toBytesBe
      (StorageEntry.decompress C) with
    | .error e => .error e
    | .ok none => .ok none
    | .ok (some entry) => .ok (if entry.key=storageKey then some entry.value else none)
  | .historical db blockNumber =>
    readChange blockNumber (db.get .storageChangeSet (toLex (address,storageKey)))
      (fun num => db.seekByKeySubkey .storageChangeHistory num
        (ContractStorageKey.encode ⟨address,storageKey⟩) (ContractStorageEntry.decompress C))
      (fun num => .missingStorageChangeEntry num address storageKey)
      (fun entry =>
        if entry.key.contractAddress=address ∧ entry.key.key=storageKey then some entry.value
        else none)

/-- Check if the class was declared before the pinned block number. -/
def isClassDeclaredBeforeBlock (db : Db P) (blockNumber : Nat) (hash : Felt) : Bool :=
  match db.get .classDeclarationBlock hash with
  | some num => decide (num≤blockNumber)
  | none => false

def StateProvider.class (hash : Felt) :
    StateProvider P → Except ProviderError (Option P.ContractClass)
  | .latest db => .ok (db.get .classes hash)
  | .historical db blockNumber =>
    if isClassDeclaredBeforeBlock db blockNumber hash then .ok (db.get .classes hash) else .ok none

def StateProvider.compiledClassHashOfClassHash (hash : Felt) :
    StateProvider P → Except ProviderError (Option Felt)
  | .latest db => .ok (db.get .compiledClassHashes hash)
  | .historical db blockNumber =>
    if isClassDeclaredBeforeBlock db blockNumber hash then .ok (db.get .compiledClassHashes hash)
    else .ok none

/-! DbProvider: latest, historical and the block numbers (providers/db/mod.rs). -/

def latestNumber (db : Db P) : Except ProviderError Nat :=
  match db.last .blockHashes with
  | some r => .ok r.1
  | none => .error .missingLatestBlockNumber

def blockNumberByHash (db : Db P) (hash : Felt) : Except ProviderError (Option Nat) :=
  .ok (db.get .blockNumbers hash)

/-- A number that is the tip gives the latest state, a hash never does. -/
def historical (db : Db P) : BlockHashOrNumber → Except ProviderError (Option (StateProvider P))
  | .num num =>
    match latestNumber db with
    | .error e => .error e
    | .ok latest =>
      if num<latest then .ok (some (.historical db num))
      else if latest<num then .ok none
      else .ok (some (.latest db))
  | .hash hash =>
    match blockNumberByHash db hash with
    | .error e => .error e
    | .ok none => .ok none
    | .ok (some num) => .ok (some (.historical db num))

section Reads
variable {C : Codecs} {db : Db P} {classes nonces : FeltLog}

theorem seekByKeySubkey_of_seek {α : Type} {t : DupTable} {k : t.Key} {subkey raw : Bytes}
    {decode : Bytes → Except CodecError α} {v : α} (hs : db.seek t k subkey=some raw)
    (hd : decode raw=.ok v) : db.seekByKeySubkey t k subkey decode=.ok (some v) := by
  simp only [Db.seekByKeySubkey,hs,hd]

/-- A change log that is indexed is read back as of the block; pick says what is
made of the row. -/
theorem readChange_eq {α κ : Type} [DecidableEq κ] (pass : Prop) [Decidable pass]
    {log : List (Change κ Felt)}
    {sub : κ → Bytes} {blocks : κ → BlockList} {rows : Nat → Bytes → Prop}
    (h : Indexed log sub C.felt.encode blocks rows) {k : κ}
    (hsub : ∀ c∈log, sub k<+:sub c.key++C.felt.encode c.value → c.key=k)
    {list : Option BlockList} (hlist : list.getD ∅=blocks k)
    {seek : Nat → Except ProviderError (Option α)} {missing : Nat → ProviderError}
    {pick : α → Option Felt}
    (hseek : ∀ n v, rows n (sub k++C.felt.encode v) →
      (∀ w, rows n w → sub k<+:w → w=sub k++C.felt.encode v) →
      ∃ e, seek n=.ok (some e) ∧ pick e=if pass then some v else none) (b : Nat) :
    readChange b list seek missing pick=.ok (if pass then asOf log b k else none) := by
  have hrecent : list.bind (recentChangeFromBlock b)=recentChangeFromBlock b (blocks k) := by
    cases list with
    | none => exact ((recent_eq_none b _).mpr (by simp [← hlist])).symm
    | some l => rw [← hlist]; rfl
  unfold readChange
  rw [hrecent]
  cases hr : recentChangeFromBlock b (blocks k) with
  | none => simp [(h.recent_none b k).mp hr]
  | some n =>
    obtain ⟨v,hv,hrow,huniq⟩ := h.recent_some hsub hr
    obtain ⟨e,hs,hp⟩ := hseek n v hrow huniq
    simp only [hs,hp,hv]

theorem historical_nonce (h : ContractIndexed C classes nonces db) (b : Nat) (a : Felt) :
    (StateProvider.historical db b).nonce C a=
      .ok (if C.normalizeAddress a=a then asOf nonces b a else none) := by
  refine readChange_eq (C.normalizeAddress a=a) h.nonceIndex
    (fun c _ hp => (Felt.eq_of_prefix hp).symm) ?_ ?_ b
  · rw [nonceChangeBlocks]
    cases db.get .contractInfoChangeSet a <;> rfl
  · intro n v hrow huniq
    exact ⟨_,seekByKeySubkey_of_seek (Db.seek_prefix hrow (List.prefix_append _ _) huniq)
      (ContractNonceChange.decompress_compress C a v),rfl⟩

theorem historical_class (h : ContractIndexed C classes nonces db) (b : Nat) (a : Felt) :
    (StateProvider.historical db b).classHashOfContract C a=
      .ok (if C.normalizeAddress a=a then asOf classes b a else none) := by
  refine readChange_eq (C.normalizeAddress a=a) h.classIndex
    (fun c _ hp => (Felt.eq_of_prefix hp).symm) ?_ ?_ b
  · rw [classChangeBlocks]
    cases db.get .contractInfoChangeSet a <;> rfl
  · intro n v hrow huniq
    exact ⟨_,seekByKeySubkey_of_seek (Db.seek_prefix hrow (List.prefix_append _ _) huniq)
      (ContractClassChange.decompress_compress C a v),rfl⟩

theorem historical_storage {log : StorageLog} (h : StorageIndexed C log db) (b : Nat) (a k : Felt) :
    (StateProvider.historical db b).storage C a k=
      .ok (if C.normalizeAddress a=a then asOf log b ⟨a,k⟩ else none) := by
  refine readChange_eq (k := ⟨a,k⟩) (C.normalizeAddress a=a) h
    (fun c _ hp => (ContractStorageKey.eq_of_prefix hp).symm) rfl ?_ b
  intro n v hrow huniq
  refine ⟨_,seekByKeySubkey_of_seek (Db.seek_prefix hrow (List.prefix_append _ _) huniq)
    (ContractStorageEntry.decompress_compress C a k v),?_⟩
  simp

theorem latest_nonce (h : ContractRep C classes nonces db) (a : Felt) :
    (StateProvider.latest db).nonce C a=.ok
      ((mergedInfo (latest classes a) (latest nonces a)).map (fun info => info.nonce)) := by
  simp only [StateProvider.nonce,h.info]

theorem latest_class (h : ContractRep C classes nonces db) (a : Felt) :
    (StateProvider.latest db).classHashOfContract C a=.ok
      ((mergedInfo (latest classes a) (latest nonces a)).map (fun info => info.classHash)) := by
  simp only [StateProvider.classHashOfContract,h.info]

theorem latest_storage {value : ContractStorageKey → Option Felt} (h : HoldsStorage C value db)
    (a k : Felt) : (StateProvider.latest db).storage C a k=.ok (value ⟨a,k⟩) := by
  cases hl : value ⟨a,k⟩ with
  | some v =>
    have hs := seekByKeySubkey_of_seek (h.seek_some hl) (StorageEntry.decompress_compress C ⟨k,v⟩)
    simp [StateProvider.storage,hs]
  | none =>
    obtain hs | ⟨k',v',hk,hs⟩ := h.seek_none hl
    · simp [StateProvider.storage,Db.seekByKeySubkey,hs]
    · have hs' := seekByKeySubkey_of_seek hs (StorageEntry.decompress_compress C ⟨k',v'⟩)
      simp [StateProvider.storage,hs',hk]

end Reads
end Katana
