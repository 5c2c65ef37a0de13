import Katana.Base.Interrupted
import Katana.Da.Encoding

/-! What is read back of the words of a state update: the update without what the words cannot
show. -/
namespace Katana.Da
open SortedMap

section Read
variable {address : Nat → Felt}

theorem toFelt_val (x : Felt) : toFelt x.val=x := by simp [toFelt]

theorem ok_bind {ε α β : Type} (a : α) (f : α → Except ε β) : (.ok a>>=f)=f a := by
  simp only [bind,Except.bind]

@[simp] theorem next_run_cons (missing : EncodingError) (w : Nat) (ws : List Nat) :
    (next missing).run (w::ws)=.ok (w,ws) := by
  simp only [StateT.run,next]

theorem readPairs_run (missingKey missingValue : EncodingError) (l : List (Felt × Felt))
    (m : SortedMap Felt Felt) (rest : List Nat) :
    (readPairs missingKey missingValue l.length m).run (l.flatMap pairWords++rest)=
      .ok (l.foldl (fun m r => m.put r.1 r.2) m,rest) := by
  induction l generalizing m with
  | nil => rfl
  | cons r l ih => simp [readPairs,pairWords,ok_bind,toFelt_val,ih]

theorem readPairs_map (missingKey missingValue : EncodingError) (m : SortedMap Felt Felt)
    (rest : List Nat) :
    (readPairs missingKey missingValue m.size ∅).run (m.rows.flatMap pairWords++rest)=
      .ok (m,rest) := by
  have hm : m.rows.foldl (fun m r => m.put r.1 r.2) ∅=m :=
    ext_get fun k => get_ofList_eq fun v => (m.get_eq_some k v).symm
  rw [SortedMap.size,readPairs_run,hm]

def rowWords (a : Felt) (classHash : Option Felt) (nonce : Felt) (storages : SortedMap Felt Felt) :
    List Nat :=
  a.val::packed classHash.isSome nonce.val storages.size::
    (classHash.toList.map Fin.val++storages.rows.flatMap pairWords)

theorem readContracts_row (n : Nat) (su : StateUpdates) (a : Felt) (classHash : Option Felt)
    {nonce : Felt} (hnonce : nonce.val<2^64) {storages : SortedMap Felt Felt}
    (hsize : storages.size<2^64) (rest : List Nat) :
    (readContracts address (n+1) su).run (rowWords a classHash nonce storages++rest)=
      (readContracts address n
        (insertContract su (address a.val) (shownNonce nonce) classHash storages)).run rest := by
  have hstorages := readPairs_map .missingStorageKey .missingStorageValue storages rest
  have hmeta := Metadata.decode_packed classHash.isSome hnonce hsize
  unfold rowWords
  generalize packed classHash.isSome nonce.val storages.size=word at hmeta ⊢
  cases classHash with
  | none => simp [readContracts,readClassHash,ok_bind,hmeta,readStorages,hstorages]
  | some h =>
    simp [readContracts,readClassHash,ok_bind,hmeta,readStorages,hstorages,toFelt_val]

end Read

section Contracts
variable {su : StateUpdates} {a : Felt}

/-- The contract has a nonce, a class or storage entries in the update. -/
def Touched (su : StateUpdates) (a : Felt) : Prop :=
  su.nonceUpdates.get a≠none ∨ su.deployedContracts.get a≠none ∨ su.storageUpdates.get a≠none

def updateOf (su : StateUpdates) (a : Felt) : ContractUpdate where
  metadata := ⟨(su.deployedContracts.get a).isSome,su.nonceUpdates.get a,
    ((su.storageUpdates.get a).getD ∅).size⟩
  classHash := su.deployedContracts.get a
  storageUpdates := (su.storageUpdates.get a).getD ∅

theorem contractUpdates_get (su : StateUpdates) (a : Felt) :
    (Touched su a → (contractUpdates su).get a=some (updateOf su a)) ∧
      (¬Touched su a → (contractUpdates su).get a=none) := by
  simp only [contractUpdates,get_merge,Touched,updateOf]
  cases su.nonceUpdates.get a <;> cases su.deployedContracts.get a <;>
    cases su.storageUpdates.get a <;> simp <;> rfl

theorem contractUpdates_row {r : Felt × ContractUpdate} (h : r∈(contractUpdates su).rows) :
    r.2=updateOf su r.1 ∧ Touched su r.1 := by
  have hget := ((contractUpdates su).get_eq_some r.1 r.2).mpr h
  by_cases ht : Touched su r.1
  · rw [(contractUpdates_get su r.1).1 ht,Option.some.injEq] at hget
    exact ⟨hget.symm,ht⟩
  · rw [(contractUpdates_get su r.1).2 ht] at hget
    cases hget

/-- No map has more entries than a length can count. -/
structure Fits (su : StateUpdates) : Prop where
  contracts : (contractUpdates su).size<2^64
  storages : ∀ a m, su.storageUpdates.get a=some m → m.size<2^64
  declarations : su.declaredClasses.size<2^64

def NoncesFit (su : StateUpdates) : Prop := ∀ a n, su.nonceUpdates.get a=some n → n.val<2^64

def nonceOf (su : StateUpdates) (a : Felt) : Felt := (su.nonceUpdates.get a).getD 0

def storagesOf (su : StateUpdates) (a : Felt) : SortedMap Felt Felt :=
  (su.storageUpdates.get a).getD ∅

def wordsOf (su : StateUpdates) (a : Felt) : List Nat :=
  rowWords a (su.deployedContracts.get a) (nonceOf su a) (storagesOf su a)

theorem nonceOf_lt (h : NoncesFit su) (a : Felt) : (nonceOf su a).val<2^64 := by
  unfold nonceOf
  cases hn : su.nonceUpdates.get a with
  | none => decide
  | some n => exact h a n hn

theorem storagesOf_size (h : Fits su) (a : Felt) : (storagesOf su a).size<2^64 := by
  unfold storagesOf
  cases hm : su.storageUpdates.get a with
  | none => decide
  | some m => exact h.storages a m hm

theorem contractWords_eq (hfit : Fits su) (hnonce : NoncesFit su) {r : Felt × ContractUpdate}
    (h : r∈(contractUpdates su).rows) : contractWords r=some (wordsOf su r.1) := by
  have hr := (contractUpdates_row h).1
  have hmeta : r.2.metadata.encode=some (packed (su.deployedContracts.get r.1).isSome
      (nonceOf su r.1).val (storagesOf su r.1).size) := by
    rw [hr,Metadata.encode_eq (storagesOf_size hfit r.1) (fun n hn => hnonce r.1 n hn)]
    simp only [updateOf,nonceOf,storagesOf]
    cases su.nonceUpdates.get r.1 <;> rfl
  simp only [contractWords,ContractUpdate.encode,hmeta,Option.map_some]
  rw [hr]
  rfl

theorem mapM_eq_map {α β : Type} {f : α → Option β} {g : α → β} {l : List α}
    (h : ∀ x∈l, f x=some (g x)) : l.mapM f=some (l.map g) := by
  induction l with
  | nil => rfl
  | cons x l ih =>
    rw [List.mapM_cons,h x (by simp),ih (fun y hy => h y (by simp [hy]))]
    rfl

theorem mapM_eq_none {α β : Type} {f : α → Option β} {l : List α} {x : α} (hx : x∈l)
    (h : f x=none) : l.mapM f=none := by
  induction l with
  | nil => cases hx
  | cons y l ih =>
    rw [List.mapM_cons]
    rcases List.mem_cons.mp hx with rfl | hx
    · rw [h]
      rfl
    · rw [ih hx]
      cases f y <;> rfl

def contracts (su : StateUpdates) : List Felt := (contractUpdates su).rows.map Prod.fst

theorem encodeStateUpdates_eq (hfit : Fits su) (hnonce : NoncesFit su) :
    encodeStateUpdates su=some ((contractUpdates su).size::((contracts su).flatMap (wordsOf su)++
      su.declaredClasses.size::su.declaredClasses.rows.flatMap pairWords)) := by
  have h : (contractUpdates su).rows.mapM contractWords=
      some ((contractUpdates su).rows.map fun r => wordsOf su r.1) :=
    mapM_eq_map fun r hr => contractWords_eq hfit hnonce hr
  rw [encodeStateUpdates,h]
  simp [contracts,List.flatMap_def,Function.comp_def]

theorem encodeStateUpdates_none (h : ¬NoncesFit su) : encodeStateUpdates su=none := by
  simp only [NoncesFit,not_forall] at h
  obtain ⟨a,n,hn,hlt⟩ := h
  have ht : Touched su a := Or.inl (by simp [hn])
  have hrow := (get_eq_some _ _ _).mp ((contractUpdates_get su a).1 ht)
  have hnone : contractWords (a,updateOf su a)=none := by
    have hnonce : (updateOf su a).metadata.newNonce=some n := hn
    have hm : (updateOf su a).metadata.encode=none := by simpa [Metadata.encode,hnonce] using hlt
    simp [contractWords,ContractUpdate.encode,hm]
  simp [encodeStateUpdates,mapM_eq_none hrow hnone]

end Contracts

variable {l : List Felt} {n : Nat}

section Decoded
variable {address : Nat → Felt} {su su' : StateUpdates}

def nonEmpty (m : SortedMap Felt Felt) : Option (SortedMap Felt Felt) :=
  if m.rows=[] then none else some m

/-- Reading the words of an update gives another: without the nonces of zero, the empty storages,
the replaced classes and the classes that are declared without a compiled class. -/
structure Shows (su su' : StateUpdates) : Prop where
  nonces : ∀ a, su'.nonceUpdates.get a=(su.nonceUpdates.get a).bind shownNonce
  storages : ∀ a, su'.storageUpdates.get a=(su.storageUpdates.get a).bind nonEmpty
  deployed : su'.deployedContracts=su.deployedContracts
  declared : su'.declaredClasses=su.declaredClasses
  replaced : su'.replacedClasses=∅
  deprecated : su'.deprecatedDeclaredClasses=∅

def insertOf (su s : StateUpdates) (a : Felt) : StateUpdates :=
  insertContract s a (shownNonce (nonceOf su a)) (su.deployedContracts.get a) (storagesOf su a)

theorem readContracts_run (hfit : Fits su) (hnonce : NoncesFit su) (ha : ∀ a∈l, address a.val=a)
    (s : StateUpdates) (rest : List Nat) :
    (readContracts address l.length s).run (l.flatMap (wordsOf su)++rest)=
      .ok (l.foldl (insertOf su) s,rest) := by
  induction l generalizing s with
  | nil => rfl
  | cons a l ih =>
    rw [List.flatMap_cons,List.append_assoc,List.length_cons,wordsOf,
      readContracts_row _ _ _ _ (nonceOf_lt hnonce a) (storagesOf_size hfit a),ha a (by simp),
      List.foldl_cons]
    exact ih (fun b hb => ha b (by simp [hb])) _

theorem foldl_insertOf (l : List Felt) (s : StateUpdates) :
    l.foldl (insertOf su) s={ s with
      nonceUpdates := l.foldl (fun m a => (shownNonce (nonceOf su a)).elim m fun v => m.put a v)
        s.nonceUpdates
      storageUpdates := l.foldl (fun m a => (nonEmpty (storagesOf su a)).elim m fun v => m.put a v)
        s.storageUpdates
      deployedContracts := l.foldl (fun m a =>
        (su.deployedContracts.get a).elim m fun v => m.put a v) s.deployedContracts } := by
  induction l generalizing s with
  | nil => rfl
  | cons a l ih =>
    have hstorages : (nonEmpty (storagesOf su a)).elim s.storageUpdates
        (fun v => s.storageUpdates.put a v)=if (storagesOf su a).rows=[] then s.storageUpdates
          else s.storageUpdates.put a (storagesOf su a) := by
      by_cases h : (storagesOf su a).rows=[] <;> simp [nonEmpty,h]
    rw [List.foldl_cons,ih]
    simp [insertOf,insertContract,hstorages]

theorem mem_contracts {a : Felt} : a∈contracts su ↔ Touched su a := by
  constructor
  · intro h
    obtain ⟨r,hr,rfl⟩ := List.mem_map.mp h
    exact (contractUpdates_row hr).2
  · intro h
    exact List.mem_map.mpr ⟨_,(get_eq_some _ _ _).mp ((contractUpdates_get su a).1 h),rfl⟩

def shown (su : StateUpdates) : StateUpdates :=
  { (contracts su).foldl (insertOf su) {} with declaredClasses := su.declaredClasses }

theorem shows_shown (su : StateUpdates) : Shows su (shown su) where
  nonces a := by
    rw [shown,foldl_insertOf]
    simp only [get_foldl_put,get_empty,Option.or_none]
    cases h : su.nonceUpdates.get a with
    | none => simp [nonceOf,h,shownNonce]
    | some n => simp [nonceOf,h,mem_contracts,Touched]
  storages a := by
    rw [shown,foldl_insertOf]
    simp only [get_foldl_put,get_empty,Option.or_none]
    cases h : su.storageUpdates.get a with
    | none =>
      have hempty : (∅ : SortedMap Felt Felt).rows=[] := rfl
      simp [storagesOf,h,nonEmpty,hempty]
    | some m => simp [storagesOf,h,mem_contracts,Touched]
  deployed := by
    apply ext_get
    intro a
    rw [shown,foldl_insertOf]
    simp only [get_foldl_put,get_empty,Option.or_none]
    cases h : su.deployedContracts.get a with
    | none => simp
    | some c => simp [h,mem_contracts,Touched]
  declared := rfl
  replaced := by rw [shown,foldl_insertOf]
  deprecated := by rw [shown,foldl_insertOf]

theorem decodeWith_encode (hfit : Fits su) (hnonce : NoncesFit su)
    (ha : ∀ a, Touched su a → address a.val=a) :
    ∃ words, encodeStateUpdates su=some words ∧ decodeWith address words=.ok (shown su) := by
  refine ⟨_,encodeStateUpdates_eq hfit hnonce,?_⟩
  have hread := readContracts_run hfit hnonce (l:=contracts su)
    (fun a h => ha a (mem_contracts.mp h)) {}
    (su.declaredClasses.size::su.declaredClasses.rows.flatMap pairWords)
  have hlen : (contracts su).length=(contractUpdates su).size := by
    simp [contracts,SortedMap.size]
  have hdecl := readPairs_map .missingClassHash .missingCompiledClassHash su.declaredClasses []
  rw [List.append_nil] at hdecl
  rw [hlen] at hread
  have hcontracts : toUsize (contractUpdates su).size=.ok (contractUpdates su).size :=
    if_pos hfit.contracts
  have hdeclarations : toUsize su.declaredClasses.size=.ok su.declaredClasses.size :=
    if_pos hfit.declarations
  simp [decodeWith,ok_bind,hcontracts,hdeclarations,hread,readDeclarations,hdecl,shown]

end Decoded

section Parsed
variable {address : Nat → Felt} {su su' : StateUpdates}

theorem slice_lt {bs x : List Bool} {start len : Nat} (h : slice bs start len=.ok x) :
    BitString.value x<2^len := by
  unfold slice at h
  split at h
  · next hl =>
    have hx : x.length=len := by
      rw [←Except.ok.inj h]
      simp
      omega
    rw [←hx]
    exact BitString.value_lt x
  · cases h

theorem toFelt_val_of_lt (h : n<2^64) : (toFelt n).val=n :=
  Nat.mod_eq_of_lt (h.trans (by decide))

theorem Metadata.decode_ok {word : Nat} {m : Metadata} (h : Metadata.decode word=.ok m) :
    (∀ n, m.newNonce=some n → n≠0 ∧ n.val<2^64) ∧ m.totalStorageUpdates<2^64 := by
  unfold Metadata.decode at h
  obtain ⟨flag,-,h⟩ := Except.bound h
  obtain ⟨nonce,hnonce,h⟩ := Except.bound h
  obtain ⟨total,htotal,h⟩ := Except.bound h
  obtain rfl := Except.ok.inj h
  refine ⟨?_,slice_lt htotal⟩
  intro n hn
  simp only at hn
  split at hn
  · cases hn
  · next h0 =>
    obtain rfl := Option.some.inj hn
    refine ⟨h0,?_⟩
    have hlt := slice_lt hnonce
    exact (toFelt_val_of_lt hlt).trans_lt hlt

theorem readPairs_size {missingKey missingValue : EncodingError} {m m' : SortedMap Felt Felt}
    {ws rest : List Nat} (h : (readPairs missingKey missingValue n m).run ws=.ok (m',rest)) :
    m'.size≤n+m.size := by
  induction n generalizing m ws with
  | zero =>
    obtain ⟨rfl,-⟩ := Prod.mk.inj (Except.ok.inj h)
    exact Nat.le_add_left _ _
  | succ n ih =>
    simp only [readPairs,StateT.run_bind] at h
    obtain ⟨key,-,h⟩ := Except.bound h
    obtain ⟨value,-,h⟩ := Except.bound h
    have hsize := ih h
    have hput := size_put_le (toFelt key.1) (toFelt value.1) m
    omega

/-- What holds of an update while its contracts are read, of which l are the addresses. -/
structure Parsed (address : Nat → Felt) (l : List Felt) (su : StateUpdates) : Prop where
  touched : ∀ a, Touched su a → a∈l
  read : ∀ a∈l, address a.val=a
  nonces : ∀ a n, su.nonceUpdates.get a=some n → n≠0 ∧ n.val<2^64
  storages : ∀ a m, su.storageUpdates.get a=some m → m.rows≠[] ∧ m.size<2^64
  replaced : su.replacedClasses=∅
  deprecated : su.deprecatedDeclaredClasses=∅

theorem Parsed.insert (h : Parsed address l su) {a : Felt} (ha : address a.val=a)
    {newNonce classHash : Option Felt} {storages : SortedMap Felt Felt}
    (hnonce : ∀ n, newNonce=some n → n≠0 ∧ n.val<2^64) (hsize : storages.size<2^64) :
    Parsed address (a::l) (insertContract su a newNonce classHash storages) where
  touched b hb := by
    by_cases hab : a=b
    · exact List.mem_cons.mpr (.inl hab.symm)
    · refine List.mem_cons_of_mem a (h.touched b ?_)
      rcases hb with hb | hb | hb
      · refine .inl fun hnone => hb ?_
        cases newNonce <;> simp [insertContract,get_put,hab,hnone]
      · refine .inr (.inl fun hnone => hb ?_)
        cases classHash <;> simp [insertContract,get_put,hab,hnone]
      · refine .inr (.inr fun hnone => hb ?_)
        by_cases he : storages.rows=[] <;> simp [insertContract,get_put,hab,hnone,he]
  read b hb := by
    rcases List.mem_cons.mp hb with rfl | hb
    · exact ha
    · exact h.read b hb
  nonces b n hn := by
    cases hnew : newNonce with
    | none => 
      rw [hnew] at hn
      exact h.nonces b n hn
    | some k =>
      simp only [insertContract,hnew,Option.elim_some,get_put] at hn
      split at hn
      · exact hnonce n (hnew.trans hn)
      · exact h.nonces b n hn
  storages b m hm := by
    simp only [insertContract] at hm
    split at hm
    · exact h.storages b m hm
    · next hne =>
      rw [get_put] at hm
      split at hm
      · obtain rfl := Option.some.inj hm
        exact ⟨hne,hsize⟩
      · exact h.storages b m hm
  replaced := h.replaced
  deprecated := h.deprecated

theorem readContracts_parsed (haddress : ∀ n, address (address n).val=address n)
    {ws rest : List Nat} (hs : Parsed address l su)
    (h : (readContracts address n su).run ws=.ok (su',rest)) :
    ∃ l', l'.length=l.length+n ∧ Parsed address l' su' := by
  induction n generalizing su l ws with
  | zero =>
    obtain ⟨rfl,-⟩ := Prod.mk.inj (Except.ok.inj h)
    exact ⟨l,rfl,hs⟩
  | succ n ih =>
    simp only [readContracts,StateT.run_bind] at h
    obtain ⟨a,-,h⟩ := Except.bound h
    obtain ⟨word,-,h⟩ := Except.bound h
    obtain ⟨m,hm,h⟩ := Except.bound h
    obtain ⟨classHash,-,h⟩ := Except.bound h
    obtain ⟨storages,hstorages,h⟩ := Except.bound h
    rw [StateT.run_monadLift] at hm
    obtain ⟨m',hm',hm⟩ := Except.bound hm
    obtain rfl := Except.ok.inj hm
    obtain ⟨hnonce,htotal⟩ := Metadata.decode_ok hm'
    have hsize : storages.1.size<2^64 := (readPairs_size hstorages).trans_lt htotal
    obtain ⟨l',hl',hp⟩ := ih (hs.insert (haddress a.1) hnonce hsize) h
    exact ⟨l',by rw [hl',List.length_cons]; omega,hp⟩

end Parsed

section RoundTrip
variable {su : StateUpdates}

/-- What the words can show: no replaced classes, no classes without a compiled class, nonces of
64 bits that are not zero, storages that are not empty. -/
structure Encodable (su : StateUpdates) : Prop where
  replaced : su.replacedClasses=∅
  deprecated : su.deprecatedDeclaredClasses=∅
  nonces : ∀ a n, su.nonceUpdates.get a=some n → n≠0 ∧ n.val<2^64
  storages : ∀ a m, su.storageUpdates.get a=some m → m.rows≠[]

theorem Encodable.shown_eq (h : Encodable su) : shown su=su := by
  have hs := shows_shown su
  apply StateUpdates.ext
  · refine ext_get fun a => ?_
    rw [hs.nonces]
    cases hn : su.nonceUpdates.get a with
    | none => rfl
    | some n => simp [shownNonce,(h.nonces a n hn).1]
  · refine ext_get fun a => ?_
    rw [hs.storages]
    cases hm : su.storageUpdates.get a with
    | none => rfl
    | some m => simp [nonEmpty,h.storages a m hm]
  · exact hs.deployed
  · exact hs.replaced.trans h.replaced.symm
  · exact hs.declared
  · exact hs.deprecated.trans h.deprecated.symm

section Normalized
variable {normalizeAddress : Felt → Felt}

theorem Encodable.decode_encode (h : Encodable su) (hfit : Fits su)
    (ha : ∀ a, Touched su a → normalizeAddress a=a) :
    ∃ words, encodeStateUpdates su=some words ∧
      decodeStateUpdates normalizeAddress words=.ok su := by
  have haddress (a : Felt) (ht : Touched su a) : contractAddress normalizeAddress a.val=a := by
    rw [contractAddress,toFelt_val,ha a ht]
  obtain ⟨words,henc,hdec⟩ := decodeWith_encode hfit (fun a n hn => (h.nonces a n hn).2) haddress
  rw [h.shown_eq] at hdec
  exact ⟨words,henc,hdec⟩

theorem parsed_empty (address : Nat → Felt) : Parsed address [] {} where
  touched a h := by simp [Touched] at h
  read a h := by cases h
  nonces a n h := by simp at h
  storages a m h := by simp at h
  replaced := rfl
  deprecated := rfl

theorem toUsize_ok {m : Nat} (h : toUsize n=.ok m) : m=n ∧ n<2^64 := by
  unfold toUsize at h
  split at h
  · next hlt => exact ⟨(Except.ok.inj h).symm,hlt⟩
  · cases h

/-- An update that was read has no more contracts than were counted, and meets what the words
can show. -/
theorem Parsed.encodable (h : Parsed (contractAddress normalizeAddress) l su) (hl : l.length<2^64)
    (hdeclared : su.declaredClasses.size<2^64) :
    Encodable su ∧ Fits su ∧ ∀ a, Touched su a → normalizeAddress a=a := by
  refine ⟨⟨h.replaced,h.deprecated,h.nonces,fun a m hm => (h.storages a m hm).1⟩,
    ⟨?_,fun a m hm => (h.storages a m hm).2,hdeclared⟩,?_⟩
  · refine (size_le_of_keys ?_).trans_lt hl
    intro a ha
    by_contra hna
    exact ha ((contractUpdates_get su a).2 fun ht => hna (h.touched a ht))
  · intro a ht
    have hread := h.read a (h.touched a ht)
    rwa [contractAddress,toFelt_val] at hread

theorem decoded_encodable {words : List Nat}
    (hidem : ∀ a, normalizeAddress (normalizeAddress a)=normalizeAddress a)
    (h : decodeStateUpdates normalizeAddress words=.ok su) :
    Encodable su ∧ Fits su ∧ ∀ a, Touched su a → normalizeAddress a=a := by
  unfold decodeStateUpdates decodeWith at h
  split at h
  · obtain rfl := Except.ok.inj h
    exact (parsed_empty _).encodable (by decide) (by decide)
  · obtain ⟨r,hr,hsu⟩ := Except.bound h
    simp only [StateT.run_bind] at hr
    obtain ⟨count,-,hr⟩ := Except.bound hr
    obtain ⟨total,htotal,hr⟩ := Except.bound hr
    obtain ⟨parsed,hparsed,hr⟩ := Except.bound hr
    obtain ⟨count',-,hr⟩ := Except.bound hr
    obtain ⟨total',htotal',hr⟩ := Except.bound hr
    obtain ⟨declared,hdeclared,hresult⟩ := Except.bound hr
    rw [StateT.run_monadLift] at htotal htotal'
    obtain ⟨n,hn,hrun⟩ := Except.bound htotal
    obtain ⟨n',hn',hrun'⟩ := Except.bound htotal'
    obtain rfl := Except.ok.inj hrun
    obtain rfl := Except.ok.inj hrun'
    obtain rfl := Except.ok.inj hresult
    obtain rfl := Except.ok.inj hsu
    obtain ⟨rfl,hlt⟩ := toUsize_ok hn
    obtain ⟨rfl,hlt'⟩ := toUsize_ok hn'
    obtain ⟨l,hl,hp⟩ := readContracts_parsed (fun n => by
      rw [contractAddress,contractAddress,toFelt_val,hidem]) (parsed_empty _) hparsed
    have hp' : Parsed (contractAddress normalizeAddress) l { parsed.1 with declaredClasses := declared.1 } :=
      ⟨hp.touched,hp.read,hp.nonces,hp.storages,hp.replaced,hp.deprecated⟩
    refine hp'.encodable ?_ ((readPairs_size hdeclared).trans_lt hlt')
    simp only [List.length_nil,Nat.zero_add] at hl
    omega

end Normalized

/-- An update that the words can show is read back, if its addresses are normalised; and whatever
is read from any words is read back from its own. -/
theorem state_updates_read_back (normalizeAddress : Felt → Felt)
    (hidem : ∀ a, normalizeAddress (normalizeAddress a)=normalizeAddress a) :
    (∀ su : StateUpdates, Encodable su → Fits su →
      (∀ a, Touched su a → normalizeAddress a=a) → ∃ words, encodeStateUpdates su=some words ∧
        decodeStateUpdates normalizeAddress words=.ok su) ∧
    ∀ (w : List Nat) (su : StateUpdates), decodeStateUpdates normalizeAddress w=.ok su →
      ∃ words, encodeStateUpdates su=some words ∧
        decodeStateUpdates normalizeAddress words=.ok su := by
  refine ⟨fun su h hfit ha => h.decode_encode hfit ha,?_⟩
  intro w su h
  obtain ⟨henc,hfit,ha⟩ := decoded_encodable hidem h
  exact henc.decode_encode hfit ha

/-- Two contracts that are deployed, and one with a nonce and a storage entry. -/
def sampleUpdates (c nonce : Felt) (replaced : SortedMap Felt Felt) : StateUpdates where
  nonceUpdates := (∅ : SortedMap Felt Felt).put 3 nonce
  storageUpdates :=
    (∅ : SortedMap Felt (SortedMap Felt Felt)).put 3 ((∅ : SortedMap Felt Felt).put 100 200)
  deployedContracts := ((∅ : SortedMap Felt Felt).put 1 c).put 2 9
  declaredClasses := (∅ : SortedMap Felt Felt).put 8 9
  replacedClasses := replaced

section Sample
variable (c nonce : Felt) (replaced : SortedMap Felt Felt)

theorem touched_sampleUpdates {a : Felt} (h : Touched (sampleUpdates c nonce replaced) a) :
    a∈[1,2,3] := by
  by_contra ha
  simp_all [Touched,sampleUpdates,get_put,eq_comm]

theorem sampleUpdates_fits : Fits (sampleUpdates c nonce replaced) where
  contracts := by
    refine (size_le_of_keys (l:=[1,2,3]) fun a ha => ?_).trans_lt (by decide)
    by_contra hna
    exact ha ((contractUpdates_get _ a).2 fun h => hna (touched_sampleUpdates c nonce replaced h))
  storages a m h := by
    simp only [sampleUpdates,get_put,get_empty] at h
    split at h <;> cases h
    decide +kernel
  declarations := show ((∅ : SortedMap Felt Felt).put 8 9).size<2^64 by decide +kernel

theorem sampleUpdates_nonces {a n : Felt}
    (h : (sampleUpdates c nonce replaced).nonceUpdates.get a=some n) : n=nonce := by
  simp only [sampleUpdates,get_put,get_empty] at h
  split at h <;> cases h
  rfl

end Sample

/-- An update that is read back, and words that are. -/
theorem updates_and_words_read_back :
    (∃ words, encodeStateUpdates (sampleUpdates 5 1 ∅)=some words ∧
      decodeStateUpdates normalizeAddress words=.ok (sampleUpdates 5 1 ∅)) ∧
    ∃ su words, decodeStateUpdates normalizeAddress [1,5,2^128+2^64+1,7,100,200,1,8,9]=.ok su ∧
      encodeStateUpdates su=some words ∧ decodeStateUpdates normalizeAddress words=.ok su := by
  have hback := state_updates_read_back normalizeAddress starknetCodecs.normalize_idem
  refine ⟨hback.1 _ ⟨rfl,rfl,fun a n h => ?_,fun a m h => ?_⟩ (sampleUpdates_fits 5 1 ∅)
    fun a h => ?_,?_⟩
  · rw [sampleUpdates_nonces 5 1 ∅ h]
    decide
  · simp only [sampleUpdates,get_put,get_empty] at h
    split at h <;> cases h
    decide +kernel
  · have hlt : a.val<4 := by
      have hmem := touched_sampleUpdates 5 1 ∅ h
      simp only [List.mem_cons,List.not_mem_nil,or_false] at hmem
      rcases hmem with rfl | rfl | rfl <;> decide
    refine Fin.ext ?_
    rw [normalizeAddress_val,Nat.mod_eq_of_lt (hlt.trans (by decide))]
  · have h : (decodeStateUpdates normalizeAddress
        [1,5,2^128+2^64+1,7,100,200,1,8,9]).toOption.isSome=true := by
      decide +kernel
    cases hd : decodeStateUpdates normalizeAddress [1,5,2^128+2^64+1,7,100,200,1,8,9] with
    | error e =>
      rw [hd] at h
      cases h
    | ok su =>
      obtain ⟨words,henc,hdec⟩ := hback.2 _ su hd
      exact ⟨su,words,rfl,henc,hdec⟩

/-- The bound of the addresses, as an address, is read back as zero. -/
theorem address_bound_read_as_zero :
    encodeStateUpdates { nonceUpdates := (∅ : SortedMap Felt Felt).put (toFelt addressBound) 1 }=
      some [1,addressBound,2^64,0] ∧
    (decodeStateUpdates normalizeAddress [1,addressBound,2^64,0]).toOption=
      some { nonceUpdates := (∅ : SortedMap Felt Felt).put 0 1 } := by
  decide +kernel

end RoundTrip

section Published
variable {su su' : StateUpdates}

/-- Read as the format has it, the words give the contract this class. -/
def ClassShown (words : List Nat) (a h : Felt) : Prop :=
  ∃ su', decodeWith toFelt words=.ok su' ∧ su'.deployedContracts.get a=some h

/-- The encoder returns, and every deployed or replaced class is in the words. -/
def ClassesShown (su : StateUpdates) : Prop :=
  ∃ words, encodeStateUpdates su=some words ∧
    ∀ a h, su.deployedContracts.get a=some h ∨ su.replacedClasses.get a=some h → ClassShown words a h

/-- The nonces have 64 bits, and a class that replaces another is also listed as deployed. -/
structure Publishable (su : StateUpdates) : Prop where
  nonces : NoncesFit su
  replaced : ∀ a h, su.replacedClasses.get a=some h → su.deployedContracts.get a=some h

def newClass (su : StateUpdates) (a : Felt) : Option Felt :=
  (su.replacedClasses.get a).or (su.deployedContracts.get a)

theorem Publishable.newClass_eq (h : Publishable su) (a : Felt) :
    newClass su a=su.deployedContracts.get a := by
  unfold newClass
  cases hr : su.replacedClasses.get a with
  | none => rfl
  | some c => exact (h.replaced a c hr).symm

theorem classesShown_iff (hfit : Fits su) : ClassesShown su ↔ Publishable su := by
  constructor
  · intro ⟨words,henc,hshown⟩
    have hnonce : NoncesFit su := by
      by_contra hn
      rw [encodeStateUpdates_none hn] at henc
      cases henc
    obtain ⟨words',henc',hdec⟩ := decodeWith_encode hfit hnonce (fun a _ => toFelt_val a)
    obtain rfl : words=words' := Option.some.inj (henc.symm.trans henc')
    refine ⟨hnonce,fun a h hr => ?_⟩
    obtain ⟨s,hs,hget⟩ := hshown a h (.inr hr)
    obtain rfl : s=shown su := Except.ok.inj (hs.symm.trans hdec)
    rwa [(shows_shown su).deployed] at hget
  · intro h
    obtain ⟨words,henc,hdec⟩ := decodeWith_encode hfit h.nonces (fun a _ => toFelt_val a)
    refine ⟨words,henc,fun a c hc => ⟨shown su,hdec,?_⟩⟩
    rw [(shows_shown su).deployed]
    exact hc.elim id (h.replaced a c)

theorem Publishable.agree (h : Publishable su) (h' : Publishable su') (hfit : Fits su)
    (hfit' : Fits su') (he : encodeStateUpdates su=encodeStateUpdates su') (a : Felt) :
    newClass su a=newClass su' a ∧
      (su.nonceUpdates.get a).bind shownNonce=(su'.nonceUpdates.get a).bind shownNonce := by
  obtain ⟨words,henc,hdec⟩ := decodeWith_encode hfit h.nonces (fun a _ => toFelt_val a)
  obtain ⟨words',henc',hdec'⟩ := decodeWith_encode hfit' h'.nonces (fun a _ => toFelt_val a)
  obtain rfl : words=words' := Option.some.inj (henc.symm.trans (he.trans henc'))
  have hshown : shown su=shown su' := Except.ok.inj (hdec.symm.trans hdec')
  rw [h.newClass_eq,h'.newClass_eq,←(shows_shown su).deployed,←(shows_shown su').deployed,
    ←(shows_shown su).nonces,←(shows_shown su').nonces,hshown]
  exact ⟨rfl,rfl⟩

theorem classes_and_nonces_published {su : StateUpdates} (hfit : Fits su) :
    (ClassesShown su ↔ Publishable su) ∧ ∀ su', Fits su' → Publishable su → Publishable su' →
      (∃ a, newClass su a≠newClass su' a ∨
        (su.nonceUpdates.get a).bind shownNonce≠(su'.nonceUpdates.get a).bind shownNonce) →
      encodeStateUpdates su≠encodeStateUpdates su' := by
  refine ⟨classesShown_iff hfit,?_⟩
  intro su' hfit' h h' hdiff he
  obtain ⟨a,hdiff⟩ := hdiff
  obtain ⟨hclass,hnonce⟩ := h.agree h' hfit hfit' he a
  exact hdiff.elim (fun hne => hne hclass) (fun hne => hne hnonce)

/-- A class of which a replacement is listed too. -/
def replacing (c nonce : Felt) : StateUpdates :=
  sampleUpdates c nonce ((∅ : SortedMap Felt Felt).put 2 9)

theorem replacing_publishable (c : Felt) {nonce : Felt} (h : nonce.val<2^64) :
    Publishable (replacing c nonce) := by
  refine ⟨fun a n hn => sampleUpdates_nonces c nonce _ hn ▸ h,fun a h hr => ?_⟩
  simp only [replacing,sampleUpdates,get_put,get_empty] at hr ⊢
  split at hr <;> simp_all

theorem classes_and_nonces_differ :
    encodeStateUpdates (replacing 5 1)≠encodeStateUpdates (replacing 6 1) ∧
    encodeStateUpdates (replacing 5 1)≠encodeStateUpdates (replacing 5 2) := by
  have h (c nonce : Felt) := (classes_and_nonces_published (sampleUpdates_fits 5 1 _)).2
    (replacing c nonce) (sampleUpdates_fits c nonce _) (replacing_publishable 5 (by decide))
  exact ⟨h 6 1 (replacing_publishable 6 (by decide)) ⟨1,.inl (by decide +kernel)⟩,
    h 5 2 (replacing_publishable 5 (by decide)) ⟨3,.inr (by decide +kernel)⟩⟩

/-- The class that replaces another is not in the words, whichever it is, and a nonce of 65 bits
panics. -/
theorem replaced_class_not_published :
    encodeStateUpdates { replacedClasses := (∅ : SortedMap Felt Felt).put 1 5 }=some [0,0] ∧
    encodeStateUpdates { replacedClasses := (∅ : SortedMap Felt Felt).put 1 6 }=some [0,0] ∧
    encodeStateUpdates { nonceUpdates := (∅ : SortedMap Felt Felt).put 1 (toFelt (2^64)) }=none := by
  decide +kernel

end Published
end Katana.Da
