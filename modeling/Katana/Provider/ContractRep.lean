import Katana.Db.Effect
import Katana.Db.HistoryIndex
import Katana.Provider.Write

/-! The contract tables as two logs, of class and of nonce changes. ContractInfo is
one record for both: it exists from the first change of either kind, the other field
is then zero. -/
namespace Katana
open ChangeLog DbTx ContractInfoChangeList
variable {P : Payloads}

abbrev FeltLog := List (Change Felt Felt)

def classChangeBlocks (db : Db P) (a : Felt) : BlockList :=
  ((db.get .contractInfoChangeSet a).getD {}).classChangeList

def nonceChangeBlocks (db : Db P) (a : Felt) : BlockList :=
  ((db.get .contractInfoChangeSet a).getD {}).nonceChangeList

/-- The contract record after the last class and nonce changes. -/
def mergedInfo (classHash nonce : Option Felt) : Option GenericContractInfo :=
  if classHash=none ∧ nonce=none then none
  else some { classHash := classHash.getD 0, nonce := nonce.getD 0 }

structure ContractIndexed (C : Codecs) (classes nonces : FeltLog) (db : Db P) : Prop where
  classIndex : Indexed classes Felt.toBytesBe C.felt.encode (classChangeBlocks db)
    (fun n w => db.HasDup .classChangeHistory n w)
  nonceIndex : Indexed nonces Felt.toBytesBe C.felt.encode (nonceChangeBlocks db)
    (fun n w => db.HasDup .nonceChangeHistory n w)

structure ContractRep (C : Codecs) (classes nonces : FeltLog) (db : Db P) : Prop where
  classIndex : Indexed classes Felt.toBytesBe C.felt.encode (classChangeBlocks db)
    (fun n w => db.HasDup .classChangeHistory n w)
  nonceIndex : Indexed nonces Felt.toBytesBe C.felt.encode (nonceChangeBlocks db)
    (fun n w => db.HasDup .nonceChangeHistory n w)
  info : ∀ a, db.get .contractInfo a=mergedInfo (latest classes a) (latest nonces a)

namespace ContractRep
variable {C : Codecs} {classes nonces : FeltLog} {db db' : Db P}

theorem empty (C : Codecs) : ContractRep C [] [] (Db.empty : Db P) where
  classIndex := Indexed.empty (fun _ => rfl) (by simp)
  nonceIndex := Indexed.empty (fun _ => rfl) (by simp)
  info _ := rfl

theorem indexed (h : ContractRep C classes nonces db) : ContractIndexed C classes nonces db :=
  ⟨h.classIndex,h.nonceIndex⟩

end ContractRep

theorem ContractIndexed.of_same {C : Codecs} {classes nonces : FeltLog} {db db' : Db P}
    (h : ContractIndexed C classes nonces db)
    (hget : ∀ a, db'.get .contractInfoChangeSet a=db.get .contractInfoChangeSet a)
    (hclass : ∀ n w, db'.HasDup .classChangeHistory n w ↔ db.HasDup .classChangeHistory n w)
    (hnonce : ∀ n w, db'.HasDup .nonceChangeHistory n w ↔ db.HasDup .nonceChangeHistory n w) :
    ContractIndexed C classes nonces db' where
  classIndex := by
    have hb : classChangeBlocks db'=classChangeBlocks db := by
      funext a
      rw [classChangeBlocks,classChangeBlocks,hget]
    rw [hb]
    simpa only [hclass] using h.classIndex
  nonceIndex := by
    have hb : nonceChangeBlocks db'=nonceChangeBlocks db := by
      funext a
      rw [nonceChangeBlocks,nonceChangeBlocks,hget]
    rw [hb]
    simpa only [hnonce] using h.nonceIndex

theorem ContractIndexed.of_agree {C : Codecs} {classes nonces : FeltLog} {db db' : Db P}
    {S : List Table} {D : List DupTable} (h : ContractIndexed C classes nonces db)
    (ha : Agree S D db db') (hS : .contractInfoChangeSet∉S) (hD : .classChangeHistory∉D)
    (hD' : .nonceChangeHistory∉D) : ContractIndexed C classes nonces db' :=
  h.of_same (fun _ => ha.get hS _) (fun _ _ => ha.hasDup hD _ _) (fun _ _ => ha.hasDup hD' _ _)

variable {C : Codecs} {classes nonces : FeltLog} {db : Db P}

section
variable (cs : Option ContractInfoChangeList)

theorem mem_withClassChange (n m : Nat) :
    m∈(withClassChange cs n).classChangeList ↔
      m=n ∨ m∈(cs.getD {}).classChangeList := by
  cases cs <;> simp [withClassChange]

theorem mem_withNonceChange (n m : Nat) :
    m∈(withNonceChange cs n).nonceChangeList ↔
      m=n ∨ m∈(cs.getD {}).nonceChangeList := by
  cases cs <;> simp [withNonceChange]

theorem nonceList_withClassChange (n : Nat) :
    (withClassChange cs n).nonceChangeList=
      (cs.getD {}).nonceChangeList := by
  cases cs <;> rfl

theorem classList_withNonceChange (n : Nat) :
    (withNonceChange cs n).classChangeList=
      (cs.getD {}).classChangeList := by
  cases cs <;> rfl

end

section
variable (h : ContractIndexed C classes nonces db)
include h

theorem storeDeployedContract_index {n : Nat}
    {a c : Felt} (hc : ∀ d∈classes, d.time<n ∨ d.time=n ∧ d.key≠a) :
    Faulty.Ensures (storeDeployedContract C n a c) db (fun _ db' =>
      ContractIndexed C (classes++[⟨n,a,c⟩]) nonces db') := by
  refine get_then (get_then (put_then (putDup_then (ensures_put ?_))))
  refine ⟨h.classIndex.concat hc ?_ ?_,?_⟩
  · intro a' m
    simp only [classChangeBlocks,Db.get_put]
    by_cases ha : a=a'
    · subst ha
      simp [mem_withClassChange]
    · simp [ha]
  · intro m w
    rw [Db.hasDup_put,Db.hasDup_putDup,Db.hasDup_put]
    rfl
  · convert h.nonceIndex using 1
    · funext a'
      simp only [nonceChangeBlocks,Db.get_put]
      by_cases ha : a=a'
      · subst ha
        simp [nonceList_withClassChange]
      · simp [ha]
    · funext m w
      simp

theorem storeNonceUpdate_index {n : Nat} {a m : Felt}
    (hc : ∀ d∈nonces, d.time<n ∨ d.time=n ∧ d.key≠a) :
    Faulty.Ensures (storeNonceUpdate C n a m) db (fun _ db' =>
      ContractIndexed C classes (nonces++[⟨n,a,m⟩]) db') := by
  refine get_then (get_then (put_then (putDup_then (ensures_put ?_))))
  refine ⟨?_,h.nonceIndex.concat hc ?_ ?_⟩
  · convert h.classIndex using 1
    · funext a'
      simp only [classChangeBlocks,Db.get_put]
      by_cases ha : a=a'
      · subst ha
        simp [classList_withNonceChange]
      · simp [ha]
    · funext m w
      simp
  · intro a' m
    simp only [nonceChangeBlocks,Db.get_put]
    by_cases ha : a=a'
    · subst ha
      simp [mem_withNonceChange]
    · simp [ha]
  · intro m w
    rw [Db.hasDup_put,Db.hasDup_putDup,Db.hasDup_put]
    rfl

theorem storeDeployedContracts_index {n : Nat}
    (hlt : ∀ d∈classes, d.time<n) (deployed : SortedMap Felt Felt) :
    Faulty.Ensures (storeDeployedContracts C n deployed) db (fun _ db' =>
      ContractIndexed C (classes++changesAt n deployed.rows) nonces db') := by
  refine Faulty.ensures_forM (fun pre s => ContractIndexed C (classes++changesAt n pre) nonces s)
    deployed.rows ?_ (by simpa [changesAt] using h)
  intro pre r post hsplit s hs
  have hstep := storeDeployedContract_index (c := r.2) hs (changesAt_fresh hlt hsplit)
  exact hstep.mono (fun _ s' h' => by simpa [changesAt] using h')

theorem storeNonceUpdates_index {n : Nat}
    (hlt : ∀ d∈nonces, d.time<n) (updates : SortedMap Felt Felt) :
    Faulty.Ensures (storeNonceUpdates C n updates) db (fun _ db' =>
      ContractIndexed C classes (nonces++changesAt n updates.rows) db') := by
  refine Faulty.ensures_forM (fun pre s => ContractIndexed C classes (nonces++changesAt n pre) s)
    updates.rows ?_ (by simpa [changesAt] using h)
  intro pre r post hsplit s hs
  have hstep := storeNonceUpdate_index (m := r.2) hs (changesAt_fresh hlt hsplit)
  exact hstep.mono (fun _ s' h' => by simpa [changesAt] using h')

end

/-- The record of a contract after a class and a nonce, where there is one. -/
def GenericContractInfo.after (info : Option GenericContractInfo) (classHash nonce : Option Felt) :
    Option GenericContractInfo :=
  let info := match classHash with
    | some c => some (withClass info c)
    | none => info
  match nonce with
  | some m => some (withNonce info m)
  | none => info

theorem after_mergedInfo (oldClass oldNonce classHash nonce : Option Felt) :
    GenericContractInfo.after (mergedInfo oldClass oldNonce) classHash nonce=
      mergedInfo (classHash.or oldClass) (nonce.or oldNonce) := by
  cases classHash <;> cases nonce <;> cases oldClass <;> cases oldNonce <;> rfl

theorem forM_info {f : Felt × Felt → TxM P Unit}
    {g : Option GenericContractInfo → Felt → GenericContractInfo}
    (hf : ∀ r s, Faulty.Ensures (f r) s (fun _ s' => ∀ a, s'.get .contractInfo a=
      if r.1=a then some (g (s.get .contractInfo a) r.2) else s.get .contractInfo a))
    (m : SortedMap Felt Felt) (db : Db P) :
    Faulty.Ensures (m.rows.forM f) db (fun _ db' => ∀ a, db'.get .contractInfo a=
      match m.get a with
      | some x => some (g (db.get .contractInfo a) x)
      | none => db.get .contractInfo a) := by
  refine (Faulty.ensures_forM (fun pre s => ∀ a,
    (∀ x, (a,x)∈pre → s.get .contractInfo a=some (g (db.get .contractInfo a) x)) ∧
    ((∀ r∈pre, r.1≠a) → s.get .contractInfo a=db.get .contractInfo a)) m.rows ?_ (by simp)).mono ?_
  · intro pre r post hsplit s hs
    refine (hf r s).mono ?_
    intro _ s' h' a
    have hnew : ∀ q∈pre, q.1≠r.1 := fun q hq => ne_of_lt (SortedMap.key_lt_of_split hsplit hq)
    by_cases ha : r.1=a
    · subst ha
      rw [h' r.1,if_pos rfl,(hs r.1).2 hnew]
      constructor
      · intro x hx
        rcases List.mem_append.mp hx with hx | hx
        · exact absurd rfl (hnew (r.1,x) hx)
        · rw [← List.mem_singleton.mp hx]
      · intro hno
        exact absurd rfl (hno r (by simp))
    · rw [h' a,if_neg ha]
      constructor
      · intro x hx
        rcases List.mem_append.mp hx with hx | hx
        · exact (hs a).1 x hx
        · exact absurd (by rw [← List.mem_singleton.mp hx]) ha
      · intro hno
        exact (hs a).2 (fun q hq => hno q (List.mem_append_left _ hq))
  · intro _ db' h' a
    cases hm : m.get a with
    | some x => exact (h' a).1 x ((SortedMap.get_eq_some _ _ _).mp hm)
    | none => exact (h' a).2 ((SortedMap.get_eq_none _ _).mp hm)

theorem storeDeployedContracts_info (C : Codecs) (db : Db P) (n : Nat)
    (deployed : SortedMap Felt Felt) :
    Faulty.Ensures (storeDeployedContracts C n deployed) db (fun _ db' => ∀ a,
      db'.get .contractInfo a=
        GenericContractInfo.after (db.get .contractInfo a) (deployed.get a) none) := by
  refine (forM_info (g := GenericContractInfo.withClass) ?_ deployed db).mono ?_
  · intro r s
    refine get_then (get_then (put_then (putDup_then (ensures_put ?_))))
    intro a
    rw [Db.get_put_table (by decide),Db.get_putDup,Db.get_put]
    by_cases ha : r.1=a
    · subst ha
      simp
    · simp [ha]
  · intro _ db' h' a
    rw [h' a]
    cases deployed.get a <;> rfl

theorem storeNonceUpdates_info (C : Codecs) (db : Db P) (n : Nat) (updates : SortedMap Felt Felt) :
    Faulty.Ensures (storeNonceUpdates C n updates) db (fun _ db' => ∀ a,
      db'.get .contractInfo a=
        GenericContractInfo.after (db.get .contractInfo a) none (updates.get a)) := by
  refine (forM_info (g := GenericContractInfo.withNonce) ?_ updates db).mono ?_
  · intro r s
    refine get_then (get_then (put_then (putDup_then (ensures_put ?_))))
    intro a
    rw [Db.get_put_table (by decide),Db.get_putDup,Db.get_put]
    by_cases ha : r.1=a
    · subst ha
      simp
    · simp [ha]
  · intro _ db' h' a
    rw [h' a]
    cases updates.get a <;> rfl

theorem storeDeployedContracts_writes (C : Codecs) (n : Nat) (deployed : SortedMap Felt Felt) :
    OnlyWrites [.contractInfo,.contractInfoChangeSet] [.classChangeHistory]
      (storeDeployedContracts C n deployed : TxM P Unit) := by
  refine OnlyWrites.forM _ (fun r => ?_)
  refine (OnlyWrites.read _).bind (fun info => (OnlyWrites.read _).bind (fun cs => ?_))
  refine (OnlyWrites.put (by simp) _ _).bind (fun _ => ?_)
  exact (OnlyWrites.putDup (by simp) _ _).bind (fun _ => OnlyWrites.put (by simp) _ _)

theorem storeNonceUpdates_writes (C : Codecs) (n : Nat) (updates : SortedMap Felt Felt) :
    OnlyWrites [.contractInfo,.contractInfoChangeSet] [.nonceChangeHistory]
      (storeNonceUpdates C n updates : TxM P Unit) := by
  refine OnlyWrites.forM _ (fun r => ?_)
  refine (OnlyWrites.read _).bind (fun info => (OnlyWrites.read _).bind (fun cs => ?_))
  refine (OnlyWrites.put (by simp) _ _).bind (fun _ => ?_)
  exact (OnlyWrites.putDup (by simp) _ _).bind (fun _ => OnlyWrites.put (by simp) _ _)

end Katana
