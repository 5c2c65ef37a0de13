import Katana.Service.ClassCache
import Mathlib.Logic.Function.Basic

/-! The state of an executor as a state provider (state.rs of executor/implementation/blockifier).
A query goes through the cache of blockifier and its reader back to the provider below. -/
namespace Katana.Executor
open Service (StateError)
variable {P : Payloads} {α κ ν ε : Type}

section Cache
variable [DecidableEq κ]

/-- A read that is cached; a failing one is not. -/
def cachedRead (read : κ → Except ε ν) (k : κ) (cache : κ → Option ν) :
    Except ε ν × (κ → Option ν) :=
  match cache k with
  | some v => (.ok v,cache)
  | none =>
    match read k with
    | .ok v => (.ok v,Function.update cache k (some v))
    | .error e => (.error e,cache)

/-- The cache holds nothing but what was read. -/
def Unwritten (read : κ → Except ε ν) (cache : κ → Option ν) : Prop :=
  ∀ k v, cache k=some v → read k=.ok v

variable {read : κ → Except ε ν} {cache : κ → Option ν}

theorem cachedRead_eq (h : Unwritten read cache) (k : κ) : (cachedRead read k cache).1=read k := by
  unfold cachedRead
  cases hc : cache k with
  | some v => exact (h k v hc).symm
  | none =>
    cases hr : read k with
    | ok v | error e => rfl

theorem Unwritten.cachedRead (h : Unwritten read cache) (k : κ) :
    Unwritten read (cachedRead read k cache).2 := by
  unfold Executor.cachedRead
  cases hc : cache k with
  | some v => exact h
  | none =>
    cases hr : read k with
    | error e => exact h
    | ok v =>
      intro k' v' hv
      dsimp only at hv
      by_cases hk : k'=k
      · subst hk
        rw [Function.update_self,Option.some.injEq] at hv
        rw [hr,hv]
      · rw [Function.update_of_ne hk] at hv
        exact h k' v' hv

end Cache

structure BaseState (P : Payloads) where
  classHashOfContract : Felt → Except ProviderError (Option Felt)
  nonce : Felt → Except ProviderError (Option Felt)
  storage : Felt → Felt → Except ProviderError (Option Felt)
  contractClass : Felt → Except ProviderError (Option P.ContractClass)
  compiledClassHashOfClassHash : Felt → Except ProviderError (Option Felt)

namespace BaseState
variable (base : BaseState P)

def orDefault (r : Except ProviderError (Option Felt)) : Except StateError Felt :=
  match r with
  | .ok v => .ok (v.getD 0)
  | .error e => .error (.stateReadError e)

def getClassHashAt (address : Felt) : Except StateError Felt :=
  orDefault (base.classHashOfContract address)

def getCompiledClassHash (hash : Felt) : Except StateError Felt :=
  match base.compiledClassHashOfClassHash hash with
  | .error e => .error (.stateReadError e)
  | .ok (some compiled) => .ok compiled
  | .ok none => .error (.undeclaredClassHash hash)

def getNonceAt (address : Felt) : Except StateError Felt := orDefault (base.nonce address)

def getStorageAt (slot : Felt × Felt) : Except StateError Felt :=
  orDefault (base.storage slot.1 slot.2)

end BaseState

/-- The cache of blockifier and the classes that were declared. -/
structure CachedState (P : Payloads) where
  classHashes : Felt → Option Felt := fun _ => none
  compiledClassHashes : Felt → Option Felt := fun _ => none
  nonces : Felt → Option Felt := fun _ => none
  storages : Felt × Felt → Option Felt := fun _ => none
  declaredClasses : SortedMap Felt P.ContractClass := ∅

/-- The errors of the provider below, and those of blockifier as text. -/
inductive PendingError where
  | provider (e : ProviderError)
  | other (e : StateError)
  deriving DecidableEq, Repr

abbrev PendingM (P : Payloads) (α : Type) :=
  ExceptT (Failure PendingError) (StateM (CachedState P)) α

/-- The keys of starknet_api are below this bound. -/
def patriciaKeyUpperBound : Nat := 2^251

def toBlkAddress {m : Type → Type} {ε : Type} [Monad m] [MonadExceptOf (Failure ε) m]
    (address : Felt) : m Felt :=
  if address.val<patriciaKeyUpperBound then pure address else throw (.panic "valid address")

def toStorageKey (key : Felt) : PendingM P Felt :=
  if key.val<patriciaKeyUpperBound then pure key
  else throw (.panic "called Result::unwrap() on an Err value")

namespace CachedState
variable (base : BaseState P)

def getClassHashAt (address : Felt) : StateM (CachedState P) (Except StateError Felt) := fun s =>
  let r := cachedRead base.getClassHashAt address s.classHashes
  (r.1,{ s with classHashes := r.2 })

def getCompiledClassHash (hash : Felt) : StateM (CachedState P) (Except StateError Felt) := fun s =>
  let r := cachedRead base.getCompiledClassHash hash s.compiledClassHashes
  (r.1,{ s with compiledClassHashes := r.2 })

def getNonceAt (address : Felt) : StateM (CachedState P) (Except StateError Felt) := fun s =>
  let r := cachedRead base.getNonceAt address s.nonces
  (r.1,{ s with nonces := r.2 })

def getStorageAt (address key : Felt) : StateM (CachedState P) (Except StateError Felt) := fun s =>
  let r := cachedRead base.getStorageAt (address,key) s.storages
  (r.1,{ s with storages := r.2 })

def nonzero (r : Except StateError Felt) : Option Felt :=
  match r with
  | .error _ => none
  | .ok hash => if hash=0 then none else some hash

def ofRead (r : Except StateError Felt) : PendingM P (Option Felt) :=
  match r with
  | .ok value => pure (some value)
  | .error e => throw (.err (.other e))

def contractClass (hash : Felt) : PendingM P (Option P.ContractClass) := do
  match Service.CachedState.class (← get).declaredClasses base.contractClass hash with
  | .ok c => return c
  | .error e => throw (.err (.provider e))

def compiledClassHashOfClassHash (hash : Felt) : PendingM P (Option Felt) := do
  return nonzero (← getCompiledClassHash base hash)

def classHashOfContract (address : Felt) : PendingM P (Option Felt) := do
  let address ← toBlkAddress (ε := PendingError) address
  return nonzero (← getClassHashAt base address)

def nonce (address : Felt) : PendingM P (Option Felt) := do
  if (← classHashOfContract base address).isNone then return none
  let address ← toBlkAddress (ε := PendingError) address
  ofRead (← getNonceAt base address)

def storage (address storageKey : Felt) : PendingM P (Option Felt) := do
  if (← classHashOfContract base address).isNone then return none
  let address ← toBlkAddress (ε := PendingError) address
  let key ← toStorageKey storageKey
  ofRead (← getStorageAt base address key)

end CachedState

inductive StateQuery (P : Payloads) : Type → Type where
  | classHashOfContract (address : Felt) : StateQuery P Felt
  | nonce (address : Felt) : StateQuery P Felt
  | storage (address key : Felt) : StateQuery P Felt
  | contractClass (hash : Felt) : StateQuery P P.ContractClass
  | compiledClassHashOfClassHash (hash : Felt) : StateQuery P Felt

def BaseState.answer (base : BaseState P) : StateQuery P α → Except ProviderError (Option α)
  | .classHashOfContract address => base.classHashOfContract address
  | .nonce address => base.nonce address
  | .storage address key => base.storage address key
  | .contractClass hash => base.contractClass hash
  | .compiledClassHashOfClassHash hash => base.compiledClassHashOfClassHash hash

def CachedState.answer (base : BaseState P) : StateQuery P α → PendingM P (Option α)
  | .classHashOfContract address => classHashOfContract base address
  | .nonce address => nonce base address
  | .storage address key => storage base address key
  | .contractClass hash => contractClass base hash
  | .compiledClassHashOfClassHash hash => compiledClassHashOfClassHash base hash

inductive StateRead where
  | classHash (address : Felt)
  | compiledClassHash (hash : Felt)
  | nonce (address : Felt)
  | storage (address key : Felt)
  deriving DecidableEq, Repr

namespace CachedState
variable (base : BaseState P)

def access (s : CachedState P) : StateRead → CachedState P
  | .classHash address => (getClassHashAt base address s).2
  | .compiledClassHash hash => (getCompiledClassHash base hash s).2
  | .nonce address => (getNonceAt base address s).2
  | .storage address key => (getStorageAt base address key s).2

/-- The state of an executor whose executions have only read. -/
def afterReads (reads : List StateRead) : CachedState P := reads.foldl (access base) {}

/-- Nothing is written and nothing declared. -/
structure Clean (s : CachedState P) : Prop where
  classHashes : Unwritten base.getClassHashAt s.classHashes
  compiledClassHashes : Unwritten base.getCompiledClassHash s.compiledClassHashes
  nonces : Unwritten base.getNonceAt s.nonces
  storages : Unwritten base.getStorageAt s.storages
  declaredClasses : s.declaredClasses=∅

variable {base} {s : CachedState P}

theorem Clean.access (h : s.Clean base) (r : StateRead) : (s.access base r).Clean base := by
  cases r with
  | classHash address => exact { h with classHashes := h.classHashes.cachedRead address }
  | compiledClassHash hash =>
    exact { h with compiledClassHashes := h.compiledClassHashes.cachedRead hash }
  | nonce address => exact { h with nonces := h.nonces.cachedRead address }
  | storage address key => exact { h with storages := h.storages.cachedRead (address,key) }

section Reads
variable (h : s.Clean base)
include h

theorem Clean.getClassHashAt (address : Felt) : CachedState.getClassHashAt base address s=
    (base.getClassHashAt address,s.access base (.classHash address)) :=
  Prod.ext (cachedRead_eq h.classHashes address) rfl

theorem Clean.getCompiledClassHash (hash : Felt) : CachedState.getCompiledClassHash base hash s=
    (base.getCompiledClassHash hash,s.access base (.compiledClassHash hash)) :=
  Prod.ext (cachedRead_eq h.compiledClassHashes hash) rfl

theorem Clean.getNonceAt (address : Felt) : CachedState.getNonceAt base address s=
    (base.getNonceAt address,s.access base (.nonce address)) :=
  Prod.ext (cachedRead_eq h.nonces address) rfl

theorem Clean.getStorageAt (address key : Felt) : CachedState.getStorageAt base address key s=
    (base.getStorageAt (address,key),s.access base (.storage address key)) :=
  Prod.ext (cachedRead_eq h.storages (address,key)) rfl

end Reads

theorem afterReads_clean (base : BaseState P) (reads : List StateRead) :
    (afterReads base reads).Clean base := by
  have hempty : (({} : CachedState P)).Clean base := ⟨nofun,nofun,nofun,nofun,rfl⟩
  unfold afterReads
  induction reads using List.reverseRecOn with
  | nil => exact hempty
  | append_singleton reads r ih =>
    rw [List.foldl_append]
    exact ih.access r

def reply (base : BaseState P) (s : CachedState P) (q : StateQuery P α) :
    Except (Failure PendingError) (Option α) := ((answer base q).run s).1

section Run
variable {β : Type} {x : PendingM P α} {f : α → PendingM P β} {t : CachedState P}

theorem run_bind : (x>>=f).run s=(ExceptT.bindCont f (x.run s).1) (x.run s).2 := rfl

theorem run_bind_ok {a : α} (h : x.run s=(.ok a,t)) : (x>>=f).run s=(f a).run t := by
  rw [run_bind,h]
  rfl

theorem run_bind_error {e : Failure PendingError} (h : x.run s=(.error e,t)) :
    (x>>=f).run s=(.error e,t) := by
  rw [run_bind,h]
  rfl

theorem run_lift {r : StateM (CachedState P) α} {a : α} (h : r s=(a,t)) :
    (liftM r : PendingM P α).run s=(.ok a,t) := by
  have hlift : (liftM r : PendingM P α).run s=(.ok (r s).1,(r s).2) := rfl
  rw [hlift,h]

theorem run_toBlkAddress {address : Felt} (ha : address.val<patriciaKeyUpperBound) :
    (toBlkAddress (ε := PendingError) address : PendingM P Felt).run s=(.ok address,s) := by
  rw [toBlkAddress,if_pos ha]
  rfl

theorem run_toStorageKey {key : Felt} (hk : key.val<patriciaKeyUpperBound) :
    (toStorageKey key : PendingM P Felt).run s=(.ok key,s) := by
  rw [toStorageKey,if_pos hk]
  rfl

end Run

section Answers
variable (h : s.Clean base) {address : Felt}
include h

theorem run_classHashOfContract (ha : address.val<patriciaKeyUpperBound) {c : Option Felt}
    (hc : nonzero (base.getClassHashAt address)=c) :
    (classHashOfContract base address).run s=(.ok c,s.access base (.classHash address)) := by
  rw [classHashOfContract,run_bind_ok (run_toBlkAddress ha),
    run_bind_ok (run_lift (h.getClassHashAt address)),hc]
  rfl

theorem run_undeployed (ha : address.val<patriciaKeyUpperBound)
    (hc : nonzero (base.getClassHashAt address)=none) (key : Felt) :
    (nonce base address).run s=(.ok none,s.access base (.classHash address)) ∧
    (storage base address key).run s=(.ok none,s.access base (.classHash address)) := by
  constructor
  · rw [nonce,run_bind_ok (run_classHashOfContract h ha hc)]
    rfl
  · rw [storage,run_bind_ok (run_classHashOfContract h ha hc)]
    rfl

section Deployed
variable {classHash : Felt} (ha : address.val<patriciaKeyUpperBound)
  (hc : nonzero (base.getClassHashAt address)=some classHash)
include ha hc

theorem run_nonce : (nonce base address).run s=(ofRead (base.getNonceAt address)).run
    ((s.access base (.classHash address)).access base (.nonce address)) := by
  rw [nonce,run_bind_ok (run_classHashOfContract h ha hc)]
  exact (run_bind_ok (run_toBlkAddress ha)).trans
    (run_bind_ok (run_lift ((h.access _).getNonceAt address)))

theorem run_storage {key : Felt} (hk : key.val<patriciaKeyUpperBound) :
    (storage base address key).run s=(ofRead (base.getStorageAt (address,key))).run
      ((s.access base (.classHash address)).access base (.storage address key)) := by
  rw [storage,run_bind_ok (run_classHashOfContract h ha hc)]
  exact (run_bind_ok (run_toBlkAddress ha)).trans ((run_bind_ok (run_toStorageKey hk)).trans
    (run_bind_ok (run_lift ((h.access _).getStorageAt address key))))

theorem panic_storage {key : Felt} (hk : ¬key.val<patriciaKeyUpperBound) :
    (storage base address key).run s=
      (.error (.panic "called Result::unwrap() on an Err value"),
        s.access base (.classHash address)) := by
  have hpanic : (toStorageKey key : PendingM P Felt).run (s.access base (.classHash address))=
      (.error (.panic "called Result::unwrap() on an Err value"),
        s.access base (.classHash address)) := by
    rw [toStorageKey,if_neg hk]
    rfl
  rw [storage,run_bind_ok (run_classHashOfContract h ha hc)]
  exact (run_bind_ok (run_toBlkAddress ha)).trans (run_bind_error hpanic)

end Deployed
end Answers

theorem panic_classHashOfContract {address : Felt} (ha : ¬address.val<patriciaKeyUpperBound) :
    (classHashOfContract base address).run s=(.error (.panic "valid address"),s) := by
  have hpanic : (toBlkAddress (ε := PendingError) address : PendingM P Felt).run s=
      (.error (.panic "valid address"),s) := by
    rw [toBlkAddress,if_neg ha]
    rfl
  rw [classHashOfContract,run_bind_error hpanic]

theorem panic_address {address : Felt} (ha : ¬address.val<patriciaKeyUpperBound) (key : Felt) :
    (nonce base address).run s=(.error (.panic "valid address"),s) ∧
    (storage base address key).run s=(.error (.panic "valid address"),s) := by
  constructor
  · rw [nonce,run_bind_error (panic_classHashOfContract ha)]
  · rw [storage,run_bind_error (panic_classHashOfContract ha)]

end CachedState

/-- The answer of the provider below, as the executor would give it. -/
def asPending (r : Except ProviderError (Option α)) : Except (Failure PendingError) (Option α) :=
  r.mapError fun e => .err (.provider e)

def BaseState.Deployed (base : BaseState P) (address : Felt) : Prop :=
  ∃ classHash, classHash≠0 ∧ base.classHashOfContract address=.ok (some classHash)

/-- The queries that survive the two adapters. -/
def BaseState.Survives (base : BaseState P) : StateQuery P α → Prop
  | .classHashOfContract address => address.val<patriciaKeyUpperBound ∧
      ∃ c, base.classHashOfContract address=.ok c ∧ c≠some 0
  | .nonce address => address.val<patriciaKeyUpperBound ∧
      (base.Deployed address ∧ (∃ n, base.nonce address=.ok (some n)) ∨
        ¬base.Deployed address ∧ base.nonce address=.ok none)
  | .storage address key => address.val<patriciaKeyUpperBound ∧
      (base.Deployed address ∧ key.val<patriciaKeyUpperBound ∧
          (∃ v, base.storage address key=.ok (some v)) ∨
        ¬base.Deployed address ∧ base.storage address key=.ok none)
  | .contractClass _ => True
  | .compiledClassHashOfClassHash hash =>
      ∃ c, base.compiledClassHashOfClassHash hash=.ok c ∧ c≠some 0

namespace CachedState
variable {base : BaseState P} {s : CachedState P}

theorem nonzero_eq_none {address : Felt} :
    nonzero (base.getClassHashAt address)=none ↔ ¬base.Deployed address := by
  unfold BaseState.Deployed BaseState.getClassHashAt
  cases base.classHashOfContract address with
  | error e => simp [BaseState.orDefault,nonzero]
  | ok c =>
    cases c with
    | none | some c => simp [BaseState.orDefault,nonzero]

theorem deployed_of_nonzero {address c : Felt} (hc : nonzero (base.getClassHashAt address)=some c) :
    base.Deployed address := by
  by_contra hd
  rw [nonzero_eq_none.mpr hd] at hc
  cases hc

theorem ofRead_orDefault (r : Except ProviderError (Option Felt)) (s : CachedState P) :
    ((ofRead (BaseState.orDefault r) : PendingM P _).run s).1=asPending r ↔ ∃ v, r=.ok (some v) := by
  cases r with
  | error e =>
    refine ⟨fun h => ?_,nofun⟩
    cases h
  | ok v =>
    cases v with
    | none =>
      refine ⟨fun h => ?_,nofun⟩
      cases h
    | some v => exact ⟨fun _ => ⟨v,rfl⟩,fun _ => rfl⟩

theorem nonzero_orDefault (r : Except ProviderError (Option Felt)) :
    (.ok (nonzero (BaseState.orDefault r)) : Except (Failure PendingError) (Option Felt))=
      asPending r ↔ ∃ c, r=.ok c ∧ c≠some 0 := by
  cases r with
  | error e => simp [asPending,Except.mapError]
  | ok c =>
    cases c with
    | none => simp [asPending,Except.mapError,BaseState.orDefault,nonzero]
    | some c =>
      by_cases hc : c=0
      · simp [asPending,Except.mapError,BaseState.orDefault,nonzero,hc]
      · simp [asPending,Except.mapError,BaseState.orDefault,nonzero,hc]

theorem panic_ne_asPending (message : String) (r : Except ProviderError (Option α)) :
    (.error (.panic message) : Except (Failure PendingError) (Option α))≠asPending r := by
  cases r with
  | error e | ok v => simp [asPending,Except.mapError]

theorem ok_none_eq_asPending (r : Except ProviderError (Option α)) :
    (.ok none : Except (Failure PendingError) (Option α))=asPending r ↔ r=.ok none := by
  cases r with
  | error e => simp [asPending,Except.mapError]
  | ok v => simp [asPending,Except.mapError,eq_comm]

section Iff
variable (h : s.Clean base) (address key : Felt)
include h

theorem reply_classHash_iff : s.reply base (.classHashOfContract address)=
    asPending (base.classHashOfContract address) ↔ base.Survives (.classHashOfContract address) := by
  unfold reply answer BaseState.Survives
  by_cases ha : address.val<patriciaKeyUpperBound
  · rw [run_classHashOfContract h ha rfl]
    simp only [ha,true_and]
    exact nonzero_orDefault _
  · rw [panic_classHashOfContract ha]
    simp [ha,panic_ne_asPending]

theorem reply_nonce_iff : s.reply base (.nonce address)=asPending (base.nonce address) ↔
    base.Survives (.nonce address) := by
  unfold reply answer BaseState.Survives
  by_cases ha : address.val<patriciaKeyUpperBound
  · cases hc : nonzero (base.getClassHashAt address) with
    | none =>
      rw [(run_undeployed h ha hc 0).1]
      simp [ha,nonzero_eq_none.mp hc,ok_none_eq_asPending]
    | some c =>
      have hdeployed := deployed_of_nonzero hc
      rw [run_nonce h ha hc]
      simp only [ha,hdeployed,true_and,not_true_eq_false,false_and,or_false]
      exact ofRead_orDefault _ _
  · rw [(panic_address ha 0).1]
    simp [ha,panic_ne_asPending]

theorem reply_storage_iff : s.reply base (.storage address key)=
    asPending (base.storage address key) ↔ base.Survives (.storage address key) := by
  unfold reply answer BaseState.Survives
  by_cases ha : address.val<patriciaKeyUpperBound
  · cases hc : nonzero (base.getClassHashAt address) with
    | none =>
      rw [(run_undeployed h ha hc key).2]
      simp [ha,nonzero_eq_none.mp hc,ok_none_eq_asPending]
    | some c =>
      have hdeployed := deployed_of_nonzero hc
      simp only [ha,hdeployed,true_and,not_true_eq_false,false_and,or_false]
      by_cases hk : key.val<patriciaKeyUpperBound
      · rw [run_storage h ha hc hk]
        simp only [hk,true_and]
        exact ofRead_orDefault _ _
      · rw [panic_storage h ha hc hk]
        simp [hk,panic_ne_asPending]
  · rw [(panic_address ha key).2]
    simp [ha,panic_ne_asPending]

theorem reply_contractClass (hash : Felt) : s.reply base (.contractClass hash)=
    asPending (base.contractClass hash) := by
  have hget : (get : PendingM P (CachedState P)).run s=(.ok s,s) := rfl
  unfold reply answer contractClass
  rw [run_bind_ok hget,h.declaredClasses]
  simp only [Service.CachedState.class,SortedMap.get_empty]
  cases base.contractClass hash with
  | error e | ok c => rfl

theorem reply_compiledClassHash_iff (hash : Felt) :
    s.reply base (.compiledClassHashOfClassHash hash)=
      asPending (base.compiledClassHashOfClassHash hash) ↔
        base.Survives (.compiledClassHashOfClassHash hash) := by
  unfold reply answer BaseState.Survives compiledClassHashOfClassHash
  rw [run_bind_ok (run_lift (h.getCompiledClassHash hash))]
  have hpure : ((pure (nonzero (base.getCompiledClassHash hash)) : PendingM P _).run
      (s.access base (.compiledClassHash hash))).1=.ok (nonzero (base.getCompiledClassHash hash)) :=
    rfl
  -- what is missing fails instead of being zero, and both are none
  have hzero : nonzero (base.getCompiledClassHash hash)=
      nonzero (BaseState.orDefault (base.compiledClassHashOfClassHash hash)) := by
    unfold BaseState.getCompiledClassHash
    cases base.compiledClassHashOfClassHash hash with
    | error e => rfl
    | ok c => cases c <;> rfl
  rw [hpure,hzero]
  exact nonzero_orDefault _

end Iff

/-- An executor that has executed nothing that changes the state answers a query as the provider
below it exactly if the query survives the two adapters. -/
theorem pending_answers_iff (base : BaseState P) (reads : List StateRead) (q : StateQuery P α) :
    (afterReads base reads).reply base q=asPending (base.answer q) ↔ base.Survives q := by
  have h := afterReads_clean base reads
  cases q with
  | classHashOfContract address => exact reply_classHash_iff h address
  | nonce address => exact reply_nonce_iff h address
  | storage address key => exact reply_storage_iff h address key
  | contractClass hash => exact iff_of_true (reply_contractClass h hash) trivial
  | compiledClassHashOfClassHash hash => exact reply_compiledClassHash_iff h hash

end CachedState

def stateOf (C : Codecs) (state : StateProvider P) : BaseState P where
  classHashOfContract address := state.classHashOfContract C address
  nonce address := state.nonce C address
  storage address key := state.storage C address key
  contractClass hash := state.class hash
  compiledClassHashOfClassHash hash := state.compiledClassHashOfClassHash hash

/-- StarknetApi::storage_at on a state; none is ContractNotFound. Contract 0x1 has no class. -/
def storageAt {m : Type → Type} [Monad m] (classHashOfContract : Felt → m (Option Felt))
    (storage : Felt → Felt → m (Option Felt)) (address key : Felt) : m (Option Felt) := do
  let missing ← if address=1 then pure false else Option.isNone <$> classHashOfContract address
  if missing then return none
  let value ← storage address key
  return some (value.getD 0)

/-- Contract 9 is deployed and contract 0x1 has the hash of a block. -/
def registryState : BaseState unitPayloads :=
  stateOf starknetCodecs (.latest (insertBlocks starknetCodecs [stateBlock 0 100 {
    deployedContracts := SortedMap.put 9 77 ∅
    storageUpdates := SortedMap.put 1 (SortedMap.put 0 5 ∅) ∅ }]))

def freshState : CachedState unitPayloads := CachedState.afterReads registryState []

def outOfRange : Felt := Fin.ofNat feltPrime (2^251)

/-- The storage of contract 0x1 is not seen, a slot that was never set is zero instead of none,
and keys and addresses from 2^251 on panic. -/
theorem pending_state_differs :
    (registryState.storage 1 0=.ok (some 5) ∧
      freshState.reply registryState (.storage 1 0)=.ok none) ∧
    (storageAt registryState.classHashOfContract registryState.storage 1 0=.ok (some 5) ∧
      ((storageAt (CachedState.classHashOfContract registryState)
        (CachedState.storage registryState) 1 0).run freshState).1=.ok (some 0)) ∧
    (registryState.storage 9 3=.ok none ∧
      freshState.reply registryState (.storage 9 3)=.ok (some 0)) ∧
    (registryState.storage 9 outOfRange=.ok none ∧
      freshState.reply registryState (.storage 9 outOfRange)=
        .error (.panic "called Result::unwrap() on an Err value")) ∧
    registryState.nonce outOfRange=.ok none ∧
      freshState.reply registryState (.nonce outOfRange)=.error (.panic "valid address") :=
  ⟨⟨by decide +kernel,rfl⟩,⟨by decide +kernel,rfl⟩,⟨by decide +kernel,rfl⟩,
    ⟨by decide +kernel,rfl⟩,by decide +kernel,rfl⟩

end Katana.Executor
