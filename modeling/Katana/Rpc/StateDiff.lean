import Katana.Executor.StateUpdate
import Katana.Rpc.Declare

/-! The state diff of the RPC (rpc-types/src/state_update.rs), and how class changes are told apart
from the execution of a block to its state diff. -/
namespace Katana.Rpc
open Primitives Service

structure NonceUpdate where
  contractAddress : Felt
  nonce : Felt
  deriving DecidableEq, Repr

structure DeclaredClassItem where
  classHash : Felt
  compiledClassHash : Felt
  deriving DecidableEq, Repr

structure DeployedContractItem where
  address : Felt
  classHash : Felt
  deriving DecidableEq, Repr

structure ReplacedClassItem where
  contractAddress : Felt
  classHash : Felt
  deriving DecidableEq, Repr

structure StorageEntry where
  key : Felt
  value : Felt
  deriving DecidableEq, Repr

structure ContractStorageDiffItem where
  address : Felt
  storageEntries : List StorageEntry
  deriving DecidableEq, Repr

structure StateDiff where
  nonces : List NonceUpdate
  storageDiffs : List ContractStorageDiffItem
  declaredClasses : List DeclaredClassItem
  deployedContracts : List DeployedContractItem
  deprecatedDeclaredClasses : List Felt
  replacedClasses : List ReplacedClassItem
  deriving DecidableEq, Repr

def StateDiff.ofStateUpdates (value : StateUpdates) : StateDiff where
  nonces := value.nonceUpdates.rows.map fun r => ⟨r.1,r.2⟩
  storageDiffs := value.storageUpdates.rows.map fun r => ⟨r.1,r.2.rows.map fun e => ⟨e.1,e.2⟩⟩
  declaredClasses := value.declaredClasses.rows.map fun r => ⟨r.1,r.2⟩
  deployedContracts := value.deployedContracts.rows.map fun r => ⟨r.1,r.2⟩
  deprecatedDeclaredClasses := value.deprecatedDeclaredClasses.elems
  replacedClasses := []

/-- Class changes are told apart: in the update new contracts and replaced classes, each with its
new class, and both in the state diff. -/
structure Classified (before after : Felt → Felt) (u : StateUpdates) (diff : StateDiff) : Prop where
  deployed : ∀ address classHash, u.deployedContracts.get address=some classHash ↔
    before address=0 ∧ after address≠0 ∧ after address=classHash
  replaced : ∀ address classHash, u.replacedClasses.get address=some classHash ↔
    before address≠0 ∧ after address≠before address ∧ after address=classHash
  reportedDeployed : ∀ address classHash, ⟨address,classHash⟩∈diff.deployedContracts ↔
    u.deployedContracts.get address=some classHash
  reportedReplaced : ∀ address classHash, ⟨address,classHash⟩∈diff.replacedClasses ↔
    u.replacedClasses.get address=some classHash

variable {base : Payloads} {L : ClassLibraries}

/-- The class changes of a block are told apart exactly if the block replaced no class. -/
theorem class_changes_classified_iff (C : StateCache base L)
    (declaredClasses : SortedMap Felt (ContractClass L)) (s : C.State)
    (u : StateUpdatesWithClasses (withClasses base L))
    (h : C.stateUpdateFromCachedState declaredClasses s=some u) :
    Classified (C.baseClassHashAt s) (C.classHashAt s) u.stateUpdates
        (StateDiff.ofStateUpdates u.stateUpdates) ↔
      ∀ address, C.baseClassHashAt s address≠0 →
        C.classHashAt s address=C.baseClassHashAt s address := by
  obtain ⟨-,-,-,hreplaced⟩ := StateCache.stateUpdate_cases h
  constructor
  · intro hc address hbase
    by_contra hne
    have hget := (hc.replaced address _).mpr ⟨hbase,hne,rfl⟩
    rw [hreplaced] at hget
    cases hget
  · intro hkept
    refine ⟨fun address classHash => ?_,fun address classHash => ?_,
      fun _ _ => by simp [StateDiff.ofStateUpdates,SortedMap.get_eq_some],fun address classHash => ?_⟩
    · rw [StateCache.stateUpdate_deployed h]
      constructor
      · rintro ⟨rfl,hne⟩
        have hzero : C.baseClassHashAt s address=0 :=
          not_not.mp fun hbase => hne (hkept address hbase).symm
        exact ⟨hzero,fun hz => hne (hzero.trans hz.symm),rfl⟩
      · rintro ⟨hzero,hnz,rfl⟩
        exact ⟨rfl,fun he => hnz (he.symm.trans hzero)⟩
    · rw [hreplaced,SortedMap.get_empty]
      constructor
      · intro hget
        cases hget
      · rintro ⟨hbase,hne,-⟩
        exact absurd (hkept address hbase) hne
    · rw [hreplaced,SortedMap.get_empty]
      simp [StateDiff.ofStateUpdates]

/-- A contract that is deployed and replaces its class in one block is new. -/
theorem deployed_then_replaced_classified :
    let s := (ClassHashes.execute {} (.deploy 1 8)).execute (.replaceClass 1 9)
    let C := ClassHashes.cache unitPayloads sampleLibraries
    ∃ u, C.stateUpdateFromCachedState ∅ s=some u ∧
      u.stateUpdates.deployedContracts.get 1=some 9 ∧
      Classified (C.baseClassHashAt s) (C.classHashAt s) u.stateUpdates
        (StateDiff.ofStateUpdates u.stateUpdates) := by
  intro s C
  refine ⟨_,rfl,by decide,(class_changes_classified_iff C ∅ s _ rfl).mpr ?_⟩
  intro address hbase
  exact absurd rfl hbase

/-- The replaced class of an existing contract is reported as a deployment. -/
theorem replaced_class_reported_deployed :
    let s := ClassHashes.execute { base := SortedMap.put 1 8 ∅ } (.replaceClass 1 9)
    let C := ClassHashes.cache unitPayloads sampleLibraries
    ∃ u, C.stateUpdateFromCachedState ∅ s=some u ∧
      C.baseClassHashAt s 1=8 ∧ C.classHashAt s 1=9 ∧
      u.stateUpdates.deployedContracts.get 1=some 9 ∧ u.stateUpdates.replacedClasses.get 1=none ∧
      (StateDiff.ofStateUpdates u.stateUpdates).deployedContracts=[⟨1,9⟩] ∧
      (StateDiff.ofStateUpdates u.stateUpdates).replacedClasses=[] ∧
      ¬Classified (C.baseClassHashAt s) (C.classHashAt s) u.stateUpdates
        (StateDiff.ofStateUpdates u.stateUpdates) := by
  intro s C
  refine ⟨_,rfl,by decide,by decide,by decide,by decide,by decide,by decide,?_⟩
  intro hc
  have hget := (hc.replaced 1 9).mpr (by decide)
  cases hget

end Katana.Rpc
