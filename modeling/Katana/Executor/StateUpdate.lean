import Katana.Executor.Declare

/-! The state update of executed transactions (state_update_from_cached_state in utils.rs of
executor/implementation/blockifier). The cached state of blockifier is a parameter. -/
namespace Katana.Service
open Primitives
variable {base : Payloads} {L : ClassLibraries}

/-- The maps of a state difference; of the storage, the rows in the order they are iterated. -/
structure StateMaps where
  nonces : SortedMap Felt Felt := ∅
  classHashes : SortedMap Felt Felt := ∅
  storage : List ((Felt × Felt) × Felt) := []
  compiledClassHashes : SortedMap Felt Felt := ∅

/-- blockifier's cached state over a base state. -/
structure StateCache (base : Payloads) (L : ClassLibraries) where
  State : Type
  /-- get_class_hash_at of the base state, zero where there is no contract. -/
  baseClassHashAt : State → Felt → Felt
  /-- get_class_hash_at of the cached state. -/
  classHashAt : State → Felt → Felt
  /-- state.class below the declarations of the block. -/
  stateClass : State → ClassSource (withClasses base L)
  toStateDiff : State → Except String StateMaps
  /-- The difference has the values that are not those of the base state. -/
  toStateDiff_classHashes : ∀ s diff, toStateDiff s=.ok diff → ∀ address classHash,
    diff.classHashes.get address=some classHash ↔
      classHashAt s address=classHash ∧ baseClassHashAt s address≠classHash

def addStorageEntry (storage : SortedMap Felt (SortedMap Felt Felt)) (row : (Felt × Felt) × Felt) :
    SortedMap Felt (SortedMap Felt Felt) :=
  storage.put row.1.1 (((storage.get row.1.1).getD ∅).put row.1.2 row.2)

namespace StateCache

/-- None is a panic: there is no difference, or a declared class is missing. Every class hash of
the difference is a deployed contract. -/
def stateUpdateFromCachedState (C : StateCache base L)
    (declaredClasses : SortedMap Felt (ContractClass L)) (s : C.State) :
    Option (StateUpdatesWithClasses (withClasses base L)) :=
  match C.toStateDiff s with
  | .error _ => none
  | .ok diff =>
    (ClassUpdates.ofDiff (CachedState.class declaredClasses (C.stateClass s))
      diff.compiledClassHashes).map fun u =>
      { classes := u.classes
        stateUpdates :=
          { nonceUpdates := diff.nonces
            storageUpdates := diff.storage.foldl addStorageEntry ∅
            declaredClasses := u.declaredClasses
            deployedContracts := diff.classHashes
            deprecatedDeclaredClasses := u.deprecatedDeclaredClasses
            replacedClasses := ∅ } }

variable {C : StateCache base L} {declaredClasses : SortedMap Felt (ContractClass L)} {s : C.State}
  {u : StateUpdatesWithClasses (withClasses base L)}

theorem stateUpdate_cases (h : C.stateUpdateFromCachedState declaredClasses s=some u) :
    ∃ diff, C.toStateDiff s=.ok diff ∧ u.stateUpdates.deployedContracts=diff.classHashes ∧
      u.stateUpdates.replacedClasses=∅ := by
  unfold stateUpdateFromCachedState at h
  cases hd : C.toStateDiff s with
  | error e => simp [hd] at h
  | ok diff =>
    simp only [hd,Option.map_eq_some_iff] at h
    obtain ⟨v,-,rfl⟩ := h
    exact ⟨diff,rfl,rfl,rfl⟩

theorem stateUpdate_deployed (h : C.stateUpdateFromCachedState declaredClasses s=some u)
    (address classHash : Felt) : u.stateUpdates.deployedContracts.get address=some classHash ↔
      C.classHashAt s address=classHash ∧ C.baseClassHashAt s address≠classHash := by
  obtain ⟨diff,hd,hdeployed,-⟩ := stateUpdate_cases h
  rw [hdeployed]
  exact C.toStateDiff_classHashes s diff hd address classHash

end StateCache

/-! A cached state of class hashes alone. -/

structure ClassHashes where
  base : SortedMap Felt Felt := ∅
  writes : SortedMap Felt Felt := ∅

inductive ClassWrite where
  | deploy (address classHash : Felt)
  | replaceClass (address classHash : Felt)

namespace ClassHashes

variable (s : ClassHashes)

def baseAt (address : Felt) : Felt := (s.base.get address).getD 0

def current (address : Felt) : Felt := (s.writes.get address).getD (s.baseAt address)

/-- A contract is deployed at a free address; only a deployed contract replaces its class. -/
def execute : ClassWrite → ClassHashes
  | .deploy address classHash =>
    if s.current address=0 then { s with writes := s.writes.put address classHash } else s
  | .replaceClass address classHash =>
    if s.current address=0 then s else { s with writes := s.writes.put address classHash }

def changed : SortedMap Felt Felt :=
  SortedMap.ofList (s.writes.rows.filter fun r => s.baseAt r.1≠r.2)

theorem changed_get (address classHash : Felt) : s.changed.get address=some classHash ↔
      s.current address=classHash ∧ s.baseAt address≠classHash := by
  have hmem (v : Felt) : (address,v)∈s.writes.rows.filter (fun r => s.baseAt r.1≠r.2) ↔
      (s.writes.get address).filter (fun v => s.baseAt address≠v)=some v := by
    rw [List.mem_filter,←SortedMap.get_eq_some,Option.filter_eq_some_iff]
  rw [changed,SortedMap.get_ofList_eq hmem,Option.filter_eq_some_iff,current]
  cases hw : s.writes.get address with
  | none | some v => simp

def cache (base : Payloads) (L : ClassLibraries) : StateCache base L where
  State := ClassHashes
  baseClassHashAt := baseAt
  classHashAt := current
  stateClass _ _ := .ok none
  toStateDiff s := .ok { classHashes := s.changed }
  toStateDiff_classHashes s diff h := by
    cases h
    exact s.changed_get

end ClassHashes
end Katana.Service
