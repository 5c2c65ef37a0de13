import Katana.Primitives.Class
import Katana.Service.ClassCache
import Katana.Service.Transact

/-! Declared classes in the executor of a block, from the transaction that declares one to the
state update of the block (mod.rs, state.rs and utils.rs of executor/implementation/blockifier).
What blockifier does with a class is a parameter. -/
namespace Katana.Service
open Primitives SortedMap

/-- The types of the storage layer, with the contract classes themselves. -/
def withClasses (base : Payloads) (L : ClassLibraries) : Payloads :=
  { base with ContractClass := ContractClass L }

variable {base : Payloads} {L : ClassLibraries} {K : Backend (withClasses base L)} {hash : Felt}

/-- The part of a state update that is about classes. -/
structure ClassUpdates (L : ClassLibraries) where
  classes : SortedMap Felt (ContractClass L) := ∅
  declaredClasses : SortedMap Felt Felt := ∅
  deprecatedDeclaredClasses : SortedSet Felt := ∅

namespace ClassUpdates

/-- The body of the loop of state_update_from_cached_state: a class and its compiled class
hash. None is the panic of a class that the state does not have. -/
def add (classOf : ClassSource (withClasses base L)) (u : ClassUpdates L) (row : Felt × Felt) :
    Option (ClassUpdates L) :=
  match classOf row.1 with
  | .ok (some c) =>
    some
      { classes := u.classes.put row.1 c
        declaredClasses :=
          if ContractClass.isLegacy c then u.declaredClasses else u.declaredClasses.put row.1 row.2
        deprecatedDeclaredClasses :=
          if ContractClass.isLegacy c then u.deprecatedDeclaredClasses.insert row.1
          else u.deprecatedDeclaredClasses }
  | .ok none => none
  | .error _ => none

def ofDiff (classOf : ClassSource (withClasses base L))
    (compiledClassHashes : SortedMap Felt Felt) : Option (ClassUpdates L) :=
  compiledClassHashes.rows.foldlM (add classOf) {}

variable {classOf : ClassSource (withClasses base L)}

theorem foldlM_kept {rows : List (Felt × Felt)} {u u' : ClassUpdates L} (hrows : ∀ r∈rows, r.1≠hash)
    (h : rows.foldlM (add classOf) u=some u') :
    u'.classes.get hash=u.classes.get hash ∧
      u'.declaredClasses.get hash=u.declaredClasses.get hash := by
  induction rows generalizing u with
  | nil =>
    obtain rfl := Option.some.inj h
    exact ⟨rfl,rfl⟩
  | cons row rows ih =>
    have hne : row.1≠hash := hrows row List.mem_cons_self
    cases hc : classOf row.1 with
    | error e => simp [add,hc] at h
    | ok c =>
      cases c with
      | none => simp [add,hc] at h
      | some c =>
        simp only [List.foldlM_cons,add,hc,Option.bind_eq_bind,Option.bind_some] at h
        obtain ⟨hclasses,hdeclared⟩ := ih (fun r hr => hrows r (List.mem_cons_of_mem row hr)) h
        refine ⟨hclasses.trans (get_put_ne hne _ _),hdeclared.trans ?_⟩
        dsimp only
        split
        · rfl
        · exact get_put_ne hne _ _

theorem foldlM_some {rows : List (Felt × Felt)} (u : ClassUpdates L)
    (hall : ∀ r∈rows, ∃ c, classOf r.1=.ok (some c)) :
    ∃ u', rows.foldlM (add classOf) u=some u' := by
  induction rows generalizing u with
  | nil => exact ⟨u,rfl⟩
  | cons row rows ih =>
    obtain ⟨c,hc⟩ := hall row List.mem_cons_self
    simp only [List.foldlM_cons,add,hc,Option.bind_eq_bind,Option.bind_some]
    exact ih _ (fun r hr => hall r (List.mem_cons_of_mem row hr))

/-- When the state has every class of the diff, each goes into the update as the state has it,
with the compiled class hash of the diff. -/
theorem ofDiff_get {diff : SortedMap Felt Felt}
    (hall : ∀ hash, diff.get hash≠none → ∃ c, classOf hash=.ok (some c)) :
    ∃ u, ofDiff classOf diff=some u ∧ ∀ hash compiled c, diff.get hash=some compiled →
      classOf hash=.ok (some (ContractClass.sierra c)) →
      u.classes.get hash=some (ContractClass.sierra c) ∧
        u.declaredClasses.get hash=some compiled := by
  have hrows : ∀ r∈diff.rows, ∃ c, classOf r.1=.ok (some c) := by
    intro r hr
    exact hall r.1 (by rw [(diff.get_eq_some r.1 r.2).mpr hr]; exact Option.some_ne_none _)
  obtain ⟨u,hu⟩ := foldlM_some {} hrows
  refine ⟨u,hu,?_⟩
  intro hash compiled c hget hc
  -- the keys of the diff are distinct: nothing after the row of the class touches its entries
  obtain ⟨pre,post,hsplit⟩ := List.append_of_mem ((diff.get_eq_some hash compiled).mp hget)
  rw [hsplit,List.foldlM_append] at hu
  obtain ⟨u₁,-,h₂⟩ := Option.bind_eq_some_iff.mp hu
  simp only [List.foldlM_cons,add,hc,Option.bind_eq_bind,Option.bind_some] at h₂
  have hlater : ∀ r∈post, r.1≠hash := by
    have hnodup := diff.keys_nodup
    rw [hsplit,List.map_append,List.map_cons] at hnodup
    have hnot := (List.nodup_cons.mp (List.nodup_append.mp hnodup).2.1).1
    exact fun r hr he => hnot (List.mem_map.mpr ⟨r,hr,he⟩)
  obtain ⟨hclasses,hdeclared⟩ := foldlM_kept hlater h₂
  exact ⟨hclasses.trans (get_put_self _ _ _),
    hdeclared.trans (get_put_self _ _ _)⟩

end ClassUpdates

/-- The transactions as the executor takes them, and what blockifier does with the classes they
declare. -/
structure DeclareRules (V : Vm K) where
  ofTx : ExecutableTxWithHash L → V.ExecutableTx
  declared_ofTx : ∀ tx, V.declared (ofTx tx)=tx.classDeclArtifacts
  /-- cached_state.get_compiled_class_hash, zero where there is none. -/
  getCompiledClassHash : V.CachedState → Felt → Felt
  /-- The compiled class hashes of to_state_diff. -/
  compiledClassHashes : V.CachedState → SortedMap Felt Felt
  /-- cached_state.state.class. -/
  stateClass : V.CachedState → ClassSource (withClasses base L)
  stateUpdate_classes : ∀ state declaredClasses u,
    ClassUpdates.ofDiff (CachedState.class declaredClasses (stateClass state))
      (compiledClassHashes state)=some u →
    (V.stateUpdateFromCachedState state declaredClasses).classes=u.classes ∧
    (V.stateUpdateFromCachedState state declaredClasses).stateUpdates.declaredClasses=
      u.declaredClasses
  /-- get_compiled_class finds the class. -/
  Known : V.CachedState → Felt → Prop
  /-- A declare transaction makes its class known, with the compiled class hash that it has. -/
  execute_declare : ∀ context flags tx declare state state' info, tx.transaction=.declare (.v3 declare) →
    V.execute context (V.toExecutorTx (ofTx tx) flags) state=(state',.ok info) →
    Known state' declare.classHash ∧
    getCompiledClassHash state' declare.classHash=declare.compiledClassHash ∧
    (declare.compiledClassHash≠0 →
      (compiledClassHashes state').get declare.classHash=some declare.compiledClassHash)
  execute_known : ∀ context flags tx state state' info hash,
    V.execute context (V.toExecutorTx tx flags) state=(state',.ok info) → Known state hash →
    Known state' hash ∧
    getCompiledClassHash state' hash=getCompiledClassHash state hash ∧
    (compiledClassHashes state').get hash=(compiledClassHashes state).get hash ∧
    ∀ c, V.declared tx≠some (hash,c)
  /-- Only a declare transaction adds to the compiled class hashes. -/
  execute_diff : ∀ context flags tx state state' info hash,
    V.execute context (V.toExecutorTx tx flags) state=(state',.ok info) →
    (compiledClassHashes state').get hash≠none →
    (compiledClassHashes state).get hash≠none ∨ ∃ c, V.declared tx=some (hash,c)

def VmState.executeAll {V : Vm K} (flags : V.Flags) (s : VmState V) (txs : List V.ExecutableTx) :
    VmState V :=
  txs.foldl (fun s tx => (s.executeTx flags tx).1) s

section Executed
variable {V : Vm K} {flags : V.Flags} {s : VmState V} {tx : V.ExecutableTx}

theorem executeTx_success {result : (withClasses base L).Receipt × K.Trace}
    (h : (s.executeTx flags tx).2=.ok (.success result)) :
    ∃ info, V.execute s.blockContext (V.toExecutorTx tx flags) s.cachedState=
        ((s.executeTx flags tx).1.cachedState,.ok info) ∧
      (∀ hash, (∀ c, V.declared tx≠some (hash,c)) →
        (s.executeTx flags tx).1.declaredClasses.get hash=s.declaredClasses.get hash) ∧
      ∀ hash c, V.declared tx=some (hash,c) →
        (s.executeTx flags tx).1.declaredClasses.get hash=some c := by
  rcases hx : V.execute s.blockContext (V.toExecutorTx tx flags) s.cachedState with ⟨txState,r⟩
  cases r with
  | error e => simp [VmState.executeTx,Vm.transact,hx] at h
  | ok info =>
    rcases hb : V.tryUpdate s.blockContext txState info s.bouncer with ⟨used,u⟩
    cases u with
    | error e => simp [VmState.executeTx,Vm.transact,hx,Vm.updateBouncer,hb] at h
    | ok _ =>
      simp only [VmState.executeTx,Vm.transact,hx,Vm.updateBouncer,hb,VmState.record]
      refine ⟨info,rfl,fun hash hn => ?_,fun hash c hc => ?_⟩
      · cases ha : V.declared tx with
        | none => rfl
        | some a => exact get_put_ne (fun he => hn a.2 (by rw [ha,← he])) _ _
      · rw [hc]
        exact get_put_self _ _ _

end Executed

def DeclareRules.class {V : Vm K} (R : DeclareRules V) (s : VmState V) :
    ClassSource (withClasses base L) :=
  CachedState.class s.declaredClasses (R.stateClass s.cachedState)

namespace DeclareRules
variable {V : Vm K} (R : DeclareRules V) {flags : V.Flags} {s : VmState V}

def compiledClassHashOfClassHash (s : VmState V) (hash : Felt) : Option Felt :=
  if R.getCompiledClassHash s.cachedState hash=0 then none
  else some (R.getCompiledClassHash s.cachedState hash)

/-- A class that a transaction of the block declared, with the compiled class hash it gave. -/
structure Recorded (s : VmState V) (hash : Felt) (c : ContractClass L) (compiled : Felt) : Prop where
  declared : s.declaredClasses.get hash=some c
  known : R.Known s.cachedState hash
  compiledClassHash : R.getCompiledClassHash s.cachedState hash=compiled
  diff : compiled≠0 → (R.compiledClassHashes s.cachedState).get hash=some compiled

/-- The classes of the diff are those the block declared. -/
def DiffDeclared (s : VmState V) : Prop :=
  ∀ hash, (R.compiledClassHashes s.cachedState).get hash≠none → ∃ c, s.declaredClasses.get hash=some c

variable {R} {c : ContractClass L} {compiled : Felt}

theorem Recorded.of_declare {tx : ExecutableTxWithHash L} {declare : DeclareTxV3}
    {result : (withClasses base L).Receipt × K.Trace} (ht : tx.transaction=.declare (.v3 declare))
    (hc : tx.declaredClass=some c) (h : (s.executeTx flags (R.ofTx tx)).2=.ok (.success result)) :
    R.Recorded (s.executeTx flags (R.ofTx tx)).1 declare.classHash c declare.compiledClassHash := by
  obtain ⟨info,hx,-,hput⟩ := executeTx_success h
  obtain ⟨hknown,hcompiled,hdiff⟩ := R.execute_declare _ _ _ _ _ _ _ ht hx
  have hartifacts : V.declared (R.ofTx tx)=some (declare.classHash,c) := by
    rw [R.declared_ofTx,ExecutableTxWithHash.classDeclArtifacts,ht,hc]
    rfl
  exact ⟨hput _ _ hartifacts,hknown,hcompiled,hdiff⟩

theorem Recorded.executeTx (hr : R.Recorded s hash c compiled) (tx : V.ExecutableTx) :
    R.Recorded (s.executeTx flags tx).1 hash c compiled := by
  by_cases hs : ∃ result, (s.executeTx flags tx).2=.ok (.success result)
  · obtain ⟨result,h⟩ := hs
    obtain ⟨info,hx,hsame,-⟩ := executeTx_success h
    obtain ⟨hknown,hcompiled,hdiff,hother⟩ := R.execute_known _ _ _ _ _ _ hash hx hr.known
    exact ⟨(hsame hash hother).trans hr.declared,hknown,hcompiled.trans hr.compiledClassHash,
      fun hz => hdiff.trans (hr.diff hz)⟩
  · rw [executeTx_unchanged (fun result h => hs ⟨result,h⟩)]
    exact hr

theorem DiffDeclared.executeTx (hi : R.DiffDeclared s) (tx : V.ExecutableTx) :
    R.DiffDeclared (s.executeTx flags tx).1 := by
  by_cases hs : ∃ result, (s.executeTx flags tx).2=.ok (.success result)
  · obtain ⟨result,h⟩ := hs
    obtain ⟨info,hx,hsame,hput⟩ := executeTx_success h
    intro hash hget
    by_cases ha : ∃ c, V.declared tx=some (hash,c)
    · exact ha.imp (fun c hc => hput hash c hc)
    · obtain ⟨c,hc⟩ := hi hash ((R.execute_diff _ _ _ _ _ _ hash hx hget).resolve_right ha)
      exact ⟨c,(hsame hash (not_exists.mp ha)).trans hc⟩
  · rw [executeTx_unchanged (fun result h => hs ⟨result,h⟩)]
    exact hi

theorem Recorded.executeAll (hr : R.Recorded s hash c compiled) (txs : List V.ExecutableTx) :
    R.Recorded (s.executeAll flags txs) hash c compiled := by
  induction txs generalizing s with
  | nil => exact hr
  | cons tx txs ih => exact ih (hr.executeTx tx)

theorem DiffDeclared.executeAll (hi : R.DiffDeclared s) (txs : List V.ExecutableTx) :
    R.DiffDeclared (s.executeAll flags txs) := by
  induction txs generalizing s with
  | nil => exact hi
  | cons tx txs ih => exact ih (hi.executeTx tx)

theorem Recorded.class_eq (hr : R.Recorded s hash c compiled) : R.class s hash=.ok (some c) := by
  rw [DeclareRules.class,CachedState.class,hr.declared]

theorem Recorded.stateUpdate (hi : R.DiffDeclared s) {c : SierraContractClass L.Abi}
    (hr : R.Recorded s hash (.sierra c) compiled) (hz : compiled≠0) :
    (V.stateUpdateFromCachedState s.cachedState s.declaredClasses).classes.get hash=
        some (ContractClass.sierra c) ∧
      (V.stateUpdateFromCachedState s.cachedState
        s.declaredClasses).stateUpdates.declaredClasses.get hash=some compiled := by
  have hall : ∀ k, (R.compiledClassHashes s.cachedState).get k≠none →
      ∃ d, R.class s k=.ok (some d) := by
    intro k hk
    obtain ⟨d,hd⟩ := hi k hk
    exact ⟨d,by rw [DeclareRules.class,CachedState.class,hd]⟩
  obtain ⟨u,hu,hget⟩ := ClassUpdates.ofDiff_get hall
  obtain ⟨hclasses,hdeclared⟩ := R.stateUpdate_classes _ _ u hu
  rw [hclasses,hdeclared]
  exact hget hash compiled c (hr.diff hz) hr.class_eq

end DeclareRules
end Katana.Service
