import Katana.Provider.ClassHistory

/-! The process-wide cache of compiled classes and the state reader that consults it before
the state (cache.rs and state.rs of executor/implementation/blockifier). -/
namespace Katana.Service
variable {P : Payloads}

/-- What a state knows about classes. -/
abbrev ClassSource (P : Payloads) := Felt → Except ProviderError (Option P.ContractClass)

/-- The class of an executor state: its own declarations, then the state below. -/
def CachedState.class (declaredClasses : SortedMap Felt P.ContractClass)
    (state : ClassSource P) : ClassSource P := fun hash =>
  match declaredClasses.get hash with
  | some c => .ok (some c)
  | none => state hash

/-- Compilation of legacy and of Sierra classes; none where the cache unwraps an error. -/
structure ClassCompiler (P : Payloads) where
  CompiledClassV0 : Type
  CompiledClassV1 : Type
  compile : P.ContractClass → Option (CompiledClassV0 ⊕ CompiledClassV1)

inductive RunnableCompiledClass (C : ClassCompiler P) where
  | v0 (c : C.CompiledClassV0)
  | v1 (c : C.CompiledClassV1)
  | v1Native (c : C.CompiledClassV1)

/-- The cache and the native compilations that were spawned, if there is a pool for them. -/
structure ClassCache (C : ClassCompiler P) where
  pool : Bool := false
  cache : SortedMap Felt (RunnableCompiledClass C) := ∅
  compiling : List (Felt × C.CompiledClassV1) := []

inductive StateError where
  | stateReadError (e : ProviderError)
  | undeclaredClassHash (hash : Felt)
  deriving DecidableEq, Repr

variable {C : ClassCompiler P} {s : ClassCache C} {hash : Felt} {compiled : RunnableCompiledClass C}
    {source : ClassSource P}

namespace ClassCache

def insert (s : ClassCache C) (hash : Felt) (c : P.ContractClass) :
    Option (RunnableCompiledClass C) × ClassCache C :=
  match C.compile c with
  | none => (none,s)
  | some (.inl compiled) =>
    (some (.v0 compiled),{ s with cache := s.cache.put hash (.v0 compiled) })
  | some (.inr compiled) =>
    (some (.v1 compiled),
      { s with
        cache := s.cache.put hash (.v1 compiled)
        compiling := if s.pool then s.compiling++[(hash,compiled)] else s.compiling })

def getCompiledClass (source : ClassSource P) (hash : Felt) (s : ClassCache C) :
    Option (Except StateError (RunnableCompiledClass C)) × ClassCache C :=
  match s.cache.get hash with
  | some compiled => (some (.ok compiled),s)
  | none =>
    match source hash with
    | .error e => (some (.error (.stateReadError e)),s)
    | .ok none => (some (.error (.undeclaredClassHash hash)),s)
    | .ok (some c) => ((s.insert hash c).1.map .ok,(s.insert hash c).2)

end ClassCache

/-- What happens to the shared cache: a state reads a class through it, an entry is evicted, a
native compilation ends. -/
inductive CacheEvent (P : Payloads) where
  | lookup (source : ClassSource P) (hash : Felt)
  | evict (hash : Felt)
  | compiled (task : Nat)
  | compilationFailed (task : Nat)

namespace ClassCache

def step (s : ClassCache C) : CacheEvent P → ClassCache C
  | .lookup source hash => (s.getCompiledClass source hash).2
  | .evict hash => { s with cache := s.cache.erase hash }
  | .compiled task =>
    match s.compiling[task]? with
    | some (hash,compiled) =>
      { s with
        cache := s.cache.put hash (.v1Native compiled)
        compiling := s.compiling.eraseIdx task }
    | none => s
  | .compilationFailed task => { s with compiling := s.compiling.eraseIdx task }

def run (pool : Bool) (events : List (CacheEvent P)) : ClassCache C :=
  events.foldl step { pool := pool }

end ClassCache

/-- The class compiles to this, natively or not. -/
def Yields (C : ClassCompiler P) (c : P.ContractClass) (compiled : RunnableCompiledClass C) : Prop :=
  match compiled with
  | .v0 x => C.compile c=some (.inl x)
  | .v1 x => C.compile c=some (.inr x)
  | .v1Native x => C.compile c=some (.inr x)

namespace ClassCache

theorem insert_cases (s : ClassCache C) (hash : Felt) (c : P.ContractClass) :
    (C.compile c=none ∧ s.insert hash c=(none,s)) ∨
    ∃ compiled compiling, C.compile c≠none ∧ Yields C c compiled ∧
      (∀ x∈compiling, x∈s.compiling ∨ x.1=hash ∧ Yields C c (.v1Native x.2)) ∧
      s.insert hash c=(some compiled,
        { s with cache := s.cache.put hash compiled, compiling := compiling }) := by
  unfold insert
  cases hc : C.compile c with
  | none => exact Or.inl ⟨rfl,rfl⟩
  | some compiled =>
    cases compiled with
    | inl x => exact Or.inr ⟨.v0 x,s.compiling,by simp,hc,fun _ hx => Or.inl hx,rfl⟩
    | inr x =>
      refine Or.inr ⟨.v1 x,_,by simp,hc,?_,rfl⟩
      intro y hy
      by_cases hp : s.pool
      · rw [if_pos hp] at hy
        obtain hy | hy := List.mem_append.mp hy
        · exact Or.inl hy
        · rw [List.mem_singleton.mp hy]
          exact Or.inr ⟨rfl,hc⟩
      · rw [if_neg hp] at hy
        exact Or.inl hy

theorem getCompiledClass_hit (h : s.cache.get hash=some compiled) (source : ClassSource P) :
    s.getCompiledClass source hash=(some (.ok compiled),s) := by
  simp only [getCompiledClass,h]

theorem getCompiledClass_unknown (h : s.cache.get hash=none) (hs : ∀ c, source hash≠.ok (some c)) :
    ∃ e, s.getCompiledClass source hash=(some (.error e),s) := by
  simp only [getCompiledClass,h]
  cases hr : source hash with
  | error e => exact ⟨_,rfl⟩
  | ok found =>
    cases found with
    | none => exact ⟨_,rfl⟩
    | some c => exact absurd hr (hs c)

theorem getCompiledClass_known (h : s.cache.get hash=none) {c : P.ContractClass}
    (hs : source hash=.ok (some c)) :
    s.getCompiledClass source hash=((s.insert hash c).1.map .ok,(s.insert hash c).2) := by
  simp only [getCompiledClass,h,hs]

end ClassCache

/-- A state that read the class had one that compiles to this. -/
def ReadFrom (events : List (CacheEvent P)) (hash : Felt) (compiled : RunnableCompiledClass C) :
    Prop :=
  ∃ source c, CacheEvent.lookup source hash∈events ∧ source hash=.ok (some c) ∧
    Yields C c compiled

variable {events : List (CacheEvent P)}

theorem ReadFrom.mono {later : List (CacheEvent P)} (h : ReadFrom events hash compiled) :
    ReadFrom (events++later) hash compiled := by
  obtain ⟨source,c,hm,hc,hy⟩ := h
  exact ⟨source,c,List.mem_append_left _ hm,hc,hy⟩

/-- Everything in the cache, or about to be, was read from some state. -/
structure Provenance (events : List (CacheEvent P)) (s : ClassCache C) : Prop where
  cached : ∀ hash compiled, s.cache.get hash=some compiled → ReadFrom events hash compiled
  compiling : ∀ x∈s.compiling, ReadFrom events x.1 (.v1Native x.2 : RunnableCompiledClass C)

theorem Provenance.put (h : Provenance events s) (hr : ReadFrom events hash compiled)
    {compiling : List (Felt × C.CompiledClassV1)} (hc : ∀ x∈compiling, x∈s.compiling ∨
      ReadFrom events x.1 (.v1Native x.2 : RunnableCompiledClass C)) :
    Provenance events { s with cache := s.cache.put hash compiled, compiling := compiling } where
  cached other compiled' hg := by
    rw [SortedMap.get_put] at hg
    by_cases he : hash=other
    · subst he
      rw [if_pos rfl,Option.some.injEq] at hg
      exact hg ▸ hr
    · rw [if_neg he] at hg
      exact h.cached other compiled' hg
  compiling x hx := (hc x hx).elim (h.compiling x) id

theorem Provenance.lookup (h : Provenance events s) (he : .lookup source hash∈events) :
    Provenance events (s.getCompiledClass source hash).2 := by
  cases hg : s.cache.get hash with
  | some compiled =>
    rw [ClassCache.getCompiledClass_hit hg]
    exact h
  | none =>
    by_cases hs : ∃ c, source hash=.ok (some c)
    · obtain ⟨c,hs⟩ := hs
      have hread : ∀ r : RunnableCompiledClass C, Yields C c r → ReadFrom events hash r :=
        fun r hy => ⟨source,c,he,hs,hy⟩
      rw [ClassCache.getCompiledClass_known hg hs]
      obtain ⟨-,hi⟩ | ⟨compiled,compiling,-,hy,hc,hi⟩ := s.insert_cases hash c
      · rw [hi]
        exact h
      · rw [hi]
        refine h.put (hread compiled hy) (fun x hx => (hc x hx).imp_right ?_)
        rintro ⟨hx,hy⟩
        exact hx ▸ hread _ hy
    · obtain ⟨e,hr⟩ := ClassCache.getCompiledClass_unknown hg (fun c hc => hs ⟨c,hc⟩)
      rw [hr]
      exact h

theorem Provenance.step (h : Provenance events s) (e : CacheEvent P) :
    Provenance (events++[e]) (s.step e) := by
  have hold : Provenance (events++[e]) s :=
    ⟨fun hash r hg => (h.cached hash r hg).mono,fun x hx => (h.compiling x hx).mono⟩
  cases e with
  | lookup source hash => exact hold.lookup (by simp)
  | evict hash =>
    refine ⟨fun other r hg => ?_,hold.compiling⟩
    simp only [ClassCache.step,SortedMap.get_erase] at hg
    by_cases he : hash=other
    · simp [he] at hg
    · simp only [he,if_false] at hg
      exact hold.cached other r hg
  | compiled task =>
    simp only [ClassCache.step]
    cases ht : s.compiling[task]? with
    | none => exact hold
    | some x =>
      exact hold.put (hold.compiling x (List.mem_of_getElem? ht))
        (fun y hy => Or.inl (List.mem_of_mem_eraseIdx hy))
  | compilationFailed task =>
    exact ⟨hold.cached,fun x hx => hold.compiling x (List.mem_of_mem_eraseIdx hx)⟩

theorem provenance_run (pool : Bool) (events : List (CacheEvent P)) :
    Provenance events (ClassCache.run (C := C) pool events) := by
  induction events using List.reverseRecOn with
  | nil => exact ⟨fun _ _ hg => by simp [ClassCache.run] at hg,fun _ hx => by cases hx⟩
  | append_singleton events e ih =>
    rw [ClassCache.run,List.foldl_append]
    exact ih.step e

section
variable (s : ClassCache C) (source : ClassSource P) (hash : Felt)

/-- A read of the class through the cache answers for the state it is over. -/
def ClassVisible : Prop :=
  ((∃ compiled, (s.getCompiledClass source hash).1=some (.ok compiled)) ↔
    ∃ c, source hash=.ok (some c)) ∧
  ∀ compiled c, (s.getCompiledClass source hash).1=some (.ok compiled) →
    source hash=.ok (some c) → Yields C c compiled

/-- Nothing is cached under the hash and the class compiles, or what is cached is the
compilation of the class that the state has. -/
def CacheAgrees : Prop :=
  match s.cache.get hash with
  | none => ∀ c, source hash=.ok (some c) → C.compile c≠none
  | some compiled => ∃ c, source hash=.ok (some c) ∧ Yields C c compiled

theorem visible_iff_agrees : ClassVisible s source hash ↔ CacheAgrees s source hash := by
  unfold CacheAgrees ClassVisible
  cases hg : s.cache.get hash with
  | some compiled =>
    rw [ClassCache.getCompiledClass_hit hg]
    simp only [Option.some.injEq,Except.ok.injEq,exists_eq',true_iff]
    constructor
    · rintro ⟨⟨c,hc⟩,hy⟩
      exact ⟨c,hc,hy compiled c rfl hc⟩
    · rintro ⟨c,hc,hy⟩
      refine ⟨⟨c,hc⟩,?_⟩
      rintro _ c' rfl hc'
      cases hc.symm.trans hc'
      exact hy
  | none =>
    by_cases hs : ∃ c, source hash=.ok (some c)
    · obtain ⟨c,hs⟩ := hs
      rw [ClassCache.getCompiledClass_known hg hs]
      obtain ⟨hc,hi⟩ | ⟨compiled,_,hc,hy,-,hi⟩ := s.insert_cases hash c
      · simp [hi,hs,hc]
      · simp [hi,hs,hc,hy]
    · obtain ⟨e,hr⟩ := ClassCache.getCompiledClass_unknown hg (fun c hc => hs ⟨c,hc⟩)
      rw [hr]
      have hno : ∀ c, source hash≠.ok (some c) := fun c hc => hs ⟨c,hc⟩
      simp [hno]

end

/-- After every history of the cache a read answers for its own state exactly when the cache
agrees with that state, and what the cache holds was read from the state of some earlier
read. -/
theorem class_visible_iff (C : ClassCompiler P) (pool : Bool) (events : List (CacheEvent P))
    (source : ClassSource P) (hash : Felt) :
    (ClassVisible (ClassCache.run (C := C) pool events) source hash ↔
      CacheAgrees (ClassCache.run (C := C) pool events) source hash) ∧
    ∀ compiled, (ClassCache.run (C := C) pool events).cache.get hash=some compiled →
      ReadFrom events hash compiled :=
  ⟨visible_iff_agrees _ source hash,(provenance_run pool events).cached hash⟩

section Samples

def unitCompiler : ClassCompiler unitPayloads := ⟨Unit,Unit,fun _ => some (.inr ())⟩

def declaredLater : Db unitPayloads :=
  insertBlocks starknetCodecs [stateBlock 0 100 {},declaringBlock 1 101]

def sourceOf (state : StateProvider unitPayloads) : ClassSource unitPayloads :=
  fun hash => state.class hash

def pendingSource : ClassSource unitPayloads :=
  CachedState.class (SortedMap.put 6 () ∅) (sourceOf (.latest declaredLater))

theorem block_zero_unknown : sourceOf (.historical declaredLater 0) 5=.ok none := by
  have hinc : Increasing ([]++stateBlock 0 100 {}::[declaringBlock 1 101]) := by decide
  have hlater : DeclaredBy [declaringBlock 1 101] 5 := ⟨_,List.mem_singleton.mpr rfl,by decide⟩
  have hno : isClassDeclaredBeforeBlock declaredLater (stateBlock 0 100 {}).number 5=false :=
    Bool.eq_false_iff.mpr (fun hyes =>
      ((declared_before_iff starknetCodecs hinc 5).mp hyes).2 hlater)
  rw [sourceOf,StateProvider.class,show (0 : Nat)=(stateBlock 0 100 {}).number from rfl,hno]
  rfl

theorem tip_sources :
    sourceOf (.latest declaredLater) 5=.ok (some ()) ∧
      sourceOf (.latest declaredLater) 6=.ok none := by
  constructor <;> exact congrArg Except.ok (insertBlocks_classes starknetCodecs _ _)

theorem visible_after_read {first second : ClassSource unitPayloads} (hf : first hash=.ok (some ()))
    (hs : second hash=.ok none) :
    ((ClassCache.run false [.lookup first hash] :
      ClassCache unitCompiler).getCompiledClass second hash).1=some (.ok (.v1 ())) ∧
    ¬ClassVisible (ClassCache.run false [.lookup first hash] : ClassCache unitCompiler) second
      hash := by
  have hcached : (ClassCache.run false [.lookup first hash] : ClassCache unitCompiler).cache.get
      hash=some (.v1 ()) := by
    have hmiss : ({} : ClassCache unitCompiler).cache.get hash=none := SortedMap.get_empty hash
    have hread := congrArg Prod.snd (ClassCache.getCompiledClass_known hmiss hf)
    rw [ClassCache.run,List.foldl_cons,List.foldl_nil,ClassCache.step,hread]
    exact SortedMap.get_put_self _ _ _
  have hhit := congrArg Prod.fst (ClassCache.getCompiledClass_hit hcached second)
  refine ⟨hhit,fun hv => ?_⟩
  obtain ⟨c,hc⟩ := hv.1.mp ⟨_,hhit⟩
  cases hs.symm.trans hc

/-- The tip reads class 5 and the pending state class 6; the states of block 0 and of the tip
then execute classes that they do not have. -/
theorem class_executable_before_declaration :
    (sourceOf (.historical declaredLater 0) 5=.ok none ∧
      ¬ClassVisible (ClassCache.run false [.lookup (sourceOf (.latest declaredLater)) 5] :
        ClassCache unitCompiler) (sourceOf (.historical declaredLater 0)) 5) ∧
    sourceOf (.latest declaredLater) 6=.ok none ∧
      ¬ClassVisible (ClassCache.run false [.lookup pendingSource 6] : ClassCache unitCompiler)
        (sourceOf (.latest declaredLater)) 6 :=
  ⟨⟨block_zero_unknown,(visible_after_read tip_sources.1 block_zero_unknown).2⟩,
    tip_sources.2,(visible_after_read rfl tip_sources.2).2⟩

end Samples
end Katana.Service
