import Katana.Executor.Declare
import Katana.Pool.Pool

/-! Declare requests (BroadcastedDeclareTx of rpc-types/src/transaction.rs, the conversions of
Sierra classes of rpc-types/src/class.rs and add_declare_transaction of rpc/src/starknet/write.rs)
and the integrity of the class that the request gets stored. -/
namespace Katana.Rpc
open Primitives
open TransactionPool (PoolTransaction Validator PoolOrd Pool PoolError FiFo)
open Service (VmState DeclareRules withClasses)

structure SierraEntryPoint where
  selector : Felt
  functionIdx : Nat
  deriving DecidableEq, Repr

structure EntryPointsByType where
  constructor : List SierraEntryPoint := []
  external : List SierraEntryPoint := []
  l1Handler : List SierraEntryPoint := []
  deriving DecidableEq, Repr

/-- The class of a request; the ABI is a text. -/
structure FlattenedSierraClass where
  sierraProgram : List Felt
  contractClassVersion : String
  entryPointsByType : EntryPointsByType
  abi : String
  deriving DecidableEq, Repr

structure RpcSierraContractClass where
  sierraProgram : List Felt
  contractClassVersion : String
  entryPointsByType : ContractEntryPoints
  abi : String
  deriving DecidableEq, Repr

def SierraEntryPoint.toContractEntryPoint (entry : SierraEntryPoint) : ContractEntryPoint :=
  ⟨entry.selector.val,entry.functionIdx⟩

def SierraEntryPoint.pair (entry : SierraEntryPoint) : Felt × Nat :=
  (entry.selector,entry.functionIdx)

def EntryPointsByType.toContractEntryPoints (e : EntryPointsByType) : ContractEntryPoints where
  external := e.external.map SierraEntryPoint.toContractEntryPoint
  l1Handler := e.l1Handler.map SierraEntryPoint.toContractEntryPoint
  constructor := e.constructor.map SierraEntryPoint.toContractEntryPoint

def RpcSierraContractClass.ofFlattened (c : FlattenedSierraClass) : RpcSierraContractClass where
  sierraProgram := c.sierraProgram
  contractClassVersion := c.contractClassVersion
  entryPointsByType := c.entryPointsByType.toContractEntryPoints
  abi := c.abi

structure BroadcastedDeclareTx where
  senderAddress : Felt
  compiledClassHash : Felt
  signature : List Felt
  nonce : Felt
  contractClass : FlattenedSierraClass
  resourceBounds : AllResourceBoundsMapping
  tip : BitVec 64
  paymasterData : List Felt
  accountDeploymentData : List Felt
  nonceDataAvailabilityMode : DataAvailabilityMode
  feeDataAvailabilityMode : DataAvailabilityMode
  isQuery : Bool
  deriving DecidableEq, Repr

section
variable (L : ClassLibraries)

def RpcSierraContractClass.toSierra (c : RpcSierraContractClass) :
    Except String (SierraContractClass L.Abi) := do
  let abi ← L.parseAbi c.abi
  return {
    abi := abi
    sierraProgram := c.sierraProgram.map Fin.val
    entryPointsByType := c.entryPointsByType
    contractClassVersion := c.contractClassVersion }

variable (c : FlattenedSierraClass)

def FlattenedSierraClass.classHash : Felt :=
  L.flattenedClassHash c.sierraProgram (c.entryPointsByType.external.map SierraEntryPoint.pair)
    (c.entryPointsByType.l1Handler.map SierraEntryPoint.pair)
    (c.entryPointsByType.constructor.map SierraEntryPoint.pair) c.abi

/-- A text is not an ABI to serde: the class is left without one. -/
def rpcToCairoContractClass : SierraContractClass L.Abi where
  abi := none
  sierraProgram := c.sierraProgram.map Fin.val
  entryPointsByType := c.entryPointsByType.toContractEntryPoints
  contractClassVersion := c.contractClassVersion

def compiledClassHashFromFlattenedSierraClass : Except String Felt := do
  let casm ← L.fromContractClass (rpcToCairoContractClass L c)
  L.rereadClassHash casm

namespace BroadcastedDeclareTx

variable (request : BroadcastedDeclareTx)

def validateCompiledClassHash : Except String Bool := do
  let hash ← compiledClassHashFromFlattenedSierraClass L request.contractClass
  return decide (hash=request.compiledClassHash)

def toDeclareTxV3 (chainId : ChainId) : DeclareTxV3 where
  chainId := chainId
  classHash := request.contractClass.classHash L
  tip := request.tip
  nonce := request.nonce
  signature := request.signature
  paymasterData := request.paymasterData
  senderAddress := request.senderAddress
  compiledClassHash := request.compiledClassHash
  accountDeploymentData := request.accountDeploymentData
  resourceBounds := .all request.resourceBounds
  feeDataAvailabilityMode := request.feeDataAvailabilityMode
  nonceDataAvailabilityMode := request.nonceDataAvailabilityMode

/-- None is the panic of an ABI that cannot be parsed. There is no error. -/
def tryIntoTxWithChainId (chainId : ChainId) : Option (DeclareTx × ContractClass L) :=
  match (RpcSierraContractClass.ofFlattened request.contractClass).toSierra L with
  | .error _ => none
  | .ok c => some (.v3 (request.toDeclareTxV3 L chainId),.sierra c)

def executableTx (chainId : ChainId) : Option (ExecutableTxWithHash L) := do
  let (tx,c) ← request.tryIntoTxWithChainId L chainId
  ExecutableTxWithHash.new (.declare tx) (some c)

end BroadcastedDeclareTx
end

/-! The transactions of the pool (pool/src/tx.rs). -/

/-- Version 0 transactions are not supported: the code panics. -/
def txNonce : ExecutableTx → Option Felt
  | .invoke (.v0 _) => none
  | .invoke (.v1 tx) => some tx.nonce
  | .invoke (.v3 tx) => some tx.nonce
  | .l1Handler tx => some tx.nonce
  | .declare (.v0 _) => none
  | .declare (.v1 tx) => some tx.nonce
  | .declare (.v2 tx) => some tx.nonce
  | .declare (.v3 tx) => some tx.nonce
  | .deployAccount (.v1 tx) => some tx.nonce
  | .deployAccount (.v3 tx) => some tx.nonce

def txSender : ExecutableTx → Felt
  | .invoke (.v0 tx) => tx.contractAddress
  | .invoke (.v1 tx) => tx.senderAddress
  | .invoke (.v3 tx) => tx.senderAddress
  | .l1Handler tx => tx.contractAddress
  | .declare (.v0 tx) => tx.senderAddress
  | .declare (.v1 tx) => tx.senderAddress
  | .declare (.v2 tx) => tx.senderAddress
  | .declare (.v3 tx) => tx.senderAddress
  | .deployAccount (.v1 tx) => tx.contractAddress
  | .deployAccount (.v3 tx) => tx.contractAddress

instance (L : ClassLibraries) : PoolTransaction (ExecutableTxWithHash L) where
  hash := ExecutableTxWithHash.hash
  nonce tx := txNonce tx.transaction
  sender tx := txSender tx.transaction

inductive AddDeclareError where
  | unsupportedTransactionVersion
  | pool (e : PoolError)
  deriving DecidableEq, Repr

variable {hash : Felt}

section Handler
variable {L : ClassLibraries} {V O Priority : Type}
  [Validator V (ExecutableTxWithHash L)]
  [PoolOrd O (ExecutableTxWithHash L) Priority]

/-- The transaction hash and the class hash. None is a panic. -/
def addDeclareTransactionImpl (chainId : ChainId) (request : BroadcastedDeclareTx)
    (pool : Pool (ExecutableTxWithHash L) V O Priority) :
    Option (Except AddDeclareError (Felt × Felt)) ×
      Pool (ExecutableTxWithHash L) V O Priority :=
  if request.isQuery then (some (.error .unsupportedTransactionVersion),pool)
  else
    match request.tryIntoTxWithChainId L chainId with
    | none => (none,pool)
    | some (tx,c) =>
      match ExecutableTxWithHash.new (.declare tx) (some c) with
      | none => (none,pool)
      | some executable =>
        match pool.addTransaction executable with
        | (none,pool) => (none,pool)
        | (some (.error e),pool) => (some (.error (.pool e)),pool)
        | (some (.ok hash),pool) => (some (.ok (hash,tx.classHash)),pool)

theorem addDeclareTransactionImpl_ok {chainId : ChainId} {request : BroadcastedDeclareTx}
    {pool : Pool (ExecutableTxWithHash L) V O Priority} {classHash : Felt}
    (h : (addDeclareTransactionImpl chainId request pool).1=some (.ok (hash,classHash))) :
    classHash=request.contractClass.classHash L := by
  unfold addDeclareTransactionImpl at h
  by_cases hq : request.isQuery
  · simp [hq] at h
  · rw [if_neg hq] at h
    unfold BroadcastedDeclareTx.tryIntoTxWithChainId at h
    cases hc : (RpcSierraContractClass.ofFlattened request.contractClass).toSierra L with
    | error e => simp [hc] at h
    | ok c =>
      simp only [hc,ExecutableTxWithHash.new,ExecutableTx.calculateHash,Option.map_some] at h
      split at h
      · cases h
      · cases h
      · injection h with h
        injection h with h
        exact (congrArg Prod.snd h).symm

end Handler

section Integrity
variable {L : ClassLibraries} {sierra : SierraContractClass L.Abi}

/-- The parsed ABI is written the way the request has it. -/
def FlattenedSierraClass.PythonicAbi (L : ClassLibraries) (c : FlattenedSierraClass) : Prop :=
  ∃ abi, L.parseAbi c.abi=.ok abi ∧ abiStr L abi=c.abi

/-- The class does not have the hash of the class with its ABI rewritten, unless they are the
same. -/
def FlattenedSierraClass.CollisionFree (L : ClassLibraries) (c : FlattenedSierraClass) : Prop :=
  ∀ abi, L.parseAbi c.abi=.ok abi →
    FlattenedSierraClass.classHash L { c with abi := abiStr L abi }=c.classHash L →
    abiStr L abi=c.abi

theorem ofNat_val (x : Felt) : Fin.ofNat feltPrime x.val=x := Fin.ext (Nat.mod_eq_of_lt x.isLt)

theorem entrypointsHash_toContractEntryPoint (entrypoints : List SierraEntryPoint) :
    entrypointsHash L (entrypoints.map SierraEntryPoint.toContractEntryPoint)=
      selectorsHash L (entrypoints.map SierraEntryPoint.pair) := by
  simp only [entrypointsHash,selectorsHash,List.flatMap_map,SierraEntryPoint.pair,
    SierraEntryPoint.toContractEntryPoint,ofNat_val]

theorem toSierra_ok (hL : L.Lawful) {c : FlattenedSierraClass}
    (h : (RpcSierraContractClass.ofFlattened c).toSierra L=.ok sierra) :
    L.parseAbi c.abi=.ok sierra.abi ∧
      sierra={ rpcToCairoContractClass L c with abi := sierra.abi } ∧
      computeSierraClassHash L sierra=
        FlattenedSierraClass.classHash L { c with abi := abiStr L sierra.abi } := by
  cases ha : L.parseAbi c.abi with
  | error e => simp [RpcSierraContractClass.toSierra,RpcSierraContractClass.ofFlattened,ha,
      Bind.bind,Except.bind] at h
  | ok abi =>
    simp only [RpcSierraContractClass.toSierra,RpcSierraContractClass.ofFlattened,ha,
      Bind.bind,Except.bind,pure,Except.pure,Except.ok.injEq] at h
    subst h
    refine ⟨rfl,rfl,?_⟩
    simp only [computeSierraClassHash,FlattenedSierraClass.classHash,hL.flattenedClassHash_eq,
      EntryPointsByType.toContractEntryPoints,entrypointsHash_toContractEntryPoint,List.map_map]
    congr 1
    exact (List.map_congr_left (fun x _ => ofNat_val x)).trans (List.map_id _)

/-- The check that is never made: the request has the hash of what its class compiles to. -/
theorem validateCompiledClassHash_iff (hL : L.Lawful) {request : BroadcastedDeclareTx}
    (h : (RpcSierraContractClass.ofFlattened request.contractClass).toSierra L=.ok sierra) :
    request.validateCompiledClassHash L=.ok true ↔
      ∃ compiled, (ContractClass.sierra sierra).compile=.ok compiled ∧
        compiled.classHash=request.compiledClassHash := by
  obtain ⟨-,hs,-⟩ := toSierra_ok hL h
  have hcompile : L.fromContractClass (rpcToCairoContractClass L request.contractClass)=
      L.fromContractClass sierra := by
    rw [hs]
    exact (hL.fromContractClass_abi _ _).symm
  cases hc : L.fromContractClass sierra with
  | error e =>
    simp [BroadcastedDeclareTx.validateCompiledClassHash,
      compiledClassHashFromFlattenedSierraClass,hcompile,hc,ContractClass.compile,Bind.bind,
      Except.bind,Except.map]
  | ok casm =>
    simp [BroadcastedDeclareTx.validateCompiledClassHash,
      compiledClassHashFromFlattenedSierraClass,hcompile,hc,ContractClass.compile,
      CompiledClass.classHash,hL.rereadClassHash_eq,Bind.bind,Except.bind,Except.map,pure,
      Except.pure]

variable {base : Payloads} {K : Backend (withClasses base L)} {V : Service.Vm K}

/-- The class under the class hash has that hash, and its compiled class hash is the hash of
what it compiles to: in the state of the executor and in the state update of its block. -/
def Integrity (R : DeclareRules V) (s : VmState V) (classHash : Felt) : Prop :=
  ∃ (c : ContractClass L) (compiled : CompiledClass L),
    R.class s classHash=.ok (some c) ∧ c.classHash=classHash ∧ c.compile=.ok compiled ∧
    R.compiledClassHashOfClassHash s classHash=some compiled.classHash ∧
    (V.stateUpdateFromCachedState s.cachedState s.declaredClasses).classes.get classHash=some c ∧
    (V.stateUpdateFromCachedState s.cachedState
      s.declaredClasses).stateUpdates.declaredClasses.get classHash=some compiled.classHash

theorem integrity_iff_of_recorded {R : DeclareRules V} {s : VmState V} (hi : R.DiffDeclared s)
    {compiledHash : Felt} (hr : R.Recorded s hash (.sierra sierra) compiledHash) :
    Integrity R s hash ↔ computeSierraClassHash L sierra=hash ∧
      (∃ compiled, (ContractClass.sierra sierra).compile=.ok compiled ∧
        compiled.classHash=compiledHash) ∧ compiledHash≠0 := by
  constructor
  · rintro ⟨c,compiled,hc,hhash,hcompile,hrecorded,-,-⟩
    rw [hr.class_eq] at hc
    obtain rfl := Option.some.inj (Except.ok.inj hc)
    rw [DeclareRules.compiledClassHashOfClassHash,hr.compiledClassHash] at hrecorded
    by_cases hz : compiledHash=0
    · rw [if_pos hz] at hrecorded
      cases hrecorded
    · rw [if_neg hz] at hrecorded
      exact ⟨hhash,⟨compiled,hcompile,(Option.some.inj hrecorded).symm⟩,hz⟩
  · rintro ⟨hhash,⟨compiled,hcompile,rfl⟩,hz⟩
    obtain ⟨hclass,hdeclared⟩ := hr.stateUpdate hi hz
    refine ⟨.sierra sierra,compiled,hr.class_eq,hhash,hcompile,?_,hclass,hdeclared⟩
    rw [DeclareRules.compiledClassHashOfClassHash,hr.compiledClassHash,if_neg hz]

variable {Va O Priority : Type} [Validator Va (ExecutableTxWithHash L)]
  [PoolOrd O (ExecutableTxWithHash L) Priority]

/-- A request is accepted, its transaction is executed on a new executor after some
transactions, and some more follow. -/
theorem declare_integrity_iff (hL : L.Lawful) (R : DeclareRules V) (chainId : ChainId)
    (request : BroadcastedDeclareTx)
    (pool : Pool (ExecutableTxWithHash L) Va O Priority)
    (hash classHash : Felt) (flags : V.Flags) (executor : VmState V)
    (before after : List V.ExecutableTx) (tx : ExecutableTxWithHash L)
    (result : (withClasses base L).Receipt × K.Trace)
    (hfree : request.contractClass.CollisionFree L)
    (haccepted :
      (addDeclareTransactionImpl chainId request pool).1=some (.ok (hash,classHash)))
    (htx : request.executableTx L chainId=some tx)
    (hnew : R.compiledClassHashes executor.cachedState=∅)
    (hexecuted : ((executor.executeAll flags before).executeTx flags (R.ofTx tx)).2=
      .ok (.success result)) :
    Integrity R (executor.executeAll flags (before++R.ofTx tx::after)) classHash ↔
      request.contractClass.PythonicAbi L ∧
      request.validateCompiledClassHash L=.ok true ∧ request.compiledClassHash≠0 := by
  obtain rfl := addDeclareTransactionImpl_ok haccepted
  cases hs : (RpcSierraContractClass.ofFlattened request.contractClass).toSierra L with
  | error e => simp [BroadcastedDeclareTx.executableTx,
      BroadcastedDeclareTx.tryIntoTxWithChainId,hs] at htx
  | ok sierra =>
    obtain ⟨habi,-,hhash⟩ := toSierra_ok hL hs
    have hkind : tx.transaction=.declare (.v3 (request.toDeclareTxV3 L chainId)) ∧
        tx.declaredClass=some (.sierra sierra) := by
      simp only [BroadcastedDeclareTx.executableTx,BroadcastedDeclareTx.tryIntoTxWithChainId,hs,
        Option.bind_eq_bind,Option.bind_some,ExecutableTxWithHash.new,
        ExecutableTx.calculateHash,Option.map_some,Option.some.injEq] at htx
      subst htx
      exact ⟨rfl,rfl⟩
    have hend : executor.executeAll flags (before++R.ofTx tx::after)=
        (((executor.executeAll flags before).executeTx flags (R.ofTx tx)).1).executeAll flags
          after := by
      simp only [VmState.executeAll,List.foldl_append,List.foldl_cons]
    have hr : R.Recorded (VmState.executeAll flags
        ((executor.executeAll flags before).executeTx flags (R.ofTx tx)).1 after)
        (request.contractClass.classHash L) (.sierra sierra) request.compiledClassHash :=
      (DeclareRules.Recorded.of_declare hkind.1 hkind.2 hexecuted).executeAll after
    have hi : R.DiffDeclared executor := by
      intro k hk
      rw [hnew] at hk
      exact absurd (SortedMap.get_empty k) hk
    have hi' : R.DiffDeclared (executor.executeAll flags (before++R.ofTx tx::after)) :=
      hi.executeAll _
    rw [hend] at hi' ⊢
    rw [integrity_iff_of_recorded hi' hr,hhash,← validateCompiledClassHash_iff hL hs]
    refine and_congr_left' ⟨fun h => ⟨sierra.abi,habi,hfree _ habi h⟩,?_⟩
    rintro ⟨abi,hparse,htext⟩
    obtain rfl := Except.ok.inj (habi.symm.trans hparse)
    rw [htext]

end Integrity

section Samples

def sampleHash (xs : List Felt) : Felt := xs.foldl (fun acc x => 13*acc+x+1) 0

/-- An ABI without items, in two spellings; a class compiles to its program. -/
def sampleLibraries : ClassLibraries where
  computeHashOnElements xs := xs.foldl (fun acc x => 3*acc+x+1) 0
  poseidonHashMany := sampleHash
  Abi := Unit
  LegacyContractClass := Unit
  CasmContractClass := List Nat
  defaultAbi := ()
  parseAbi text :=
    if text="null" then .ok none
    else if text="[]" ∨ text="[ ]" then .ok (some ())
    else .error "invalid ABI"
  toStringPythonic _ := "[]"
  starknetKeccak text := Fin.ofNat feltPrime text.length
  normalizeAddress := id
  legacyClassHash _ := 0
  fromContractClass c := .ok c.sierraProgram
  compiledClassHash casm := Fin.ofNat feltPrime (casm.sum+1)
  rereadClassHash casm := .ok (Fin.ofNat feltPrime (casm.sum+1))
  flattenedClassHash program external l1Handler constructor abi :=
    let selectors (entrypoints : List (Felt × Nat)) := sampleHash (entrypoints.flatMap
      fun entry => [entry.1,Fin.ofNat feltPrime entry.2])
    sampleHash [Primitives.shortString "CONTRACT_CLASS_V0.1.0".toList,selectors external,
      selectors l1Handler,selectors constructor,Fin.ofNat feltPrime abi.length,sampleHash program]

def sampleBackend : Backend (withClasses unitPayloads sampleLibraries) where
  hashes := Backend.plainBackend.hashes
  tries := Backend.plainBackend.tries
  codecs := starknetCodecs
  computeMerkleRoot := Backend.plainBackend.computeMerkleRoot
  Trace := Unit
  typedExecutionInfo _ _ := ()
  events _ := []
  receiptHash r := r.txHash

/-- The state is the compiled class hashes of the declared classes. -/
def sampleExecute (tx : ExecutableTxWithHash sampleLibraries) (state : SortedMap Felt Felt) :
    SortedMap Felt Felt × Except String Unit :=
  match tx.transaction,tx.declaredClass with
  | .declare (.v3 declare),some _ =>
    if state.get declare.classHash=none then
      (state.put declare.classHash declare.compiledClassHash,.ok ())
    else (state,.error "class already declared")
  | _,_ => (state,.error "unsupported")

variable {tx : ExecutableTxWithHash sampleLibraries} {state state' : SortedMap Felt Felt}
    {info : Unit}

theorem sampleExecute_failed {e : String} (h : (sampleExecute tx state).2=.error e) :
    (sampleExecute tx state).1=state := by
  unfold sampleExecute at h ⊢
  split
  · rename_i declare c ht hc
    by_cases hn : state.get declare.classHash=none
    · simp [ht,hc,hn] at h
    · rw [if_neg hn]
  · rfl

section
variable (h : sampleExecute tx state=(state',.ok info))
include h

theorem sampleExecute_ok : ∃ declare c, tx.transaction=.declare (.v3 declare) ∧ tx.declaredClass=some c ∧
      state.get declare.classHash=none ∧
      state'=state.put declare.classHash declare.compiledClassHash := by
  unfold sampleExecute at h
  split at h
  · rename_i declare c ht hc
    split at h
    · rename_i hn
      exact ⟨declare,c,ht,hc,hn,(congrArg Prod.fst h).symm⟩
    · cases congrArg Prod.snd h
  · cases congrArg Prod.snd h

theorem sampleExecute_declare {declare : DeclareTxV3}
    (ht : tx.transaction=.declare (.v3 declare)) :
    state'.get declare.classHash=some declare.compiledClassHash := by
  obtain ⟨declare',c,ht',-,-,rfl⟩ := sampleExecute_ok h
  obtain rfl : declare=declare' := by
    rw [ht] at ht'
    injection ht' with h
    injection h
  exact SortedMap.get_put_self _ _ _

theorem sampleExecute_known (hk : state.get hash≠none) :
    state'.get hash=state.get hash ∧ ∀ c, tx.classDeclArtifacts≠some (hash,c) := by
  obtain ⟨declare,c,ht,hc,hn,rfl⟩ := sampleExecute_ok h
  have hne : declare.classHash≠hash := by
    rintro rfl
    exact hk hn
  refine ⟨SortedMap.get_put_ne hne _ _,fun d hd => ?_⟩
  simp only [ExecutableTxWithHash.classDeclArtifacts,ht,hc,Option.some.injEq,Prod.mk.injEq] at hd
  exact hne hd.1

theorem sampleExecute_diff (hget : state'.get hash≠none) :
    state.get hash≠none ∨ ∃ c, tx.classDeclArtifacts=some (hash,c) := by
  obtain ⟨declare,c,ht,hc,-,rfl⟩ := sampleExecute_ok h
  by_cases he : declare.classHash=hash
  · subst he
    exact Or.inr ⟨c,by simp only [ExecutableTxWithHash.classDeclArtifacts,ht,hc]; rfl⟩
  · rw [SortedMap.get_put_ne he] at hget
    exact Or.inl hget

end

def sampleClassOf (declaredClasses : SortedMap Felt (ContractClass sampleLibraries)) :
    Service.ClassSource (withClasses unitPayloads sampleLibraries) :=
  Service.CachedState.class declaredClasses (fun _ => .ok none)

def sampleVm : Service.Vm sampleBackend where
  BlockContext := Unit
  CachedState := SortedMap Felt Felt
  Bouncer := Unit
  ExecutableTx := ExecutableTxWithHash sampleLibraries
  Transaction := ExecutableTxWithHash sampleLibraries
  Flags := Unit
  txWithHash tx := ⟨tx.hash,()⟩
  declared := ExecutableTxWithHash.classDeclArtifacts
  toExecutorTx tx _ := tx
  fillBlockEnvFromHeader _ context := context
  execute _ tx state := sampleExecute tx state
  execute_failed _ _ _ _ h := sampleExecute_failed h
  feeType _ := .strk
  isAccountV3 _ := true
  tip _ := 0
  fee _ := 1
  getFeeByGasVector _ _ _ _ := 1
  gasPrices _ _ := ⟨1,1,1⟩
  tryUpdate _ _ _ _ := ((),.ok ())
  tryUpdate_failed _ _ _ _ _ _ := rfl
  buildReceipt _ _ _ := ()
  l1Gas _ := 1
  nSteps _ := 1
  stateUpdateFromCachedState state declaredClasses :=
    match Service.ClassUpdates.ofDiff (sampleClassOf declaredClasses) state with
    | some u => ⟨{ declaredClasses := u.declaredClasses },u.classes⟩
    | none => ⟨{},∅⟩

def sampleRules : DeclareRules sampleVm where
  ofTx tx := tx
  declared_ofTx _ := rfl
  getCompiledClassHash (state : SortedMap Felt Felt) hash := (state.get hash).getD 0
  compiledClassHashes state := state
  stateClass _ _ := .ok none
  stateUpdate_classes state declaredClasses u h := by
    have hu : Service.ClassUpdates.ofDiff (sampleClassOf declaredClasses) state=some u := h
    have hs : sampleVm.stateUpdateFromCachedState state declaredClasses=
        ⟨{ declaredClasses := u.declaredClasses },u.classes⟩ := by
      show (match Service.ClassUpdates.ofDiff (sampleClassOf declaredClasses) state with
        | some u => _
        | none => _)=_
      rw [hu]
    rw [hs]
    exact ⟨rfl,rfl⟩
  Known (state : SortedMap Felt Felt) hash := state.get hash≠none
  execute_declare _ _ _ declare _ state' _ ht h := by
    have hget := sampleExecute_declare h ht
    exact ⟨hget ▸ Option.some_ne_none _,congrArg (Option.getD · 0) hget,fun _ => hget⟩
  execute_known _ _ _ state state' _ hash h hk := by
    obtain ⟨hget,hother⟩ := sampleExecute_known h hk
    exact ⟨fun hn => hk (hget.symm.trans hn),congrArg (Option.getD · 0) hget,hget,hother⟩
  execute_diff _ _ _ _ _ _ _ h hget := sampleExecute_diff h hget

structure AdmitsAll where

instance : Validator AdmitsAll (ExecutableTxWithHash sampleLibraries) where
  validate v tx := (some (.ok (.valid tx)),v)

def samplePool : Pool (ExecutableTxWithHash sampleLibraries) AdmitsAll FiFo Nat := ⟨[],{},{}⟩

def sampleRequest (abi : String) (compiledClassHash : Felt) : BroadcastedDeclareTx where
  senderAddress := 1
  compiledClassHash := compiledClassHash
  signature := []
  nonce := 0
  contractClass := ⟨[1,2],"0.1.0",{},abi⟩
  resourceBounds := ⟨.zero,.zero,.zero⟩
  tip := 0
  paymasterData := []
  accountDeploymentData := []
  nonceDataAvailabilityMode := .l1
  feeDataAvailabilityMode := .l1
  isQuery := false

def sampleExecutor : VmState sampleVm where
  blockContext := ()
  cachedState := (∅ : SortedMap Felt Felt)
  bouncer := ()

def sampleTx (abi : String) (parsed : Option Unit) (compiledClassHash : Felt) :
    ExecutableTxWithHash sampleLibraries :=
  let declare := (sampleRequest abi compiledClassHash).toDeclareTxV3 sampleLibraries (.id 7)
  ⟨DeclareTx.calculateHash sampleLibraries.toHashers false (.v3 declare),.declare (.v3 declare),
    some (.sierra ⟨[1,2],"0.1.0",{},parsed⟩)⟩

/-- The executor after the transaction and one that declares the same class again. -/
def sampleEnd (tx : ExecutableTxWithHash sampleLibraries) : VmState sampleVm :=
  sampleExecutor.executeAll () ([]++sampleRules.ofTx tx::[sampleRules.ofTx tx])

theorem declare_integrity_of_valid_request :
    Integrity sampleRules (sampleEnd (sampleTx "[]" (some ()) 4))
      ((sampleRequest "[]" 4).contractClass.classHash sampleLibraries) :=
  (declare_integrity_iff ⟨fun _ _ => rfl,fun _ => rfl,fun _ _ _ _ _ => rfl⟩ sampleRules (.id 7) (sampleRequest "[]" 4)
    samplePool _ _ () sampleExecutor [] [sampleTx "[]" (some ()) 4] (sampleTx "[]" (some ()) 4)
    ((),()) (fun _ _ _ => rfl) rfl rfl rfl rfl).mpr ⟨⟨some (),rfl,rfl⟩,rfl,by decide⟩

/-- Two requests are accepted and executed. The one has null for its ABI, and what is kept for
it has another class hash; the other one has a compiled class hash of its own. -/
theorem declare_without_integrity :
    ((addDeclareTransactionImpl (.id 7) (sampleRequest "null" 4) samplePool).1=
        some (.ok ((sampleTx "null" none 4).hash,
          (sampleRequest "null" 4).contractClass.classHash sampleLibraries)) ∧
      (sampleExecutor.executeTx () (sampleTx "null" none 4)).2=.ok (.success ((),())) ∧
      ¬Integrity sampleRules (sampleEnd (sampleTx "null" none 4))
        ((sampleRequest "null" 4).contractClass.classHash sampleLibraries)) ∧
    (addDeclareTransactionImpl (.id 7) (sampleRequest "[]" 9) samplePool).1=
        some (.ok ((sampleTx "[]" (some ()) 9).hash,
          (sampleRequest "[]" 9).contractClass.classHash sampleLibraries)) ∧
      (sampleExecutor.executeTx () (sampleTx "[]" (some ()) 9)).2=.ok (.success ((),())) ∧
      ¬Integrity sampleRules (sampleEnd (sampleTx "[]" (some ()) 9))
        ((sampleRequest "[]" 9).contractClass.classHash sampleLibraries) := by
  refine ⟨⟨rfl,rfl,?_⟩,rfl,rfl,?_⟩
  · rintro ⟨c,compiled,hc,hhash,-⟩
    obtain rfl : ContractClass.sierra ⟨[1,2],"0.1.0",{},none⟩=c :=
      Option.some.inj (Except.ok.inj hc)
    revert hhash
    decide +kernel
  · rintro ⟨c,compiled,hc,-,hcompile,hrecorded,-,-⟩
    obtain rfl : ContractClass.sierra ⟨[1,2],"0.1.0",{},some ()⟩=c :=
      Option.some.inj (Except.ok.inj hc)
    obtain rfl : CompiledClass.casm [1,2]=compiled := Except.ok.inj hcompile
    revert hrecorded
    decide +kernel

end Samples
end Katana.Rpc
