import Katana.Core.Atomic
import Katana.Executor.PendingState
import Katana.Service.Transact

/-! The environment of an executor (block_context_from_envs, fill_block_env_from_header and
block_env of executor/implementation/blockifier), and the headers that the two block producers
mine from it. -/
namespace Katana.Executor
open Service (BlockProductionError GasPriceVector StarknetVMProcessor Vm VmState)
variable {P : Payloads} {K : Backend P}

def NonzeroGasPrice.new (price : Nat) : Option Nat := if price=0 then none else some price

def NonzeroGasPrice.min : Nat := 1

/-- NonzeroGasPrice::new(price).unwrap_or(NonzeroGasPrice::MIN). -/
def nonzeroGasPrice (price : Nat) : Nat := (NonzeroGasPrice.new price).getD NonzeroGasPrice.min

structure GasPrices where
  ethGasPrices : GasPriceVector
  strkGasPrices : GasPriceVector
  deriving DecidableEq, Repr

def gasPriceVector (l1GasPrice l1DataGasPrice : Nat) : GasPriceVector where
  l1GasPrice := nonzeroGasPrice l1GasPrice
  l1DataGasPrice := nonzeroGasPrice l1DataGasPrice
  l2GasPrice := nonzeroGasPrice l1GasPrice

def gasPrices (l1GasPrices l1DataGasPrices : GasPrice) : GasPrices where
  ethGasPrices := gasPriceVector l1GasPrices.eth l1DataGasPrices.eth
  strkGasPrices := gasPriceVector l1GasPrices.strk l1DataGasPrices.strk

structure BlockInfo where
  blockNumber : Nat
  blockTimestamp : Nat
  sequencerAddress : Felt
  gasPrices : GasPrices
  useKzgDa : Bool
  deriving DecidableEq, Repr

structure FeeTokenAddresses where
  eth : Felt
  strk : Felt
  deriving DecidableEq, Repr

structure CfgEnv (ChainId : Type) where
  chainId : ChainId
  feeTokenAddresses : FeeTokenAddresses
  invokeTxMaxNSteps : Nat
  validateMaxNSteps : Nat
  maxRecursionDepth : Nat

structure ChainInfo (ChainId : Type) where
  feeTokenAddresses : FeeTokenAddresses
  chainId : ChainId

/-- The factory of executors: its configuration, and blockifier's block contexts, constants,
states and bouncers. -/
structure BlockifierFactory (V : Vm K) where
  ChainId : Type
  BlkChainId : Type
  VersionedConstants : Type
  BouncerConfig : Type
  cfg : CfgEnv ChainId
  flags : V.Flags
  cairoSteps : Nat
  blkChainId : ChainId → Option BlkChainId
  /-- The constants of Starknet 0.13.4 under the limits of the configuration. -/
  versionedConstants : Nat → Nat → Nat → VersionedConstants
  maxBouncerConfig : BouncerConfig
  defaultBouncerConfig : BouncerConfig
  newContext : BlockInfo → ChainInfo BlkChainId → VersionedConstants → BouncerConfig →
    V.BlockContext
  blockInfo : V.BlockContext → BlockInfo
  chainInfo : V.BlockContext → ChainInfo BlkChainId
  contextConstants : V.BlockContext → VersionedConstants
  /-- A block context has the block info it was created with. -/
  blockInfo_new : ∀ info chain constants config,
    blockInfo (newContext info chain constants config)=info
  newState : StateProvider P → V.CachedState
  newBouncer : Nat → VersionedConstants → V.Bouncer

abbrev Processor (V : Vm K) :=
  StarknetVMProcessor (VmState V) V.ExecutableTx (P.Receipt × K.Trace)

def defaultBlockEnv : BlockEnv := ⟨0,0,⟨1,1⟩,⟨1,1⟩,⟨1,1⟩,0⟩

namespace BlockifierFactory
variable {V : Vm K} (F : BlockifierFactory V) {ε : Type}

def toBlkChainId (chainId : F.ChainId) : CallM P ε F.BlkChainId :=
  match F.blkChainId chainId with
  | some id => return id
  | none => throw (.panic "valid cairo string")

def blockContextFromEnvs (blockEnv : BlockEnv) (cfg : CfgEnv F.ChainId) :
    CallM P ε V.BlockContext := do
  let eth ← toBlkAddress (ε := ε) cfg.feeTokenAddresses.eth
  let strk ← toBlkAddress (ε := ε) cfg.feeTokenAddresses.strk
  let sequencerAddress ← toBlkAddress (ε := ε) blockEnv.sequencerAddress
  let chainId ← F.toBlkChainId cfg.chainId
  let blockInfo := {
    blockNumber := blockEnv.number
    blockTimestamp := blockEnv.timestamp
    sequencerAddress := sequencerAddress
    gasPrices := gasPrices blockEnv.l1GasPrices blockEnv.l1DataGasPrices
    useKzgDa := false }
  return F.newContext blockInfo ⟨⟨eth,strk⟩,chainId⟩
    (F.versionedConstants cfg.maxRecursionDepth cfg.validateMaxNSteps cfg.invokeTxMaxNSteps)
    F.maxBouncerConfig

def fillBlockEnvFromHeader (header : PartialHeader) (context : V.BlockContext) :
    CallM P ε V.BlockContext := do
  let sequencerAddress ← toBlkAddress (ε := ε) header.sequencerAddress
  let blockInfo := {
    blockNumber := header.number
    blockTimestamp := header.timestamp
    sequencerAddress := sequencerAddress
    gasPrices := gasPrices header.l1GasPrices header.l1DataGasPrices
    useKzgDa := false }
  return F.newContext blockInfo (F.chainInfo context) (F.contextConstants context)
    F.defaultBouncerConfig

def withStateAndBlockEnv (state : StateProvider P) (blockEnv : BlockEnv) :
    CallM P ε (Processor V) := do
  let context ← F.blockContextFromEnvs blockEnv F.cfg
  return {
    state := {
      blockContext := context
      cachedState := F.newState state
      bouncer := F.newBouncer F.cairoSteps (F.contextConstants context) } }

def withState (state : StateProvider P) : CallM P ε (Processor V) :=
  F.withStateAndBlockEnv state defaultBlockEnv

def executeTransactions (x : Processor V) (txs : List V.ExecutableTx) : Processor V :=
  (StarknetVMProcessor.executeTransactions (V.blockifier F.flags) txs x).1

def executeBlock (header : PartialHeader) (body : List V.ExecutableTx) (x : Processor V) :
    CallM P BlockProductionError (Processor V) := do
  let context ← F.fillBlockEnvFromHeader header x.state.blockContext
  let x := { x with state := { x.state with blockContext := context } }
  match StarknetVMProcessor.executeTransactions (V.blockifier F.flags) body x with
  | (x,.ok _) => return x
  | (_,.error e) => throw (.err (.transactionExecutionError e))

def blockEnv (x : Processor V) : BlockEnv :=
  let info := F.blockInfo x.state.blockContext
  let eth := info.gasPrices.ethGasPrices
  let strk := info.gasPrices.strkGasPrices
  { l2GasPrices := ⟨eth.l2GasPrice,strk.l2GasPrice⟩
    l1GasPrices := ⟨eth.l1GasPrice,strk.l1GasPrice⟩
    l1DataGasPrices := ⟨eth.l1DataGasPrice,strk.l1DataGasPrice⟩
    number := info.blockNumber
    timestamp := info.blockTimestamp
    sequencerAddress := info.sequencerAddress }

def intervalDoMine (executor : Processor V) : CallM P BlockProductionError MinedBlockOutcome :=
  K.doMineBlock {} (F.blockEnv executor) (V.takeExecutionOutput executor).2

/-- InstantBlockProducer::do_mine, from the block environment on. -/
def instantDoMine (blockEnv : BlockEnv) (transactions : List (List V.ExecutableTx)) :
    CallM P BlockProductionError MinedBlockOutcome := do
  let parentHash ← mapErr .provider (fallible none latestHash)
  let latestState ← mapErr .provider (fallible none (fun db => .ok (StateProvider.latest db)))
  let executor ← F.withState latestState
  let executor ← F.executeBlock (Backend.partialHeader blockEnv parentHash) transactions.flatten
    executor
  let outcome ← K.doMineBlock {} blockEnv (V.takeExecutionOutput executor).2
  -- the validator of the pool
  let _ ← mapErr .provider (fallible none (fun db => .ok (StateProvider.latest db)))
  let latestNum ← mapErr .provider (fallible none latestNumber)
  match ← mapErr .provider (fallible none (fun db => blockEnvAt db (.num latestNum))) with
  | none => throw (.panic "latest")
  | some _ => return outcome

end BlockifierFactory

/-- What the executor makes of an environment. -/
def converted (env : BlockEnv) : BlockEnv :=
  let prices (p : GasPrice) : GasPrice := ⟨nonzeroGasPrice p.eth,nonzeroGasPrice p.strk⟩
  { env with
    l2GasPrices := prices env.l1GasPrices
    l1GasPrices := prices env.l1GasPrices
    l1DataGasPrices := prices env.l1DataGasPrices }

/-- A NonZeroU128 is never zero; the environments of the model may have it. -/
def NonZero (p : GasPrice) : Prop := p.eth≠0 ∧ p.strk≠0

instance (p : GasPrice) : Decidable (NonZero p) := inferInstanceAs (Decidable (_ ∧ _))

@[simp] theorem nonzeroGasPrice_eq_self {price : Nat} : nonzeroGasPrice price=price ↔ price≠0 := by
  unfold nonzeroGasPrice NonzeroGasPrice.new NonzeroGasPrice.min
  by_cases h : price=0
  · simp [h]
  · simp [h]

/-- An environment survives the conversions exactly if the L2 gas has the prices of the L1 gas. -/
theorem converted_eq_iff (env : BlockEnv) : converted env=env ↔
    env.l2GasPrices=env.l1GasPrices ∧ NonZero env.l1GasPrices ∧ NonZero env.l1DataGasPrices := by
  obtain ⟨number,timestamp,⟨eth,strk⟩,⟨eth₁,strk₁⟩,⟨eth₂,strk₂⟩,sequencer⟩ := env
  simp only [converted,NonZero,BlockEnv.mk.injEq,GasPrice.mk.injEq,nonzeroGasPrice_eq_self,true_and,
    and_true]
  constructor
  · rintro ⟨⟨h,h'⟩,hl1,hdata⟩
    rw [nonzeroGasPrice_eq_self.mpr hl1.1] at h
    rw [nonzeroGasPrice_eq_self.mpr hl1.2] at h'
    exact ⟨⟨h.symm,h'.symm⟩,hl1,hdata⟩
  · rintro ⟨⟨rfl,rfl⟩,hl1,hdata⟩
    exact ⟨⟨nonzeroGasPrice_eq_self.mpr hl1.1,nonzeroGasPrice_eq_self.mpr hl1.2⟩,hl1,hdata⟩

section Calls
open Backend (ReadsOnly fallible_readsOnly)
variable {ε α : Type}

theorem bind_of_readsOnly {β : Type} {m : CallM P ε α} {f : α → CallM P ε β} {db db' : Db P} {b : β}
    (hm : ReadsOnly m) (h : (m>>=f) db=.ok b db') : ∃ a, f a db=.ok b db' := by
  obtain ⟨a,db₁,ha,hf⟩ := bind_eq_ok h
  have hdb := hm db
  rw [ha] at hdb
  obtain rfl : db₁=db := hdb
  exact ⟨a,hf⟩

theorem toBlkAddress_readsOnly (address : Felt) :
    ReadsOnly (toBlkAddress (ε := ε) address : CallM P ε Felt) := by
  intro db
  unfold toBlkAddress
  by_cases h : address.val<patriciaKeyUpperBound
  · rw [if_pos h]
    rfl
  · rw [if_neg h]
    rfl

theorem toBlkAddress_eq_ok {address a : Felt} {db db' : Db P}
    (h : (toBlkAddress (ε := ε) address : CallM P ε Felt) db=.ok a db') : a=address := by
  unfold toBlkAddress at h
  by_cases ha : address.val<patriciaKeyUpperBound
  · rw [if_pos ha] at h
    cases h
    rfl
  · rw [if_neg ha] at h
    cases h

end Calls

namespace BlockifierFactory
open Backend (ReadsOnly fallible_readsOnly)
variable {V : Vm K} (F : BlockifierFactory V) {ε : Type}

section Created
variable {state : StateProvider P} {env : BlockEnv} {x : Processor V} {db db' : Db P}

theorem withStateAndBlockEnv_readsOnly (state : StateProvider P) (env : BlockEnv) :
    ReadsOnly (F.withStateAndBlockEnv state env : CallM P ε (Processor V)) := by
  refine ReadsOnly.bind ?_ (fun _ _ => rfl)
  refine (toBlkAddress_readsOnly _).bind (fun _ => (toBlkAddress_readsOnly _).bind (fun _ =>
    (toBlkAddress_readsOnly _).bind (fun _ => ReadsOnly.bind ?_ (fun _ _ => rfl))))
  intro db
  unfold toBlkChainId
  cases F.blkChainId F.cfg.chainId <;> rfl

theorem blockEnv_created
    (h : (F.withStateAndBlockEnv state env : CallM P ε (Processor V)) db=.ok x db') :
    F.blockEnv x=converted env := by
  obtain ⟨context,db₁,hc,hx⟩ := bind_eq_ok h
  obtain ⟨eth,hc⟩ := bind_of_readsOnly (toBlkAddress_readsOnly _) hc
  obtain ⟨strk,hc⟩ := bind_of_readsOnly (toBlkAddress_readsOnly _) hc
  obtain ⟨sequencer,db₂,hs,hc⟩ := bind_eq_ok hc
  obtain ⟨chainId,db₃,_,hc⟩ := bind_eq_ok hc
  cases hx
  cases hc
  obtain rfl := toBlkAddress_eq_ok hs
  simp only [blockEnv,F.blockInfo_new]
  rfl

end Created

section Executed

theorem executeTx_blockContext (flags : V.Flags) (s : VmState V) (tx : V.ExecutableTx) :
    (s.executeTx flags tx).1.blockContext=s.blockContext := by
  unfold VmState.executeTx
  rcases V.transact s.cachedState s.blockContext flags tx (some s.bouncer) with ⟨c,b,r⟩
  cases r with
  | error e => rfl
  | ok result =>
    cases result with
    | success out | failed e => rfl

theorem executeFrom_blockContext (flags : V.Flags) (total : Nat) (txs : List V.ExecutableTx)
    (x : Processor V) :
    (StarknetVMProcessor.executeFrom (V.blockifier flags) total txs x).1.state.blockContext=
      x.state.blockContext := by
  induction txs generalizing total x with
  | nil => rfl
  | cons tx txs ih =>
    have hstep := executeTx_blockContext flags x.state tx
    have ht : (V.blockifier flags).transact x.state tx=x.state.executeTx flags tx := rfl
    rcases hr : x.state.executeTx flags tx with ⟨s,r⟩
    rw [hr] at hstep ht
    cases r with
    | ok result =>
      simp only [StarknetVMProcessor.executeFrom,ht]
      exact (ih _ _).trans hstep
    | error e =>
      cases e with
      | limitsExhausted | other m =>
        simp only [StarknetVMProcessor.executeFrom,ht]
        exact hstep

theorem blockEnv_executed (x : Processor V) (batches : List (List V.ExecutableTx)) :
    F.blockEnv (batches.foldl F.executeTransactions x)=F.blockEnv x := by
  induction batches generalizing x with
  | nil => rfl
  | cons txs batches ih =>
    rw [List.foldl_cons,ih]
    unfold blockEnv
    rw [show (F.executeTransactions x txs).state.blockContext=x.state.blockContext from
      executeFrom_blockContext F.flags 0 txs x]

end Executed

section Mined
variable {blocks : List (BlockInput P)} {env : BlockEnv} {o : MinedBlockOutcome} {db : Db P}

theorem doMineBlock_blockEnv {output : ExecutionOutput K}
    (h : K.doMineBlock {} env output (K.chain blocks)=.ok o db) :
    blockEnvAt db (.num o.blockNumber)=.ok (some env) := by
  have hparent : ∃ parent, latestHash (K.chain blocks)=.ok parent := by
    obtain ⟨_,_,hproduce,_⟩ := bind_eq_ok h
    obtain ⟨parent,_,hhash,_⟩ := bind_eq_ok hproduce
    cases hl : latestHash (K.chain blocks) with
    | ok parent => exact ⟨parent,rfl⟩
    | error e =>
      simp only [mapErr,fallible,hl] at hhash
      cases hhash
  obtain ⟨parent,hp⟩ := hparent
  obtain ⟨b,outcome,hok,_,_,_,_,_,hn,henv⟩ := Backend.doMineBlock_ok K hp env output
  obtain ⟨rfl,rfl⟩ := EStateM.Result.ok.inj (hok.symm.trans h)
  rw [hn]
  have hget : (K.chain (blocks++[b])).get .headers b.number=
      some (VersionedHeader.ofHeader b.header) := by
    rw [(Backend.chain_tables K (blocks++[b])).2]
    simp
  rw [blockEnvAt_num hget,henv]

theorem executeBlock_readsOnly (header : PartialHeader) (body : List V.ExecutableTx)
    (x : Processor V) : ReadsOnly (F.executeBlock header body x) := by
  refine ReadsOnly.bind ((toBlkAddress_readsOnly _).bind (fun _ _ => rfl)) (fun context db => ?_)
  dsimp only
  rcases StarknetVMProcessor.executeTransactions (V.blockifier F.flags) body _ with ⟨y,r⟩
  cases r with
  | ok n | error e => rfl

theorem intervalDoMine_blockEnv {x : Processor V}
    (h : F.intervalDoMine x (K.chain blocks)=.ok o db) :
    blockEnvAt db (.num o.blockNumber)=.ok (some (F.blockEnv x)) := doMineBlock_blockEnv h

theorem instantDoMine_blockEnv {batches : List (List V.ExecutableTx)}
    (h : F.instantDoMine env batches (K.chain blocks)=.ok o db) :
    blockEnvAt db (.num o.blockNumber)=.ok (some env) := by
  have hread {α : Type} (g : Db P → Except ProviderError α) :
      ReadsOnly (mapErr BlockProductionError.provider (fallible none g)) :=
    (fallible_readsOnly none g).mapErr _
  obtain ⟨parent,h⟩ := bind_of_readsOnly (hread _) h
  obtain ⟨latest,h⟩ := bind_of_readsOnly (hread _) h
  obtain ⟨x,h⟩ := bind_of_readsOnly (F.withStateAndBlockEnv_readsOnly _ _) h
  obtain ⟨y,h⟩ := bind_of_readsOnly (F.executeBlock_readsOnly _ _ _) h
  obtain ⟨outcome,db₁,hmine,h⟩ := bind_eq_ok h
  obtain ⟨minedState,h⟩ := bind_of_readsOnly (hread _) h
  obtain ⟨num,h⟩ := bind_of_readsOnly (hread _) h
  obtain ⟨next,h⟩ := bind_of_readsOnly (hread _) h
  cases next with
  | none => cases h
  | some _ =>
    cases h
    exact doMineBlock_blockEnv hmine

end Mined

/-- Both producers mine the same environment exactly if the L2 gas has the prices of the L1 gas:
the interval producer takes it from its executor. -/
theorem mined_headers_agree_iff {state : StateProvider P} {env : BlockEnv} {x : Processor V}
    {db₀ db₁ db db' : Db P} {blocks : List (BlockInput P)} {o o' : MinedBlockOutcome}
    (hx : (F.withStateAndBlockEnv state env : CallM P ε (Processor V)) db₀=.ok x db₁)
    (batches : List (List V.ExecutableTx))
    (hinterval : F.intervalDoMine (batches.foldl F.executeTransactions x) (K.chain blocks)=.ok o db)
    (hinstant : F.instantDoMine env batches (K.chain blocks)=.ok o' db') :
    (F.blockEnv (batches.foldl F.executeTransactions x)=env ↔
      env.l2GasPrices=env.l1GasPrices ∧ NonZero env.l1GasPrices ∧ NonZero env.l1DataGasPrices) ∧
    (blockEnvAt db (.num o.blockNumber)=blockEnvAt db' (.num o'.blockNumber) ↔
      env.l2GasPrices=env.l1GasPrices ∧ NonZero env.l1GasPrices ∧ NonZero env.l1DataGasPrices) := by
  have henv : F.blockEnv (batches.foldl F.executeTransactions x)=converted env :=
    (F.blockEnv_executed x batches).trans (F.blockEnv_created hx)
  rw [F.intervalDoMine_blockEnv hinterval,F.instantDoMine_blockEnv hinstant,henv,
    ← converted_eq_iff env]
  simp

end BlockifierFactory

section Samples
open Backend (plainBackend slotSet nextEnv)

def contextVm : Vm plainBackend :=
  { Service.sampleVm with
    BlockContext := BlockInfo
    fillBlockEnvFromHeader := fun _ c => c
    execute := fun _ => Service.sampleVm.execute ()
    execute_failed := fun _ => Service.sampleVm.execute_failed ()
    getFeeByGasVector := fun _ => Service.sampleVm.getFeeByGasVector ()
    gasPrices := fun _ => Service.sampleVm.gasPrices ()
    tryUpdate := fun _ => Service.sampleVm.tryUpdate ()
    tryUpdate_failed := fun _ => Service.sampleVm.tryUpdate_failed () }

def contextFactory : BlockifierFactory contextVm where
  ChainId := Unit
  BlkChainId := Unit
  VersionedConstants := Unit
  BouncerConfig := Unit
  cfg := ⟨(),⟨0,0⟩,0,0,0⟩
  flags := ()
  cairoSteps := 0
  blkChainId := some
  versionedConstants _ _ _ := ()
  maxBouncerConfig := ()
  defaultBouncerConfig := ()
  newContext info _ _ _ := info
  blockInfo := id
  chainInfo _ := ⟨⟨0,0⟩,()⟩
  contextConstants _ := ()
  blockInfo_new _ _ _ _ := rfl
  newState _ := ([] : List Nat)
  newBouncer _ _ := (0 : Nat)

abbrev latestSlotSet : Db unitPayloads := plainBackend.chain [slotSet]

def executorFor (env : BlockEnv) : CallM unitPayloads BlockProductionError (Processor contextVm) :=
  contextFactory.withStateAndBlockEnv (.latest latestSlotSet) env

def oneBatch : List (List contextVm.ExecutableTx) := [[(3 : Nat)]]

theorem both_mine (env : BlockEnv) (hcreate : failed (executorFor env latestSlotSet)=false)
    (hmine : failed (contextFactory.instantDoMine env oneBatch latestSlotSet)=false) :
    ∃ x db₁ o db o' db', executorFor env latestSlotSet=.ok x db₁ ∧
      contextFactory.intervalDoMine (oneBatch.foldl contextFactory.executeTransactions x)
        latestSlotSet=.ok o db ∧
      contextFactory.instantDoMine env oneBatch latestSlotSet=.ok o' db' := by
  obtain ⟨x,hx⟩ := ok_of_not_failed hcreate
  have hinc : Increasing ([]++[slotSet]) := by simp [Increasing]
  obtain ⟨b,o,hinterval,-⟩ := Backend.doMineBlock_ok plainBackend (Backend.chain_latestHash hinc).2
    (contextFactory.blockEnv (oneBatch.foldl contextFactory.executeTransactions x))
    (contextVm.takeExecutionOutput (oneBatch.foldl contextFactory.executeTransactions x)).2
  obtain ⟨o',hinstant⟩ := ok_of_not_failed hmine
  exact ⟨x,_,o,_,o',_,hx,hinterval,hinstant⟩

theorem equal_prices_mined : ∃ x db₁ o db o' db',
    executorFor nextEnv latestSlotSet=.ok x db₁ ∧
    contextFactory.intervalDoMine (oneBatch.foldl contextFactory.executeTransactions x)
      latestSlotSet=.ok o db ∧
    contextFactory.instantDoMine nextEnv oneBatch latestSlotSet=.ok o' db' ∧
    blockEnvAt db (.num o.blockNumber)=blockEnvAt db' (.num o'.blockNumber) := by
  obtain ⟨x,db₁,o,db,o',db',hx,hinterval,hinstant⟩ :=
    both_mine nextEnv (by decide +kernel) (by decide +kernel)
  exact ⟨x,db₁,o,db,o',db',hx,hinterval,hinstant,
    (contextFactory.mined_headers_agree_iff hx oneBatch hinterval hinstant).2.mpr (by decide)⟩

def pricedEnv : BlockEnv := ⟨1,7,⟨1,1⟩,⟨5,5⟩,⟨2,2⟩,3⟩

/-- The interval producer mines an L2 gas price of 5, the instant producer one of 1. -/
theorem l2_price_by_mode : ∃ x db₁ o db o' db',
    executorFor pricedEnv latestSlotSet=.ok x db₁ ∧
    contextFactory.intervalDoMine (oneBatch.foldl contextFactory.executeTransactions x)
      latestSlotSet=.ok o db ∧
    contextFactory.instantDoMine pricedEnv oneBatch latestSlotSet=.ok o' db' ∧
    blockEnvAt db (.num o.blockNumber)=.ok (some ⟨1,7,⟨5,5⟩,⟨5,5⟩,⟨2,2⟩,3⟩) ∧
    blockEnvAt db' (.num o'.blockNumber)=.ok (some pricedEnv) := by
  obtain ⟨x,db₁,o,db,o',db',hx,hinterval,hinstant⟩ :=
    both_mine pricedEnv (by decide +kernel) (by decide +kernel)
  refine ⟨x,db₁,o,db,o',db',hx,hinterval,hinstant,?_,
    contextFactory.instantDoMine_blockEnv hinstant⟩
  have henv : contextFactory.blockEnv (oneBatch.foldl contextFactory.executeTransactions x)=
      converted pricedEnv :=
    (contextFactory.blockEnv_executed x oneBatch).trans (contextFactory.blockEnv_created hx)
  rw [contextFactory.intervalDoMine_blockEnv hinterval,henv]
  rfl

end Samples
end Katana.Executor
