import Katana.Core.StateRoot
import Katana.Service.Interval

/-! One transaction in the executor of a block: utils::transact and the body of the loop of
execute_transactions (executor/implementation/blockifier). blockifier itself is a parameter. -/
namespace Katana.Service
variable {P : Payloads}

inductive FeeType where
  | eth
  | strk
  deriving DecidableEq, Repr

inductive PriceUnit where
  | wei
  | fri
  deriving DecidableEq, Repr

structure GasPriceVector where
  l1GasPrice : Nat
  l2GasPrice : Nat
  l1DataGasPrice : Nat
  deriving DecidableEq, Repr

structure FeeInfo where
  unit : PriceUnit
  overallFee : Nat
  l1GasPrice : Nat
  l2GasPrice : Nat
  l1DataGasPrice : Nat
  deriving DecidableEq, Repr

inductive TransactionExecutorError where
  | blockFull
  | stateError (message : String)
  | compressionError (message : String)
  | transactionExecutionError (message : String)
  deriving DecidableEq, Repr

def TransactionExecutorError.toExecutorError : TransactionExecutorError → ExecutorError
  | .blockFull => .limitsExhausted
  | .stateError e => .other e
  | .compressionError e => .other e
  | .transactionExecutionError e => .other e

/-- blockifier, with what the executor reads of transactions and of execution infos. A
transactional state is the state it was created from until it is committed. -/
structure Vm (K : Backend P) where
  BlockContext : Type
  CachedState : Type
  Bouncer : Type
  ExecutableTx : Type
  Transaction : Type
  Flags : Type
  txWithHash : ExecutableTx → TxWithHash P
  declared : ExecutableTx → Option (Felt × P.ContractClass)
  toExecutorTx : ExecutableTx → Flags → Transaction
  fillBlockEnvFromHeader : Katana.PartialHeader → BlockContext → BlockContext
  execute : BlockContext → Transaction → CachedState → CachedState × Except String K.Trace
  /-- An execution that fails does not modify the given state. -/
  execute_failed : ∀ context tx state e, (execute context tx state).2=.error e →
    (execute context tx state).1=state
  feeType : Transaction → FeeType
  isAccountV3 : Transaction → Bool
  tip : Transaction → Nat
  fee : K.Trace → Nat
  getFeeByGasVector : BlockContext → K.Trace → FeeType → Nat → Nat
  gasPrices : BlockContext → FeeType → GasPriceVector
  tryUpdate : BlockContext → CachedState → K.Trace → Bouncer →
    Bouncer × Except TransactionExecutorError Unit
  tryUpdate_failed : ∀ context state info bouncer e,
    (tryUpdate context state info bouncer).2=.error e →
    (tryUpdate context state info bouncer).1=bouncer
  buildReceipt : ExecutableTx → FeeInfo → K.Trace → P.Receipt
  l1Gas : P.Receipt → Nat
  nSteps : P.Receipt → Nat
  stateUpdateFromCachedState : CachedState → SortedMap Felt P.ContractClass →
    StateUpdatesWithClasses P

namespace Vm
variable {K : Backend P} (V : Vm K) (context : V.BlockContext)

/-- A transaction without a fee still gets one calculated. -/
def overallFee (tx : V.Transaction) (info : K.Trace) : Nat :=
  if V.fee info=0 then
    V.getFeeByGasVector context info (V.feeType tx) (if V.isAccountV3 tx then V.tip tx else 0)
  else V.fee info

def feeInfo (tx : V.Transaction) (info : K.Trace) : FeeInfo where
  unit := match V.feeType tx with
    | .eth => .wei
    | .strk => .fri
  overallFee := V.overallFee context tx info
  l1GasPrice := (V.gasPrices context (V.feeType tx)).l1GasPrice
  l2GasPrice := (V.gasPrices context (V.feeType tx)).l2GasPrice
  l1DataGasPrice := (V.gasPrices context (V.feeType tx)).l1DataGasPrice

def updateBouncer (txState : V.CachedState) (info : K.Trace) :
    Option V.Bouncer → Option V.Bouncer × Except TransactionExecutorError Unit
  | none => (none,.ok ())
  | some bouncer => (V.tryUpdate context txState info bouncer).map some id

/-- The transactional state is committed after a success that the bouncer admits and after a
failure, and dropped when the bouncer refuses. -/
def transact (state : V.CachedState) (context : V.BlockContext) (flags : V.Flags)
    (tx : V.ExecutableTx) (bouncer : Option V.Bouncer) :
    V.CachedState × Option V.Bouncer ×
      Except ExecutorError (ExecutionResult (P.Receipt × K.Trace)) :=
  let transaction := V.toExecutorTx tx flags
  match V.execute context transaction state with
  | (txState,.ok info) =>
    match V.updateBouncer context txState info bouncer with
    | (bouncer,.ok ()) =>
      (txState,bouncer,
        .ok (.success (V.buildReceipt tx (V.feeInfo context transaction info) info,info)))
    | (bouncer,.error e) => (state,bouncer,.error e.toExecutorError)
  | (txState,.error e) => (txState,bouncer,.ok (.failed e))

end Vm

/-- The fields of the processor besides its transactions. -/
structure VmState {K : Backend P} (V : Vm K) where
  blockContext : V.BlockContext
  cachedState : V.CachedState
  declaredClasses : SortedMap Felt P.ContractClass := ∅
  stats : ExecutionStats := {}
  bouncer : V.Bouncer

namespace VmState
variable {K : Backend P} {V : Vm K}

/-- The statistics and the class of a transaction that succeeded. -/
def record (tx : V.ExecutableTx) (receipt : P.Receipt) (s : VmState V) : VmState V :=
  { s with
    stats :=
      { l1GasUsed := s.stats.l1GasUsed+V.l1Gas receipt
        cairoStepsUsed := s.stats.cairoStepsUsed+V.nSteps receipt }
    declaredClasses :=
      match V.declared tx with
      | some (classHash,c) => s.declaredClasses.put classHash c
      | none => s.declaredClasses }

/-- The body of the loop, up to the push of the result. -/
def executeTx (flags : V.Flags) (s : VmState V) (tx : V.ExecutableTx) :
    VmState V × Except ExecutorError (ExecutionResult (P.Receipt × K.Trace)) :=
  let (cachedState,bouncer,result) :=
    V.transact s.cachedState s.blockContext flags tx (some s.bouncer)
  let s := { s with cachedState := cachedState, bouncer := bouncer.getD s.bouncer }
  match result with
  | .ok (.success (receipt,trace)) => (s.record tx receipt,.ok (.success (receipt,trace)))
  | .ok (.failed e) => (s,.ok (.failed e))
  | .error e => (s,.error e)

end VmState

def Vm.blockifier {K : Backend P} (V : Vm K) (flags : V.Flags) :
    Blockifier (VmState V) Katana.PartialHeader V.ExecutableTx (P.Receipt × K.Trace) where
  fillBlockEnvFromHeader header s :=
    { s with blockContext := V.fillBlockEnvFromHeader header s.blockContext }
  transact := VmState.executeTx flags

/-- take_execution_output; the statistics are taken along. -/
def Vm.takeExecutionOutput {K : Backend P} (V : Vm K)
    (x : StarknetVMProcessor (VmState V) V.ExecutableTx (P.Receipt × K.Trace)) :
    StarknetVMProcessor (VmState V) V.ExecutableTx (P.Receipt × K.Trace) × Katana.ExecutionOutput K :=
  ({ state := { x.state with stats := {} }, transactions := [] },
    { stats := x.state.stats
      states := V.stateUpdateFromCachedState x.state.cachedState x.state.declaredClasses
      transactions := x.transactions.map (fun r => (V.txWithHash r.1,r.2)) })

section NoTrace
variable {K : Backend P} {V : Vm K} {flags : V.Flags} {s : VmState V} {tx : V.ExecutableTx}

theorem transact_cases (state : V.CachedState) (context : V.BlockContext) (flags : V.Flags)
    (tx : V.ExecutableTx) (bouncer : V.Bouncer) :
    (∃ txState used result, V.transact state context flags tx (some bouncer)=
      (txState,some used,.ok (.success result))) ∨
    (∃ e, V.transact state context flags tx (some bouncer)=
      (state,some bouncer,.ok (.failed e))) ∨
    ∃ e, V.transact state context flags tx (some bouncer)=(state,some bouncer,.error e) := by
  rcases hx : V.execute context (V.toExecutorTx tx flags) state with ⟨txState,r⟩
  cases r with
  | error e =>
    have hs := V.execute_failed context (V.toExecutorTx tx flags) state e (by rw [hx])
    rw [hx] at hs
    obtain rfl : txState=state := hs
    exact Or.inr (Or.inl ⟨e,by simp only [Vm.transact,hx]⟩)
  | ok info =>
    rcases hb : V.tryUpdate context txState info bouncer with ⟨used,u⟩
    cases u with
    | ok _ =>
      exact Or.inl ⟨txState,used,
        (V.buildReceipt tx (V.feeInfo context (V.toExecutorTx tx flags) info) info,info),
        by simp only [Vm.transact,hx,Vm.updateBouncer,hb,Prod.map,id]⟩
    | error e =>
      have hs := V.tryUpdate_failed context txState info bouncer e (by rw [hb])
      rw [hb] at hs
      obtain rfl : used=bouncer := hs
      exact Or.inr (Or.inr ⟨e.toExecutorError,
        by simp only [Vm.transact,hx,Vm.updateBouncer,hb,Prod.map,id]⟩)

theorem executeTx_cases (flags : V.Flags) (s : VmState V) (tx : V.ExecutableTx) :
    (∃ result, (s.executeTx flags tx).2=.ok (.success result)) ∨ (s.executeTx flags tx).1=s := by
  obtain ⟨txState,used,result,h⟩ | ⟨e,h⟩ | ⟨e,h⟩ :=
    transact_cases s.cachedState s.blockContext flags tx s.bouncer
  · exact Or.inl ⟨result,by simp only [VmState.executeTx,h]⟩
  · exact Or.inr (by simp [VmState.executeTx,h])
  · exact Or.inr (by simp [VmState.executeTx,h])

theorem executeTx_unchanged (h : ∀ result, (s.executeTx flags tx).2≠.ok (.success result)) :
    (s.executeTx flags tx).1=s := by
  obtain ⟨result,hr⟩ | hs := executeTx_cases flags s tx
  · exact absurd hr (h result)
  · exact hs

end NoTrace

namespace StarknetVMProcessor
variable {State Header Tx Receipt : Type} {B : Blockifier State Header Tx Receipt}

theorem executeFrom_prefix
    (hfull : ∀ s tx, (B.transact s tx).2=.error .limitsExhausted → (B.transact s tx).1=s)
    (total : Nat) (txs : List Tx) (x : StarknetVMProcessor State Tx Receipt) {n : Nat}
    {r : Option ExecutorError} (h : (executeFrom B total txs x).2=.ok (n,r)) :
    ∃ k≤txs.length, n=total+k ∧
      executeFrom B total (txs.take k) x=((executeFrom B total txs x).1,.ok (n,none)) ∧
      (r=none → k=txs.length) ∧
      ∃ results, results.length=k ∧
        (executeFrom B total txs x).1.transactions=x.transactions++(txs.take k).zip results := by
  induction txs generalizing total x with
  | nil =>
    obtain ⟨rfl,rfl⟩ := Prod.mk.inj (Except.ok.inj h)
    exact ⟨0,le_rfl,rfl,rfl,fun _ => rfl,[],rfl,by simp [executeFrom]⟩
  | cons tx txs ih =>
    rcases ht : B.transact x.state tx with ⟨state,result⟩
    cases result with
    | ok result =>
      simp only [executeFrom,ht] at h ⊢
      obtain ⟨k,hk,rfl,hstart,hall,results,hlen,happ⟩ := ih (total+1) _ h
      refine ⟨k+1,Nat.succ_le_succ hk,by omega,?_,fun hr => by rw [hall hr]; rfl,
        result::results,by simp [hlen],?_⟩
      · simp only [List.take_succ_cons,executeFrom,ht]
        exact hstart
      · rw [happ]
        simp
    | error e =>
      cases e with
      | other m => simp [executeFrom,ht] at h
      | limitsExhausted =>
        have hs := hfull x.state tx (by rw [ht])
        rw [ht] at hs
        simp only [executeFrom,ht] at h ⊢
        obtain ⟨rfl,rfl⟩ := Prod.mk.inj (Except.ok.inj h)
        obtain rfl : state=x.state := hs
        exact ⟨0,Nat.zero_le _,rfl,rfl,(by simp),[],rfl,by simp⟩

end StarknetVMProcessor

section PrefixLaw
open StarknetVMProcessor
variable {K : Backend P}

/-- The executor after the executed prefix alone is the executor after the call: state,
recorded transactions, statistics and bouncer. The leftovers are the rest of the list. -/
theorem execute_transactions_prefix (V : Vm K) (flags : V.Flags) (txs : List V.ExecutableTx)
    (x : StarknetVMProcessor (VmState V) V.ExecutableTx (P.Receipt × K.Trace)) {n : Nat}
    {r : Option ExecutorError} (h : (executeTransactions (V.blockifier flags) txs x).2=.ok (n,r)) :
    (n≤txs.length ∧
      executeTransactions (V.blockifier flags) (txs.take n) x=
        ((executeTransactions (V.blockifier flags) txs x).1,.ok (n,none)) ∧
      (r=none → n=txs.length)) ∧
    (∃ results, results.length=n ∧
      (executeTransactions (V.blockifier flags) txs x).1.transactions=
        x.transactions++(txs.take n).zip results) ∧
    (∃ new, (IntervalBlockProducer.executeTransactions (V.blockifier flags) txs x).2=
      .ok (new,if r.isSome then some (txs.drop n) else none)) ∧
    ∀ (s : VmState V) tx, (∀ result, (s.executeTx flags tx).2≠.ok (.success result)) →
      (s.executeTx flags tx).1=s := by
  have hfull : ∀ s tx, ((V.blockifier flags).transact s tx).2=.error .limitsExhausted →
      ((V.blockifier flags).transact s tx).1=s := by
    intro s tx he
    refine executeTx_unchanged (fun result hr => ?_)
    cases he.symm.trans hr
  obtain ⟨k,hk,hn,hstart,hall,results,hlen,happ⟩ := executeFrom_prefix hfull 0 txs x h
  obtain rfl : n=k := by omega
  refine ⟨⟨hk,hstart,hall⟩,⟨results,hlen,happ⟩,?_,fun s tx => executeTx_unchanged⟩
  rcases hx : executeTransactions (V.blockifier flags) txs x with ⟨y,result⟩
  rw [hx] at h
  obtain rfl : result=.ok (n,r) := h
  exact ⟨newResults n y,by rw [IntervalBlockProducer.executeTransactions,hx]⟩

end PrefixLaw

/-- Transactions are numbers, zero fails, and the numbers of a block add up to ten at most. -/
def sampleVm : Vm Backend.plainBackend where
  BlockContext := Unit
  CachedState := List Nat
  Bouncer := Nat
  ExecutableTx := Nat
  Transaction := Nat
  Flags := Unit
  txWithHash n := ⟨Felt.ofNat n,()⟩
  declared _ := none
  toExecutorTx n _ := n
  fillBlockEnvFromHeader _ c := c
  execute _ n state := if n=0 then (state,.error "reverted") else (state++[n],.ok ())
  execute_failed := by
    intro context tx state e h
    by_cases hn : tx=0
    · simp [hn]
    · simp [hn] at h
  feeType _ := .strk
  isAccountV3 _ := true
  tip _ := 0
  fee _ := 1
  getFeeByGasVector _ _ _ _ := 1
  gasPrices _ _ := ⟨1,1,1⟩
  tryUpdate _ state _ used := if state.sum≤10 then (state.sum,.ok ()) else (used,.error .blockFull)
  tryUpdate_failed := by
    intro context state info used e h
    by_cases hs : state.sum≤10
    · simp [hs] at h
    · simp [hs]
  buildReceipt _ _ _ := ()
  l1Gas _ := 1
  nSteps _ := 1
  stateUpdateFromCachedState _ _ := ⟨{},∅⟩

def sampleExecutor : StarknetVMProcessor (VmState sampleVm) Nat (Unit × Unit) where
  state := { blockContext := (), cachedState := ([] : List Nat), bouncer := (0 : Nat) }

def fiveTransactions : List Nat := [3,0,4,9,1]

/-- The fourth transaction does not fit: the second one failed, the last two are left. -/
theorem execute_three_of_five :
    StarknetVMProcessor.executeTransactions (sampleVm.blockifier ()) (fiveTransactions.take 3)
        sampleExecutor=
      ((StarknetVMProcessor.executeTransactions (sampleVm.blockifier ()) fiveTransactions
        sampleExecutor).1,.ok (3,none)) ∧
    ∃ new, (IntervalBlockProducer.executeTransactions (sampleVm.blockifier ()) fiveTransactions
      sampleExecutor).2=.ok (new,some (fiveTransactions.drop 3)) := by
  obtain ⟨hstart,-,hleft,-⟩ := execute_transactions_prefix sampleVm () fiveTransactions
    sampleExecutor (n := 3) (r := some .limitsExhausted) rfl
  exact ⟨hstart.2.1,hleft⟩

end Katana.Service
