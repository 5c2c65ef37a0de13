import Katana.Primitives

/-! The executor of a block (StarknetVMProcessor of executor/implementation/blockifier). The
execution of one transaction by blockifier, its bouncer included, is a parameter. -/
namespace Katana.Service

inductive ExecutorError where
  | limitsExhausted
  | other (message : String)
  deriving DecidableEq, Repr

inductive BlockProductionError where
  | provider (e : ProviderError)
  | executionTaskCancelled
  | transactionExecutionError (e : ExecutorError)
  deriving DecidableEq, Repr

/-- A successful result carries the receipt and the trace. -/
inductive ExecutionResult (Receipt : Type) where
  | success (receipt : Receipt)
  | failed (error : String)
  deriving DecidableEq, Repr

/-- The block context set from a header, and utils::transact. The state holds the cached
state, the block context and the bouncer. -/
structure Blockifier (State Header Tx Receipt : Type) where
  fillBlockEnvFromHeader : Header → State → State
  transact : State → Tx → State × Except ExecutorError (ExecutionResult Receipt)

structure StarknetVMProcessor (State Tx Receipt : Type) where
  state : State
  transactions : List (Tx × ExecutionResult Receipt) := []

section
variable {State Header Tx Receipt : Type} (B : Blockifier State Header Tx Receipt)

namespace StarknetVMProcessor

/-- The loop of execute_transactions. Exhausted limits end it without an error. -/
def executeFrom (totalExecuted : Nat) : List Tx → StarknetVMProcessor State Tx Receipt →
    StarknetVMProcessor State Tx Receipt × Except ExecutorError (Nat × Option ExecutorError)
  | [],x => (x,.ok (totalExecuted,none))
  | tx::txs,x =>
    match B.transact x.state tx with
    | (state,.ok result) =>
      executeFrom (totalExecuted+1) txs
        { state := state, transactions := x.transactions++[(tx,result)] }
    | (state,.error .limitsExhausted) =>
      ({ x with state := state },.ok (totalExecuted,some .limitsExhausted))
    | (state,.error (.other m)) => ({ x with state := state },.error (.other m))

def executeTransactions (txs : List Tx) (x : StarknetVMProcessor State Tx Receipt) :
    StarknetVMProcessor State Tx Receipt × Except ExecutorError (Nat × Option ExecutorError) :=
  executeFrom B 0 txs x

/-- What execute_transactions says about exhausted limits is dropped here. -/
def executeBlock (header : Header) (body : List Tx) (x : StarknetVMProcessor State Tx Receipt) :
    StarknetVMProcessor State Tx Receipt × Except ExecutorError Unit :=
  match executeTransactions B body { x with state := B.fillBlockEnvFromHeader header x.state } with
  | (x,.ok _) => (x,.ok ())
  | (x,.error e) => (x,.error e)

def takeExecutionOutput (x : StarknetVMProcessor State Tx Receipt) :
    StarknetVMProcessor State Tx Receipt × List (Tx × ExecutionResult Receipt) :=
  ({ x with transactions := [] },x.transactions)

end StarknetVMProcessor

/-- How an execute_transactions ends: after all transactions, with a full block, with an
error or with a panic, the last three after some of the transactions. -/
inductive ExecuteOutcome where
  | all
  | full (executed : Nat)
  | error (executed : Nat)
  | panic (executed : Nat)
  deriving DecidableEq, Repr

namespace ExecuteOutcome

def executed (txs : List Tx) : ExecuteOutcome → List Tx
  | .all => txs
  | .full n | .error n | .panic n => txs.take n

/-- An outcome other than the first is about a transaction of the list. -/
def Possible (txs : List Tx) : ExecuteOutcome → Prop
  | .all => True
  | .full n | .error n => n<txs.length
  | .panic n => n≤txs.length

def Ends : ExecuteOutcome → Prop
  | .all | .full _ => True
  | .error _ | .panic _ => False

/-- The outcome with one more transaction executed before. -/
def next : ExecuteOutcome → ExecuteOutcome
  | .all => .all
  | .full n => .full (n+1)
  | .error n => .error (n+1)
  | .panic n => .panic (n+1)

theorem executed_next (tx : Tx) (txs : List Tx) (outcome : ExecuteOutcome) :
    outcome.next.executed (tx::txs)=tx::outcome.executed txs := by
  cases outcome <;> rfl

theorem take_append_drop_length (txs : List Tx) (n : Nat) :
    txs.take n++txs.drop (txs.take n).length=txs := by
  rw [List.length_take]
  by_cases h : n≤txs.length
  · rw [Nat.min_eq_left h,List.take_append_drop]
  · have hn : txs.length≤n := by omega
    rw [Nat.min_eq_right hn,List.take_of_length_le hn,List.drop_length,List.append_nil]

theorem executed_append_drop (txs : List Tx) (outcome : ExecuteOutcome) :
    outcome.executed txs++txs.drop (outcome.executed txs).length=txs := by
  cases outcome with
  | all => simp [executed]
  | _ => exact take_append_drop_length txs _

theorem possible_next {tx : Tx} {txs : List Tx} {outcome : ExecuteOutcome}
    (h : outcome.Possible txs) : outcome.next.Possible (tx::txs) := by
  cases outcome with
  | all => exact h
  | _ => exact Nat.succ_le_succ h

/-- What execute_transactions returns, after some transactions that were executed before. -/
def Returns (before length : Nat) (r : Except ExecutorError (Nat × Option ExecutorError)) :
    ExecuteOutcome → Prop
  | .all => r=.ok (before+length,none)
  | .full n => r=.ok (before+n,some .limitsExhausted)
  | .error _ => ∃ m, r=.error (.other m)
  | .panic _ => False

theorem returns_next {before length : Nat}
    {r : Except ExecutorError (Nat × Option ExecutorError)} {outcome : ExecuteOutcome}
    (h : outcome.Returns (before+1) length r) : outcome.next.Returns before (length+1) r := by
  cases outcome with
  | all | full n => exact h.trans (by rw [Nat.add_right_comm,Nat.add_assoc])
  | error n | panic n => exact h

end ExecuteOutcome

def Blockifier.outcome : State → List Tx → ExecuteOutcome
  | _,[] => .all
  | state,tx::txs =>
    match B.transact state tx with
    | (state,.ok _) => (Blockifier.outcome state txs).next
    | (_,.error .limitsExhausted) => .full 0
    | (_,.error (.other _)) => .error 0

theorem Blockifier.outcome_possible (state : State) (txs : List Tx) :
    (B.outcome state txs).Possible txs := by
  induction txs generalizing state with
  | nil => trivial
  | cons tx txs ih =>
    unfold Blockifier.outcome
    split
    · exact ExecuteOutcome.possible_next (ih _)
    · exact Nat.succ_pos _
    · exact Nat.succ_pos _

namespace StarknetVMProcessor
variable {B} (total : Nat) (txs : List Tx) (header : Header) (body : List Tx)
  (x : StarknetVMProcessor State Tx Receipt)

theorem executeFrom_spec :
    (executeFrom B total txs x).1.transactions.map Prod.fst=
        x.transactions.map Prod.fst++(B.outcome x.state txs).executed txs ∧
      (B.outcome x.state txs).Returns total txs.length (executeFrom B total txs x).2 := by
  induction txs generalizing total x with
  | nil => simp [executeFrom,Blockifier.outcome,ExecuteOutcome.executed,ExecuteOutcome.Returns]
  | cons tx txs ih =>
    unfold executeFrom Blockifier.outcome
    split
    · obtain ⟨hx,hr⟩ := ih (total+1) _
      refine ⟨?_,ExecuteOutcome.returns_next hr⟩
      rw [hx,ExecuteOutcome.executed_next]
      simp
    · simp [ExecuteOutcome.executed,ExecuteOutcome.Returns]
    · simp [ExecuteOutcome.executed,ExecuteOutcome.Returns]

theorem executeTransactions_spec :
    (executeTransactions B txs x).1.transactions.map Prod.fst=
        x.transactions.map Prod.fst++(B.outcome x.state txs).executed txs ∧
      (B.outcome x.state txs).Returns 0 txs.length (executeTransactions B txs x).2 :=
  executeFrom_spec 0 txs x

theorem executeBlock_eq :
    let r := executeTransactions B body { x with state := B.fillBlockEnvFromHeader header x.state }
    executeBlock B header body x=(r.1,r.2.map fun _ => ()) := by
  simp only [executeBlock]
  split
  · rename_i h
    rw [h]
    rfl
  · rename_i h
    rw [h]
    rfl

theorem executeBlock_transactions :
    (executeBlock B header body x).1.transactions.map Prod.fst=x.transactions.map Prod.fst++
      (B.outcome (B.fillBlockEnvFromHeader header x.state) body).executed body := by
  rw [executeBlock_eq]
  exact (executeTransactions_spec body _).1

variable {header body x}

theorem executeBlock_ok
    (h : (B.outcome (B.fillBlockEnvFromHeader header x.state) body).Ends) :
    (executeBlock B header body x).2=.ok () := by
  have hr := (executeTransactions_spec (B := B) body
    { x with state := B.fillBlockEnvFromHeader header x.state }).2
  rw [executeBlock_eq]
  cases ho : B.outcome (B.fillBlockEnvFromHeader header x.state) body with
  | all | full n =>
    rw [ho] at hr
    exact congrArg (Except.map fun _ => ()) hr
  | error n | panic n =>
    rw [ho] at h
    exact h.elim

theorem executeBlock_error
    (h : ¬(B.outcome (B.fillBlockEnvFromHeader header x.state) body).Ends) :
    ∃ e, (executeBlock B header body x).2=.error e := by
  have hr := (executeTransactions_spec (B := B) body
    { x with state := B.fillBlockEnvFromHeader header x.state }).2
  rw [executeBlock_eq]
  cases ho : B.outcome (B.fillBlockEnvFromHeader header x.state) body with
  | error n =>
    rw [ho] at hr
    obtain ⟨m,hm⟩ := hr
    exact ⟨_,congrArg (Except.map fun _ => ()) hm⟩
  | panic n =>
    rw [ho] at hr
    exact hr.elim
  | _ =>
    rw [ho] at h
    exact absurd trivial h

end StarknetVMProcessor
end
end Katana.Service
