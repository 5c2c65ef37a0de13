import Katana.Primitives

/-! The stateful validator of the transaction pool (validation/stateful.rs, validation/error.rs,
tx.rs of the pool crate). The checks of blockifier are a parameter. -/
namespace Katana.TransactionPool

inductive InvokeTx where
  | v0 (contractAddress : Felt)
  | v1 (nonce senderAddress : Felt)
  | v3 (nonce senderAddress : Felt)
  deriving DecidableEq, Repr

inductive DeclareTx where
  | v0 (senderAddress classHash : Felt)
  | v1 (nonce senderAddress classHash : Felt)
  | v2 (nonce senderAddress classHash : Felt)
  | v3 (nonce senderAddress classHash : Felt)
  deriving DecidableEq, Repr

def DeclareTx.classHash : DeclareTx → Felt
  | .v0 _ h | .v1 _ _ h | .v2 _ _ h | .v3 _ _ h => h

inductive DeployAccountTx where
  | v1 (nonce contractAddress : Felt)
  | v3 (nonce contractAddress : Felt)
  deriving DecidableEq, Repr

structure L1HandlerTx where
  nonce : Felt
  contractAddress : Felt
  deriving DecidableEq, Repr

inductive ExecutableTx where
  | invoke (tx : InvokeTx)
  | l1Handler (tx : L1HandlerTx)
  | declare (tx : DeclareTx)
  | deployAccount (tx : DeployAccountTx)
  deriving DecidableEq, Repr

/-- Content stands for the fields that only the virtual machine reads. -/
structure ExecutableTxWithHash (Content : Type) where
  transaction : ExecutableTx
  hash : Felt
  content : Content
  deriving DecidableEq, Repr

/-- Version 0 transactions are not supported: the code panics. -/
def ExecutableTx.nonce : ExecutableTx → Option Felt
  | .invoke (.v0 _) => none
  | .invoke (.v1 nonce _) | .invoke (.v3 nonce _) => some nonce
  | .l1Handler tx => some tx.nonce
  | .declare (.v0 _ _) => none
  | .declare (.v1 nonce _ _) | .declare (.v2 nonce _ _) | .declare (.v3 nonce _ _) => some nonce
  | .deployAccount (.v1 nonce _) | .deployAccount (.v3 nonce _) => some nonce

def ExecutableTx.sender : ExecutableTx → Felt
  | .invoke (.v0 address) | .invoke (.v1 _ address) | .invoke (.v3 _ address) => address
  | .l1Handler tx => tx.contractAddress
  | .declare (.v0 address _) | .declare (.v1 _ address _) | .declare (.v2 _ address _)
  | .declare (.v3 _ address _) => address
  | .deployAccount (.v1 _ address) | .deployAccount (.v3 _ address) => address

def ExecutableTx.isL1Handler : ExecutableTx → Bool
  | .l1Handler _ => true
  | _ => false

inductive Resource where
  | l1Gas
  | l1DataGas
  | l2Gas
  deriving DecidableEq, Repr

/-! The errors of blockifier, as far as they are told apart. -/

inductive TransactionFeeError where
  | gasBoundsExceedBalance (resource : Resource) (maxAmount maxPrice balance : Nat)
  | resourcesBoundsExceedBalance (message : String)
  | maxFeeExceedsBalance (maxFee balance : Nat)
  | maxFeeTooLow (minFee maxFee : Nat)
  | insufficientResourceBounds (errors : List String)
  | other (message : String)
  deriving DecidableEq, Repr

inductive TransactionPreValidationError where
  | transactionFeeError (e : TransactionFeeError)
  | stateError (message : String)
  | invalidNonce (address accountNonce incomingTxNonce : Felt)
  deriving DecidableEq, Repr

inductive TransactionExecutionError where
  | validateTransactionError (storageAddress classHash : Felt) (message : String)
  | panicInValidate (panicReason : String)
  | transactionFeeError (e : TransactionFeeError)
  | transactionPreValidationError (e : TransactionPreValidationError)
  | other (message : String)
  deriving DecidableEq, Repr

inductive TransactionExecutorError where
  | transactionExecutionError (e : TransactionExecutionError)
  | other (message : String)
  deriving DecidableEq, Repr

inductive StatefulValidatorError where
  | stateError (message : String)
  | transactionExecutorError (e : TransactionExecutorError)
  | transactionExecutionError (e : TransactionExecutionError)
  | transactionPreValidationError (e : TransactionPreValidationError)
  deriving DecidableEq, Repr

inductive InsufficientFundsError where
  | maxFeeExceedsFunds (maxFee : Nat) (balance : Felt)
  | l1GasBoundsExceedFunds (resource : Resource) (maxAmount maxPrice : Nat) (balance : Felt)
  | resourceBoundsExceedFunds (error : String)
  deriving DecidableEq, Repr

inductive InsufficientIntrinsicFeeError where
  | insufficientMaxFee (min maxFee : Nat)
  | insufficientResourceBounds (error : String)
  deriving DecidableEq, Repr

inductive InvalidTransactionError where
  | insufficientFunds (e : InsufficientFundsError)
  | insufficientIntrinsicFee (e : InsufficientIntrinsicFeeError)
  | validationFailure (address classHash : Felt) (error : String)
  | nonAccount (address : Felt)
  | invalidNonce (address currentNonce txNonce : Felt)
  | classAlreadyDeclared (classHash : Felt)
  deriving DecidableEq, Repr

/-- The boxed errors that are passed on. -/
inductive InternalError where
  | provider (e : ProviderError)
  | state (message : String)
  | fee (e : TransactionFeeError)
  | executor (e : TransactionExecutorError)
  | execution (e : TransactionExecutionError)
  deriving DecidableEq, Repr

def mapFeeErr : TransactionFeeError → Except InternalError InvalidTransactionError
  | .gasBoundsExceedBalance resource maxAmount maxPrice balance =>
    .ok (.insufficientFunds
      (.l1GasBoundsExceedFunds resource maxAmount maxPrice (Fin.ofNat feltPrime balance)))
  | .resourcesBoundsExceedBalance message =>
    .ok (.insufficientFunds (.resourceBoundsExceedFunds message))
  | .maxFeeExceedsBalance maxFee balance =>
    .ok (.insufficientFunds (.maxFeeExceedsFunds maxFee (Fin.ofNat feltPrime balance)))
  | .maxFeeTooLow minFee maxFee =>
    .ok (.insufficientIntrinsicFee (.insufficientMaxFee minFee maxFee))
  | .insufficientResourceBounds errors =>
    .ok (.insufficientIntrinsicFee (.insufficientResourceBounds ("\n".intercalate errors)))
  | e@(.other _) => .error (.fee e)

def mapPreValidationErr : TransactionPreValidationError →
    Except InternalError InvalidTransactionError
  | .transactionFeeError e => mapFeeErr e
  | .stateError message => .error (.state message)
  | .invalidNonce address accountNonce incomingTxNonce =>
    .ok (.invalidNonce address accountNonce incomingTxNonce)

def mapExecutorErr : TransactionExecutorError → Except InternalError InvalidTransactionError
  | .transactionExecutionError (.transactionFeeError e) => mapFeeErr e
  | .transactionExecutionError (.transactionPreValidationError e) => mapPreValidationErr e
  | .transactionExecutionError e => .error (.execution e)
  | e@(.other _) => .error (.executor e)

def mapExecutionErr : TransactionExecutionError → Except InternalError InvalidTransactionError
  | .validateTransactionError storageAddress classHash message =>
    .ok (.validationFailure storageAddress classHash message)
  | .panicInValidate panicReason => .ok (.validationFailure 0 0 panicReason)
  | e => .error (.execution e)

def mapInvalidTxErr : StatefulValidatorError → Except InternalError InvalidTransactionError
  | .stateError message => .error (.state message)
  | .transactionExecutorError e => mapExecutorErr e
  | .transactionExecutionError e => mapExecutionErr e
  | .transactionPreValidationError e => mapPreValidationErr e

structure ExecutionFlags where
  accountValidation : Bool := true
  fee : Bool := true
  nonceCheck : Bool := true
  deriving DecidableEq, Repr

/-- The flags of a validation. The nonce check of blockifier is always relaxed. -/
def ExecutionFlags.forValidation (skipValidate skipFeeCheck : Bool) : ExecutionFlags :=
  ⟨!skipValidate,!skipFeeCheck,false⟩

structure StateProvider (ContractClass : Type) where
  nonce : Felt → Except ProviderError (Option Felt)
  «class» : Felt → Except ProviderError (Option ContractClass)

/-- The types of the execution context, and the checks of blockifier on an account
transaction (to_executor_tx and perform_validations). -/
structure Vm where
  CfgEnv : Type
  BlockEnv : Type
  Content : Type
  ContractClass : Type
  performValidations : CfgEnv → BlockEnv → StateProvider ContractClass → ExecutionFlags →
    ExecutableTxWithHash Content → Except StatefulValidatorError Unit

structure Error where
  hash : Felt
  error : InternalError
  deriving DecidableEq, Repr

inductive ValidationOutcome (T : Type) where
  | valid (tx : T)
  | invalid (tx : T) (error : InvalidTransactionError)
  | dependent (tx : T) (txNonce currentNonce : Felt)

structure TxValidator (M : Vm) where
  cfgEnv : M.CfgEnv
  blockEnv : M.BlockEnv
  executionFlags : ExecutionFlags
  state : StateProvider M.ContractClass
  poolNonces : SortedMap Felt Felt := ∅

namespace TxValidator
variable {M : Vm} (v : TxValidator M) (tx : ExecutableTxWithHash M.Content)

/-- The nonces that the validator keeps outlive the state they were counted from. -/
def update (newState : StateProvider M.ContractClass) (blockEnv : M.BlockEnv)
    (v : TxValidator M) : TxValidator M :=
  { v with blockEnv := blockEnv, state := newState }

def poolNonce (address : Felt) : Except ProviderError (Option Felt) :=
  match v.poolNonces.get address with
  | some nonce => .ok (some nonce)
  | none => v.state.nonce address

/-- The nonce a transaction of the address is compared with; none if the state does not
answer and the code panics. -/
def currentNonce (address : Felt) : Option Felt :=
  match v.poolNonces.get address with
  | some nonce => some nonce
  | none =>
    match v.state.nonce address with
    | .ok nonce => some (nonce.getD 0)
    | .error _ => none

def runValidations (skipValidate skipFeeCheck : Bool) :
    Except Error (ValidationOutcome (ExecutableTxWithHash M.Content)) :=
  match tx.transaction with
  | .l1Handler _ => .ok (.valid tx)
  | _ =>
    match M.performValidations v.cfgEnv v.blockEnv v.state
      (.forValidation skipValidate skipFeeCheck) tx with
    | .ok () => .ok (.valid tx)
    | .error e =>
      match mapInvalidTxErr e with
      | .ok error => .ok (.invalid tx error)
      | .error error => .error ⟨tx.hash,error⟩

/-- An invoke with nonce 1 may come together with the deployment of its account. -/
def skipValidate (transaction : ExecutableTx) (txNonce currentNonce : Felt) : Bool :=
  match transaction with
  | .deployAccount _ | .declare _ => false
  | _ => decide (txNonce=1) && decide (currentNonce=0)

/-- A class that exists already cannot be declared. -/
def checkDeclared : Except Error (Option InvalidTransactionError) :=
  match tx.transaction with
  | .declare declareTx =>
    match v.state.class declareTx.classHash with
    | .error e => .error ⟨tx.hash,.provider e⟩
    | .ok (some _) => .ok (some (.classAlreadyDeclared declareTx.classHash))
    | .ok none => .ok none
  | _ => .ok none

/-- The validation of a transaction and the validator after it; none is a panic. Every
valid transaction moves the nonce of its sender by one. -/
def validate :
    Option (Except Error (ValidationOutcome (ExecutableTxWithHash M.Content))) × TxValidator M :=
  match tx.transaction.nonce with
  | none => (none,v)
  | some txNonce =>
    match checkDeclared v tx with
    | .error e => (some (.error e),v)
    | .ok (some error) => (some (.ok (.invalid tx error)),v)
    | .ok none =>
      match v.currentNonce tx.transaction.sender with
      | none => (none,v)
      | some currentNonce =>
        if currentNonce<txNonce then (some (.ok (.dependent tx txNonce currentNonce)),v)
        else
          match runValidations v tx
            (!v.executionFlags.accountValidation || skipValidate tx.transaction txNonce currentNonce)
            (!v.executionFlags.fee) with
          | .ok (.valid tx') =>
            (some (.ok (.valid tx')),
              { v with poolNonces := v.poolNonces.put tx.transaction.sender (currentNonce+1) })
          | result => (some result,v)

/-- The checks besides that of the nonce: the class of a declare is new and blockifier
accepts the transaction. An L1 handler has no checks. -/
def Passes (txNonce currentNonce : Felt) : Prop :=
  tx.transaction.isL1Handler ∨ v.checkDeclared tx=.ok none ∧
    M.performValidations v.cfgEnv v.blockEnv v.state (.forValidation
      (!v.executionFlags.accountValidation || skipValidate tx.transaction txNonce currentNonce)
      (!v.executionFlags.fee)) tx=.ok ()

/-- The transaction is judged valid: its nonce is at most the current one and it passes
the other checks. -/
structure Admits (v : TxValidator M) (tx : ExecutableTxWithHash M.Content)
    (txNonce currentNonce : Felt) : Prop where
  nonce : tx.transaction.nonce=some txNonce
  current : v.currentNonce tx.transaction.sender=some currentNonce
  le : txNonce≤currentNonce
  passes : v.Passes tx txNonce currentNonce

theorem runValidations_cases (skipValidate skipFeeCheck : Bool) :
    ((tx.transaction.isL1Handler ∨ M.performValidations v.cfgEnv v.blockEnv v.state
        (.forValidation skipValidate skipFeeCheck) tx=.ok ()) ∧
      v.runValidations tx skipValidate skipFeeCheck=.ok (.valid tx)) ∨
    (¬(tx.transaction.isL1Handler ∨ M.performValidations v.cfgEnv v.blockEnv v.state
        (.forValidation skipValidate skipFeeCheck) tx=.ok ()) ∧
      ∀ tx', v.runValidations tx skipValidate skipFeeCheck≠.ok (.valid tx')) := by
  unfold runValidations
  cases ht : tx.transaction with
  | l1Handler l1 => exact Or.inl ⟨Or.inl rfl,rfl⟩
  | _ =>
    cases hp : M.performValidations v.cfgEnv v.blockEnv v.state
        (.forValidation skipValidate skipFeeCheck) tx with
    | ok u => exact Or.inl ⟨Or.inr rfl,rfl⟩
    | error e =>
      right
      refine ⟨by simp [ExecutableTx.isL1Handler],?_⟩
      intro tx'
      cases hm : mapInvalidTxErr e <;> simp [hm]

theorem checkDeclared_l1Handler {v : TxValidator M} {tx : ExecutableTxWithHash M.Content}
    (h : tx.transaction.isL1Handler) : v.checkDeclared tx=.ok none := by
  unfold checkDeclared
  cases ht : tx.transaction with
  | declare d =>
    rw [ht] at h
    cases h
  | _ => rfl

theorem Admits.checkDeclared {v : TxValidator M} {tx : ExecutableTxWithHash M.Content}
    {txNonce currentNonce : Felt} (h : v.Admits tx txNonce currentNonce) :
    v.checkDeclared tx=.ok none := by
  cases h.passes with
  | inl hl => exact checkDeclared_l1Handler hl
  | inr hr => exact hr.1

theorem validate_cases : (∃ txNonce currentNonce, v.Admits tx txNonce currentNonce ∧
      v.validate tx=(some (.ok (.valid tx)),
        { v with poolNonces := v.poolNonces.put tx.transaction.sender (currentNonce+1) })) ∨
    (∀ txNonce currentNonce, ¬v.Admits tx txNonce currentNonce) ∧
      (∀ tx', (v.validate tx).1≠some (.ok (.valid tx'))) ∧ (v.validate tx).2=v := by
  unfold validate
  cases hn : tx.transaction.nonce with
  | none =>
    refine Or.inr ⟨?_,by simp,rfl⟩
    intro n c h
    cases hn.symm.trans h.nonce
  | some txNonce =>
    cases hd : v.checkDeclared tx with
    | error e =>
      refine Or.inr ⟨?_,by simp,rfl⟩
      intro n c h
      cases hd.symm.trans h.checkDeclared
    | ok r =>
      cases r with
      | some error =>
        refine Or.inr ⟨?_,by simp,rfl⟩
        intro n c h
        cases hd.symm.trans h.checkDeclared
      | none =>
        cases hc : v.currentNonce tx.transaction.sender with
        | none =>
          refine Or.inr ⟨?_,by simp,rfl⟩
          intro n c h
          cases hc.symm.trans h.current
        | some currentNonce =>
          by_cases hlt : currentNonce<txNonce
          · refine Or.inr ⟨?_,by simp [hlt],by simp [hlt]⟩
            intro n c h
            cases hn.symm.trans h.nonce
            cases hc.symm.trans h.current
            exact absurd h.le (not_le.mpr hlt)
          · simp only [if_neg hlt]
            obtain ⟨hp,hr⟩ | ⟨hp,hr⟩ := v.runValidations_cases tx
              (!v.executionFlags.accountValidation || skipValidate tx.transaction txNonce currentNonce)
              (!v.executionFlags.fee)
            · refine Or.inl ⟨txNonce,currentNonce,⟨hn,hc,not_lt.mp hlt,?_⟩,by rw [hr]⟩
              exact hp.imp id (And.intro hd)
            · refine Or.inr ⟨?_,?_,?_⟩
              · intro n c h
                cases hn.symm.trans h.nonce
                cases hc.symm.trans h.current
                exact hp (h.passes.imp id And.right)
              · intro tx'
                split
                · rename_i h
                  exact absurd h (hr _)
                · rename_i h
                  intro he
                  exact h tx' (Option.some.inj he)
              · split
                · rename_i h
                  exact absurd h (hr _)
                · rfl

end TxValidator
end Katana.TransactionPool
