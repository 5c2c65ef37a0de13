import Katana.Pool.Validator

/-! An invoke that comes together with the deployment of its account (validate in
validation/stateful.rs of the pool crate). The account validation of the invoke is to be skipped
as long as the account is not deployed. -/
namespace Katana.TransactionPool
namespace TxValidator
variable {M : Vm} (v : TxValidator M) (tx : ExecutableTxWithHash M.Content)

/-- The validation goes on past the nonces with the account validation skipped. -/
def SkipsValidation : Prop :=
  ∃ txNonce currentNonce, tx.transaction.nonce=some txNonce ∧
    v.currentNonce tx.transaction.sender=some currentNonce ∧ txNonce≤currentNonce ∧
    skipValidate tx.transaction txNonce currentNonce=true

/-- The validators after these transactions, before the next update. -/
def validateAll (txs : List (ExecutableTxWithHash M.Content)) : TxValidator M :=
  txs.foldl (fun v tx => (v.validate tx).2) v

/-- An account that is not deployed, a deployment of it that was judged valid, and an invoke with
the next nonce. Of blockifier: the account cannot be asked to validate an invoke, and the invoke
passes the other checks. -/
structure DeployedTogether (v : TxValidator M) (address : Felt)
    (deploy invoke : ExecutableTxWithHash M.Content) : Prop where
  nonce : ∃ nonce, v.state.nonce address=.ok nonce ∧ nonce.getD 0=0
  deployAccount : ∃ t, deploy.transaction=.deployAccount t
  deploySender : deploy.transaction.sender=address
  deployNonce : deploy.transaction.nonce=some 0
  deployValid : (v.validate deploy).1=some (.ok (.valid deploy))
  invokes : ∃ t, invoke.transaction=.invoke t
  invokeSender : invoke.transaction.sender=address
  invokeNonce : invoke.transaction.nonce=some 1
  validated : ∀ flags, flags.accountValidation=true →
    M.performValidations v.cfgEnv v.blockEnv v.state flags invoke≠.ok ()
  skipped : ∀ flags, flags.accountValidation=false → flags.nonceCheck=false →
    M.performValidations v.cfgEnv v.blockEnv v.state flags invoke=.ok ()

/-- The branch needs nonce 1 over the current nonce 0, which is a dependent transaction. -/
theorem skipValidate_lt {transaction : ExecutableTx} {txNonce currentNonce : Felt}
    (h : skipValidate transaction txNonce currentNonce=true) : currentNonce<txNonce := by
  unfold skipValidate at h
  split at h
  · cases h
  · cases h
  · simp only [Bool.and_eq_true,decide_eq_true_eq] at h
    rw [h.1,h.2]
    decide

theorem not_skipsValidation : ¬v.SkipsValidation tx := by
  rintro ⟨n,c,-,-,hle,hskip⟩
  exact absurd (skipValidate_lt hskip) (not_lt.mpr hle)

theorem validateAll_poolNonces (txs : List (ExecutableTxWithHash M.Content)) :
    ∃ poolNonces, v.validateAll txs={ v with poolNonces } := by
  induction txs generalizing v with
  | nil => exact ⟨_,rfl⟩
  | cons tx txs ih =>
    obtain ⟨nonces,h⟩ := ih (v.validate tx).2
    refine ⟨nonces,?_⟩
    rw [show v.validateAll (tx::txs)=(v.validate tx).2.validateAll txs from rfl,h]
    obtain ⟨n,c,-,hv⟩ | ⟨-,-,hv⟩ := v.validate_cases tx
    · rw [hv]
    · rw [hv]

theorem validate_valid_iff : (v.validate tx).1=some (.ok (.valid tx)) ↔
      ∃ txNonce currentNonce, v.Admits tx txNonce currentNonce := by
  obtain ⟨n,c,h,hv⟩ | ⟨h,hr,-⟩ := v.validate_cases tx
  · exact ⟨fun _ => ⟨n,c,h⟩,fun _ => by rw [hv]⟩
  · exact ⟨fun ht => absurd ht (hr tx),fun ⟨n,c,ha⟩ => absurd ha (h n c)⟩

theorem DeployedTogether.admitted_iff {v : TxValidator M} {address : Felt}
    {deploy invoke : ExecutableTxWithHash M.Content} (h : v.DeployedTogether address deploy invoke)
    (poolNonces : SortedMap Felt Felt) :
    (∃ txNonce currentNonce, Admits { v with poolNonces } invoke txNonce currentNonce) ↔
      v.executionFlags.accountValidation=false ∧ currentNonce { v with poolNonces } address≠some 0 := by
  obtain ⟨t,ht⟩ := h.invokes
  obtain ⟨c,hc⟩ : ∃ c, currentNonce { v with poolNonces } address=some c := by
    obtain ⟨nonce,hn,-⟩ := h.nonce
    unfold currentNonce
    cases poolNonces.get address with
    | some kept => exact ⟨kept,rfl⟩
    | none => exact ⟨nonce.getD 0,by simp only [hn]⟩
  constructor
  · rintro ⟨n,c',hadm⟩
    cases h.invokeNonce.symm.trans hadm.nonce
    cases hc.symm.trans (h.invokeSender ▸ hadm.current)
    have hpos : c≠0 := by
      rintro rfl
      exact absurd hadm.le (by decide)
    refine ⟨?_,by rw [hc]; exact fun he => hpos (Option.some.inj he)⟩
    by_contra hon
    rw [Bool.not_eq_false] at hon
    have hskip : skipValidate invoke.transaction 1 c=false := by
      by_contra hskip
      exact absurd (skipValidate_lt (Bool.not_eq_false _ ▸ hskip)) (not_lt.mpr hadm.le)
    rcases hadm.passes with hl1 | ⟨-,hpass⟩
    · simp [ht,ExecutableTx.isL1Handler] at hl1
    · exact h.validated _ (by simp [ExecutionFlags.forValidation,hon,hskip]) hpass
  · rintro ⟨hoff,hne⟩
    have hle : (1 : Felt)≤c := by
      have hval : c.val≠0 := fun h0 => hne (by rw [hc]; exact congrArg some (Fin.ext h0))
      rw [Fin.le_def,Felt.val_one]
      omega
    refine ⟨1,c,h.invokeNonce,by rw [h.invokeSender]; exact hc,hle,Or.inr ⟨?_,?_⟩⟩
    · simp [checkDeclared,ht]
    · exact h.skipped _ (by simp [ExecutionFlags.forValidation,hoff]) rfl

end TxValidator
open TxValidator
variable {M : Vm}

/-- The invoke is never admitted by the branch made for it. It is admitted exactly if account
validations are switched off and the pool nonce did not wrap around to zero. -/
theorem deploy_then_invoke_never_skipped (v : TxValidator M) (address : Felt)
    (deploy invoke : ExecutableTxWithHash M.Content) (txs : List (ExecutableTxWithHash M.Content))
    (h : v.DeployedTogether address deploy invoke) (w : TxValidator M)
    (hw : w=v.validateAll (deploy::txs)) :
    ¬((w.validate invoke).1=some (.ok (.valid invoke)) ∧ w.SkipsValidation invoke) ∧
    ((w.validate invoke).1=some (.ok (.valid invoke)) ↔
      v.executionFlags.accountValidation=false ∧ w.currentNonce address≠some 0) := by
  refine ⟨fun hboth => w.not_skipsValidation invoke hboth.2,?_⟩
  obtain ⟨nonces,hall⟩ := v.validateAll_poolNonces (deploy::txs)
  rw [hall] at hw
  subst hw
  rw [validate_valid_iff]
  exact h.admitted_iff nonces

/-- Deployments pass, and so does every other transaction unless an account that is not deployed has
to validate it. -/
def accountVm : Vm where
  CfgEnv := Unit
  BlockEnv := Unit
  Content := Unit
  ContractClass := Unit
  performValidations _ _ state flags tx :=
    match tx.transaction,state.nonce tx.transaction.sender with
    | .deployAccount _,_ | _,.ok (some _) => .ok ()
    | _,_ =>
      if flags.accountValidation then .error (.transactionExecutionError (.panicInValidate ""))
      else .ok ()

def deployAccountV3 : ExecutableTxWithHash Unit := ⟨.deployAccount (.v3 0 7),100,()⟩

def invokeNext : ExecutableTxWithHash Unit := ⟨.invoke (.v3 1 7),101,()⟩

def emptyValidator (accountValidation : Bool) : TxValidator accountVm where
  cfgEnv := ()
  blockEnv := ()
  executionFlags := { accountValidation }
  state := ⟨fun _ => .ok none,fun _ => .ok none⟩

theorem emptyValidator_together (accountValidation : Bool) :
    (emptyValidator accountValidation).DeployedTogether 7 deployAccountV3 invokeNext where
  nonce := ⟨none,rfl,rfl⟩
  deployAccount := ⟨_,rfl⟩
  deploySender := rfl
  deployNonce := rfl
  deployValid := rfl
  invokes := ⟨_,rfl⟩
  invokeSender := rfl
  invokeNonce := rfl
  validated flags h := by
    simp [accountVm,emptyValidator,invokeNext,h]
  skipped flags h _ := by
    simp [accountVm,emptyValidator,invokeNext,h]

theorem without_account_validation_admitted :
    (((emptyValidator false).validateAll [deployAccountV3]).validate invokeNext).1=
      some (.ok (.valid invokeNext)) :=
  (deploy_then_invoke_never_skipped (emptyValidator false) 7 deployAccountV3 invokeNext []
    (emptyValidator_together false) _ rfl).2.mpr ⟨rfl,by decide⟩

/-- The deployment is judged valid, and the invoke after it is refused by the account validation. -/
theorem invoke_after_deploy_refused :
    ((emptyValidator true).validate deployAccountV3).1=some (.ok (.valid deployAccountV3)) ∧
    (((emptyValidator true).validateAll [deployAccountV3]).validate invokeNext).1=
      some (.ok (.invalid invokeNext (.validationFailure 0 0 ""))) ∧
    ¬((emptyValidator true).validateAll [deployAccountV3]).SkipsValidation invokeNext :=
  ⟨rfl,rfl,not_skipsValidation _ _⟩

end Katana.TransactionPool
