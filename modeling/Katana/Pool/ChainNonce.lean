import Katana.Pool.Nonces
import Mathlib.Data.Nat.ModEq

/-! The nonce that the pool reports and the nonce of the chain (validation/stateful.rs of the pool
crate, nonce_at in starknet/mod.rs of the rpc crate). Blocks execute accepted transactions; the
validator is updated with the state after them. -/
namespace Katana.TransactionPool
open Transition SortedMap
variable {M : Vm}

inductive Execution where
  | succeeded
  | reverted
  | failed
  deriving DecidableEq, Repr

/-- An account transaction that did not fail consumes a nonce. -/
def Execution.consumes (tx : ExecutableTx) : Execution → Bool
  | .succeeded | .reverted => !tx.isL1Handler
  | .failed => false

/-- The validator beside the chain. Nonces are those of the latest state, accepted the transactions
that wait for their execution, wasted the senders of the executed ones that consumed no nonce, and
unseen the accounts deployed by blocks after the last update of the validator. -/
structure Followed (M : Vm) where
  validator : TxValidator M
  nonces : SortedMap Felt Felt
  accepted : List (ExecutableTxWithHash M.Content) := []
  wasted : List Felt := []
  unseen : List Felt := []

inductive FollowedCall (M : Vm) where
  | validate (tx : ExecutableTxWithHash M.Content)
  | mine (block : List (ExecutableTxWithHash M.Content × Execution)) (deployed : List Felt)
  | update (newState : StateProvider M.ContractClass) (blockEnv : M.BlockEnv)

namespace Followed

def execute (s : Followed M) (e : ExecutableTxWithHash M.Content × Execution) : Followed M :=
  let sender := e.1.transaction.sender
  if e.2.consumes e.1.transaction then
    { s with nonces := s.nonces.put sender ((s.nonces.get sender).getD 0+1) }
  else { s with wasted := sender::s.wasted }

def deploy (s : Followed M) (address : Felt) : Followed M :=
  if s.nonces.get address=none then
    { s with nonces := s.nonces.put address 0, unseen := address::s.unseen }
  else s

inductive Step : Followed M → FollowedCall M → Followed M → Prop where
  | validate {s} (tx : ExecutableTxWithHash M.Content) :
      Step s (.validate tx) { s with
        validator := (s.validator.validate tx).2
        accepted := s.accepted++Session.judged (s.validator.validate tx).1 }
  | mine {s} (block : List (ExecutableTxWithHash M.Content × Execution)) (deployed : List Felt)
      (rest : List (ExecutableTxWithHash M.Content))
      (h : s.accepted.Perm (block.map Prod.fst++rest)) :
      Step s (.mine block deployed)
        { deployed.foldl deploy (block.foldl execute s) with accepted := rest }
  | update {s} (newState : StateProvider M.ContractClass) (blockEnv : M.BlockEnv)
      (h : ∀ address, newState.nonce address=.ok (s.nonces.get address)) :
      Step s (.update newState blockEnv)
        { s with validator := s.validator.update newState blockEnv, unseen := [] }

/-- A validator without pool nonces on the latest state. -/
structure Started (s : Followed M) : Prop where
  poolNonces : s.validator.poolNonces=∅
  state : ∀ address, s.validator.state.nonce address=.ok (s.nonces.get address)
  accepted : s.accepted=[]
  wasted : s.wasted=[]
  unseen : s.unseen=[]

/-- The answers of nonce_at; none is a contract that is not found. -/
def nonceAtPending (s : Followed M) (address : Felt) : Except ProviderError (Option Felt) :=
  s.validator.poolNonce address

def nonceAtLatest (s : Followed M) (address : Felt) : Except ProviderError (Option Felt) :=
  .ok (s.nonces.get address)

/-- The accepted transactions of an address that were not executed. -/
def waiting (a : Felt) (s : Followed M) : Nat :=
  s.accepted.countP fun tx => tx.transaction.sender=a

/-- The validator accepted nothing of the account and was not updated since the block that
deployed it. -/
def Outdated (a : Felt) (s : Followed M) : Prop :=
  s.validator.poolNonces.get a=none ∧ a∈s.unseen

/-- A kept nonce counts the accepted transactions from the nonce of the chain on. Executed ones are
in both, unless they consumed none. -/
structure Counted (a : Felt) (s : Followed M) : Prop where
  kept : ∀ nonce, s.validator.poolNonces.get a=some nonce →
    nonce.val≡((s.nonces.get a).getD 0).val+s.waiting a+s.wasted.count a [MOD feltPrime]
  known : ∀ nonce, s.validator.poolNonces.get a=some nonce → s.nonces.get a=none →
    0<s.waiting a+s.wasted.count a
  fresh : s.validator.poolNonces.get a=none → s.waiting a=0 ∧ s.wasted.count a=0 ∧
    if a∈s.unseen then s.validator.state.nonce a=.ok none ∧ s.nonces.get a=some 0
    else s.validator.state.nonce a=.ok (s.nonces.get a)

theorem Started.counted {s : Followed M} (h : s.Started) (a : Felt) : s.Counted a where
  kept nonce hn := by simp [h.poolNonces] at hn
  known nonce hn := by simp [h.poolNonces] at hn
  fresh _ := ⟨by simp [waiting,h.accepted],by simp [h.wasted],by simp [h.unseen,h.state a]⟩

theorem val_add_one_modEq (x : Felt) : (x+1).val≡x.val+1 [MOD feltPrime] := by
  rw [Fin.val_add,Felt.val_one]
  exact Nat.mod_modEq _ _

section Counted
variable {a : Felt} {s : Followed M}

theorem Counted.perm (h : s.Counted a) {txs : List (ExecutableTxWithHash M.Content)}
    (hp : s.accepted.Perm txs) : Counted a { s with accepted := txs } := by
  have hw : waiting a { s with accepted := txs }=s.waiting a := (hp.countP_eq _).symm
  refine ⟨?_,?_,?_⟩
  · rw [hw]
    exact h.kept
  · rw [hw]
    exact h.known
  · rw [hw]
    exact h.fresh

/-- One execution moves a waiting transaction to the chain or to the wasted ones. -/
theorem Counted.execute {e : ExecutableTxWithHash M.Content × Execution}
    {rest : List (ExecutableTxWithHash M.Content)}
    (h : Counted a { s with accepted := e.1::rest }) :
    Counted a { s.execute e with accepted := rest } := by
  obtain ⟨tx,result⟩ := e
  obtain ⟨kept,known,fresh⟩ := h
  simp only [waiting,List.countP_cons,decide_eq_true_eq] at kept known fresh
  by_cases ha : tx.transaction.sender=a
  · subst ha
    simp only [if_true] at kept known fresh
    by_cases hc : result.consumes tx.transaction=true
    · simp only [Followed.execute,hc,if_true]
      refine ⟨fun nonce hn => ?_,by simp,fun hn => absurd (fresh hn).1 (by omega)⟩
      have hsucc := val_add_one_modEq ((s.nonces.get tx.transaction.sender).getD 0)
      refine (kept nonce hn).trans ?_
      rw [get_put_self,Option.getD_some,←Nat.add_assoc,Nat.add_right_comm _ _ 1]
      exact ((hsucc.symm.add_right _).add_right _)
    · simp only [Followed.execute,hc,Bool.false_eq_true,if_false]
      refine ⟨fun nonce hn => ?_,fun nonce hn hnone => by simp,fun hn => absurd (fresh hn).1 (by omega)⟩
      refine (kept nonce hn).trans ?_
      rw [List.count_cons_self,←Nat.add_assoc,←Nat.add_assoc,Nat.add_right_comm _ 1]
      rfl
  · simp only [ha,if_false,Nat.add_zero] at kept known fresh
    by_cases hc : result.consumes tx.transaction=true
    · simp only [Followed.execute,hc,if_true]
      refine ⟨?_,?_,?_⟩ <;> simp only [get_put_ne ha] <;> assumption
    · simp only [Followed.execute,hc,Bool.false_eq_true,if_false]
      refine ⟨?_,?_,?_⟩ <;> simp only [List.count_cons_of_ne ha] <;> assumption

theorem Counted.executeAll {block : List (ExecutableTxWithHash M.Content × Execution)}
    {rest : List (ExecutableTxWithHash M.Content)}
    (h : Counted a { s with accepted := block.map Prod.fst++rest }) :
    Counted a { block.foldl Followed.execute s with accepted := rest } := by
  induction block generalizing s with
  | nil => exact h
  | cons e block ih => exact ih h.execute

theorem Counted.deploy (h : s.Counted a) (b : Felt) : (s.deploy b).Counted a := by
  unfold Followed.deploy
  split
  · rename_i hb
    by_cases ha : b=a
    · subst ha
      refine ⟨fun nonce hn => ?_,fun nonce hn hnone => by simp at hnone,fun hn => ?_⟩
      · have hkept := h.kept nonce hn
        rw [hb] at hkept
        simpa [waiting] using hkept
      · obtain ⟨hwait,hwasted,hf⟩ := h.fresh hn
        refine ⟨hwait,hwasted,?_⟩
        by_cases hu : b∈s.unseen
        · rw [if_pos hu,hb] at hf
          exact nomatch hf.2
        · rw [if_neg hu,hb] at hf
          simpa using hf
    · refine ⟨?_,?_,?_⟩ <;> simp only [get_put_ne ha,List.mem_cons,Ne.symm ha,false_or]
      exacts [h.kept,h.known,h.fresh]
  · exact h

theorem Counted.current (h : s.Counted a) {c : Felt} (hc : s.validator.currentNonce a=some c) :
    c.val≡((s.nonces.get a).getD 0).val+s.waiting a+s.wasted.count a [MOD feltPrime] := by
  unfold TxValidator.currentNonce at hc
  cases hk : s.validator.poolNonces.get a with
  | some kept =>
    rw [hk] at hc
    cases hc
    exact h.kept c hk
  | none =>
    obtain ⟨hwait,hwasted,hf⟩ := h.fresh hk
    have hd : c=(s.nonces.get a).getD 0 := by
      split at hf
      · rw [hk,hf.1] at hc
        simp [hf.2,←Option.some.inj hc]
      · rw [hk,hf] at hc
        exact (Option.some.inj hc).symm
    rw [hwait,hwasted,hd]
    rfl

theorem Counted.validate (h : s.Counted a) (tx : ExecutableTxWithHash M.Content) :
    Counted a { s with
      validator := (s.validator.validate tx).2
      accepted := s.accepted++Session.judged (s.validator.validate tx).1 } := by
  obtain ⟨n,c,hadm,hv⟩ | ⟨-,hr,hv⟩ := s.validator.validate_cases tx
  · rw [hv]
    by_cases ha : tx.transaction.sender=a
    · subst ha
      have hwait : waiting tx.transaction.sender { s with accepted := s.accepted++[tx] }=
          s.waiting tx.transaction.sender+1 := by
        simp [waiting]
      refine ⟨fun nonce hn => ?_,fun _ _ _ => ?_,fun hn => by simp at hn⟩
      · simp only [get_put_self,Option.some.injEq] at hn
        subst hn
        refine (val_add_one_modEq c).trans ?_
        have hc : c.val≡((s.nonces.get tx.transaction.sender).getD 0).val+
            s.waiting tx.transaction.sender+s.wasted.count tx.transaction.sender
            [MOD feltPrime] := h.current hadm.current
        have hsum := hc.add_right 1
        rw [Nat.add_right_comm _ (s.wasted.count _) 1,Nat.add_assoc _ (s.waiting _) 1,
          ←hwait] at hsum
        exact hsum
      · have hpos : 0<s.waiting tx.transaction.sender+1 := Nat.succ_pos _
        rw [←hwait] at hpos
        exact Nat.add_pos_left hpos _
    · have hwait : waiting a { s with accepted := s.accepted++[tx] }=s.waiting a := by
        simp [waiting,ha]
      refine ⟨?_,?_,?_⟩
      · simp only [get_put_ne ha]
        exact hwait ▸ h.kept
      · simp only [get_put_ne ha]
        exact hwait ▸ h.known
      · simp only [get_put_ne ha]
        exact hwait ▸ h.fresh
  · rw [hv,Session.judged_of_not_valid hr,List.append_nil]
    exact h

theorem foldl_deploy_accepted (deployed : List Felt) (s : Followed M)
    (rest : List (ExecutableTxWithHash M.Content)) :
    { deployed.foldl Followed.deploy s with accepted := rest }=
      deployed.foldl Followed.deploy { s with accepted := rest } := by
  induction deployed generalizing s with
  | nil => rfl
  | cons b deployed ih =>
    have hb : ({ s with accepted := rest } : Followed M).deploy b=
        { s.deploy b with accepted := rest } := by
      unfold Followed.deploy
      split <;> rfl
    rw [List.foldl_cons,List.foldl_cons,hb]
    exact ih (s.deploy b)

theorem Counted.deployAll (h : s.Counted a) (deployed : List Felt) :
    (deployed.foldl Followed.deploy s).Counted a := by
  induction deployed generalizing s with
  | nil => exact h
  | cons b deployed ih => exact ih (h.deploy b)

theorem Counted.step (h : s.Counted a) {c : FollowedCall M} {t : Followed M} (hs : Step s c t) :
    t.Counted a := by
  cases hs with
  | validate tx => exact h.validate tx
  | mine block deployed rest hp =>
    rw [foldl_deploy_accepted]
    exact (h.perm hp).executeAll.deployAll deployed
  | update newState blockEnv hnew =>
    exact ⟨h.kept,h.known,fun hn => ⟨(h.fresh hn).1,(h.fresh hn).2.1,by simpa [TxValidator.update] using hnew a⟩⟩

theorem Counted.pending_eq_latest (h : s.Counted a) (hquiet : s.waiting a=0)
    (hwasted : s.wasted.count a=0) (hstate : ¬s.Outdated a) :
    s.nonceAtPending a=s.nonceAtLatest a := by
  unfold nonceAtPending nonceAtLatest TxValidator.poolNonce
  cases hk : s.validator.poolNonces.get a with
  | none =>
    have hf := (h.fresh hk).2.2
    rwa [if_neg fun hu => hstate ⟨hk,hu⟩] at hf
  | some kept =>
    have hkept := h.kept kept hk
    have hknown := h.known kept hk
    rw [hquiet,hwasted] at hkept hknown
    cases hn : s.nonces.get a with
    | none => exact absurd (hknown hn) (lt_irrefl 0)
    | some nonce =>
      rw [hn,Option.getD_some] at hkept
      have heq : kept=nonce := Fin.ext (hkept.eq_of_lt_of_lt kept.isLt nonce.isLt)
      rw [heq]

theorem Counted.wasted_of_eq (h : s.Counted a) (hquiet : s.waiting a=0)
    (heq : s.nonceAtPending a=s.nonceAtLatest a) : feltPrime∣s.wasted.count a ∧ ¬s.Outdated a := by
  unfold nonceAtPending nonceAtLatest TxValidator.poolNonce at heq
  cases hk : s.validator.poolNonces.get a with
  | none =>
    rw [hk] at heq
    obtain ⟨-,hwasted,hf⟩ := h.fresh hk
    refine ⟨hwasted ▸ dvd_zero _,fun ho => ?_⟩
    rw [if_pos ho.2] at hf
    rw [hf.1,hf.2] at heq
    cases heq
  | some kept =>
    rw [hk] at heq
    have hnonce : s.nonces.get a=some kept := (Except.ok.inj heq).symm
    refine ⟨?_,fun ho => nomatch hk.symm.trans ho.1⟩
    have hkept := h.kept kept hk
    rw [hnonce,hquiet] at hkept
    exact (Nat.modEq_zero_iff_dvd.1 (Nat.ModEq.add_left_cancel' kept.val hkept).symm)

end Counted
end Followed

namespace TxValidator
variable (v : TxValidator M)

theorem currentNonce_of_poolNonce {address : Felt} {nonce : Option Felt}
    (h : v.poolNonce address=.ok nonce) : v.currentNonce address=some (nonce.getD 0) := by
  unfold poolNonce at h
  unfold currentNonce
  cases hk : v.poolNonces.get address with
  | some kept =>
    rw [hk] at h
    cases h
    rfl
  | none =>
    rw [hk] at h
    simp [show v.state.nonce address=.ok nonce from h]

theorem validate_ne_dependent {tx : ExecutableTxWithHash M.Content} {nonce : Felt}
    (hc : v.currentNonce tx.transaction.sender=some nonce)
    (hn : tx.transaction.nonce=some nonce) (tx' : ExecutableTxWithHash M.Content)
    (txNonce currentNonce : Felt) :
    (v.validate tx).1≠some (.ok (.dependent tx' txNonce currentNonce)) := by
  unfold validate
  rw [hn,hc]
  cases v.checkDeclared tx with
  | error e => simp
  | ok r =>
    cases r with
    | some error => simp
    | none =>
      simp only [lt_irrefl,if_false]
      split
      · simp
      · unfold runValidations
        repeat' split
        all_goals simp

end TxValidator

/-- When no accepted transaction of an address waits, the nonce at the pending block is the one of
the latest state if all of its executed transactions consumed a nonce, and only if the others are
none or as many as the field has elements; a validator that accepted none has to be up to date. -/
theorem pool_nonce_follows_iff {s t : Followed M} {calls : List (FollowedCall M)} (hs : s.Started)
    (h : Run Followed.Step s calls t) (a : Felt) (hquiet : t.waiting a=0) :
    (t.wasted.count a=0 ∧ ¬t.Outdated a → t.nonceAtPending a=t.nonceAtLatest a) ∧
    (t.nonceAtPending a=t.nonceAtLatest a → feltPrime∣t.wasted.count a ∧ ¬t.Outdated a) ∧
    ∀ tx tx' nonce txNonce currentNonce, tx.transaction.sender=a →
      t.nonceAtPending a=.ok (some nonce) → tx.transaction.nonce=some nonce →
      (t.validator.validate tx).1≠some (.ok (.dependent tx' txNonce currentNonce)) := by
  have hc : t.Counted a :=
    h.invariant (fun _ _ _ hi hstep => Followed.Counted.step hi hstep) (hs.counted a)
  refine ⟨fun ⟨hw,ho⟩ => hc.pending_eq_latest hquiet hw ho,hc.wasted_of_eq hquiet,?_⟩
  rintro tx tx' nonce txNonce currentNonce rfl hpool hn
  exact t.validator.validate_ne_dependent (t.validator.currentNonce_of_poolNonce hpool) hn
    tx' txNonce currentNonce

def zeroAccount : SortedMap Felt Felt := (∅ : SortedMap Felt Felt).put 1 0

def stateOf (nonces : SortedMap Felt Felt) : StateProvider Unit :=
  ⟨fun address => .ok (nonces.get address),fun _ => .ok none⟩

def followedZero : Followed relaxedVm where
  validator := {
    cfgEnv := (), blockEnv := (), executionFlags := {}
    state := stateOf zeroAccount }
  nonces := zeroAccount

theorem followedZero_started : followedZero.Started := ⟨rfl,fun _ => rfl,rfl,rfl,rfl⟩

/-- A transaction of the account is accepted and executed in a block; the validator is updated. -/
def oneBlock (result : Execution) : List (FollowedCall relaxedVm) := [
  .validate (invokeV3 0 1 100),.mine [(invokeV3 0 1 100,result)] [],
  .update (stateOf (zeroAccount.put 1 (if result=.failed then 0 else 1))) ()]

def afterBlock (result : Execution) : Followed relaxedVm where
  validator := {
    cfgEnv := (), blockEnv := (), executionFlags := {}
    state := stateOf (zeroAccount.put 1 (if result=.failed then 0 else 1))
    poolNonces := (∅ : SortedMap Felt Felt).put 1 1 }
  nonces := zeroAccount.put 1 (if result=.failed then 0 else 1)
  wasted := if result=.failed then [1] else []

theorem oneBlock_run (result : Execution) :
    Run Followed.Step followedZero (oneBlock result) (afterBlock result) := by
  cases result <;> exact .cons (.validate _) <| .cons (.mine _ _ [] (List.Perm.refl _)) <|
    .cons (.update _ _ fun _ => rfl) <| .nil _

theorem reverted_nonce_followed :
    (afterBlock .reverted).waiting 1=0 ∧
    (afterBlock .reverted).nonceAtPending 1=(afterBlock .reverted).nonceAtLatest 1 :=
  ⟨rfl,(pool_nonce_follows_iff followedZero_started (oneBlock_run .reverted) 1 rfl).1
    ⟨rfl,fun h => nomatch h.1⟩⟩

/-- The transaction fails: the pool stays one ahead of the chain and accepts the next nonce. -/
theorem failed_nonce_stays_ahead :
    followedZero.Started ∧ Run Followed.Step followedZero (oneBlock .failed) (afterBlock .failed) ∧
    (afterBlock .failed).waiting 1=0 ∧
    (afterBlock .failed).nonceAtPending 1=.ok (some 1) ∧
    (afterBlock .failed).nonceAtLatest 1=.ok (some 0) ∧
    ((afterBlock .failed).validator.validate (invokeV3 1 1 101)).1=
      some (.ok (.valid (invokeV3 1 1 101))) :=
  ⟨followedZero_started,oneBlock_run .failed,rfl,rfl,rfl,rfl⟩

end Katana.TransactionPool
