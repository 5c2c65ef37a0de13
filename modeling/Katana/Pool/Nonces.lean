import Katana.Base.Transition
import Katana.Pool.Pool

/-! The nonces that a validator admits between two updates of its state, and the nonces of
one sender in the pool. -/
namespace Katana.TransactionPool
variable {M : Vm}

inductive PoolCall (M : Vm) where
  | validate (tx : ExecutableTxWithHash M.Content)
  | addTransaction (tx : ExecutableTxWithHash M.Content)
  | update (newState : StateProvider M.ContractClass) (blockEnv : M.BlockEnv)
  | removeTransactions (hashes : List Felt)

/-- A pool in use. Opened is its validator at the time it got its state, valid are the
transactions it judged valid since. -/
structure Session (M : Vm) where
  pool : TxPool M
  opened : TxValidator M
  valid : List (ExecutableTxWithHash M.Content) := []

namespace Session

def new (cfgEnv : M.CfgEnv) (blockEnv : M.BlockEnv) (flags : ExecutionFlags)
    (state : StateProvider M.ContractClass) : Session M where
  pool := { validator := { cfgEnv, blockEnv, executionFlags := flags, state }, ordering := {} }
  opened := { cfgEnv, blockEnv, executionFlags := flags, state }

/-- The transaction of a validation if it was judged valid. -/
def judged : Option (Except Error (ValidationOutcome (ExecutableTxWithHash M.Content))) →
    List (ExecutableTxWithHash M.Content)
  | some (.ok (.valid tx)) => [tx]
  | _ => []

theorem judged_of_not_valid
    {r : Option (Except Error (ValidationOutcome (ExecutableTxWithHash M.Content)))}
    (h : ∀ tx, r≠some (.ok (.valid tx))) : judged r=[] := by
  unfold judged
  split
  · exact absurd rfl (h _)
  · rfl

variable (s : Session M)

def step : PoolCall M → Session M
  | .validate tx =>
    { s with
      pool := { s.pool with validator := (s.pool.validator.validate tx).2 }
      valid := s.valid++judged (s.pool.validator.validate tx).1 }
  | .addTransaction tx =>
    { s with
      pool := (s.pool.addTransaction tx).2
      valid := s.valid++judged (s.pool.validator.validate tx).1 }
  | .update newState blockEnv =>
    let v := s.pool.validator.update newState blockEnv
    { pool := { s.pool with validator := v }, opened := v }
  | .removeTransactions hashes => { s with pool := s.pool.removeTransactions hashes }

def ids : List TxId := s.pool.transactions.map PendingTx.id

variable (a : Felt) (s : Session M)

/-- The nonce the state had; the one kept for the address if the state does not answer. -/
def startNonce : Felt :=
  match s.opened.state.nonce a with
  | .ok nonce => nonce.getD 0
  | .error _ => (s.opened.poolNonces.get a).getD 0

/-- The nonces of the account transactions of an address that were judged valid. -/
def accountNonces : List Nat :=
  s.valid.filterMap fun tx =>
    if tx.transaction.sender=a ∧ !tx.transaction.isL1Handler
    then tx.transaction.nonce.map Fin.val else none

/-- The nonces judged valid are those from the nonce of the state up to the pool nonce, each
of them once. -/
def Consecutive : Prop :=
  match s.pool.validator.currentNonce a with
  | some current => s.startNonce a≤current ∧
    (s.accountNonces a).Perm (List.range' (s.startNonce a).val (current.val-(s.startNonce a).val))
  | none => s.accountNonces a=[]

/-- No two pending transactions have the address as sender and the same nonce. -/
def DistinctNonces : Prop :=
  (s.ids.filter (fun id => id.sender=a)).Nodup

/-- What a call has to meet for one address: an admitted transaction is not an L1 handler,
has the pool nonce and not the last field element as nonce; a new state has the pool nonce. -/
def Keeps : PoolCall M → Prop
  | .validate tx | .addTransaction tx => tx.transaction.sender=a → ∀ txNonce currentNonce,
    s.pool.validator.Admits tx txNonce currentNonce →
      !tx.transaction.isL1Handler ∧ txNonce=currentNonce ∧ currentNonce.val+1<feltPrime
  | .update newState _ => ∀ nonce kept, newState.nonce a=.ok nonce →
    s.pool.validator.poolNonces.get a=some kept → nonce.getD 0=kept
  | .removeTransactions _ => True

/-- The invariant: the nonces came in order, and the pending ones are below the pool nonce. -/
structure InOrder (a : Felt) (s : Session M) : Prop where
  state : s.opened.state=s.pool.validator.state
  nonces : match s.pool.validator.currentNonce a with
    | some current => s.startNonce a≤current ∧
      s.accountNonces a=List.range' (s.startNonce a).val (current.val-(s.startNonce a).val)
    | none => s.accountNonces a=[]
  below : ∀ id∈s.ids, id.sender=a →
    ∃ kept, s.pool.validator.poolNonces.get a=some kept ∧ id.nonce<kept
  distinct : s.DistinctNonces a

theorem InOrder.lt_current {a current : Felt} {s : Session M} (h : s.InOrder a)
    (hc : s.pool.validator.currentNonce a=some current) {id : TxId} (hid : id∈s.ids)
    (ha : id.sender=a) : id.nonce<current := by
  obtain ⟨kept,hk,hlt⟩ := h.below id hid ha
  rw [TxValidator.currentNonce,hk] at hc
  cases hc
  exact hlt

theorem InOrder.consecutive {a : Felt} {s : Session M} (h : s.InOrder a) : s.Consecutive a := by
  have hn := h.nonces
  unfold Consecutive
  cases hc : s.pool.validator.currentNonce a with
  | none => simpa only [hc] using hn
  | some current =>
    simp only [hc] at hn
    exact ⟨hn.1,hn.2 ▸ List.Perm.refl _⟩

/-- A call that admitted a transaction, in the pool or only in the validator. -/
structure Admitted (tx : ExecutableTxWithHash M.Content) (txNonce currentNonce : Felt)
    (s t : Session M) : Prop where
  admits : s.pool.validator.Admits tx txNonce currentNonce
  validator : t.pool.validator={ s.pool.validator with
    poolNonces := s.pool.validator.poolNonces.put tx.transaction.sender (currentNonce+1) }
  opened : t.opened=s.opened
  valid : t.valid=s.valid++[tx]
  ids : t.ids.Perm s.ids ∨ t.ids.Perm (⟨tx.transaction.sender,txNonce⟩::s.ids)

theorem step_validate (tx : ExecutableTxWithHash M.Content) :
    (∃ txNonce currentNonce, Admitted tx txNonce currentNonce s (s.step (.validate tx))) ∨
    (∀ txNonce currentNonce, ¬s.pool.validator.Admits tx txNonce currentNonce) ∧
      s.step (.validate tx)=s := by
  obtain ⟨n,c,h,hv⟩ | ⟨h,hr,hv⟩ := s.pool.validator.validate_cases tx
  · refine Or.inl ⟨n,c,⟨h,?_,rfl,?_,Or.inl (List.Perm.refl _)⟩⟩
    · simp only [step,hv]
    · simp only [step,hv,judged]
  · refine Or.inr ⟨h,?_⟩
    simp [step,hv,judged_of_not_valid hr]

theorem step_addTransaction (tx : ExecutableTxWithHash M.Content) :
    (∃ txNonce currentNonce, Admitted tx txNonce currentNonce s (s.step (.addTransaction tx))) ∨
    (∀ txNonce currentNonce, ¬s.pool.validator.Admits tx txNonce currentNonce) ∧
      s.step (.addTransaction tx)=s := by
  have hvalid : (s.step (.addTransaction tx)).valid=(s.step (.validate tx)).valid := rfl
  obtain ⟨n,c,p,h,_,hv,hids⟩ | ⟨h,_,hv⟩ := s.pool.addTransaction_cases tx
  · refine Or.inl ⟨n,c,⟨h,hv,rfl,?_,Or.inr (hids.map PendingTx.id)⟩⟩
    obtain ⟨n',c',h'⟩ | ⟨h',_⟩ := s.step_validate tx
    · exact h'.valid
    · exact absurd h (h' n c)
  · refine Or.inr ⟨h,?_⟩
    obtain ⟨n',c',h'⟩ | ⟨_,h'⟩ := s.step_validate tx
    · exact absurd h'.admits (h n' c')
    · have he : (s.step (.addTransaction tx)).valid=s.valid := by rw [hvalid,h']
      simp only [step] at he ⊢
      rw [he,hv]

section Admitted
variable {tx : ExecutableTxWithHash M.Content} {txNonce currentNonce a : Felt} {s t : Session M}

section
variable (h : Admitted tx txNonce currentNonce s t)
include h

theorem Admitted.startNonce (a : Felt) :
    t.startNonce a=s.startNonce a := by
  simp only [Session.startNonce,h.opened]

theorem Admitted.state :
    t.pool.validator.state=s.pool.validator.state := by
  rw [h.validator]

theorem Admitted.currentNonce_self :
    t.pool.validator.currentNonce tx.transaction.sender=some (currentNonce+1) := by
  simp [h.validator,TxValidator.currentNonce]

theorem Admitted.accountNonces (a : Felt) :
    t.accountNonces a=s.accountNonces a++
      if tx.transaction.sender=a ∧ !tx.transaction.isL1Handler then [txNonce.val] else [] := by
  simp only [Session.accountNonces,h.valid,List.filterMap_append,List.append_cancel_left_eq]
  by_cases hc : tx.transaction.sender=a ∧ !tx.transaction.isL1Handler
  · simp only [List.filterMap_cons,if_pos hc,h.admits.nonce,Option.map_some,List.filterMap_nil]
  · simp only [List.filterMap_cons,if_neg hc,List.filterMap_nil]

theorem Admitted.other (ha : tx.transaction.sender≠a)
    (hs : s.InOrder a) : t.InOrder a where
  state := by rw [h.opened,h.state,hs.state]
  nonces := by
    simpa [h.validator,TxValidator.currentNonce,SortedMap.get_put_ne ha,h.startNonce,
      h.accountNonces,ha] using hs.nonces
  below := by
    intro id hid hida
    rw [h.validator,SortedMap.get_put_ne ha]
    refine hs.below id ?_ hida
    cases h.ids with
    | inl hp => exact hp.mem_iff.mp hid
    | inr hp =>
      cases List.mem_cons.mp (hp.mem_iff.mp hid) with
      | inl he =>
        subst he
        exact absurd hida ha
      | inr hm => exact hm
  distinct := by
    unfold DistinctNonces
    cases h.ids with
    | inl hp => exact (hp.filter _).nodup_iff.mpr hs.distinct
    | inr hp =>
      rw [(hp.filter _).nodup_iff,List.filter_cons_of_neg (by simpa using ha)]
      exact hs.distinct

section
variable (hs : s.InOrder tx.transaction.sender)
include hs

theorem Admitted.nonces_before : s.startNonce tx.transaction.sender≤currentNonce ∧
      s.accountNonces tx.transaction.sender=List.range' (s.startNonce tx.transaction.sender).val
        (currentNonce.val-(s.startNonce tx.transaction.sender).val) := by
  simpa only [h.admits.current] using hs.nonces

theorem Admitted.own (hl : !tx.transaction.isL1Handler) (hn : txNonce=currentNonce)
    (hw : currentNonce.val+1<feltPrime) : t.InOrder tx.transaction.sender where
  state := by rw [h.opened,h.state,hs.state]
  nonces := by
    obtain ⟨hle,hr⟩ := h.nonces_before hs
    have hv := Felt.val_add_one_of_lt hw
    have hsucc : currentNonce.val+1-(s.startNonce tx.transaction.sender).val=
        currentNonce.val-(s.startNonce tx.transaction.sender).val+1 :=
      Nat.succ_sub (Fin.le_def.mp hle)
    rw [h.currentNonce_self]
    simp only [h.startNonce,h.accountNonces,hl,hr,and_self,if_true]
    refine ⟨?_,?_⟩
    · rw [Fin.le_def] at hle ⊢
      omega
    · rw [hv,hsucc,List.range'_concat,hn]
      congr 2
      rw [Fin.le_def] at hle
      omega
  below := by
    intro id hid hida
    refine ⟨currentNonce+1,by rw [h.validator,SortedMap.get_put_self],?_⟩
    rw [Fin.lt_def,Felt.val_add_one_of_lt hw]
    have hold : ∀ id∈s.ids, id.sender=tx.transaction.sender → id.nonce.val<currentNonce.val :=
      fun id hid hida => hs.lt_current h.admits.current hid hida
    cases h.ids with
    | inl hp =>
      have := hold id (hp.mem_iff.mp hid) hida
      omega
    | inr hp =>
      cases List.mem_cons.mp (hp.mem_iff.mp hid) with
      | inl he =>
        subst he
        rw [hn]
        exact Nat.lt_succ_self _
      | inr hm =>
        have := hold id hm hida
        omega
  distinct := by
    unfold DistinctNonces
    cases h.ids with
    | inl hp => exact (hp.filter _).nodup_iff.mpr hs.distinct
    | inr hp =>
      rw [(hp.filter _).nodup_iff,List.filter_cons_of_pos (by simp),List.nodup_cons]
      refine ⟨?_,hs.distinct⟩
      intro hm
      have hlt := hs.lt_current h.admits.current (List.mem_filter.mp hm).1 rfl
      rw [hn] at hlt
      exact lt_irrefl _ hlt

theorem Admitted.keeps (ht : t.Consecutive tx.transaction.sender) :
    !tx.transaction.isL1Handler ∧ txNonce=currentNonce ∧ currentNonce.val+1<feltPrime := by
  obtain ⟨hle,hr⟩ := h.nonces_before hs
  rw [Fin.le_def] at hle
  simp only [Consecutive,h.currentNonce_self,h.startNonce,h.accountNonces,hr,true_and] at ht
  obtain ⟨hstart,hp⟩ := ht
  rw [Fin.le_def] at hstart
  have hlen := hp.length_eq
  have hw : currentNonce.val+1<feltPrime := by
    by_contra hw
    have hlt := currentNonce.isLt
    have hp : 1<feltPrime := by decide
    rw [Felt.val_add_one_of_not_lt hw] at hstart hlen
    simp only [List.length_append,List.length_range'] at hlen
    omega
  have hsucc : currentNonce.val+1-(s.startNonce tx.transaction.sender).val=
      currentNonce.val-(s.startNonce tx.transaction.sender).val+1 := Nat.succ_sub hle
  rw [Felt.val_add_one_of_lt hw,hsucc] at hp hlen
  cases hl : tx.transaction.isL1Handler with
  | true => simp [hl] at hlen
  | false =>
    refine ⟨rfl,?_,hw⟩
    simp only [hl,Bool.not_false,if_true,List.range'_concat,List.perm_append_left_iff,
      List.singleton_perm_singleton] at hp
    apply Fin.ext
    omega

end

end

end Admitted

theorem judged_keeps {a : Felt} {s t : Session M} {tx : ExecutableTxWithHash M.Content}
    (hs : s.InOrder a) (h : (∃ txNonce currentNonce, Admitted tx txNonce currentNonce s t) ∨
      (∀ txNonce currentNonce, ¬s.pool.validator.Admits tx txNonce currentNonce) ∧ t=s) :
    (s.Keeps a (.validate tx) → t.InOrder a) ∧ (t.Consecutive a → s.Keeps a (.validate tx)) := by
  cases h with
  | inr h =>
    obtain ⟨hno,rfl⟩ := h
    exact ⟨fun _ => hs,fun _ _ n c hadm => absurd hadm (hno n c)⟩
  | inl h =>
    obtain ⟨n,c,h⟩ := h
    by_cases ha : tx.transaction.sender=a
    · subst ha
      constructor
      · intro hk
        obtain ⟨hl,hn,hw⟩ := hk rfl n c h.admits
        exact h.own hs hl hn hw
      · intro hc _ n' c' hadm
        cases hadm.nonce.symm.trans h.admits.nonce
        cases hadm.current.symm.trans h.admits.current
        exact h.keeps hs hc
    · exact ⟨fun _ => h.other ha hs,fun _ hsender => absurd hsender ha⟩

theorem update_inOrder {a : Felt} {s : Session M} {newState : StateProvider M.ContractClass}
    {blockEnv : M.BlockEnv} (hs : s.InOrder a) :
    (s.Keeps a (.update newState blockEnv) → (s.step (.update newState blockEnv)).InOrder a) ∧
    ((s.step (.update newState blockEnv)).Consecutive a → s.Keeps a (.update newState blockEnv)) := by
  have hcur : (s.step (.update newState blockEnv)).pool.validator.currentNonce a=
      match s.pool.validator.poolNonces.get a with
      | some kept => some kept
      | none =>
        match newState.nonce a with
        | .ok nonce => some (nonce.getD 0)
        | .error _ => none := rfl
  have hstart : (s.step (.update newState blockEnv)).startNonce a=
      match newState.nonce a with
      | .ok nonce => nonce.getD 0
      | .error _ => (s.pool.validator.poolNonces.get a).getD 0 := rfl
  have hnil : (s.step (.update newState blockEnv)).accountNonces a=[] := rfl
  constructor
  · intro hk
    refine ⟨rfl,?_,hs.below,hs.distinct⟩
    rw [hcur,hstart,hnil]
    cases hkept : s.pool.validator.poolNonces.get a with
    | none => cases newState.nonce a <;> simp
    | some kept =>
      cases hn : newState.nonce a with
      | error e => simp
      | ok nonce => simp [hk nonce kept hn hkept]
  · intro hc nonce kept hn hkept
    simp only [Consecutive,hcur,hstart,hnil,hn,hkept] at hc
    obtain ⟨hle,hp⟩ := hc
    have hlen := hp.length_eq
    rw [Fin.le_def] at hle
    simp only [List.length_nil,List.length_range'] at hlen
    apply Fin.ext
    omega

theorem removeTransactions_inOrder {a : Felt} {s : Session M} {hashes : List Felt}
    (hs : s.InOrder a) : (s.step (.removeTransactions hashes)).InOrder a := by
  have hsub : (s.step (.removeTransactions hashes)).ids.Sublist s.ids :=
    List.filter_sublist.map PendingTx.id
  exact ⟨hs.state,hs.nonces,fun id hid => hs.below id (hsub.subset hid),
    hs.distinct.sublist (hsub.filter _)⟩

theorem step_inOrder {a : Felt} {s : Session M} (call : PoolCall M) (hs : s.InOrder a) :
    (s.Keeps a call → (s.step call).InOrder a) ∧ ((s.step call).Consecutive a → s.Keeps a call) := by
  cases call with
  | validate tx => exact judged_keeps hs (s.step_validate tx)
  | addTransaction tx => exact judged_keeps hs (s.step_addTransaction tx)
  | update newState blockEnv => exact update_inOrder hs
  | removeTransactions hashes => exact ⟨fun _ => removeTransactions_inOrder hs,fun _ => trivial⟩

theorem new_inOrder (cfgEnv : M.CfgEnv) (blockEnv : M.BlockEnv) (flags : ExecutionFlags)
    (state : StateProvider M.ContractClass) (a : Felt) :
    (Session.new cfgEnv blockEnv flags state).InOrder a := by
  refine ⟨rfl,?_,by simp [Session.ids,Session.new],List.nodup_nil⟩
  have hcur : (Session.new cfgEnv blockEnv flags state).pool.validator.currentNonce a=
      match state.nonce a with
      | .ok nonce => some (nonce.getD 0)
      | .error _ => none := rfl
  rw [hcur]
  cases hn : state.nonce a with
  | error e => simp [accountNonces,Session.new]
  | ok nonce => simp [accountNonces,Session.new,startNonce,hn]

end Session

/-- At every moment of the use of a pool the nonces judged valid are consecutive and those in
the pool distinct, exactly if every call meets the condition. -/
theorem nonces_consecutive_iff (cfgEnv : M.CfgEnv) (blockEnv : M.BlockEnv) (flags : ExecutionFlags)
    (state : StateProvider M.ContractClass) (calls : List (PoolCall M)) (a : Felt) :
    (∀ before, before<+:calls →
      (before.foldl Session.step (.new cfgEnv blockEnv flags state)).Consecutive a ∧
      (before.foldl Session.step (.new cfgEnv blockEnv flags state)).DistinctNonces a) ↔
    ∀ before call, before++[call]<+:calls →
      (before.foldl Session.step (.new cfgEnv blockEnv flags state)).Keeps a call := by
  refine Transition.foldl_always_iff (I := Session.InOrder a)
    (P := fun s => s.Consecutive a ∧ s.DistinctNonces a) ?_ ?_ ?_
    (Session.new_inOrder cfgEnv blockEnv flags state a) calls
  · exact fun s h => ⟨h.consecutive,h.distinct⟩
  · exact fun s call h => (Session.step_inOrder call h).1
  · exact fun s call h hp => (Session.step_inOrder call h).2 hp.1

/-- Account transactions that only have to carry at least the nonce of the state. -/
def relaxedVm : Vm where
  CfgEnv := Unit
  BlockEnv := Unit
  Content := Unit
  ContractClass := Unit
  performValidations _ _ state _ tx :=
    match tx.transaction.nonce,state.nonce tx.transaction.sender with
    | some txNonce,.ok nonce =>
      if nonce.getD 0≤txNonce then .ok ()
      else .error (.transactionPreValidationError
        (.invalidNonce tx.transaction.sender (nonce.getD 0) txNonce))
    | _,_ => .error (.stateError "")

def zeroNonces : StateProvider Unit := ⟨fun _ => .ok (some 0),fun _ => .ok none⟩

def invokeV3 (nonce sender hash : Felt) : ExecutableTxWithHash Unit :=
  ⟨.invoke (.v3 nonce sender),hash,()⟩

def nonceTwice : List (PoolCall relaxedVm) :=
  [.addTransaction (invokeV3 0 1 100),.addTransaction (invokeV3 0 1 101)]

/-- Both transactions are admitted, and the pool nonce is one too high. -/
theorem same_nonce_admitted_twice :
    (nonceTwice.foldl Session.step (.new () () {} zeroNonces)).ids=[⟨1,0⟩,⟨1,0⟩] ∧
    (nonceTwice.foldl Session.step (.new () () {} zeroNonces)).pool.validator.poolNonce 1=
      .ok (some 2) ∧
    ¬(nonceTwice.foldl Session.step (.new () () {} zeroNonces)).Consecutive 1 ∧
    ¬(nonceTwice.foldl Session.step (.new () () {} zeroNonces)).DistinctNonces 1 := by
  have hids : (nonceTwice.foldl Session.step (.new () () {} zeroNonces)).ids=[⟨1,0⟩,⟨1,0⟩] := by
    decide
  refine ⟨hids,by rfl,?_,?_⟩
  · intro h
    have hp : ([0,0] : List Nat).Perm [0,1] := h.2
    exact absurd hp (by decide)
  · unfold Session.DistinctNonces
    rw [hids]
    decide

end Katana.TransactionPool
