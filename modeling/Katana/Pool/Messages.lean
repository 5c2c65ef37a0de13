import Katana.Pool.Nonces

/-! Messages from L1: the loop of the messaging service over the gathered messages
(gather_messages of messaging/service.rs), and when a message enters the pool. -/
namespace Katana.TransactionPool
variable {M : Vm}

structure L1Message (M : Vm) where
  tx : L1HandlerTx
  hash : Felt
  content : M.Content

def L1Message.executable (m : L1Message M) : ExecutableTxWithHash M.Content :=
  ⟨.l1Handler m.tx,m.hash,m.content⟩

/-- What add_transaction returns is dropped. A panic ends the loop. -/
def gatherMessages : List (L1Message M) → TxPool M → TxPool M
  | [],pool => pool
  | m::ms,pool =>
    match pool.addTransaction m.executable with
    | (none,pool') => pool'
    | (some _,pool') => gatherMessages ms pool'

def InPool (m : L1Message M) (pool : TxPool M) : Prop :=
  ∃ t∈pool.transactions, t.tx=m.executable

theorem l1Handler_admits_iff (v : TxValidator M) (m : L1Message M) (n c : Felt) :
    v.Admits m.executable n c ↔
      n=m.tx.nonce ∧ v.currentNonce m.tx.contractAddress=some c ∧ m.tx.nonce≤c := by
  constructor
  · intro h
    have hn : n=m.tx.nonce := (Option.some.inj h.nonce).symm
    exact ⟨hn,h.current,hn ▸ h.le⟩
  · intro h
    obtain ⟨hn,hc,hle⟩ := h
    subst hn
    exact ⟨rfl,hc,hle,Or.inl rfl⟩

theorem poolNonce_put (v : TxValidator M) (a b nonce : Felt) :
    ({ v with poolNonces := v.poolNonces.put a nonce } : TxValidator M).poolNonce b=
      if a=b then .ok (some nonce) else v.poolNonce b := by
  simp only [TxValidator.poolNonce,SortedMap.get_put]
  by_cases h : a=b
  · simp [h]
  · simp [h]

theorem poolNonce_ne_of_currentNonce {v : TxValidator M} {a current : Felt}
    (h : v.currentNonce a=some current) : v.poolNonce a≠.ok (some (current+1)) := by
  unfold TxValidator.currentNonce at h
  unfold TxValidator.poolNonce
  cases hk : v.poolNonces.get a with
  | some kept =>
    rw [hk] at h
    cases h
    simpa using (Felt.add_one_ne current).symm
  | none =>
    rw [hk] at h
    cases hn : v.state.nonce a with
    | error e => simp
    | ok nonce =>
      rw [hn] at h
      cases h
      cases nonce with
      | none => simp
      | some nonce => simpa using (Felt.add_one_ne nonce).symm

/-- A message enters the pool, and no nonce reported for an account changes, exactly if its
nonce is at most the one the target contract has and the target is not an account. -/
theorem l1Handler_enters_iff (isAccount : Felt → Prop) (pool : TxPool M) (m : L1Message M) :
    ((pool.addTransaction m.executable).1=some (.ok m.hash) ∧
      InPool m (pool.addTransaction m.executable).2 ∧
      ∀ a, isAccount a → (pool.addTransaction m.executable).2.validator.poolNonce a=
        pool.validator.poolNonce a) ↔
    (∃ current, pool.validator.currentNonce m.tx.contractAddress=some current ∧
      m.tx.nonce≤current) ∧ ¬isAccount m.tx.contractAddress := by
  obtain ⟨n,c,p,h,hok,hv,hp⟩ | ⟨h,hr,hv⟩ := pool.addTransaction_cases m.executable
  · obtain ⟨_,hc,hle⟩ := (l1Handler_admits_iff _ _ _ _).mp h
    have hnonce : ∀ a, (pool.addTransaction m.executable).2.validator.poolNonce a=
        if m.tx.contractAddress=a then .ok (some (c+1)) else pool.validator.poolNonce a := by
      intro a
      rw [hv]
      exact poolNonce_put _ _ _ _
    constructor
    · intro hall
      refine ⟨⟨c,hc,hle⟩,?_⟩
      intro ha
      have he := hall.2.2 _ ha
      rw [hnonce,if_pos rfl] at he
      exact poolNonce_ne_of_currentNonce hc he.symm
    · intro hcond
      refine ⟨hok,⟨_,hp.mem_iff.mpr List.mem_cons_self,rfl⟩,?_⟩
      intro a ha
      rw [hnonce,if_neg]
      intro he
      subst he
      exact hcond.2 ha
  · constructor
    · intro hall
      exact absurd hall.1 (hr _)
    · intro hcond
      obtain ⟨⟨c,hc,hle⟩,_⟩ := hcond
      exact absurd ((l1Handler_admits_iff _ _ _ _).mpr ⟨rfl,hc,hle⟩) (h _ _)

/-- The messages that add_transaction turns away at their turn. -/
def turnedAway : List (L1Message M) → TxPool M → List (L1Message M)
  | [],_ => []
  | m::ms,pool =>
    match pool.addTransaction m.executable with
    | (none,_) => m::ms
    | (some (.ok _),pool') => turnedAway ms pool'
    | (some (.error _),pool') => m::turnedAway ms pool'

theorem gatherMessages_perm (ms : List (L1Message M)) (pool : TxPool M) :
    ((gatherMessages ms pool).transactions.map PendingTx.tx++
      (turnedAway ms pool).map L1Message.executable).Perm
      (ms.map L1Message.executable++pool.transactions.map PendingTx.tx) := by
  induction ms generalizing pool with
  | nil => simp [gatherMessages,turnedAway]
  | cons m ms ih =>
    unfold gatherMessages turnedAway
    obtain ⟨n,c,p,h,hok,hv,hp⟩ | ⟨h,hr,hv⟩ := pool.addTransaction_cases m.executable
    · cases ha : pool.addTransaction m.executable with
      | mk r pool' =>
        rw [ha] at hok hp
        subst hok
        refine (ih pool').trans ?_
        have hmap := (hp.map PendingTx.tx).append_left (ms.map L1Message.executable)
        exact hmap.trans List.perm_middle
    · cases ha : pool.addTransaction m.executable with
      | mk r pool' =>
        rw [ha] at hr hv
        subst hv
        cases r with
        | none => exact List.perm_append_comm
        | some r =>
          cases r with
          | ok hash => exact absurd rfl (hr hash)
          | error e => exact List.perm_middle.trans ((ih pool').cons _)

def messageTo (nonce contractAddress hash : Felt) : L1Message relaxedVm :=
  ⟨⟨nonce,contractAddress⟩,hash,()⟩

def emptyPool : TxPool relaxedVm where
  validator := { cfgEnv := (), blockEnv := (), executionFlags := {}, state := zeroNonces }
  ordering := {}

/-- A message with nonce 5 for a contract with nonce 0 is lost. -/
theorem message_turned_away :
    (gatherMessages [messageTo 5 1 100] emptyPool).transactions.length=0 ∧
    (emptyPool.addTransaction (messageTo 5 1 100).executable).1=
      some (.error (.invalidTransaction (.invalidNonce 1 0 5))) := by
  exact ⟨by decide,by rfl⟩

end Katana.TransactionPool
