import Katana.Pool.Validator

/-! The transaction pool (pool.rs, ordering.rs and tx.rs of the pool crate), for any
transactions, validator and ordering. -/
namespace Katana.TransactionPool

class PoolTransaction (T : Type) where
  hash : T → Felt
  nonce : T → Option Felt
  sender : T → Felt

/-- A validation returns an outcome, an error or, with none, not at all. -/
class Validator (V : Type) (T : outParam Type) where
  validate : V → T → Option (Except Error (ValidationOutcome T)) × V

class PoolOrd (O T : Type) (P : outParam Type) where
  priority : O → T → P × O
  cmp : P → P → Ordering

structure TxId where
  sender : Felt
  nonce : Felt
  deriving DecidableEq, Repr

structure PendingTx (T P : Type) where
  id : TxId
  tx : T
  priority : P

inductive PoolError where
  | invalidTransaction (e : InvalidTransactionError)
  | internal (e : InternalError)
  deriving DecidableEq, Repr

section
variable {T P O : Type} [PoolOrd O T P]

/-- An equal one is placed after the existing ones. -/
def afterEqual : Ordering → Ordering
  | .eq => .gt
  | o => o

/-- Transactions of one sender are ordered by their nonces. -/
def PendingTx.cmp (O : Type) [PoolOrd O T P] (a b : PendingTx T P) : Ordering :=
  if a.id.sender=b.id.sender then afterEqual (compare a.id.nonce b.id.nonce)
  else afterEqual (PoolOrd.cmp O T a.priority b.priority)

/-- Insertion in a BTreeSet: an element that compares equal is kept instead. -/
def insertPending (O : Type) [PoolOrd O T P] (tx : PendingTx T P) :
    List (PendingTx T P) → List (PendingTx T P)
  | [] => [tx]
  | t::ts =>
    match tx.cmp O t with
    | .lt => tx::t::ts
    | .eq => t::ts
    | .gt => t::insertPending O tx ts

theorem PendingTx.cmp_ne_eq (a b : PendingTx T P) : a.cmp O b≠.eq := by
  have h : ∀ o, afterEqual o≠.eq := by
    intro o
    cases o <;> simp [afterEqual]
  unfold PendingTx.cmp
  split
  · exact h _
  · exact h _

theorem insertPending_perm (tx : PendingTx T P) (ts : List (PendingTx T P)) :
    (insertPending O tx ts).Perm (tx::ts) := by
  induction ts with
  | nil => exact List.Perm.refl _
  | cons t ts ih =>
    unfold insertPending
    cases hc : tx.cmp O t with
    | lt => exact List.Perm.refl _
    | eq => exact absurd hc (PendingTx.cmp_ne_eq tx t)
    | gt => exact (ih.cons t).trans (List.Perm.swap tx t ts)

end

structure Pool (T V O P : Type) where
  transactions : List (PendingTx T P) := []
  validator : V
  ordering : O

namespace Pool
variable {T V O P : Type} [PoolTransaction T] [Validator V T] [PoolOrd O T P]

/-- Only a transaction that is judged valid enters the pool; the hash is returned. None is
a panic. -/
def addTransaction (tx : T) (pool : Pool T V O P) :
    Option (Except PoolError Felt) × Pool T V O P :=
  match PoolTransaction.nonce tx with
  | none => (none,pool)
  | some nonce =>
    match Validator.validate pool.validator tx with
    | (none,v) => (none,{ pool with validator := v })
    | (some (.ok (.valid tx')),v) =>
      let (priority,ordering) := PoolOrd.priority pool.ordering tx'
      (some (.ok (PoolTransaction.hash tx)),
        ⟨insertPending O ⟨⟨PoolTransaction.sender tx,nonce⟩,tx',priority⟩ pool.transactions,v,
          ordering⟩)
    | (some (.ok (.invalid _ error)),v) =>
      (some (.error (.invalidTransaction error)),{ pool with validator := v })
    | (some (.ok (.dependent tx' txNonce currentNonce)),v) =>
      (some (.error (.invalidTransaction
        (.invalidNonce (PoolTransaction.sender tx') currentNonce txNonce))),
        { pool with validator := v })
    | (some (.error e),v) => (some (.error (.internal e.error)),{ pool with validator := v })

def get (hash : Felt) (pool : Pool T V O P) : Option T :=
  (pool.transactions.find? (fun t => PoolTransaction.hash t.tx=hash)).map (fun t => t.tx)

def removeTransactions (hashes : List Felt) (pool : Pool T V O P) : Pool T V O P :=
  { pool with transactions :=
      pool.transactions.filter (fun t => !hashes.contains (PoolTransaction.hash t.tx)) }

end Pool

/-- Transactions are numbered in the order they come. -/
structure FiFo where
  nonce : Nat := 0
  deriving DecidableEq, Repr

instance (T : Type) : PoolOrd FiFo T Nat where
  priority o _ := (o.nonce,⟨(o.nonce+1)%2^64⟩)
  cmp := compare

instance (Content : Type) : PoolTransaction (ExecutableTxWithHash Content) where
  hash := ExecutableTxWithHash.hash
  nonce tx := tx.transaction.nonce
  sender tx := tx.transaction.sender

instance (M : Vm) : Validator (TxValidator M) (ExecutableTxWithHash M.Content) where
  validate := TxValidator.validate

abbrev TxPool (M : Vm) := Pool (ExecutableTxWithHash M.Content) (TxValidator M) FiFo Nat

namespace TxPool
variable {M : Vm}

theorem addTransaction_cases (pool : TxPool M) (tx : ExecutableTxWithHash M.Content) :
    (∃ txNonce currentNonce priority, pool.validator.Admits tx txNonce currentNonce ∧
      (pool.addTransaction tx).1=some (.ok tx.hash) ∧
      (pool.addTransaction tx).2.validator=
        { pool.validator with
          poolNonces := pool.validator.poolNonces.put tx.transaction.sender (currentNonce+1) } ∧
      (pool.addTransaction tx).2.transactions.Perm
        (⟨⟨tx.transaction.sender,txNonce⟩,tx,priority⟩::pool.transactions)) ∨
    (∀ txNonce currentNonce, ¬pool.validator.Admits tx txNonce currentNonce) ∧
      (∀ hash, (pool.addTransaction tx).1≠some (.ok hash)) ∧ (pool.addTransaction tx).2=pool := by
  obtain ⟨n,c,h,hv⟩ | ⟨h,hr,hv⟩ := pool.validator.validate_cases tx
  · refine Or.inl ⟨n,c,pool.ordering.nonce,h,?_⟩
    have ha : pool.addTransaction tx=(some (.ok tx.hash),
        ⟨insertPending FiFo ⟨⟨tx.transaction.sender,n⟩,tx,pool.ordering.nonce⟩ pool.transactions,
          (pool.validator.validate tx).2,⟨(pool.ordering.nonce+1)%2^64⟩⟩) := by
      simp only [Pool.addTransaction,PoolTransaction.nonce,h.nonce,Validator.validate,hv]
      rfl
    rw [ha,hv]
    exact ⟨rfl,rfl,insertPending_perm _ _⟩
  · refine Or.inr ⟨h,?_⟩
    unfold Pool.addTransaction
    cases hn : PoolTransaction.nonce tx with
    | none => exact ⟨by simp,rfl⟩
    | some nonce =>
      change (pool.validator.validate tx).2=pool.validator at hv
      simp only [Validator.validate]
      cases hp : pool.validator.validate tx with
      | mk r v =>
        rw [hp] at hr hv
        subst hv
        cases r with
        | none => exact ⟨by simp,rfl⟩
        | some r =>
          cases r with
          | error e => exact ⟨by simp,rfl⟩
          | ok outcome =>
            cases outcome with
            | valid tx' => exact absurd rfl (hr tx')
            | invalid tx' e | dependent tx' n c => exact ⟨by simp,rfl⟩

end TxPool
end Katana.TransactionPool
