import Katana.Rpc.GetEvents
import Katana.Service.Removal

/-! Transactions by hash (transaction and transaction_status of rpc/starknet/mod.rs). They are
looked for in the database, the pending block, the fork and the pool; each configuration of
the node leaves out some of them. -/
namespace Katana.Rpc
open TransactionPool
open Service (ExecutionResult)
variable {P : Payloads} {K : Backend P} {T V O Pr : Type} [PoolTransaction T]

/-- What the handlers read of receipts and pooled transactions. -/
structure TxViews (P : Payloads) (T : Type) where
  revertReason : P.Receipt → Option String
  txWithHash : T → TxWithHash P

def executionStatus : Option String → ExecutionStatus
  | some reason => .reverted reason
  | none => .succeeded

def accepted : FinalityStatus → ExecutionStatus → TransactionStatus
  | .acceptedOnL1,status => .acceptedOnL1 status
  | .acceptedOnL2,status => .acceptedOnL2 status

def PendingExecutor.find (executor : PendingExecutor K) (hash : Felt) :
    Option (TxWithHash P × ExecutionResult (P.Receipt × K.Trace)) :=
  executor.transactions.find? (fun r => r.1.hash=hash)

namespace StarknetApi
variable (api : StarknetApi K) (views : TxViews P T) (pool : Pool T V O Pr)

/-- A forked node does not look into the pool. -/
def transaction (hash : Felt) : RpcM (TxWithHash P) := do
  let result := match ← ofProvider (transactionByHash api.db hash) with
    | some tx => some tx
    | none => api.pendingExecutor.bind (fun executor => (executor.find hash).map Prod.fst)
  match result with
  | some tx => return tx
  | none =>
    match api.forkedClient with
    | some client => ofForking (client.getTransactionByHash hash)
    | none => okOrNotFound .txnHashNotFound ((pool.get hash).map views.txWithHash)

/-- With a pending executor the answer is found there or not at all. -/
def transactionStatus (hash : Felt) : RpcM TransactionStatus := do
  match ← ofProvider (Katana.transactionStatus api.db hash) with
  | some status =>
    match ← ofProvider (receiptByHash api.db hash) with
    | none => .error (.err (.unexpectedError
      (.text "Transaction hash exist, but the receipt is missing")))
    | some receipt => return accepted status (executionStatus (views.revertReason receipt))
  | none =>
    match api.pendingExecutor with
    | some executor =>
      match (← okOrNotFound .txnHashNotFound (executor.find hash)).2 with
      | .failed _ => return .rejected
      | .success res => return .acceptedOnL2 (executionStatus (views.revertReason res.1))
    | none =>
      match api.forkedClient with
      | some client => ofForking (client.getTransactionStatus hash)
      | none =>
        let _ ← okOrNotFound .txnHashNotFound (pool.get hash)
        return .received

end StarknetApi

/-- A transaction of the forked network. It is accepted, in a block or in the pending one. -/
structure RemoteTx (P : Payloads) where
  tx : TxWithHash P
  receipt : TxReceiptWithBlockInfo P
  finality : FinalityStatus
  execution : ExecutionStatus

def RemoteTx.status (r : RemoteTx P) : TransactionStatus := accepted r.finality r.execution

theorem RemoteTx.status_ne (r : RemoteTx P) : r.status≠.received ∧ r.status≠.rejected := by
  rw [RemoteTx.status]
  cases r.finality with
  | acceptedOnL1 | acceptedOnL2 => simp [accepted]

def orNotFound {α : Type} : Option α → Except StarknetApiError α
  | some a => .ok a
  | none => .error .txnHashNotFound

/-- The network answers for the transactions it has, and knows no other hash. -/
structure RemoteProvider.Answers (provider : RemoteProvider P)
    (remote : Felt → Option (RemoteTx P)) : Prop where
  transaction : ∀ hash, provider.getTransactionByHash hash=
    orNotFound ((remote hash).map RemoteTx.tx)
  receipt : ∀ hash, provider.getTransactionReceipt hash=
    orNotFound ((remote hash).map RemoteTx.receipt)
  status : ∀ hash, provider.getTransactionStatus hash=
    orNotFound ((remote hash).map RemoteTx.status)

inductive Place where
  | database
  | pending
  | fork
  | pool
  deriving DecidableEq, Repr

/-- A node with the chain in its database and, if it is forked, the network behind the fork. The
transactions of a block have hashes of their own. -/
structure Node (K : Backend P) (T V O Pr : Type) where
  api : StarknetApi K
  views : TxViews P T
  pool : Pool T V O Pr
  blocks : List (BlockInput P)
  remote : Felt → Option (RemoteTx P)
  db : api.db=insertBlocks K.codecs blocks
  numbers : DistinctNumbers blocks
  hashes : DistinctHashes blocks
  aligned : Aligned blocks
  pendingHashes : ∀ executor, api.pendingExecutor=some executor →
    (executor.transactions.map (fun r => r.1.hash)).Nodup
  answers : ∀ client, api.forkedClient=some client → client.provider.Answers remote

namespace Node
variable (n : Node K T V O Pr) (hash : Felt)

def transaction : RpcM (TxWithHash P) := n.api.transaction n.views n.pool hash

def transactionStatus : RpcM TransactionStatus :=
  n.api.transactionStatus n.views n.pool hash

/-- The transaction with the hash is at the place, and has the status of the place. -/
def Located (tx : TxWithHash P) (status : TransactionStatus) : Place → Prop
  | .database => ∃ b∈n.blocks, ∃ (i : Nat) (receipt : P.Receipt), b.body[i]?=some tx ∧
    tx.hash=hash ∧ b.receipts[i]?=some receipt ∧
    status=accepted b.block.status (executionStatus (n.views.revertReason receipt))
  | .pending => ∃ executor res, n.api.pendingExecutor=some executor ∧
    (tx,ExecutionResult.success res)∈executor.transactions ∧ tx.hash=hash ∧
    status=.acceptedOnL2 (executionStatus (n.views.revertReason res.1))
  | .fork => ∃ client r blockHash number, n.api.forkedClient=some client ∧
    n.remote hash=some r ∧ r.receipt.block=.block blockHash number ∧ number ≤ client.block ∧
    tx=r.tx ∧ status=r.status
  | .pool => ∃ t, n.pool.get hash=some t ∧ tx=n.views.txWithHash t ∧ status=.received

def IsAt (place : Place) : Prop := ∃ tx status, n.Located hash tx status place

def OnlyAt (place : Place) : Prop := ∀ q, n.IsAt hash q ↔ q=place

def Nowhere : Prop := ∀ q, ¬n.IsAt hash q

/-- The lookup of a hash is right: a transaction that is at one place is answered with the
status of the place, and a hash that is nowhere is not found. -/
def LookupComplete : Prop :=
  (∀ place tx status, n.OnlyAt hash place → n.Located hash tx status place →
    n.transaction hash=.ok tx ∧ n.transactionStatus hash=.ok status) ∧
  (n.Nowhere hash → n.transaction hash=.error (.err .txnHashNotFound) ∧
    n.transactionStatus hash=.error (.err .txnHashNotFound))

/-- The pending block has the hash, for a transaction that failed. -/
def FailedPending : Prop :=
  ∃ executor tx e, n.api.pendingExecutor=some executor ∧
    (tx,ExecutionResult.failed e)∈executor.transactions ∧ tx.hash=hash

section Reads
variable {n hash} {tx : TxWithHash P} {status : TransactionStatus}

theorem located_database (h : n.Located hash tx status .database) :
    n.transaction hash=.ok tx ∧ n.transactionStatus hash=.ok status := by
  obtain ⟨b,hb,i,receipt,htx,rfl,hr,rfl⟩ := h
  obtain ⟨pre,post,he⟩ := List.append_of_mem hb
  have hd := n.numbers
  have hh := n.hashes
  have ha := n.aligned
  have hdb := n.db
  rw [he] at hd hh ha hdb
  have hreads := readsTx K.codecs ha hd hh htx
  have hstatus := transactionStatus_of_mem K.codecs ha hd hh htx
  rw [← hdb] at hreads hstatus
  constructor
  · simp only [transaction,StarknetApi.transaction,hreads.transaction,ofProvider,bind,Except.bind,
      pure,Except.pure]
  · simp only [transactionStatus,StarknetApi.transactionStatus,hstatus,hreads.receipt,hr,ofProvider,
      bind,Except.bind,pure,Except.pure]

omit [PoolTransaction T] in
theorem pending_find {executor : PendingExecutor K}
    {r : TxWithHash P × ExecutionResult (P.Receipt × K.Trace)}
    (he : n.api.pendingExecutor=some executor) :
    executor.find hash=some r ↔ r∈executor.transactions ∧ r.1.hash=hash :=
  SortedMap.find_key_eq_some (n.pendingHashes executor he)

theorem find_none (hp : ¬n.IsAt hash .pending) (hfailed : ¬n.FailedPending hash) :
    n.api.pendingExecutor.bind (fun executor => executor.find hash)=none := by
  cases he : n.api.pendingExecutor with
  | none => rfl
  | some executor =>
    rw [Option.bind_some]
    cases hf : executor.find hash with
    | none => rfl
    | some r =>
      obtain ⟨tx,res⟩ := r
      obtain ⟨hmem,hh⟩ := (pending_find he).mp hf
      cases res with
      | failed e => exact absurd ⟨executor,tx,e,he,hmem,hh⟩ hfailed
      | success res => exact absurd ⟨tx,_,executor,res,he,hmem,hh,rfl⟩ hp

variable (hdb : ¬n.IsAt hash .database)
include hdb

theorem txNumber_none : n.api.db.get .txNumbers hash=none := by
  rw [n.db]
  refine txNumbers_none K.codecs n.hashes n.aligned (fun b hb tx htx he => hdb ?_)
  obtain ⟨i,hi⟩ := List.mem_iff_getElem?.mp htx
  have hlen := (List.getElem?_eq_some_iff.mp hi).1
  rw [← (n.aligned b hb).1] at hlen
  exact ⟨tx,_,b,hb,i,_,hi,he,List.getElem?_eq_getElem hlen,rfl⟩

theorem transaction_eq :
    n.transaction hash=match n.api.pendingExecutor.bind (fun executor => executor.find hash) with
      | some r => .ok r.1
      | none =>
        match n.api.forkedClient with
        | some _ => okOrNotFound .txnHashNotFound ((n.remote hash).map RemoteTx.tx)
        | none => okOrNotFound .txnHashNotFound ((n.pool.get hash).map n.views.txWithHash) := by
  simp only [transaction,StarknetApi.transaction,transactionByHash,txNumber_none hdb,ofProvider,bind,
    Except.bind,pure,Except.pure]
  have hfind : n.api.pendingExecutor.bind (fun executor => (executor.find hash).map Prod.fst)=
      (n.api.pendingExecutor.bind (fun executor => executor.find hash)).map Prod.fst := by
    cases n.api.pendingExecutor with
    | none | some executor => rfl
  rw [hfind]
  cases n.api.pendingExecutor.bind (fun executor => executor.find hash) with
  | some r => rfl
  | none =>
    cases hclient : n.api.forkedClient with
    | none => rfl
    | some client =>
      simp only [Option.map_none,ForkedClient.getTransactionByHash,
        (n.answers client hclient).transaction]
      cases n.remote hash with
      | none | some r => rfl

theorem transactionStatus_eq :
    n.transactionStatus hash=match n.api.pendingExecutor with
      | some executor =>
        match executor.find hash with
        | none => .error (.err .txnHashNotFound)
        | some (_,.failed _) => .ok .rejected
        | some (_,.success res) =>
          .ok (.acceptedOnL2 (executionStatus (n.views.revertReason res.1)))
      | none =>
        match n.api.forkedClient with
        | some client =>
          match n.remote hash with
          | none => .error (.err .txnHashNotFound)
          | some r =>
            match r.receipt.block with
            | .block _ number =>
              if client.block<number then .error (.err .blockNotFound) else .ok r.status
            | .pending => .ok r.status
        | none =>
          match n.pool.get hash with
          | none => .error (.err .txnHashNotFound)
          | some _ => .ok .received := by
  simp only [transactionStatus,StarknetApi.transactionStatus,Katana.transactionStatus,
    txNumber_none hdb,ofProvider,bind,Except.bind,pure,Except.pure]
  cases n.api.pendingExecutor with
  | some executor =>
    dsimp only
    cases executor.find hash with
    | none => rfl
    | some r =>
      obtain ⟨tx,res⟩ := r
      cases res with
      | failed e | success res => rfl
  | none =>
    cases hclient : n.api.forkedClient with
    | none =>
      dsimp only
      cases n.pool.get hash with
      | none | some t => rfl
    | some client =>
      have hanswers := n.answers client hclient
      simp only [ForkedClient.getTransactionStatus,ForkedClient.getTransactionReceipt,
        hanswers.receipt,hanswers.status,bind,Except.bind]
      cases n.remote hash with
      | none => rfl
      | some r =>
        obtain ⟨tx,⟨receipt,block⟩,finality,execution⟩ := r
        cases block with
        | pending => rfl
        | block blockHash number =>
          by_cases hlt : client.block<number
          · simp [orNotFound,Except.mapError,hlt,ofForking,ForkingError.toApi]
          · simp [orNotFound,Except.mapError,hlt,ofForking]

theorem located_pending (h : n.Located hash tx status .pending) :
    n.transaction hash=.ok tx ∧ n.transactionStatus hash=.ok status := by
  obtain ⟨executor,res,he,hmem,hh,rfl⟩ := h
  have hfind := (pending_find he).mpr ⟨hmem,hh⟩
  rw [transaction_eq hdb,transactionStatus_eq hdb]
  simp [he,hfind]

theorem located_fork (h : n.Located hash tx status .fork) (he : n.api.pendingExecutor=none) :
    n.transaction hash=.ok tx ∧ n.transactionStatus hash=.ok status := by
  obtain ⟨client,r,blockHash,number,hclient,hr,hblock,hle,rfl,rfl⟩ := h
  rw [transaction_eq hdb,transactionStatus_eq hdb]
  simp only [he,hclient,hr,hblock,Option.bind_none,if_neg (Nat.not_lt.mpr hle)]
  exact ⟨rfl,trivial⟩

theorem located_pool (h : n.Located hash tx status .pool) (he : n.api.pendingExecutor=none)
    (hclient : n.api.forkedClient=none) :
    n.transaction hash=.ok tx ∧ n.transactionStatus hash=.ok status := by
  obtain ⟨t,ht,rfl,rfl⟩ := h
  rw [transaction_eq hdb,transactionStatus_eq hdb]
  simp only [he,hclient,ht,Option.bind_none]
  exact ⟨rfl,trivial⟩

theorem status_of_executor {executor : PendingExecutor K} (he : n.api.pendingExecutor=some executor)
    (hp : ¬n.IsAt hash .pending) (hs : n.transactionStatus hash=.ok status) : status=.rejected := by
  rw [transactionStatus_eq hdb] at hs
  simp only [he] at hs
  cases hf : executor.find hash with
  | none => simp [hf] at hs
  | some r =>
    obtain ⟨tx,res⟩ := r
    obtain ⟨hmem,hh⟩ := (pending_find he).mp hf
    cases res with
    | failed e => simpa [hf] using hs.symm
    | success res => exact absurd ⟨tx,_,executor,res,he,hmem,hh,rfl⟩ hp

theorem status_of_fork {client : ForkedClient P} (he : n.api.pendingExecutor=none)
    (hclient : n.api.forkedClient=some client) : n.transactionStatus hash≠.ok .received := by
  rw [transactionStatus_eq hdb]
  simp only [he,hclient]
  cases n.remote hash with
  | none => simp
  | some r =>
    have hstatus := r.status_ne.1
    dsimp only
    cases r.receipt.block with
    | pending => simpa using hstatus
    | block blockHash number =>
      dsimp only
      split
      · simp
      · simpa using hstatus

end Reads

/-- The lookup of a hash is right if and only if: a transaction of the fork is looked for
without a pending executor, a transaction of the pool without a pending executor and a fork,
and a hash that is nowhere is neither that of a failed pending transaction nor known to the
network behind the fork. -/
theorem lookup_complete_iff (hash : Felt) :
    n.LookupComplete hash ↔
      (n.OnlyAt hash .fork → n.api.pendingExecutor=none) ∧
      (n.OnlyAt hash .pool → n.api.pendingExecutor=none ∧ n.api.forkedClient=none) ∧
      (n.Nowhere hash → ¬n.FailedPending hash ∧
        (n.api.forkedClient≠none → n.remote hash=none)) := by
  have hnot : ∀ {place q : Place}, n.OnlyAt hash place → q≠place → ¬n.IsAt hash q :=
    fun ho hq hi => hq ((ho _).mp hi)
  constructor
  · intro ⟨hat,hnowhere⟩
    refine ⟨fun ho => ?_,fun ho => ?_,fun hno => ⟨fun hfailed => ?_,fun hclient => ?_⟩⟩
    · obtain ⟨tx,status,hl⟩ := (ho .fork).mpr rfl
      have hs := (hat .fork tx status ho hl).2
      obtain ⟨_,r,_,_,_,_,_,_,_,rfl⟩ := hl
      cases he : n.api.pendingExecutor with
      | none => rfl
      | some executor =>
        have hrej := status_of_executor (hnot ho (by decide)) he (hnot ho (by decide)) hs
        exact absurd hrej r.status_ne.2
    · obtain ⟨tx,status,hl⟩ := (ho .pool).mpr rfl
      have hs := (hat .pool tx status ho hl).2
      obtain ⟨_,_,_,rfl⟩ := hl
      cases he : n.api.pendingExecutor with
      | some executor =>
        cases status_of_executor (hnot ho (by decide)) he (hnot ho (by decide)) hs
      | none =>
        cases hclient : n.api.forkedClient with
        | none => exact ⟨rfl,rfl⟩
        | some client => exact absurd hs (status_of_fork (hnot ho (by decide)) he hclient)
    · obtain ⟨executor,tx,e,he,hmem,hh⟩ := hfailed
      have ht := (hnowhere hno).1
      rw [transaction_eq (hno .database)] at ht
      simp [he,(pending_find he).mpr ⟨hmem,hh⟩] at ht
    · have ht := (hnowhere hno).1
      rw [transaction_eq (hno .database)] at ht
      obtain ⟨client,hc⟩ := Option.ne_none_iff_exists'.mp hclient
      cases hr : n.remote hash with
      | none => rfl
      | some r =>
        cases hf : n.api.pendingExecutor.bind (fun executor => executor.find hash) with
        | some r' => simp [hf] at ht
        | none => simp [hf,hc,hr,okOrNotFound] at ht
  · intro ⟨hfork,hpool,hnowhere⟩
    refine ⟨fun place tx status ho hl => ?_,fun hno => ?_⟩
    · cases place with
      | database => exact located_database hl
      | pending => exact located_pending (hnot ho (by decide)) hl
      | fork => exact located_fork (hnot ho (by decide)) hl (hfork ho)
      | pool => exact located_pool (hnot ho (by decide)) hl (hpool ho).1 (hpool ho).2
    · obtain ⟨hfailed,hremote⟩ := hnowhere hno
      have hfind := find_none (hno .pending) hfailed
      have hget : n.pool.get hash=none := by
        cases ht : n.pool.get hash with
        | none => rfl
        | some t => exact absurd ⟨_,_,t,ht,rfl,rfl⟩ (hno .pool)
      rw [transaction_eq (hno .database),transactionStatus_eq (hno .database),hfind,hget]
      cases he : n.api.pendingExecutor with
      | some executor =>
        rw [he,Option.bind_some] at hfind
        cases hc : n.api.forkedClient with
        | none => simp [hfind,okOrNotFound]
        | some client => simp [hfind,hremote (by simp [hc]),okOrNotFound]
      | none =>
        cases hc : n.api.forkedClient with
        | none => simp [okOrNotFound]
        | some client => simp [hremote (by simp [hc]),okOrNotFound]

section Samples
open Service (poolOf)

def remoteAt (number : Nat) (hash : Felt) : Option (RemoteTx eventPayloads) :=
  if hash=8 then some ⟨⟨8,()⟩,⟨[],.block 200 number⟩,.acceptedOnL2,.succeeded⟩ else none

def clientAt (number : Nat) : ForkedClient eventPayloads where
  block := 0
  provider := {
    getBlockWithTxHashes := fun _ => .error .blockNotFound
    getEvents := fun _ _ _ => .error .blockNotFound
    getTransactionByHash := fun hash => orNotFound ((remoteAt number hash).map RemoteTx.tx)
    getTransactionReceipt := fun hash => orNotFound ((remoteAt number hash).map RemoteTx.receipt)
    getTransactionStatus := fun hash => orNotFound ((remoteAt number hash).map RemoteTx.status) }

def failedPending : PendingExecutor eventBackend where
  blockEnv := ⟨1,0,default,default,default,0⟩
  transactions := [(⟨9,()⟩,.failed "nonce")]

/-- A node in each configuration, with the transaction 7 in its pool. -/
def nodeOf (interval forked : Bool) (number : Nat) :
    Node eventBackend (ExecutableTxWithHash Unit) Unit FiFo Nat where
  api := {
    db := insertBlocks starknetCodecs [eventBlock 0 100 []]
    forkedClient := if forked then some (clientAt number) else none
    pendingExecutor := if interval then some failedPending else none }
  views := ⟨fun _ => none,fun t => ⟨t.hash,()⟩⟩
  pool := poolOf 7
  blocks := [eventBlock 0 100 []]
  remote := remoteAt number
  db := rfl
  numbers := by decide
  hashes := by decide
  aligned := by decide
  pendingHashes executor he := by
    cases interval with
    | false => cases he
    | true =>
      cases he
      decide
  answers client hclient := by
    cases forked with
    | false => cases hclient
    | true =>
      cases hclient
      exact ⟨fun _ => rfl,fun _ => rfl,fun _ => rfl⟩

theorem nodeOf_isAt (interval forked : Bool) (number : Nat) (hash : Felt) (place : Place) :
    (nodeOf interval forked number).IsAt hash place ↔ match place with
      | .database => False
      | .pending => False
      | .fork => forked=true ∧ hash=8 ∧ number=0
      | .pool => hash=7 := by
  cases place with
  | database =>
    refine iff_of_false ?_ id
    intro ⟨tx,status,b,hb,i,receipt,htx,_⟩
    rw [List.mem_singleton.mp hb] at htx
    cases htx
  | pending =>
    refine iff_of_false ?_ id
    intro ⟨tx,status,executor,res,he,hmem,_⟩
    cases interval with
    | false => cases he
    | true =>
      cases he
      cases List.mem_singleton.mp hmem
  | fork =>
    constructor
    · intro ⟨tx,status,client,r,blockHash,k,hclient,hr,hblock,hle,_⟩
      cases forked with
      | false => cases hclient
      | true =>
        cases hclient
        by_cases h8 : hash=8
        · subst h8
          cases hr
          cases hblock
          exact ⟨rfl,rfl,Nat.le_zero.mp hle⟩
        · exact absurd hr (by simp [nodeOf,remoteAt,h8])
    · intro ⟨hf,hh,hk⟩
      subst hf hh hk
      exact ⟨_,_,clientAt 0,_,200,0,rfl,rfl,rfl,Nat.le_refl 0,rfl,rfl⟩
  | pool =>
    constructor
    · intro ⟨tx,status,t,ht,_⟩
      by_contra h7
      have hnone : (poolOf 7).get hash=none := by
        simp [Pool.get,poolOf,PoolTransaction.hash,Ne.symm h7]
      exact absurd (hnone.symm.trans ht) (by simp)
    · intro h7
      subst h7
      exact ⟨_,_,_,rfl,rfl,rfl⟩

/-- The handlers lose a pooled transaction, on a node in interval mode for the status and on a
forked node for both; the status loses a transaction of the fork in interval mode. They find a
transaction of the network behind the fork block, and one that failed. -/
theorem lookup_incomplete :
    ((nodeOf true false 0).OnlyAt 7 .pool ∧ (nodeOf true false 0).transaction 7=.ok ⟨7,()⟩ ∧
      (nodeOf true false 0).transactionStatus 7=.error (.err .txnHashNotFound) ∧
      ¬(nodeOf true false 0).LookupComplete 7) ∧
    ((nodeOf false true 0).OnlyAt 7 .pool ∧
      (nodeOf false true 0).transaction 7=.error (.err .txnHashNotFound) ∧
      (nodeOf false true 0).transactionStatus 7=.error (.err .txnHashNotFound) ∧
      ¬(nodeOf false true 0).LookupComplete 7) ∧
    ((nodeOf true true 0).OnlyAt 8 .fork ∧ (nodeOf true true 0).transaction 8=.ok ⟨8,()⟩ ∧
      (nodeOf true true 0).transactionStatus 8=.error (.err .txnHashNotFound) ∧
      ¬(nodeOf true true 0).LookupComplete 8) ∧
    ((nodeOf false true 1).Nowhere 8 ∧ (nodeOf false true 1).transaction 8=.ok ⟨8,()⟩ ∧
      (nodeOf false true 1).transactionStatus 8=.error (.err .blockNotFound) ∧
      ¬(nodeOf false true 1).LookupComplete 8) ∧
    ((nodeOf true false 0).Nowhere 9 ∧ (nodeOf true false 0).transaction 9=.ok ⟨9,()⟩ ∧
      (nodeOf true false 0).transactionStatus 9=.ok .rejected ∧
      ¬(nodeOf true false 0).LookupComplete 9) := by
  have hpool : ∀ interval forked, (nodeOf interval forked 0).OnlyAt 7 .pool := by
    intro interval forked place
    rw [nodeOf_isAt]
    cases forked <;> cases place <;> decide
  have hfork : (nodeOf true true 0).OnlyAt 8 .fork := by
    intro place
    rw [nodeOf_isAt]
    cases place <;> decide
  have hbehind : (nodeOf false true 1).Nowhere 8 := by
    intro place
    rw [nodeOf_isAt]
    cases place <;> decide
  have hfailed : (nodeOf true false 0).Nowhere 9 := by
    intro place
    rw [nodeOf_isAt]
    cases place <;> decide
  refine ⟨⟨hpool true false,rfl,rfl,fun h => ?_⟩,⟨hpool false true,rfl,rfl,fun h => ?_⟩,
    ⟨hfork,rfl,rfl,fun h => ?_⟩,⟨hbehind,rfl,rfl,fun h => ?_⟩,⟨hfailed,rfl,rfl,fun h => ?_⟩⟩
  · obtain ⟨tx,status,hl⟩ := (hpool true false .pool).mpr rfl
    cases (h.1 .pool tx status (hpool true false) hl).2
  · obtain ⟨tx,status,hl⟩ := (hpool false true .pool).mpr rfl
    cases (h.1 .pool tx status (hpool false true) hl).2
  · obtain ⟨tx,status,hl⟩ := (hfork .fork).mpr rfl
    cases (h.1 .fork tx status hfork hl).2
  · cases (h.2 hbehind).1
  · cases (h.2 hfailed).1

end Samples

end Node
end Katana.Rpc
