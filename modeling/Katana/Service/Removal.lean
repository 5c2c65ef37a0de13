import Katana.Base.Interrupted
import Katana.Core.Atomic
import Katana.Pool.Pool
import Katana.Service.Transact

/-! The transactions of a mined block leave the pool (BlockProductionTask::poll of
core/service/mod.rs). The hashes to remove come from the outcome of do_mine_block, which
force_mine only logs. -/
namespace Katana.Service
open TransactionPool
variable {P : Payloads} {K : Backend P} {T V O Pr : Type} [PoolTransaction T]

/-- The loop of poll over the results that the producer is ready with. -/
def collectResults (pool : Pool T V O Pr) : List (Except BlockProductionError MinedBlockOutcome) →
    Pool T V O Pr × Except BlockProductionError Unit
  | [] => (pool,.ok ())
  | .ok outcome::results => collectResults (pool.removeTransactions outcome.txs) results
  | .error e::_ => (pool,.error e)

theorem collectResults_transactions (pool : Pool T V O Pr) (outcomes : List MinedBlockOutcome)
    (rest : List (Except BlockProductionError MinedBlockOutcome))
    (hrest : ∀ r∈rest.head?, ∃ e, r=.error e) :
    (collectResults pool (outcomes.map .ok++rest)).1.transactions=
      pool.transactions.filter (fun t => !(outcomes.flatMap (fun o => o.txs)).contains
        (PoolTransaction.hash t.tx)) := by
  induction outcomes generalizing pool with
  | nil =>
    cases rest with
    | nil => simp [collectResults]
    | cons r rest =>
      obtain ⟨e,rfl⟩ := hrest r rfl
      simp [collectResults]
  | cons outcome outcomes ih =>
    rw [List.map_cons,List.cons_append,collectResults,ih,Pool.removeTransactions,
      List.filter_filter]
    congr 1
    funext t
    simp [Bool.and_comm]

/-- A read of the provider, with the error that the database may answer. -/
def readOr {α : Type} (fail : Option ProviderError) (r : Except ProviderError α) :
    Except (Failure BlockProductionError) α :=
  match fail with
  | some e => .error (.err (.provider e))
  | none => r.mapError (fun e => .err (.provider e))

def unwrap {α : Type} : Option α → Except (Failure BlockProductionError) α
  | some a => .ok a
  | none => .error (.panic "called Option::unwrap() on a None value")

section Reads
variable (fails : Nat → Option ProviderError) (db : Db P)

/-- The environment from which the next one is made; fails 1 is the error of latest(). -/
def createNewExecutorForNextBlock : Except (Failure BlockProductionError) BlockEnv := do
  let num ← readOr (fails 0) (latestNumber db)
  readOr (fails 1) (.ok ())
  unwrap (← readOr (fails 2) (blockEnvAt db (.num num)))

/-- What poll_next of the interval producer does with a mined block before it returns the
outcome: the next executor, and the update of the pool's validator. -/
def intervalUpdate : Except (Failure BlockProductionError) (BlockEnv × BlockEnv) := do
  let next ← createNewExecutorForNextBlock fails db
  let num ← readOr (fails 3) (latestNumber db)
  -- block_env_at(..).unwrap().unwrap()
  let blockEnv ← unwrap (readOr (fails 4) (blockEnvAt db (.num num))).toOption.join
  return (next,blockEnv)

/-- What do_mine of the instant producer does behind do_mine_block. -/
def instantUpdate : Except (Failure BlockProductionError) BlockEnv := do
  readOr (fails 0) (.ok ())
  let num ← readOr (fails 1) (latestNumber db)
  unwrap (← readOr (fails 2) (blockEnvAt db (.num num)))

end Reads

/-- How a block came about; fails i is the error of the i-th read behind its insertion. -/
inductive Production where
  | interval (fails : Nat → Option ProviderError)
  | instant (fails : Nat → Option ProviderError)
  | forced

namespace Production
variable (how : Production) (outcome : MinedBlockOutcome) (db : Db P)

/-- What the stream of the producer yields on account of a stored block. A panic of the
interval producer unwinds the poll itself, one of the instant producer ends its task. Both
force_mine only log the outcome. -/
def results : List (Except BlockProductionError MinedBlockOutcome) :=
  match how with
  | .interval fails =>
    match intervalUpdate fails db with
    | .ok _ => [.ok outcome]
    | .error (.err e) => [.error e]
    | .error (.panic _) => []
  | .instant fails =>
    match instantUpdate fails db with
    | .ok _ => [.ok outcome]
    | .error (.err e) => [.error e]
    | .error (.panic _) => [.error .executionTaskCancelled]
  | .forced => []

/-- The pool after a block. -/
def pool (how : Production) (outcome : MinedBlockOutcome) (db : Db P) (pool : Pool T V O Pr) :
    Pool T V O Pr :=
  (collectResults pool (how.results outcome db)).1

/-- The block is polled for, and no read behind its insertion fails. -/
def Undisturbed : Production → Prop
  | interval fails => ∀ i<5, fails i=none
  | instant fails => ∀ i<3, fails i=none
  | forced => False

instance : Decidable how.Undisturbed := by
  cases how <;> unfold Undisturbed <;> infer_instance

variable {how} {db} {n : Nat} {stored : VersionedHeader}

theorem results_undisturbed (hn : latestNumber db=.ok n) (hheader : db.get .headers n=some stored)
    (h : how.Undisturbed) : how.results outcome db=[.ok outcome] := by
  cases how with
  | interval fails =>
    simp [results,intervalUpdate,createNewExecutorForNextBlock,h 0,h 1,h 2,h 3,h 4,readOr,hn,
      blockEnvAt,header,blockNumberById,hheader,okOr,unwrap,bind,Except.bind,Except.mapError,pure,
      Except.pure,Except.toOption]
  | instant fails =>
    simp [results,instantUpdate,h 0,h 1,h 2,readOr,hn,blockEnvAt,header,blockNumberById,hheader,
      okOr,unwrap,bind,Except.bind,Except.mapError,pure,Except.pure]
  | forced => exact h.elim

theorem fails_of_readOr {α : Type} {fail : Option ProviderError} {r : Except ProviderError α}
    {a : α} (h : readOr fail r=.ok a) : fail=none := by
  cases fail with
  | none => rfl
  | some e => cases h

theorem fails_of_intervalUpdate {fails : Nat → Option ProviderError} {x : BlockEnv × BlockEnv}
    (h : intervalUpdate fails db=.ok x) : ∀ i<5, fails i=none := by
  obtain ⟨_,hnext,h⟩ := Except.bound h
  obtain ⟨_,h0,hnext⟩ := Except.bound hnext
  obtain ⟨_,h1,hnext⟩ := Except.bound hnext
  obtain ⟨_,h2,_⟩ := Except.bound hnext
  obtain ⟨num,h3,h⟩ := Except.bound h
  obtain ⟨_,h4,_⟩ := Except.bound h
  have h4 : fails 4=none := by
    cases hf : fails 4 with
    | none => rfl
    | some e =>
      rw [hf] at h4
      cases h4
  exact fun
    | 0,_ => fails_of_readOr h0
    | 1,_ => fails_of_readOr h1
    | 2,_ => fails_of_readOr h2
    | 3,_ => fails_of_readOr h3
    | 4,_ => h4

theorem fails_of_instantUpdate {fails : Nat → Option ProviderError} {x : BlockEnv}
    (h : instantUpdate fails db=.ok x) : ∀ i<3, fails i=none := by
  obtain ⟨_,h0,h⟩ := Except.bound h
  obtain ⟨_,h1,h⟩ := Except.bound h
  obtain ⟨_,h2,_⟩ := Except.bound h
  exact fun
    | 0,_ => fails_of_readOr h0
    | 1,_ => fails_of_readOr h1
    | 2,_ => fails_of_readOr h2

/-- A read that fails keeps the outcome from being delivered. -/
theorem results_disturbed (h : ¬how.Undisturbed) :
    ∀ r∈(how.results outcome db).head?, ∃ e, r=.error e := by
  intro r hr
  cases how with
  | interval fails =>
    rw [results] at hr
    split at hr
    · rename_i hok
      exact absurd (fails_of_intervalUpdate hok) h
    · exact ⟨_,(Option.mem_some_iff.mp hr).symm⟩
    · cases hr
  | instant fails =>
    rw [results] at hr
    split at hr
    · rename_i hok
      exact absurd (fails_of_instantUpdate hok) h
    · exact ⟨_,(Option.mem_some_iff.mp hr).symm⟩
    · exact ⟨_,(Option.mem_some_iff.mp hr).symm⟩
  | forced => cases hr

end Production

variable (output : Katana.ExecutionOutput K)

def executedHashes : List Felt :=
  output.transactions.map (fun r => r.1.hash)

def includedHashes : List Felt :=
  output.successes.map (fun r => r.1.hash)

theorem included_executed {h : Felt} (hh : h∈includedHashes output) : h∈executedHashes output := by
  obtain ⟨r,hr,rfl⟩ := List.mem_map.mp hh
  obtain ⟨x,hx,hf⟩ := List.mem_filterMap.mp hr
  split at hf
  · obtain rfl := Option.some.inj hf
    exact List.mem_map.mpr ⟨x,hx,rfl⟩
  · cases hf

theorem filter_eq_filter_iff {α : Type} {p q : α → Bool} {l : List α}
    (h : ∀ x∈l, q x=true → p x=true) :
    l.filter p=l.filter q ↔ ∀ x∈l, p x=true → q x=true := by
  constructor
  · intro he x hx hp
    have hm : x∈l.filter q := he ▸ List.mem_filter.mpr ⟨hx,hp⟩
    exact (List.mem_filter.mp hm).2
  · intro hpq
    refine List.filter_congr (fun x hx => ?_)
    exact Bool.eq_iff_iff.mpr ⟨hpq x hx,h x hx⟩

/-- The hashes removed on account of the block are those of the transactions executed for
it. -/
def RemovesExecuted (how : Production) (output : Katana.ExecutionOutput K)
    (outcome : MinedBlockOutcome) (db : Db P) (pool : Pool T V O Pr) : Prop :=
  (how.pool outcome db pool).transactions=
    pool.transactions.filter (fun t => !(executedHashes output).contains (PoolTransaction.hash t.tx))

section Mined
variable {env : MineEnv} {blockEnv : BlockEnv} {output : Katana.ExecutionOutput K} {db db' : Db P}
  {outcome : MinedBlockOutcome} (h : K.doMineBlock env blockEnv output db=.ok outcome db')
include h

theorem doMineBlock_txs : outcome.txs=includedHashes output := by
  rw [Backend.doMineBlock_eq] at h
  obtain ⟨b,_,hb,h⟩ := bind_eq_ok h
  obtain ⟨_,_,_,hb⟩ := bind_eq_ok hb
  obtain ⟨_,_,_,hb⟩ := bind_eq_ok hb
  obtain ⟨rfl,-⟩ := EStateM.Result.ok.inj hb
  obtain ⟨_,_,_,h⟩ := bind_eq_ok h
  obtain ⟨_,_,_,h⟩ := bind_eq_ok h
  obtain ⟨_,_,_,h⟩ := bind_eq_ok h
  obtain ⟨rfl,-⟩ := EStateM.Result.ok.inj h
  simp [includedHashes,Backend.rooted,Backend.blockInput,BlockInput.body,Backend.sealBlock,
    Backend.uncommitted]

section Delivered
variable {n : Nat} {stored : VersionedHeader} (hn : latestNumber db'=.ok n)
  (hheader : db'.get .headers n=some stored)
include hn hheader

theorem pool_transactions (how : Production) (pool : Pool T V O Pr) :
    (how.pool outcome db' pool).transactions=pool.transactions.filter (fun t =>
      !decide (how.Undisturbed ∧ PoolTransaction.hash t.tx∈includedHashes output)) := by
  by_cases hu : how.Undisturbed
  · have hone := collectResults_transactions pool [outcome] [] (by simp)
    simp only [List.map_cons,List.map_nil,List.append_nil,List.flatMap_cons,List.flatMap_nil] at hone
    rw [Production.pool,Production.results_undisturbed outcome hn hheader hu,hone,doMineBlock_txs h]
    simp [hu]
  · have hnone := collectResults_transactions pool [] (how.results outcome db')
      (Production.results_disturbed outcome hu)
    rw [Production.pool,← List.nil_append (how.results outcome db')]
    simpa [hu] using hnone

/-- Exactly when every transaction of the pool that was executed for the block is in the
block, and the block was polled for with no read failing behind its insertion. -/
theorem mined_removed_iff (how : Production) (pool : Pool T V O Pr) :
    RemovesExecuted how output outcome db' pool ↔
      ∀ t∈pool.transactions, PoolTransaction.hash t.tx∈executedHashes output →
        how.Undisturbed ∧ PoolTransaction.hash t.tx∈includedHashes output := by
  rw [RemovesExecuted,pool_transactions h hn hheader how,filter_eq_filter_iff]
  · refine forall_congr' (fun t => forall_congr' (fun _ => ?_))
    simp only [Bool.not_eq_true',decide_eq_false_iff_not,List.contains_eq_mem]
    exact not_imp_not
  · intro t _ hq
    simp only [Bool.not_eq_true',decide_eq_false_iff_not,List.contains_eq_mem] at hq ⊢
    exact fun hinc => hq (included_executed output hinc.2)

end Delivered
end Mined

section Samples
open Backend

def poolOf (hash : Felt) : Pool (ExecutableTxWithHash Unit) Unit FiFo Nat where
  transactions := [⟨⟨1,0⟩,⟨.invoke (.v3 0 1),hash,()⟩,0⟩]
  validator := ()
  ordering := {}

def outputOf (hash : Felt) (result : ExecutionResult (Unit × Unit)) :
    Katana.ExecutionOutput plainBackend where
  states := ⟨{},∅⟩
  transactions := [(⟨hash,()⟩,result)]

theorem mine_on_slotSet (output : Katana.ExecutionOutput plainBackend) :
    ∃ outcome db' stored, plainBackend.doMineBlock {} nextEnv output (plainBackend.chain [slotSet])=
        .ok outcome db' ∧
      latestNumber db'=.ok 1 ∧ db'.get .headers 1=some stored := by
  have hinc : Increasing ([]++[slotSet]) := by simp [Increasing]
  obtain ⟨b,outcome,h,hb,-⟩ := doMineBlock_ok plainBackend (chain_latestHash hinc).2 nextEnv output
  have hinc : Increasing ([slotSet]++[b]) := by
    simpa [Increasing,hb] using show slotSet.number<nextEnv.number by decide
  have hone : b.number=1 := hb
  exact ⟨outcome,_,_,h,(chain_latestHash hinc).1.trans (congrArg _ hone),
    hone ▸ chain_header hinc (by simp)⟩

theorem mined_removed_success :
    ∃ outcome db', plainBackend.doMineBlock {} nextEnv (outputOf 7 (.success ((),())))
        (plainBackend.chain [slotSet])=.ok outcome db' ∧
      RemovesExecuted (.interval (fun _ => none)) (outputOf 7 (.success ((),()))) outcome db'
        (poolOf 7) := by
  obtain ⟨outcome,db',stored,h,hn,hheader⟩ := mine_on_slotSet (outputOf 7 (.success ((),())))
  exact ⟨outcome,db',h,(mined_removed_iff h hn hheader _ (poolOf 7)).mpr (by decide)⟩

/-- The pool with transaction 7, executed for a block with this result, still holds it. -/
def Stays (how : Production) (result : ExecutionResult (Unit × Unit)) : Prop :=
  ∃ outcome db', plainBackend.doMineBlock {} nextEnv (outputOf 7 result)
      (plainBackend.chain [slotSet])=.ok outcome db' ∧
    (how.pool outcome db' (poolOf 7)).transactions.map (fun t => t.tx.hash)=[7] ∧
    ¬RemovesExecuted how (outputOf 7 result) outcome db' (poolOf 7)

theorem stays_of_kept {how : Production} {result : ExecutionResult (Unit × Unit)}
    (hkept : ¬(how.Undisturbed ∧ (7 : Felt)∈includedHashes (outputOf 7 result))) :
    Stays how result := by
  obtain ⟨outcome,db',stored,h,hn,hheader⟩ := mine_on_slotSet (outputOf 7 result)
  have hpool := pool_transactions h hn hheader how (poolOf 7)
  have hstays : (how.pool outcome db' (poolOf 7)).transactions.map (fun t => t.tx.hash)=[7] := by
    have hall : ∀ t∈(poolOf 7).transactions, (!decide (how.Undisturbed ∧
        PoolTransaction.hash t.tx∈includedHashes (outputOf 7 result)))=true := by
      intro t ht
      obtain rfl := List.mem_singleton.mp ht
      rw [Bool.not_eq_true',decide_eq_false_iff_not]
      exact hkept
    rw [hpool,List.filter_eq_self.mpr hall]
    rfl
  refine ⟨outcome,db',h,hstays,fun hr => ?_⟩
  rw [show _=_ from hr] at hstays
  exact absurd hstays (by simp [poolOf,executedHashes,outputOf,PoolTransaction.hash])

/-- A transaction that failed stays in the pool, and so does every transaction of a block
that was forced, or behind whose insertion the number of the latest block cannot be read. -/
theorem executed_stays_in_pool :
    Stays (.interval (fun _ => none)) (.failed "nonce") ∧ Stays .forced (.success ((),())) ∧
      Stays (.interval (fun _ => some (.database (.createROTx 28)))) (.success ((),())) :=
  ⟨stays_of_kept (by decide),stays_of_kept (by decide),stays_of_kept (by decide)⟩

end Samples
end Katana.Service
