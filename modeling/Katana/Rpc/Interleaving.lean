import Katana.Base.Reading
import Katana.Core.Chain
import Katana.Rpc.Events
import Mathlib.Logic.Function.Basic

/-! Requests while blocks are mined (state, block_env_at, block_hash_and_number and the pending
blocks of rpc/starknet/mod.rs). A request reads the provider and the pending executor one after
the other. In interval mode the mining task stores the block and empties its executor, and
poll_next opens the next executor later (core/service/block_producer.rs). -/
namespace Katana.Rpc
open Reading Transition Backend
open Service (ExecutionResult)
variable {P : Payloads} {K : Backend P} {env : BlockEnv} {α : Type}

inductive MiningMode where
  | instant
  | interval
  deriving DecidableEq, Repr

/-- The database, the executors of the interval mode by the order of their creation, and whether
the block of the last one is stored. -/
structure RpcNode (K : Backend P) where
  db : Db P
  mode : MiningMode
  executor : Nat := 0
  executors : Nat → PendingExecutor K
  closed : Bool := false

inductive NodeAction (K : Backend P) where
  | execute (e : Nat) (tx : TxWithHash P) (result : ExecutionResult (P.Receipt × K.Trace))
  | mine (states : StateUpdatesWithClasses P)
  | replace (blockEnv : BlockEnv)
  | mineInstant (step : MiningStep K)

namespace RpcNode

def current (s : RpcNode K) : PendingExecutor K := s.executors s.executor

def withExecutor (s : RpcNode K) (e : Nat) (executor : PendingExecutor K) : RpcNode K :=
  { s with executors := Function.update s.executors e executor }

/-- The block of the executor is stored, and its transactions are taken. -/
def store (s : RpcNode K) (db : Db P) : RpcNode K where
  db := db
  mode := s.mode
  executor := s.executor
  executors := Function.update s.executors s.executor ⟨s.current.blockEnv,[]⟩
  closed := true

def openNext (s : RpcNode K) (blockEnv : BlockEnv) : RpcNode K where
  db := s.db
  mode := s.mode
  executor := s.executor+1
  executors := Function.update s.executors (s.executor+1) ⟨blockEnv,[]⟩
  closed := false

inductive Step : RpcNode K → NodeAction K → RpcNode K → Prop where
  | execute {s : RpcNode K} (e : Nat) (tx : TxWithHash P)
      (result : ExecutionResult (P.Receipt × K.Trace)) (hm : s.mode=.interval) (he : e≤ s.executor) :
      Step s (.execute e tx result) (s.withExecutor e
        ⟨(s.executors e).blockEnv,(s.executors e).transactions++[(tx,result)]⟩)
  -- take_execution_output and do_mine_block under the lock of the executor
  | mine {s : RpcNode K} (states : StateUpdatesWithClasses P) {outcome : MinedBlockOutcome} {db : Db P}
      (hm : s.mode=.interval) (ho : s.closed=false)
      (h : K.doMineBlock {} s.current.blockEnv
        { states, transactions := s.current.transactions } s.db=.ok outcome db) :
      Step s (.mine states) (s.store db)
  | replace {s : RpcNode K} (blockEnv : BlockEnv) {latest : Nat} (hc : s.closed=true)
      (hl : latestNumber s.db=.ok latest) (hn : blockEnv.number=latest+1) :
      Step s (.replace blockEnv) (s.openNext blockEnv)
  | mineInstant {s : RpcNode K} (step : MiningStep K) {latest : Nat} {outcome : MinedBlockOutcome}
      {db : Db P} (hm : s.mode=.instant) (hl : latestNumber s.db=.ok latest) (hn : latest+1<2^64)
      (h : K.mineNext step s.db=.ok outcome db) :
      Step s (.mineInstant step) { s with db }

end RpcNode

/-- A request that can fail. -/
abbrev RpcRequest (K : Backend P) (α : Type) :=
  ExceptT (Failure StarknetApiError) (Request (RpcNode K)) α

def provide {α : Type} (f : Db P → Except ProviderError α) : RpcRequest K α :=
  ExceptT.mk (.get fun s => ofProvider (f s.db))

def peek {α : Type} (f : RpcNode K → α) : RpcRequest K α :=
  ExceptT.mk (.get fun s => .ok (f s))

/-- What executions run against. -/
inductive StateView (P : Payloads) where
  | provider (state : StateProvider P)
  | executor (e : Nat)

/-- The number and its hash are read by two transactions. -/
def latestHashReads : RpcRequest K Felt := do
  let latest ← provide latestNumber
  provide fun db => do okOr .missingLatestBlockHash (← blockHashByNum db latest)

/-- The number of the tip is read first, and the state is opened afterwards. -/
def historicalReads : BlockHashOrNumber → RpcRequest K (Option (StateProvider P))
  | .num num => do
    let latest ← provide latestNumber
    if num<latest then peek fun s => some (.historical s.db num)
    else if latest<num then return none
    else peek fun s => some (.latest s.db)
  | .hash hash => do
    match ← provide fun db => blockNumberByHash db hash with
    | none => return none
    | some num => peek fun s => some (.historical s.db num)

def pendingExecutorReads : RpcRequest K (Option Nat) :=
  peek fun s => match s.mode with
    | .instant => none
    | .interval => some s.executor

def stateReads : BlockIdOrTag → RpcRequest K (StateView P)
  | .tag .latest => peek fun s => .provider (.latest s.db)
  | .tag .pending => do
    match ← pendingExecutorReads with
    | some e => return .executor e
    | none => peek fun s => .provider (.latest s.db)
  | .hash hash => do
    let state ← historicalReads (.hash hash)
    return .provider (← ExceptT.mk (.answer (okOrNotFound .blockNotFound state)))
  | .number num => do
    let state ← historicalReads (.num num)
    return .provider (← ExceptT.mk (.answer (okOrNotFound .blockNotFound state)))

/-- The context is the clock and the gas oracle when an environment is made for the next block. -/
def blockEnvReads (context : BlockContext) : BlockIdOrTag → RpcRequest K BlockEnv
  | .tag .pending => do
    match ← pendingExecutorReads with
    | some e => peek fun s => (s.executors e).blockEnv
    | none =>
      let num ← provide latestNumber
      match ← provide fun db => blockEnvAt db (.num num) with
      | none => throw (.panic "missing block env")
      | some env => return updateBlockEnv context env
  | .tag .latest => do
    let num ← provide latestNumber
    let env ← provide fun db => blockEnvAt db (.num num)
    ExceptT.mk (.answer (okOrNotFound .blockNotFound env))
  | .hash hash => do
    let env ← provide fun db => blockEnvAt db (.hash hash)
    ExceptT.mk (.answer (okOrNotFound .blockNotFound env))
  | .number num => do
    let env ← provide fun db => blockEnvAt db (.num num)
    ExceptT.mk (.answer (okOrNotFound .blockNotFound env))

def blockHashAndNumber : RpcRequest K (Felt × Nat) := do
  let hash ← latestHashReads
  let number ← provide latestNumber
  return (hash,number)

/-- What call, estimate_fee_with and simulate_txs run against. -/
def stateAndEnv (context : BlockContext) (id : BlockIdOrTag) :
    RpcRequest K (StateView P × BlockEnv) := do
  let state ← stateReads id
  let env ← blockEnvReads context id
  return (state,env)

structure PendingBlock (β : Type) where
  header : PartialHeader
  content : β

/-- A pending block. The content is what is taken of the transactions. -/
def pendingBlock {β : Type}
    (content : List (TxWithHash P × ExecutionResult (P.Receipt × K.Trace)) → β) :
    RpcRequest K (Option (PendingBlock β)) := do
  match ← pendingExecutorReads with
  | none => return none
  | some e =>
    let blockEnv ← peek fun s => (s.executors e).blockEnv
    let latestHash ← latestHashReads
    let content ← peek fun s => content (s.executors e).transactions
    return some ⟨partialHeader blockEnv latestHash,content⟩

def succeeded (txs : List (TxWithHash P × ExecutionResult (P.Receipt × K.Trace))) :
    List (TxWithHash P × P.Receipt) :=
  txs.filterMap fun r => match r.2 with
    | .success res => some (r.1,res.1)
    | .failed _ => none

def blockWithTxs : RpcRequest K (Option (PendingBlock (List (TxWithHash P)))) :=
  pendingBlock fun txs => (succeeded txs).map Prod.fst

def blockWithReceipts : RpcRequest K (Option (PendingBlock (List (TxWithHash P × P.Receipt)))) :=
  pendingBlock succeeded

def blockWithTxHashes : RpcRequest K (Option (PendingBlock (List Felt))) :=
  pendingBlock fun txs => (succeeded txs).map fun r => r.1.hash

def stateNumber : StateProvider P → Except ProviderError Nat
  | .latest db => latestNumber db
  | .historical _ n => .ok n

/-- The state and the environment are of one block: of an executor, of a stored block, or of the
block that would follow the stored one. -/
def RpcNode.SameBlock (s : RpcNode K) (context : BlockContext) (id : BlockIdOrTag) (env : BlockEnv) :
    StateView P → Prop
  | .executor e => id=.tag .pending ∧ env=(s.executors e).blockEnv
  | .provider state =>
    if id=.tag .pending then
      ∃ n env', stateNumber state=.ok n ∧ blockEnvAt s.db (.num n)=.ok (some env') ∧
        env=updateBlockEnv context env'
    else stateNumber state=.ok env.number ∧
      blockEnvAt s.db (.num env.number)=.ok (some env)

/-- The parts are of one executor and of the stored block before it. The transactions are at least
those of the beginning of the request and at most those of its end. -/
def OnePending {β : Type}
    (content : List (TxWithHash P × ExecutionResult (P.Receipt × K.Trace)) → β) (s t : RpcNode K)
    (block : PendingBlock β) : Prop :=
  ∃ e n txs, block.header=partialHeader (t.executors e).blockEnv block.header.parentHash ∧
    block.header.number=n+1 ∧ blockHashByNum t.db n=.ok (some block.header.parentHash) ∧
    (s.executors e).transactions<+:txs ∧ txs<+:(t.executors e).transactions ∧
    block.content=content txs

def NodeAction.Quiet : NodeAction K → Prop
  | .execute _ _ _ => True
  | _ => False

namespace RpcNode
variable {s t : RpcNode K}

/-- The database is a chain. The executor is for the next block, or for the last one if that is
stored. -/
structure Sound (s : RpcNode K) : Prop where
  chain : ∃ pre last, s.db=K.chain (pre++[last]) ∧ Increasing (pre++[last])
  opened : s.mode=.interval → ∀ latest, latestNumber s.db=.ok latest →
    s.current.blockEnv.number=if s.closed then latest else latest+1

def fixed (s : RpcNode K) : Db P × MiningMode × Nat × (Nat → BlockEnv) :=
  (s.db,s.mode,s.executor,fun e => (s.executors e).blockEnv)

theorem fixed_execute {a : NodeAction K} (hq : a.Quiet) (h : Step s a t) : t.fixed=s.fixed := by
  cases h with
  | execute e tx result hm he =>
    simp only [fixed,withExecutor,Prod.mk.injEq,true_and]
    funext d
    by_cases hd : d=e
    · subst hd
      simp
    · simp [hd]
  | _ => exact hq.elim

theorem latestNumber_concat {blocks : List (BlockInput P)} {pre : List (BlockInput P)}
    {last b : BlockInput P} (he : blocks=pre++[last]++[b]) (hinc : Increasing (pre++[last]))
    (hb : b.number=last.number+1) :
    Increasing blocks ∧ latestNumber (K.chain blocks)=.ok b.number := by
  have hinc' : Increasing blocks := by
    rw [he]
    refine (increasing_concat _ _).mpr ⟨hinc,fun c hc => ?_⟩
    have hle : c.number≤last.number := Increasing.le_of_mem hinc hc
    omega
  subst he
  exact ⟨hinc',(chain_latestHash hinc').1⟩

/-- The blocks of a database are blocks of a later one. -/
structure Grows (db db' : Db P) : Prop where
  latest : ∀ n, latestNumber db=.ok n → ∃ n', latestNumber db'=.ok n' ∧ n≤n'
  hash : ∀ n hash, blockHashByNum db n=.ok (some hash) → blockHashByNum db' n=.ok (some hash)
  env : ∀ n env, blockEnvAt db (.num n)=.ok (some env) → blockEnvAt db' (.num n)=.ok (some env)

theorem Grows.refl (db : Db P) : Grows db db :=
  ⟨fun n h => ⟨n,h,le_rfl⟩,fun _ _ h => h,fun _ _ h => h⟩

theorem Grows.trans {db db' db'' : Db P} (h : Grows db db') (h' : Grows db' db'') :
    Grows db db'' where
  latest n hn := by
    obtain ⟨n',hn',hle⟩ := h.latest n hn
    obtain ⟨n'',hn'',hle'⟩ := h'.latest n' hn'
    exact ⟨n'',hn'',hle.trans hle'⟩
  hash n x hx := h'.hash n x (h.hash n x hx)
  env n e he := h'.env n e (h.env n e he)

theorem chain_env_cases {blocks : List (BlockInput P)} {n : Nat}
    (h : blockEnvAt (K.chain blocks) (.num n)=.ok (some env)) :
    ∃ b∈blocks, b.number=n ∧ b.header.blockEnv=env := by
  cases hh : (K.chain blocks).get .headers n with
  | none => simp [blockEnvAt,header,blockNumberById,hh,okOr,bind,Except.bind] at h
  | some v =>
    obtain ⟨b,hb,rfl,rfl⟩ := mem_of_header hh
    rw [blockEnvAt_num hh] at h
    exact ⟨b,hb,rfl,Option.some.inj (Except.ok.inj h)⟩

theorem grows_concat {pre : List (BlockInput P)} {last b : BlockInput P}
    (hinc : Increasing (pre++[last])) (hb : b.number=last.number+1) :
    Grows (K.chain (pre++[last])) (K.chain (pre++[last]++[b])) := by
  obtain ⟨hinc',hlatest⟩ := latestNumber_concat (K:=K) rfl hinc hb
  refine ⟨fun n hn => ⟨_,hlatest,?_⟩,fun n x hx => ?_,fun n e he => ?_⟩
  · obtain rfl := Except.ok.inj ((chain_latestHash hinc).1.symm.trans hn)
    omega
  · obtain ⟨c,hc,rfl,rfl⟩ := mem_of_hash (Except.ok.inj hx)
    exact congrArg Except.ok (chain_hash hinc' (List.mem_append_left _ hc))
  · obtain ⟨c,hc,rfl,rfl⟩ := chain_env_cases he
    exact blockEnvAt_num (chain_header hinc' (List.mem_append_left _ hc))

theorem Sound.execute (h : s.Sound) (hf : t.fixed=s.fixed) (hc : t.closed=s.closed) : t.Sound := by
  simp only [fixed,Prod.mk.injEq] at hf
  obtain ⟨hdb,hmode,hexec,henv⟩ := hf
  refine ⟨hdb ▸ h.chain,fun hm latest hl => ?_⟩
  rw [hdb] at hl
  have hcur : t.current.blockEnv=s.current.blockEnv := by
    rw [current,current,hexec]
    exact congrFun henv s.executor
  rw [hcur,hc]
  exact h.opened (hmode ▸ hm) latest hl

theorem Sound.step (h : s.Sound) {a : NodeAction K} (hs : Step s a t) :
    t.Sound ∧ Grows s.db t.db := by
  obtain ⟨pre,last,hdb,hinc⟩ := h.chain
  obtain ⟨hnum,hhash⟩ := chain_latestHash (K:=K) hinc
  cases hs with
  | execute e tx result hm he =>
    have hf := fixed_execute (a:=.execute e tx result) trivial (.execute e tx result hm he)
    exact ⟨h.execute hf rfl,.refl _⟩
  | mine states hm ho hmine =>
    obtain ⟨b,outcome',hok,hb,_⟩ := doMineBlock_ok K hhash s.current.blockEnv
      { states, transactions := s.current.transactions }
    rw [hdb,hok,EStateM.Result.ok.injEq] at hmine
    obtain ⟨_,rfl⟩ := hmine
    have hopen := h.opened hm last.number (by rw [hdb,hnum])
    rw [ho] at hopen
    have hbn : b.number=last.number+1 := hb.trans hopen
    obtain ⟨hinc',hlatest⟩ := latestNumber_concat (K:=K) rfl hinc hbn
    refine ⟨⟨⟨pre++[last],b,rfl,hinc'⟩,fun _ latest hl => ?_⟩,hdb ▸ grows_concat hinc hbn⟩
    obtain rfl := Except.ok.inj (hlatest.symm.trans hl)
    rw [hb]
    simp [current,store]
  | replace blockEnv hc hl hn =>
    refine ⟨⟨⟨pre,last,hdb,hinc⟩,fun _ latest hl' => ?_⟩,.refl _⟩
    obtain rfl := Except.ok.inj (hl.symm.trans hl')
    simpa [current,openNext] using hn
  | mineInstant step hm hl hn hmine =>
    rw [hdb,hnum,Except.ok.injEq] at hl
    obtain ⟨b,outcome',hok,hfollows,_⟩ := mineNext_ok hinc (hl ▸ hn) step
    rw [hdb,hok,EStateM.Result.ok.injEq] at hmine
    obtain ⟨_,rfl⟩ := hmine
    obtain ⟨hinc',_⟩ := latestNumber_concat (K:=K) rfl hinc hfollows.number
    refine ⟨⟨⟨pre++[last],b,rfl,hinc'⟩,fun hi => ?_⟩,hdb ▸ grows_concat hinc hfollows.number⟩
    simp [hm] at hi

theorem Sound.run (h : s.Sound) {ops : List (NodeAction K)} (hr : Run Step s ops t) :
    t.Sound ∧ Grows s.db t.db := by
  induction hr with
  | nil => exact ⟨h,.refl _⟩
  | snoc _ hs ih => exact ⟨(ih.1.step hs).1,ih.2.trans (ih.1.step hs).2⟩

theorem Sound.env_number (h : s.Sound) {n : Nat} (he : blockEnvAt s.db (.num n)=.ok (some env)) :
    env.number=n := by
  obtain ⟨pre,last,hdb,_⟩ := h.chain
  rw [hdb] at he
  obtain ⟨b,_,rfl,rfl⟩ := chain_env_cases he
  rfl

/-- The block of the number is the one that is asked for. -/
def NamesBlock (db : Db P) (n : Nat) : BlockHashOrNumber → Prop
  | .num num => n=num
  | .hash hash => blockHashByNum db n=.ok (some hash)

theorem NamesBlock.grow {db db' : Db P} {n : Nat} {id : BlockHashOrNumber} (h : NamesBlock db n id)
    (hg : Grows db db') : NamesBlock db' n id := by
  cases id with
  | num num => exact h
  | hash hash => exact hg.hash n hash h

theorem Sound.names (h : s.Sound) {n : Nat} {id : BlockHashOrNumber}
    (hn : blockNumberById s.db id=.ok (some n)) : NamesBlock s.db n id := by
  cases id with
  | num num => exact (Option.some.inj (Except.ok.inj hn)).symm
  | hash hash =>
    obtain ⟨pre,last,hdb,hinc⟩ := h.chain
    rw [hdb] at hn ⊢
    have hfind := (chain_tables K (pre++[last])).1.numbers hash
    obtain ⟨b,hb,rfl⟩ := Option.map_eq_some_iff.mp (hfind.symm.trans (Except.ok.inj hn))
    have hmem := List.mem_reverse.mp (List.mem_of_find?_eq_some hb)
    have heq : b.hash=hash := by simpa using List.find?_some hb
    exact congrArg Except.ok (heq ▸ chain_hash hinc hmem)

/-- The block is below the tip, or it is named by its hash. -/
def Settled (s : RpcNode K) : BlockIdOrTag → Prop
  | .number n => ∃ latest, latestNumber s.db=.ok latest ∧ n<latest
  | .hash _ => True
  | .tag _ => False

def HashesDiffer (s : RpcNode K) : Prop :=
  ∀ m n hash, blockHashByNum s.db m=.ok (some hash) → blockHashByNum s.db n=.ok (some hash) → m=n

end RpcNode

section Through
open RpcNode
open Request (Through atOnce_bind_ok)

theorem through_provide (f : Db P → Except ProviderError α) :
    Through (fixed (K:=K)) (provide f).run := by
  apply Through.get
  intro s t he
  simp only [fixed,Prod.mk.injEq] at he
  rw [he.1]

theorem through_peek {f : RpcNode K → α} (h : ∀ s t : RpcNode K, s.fixed=t.fixed → f s=f t) :
    Through (fixed (K:=K)) (peek f).run :=
  Through.get fun s t he => congrArg Except.ok (h s t he)

theorem through_db (f : Db P → α) : Through (fixed (K:=K)) (peek fun s => f s.db).run :=
  through_peek fun _ _ he => congrArg f (congrArg Prod.fst he)

theorem through_latestHash : Through (fixed (K:=K)) latestHashReads.run :=
  Through.bindOk (through_provide _) fun _ => through_provide _

theorem through_pendingExecutor : Through (fixed (K:=K)) pendingExecutorReads.run := by
  apply through_peek
  intro s t he
  simp only [fixed,Prod.mk.injEq] at he
  rw [he.2.1,he.2.2.1]

theorem through_executorEnv (e : Nat) :
    Through (fixed (K:=K)) (peek fun s => (s.executors e).blockEnv).run := by
  apply through_peek
  intro s t he
  simp only [fixed,Prod.mk.injEq] at he
  exact congrFun he.2.2.2 e

theorem through_historical (id : BlockHashOrNumber) :
    Through (fixed (K:=K)) (historicalReads id).run := by
  cases id with
  | num num =>
    refine Through.bindOk (through_provide _) fun latest => ?_
    split
    · exact through_db fun db => some (StateProvider.historical db num)
    · split
      · exact trivial
      · exact through_db fun db => some (StateProvider.latest db)
  | hash hash =>
    refine Through.bindOk (through_provide _) fun num => ?_
    cases num with
    | none => exact trivial
    | some num => exact through_db fun db => some (StateProvider.historical db num)

theorem through_state (id : BlockIdOrTag) : Through (fixed (K:=K)) (stateReads id).run := by
  have hfound : ∀ state : Option (StateProvider P), Through (fixed (K:=K))
      (do return .provider (← ExceptT.mk (.answer (okOrNotFound .blockNotFound state))) :
        RpcRequest K (StateView P)).run :=
    fun state => Through.bindOk trivial fun _ => trivial
  cases id with
  | tag tag =>
    cases tag with
    | latest => exact through_db fun db => StateView.provider (StateProvider.latest db)
    | pending =>
      refine Through.bindOk through_pendingExecutor fun e => ?_
      cases e with
      | none => exact through_db fun db => StateView.provider (StateProvider.latest db)
      | some e => exact trivial
  | hash hash | number num => exact Through.bindOk (through_historical _) hfound

theorem through_blockEnv (context : BlockContext) (id : BlockIdOrTag) :
    Through (fixed (K:=K)) (blockEnvReads context id).run := by
  cases id with
  | tag tag =>
    cases tag with
    | latest =>
      exact Through.bindOk (through_provide _) fun _ => Through.bindOk (through_provide _) fun _ =>
        trivial
    | pending =>
      refine Through.bindOk through_pendingExecutor fun e => ?_
      cases e with
      | none =>
        refine Through.bindOk (through_provide _) fun num => Through.bindOk (through_provide _) ?_
        intro env
        cases env <;> exact trivial
      | some e => exact through_executorEnv e
  | hash hash | number num => exact Through.bindOk (through_provide _) fun _ => trivial

end Through
section Answers
open RpcNode
open Request (Through atOnce_bind_ok)
variable {s t : RpcNode K} {as bs cs : List (NodeAction K)} {hash : Felt} {id : BlockIdOrTag}

theorem keeps (hq : ∀ a∈as, a.Quiet) :
    ∀ a∈as, ∀ s t : RpcNode K, Step s a t → t.fixed=s.fixed :=
  fun a ha _ _ h => fixed_execute (hq a ha) h

theorem db_eq (hq : ∀ a∈as, a.Quiet) (hr : Run Step s as t) : t.db=s.db :=
  congrArg Prod.fst (Interleaved.run_keeps (keeps hq) hr)

theorem ofProvider_eq_ok {r : Except ProviderError α} {a : α} : ofProvider r=.ok a ↔ r=.ok a := by
  cases r with
  | error e => exact ⟨nofun,nofun⟩
  | ok b => simp [ofProvider]

theorem atOnce_latestHash (h : latestHash s.db=.ok hash) :
    latestHashReads.run.atOnce s=.ok hash := by
  cases hl : latestNumber s.db with
  | error e => simp [latestHash,hl,bind,Except.bind] at h
  | ok latest =>
    refine atOnce_bind_ok.mpr ⟨latest,ofProvider_eq_ok.mpr hl,ofProvider_eq_ok.mpr ?_⟩
    simpa [latestHash,hl,bind,Except.bind] using h

theorem latestHash_atOnce (h : latestHashReads.run.atOnce s=.ok hash) :
    ∃ latest, latestNumber s.db=.ok latest ∧ blockHashByNum s.db latest=.ok (some hash) := by
  obtain ⟨latest,hl,hh⟩ := atOnce_bind_ok.mp h
  have hh' := ofProvider_eq_ok.mp hh
  refine ⟨latest,ofProvider_eq_ok.mp hl,?_⟩
  simp only [blockHashByNum,bind,Except.bind,okOr] at hh' ⊢
  cases hg : s.db.get .blockHashes latest with
  | none => simp [hg] at hh'
  | some x => simpa [hg] using hh'

theorem blockHashAndNumber_one (hq : ∀ a∈as, a.Quiet) {number : Nat}
    (h : Interleaved Step blockHashAndNumber.run s as (.ok (hash,number)) t) :
    blockHashByNum t.db number=.ok (some hash) := by
  have hthrough : Through (fixed (K:=K)) blockHashAndNumber.run :=
    Through.bindOk through_latestHash fun _ => Through.bindOk (through_provide _) fun _ => trivial
  have ho := h.eq_atOnce hthrough (keeps hq)
  obtain ⟨hash',hh,ho⟩ := atOnce_bind_ok.mp ho.symm
  obtain ⟨number',hn,ho⟩ := atOnce_bind_ok.mp ho
  obtain ⟨rfl,rfl⟩ := Prod.mk.inj (Except.ok.inj ho)
  obtain ⟨latest,hl,hb⟩ := latestHash_atOnce hh
  rw [ofProvider_eq_ok.mp hn,Except.ok.injEq] at hl
  rw [db_eq hq h.run,hl]
  exact hb

theorem okOrNotFound_eq_ok {e : StarknetApiError} {a : Option α} {b : α} :
    okOrNotFound e a=.ok b ↔ a=some b := by
  cases a with
  | none => exact ⟨nofun,nofun⟩
  | some a => simp [okOrNotFound]

theorem blockEnvAt_number {db : Db P} {id : BlockHashOrNumber}
    (h : blockEnvAt db id=.ok (some env)) :
    ∃ n, blockNumberById db id=.ok (some n) ∧ blockEnvAt db (.num n)=.ok (some env) := by
  cases id with
  | num n => exact ⟨n,rfl,h⟩
  | hash hash =>
    cases hn : db.get .blockNumbers hash with
    | none => simp [blockEnvAt,header,blockNumberById,blockNumberByHash,hn,bind,Except.bind,pure,
        Except.pure] at h
    | some n =>
      refine ⟨n,congrArg Except.ok hn,?_⟩
      simpa [blockEnvAt,header,blockNumberById,blockNumberByHash,hn,bind,Except.bind] using h

theorem historical_atOnce {id : BlockHashOrNumber} {state : StateProvider P}
    (h : (historicalReads id).run.atOnce s=.ok (some state)) :
    ∃ n, blockNumberById s.db id=.ok (some n) ∧ stateNumber state=.ok n := by
  cases id with
  | num num =>
    obtain ⟨latest,hl,h⟩ := atOnce_bind_ok.mp h
    have hl' := ofProvider_eq_ok.mp hl
    refine ⟨num,rfl,?_⟩
    split at h
    · obtain rfl := Option.some.inj (Except.ok.inj h)
      rfl
    · split at h
      · cases Except.ok.inj h
      · obtain rfl := Option.some.inj (Except.ok.inj h)
        have heq : latest=num := by omega
        rw [← heq]
        exact hl'
  | hash hash =>
    obtain ⟨num,hn,h⟩ := atOnce_bind_ok.mp h
    cases num with
    | none => cases Except.ok.inj h
    | some num =>
      obtain rfl := Option.some.inj (Except.ok.inj h)
      exact ⟨num,ofProvider_eq_ok.mp hn,rfl⟩

theorem sameBlock_stored (hs : s.Sound) (context : BlockContext) (hid : id≠.tag .pending) {n : Nat}
    {state : StateProvider P} (hn : stateNumber state=.ok n)
    (hb : blockEnvAt s.db (.num n)=.ok (some env)) :
    s.SameBlock context id env (.provider state) := by
  rw [SameBlock,if_neg hid,hs.env_number hb]
  exact ⟨hn,hb⟩

theorem stateAndEnv_atOnce (hs : s.Sound) {context : BlockContext} {view : StateView P}
    (h : (stateAndEnv context id).run.atOnce s=.ok (view,env)) :
    s.SameBlock context id env view := by
  obtain ⟨view',hv,h⟩ := atOnce_bind_ok.mp h
  obtain ⟨env',he,h⟩ := atOnce_bind_ok.mp h
  obtain ⟨rfl,rfl⟩ := Prod.mk.inj (Except.ok.inj h)
  cases id with
  | tag tag =>
    cases tag with
    | latest =>
      obtain rfl := Except.ok.inj hv
      obtain ⟨num,hl,he⟩ := atOnce_bind_ok.mp he
      obtain ⟨env,hb,he⟩ := atOnce_bind_ok.mp he
      obtain rfl := okOrNotFound_eq_ok.mp he
      have hn : stateNumber (.latest s.db)=.ok num := ofProvider_eq_ok.mp hl
      exact sameBlock_stored hs context (by simp) hn (ofProvider_eq_ok.mp hb)
    | pending =>
      obtain ⟨e,hp,hv⟩ := atOnce_bind_ok.mp hv
      obtain ⟨e',hp',he⟩ := atOnce_bind_ok.mp he
      obtain rfl := Except.ok.inj (hp.symm.trans hp')
      cases e with
      | some e =>
        obtain rfl := Except.ok.inj hv
        exact ⟨rfl,(Except.ok.inj he).symm⟩
      | none =>
        obtain rfl := Except.ok.inj hv
        obtain ⟨num,hl,he⟩ := atOnce_bind_ok.mp he
        obtain ⟨env,hb,he⟩ := atOnce_bind_ok.mp he
        cases env with
        | none => cases he
        | some env =>
          rw [SameBlock,if_pos rfl]
          exact ⟨num,env,ofProvider_eq_ok.mp hl,ofProvider_eq_ok.mp hb,(Except.ok.inj he).symm⟩
  | hash hash | number num =>
    obtain ⟨state,hh,hv⟩ := atOnce_bind_ok.mp hv
    obtain ⟨state',hf,hv⟩ := atOnce_bind_ok.mp hv
    obtain rfl := okOrNotFound_eq_ok.mp hf
    obtain rfl := Except.ok.inj hv
    obtain ⟨env,hb,he⟩ := atOnce_bind_ok.mp he
    obtain rfl := okOrNotFound_eq_ok.mp he
    obtain ⟨n,hn,hst⟩ := historical_atOnce hh
    obtain ⟨n',hn',hb'⟩ := blockEnvAt_number (ofProvider_eq_ok.mp hb)
    obtain rfl := Option.some.inj (Except.ok.inj (hn.symm.trans hn'))
    exact sameBlock_stored hs context (by simp) hst hb'

theorem stateAndEnv_one (hs : s.Sound) (hq : ∀ a∈as, a.Quiet) {context : BlockContext}
    {view : StateView P}
    (h : Interleaved Step (stateAndEnv context id).run s as (.ok (view,env)) t) :
    t.SameBlock context id env view := by
  have hthrough : Through (fixed (K:=K)) (stateAndEnv context id).run :=
    Through.bindOk (through_state id) fun _ => Through.bindOk (through_blockEnv context id) fun _ =>
      trivial
  have ho := h.eq_atOnce hthrough (keeps hq)
  rw [hthrough.atOnce_eq (Interleaved.run_keeps (keeps hq) h.run).symm] at ho
  exact stateAndEnv_atOnce (hs.run h.run).1 ho.symm

theorem provide_cases {f : Db P → Except ProviderError α} {a : α} (hs : s.Sound)
    (h : Interleaved Step (provide (K:=K) f).run s as (.ok a) t) :
    ∃ u : RpcNode K, Grows s.db u.db ∧ u.Sound ∧ Grows u.db t.db ∧ f u.db=.ok a := by
  obtain ⟨_,_,u,_,hb,hc,hu⟩ := h.get_cases
  have hsound := (hs.run hb).1
  exact ⟨u,(hs.run hb).2,hsound,(hsound.run hc).2,ofProvider_eq_ok.mp hu.symm⟩

theorem historical_settled {id : BlockHashOrNumber} (hs : s.Sound)
    (hid : ∀ n, id=.num n → ∃ latest, latestNumber s.db=.ok latest ∧ n<latest)
    {state : StateProvider P}
    (h : Interleaved Step (historicalReads id).run s as (.ok (some state)) t) :
    ∃ n, NamesBlock t.db n id ∧ stateNumber state=.ok n := by
  cases id with
  | num num =>
    obtain ⟨latest,hl,hlt⟩ := hid num rfl
    obtain ⟨_,_,tip,_,_,htip,h⟩ := h.bind_ok_cases
    obtain ⟨u,hu,_,_,htip⟩ := provide_cases hs htip
    obtain ⟨tip',htip',hle⟩ := hu.latest latest hl
    obtain rfl := Except.ok.inj (htip'.symm.trans htip)
    rw [if_pos (hlt.trans_le hle)] at h
    obtain ⟨_,_,v,_,_,_,hv⟩ := h.get_cases
    obtain rfl := Option.some.inj (Except.ok.inj hv)
    exact ⟨num,rfl,rfl⟩
  | hash hash =>
    obtain ⟨_,_,num,w,_,hnum,h⟩ := h.bind_ok_cases
    have hw := (hs.run hnum.run).1
    obtain ⟨u,_,hu,hgrow,hnum⟩ := provide_cases hs hnum
    cases num with
    | none => cases h.answer_eq
    | some num =>
      have hgrow' := hgrow.trans (hw.run h.run).2
      obtain ⟨_,_,v,_,_,_,hv⟩ := h.get_cases
      obtain rfl := Option.some.inj (Except.ok.inj hv)
      have hnum : blockNumberById u.db (.hash hash)=.ok (some num) := hnum
      exact ⟨num,(hu.names hnum).grow hgrow',rfl⟩

theorem sameBlock_settled {b : BlockHashOrNumber} {s₁ s₂ : RpcNode K} (hs : s.Sound)
    (hb : ∀ n, b=.num n → ∃ latest, latestNumber s.db=.ok latest ∧ n<latest)
    {context : BlockContext} {view : StateView P} (hid : id≠.tag .pending)
    (hstate : Interleaved Step (do
      let state ← historicalReads b
      return .provider (← ExceptT.mk (.answer (okOrNotFound .blockNotFound state))) :
        RpcRequest K (StateView P)).run s as (.ok view) s₁)
    (henv : Interleaved Step (do
      let env ← provide fun db => blockEnvAt db b
      ExceptT.mk (.answer (okOrNotFound .blockNotFound env)) : RpcRequest K BlockEnv).run s₁ bs
        (.ok env) s₂)
    (hrun : Run Step s₂ cs t) (hdiffer : t.HashesDiffer) : t.SameBlock context id env view := by
  have h₁ := (hs.run hstate.run).1
  have hgrow := (h₁.run (henv.run.append hrun)).2
  obtain ⟨_,_,state,u,_,hread,h⟩ := hstate.bind_ok_cases
  have hgrow' := ((hs.run hread.run).1.run h.run).2.trans hgrow
  obtain ⟨_,_,state',_,_,hsome,h⟩ := h.bind_ok_cases
  obtain rfl := Except.ok.inj h.answer_eq
  obtain rfl := okOrNotFound_eq_ok.mp hsome.answer_eq.symm
  obtain ⟨n,hn,hst⟩ := historical_settled hs hb hread
  obtain ⟨_,_,found,w,_,hread,h⟩ := henv.bind_ok_cases
  obtain rfl := okOrNotFound_eq_ok.mp h.answer_eq.symm
  have ht := (h₁.run hread.run).1.run (h.run.append hrun)
  obtain ⟨v,_,hv,hgrowv,henv⟩ := provide_cases h₁ hread
  have hrest := hgrowv.trans ht.2
  obtain ⟨n',hn',henv'⟩ := blockEnvAt_number henv
  have hfirst := hn.grow hgrow'
  have hsecond := (hv.names hn').grow hrest
  obtain rfl : n=n' := by
    cases b with
    | num num => exact hfirst.trans hsecond.symm
    | hash hash => exact hdiffer n n' hash hfirst hsecond
  exact sameBlock_stored ht.1 context hid hst (hrest.env n _ henv')

theorem stateAndEnv_settled (hs : s.Sound) {context : BlockContext} {view : StateView P}
    (hid : s.Settled id) (hdiffer : t.HashesDiffer)
    (h : Interleaved Step (stateAndEnv context id).run s as (.ok (view,env)) t) :
    t.SameBlock context id env view := by
  obtain ⟨_,_,_,_,_,hstate,hrest⟩ := h.bind_ok_cases
  obtain ⟨_,_,_,_,_,henv,hlast⟩ := hrest.bind_ok_cases
  obtain ⟨rfl,rfl⟩ := Prod.mk.inj (Except.ok.inj hlast.answer_eq)
  cases id with
  | tag tag => exact hid.elim
  | hash hash =>
    exact sameBlock_settled (b:=.hash hash) hs (fun _ hn => nomatch hn) (by simp) hstate henv
      hlast.run hdiffer
  | number num =>
    refine sameBlock_settled (b:=.num num) hs (fun n hn => ?_) (by simp) hstate henv hlast.run
      hdiffer
    obtain rfl := BlockHashOrNumber.num.inj hn
    exact hid

theorem transactions_prefix (hq : ∀ a∈as, a.Quiet) (hr : Run Step s as t) (e : Nat) :
    (s.executors e).transactions<+:(t.executors e).transactions := by
  induction hr with
  | nil => exact List.prefix_rfl
  | @snoc t u a as _ hs ih =>
    refine (ih fun b hb => hq b (List.mem_append_left _ hb)).trans ?_
    have ha := hq a (by simp)
    cases hs with
    | execute e' tx result hm he =>
      by_cases hd : e=e'
      · subst hd
        simp [withExecutor]
      · simp [withExecutor,hd]
    | _ => exact ha.elim

theorem pendingBlock_one {β : Type}
    {content : List (TxWithHash P × ExecutionResult (P.Receipt × K.Trace)) → β} (hs : s.Sound)
    (hopen : s.closed=false) (hq : ∀ a∈as, a.Quiet) {block : PendingBlock β}
    (h : Interleaved Step (pendingBlock content).run s as (.ok (some block)) t) :
    OnePending content s t block := by
  have hrun := h.run
  obtain ⟨as₁,_,e,s₁,rfl,hexec,hnext⟩ := h.bind_ok_cases
  cases e with
  | none => cases hnext.answer_eq
  | some e =>
    obtain ⟨as₂,_,env,s₂,rfl,henv,hnext⟩ := hnext.bind_ok_cases
    obtain ⟨as₃,_,hash,s₃,rfl,hhash,hnext'⟩ := hnext.bind_ok_cases
    obtain ⟨_,as₅,txs,s₄,rfl,htxs,hlast⟩ := hnext'.bind_ok_cases
    obtain ⟨bs,cs,u,rfl,hb,hc,hread⟩ := htxs.get_cases
    obtain rfl := Option.some.inj (Except.ok.inj hlast.answer_eq)
    obtain rfl := Except.ok.inj hread
    have hall := Interleaved.run_keeps (keeps hq) hrun
    simp only [List.forall_mem_append] at hq
    obtain ⟨hq₁,hq₂,hq₃,⟨hqb,hqc⟩,hq₅⟩ := hq
    -- all reads but the last one find what was there at the beginning
    have h₁ := Interleaved.run_keeps (keeps hq₁) hexec.run
    have h₂ := (Interleaved.run_keeps (keeps hq₂) henv.run).trans h₁
    have hexec' := Except.ok.inj (hexec.eq_atOnce through_pendingExecutor (keeps hq₁))
    obtain ⟨hm,rfl⟩ : s.mode=.interval ∧ e=s.executor := by
      cases hm : s.mode with
      | instant => simp [hm] at hexec'
      | interval => simpa [hm] using hexec'
    obtain rfl := Except.ok.inj (henv.eq_atOnce (through_executorEnv _) (keeps hq₂))
    obtain ⟨latest,hl,hh⟩ := latestHash_atOnce
      (hhash.eq_atOnce through_latestHash (keeps hq₃)).symm
    simp only [fixed,Prod.mk.injEq] at h₁ h₂ hall
    have henv₁ : (s₁.executors s.executor).blockEnv=s.current.blockEnv :=
      congrFun h₁.2.2.2 s.executor
    have henv₂ : (t.executors s.executor).blockEnv=s.current.blockEnv :=
      congrFun hall.2.2.2 s.executor
    rw [h₂.1] at hl hh
    have hnum := hs.opened hm latest hl
    rw [hopen] at hnum
    refine ⟨s.executor,latest,(u.executors s.executor).transactions,?_,?_,?_,?_,?_,rfl⟩
    · rw [henv₂,← henv₁]
      rfl
    · rw [← henv₁] at hnum
      exact hnum
    · rw [hall.1]
      exact hh
    · have hbefore := (hexec.run.append (henv.run.append (hhash.run.append hb)))
      refine transactions_prefix ?_ hbefore s.executor
      simp only [List.forall_mem_append]
      exact ⟨hq₁,hq₂,hq₃,hqb⟩
    · have hafter := hc.append hlast.run
      refine transactions_prefix ?_ hafter s.executor
      simp only [List.forall_mem_append]
      exact ⟨hqc,hq₅⟩

/-- A request during which nothing but executions happens describes one block, wherever the node
has come to; a pending block does so if the block of the executor is not stored yet. A request for
a block below the tip or by its hash does so whatever happens, if the hashes are different. -/
theorem undisturbed_responses {s₀ : RpcNode K} {ops : List (NodeAction K)} (h₀ : s₀.Sound)
    (hr : Run Step s₀ ops s) (hq : ∀ a∈as, a.Quiet) :
    (∀ hash number, Interleaved Step blockHashAndNumber.run s as (.ok (hash,number)) t →
      blockHashByNum t.db number=.ok (some hash)) ∧
    (s.closed=false → ∀ (β : Type)
      (content : List (TxWithHash P × ExecutionResult (P.Receipt × K.Trace)) → β) block,
      Interleaved Step (pendingBlock content).run s as (.ok (some block)) t →
        OnePending content s t block) ∧
    (∀ context id view env,
      Interleaved Step (stateAndEnv context id).run s as (.ok (view,env)) t →
        t.SameBlock context id env view) ∧
    ∀ bs u context id view env, s.Settled id → u.HashesDiffer →
      Interleaved Step (stateAndEnv context id).run s bs (.ok (view,env)) u →
        u.SameBlock context id env view := by
  have hs := (h₀.run hr).1
  exact ⟨fun _ _ h => blockHashAndNumber_one hq h,
    fun hopen _ _ _ h => pendingBlock_one hs hopen hq h,
    fun _ _ _ _ h => stateAndEnv_one hs hq h,
    fun _ _ _ _ _ _ hid hdiffer h => stateAndEnv_settled hs hid hdiffer h⟩

end Answers

section Concrete
open RpcNode
open Request (atOnce_bind_ok)

def numberedBackend : Backend eventPayloads :=
  { eventBackend with hashes := { eventBackend.hashes with poseidonArray := fun xs => xs.getD 1 0 } }

def blockEnvOf (number : Nat) : BlockEnv := ⟨number,0,default,default,default,0⟩

def openNode : RpcNode numberedBackend where
  db := numberedBackend.chain [eventBlock 0 100 []]
  mode := .interval
  executors := fun _ => ⟨blockEnvOf 1,[]⟩

theorem openNode_chain : latestNumber openNode.db=.ok 0 ∧ latestHash openNode.db=.ok 100 := by
  have hinc : Increasing ([]++[eventBlock 0 100 []]) := by decide
  exact chain_latestHash (K:=numberedBackend) hinc

theorem openNode_sound : openNode.Sound := by
  refine ⟨⟨[],eventBlock 0 100 [],rfl,by decide⟩,fun _ latest hl => ?_⟩
  obtain rfl := Except.ok.inj (openNode_chain.1.symm.trans hl)
  rfl

def succeedOne : NodeAction numberedBackend := .execute 0 ⟨7,()⟩ (.success ([],()))

def openSeven : RpcNode numberedBackend :=
  openNode.withExecutor 0 ⟨blockEnvOf 1,[(⟨7,()⟩,.success ([],()))]⟩

def mineOpen : NodeAction numberedBackend := .mine ⟨{},∅⟩

theorem openNode_mined : ∃ db env, Step openNode mineOpen (openNode.store db) ∧
    latestNumber db=.ok 1 ∧ blockHashByNum db 1=.ok (some 1) ∧
    blockHashByNum db 0=.ok (some 100) ∧ blockEnvAt db (.num 1)=.ok (some env) ∧ env.number=1 ∧
    blockNumberByHash db 100=.ok (some 0) ∧ (openNode.store db).HashesDiffer ∧
    ∃ env, blockEnvAt db (.num 0)=.ok (some env) ∧ env.number=0 := by
  have hinc : Increasing ([]++[eventBlock 0 100 []]) := by decide
  obtain ⟨b,outcome,hok,hb,_,_,hhash,_⟩ := doMineBlock_ok numberedBackend openNode_chain.2
    (blockEnvOf 1) { states := ⟨{},∅⟩, transactions := [] }
  obtain ⟨hinc',hlatest⟩ := latestNumber_concat (K:=numberedBackend) rfl hinc hb
  obtain ⟨env,henv,hn⟩ := chain_blockEnv (K:=numberedBackend) hinc' (b:=b) (by simp)
  obtain ⟨env₀,henv₀,hn₀⟩ := chain_blockEnv (K:=numberedBackend) hinc'
    (b:=eventBlock 0 100 []) (by simp)
  have hone : b.hash=1 := by
    have hnum : b.header.number=1 := hb
    have hsecond : b.header.computeHash numberedBackend.hashes=Felt.ofNat b.header.number := rfl
    rw [hhash,hsecond,hnum]
    rfl
  have hget := chain_hash (K:=numberedBackend) hinc' (b:=b) (by simp)
  have hget₀ := chain_hash (K:=numberedBackend) hinc' (b:=eventBlock 0 100 []) (by simp)
  have hnumber : (numberedBackend.chain ([eventBlock 0 100 []]++[b])).get .blockNumbers 100=
      some 0 := by
    rw [(chain_tables numberedBackend _).1.numbers]
    have hzero : (eventBlock 0 100 []).hash=100 ∧ (eventBlock 0 100 []).number=0 := ⟨rfl,rfl⟩
    simp [hone,hzero,show (1 : Felt)≠100 by decide]
  have hdiffer : (openNode.store (numberedBackend.chain ([eventBlock 0 100 []]++[b]))).HashesDiffer := by
    intro m n hash hm hn
    obtain ⟨c,hc,rfl,rfl⟩ := mem_of_hash (Except.ok.inj hm)
    obtain ⟨d,hd,rfl,hdeq⟩ := mem_of_hash (Except.ok.inj hn)
    simp only [List.cons_append,List.nil_append,List.mem_cons,List.not_mem_nil,or_false] at hc hd
    rcases hc with rfl | rfl <;> rcases hd with rfl | rfl
    · rfl
    · rw [hone] at hdeq
      exact absurd hdeq (by decide)
    · rw [hone] at hdeq
      exact absurd hdeq (by decide)
    · rfl
  rw [hb] at hlatest henv hn hget
  exact ⟨_,env,.mine _ rfl rfl hok,hlatest,congrArg Except.ok (hget.trans (congrArg some hone)),
    congrArg Except.ok hget₀,henv,hn,congrArg Except.ok hnumber,hdiffer,env₀,henv₀,hn₀⟩

/-- An execution during each of the requests, and a block during the one for a block hash. -/
theorem responses_with_execution :
    openNode.Sound ∧ Run Step openNode [succeedOne] openSeven ∧
    (Interleaved Step blockHashAndNumber.run openNode [succeedOne] (.ok (100,0)) openSeven ∧
      blockHashByNum openSeven.db 0=.ok (some 100)) ∧
    (∃ block, Interleaved Step blockWithReceipts.run openNode [succeedOne] (.ok (some block))
        openSeven ∧
      block.content.map (fun r => r.1.hash)=[7] ∧ OnePending succeeded openNode openSeven block) ∧
    (∀ context, ∃ view env, Interleaved Step (stateAndEnv context (.tag .pending)).run openNode
      [succeedOne] (.ok (view,env)) openSeven ∧
      openSeven.SameBlock context (.tag .pending) env view) ∧
    ∀ context, ∃ t view env, Interleaved Step (stateAndEnv context (.hash 100)).run openNode
      [mineOpen] (.ok (view,env)) t ∧ t.SameBlock context (.hash 100) env view := by
  have hrun : Run Step openNode [succeedOne] openSeven :=
    .single (.execute 0 _ _ rfl (Nat.le_refl 0))
  have hq : ∀ a∈[succeedOne], a.Quiet := by
    intro a ha
    rw [List.mem_singleton.mp ha]
    trivial
  have hone := undisturbed_responses (t:=openSeven) openNode_sound (.nil _) hq
  have hhash : latestHashReads.run.atOnce openNode=.ok 100 := atOnce_latestHash openNode_chain.2
  have hnumber : Interleaved Step blockHashAndNumber.run openNode [succeedOne] (.ok (100,0))
      openSeven :=
    .between hhash hrun (atOnce_bind_ok.mpr ⟨0,ofProvider_eq_ok.mpr openNode_chain.1,rfl⟩)
  have hblock : Interleaved Step blockWithReceipts.run openNode [succeedOne]
      (.ok (some ⟨partialHeader (blockEnvOf 1) 100,[(⟨7,()⟩,[])]⟩)) openSeven := by
    have henv : ((peek fun s => (s.executors 0).blockEnv) : RpcRequest numberedBackend _).run.atOnce
        openSeven=.ok (blockEnvOf 1) := rfl
    refine .between (m:=some 0) rfl hrun (atOnce_bind_ok.mpr ⟨_,henv,?_⟩)
    exact atOnce_bind_ok.mpr ⟨100,hhash,rfl⟩
  refine ⟨openNode_sound,hrun,⟨hnumber,hone.1 _ _ hnumber⟩,
    ⟨_,hblock,rfl,hone.2.1 rfl _ _ _ hblock⟩,fun context => ?_,fun context => ?_⟩
  · have hpending : Interleaved Step (stateAndEnv context (.tag .pending)).run openNode [succeedOne]
        (.ok (.executor 0,blockEnvOf 1)) openSeven := .between rfl hrun rfl
    exact ⟨_,_,hpending,hone.2.2.1 _ _ _ _ hpending⟩
  · obtain ⟨db,_,hmine,_,_,_,_,_,hnumber,hdiffer,env,henv,_⟩ := openNode_mined
    have hstate : (stateReads (.hash 100)).run.atOnce openNode=
        .ok (.provider (.historical openNode.db 0)) := rfl
    have henv' : (blockEnvReads context (.hash 100)).run.atOnce (openNode.store db)=.ok env := by
      refine atOnce_bind_ok.mpr ⟨some env,ofProvider_eq_ok.mpr ?_,rfl⟩
      simpa [blockEnvAt,header,blockNumberById,hnumber,store,bind,Except.bind] using henv
    have hread : Interleaved Step (stateAndEnv context (.hash 100)).run openNode [mineOpen]
        (.ok (.provider (.historical openNode.db 0),env)) (openNode.store db) :=
      .between hstate (.single hmine) (atOnce_bind_ok.mpr ⟨env,henv',rfl⟩)
    exact ⟨_,_,_,hread,hone.2.2.2 _ _ _ _ _ _ trivial hdiffer hread⟩

/-- A block is mined between the reads, or before the executor is replaced. -/
theorem responses_torn_by_mining :
    (∃ t hash number, Interleaved Step blockHashAndNumber.run openNode [mineOpen]
        (.ok (hash,number)) t ∧ blockHashByNum t.db number≠.ok (some hash)) ∧
    (∃ s block, Run Step openNode [mineOpen] s ∧
      Interleaved Step blockWithReceipts.run s [] (.ok (some block)) s ∧
      ¬OnePending succeeded s s block) ∧
    ∀ context, ∀ id∈[BlockIdOrTag.tag .latest,.number 0,.tag .pending], ∃ as t view env,
      Interleaved Step (stateAndEnv context id).run openNode as (.ok (view,env)) t ∧
        ¬t.SameBlock context id env view := by
  obtain ⟨db,env,hmine,hlatest,hhash,hhash₀,henv,hn,_,_,env₀,henv₀,hn₀⟩ := openNode_mined
  have hrun := Run.single hmine
  have hfirst : latestHashReads.run.atOnce openNode=.ok 100 := atOnce_latestHash openNode_chain.2
  have hlast : latestHashReads.run.atOnce (openNode.store db)=.ok 1 := by
    apply atOnce_latestHash
    simp [latestHash,store,hlatest,hhash,okOr,bind,Except.bind]
  refine ⟨⟨_,100,1,.between hfirst hrun ?_,?_⟩,⟨_,⟨partialHeader (blockEnvOf 1) 1,[]⟩,hrun,
    ?_,?_⟩,?_⟩
  · exact atOnce_bind_ok.mpr ⟨1,ofProvider_eq_ok.mpr hlatest,rfl⟩
  · simp only [store,hhash]
    decide
  · -- the executor whose block is stored
    have hread : blockWithReceipts.run.atOnce (openNode.store db)=
        .ok (some ⟨partialHeader (blockEnvOf 1) 1,[]⟩) := by
      refine atOnce_bind_ok.mpr ⟨some 0,rfl,atOnce_bind_ok.mpr ⟨blockEnvOf 1,rfl,?_⟩⟩
      exact atOnce_bind_ok.mpr ⟨1,hlast,rfl⟩
    rw [← hread]
    exact .alone Step _ _
  · rintro ⟨e,n,txs,_,hnum,hh,_⟩
    obtain rfl : n=0 := (Nat.succ.inj hnum).symm
    rw [show (openNode.store db).db=db from rfl,hhash₀] at hh
    revert hh
    decide
  · intro context id hid
    simp only [List.mem_cons,List.not_mem_nil,or_false] at hid
    rcases hid with rfl | rfl | rfl
    · refine ⟨_,_,.provider (.latest openNode.db),env,.between rfl hrun ?_,?_⟩
      · refine atOnce_bind_ok.mpr ⟨env,atOnce_bind_ok.mpr ⟨1,ofProvider_eq_ok.mpr hlatest,?_⟩,rfl⟩
        exact atOnce_bind_ok.mpr ⟨some env,ofProvider_eq_ok.mpr henv,rfl⟩
      · rintro ⟨hstate,_⟩
        rw [hn] at hstate
        cases Except.ok.inj (openNode_chain.1.symm.trans hstate)
    · -- the number is compared with the tip, and the state is opened after the block
      have htip : (provide latestNumber : RpcRequest numberedBackend Nat).run.atOnce openNode=
          .ok 0 := ofProvider_eq_ok.mpr openNode_chain.1
      have hopened : Interleaved Step (historicalReads (.num 0)).run openNode [mineOpen]
          (.ok (some (.latest db))) (openNode.store db) := .between htip hrun rfl
      have hstate : Interleaved Step (stateReads (.number 0)).run openNode [mineOpen]
          (.ok (.provider (.latest db))) (openNode.store db) := hopened.bind_ok (.alone Step _ _)
      have henv' : (blockEnvReads context (.number 0)).run.atOnce (openNode.store db)=.ok env₀ :=
        atOnce_bind_ok.mpr ⟨some env₀,ofProvider_eq_ok.mpr henv₀,rfl⟩
      have hrest : Interleaved Step (do
            let env ← blockEnvReads context (.number 0)
            return (StateView.provider (.latest db),env) : RpcRequest numberedBackend _).run
          (openNode.store db) [] (.ok (.provider (.latest db),env₀)) (openNode.store db) :=
        .between henv' (.nil _) rfl
      refine ⟨_,_,_,env₀,hstate.bind_ok hrest,?_⟩
      rintro ⟨hstate,_⟩
      rw [hn₀] at hstate
      cases Except.ok.inj (hlatest.symm.trans hstate)
    · have hreplace : Step (openNode.store db) (.replace (blockEnvOf 2)) _ :=
        .replace (blockEnvOf 2) rfl hlatest rfl
      refine ⟨_,_,.executor 0,blockEnvOf 2,.between rfl (hrun.snoc hreplace) rfl,?_⟩
      rintro ⟨_,henv⟩
      have hnum : 2=1 := congrArg BlockEnv.number henv
      exact absurd hnum (by decide)

end Concrete
end Katana.Rpc
