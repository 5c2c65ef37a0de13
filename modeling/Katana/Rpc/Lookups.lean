import Katana.Service.Conservation

/-! Lookups of a transaction while the interval producer mines (transaction and receipt of
rpc/starknet/mod.rs). A call reads the database, the handle of the pending executor, that
executor and what is left, one after the other; the producer takes steps in between. -/
namespace Katana.Rpc
open Transition Run
open Service (IntervalBlockProducer Action Step ProducerLock MiningTask PermitOwned pendingPoll)
variable {Tx : Type} {e : Nat}

structure TxResults (Tx : Type) where
  hash : Tx → Felt
  succeeded : Tx → Bool

/-- The transactions of a block, or the pending ones with a receipt. -/
def TxResults.included (V : TxResults Tx) (txs : List Tx) : List Felt :=
  (txs.filter V.succeeded).map V.hash

inductive Lookup where
  | transaction
  | receipt
  deriving DecidableEq, Repr

inductive LookupAnswer where
  | stored
  | pending
  | forked
  | pooled
  | txnHashNotFound
  deriving DecidableEq, Repr

/-- What a call reads next. -/
inductive Progress where
  | database
  | producer
  | executor (e : Nat)
  | fallback
  | answered (answer : LookupAnswer)
  deriving DecidableEq, Repr

structure LookupCall where
  lookup : Lookup
  hash : Felt
  progress : Progress
  deriving DecidableEq, Repr

/-- The database was read and the pending executor was not. -/
def LookupCall.BetweenReads (c : LookupCall) : Prop :=
  c.progress=.producer ∨ ∃ e, c.progress=.executor e

/-- The producer, the transactions of the block that its mining task stored last, the hashes in the
pool, the outcomes that poll_next returned and whose transactions were not removed from the pool
yet, and the calls. -/
structure LookupNode (Tx : Type) where
  producer : IntervalBlockProducer Tx := {}
  outcome : List Felt := []
  pool : List Felt := []
  outcomes : List (List Felt) := []
  calls : Nat → Option LookupCall := fun _ => none

inductive LookupAction (Tx : Type) where
  | producer (a : Action Tx)
  | addTransaction (hash : Felt)
  | removeTransactions
  | request (call : Nat) (lookup : Lookup) (hash : Felt)
  | readDatabase (call : Nat)
  | readProducer (call : Nat)
  | readExecutor (call : Nat)
  | fallBack (call : Nat)

section Reads
variable (V : TxResults Tx) (s : IntervalBlockProducer Tx)

def inDatabase (hash : Felt) : Prop :=
  ∃ block∈s.stored, hash∈V.included block

instance (hash : Felt) : Decidable (inDatabase V s hash) :=
  inferInstanceAs (Decidable (∃ block∈s.stored, hash∈V.included block))

/-- A receipt is only taken from an execution that succeeded. -/
def inExecutor (e : Nat) (hash : Felt) : Lookup → Prop
  | .transaction => hash∈(s.transactions e).map V.hash
  | .receipt => hash∈V.included (s.transactions e)

instance (e : Nat) (hash : Felt) (lookup : Lookup) : Decidable (inExecutor V s e hash lookup) :=
  match lookup with
  | .transaction => inferInstanceAs (Decidable (hash∈(s.transactions e).map V.hash))
  | .receipt => inferInstanceAs (Decidable (hash∈V.included (s.transactions e)))

/-- A node with a forked client asks the forked network; any other one has the pool left, and
no receipt is there. -/
def fallback (client : Option (Felt → Bool)) (pool : List Felt) (hash : Felt) (lookup : Lookup) :
    LookupAnswer :=
  match client,lookup with
  | some known,_ => if known hash then .forked else .txnHashNotFound
  | none,.transaction => if hash∈pool then .pooled else .txnHashNotFound
  | none,.receipt => .txnHashNotFound

/-- The outcome of the mining task. A block that force_mine stores is not among its own. -/
def minedOutcome (outcome : List Felt) (a : Action Tx) : List Felt :=
  match a,s.ongoingMining with
  | .mineStore true,some (.taken _ output) => V.included output
  | _,_ => outcome

/-- What poll_next returns once the mining is finished. -/
def returned (outcome : List Felt) (a : Action Tx) : List (List Felt) :=
  match a,s.ongoingMining with
  | .miningReady .ready,some .finished => [outcome]
  | _,_ => []

end Reads

def LookupNode.setCall (n : LookupNode Tx) (i : Nat) (c : LookupCall) : LookupNode Tx :=
  { n with calls := Function.update n.calls i (some c) }

inductive LookupStep (V : TxResults Tx) (blockTime : Option Nat) (client : Option (Felt → Bool)) :
    LookupNode Tx → LookupAction Tx → LookupNode Tx → Prop where
  | producer {n a p} (h : Step blockTime n.producer a p) :
      LookupStep V blockTime client n (.producer a)
        { n with
          producer := p
          outcome := minedOutcome V n.producer n.outcome a
          outcomes := n.outcomes++returned n.producer n.outcome a }
  | addTransaction {n} (hash : Felt) :
      LookupStep V blockTime client n (.addTransaction hash) { n with pool := hash::n.pool }
  | removeTransactions {n txs outcomes} (h : n.outcomes=txs::outcomes) :
      LookupStep V blockTime client n .removeTransactions
        { n with pool := n.pool.filter (fun hash => hash∉txs), outcomes := outcomes }
  | request {n} {i : Nat} (lookup : Lookup) (hash : Felt) (h : n.calls i=none) :
      LookupStep V blockTime client n (.request i lookup hash)
        (n.setCall i ⟨lookup,hash,.database⟩)
  | readDatabase {n} {i : Nat} {c} (h : n.calls i=some c) (hp : c.progress=.database) :
      LookupStep V blockTime client n (.readDatabase i) (n.setCall i { c with
        progress := if inDatabase V n.producer c.hash then .answered .stored else .producer })
  -- the read lock of the producer
  | readProducer {n} {i : Nat} {c} (h : n.calls i=some c) (hp : c.progress=.producer)
      (hl : n.producer.lock=.free) :
      LookupStep V blockTime client n (.readProducer i)
        (n.setCall i { c with progress := .executor n.producer.executor })
  -- the read lock of the executor
  | readExecutor {n} {i : Nat} {c} {e : Nat} (h : n.calls i=some c) (hp : c.progress=.executor e)
      (hl : ¬n.producer.ExecutorLocked e) :
      LookupStep V blockTime client n (.readExecutor i) (n.setCall i { c with
        progress := if inExecutor V n.producer e c.hash c.lookup then .answered .pending
          else .fallback })
  | fallBack {n} {i : Nat} {c} (h : n.calls i=some c) (hp : c.progress=.fallback) :
      LookupStep V blockTime client n (.fallBack i) (n.setCall i { c with
        progress := .answered (fallback client n.pool c.hash c.lookup) })

/-- The executor of the pending block: no mining took its output. -/
def PendingOpen (s : IntervalBlockProducer Tx) (e : Nat) : Prop :=
  s.nextExecutor=some e ∧ e=s.executor ∧ s.lock.tookOutput=false

/-- Minings succeed, executions run on the executor of a pending block whose output was not
taken, and no block is stored while a call for one of its transactions is between its reads. -/
def Timely (V : TxResults Tx) (n : LookupNode Tx) : LookupAction Tx → Prop
  | .producer (.execute _) => ∀ e txs, n.producer.ongoingExecution=some (.running e txs) →
      PendingOpen n.producer e
  | .producer (.mineTake ok) => ok=true
  | .producer (.mineStore ok) | .producer (.forceStore ok) => ok=true ∧
      ∀ i c, n.calls i=some c → c.BetweenReads → c.hash∉V.included n.producer.mining
  | .producer .minePanic => False
  | _ => True

section Located
variable {V : TxResults Tx} {blockTime : Option Nat} {s t : IntervalBlockProducer Tx}
    {output : List Tx}
  {a : Action Tx} {n : LookupNode Tx} {hash : Felt}

/-- Executed transactions are on an open executor, as far as the current one goes. -/
structure PendingHeld (s : IntervalBlockProducer Tx) : Prop where
  owned : PermitOwned s
  opened : s.transactions s.executor≠[] → PendingOpen s s.executor

/-- Where a transaction is that was executed successfully in the pending block. -/
inductive Located (V : TxResults Tx) (hash : Felt) (s : IntervalBlockProducer Tx) : Prop where
  | stored (h : inDatabase V s hash)
  | mined {output : List Tx} (h : s.ongoingMining=some (.taken s.executor output))
      (hm : hash∈V.included output)
  | forced {output : List Tx} (h : s.lock=.forcing (.store output)) (hm : hash∈V.included output)
  | pending (h : hash∈V.included (s.transactions s.executor)) (ho : PendingOpen s s.executor)

theorem included_append (xs ys : List Tx) :
    V.included (xs++ys)=V.included xs++V.included ys := by
  simp [TxResults.included]

theorem stored_step (h : Step blockTime s a t) : t.stored=s.stored ∨
    ∃ output, t.stored=s.stored++[output] ∧ (∃ ok, a=.mineStore ok ∨ a=.forceStore ok) ∧
      output⊆s.mining := by
  cases h with
  | pollTimer ready h =>
    left
    unfold IntervalBlockProducer.pollTimer
    split_ifs <;> rfl
  | pollQueue h =>
    left
    unfold IntervalBlockProducer.pollQueue
    split_ifs <;> rfl
  | executionReady h ht hr =>
    left
    unfold IntervalBlockProducer.collectExecution
    split <;> rfl
  | miningReady next h hm => cases next <;> exact Or.inl rfl
  | mineStore h =>
    refine Or.inr ⟨_,rfl,⟨true,Or.inl rfl⟩,?_⟩
    rw [IntervalBlockProducer.mining,h]
    exact List.subset_append_left _ _
  | forceStore h =>
    refine Or.inr ⟨_,rfl,⟨true,Or.inr rfl⟩,?_⟩
    rw [IntervalBlockProducer.mining,h]
    exact List.subset_append_right _ _
  | _ => exact Or.inl rfl

theorem inDatabase_mono (h : Step blockTime s a t) (hd : inDatabase V s hash) :
    inDatabase V t hash := by
  obtain ⟨block,hb,hm⟩ := hd
  refine ⟨block,?_,hm⟩
  obtain he | ⟨output,he,-⟩ := stored_step h
  · rwa [he]
  · rw [he]
    exact List.mem_append_left _ hb

theorem PendingOpen.congr (ho : PendingOpen s e) (he : t.executor=s.executor)
    (hm : t.ongoingMining=s.ongoingMining) (hl : t.lock.tookOutput=s.lock.tookOutput) :
    PendingOpen t e := by
  obtain ⟨hn,hc,hk⟩ := ho
  refine ⟨?_,hc.trans he.symm,hl.trans hk⟩
  rwa [IntervalBlockProducer.nextExecutor,hm,hl,he]

/-- The pending block and what is taken of it are where they were. -/
structure Unmoved (s t : IntervalBlockProducer Tx) : Prop where
  executor : t.executor=s.executor
  transactions : t.transactions=s.transactions
  opened : ∀ e, PendingOpen s e → PendingOpen t e
  taken : ∀ e output, s.ongoingMining=some (.taken e output) →
    t.ongoingMining=some (.taken e output)

theorem Unmoved.of_same (he : t.executor=s.executor) (ht : t.transactions=s.transactions)
    (hm : t.ongoingMining=s.ongoingMining) (hl : t.lock.tookOutput=s.lock.tookOutput) :
    Unmoved s t :=
  ⟨he,ht,fun _ ho => ho.congr he hm hl,fun _ _ h => hm.trans h⟩

theorem pollTimer_unmoved (hl : s.lock=.polling .timer) (ready : Bool) :
    Unmoved s { s.pollTimer ready with lock := .polling .queue } := by
  have hsame : Unmoved s { s with lock := .polling .queue } := .of_same rfl rfl rfl (by simp [hl])
  have hspawn (hm : s.ongoingMining.isNone=true) :
      Unmoved s { s.spawnMining with lock := .polling .queue } := by
    refine ⟨rfl,rfl,fun e ho => ⟨congrArg some ho.2.1.symm,ho.2.1,rfl⟩,fun _ _ h => ?_⟩
    simp [h] at hm
  unfold IntervalBlockProducer.pollTimer
  split_ifs with h₁ h₂ h₃
  · exact hspawn (Bool.and_eq_true_iff.mp h₂).2
  · exact hsame
  · exact hspawn (Bool.and_eq_true_iff.mp h₃).2
  · exact hsame

theorem pollQueue_unmoved (hl : s.lock=.polling .queue) (blockTime : Option Nat) :
    Unmoved s { s.pollQueue blockTime with lock := .polling .execution } := by
  unfold IntervalBlockProducer.pollQueue
  split_ifs <;> exact .of_same rfl rfl rfl (by simp [hl])

theorem collectExecution_unmoved (hl : s.lock=.polling .execution) :
    Unmoved s s.collectExecution := by
  unfold IntervalBlockProducer.collectExecution
  split <;> exact .of_same rfl rfl rfl (by simp [hl])

theorem PendingHeld.unmoved (h : PendingHeld s) (hu : Unmoved s t)
    (hne : t.transactions t.executor≠[]) : PendingOpen t t.executor := by
  rw [hu.executor] at hne ⊢
  rw [hu.transactions] at hne
  exact hu.opened _ (h.opened hne)

theorem PendingHeld.not_opened (h : PendingHeld s) (hn : ¬PendingOpen s s.executor) :
    s.transactions s.executor=[] :=
  Classical.byContradiction (fun hne => hn (h.opened hne))

theorem not_pendingOpen_of_mining {task : MiningTask Tx} (hm : s.ongoingMining=some task)
    (ht : (∃ e output, task=.taken e output) ∨ task=.finished ∨ task=.failed) (e : Nat) :
    ¬PendingOpen s e := by
  intro ho
  have hn := ho.1
  obtain ⟨x,output,rfl⟩ | rfl | rfl := ht <;>
    simp [IntervalBlockProducer.nextExecutor,hm] at hn

theorem not_pendingOpen_of_tookOutput (hl : s.lock.tookOutput=true) (e : Nat) :
    ¬PendingOpen s e := by
  intro ho
  rw [ho.2.2] at hl
  cases hl

theorem Unmoved.mined (hu : Unmoved s t) (hm : s.ongoingMining=some (.taken s.executor output))
    (hin : hash∈V.included output) : Located V hash t ∧ t.executor=s.executor :=
  ⟨.mined (hu.executor ▸ hu.taken _ _ hm) hin,hu.executor⟩

theorem Unmoved.pending (hu : Unmoved s t) (hin : hash∈V.included (s.transactions s.executor))
    (ho : PendingOpen s s.executor) : Located V hash t ∧ t.executor=s.executor :=
  ⟨.pending (by rwa [hu.transactions,hu.executor]) (hu.executor.symm ▸ hu.opened _ ho),hu.executor⟩

theorem Located.of_stored (hs : t.stored=s.stored++[output]) (hin : hash∈V.included output) :
    Located V hash t :=
  .stored ⟨output,hs ▸ List.mem_append_right _ List.mem_cons_self,hin⟩

section
variable (hok : Timely V n (.producer a)) (hs : Step blockTime n.producer a t)
include hok hs

theorem PendingHeld.step (h : PendingHeld n.producer) : PendingHeld t := by
  refine ⟨h.owned.step hs,?_⟩
  cases hs with
  | pollTimer ready hl => exact h.unmoved (pollTimer_unmoved hl ready)
  | pollQueue hl => exact h.unmoved (pollQueue_unmoved hl blockTime)
  | executionReady hl ht hr => exact h.unmoved (collectExecution_unmoved hl)
  | miningReady next hl hm =>
    have hnil := h.not_opened (by
      obtain hm | hm := hm
      · exact not_pendingOpen_of_mining hm (Or.inr (Or.inl rfl)) _
      · exact not_pendingOpen_of_mining hm (Or.inr (Or.inr rfl)) _)
    cases next with
    | ready => exact fun hne => absurd (Function.update_self _ _ _) hne
    | _ => exact fun hne => absurd hnil hne
  | miningCancelled next hl hm =>
    exact fun _ => ⟨rfl,rfl,rfl⟩
  | execute outcome hx hl hp =>
    intro _
    have ho := hok _ _ hx
    exact (ho.2.1 ▸ ho).congr rfl rfl rfl
  | mineLock hm hp =>
    intro hne
    obtain ⟨hn,-,hk⟩ := h.opened hne
    refine ⟨?_,rfl,hk⟩
    rw [IntervalBlockProducer.nextExecutor,hm] at hn
    exact hn
  | @mineTake e hm =>
    intro hne
    by_cases he : n.producer.executor=e
    · exact absurd (he ▸ Function.update_self _ _ _) hne
    · obtain ⟨hn,-,-⟩ := h.opened (fun hnil => hne ((Function.update_of_ne he _ _).trans hnil))
      rw [IntervalBlockProducer.nextExecutor,hm] at hn
      exact absurd (Option.some.inj hn).symm he
  | mineTakeFailed hm => cases hok
  | mineStore hm =>
    exact fun hne => absurd (h.not_opened
      (not_pendingOpen_of_mining hm (Or.inl ⟨_,_,rfl⟩) _)) hne
  | mineStoreFailed hm | forceStoreFailed hl => cases hok.1
  | minePanic => exact hok.elim
  | forceTake hl | forceReplace hl => exact fun hne => absurd (Function.update_self _ _ _) hne
  | forceStore hl | forceReplacePanicked hl =>
    exact fun hne => absurd (h.not_opened (not_pendingOpen_of_tookOutput (by rw [hl]; rfl) _)) hne
  | _ => exact h.unmoved (.of_same rfl rfl rfl (by simp [*]))

theorem located_step_of_mined (h : PendingHeld n.producer)
    (hm : n.producer.ongoingMining=some (.taken n.producer.executor output))
    (hin : hash∈V.included output) : Located V hash t ∧ t.executor=n.producer.executor := by
  cases hs with
  | pollTimer ready hl => exact (pollTimer_unmoved hl ready).mined hm hin
  | pollQueue hl => exact (pollQueue_unmoved hl blockTime).mined hm hin
  | executionReady hl ht hr => exact (collectExecution_unmoved hl).mined hm hin
  | miningReady next hl hm' =>
    obtain hm' | hm' := hm'
    · cases hm.symm.trans hm'
    · cases hm.symm.trans hm'
  | forceReplace hl =>
    -- the permit is with the mining
    have hpermit := h.owned.mining _ hm trivial
    rw [h.owned.forcing _ hl trivial] at hpermit
    cases hpermit
  | mineStore hm' =>
    obtain ⟨-,rfl⟩ := MiningTask.taken.inj (Option.some.inj (hm.symm.trans hm'))
    exact ⟨.of_stored rfl hin,rfl⟩
  | mineStoreFailed => cases hok.1
  | minePanic => exact hok.elim
  | mineLock hm' | mineTake hm' | mineTakeFailed hm' | miningCancelled next hl hm' =>
    cases hm.symm.trans hm'
  | _ => exact ⟨.mined hm hin,rfl⟩

theorem located_step_of_forced (hl : n.producer.lock=.forcing (.store output))
    (hin : hash∈V.included output) : Located V hash t ∧ t.executor=n.producer.executor := by
  cases hs with
  | forceStore hl' =>
    obtain rfl := Service.ForcePoint.store.inj (ProducerLock.forcing.inj (hl.symm.trans hl'))
    exact ⟨.of_stored rfl hin,rfl⟩
  | forceStoreFailed => cases hok.1
  -- any other step leaves the producer to the force_mine, or needs it for itself
  | _ => first | exact ⟨.forced hl hin,rfl⟩ | simp_all

theorem located_step_of_pending (hin : hash∈V.included (n.producer.transactions n.producer.executor))
    (ho : PendingOpen n.producer n.producer.executor) :
    Located V hash t ∧ t.executor=n.producer.executor := by
  cases hs with
  | pollTimer ready hl => exact (pollTimer_unmoved hl ready).pending hin ho
  | pollQueue hl => exact (pollQueue_unmoved hl blockTime).pending hin ho
  | executionReady hl ht hr => exact (collectExecution_unmoved hl).pending hin ho
  | miningReady next hl hm =>
    obtain hm | hm := hm
    · exact absurd ho (not_pendingOpen_of_mining hm (Or.inr (Or.inl rfl)) _)
    · exact absurd ho (not_pendingOpen_of_mining hm (Or.inr (Or.inr rfl)) _)
  | miningCancelled next hl hm => exact ⟨.pending hin ⟨rfl,rfl,rfl⟩,rfl⟩
  | @execute e txs outcome hx hl hp =>
    have hkept : hash∈V.included (Function.update n.producer.transactions e
        (n.producer.transactions e++outcome.executed txs) n.producer.executor) := by
      by_cases he : n.producer.executor=e
      · subst he
        rw [Function.update_self,included_append]
        exact List.mem_append_left _ hin
      · rw [Function.update_of_ne he]
        exact hin
    exact ⟨.pending hkept (ho.congr rfl rfl rfl),rfl⟩
  | mineLock hm hp =>
    refine ⟨.pending hin ⟨?_,rfl,ho.2.2⟩,rfl⟩
    have hn := ho.1
    rw [IntervalBlockProducer.nextExecutor,hm] at hn
    exact hn
  | @mineTake e hm =>
    have hn := ho.1
    rw [IntervalBlockProducer.nextExecutor,hm] at hn
    obtain rfl := Option.some.inj hn
    exact ⟨.mined rfl hin,rfl⟩
  | mineTakeFailed hm => cases hok
  | mineStore hm => exact absurd ho (not_pendingOpen_of_mining hm (Or.inl ⟨_,_,rfl⟩) _)
  | mineStoreFailed hm | forceStoreFailed hl => cases hok.1
  | minePanic => exact hok.elim
  | forceTake hl => exact ⟨.forced rfl hin,rfl⟩
  | forceStore hl | forceReplace hl | forceReplacePanicked hl =>
    exact absurd ho (not_pendingOpen_of_tookOutput (by rw [hl]; rfl) _)
  | _ => exact Unmoved.pending (s := n.producer) (.of_same rfl rfl rfl (by simp [*])) hin ho

/-- A transaction that was executed in the pending block is somewhere, and the executor stays
until its block is stored. -/
theorem Located.step (h : PendingHeld n.producer) (hloc : Located V hash n.producer) :
    Located V hash t ∧ (inDatabase V n.producer hash ∨ t.executor=n.producer.executor) := by
  cases hloc with
  | stored hd => exact ⟨.stored (inDatabase_mono hs hd),Or.inl hd⟩
  | mined hm hin => exact (located_step_of_mined hok hs h hm hin).imp_right Or.inr
  | forced hl hin => exact (located_step_of_forced hok hs hl hin).imp_right Or.inr
  | pending hin ho => exact (located_step_of_pending hok hs hin ho).imp_right Or.inr

end

theorem inDatabase_step (hs : Step blockTime s a t) (hd : inDatabase V t hash) :
    inDatabase V s hash ∨
      (∃ ok, a=.mineStore ok ∨ a=.forceStore ok) ∧ hash∈V.included s.mining := by
  obtain ⟨block,hb,hm⟩ := hd
  obtain he | ⟨output,he,hstore,hmining⟩ := stored_step hs
  · exact Or.inl ⟨block,he ▸ hb,hm⟩
  · rw [he] at hb
    obtain hb | hb := List.mem_append.mp hb
    · exact Or.inl ⟨block,hb,hm⟩
    · obtain rfl := List.mem_singleton.mp hb
      exact Or.inr ⟨hstore,List.map_subset _ (List.filter_subset _ hmining) hm⟩

end Located

variable {c : LookupCall}

section Calls
variable {V : TxResults Tx} {blockTime : Option Nat} {client : Option (Felt → Bool)}
  {n m : LookupNode Tx} {a : LookupAction Tx} {hash : Felt} {i : Nat}

/-- A call that has missed the database will not miss the executor. -/
def LookupCall.Safe (V : TxResults Tx) (s : IntervalBlockProducer Tx) (c : LookupCall) : Prop :=
  match c.progress with
  | .database => True
  | .producer => ¬inDatabase V s c.hash
  | .executor e => ¬inDatabase V s c.hash ∧ e=s.executor
  | .fallback => False
  | .answered answer => answer≠.txnHashNotFound

/-- What the steps keep for a transaction and a call that was made after its execution. -/
structure Tracked (V : TxResults Tx) (hash : Felt) (i : Nat) (n : LookupNode Tx) : Prop where
  held : PendingHeld n.producer
  located : Located V hash n.producer
  safe : ∀ c, n.calls i=some c → c.hash=hash → c.Safe V n.producer

theorem Located.inExecutor {s : IntervalBlockProducer Tx} (h : Located V hash s)
    (hd : ¬inDatabase V s hash) (hl : ¬s.ExecutorLocked s.executor) (lookup : Lookup) :
    inExecutor V s s.executor hash lookup := by
  cases h with
  | stored h => exact absurd h hd
  | mined h hm => exact absurd (Or.inl ⟨_,h⟩) hl
  | forced h hm => exact absurd (Or.inr ⟨⟨_,h⟩,rfl⟩) hl
  | pending h ho =>
    cases lookup with
    | receipt => exact h
    | transaction =>
      obtain ⟨tx,htx,rfl⟩ := List.mem_map.mp h
      exact List.mem_map.mpr ⟨tx,(List.mem_filter.mp htx).1,rfl⟩

theorem LookupCall.Safe.producer {p : IntervalBlockProducer Tx} {b : Action Tx}
    (hc : c.Safe V n.producer) (hi : n.calls i=some c) (ht : PendingHeld n.producer)
    (hloc : Located V c.hash n.producer) (hok : Timely V n (.producer b))
    (hs : Step blockTime n.producer b p) : c.Safe V p := by
  have hstill : c.BetweenReads → ¬inDatabase V n.producer c.hash → ¬inDatabase V p c.hash := by
    intro hb hd hd'
    obtain hd' | ⟨⟨ok,rfl | rfl⟩,hm⟩ := inDatabase_step hs hd'
    · exact hd hd'
    · exact hok.2 i c hi hb hm
    · exact hok.2 i c hi hb hm
  unfold LookupCall.Safe at hc ⊢
  cases hp : c.progress with
  | producer =>
    rw [hp] at hc
    exact hstill (Or.inl hp) hc
  | executor e =>
    rw [hp] at hc
    obtain ⟨hd,rfl⟩ := hc
    have he := (hloc.step hok hs ht).2.resolve_left hd
    exact ⟨hstill (Or.inr ⟨_,hp⟩) hd,he.symm⟩
  | _ =>
    rw [hp] at hc
    exact hc

theorem Tracked.setCall {j : Nat} (h : Tracked V hash i n)
    (hc : j=i → c.hash=hash → c.Safe V n.producer) : Tracked V hash i (n.setCall j c) := by
  refine ⟨h.held,h.located,?_⟩
  intro d hd hh
  change Function.update n.calls j (some c) i=some d at hd
  by_cases hj : j=i
  · subst hj
    rw [Function.update_self] at hd
    obtain rfl := Option.some.inj hd
    exact hc rfl hh
  · rw [Function.update_of_ne (Ne.symm hj)] at hd
    exact h.safe d hd hh

theorem Tracked.step (h : Tracked V hash i n)
    (hs : Restrict (Timely V) (LookupStep V blockTime client) n a m) : Tracked V hash i m := by
  obtain ⟨hok,hs⟩ := hs
  cases hs with
  | producer hs =>
    refine ⟨h.held.step hok hs,(h.located.step hok hs h.held).1,?_⟩
    intro c hc hh
    exact (h.safe c hc hh).producer hc h.held (hh ▸ h.located) hok hs
  | addTransaction hash | removeTransactions ho => exact ⟨h.held,h.located,h.safe⟩
  | request lookup hash hc => exact h.setCall (fun _ _ => trivial)
  | @readDatabase j c hc hp =>
    refine h.setCall (fun _ _ => ?_)
    by_cases hd : inDatabase V n.producer c.hash
    · simp [LookupCall.Safe,hd]
    · simp [LookupCall.Safe,hd]
  | @readProducer j c hc hp hl =>
    refine h.setCall (fun hj hh => ?_)
    subst hj
    have hsafe := h.safe c hc hh
    rw [LookupCall.Safe,hp] at hsafe
    exact ⟨hsafe,rfl⟩
  | @readExecutor j c e hc hp hl =>
    refine h.setCall (fun hj hh => ?_)
    subst hj
    have hsafe := h.safe c hc hh
    rw [LookupCall.Safe,hp] at hsafe
    obtain ⟨hd,rfl⟩ := hsafe
    have hin := (hh ▸ h.located : Located V c.hash n.producer).inExecutor hd hl c.lookup
    simp [LookupCall.Safe,hin]
  | @fallBack j c hc hp =>
    refine h.setCall (fun hj hh => ?_)
    subst hj
    have hsafe := h.safe c hc hh
    rw [LookupCall.Safe,hp] at hsafe
    exact hsafe.elim

theorem pendingHeld_of_run {pool : List Felt} {as : List (LookupAction Tx)}
    (h : Run (Restrict (Timely V) (LookupStep V blockTime client)) { pool := pool } as n) :
    PendingHeld n.producer := by
  refine h.invariant (I := fun n => PendingHeld n.producer) ?_
    ⟨.initial,fun hne => absurd rfl hne⟩
  intro n a m hn hs
  obtain ⟨hok,hs⟩ := hs
  cases hs with
  | producer hs => exact hn.step hok hs
  | _ => exact hn

/-- A transaction was executed successfully in the pending block, and a call is made after
that. -/
theorem executed_found {pool : List Felt} {as bs : List (LookupAction Tx)}
    (h : Run (Restrict (Timely V) (LookupStep V blockTime client)) { pool := pool } as n)
    (hexecuted : hash∈V.included (n.producer.transactions n.producer.executor))
    (hlater : n.calls i=none)
    (h' : Run (Restrict (Timely V) (LookupStep V blockTime client)) n bs m) (lookup : Lookup) :
    m.calls i≠some ⟨lookup,hash,.answered .txnHashNotFound⟩ := by
  have hheld := pendingHeld_of_run h
  have hopen : PendingOpen n.producer n.producer.executor := by
    refine hheld.opened (fun hnil => ?_)
    rw [hnil] at hexecuted
    cases hexecuted
  have htracked : Tracked V hash i n :=
    ⟨hheld,.pending hexecuted hopen,fun c hc => by rw [hlater] at hc; cases hc⟩
  intro hc
  exact ((h'.invariant (fun _ _ _ ht hs => ht.step hs) htracked).safe _ hc rfl) rfl

end Calls

section Samples

theorem not_executorLocked {s : IntervalBlockProducer Nat} (hm : s.ongoingMining=none)
    (hl : s.lock=.free) : ¬s.ExecutorLocked e := by
  simp [IntervalBlockProducer.ExecutorLocked,hm,hl]

theorem notBetweenReads_of_first {calls : Nat → Option LookupCall} {lookup : Lookup} {hash : Felt}
    {i : Nat} {Q : Prop}
    (h : calls=Function.update (fun _ => none) 0 (some ⟨lookup,hash,.database⟩))
    (hc : calls i=some c) (hb : c.BetweenReads) : Q := by
  subst h
  by_cases hi : i=0
  · subst hi
    obtain rfl := Option.some.inj hc
    obtain hb | ⟨e,hb⟩ := hb
    · cases hb
    · cases hb
  · rw [Function.update_of_ne hi] at hc
    cases hc

def sampleResults : TxResults Nat := ⟨Fin.ofNat feltPrime,fun _ => true⟩

def lookupPoll (ready : Bool) : List (LookupAction Nat) := (pendingPoll ready).map .producer

def executedSeven : List (LookupAction Nat) :=
  [.addTransaction 7,.producer (.push [7])]++lookupPoll false++[.producer (.execute .all)]

/-- The interval is over: the block is stored and a new executor installed. -/
def blockClosed : List (LookupAction Nat) :=
  lookupPoll true++[.producer .mineLock,.producer (.mineTake true),.producer (.mineStore true),
    .producer .pollBegin,.producer (.pollTimer false),.producer .pollQueue,
    .producer .executionReady,.producer .pollQueue,.producer .executionPending,
    .producer (.miningReady .ready),.removeTransactions]

/-- The call is made while the block is pending, and reads the database once it is stored. -/
theorem executed_found_stored : ∃ n,
    Run (Restrict (Timely sampleResults) (LookupStep sampleResults (some 10) none)) {}
      executedSeven n ∧
    ∃ m, Run (Restrict (Timely sampleResults) (LookupStep sampleResults (some 10) none)) n
        ([.request 0 .receipt 7]++blockClosed++[.readDatabase 0]) m ∧
      m.calls 0=some ⟨.receipt,7,.answered .stored⟩ ∧
      m.calls 0≠some ⟨.receipt,7,.answered .txnHashNotFound⟩ := by
  have hrun : ∃ n,
      Run (Restrict (Timely sampleResults) (LookupStep sampleResults (some 10) none)) {}
        executedSeven n ∧
      7∈sampleResults.included (n.producer.transactions n.producer.executor) ∧ n.calls 0=none ∧
      ∃ m, Run (Restrict (Timely sampleResults) (LookupStep sampleResults (some 10) none)) n
          ([.request 0 .receipt 7]++blockClosed++[.readDatabase 0]) m ∧
        m.calls 0=some ⟨.receipt,7,.answered .stored⟩ := by
    apply exists_cons ⟨trivial,.addTransaction 7⟩
    apply exists_cons ⟨trivial,.producer (.push _ rfl)⟩
    apply exists_cons ⟨trivial,.producer (.pollBegin rfl)⟩
    apply exists_cons ⟨trivial,.producer (.pollTimer _ rfl)⟩
    apply exists_cons ⟨trivial,.producer (.pollQueue rfl)⟩
    apply exists_cons ⟨trivial,.producer (.executionPending rfl)⟩
    apply exists_cons ⟨trivial,.producer (.miningPending rfl)⟩
    apply exists_cons ⟨fun _ _ h => by cases h; exact ⟨rfl,rfl,rfl⟩,
      .producer (.execute _ rfl (not_executorLocked rfl rfl) trivial)⟩
    refine ⟨_,.nil _,by decide,rfl,?_⟩
    apply exists_cons ⟨trivial,.request _ _ rfl⟩
    apply exists_cons ⟨trivial,.producer (.pollBegin rfl)⟩
    apply exists_cons ⟨trivial,.producer (.pollTimer _ rfl)⟩
    apply exists_cons ⟨trivial,.producer (.pollQueue rfl)⟩
    apply exists_cons ⟨trivial,.producer (.executionPending rfl)⟩
    apply exists_cons ⟨trivial,.producer (.miningPending rfl)⟩
    apply exists_cons ⟨trivial,.producer (.mineLock rfl rfl)⟩
    apply exists_cons ⟨rfl,.producer (.mineTake rfl)⟩
    apply exists_cons ⟨⟨rfl,fun _ _ => notBetweenReads_of_first rfl⟩,
      .producer (.mineStore rfl)⟩
    apply exists_cons ⟨trivial,.producer (.pollBegin rfl)⟩
    apply exists_cons ⟨trivial,.producer (.pollTimer _ rfl)⟩
    apply exists_cons ⟨trivial,.producer (.pollQueue rfl)⟩
    apply exists_cons ⟨trivial,.producer
      (.executionReady rfl rfl (by simp [Service.ExecuteOutcome.result]))⟩
    apply exists_cons ⟨trivial,.producer (.pollQueue rfl)⟩
    apply exists_cons ⟨trivial,.producer (.executionPending rfl)⟩
    apply exists_cons ⟨trivial,.producer (.miningReady _ rfl (Or.inl rfl))⟩
    apply exists_cons ⟨trivial,.removeTransactions rfl⟩
    apply exists_cons ⟨trivial,.readDatabase rfl rfl⟩
    exact ⟨_,.nil _,rfl⟩
  obtain ⟨n,hn,hexecuted,hlater,m,hm,hfound⟩ := hrun
  exact ⟨n,hn,m,hm,hfound,executed_found hn hexecuted hlater hm .receipt⟩

/-- Both calls read the database before the block is stored, and the executor after that. -/
def minedBetweenReads : List (LookupAction Nat) :=
  [.request 0 .receipt 7,.request 1 .transaction 7,.readDatabase 0,.readDatabase 1]++blockClosed++
    [.readProducer 0,.readExecutor 0,.fallBack 0,.readProducer 1,.readExecutor 1,.fallBack 1]

/-- Nothing fails in the run: the calls are made after the execution, and neither finds the
transaction. -/
theorem executed_not_found : ∃ n, Run (LookupStep sampleResults (some 10) none) {} executedSeven n ∧
    7∈sampleResults.included (n.producer.transactions n.producer.executor) ∧
    n.calls 0=none ∧ n.calls 1=none ∧
    ∃ m, Run (LookupStep sampleResults (some 10) none) n minedBetweenReads m ∧
      m.calls 0=some ⟨.receipt,7,.answered .txnHashNotFound⟩ ∧
      m.calls 1=some ⟨.transaction,7,.answered .txnHashNotFound⟩ := by
  apply exists_cons (.addTransaction 7)
  apply exists_cons (.producer (.push _ rfl))
  apply exists_cons (.producer (.pollBegin rfl))
  apply exists_cons (.producer (.pollTimer _ rfl))
  apply exists_cons (.producer (.pollQueue rfl))
  apply exists_cons (.producer (.executionPending rfl))
  apply exists_cons (.producer (.miningPending rfl))
  apply exists_cons (.producer (.execute _ rfl (not_executorLocked rfl rfl) trivial))
  refine ⟨_,.nil _,by decide,rfl,rfl,?_⟩
  apply exists_cons (.request _ _ rfl)
  apply exists_cons (.request _ _ rfl)
  apply exists_cons (.readDatabase rfl rfl)
  apply exists_cons (.readDatabase rfl rfl)
  apply exists_cons (.producer (.pollBegin rfl))
  apply exists_cons (.producer (.pollTimer _ rfl))
  apply exists_cons (.producer (.pollQueue rfl))
  apply exists_cons (.producer (.executionPending rfl))
  apply exists_cons (.producer (.miningPending rfl))
  apply exists_cons (.producer (.mineLock rfl rfl))
  apply exists_cons (.producer (.mineTake rfl))
  apply exists_cons (.producer (.mineStore rfl))
  apply exists_cons (.producer (.pollBegin rfl))
  apply exists_cons (.producer (.pollTimer _ rfl))
  apply exists_cons (.producer (.pollQueue rfl))
  apply exists_cons (.producer (.executionReady rfl rfl (by simp [Service.ExecuteOutcome.result])))
  apply exists_cons (.producer (.pollQueue rfl))
  apply exists_cons (.producer (.executionPending rfl))
  apply exists_cons (.producer (.miningReady _ rfl (Or.inl rfl)))
  apply exists_cons (.removeTransactions rfl)
  apply exists_cons (.readProducer rfl rfl rfl)
  apply exists_cons (.readExecutor rfl rfl (not_executorLocked rfl rfl))
  apply exists_cons (.fallBack rfl rfl)
  apply exists_cons (.readProducer rfl rfl rfl)
  apply exists_cons (.readExecutor rfl rfl (not_executorLocked rfl rfl))
  apply exists_cons (.fallBack rfl rfl)
  exact ⟨_,.nil _,rfl,rfl⟩

end Samples
end Katana.Rpc
