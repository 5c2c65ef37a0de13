import Katana.Base.Transition
import Katana.Service.Executor
import Mathlib.Logic.Function.Basic

/-! The interval block producer (IntervalBlockProducer of core/service/block_producer.rs):
poll_next, force_mine and the two kinds of blocking tasks, with the locks they take. The
producer lock is held through a poll and through a force_mine; the tasks and the
validations run between their steps. -/
namespace Katana.Service
variable {Tx : Type} {blockTime : Option Nat}

/-- A spawned execute_transactions, until poll_next collects its result. -/
inductive ExecutionTask (Tx : Type) where
  | running (executor : Nat) (transactions : List Tx)
  | finished (leftovers : Option (List Tx))
  | failed
  | cancelled

/-- A spawned do_mine. It locks the permit, takes the output of its executor under the lock
of the executor, stores the block and returns with the permit still locked. -/
inductive MiningTask (Tx : Type) where
  | spawned (executor : Nat)
  | locked (executor : Nat)
  | taken (executor : Nat) (output : List Tx)
  | finished
  | failed
  | cancelled

/-- The next part of poll_next to run. -/
inductive PollPoint where
  | timer
  | queue
  | execution
  | mining
  deriving DecidableEq, Repr

/-- The next part of force_mine to run. -/
inductive ForcePoint (Tx : Type) where
  | permit
  | take
  | store (output : List Tx)
  | replace
  | update

inductive ProducerLock (Tx : Type) where
  | free
  | polling (point : PollPoint)
  | forcing (point : ForcePoint Tx)

inductive Permit where
  | free
  | mining
  | forcing
  | validating
  deriving DecidableEq, Repr

/-- Executors are numbered in the order they are created; executor is the current one. -/
structure IntervalBlockProducer (Tx : Type) where
  queued : List (List Tx) := []
  executor : Nat := 0
  created : Nat := 1
  /-- The executed transactions that every executor holds. -/
  transactions : Nat → List Tx := fun _ => []
  ongoingExecution : Option (ExecutionTask Tx) := none
  ongoingMining : Option (MiningTask Tx) := none
  timer : Bool := false
  isBlockFull : Bool := false
  /-- The execution outputs of the stored blocks. -/
  stored : List (List Tx) := []
  lock : ProducerLock Tx := .free
  permit : Permit := .free
  waitingValidations : Nat := 0
  waitingForceMines : Nat := 0

/-- What an execute_transactions that ended leaves in its task. -/
def ExecuteOutcome.result (txs : List Tx) : ExecuteOutcome → ExecutionTask Tx
  | .all => .finished none
  | .full n => .finished (some (txs.drop n))
  | .error _ => .failed
  | .panic _ => .cancelled

/-- How poll_next gets on after a mining: the new executor and the reads of the provider
for the validator succeed, or one of them does not. -/
inductive NextBlockOutcome where
  | ready
  | createFailed
  | latestNumberFailed
  | blockEnvPanicked
  deriving DecidableEq, Repr

inductive Action (Tx : Type) where
  | push (transactions : List Tx)
  | pollBegin
  | pollTimer (ready : Bool)
  | pollQueue
  | executionPending
  | executionReady
  | miningPending
  | miningReady (next : NextBlockOutcome)
  | execute (outcome : ExecuteOutcome)
  | mineLock
  | mineTake (ok : Bool)
  | mineStore (ok : Bool)
  | minePanic
  | forceCall
  | forceBegin
  | forceLock
  | forceTake (ok : Bool)
  | forceStore (ok : Bool)
  | forceReplace (ok : Bool)
  | forceUpdate (ok : Bool)
  | validateCall
  | validateLock
  | validateUnlock

section ExecuteTransactions
open StarknetVMProcessor
variable {State Header Receipt : Type} (B : Blockifier State Header Tx Receipt)

/-- The results of the transactions executed last that succeeded. -/
def newResults (totalExecuted : Nat) (x : StarknetVMProcessor State Tx Receipt) :
    List (Tx × Receipt) :=
  (x.transactions.drop (x.transactions.length-totalExecuted)).filterMap fun (tx,result) =>
    match result with
    | .success receipt => some (tx,receipt)
    | .failed _ => none

/-- The task itself, on the executor it was spawned with. -/
def IntervalBlockProducer.executeTransactions (txs : List Tx)
    (x : StarknetVMProcessor State Tx Receipt) : StarknetVMProcessor State Tx Receipt ×
      Except BlockProductionError (List (Tx × Receipt) × Option (List Tx)) :=
  match StarknetVMProcessor.executeTransactions B txs x with
  | (x,.error e) => (x,.error (.transactionExecutionError e))
  | (x,.ok (totalExecuted,isFull)) =>
    (x,.ok (newResults totalExecuted x,if isFull.isSome then some (txs.drop totalExecuted) else none))

def ExecutionTask.ofResult {α : Type} :
    Except BlockProductionError (α × Option (List Tx)) → ExecutionTask Tx
  | .ok (_,leftovers) => .finished leftovers
  | .error _ => .failed

theorem executeTransactions_outcome (txs : List Tx) (x : StarknetVMProcessor State Tx Receipt) :
    ∃ outcome : ExecuteOutcome, outcome.Possible txs ∧
      (IntervalBlockProducer.executeTransactions B txs x).1.transactions.map Prod.fst=
        x.transactions.map Prod.fst++outcome.executed txs ∧
      ExecutionTask.ofResult (IntervalBlockProducer.executeTransactions B txs x).2=
        outcome.result txs := by
  refine ⟨B.outcome x.state txs,B.outcome_possible x.state txs,?_⟩
  obtain ⟨hx,hr⟩ := executeTransactions_spec (B := B) txs x
  rw [IntervalBlockProducer.executeTransactions]
  rcases hxr : StarknetVMProcessor.executeTransactions B txs x with ⟨y,r⟩
  rw [hxr] at hx hr
  cases ho : B.outcome x.state txs with
  | all =>
    rw [ho] at hx hr
    rw [show r=_ from hr]
    exact ⟨hx,rfl⟩
  | full n =>
    rw [ho] at hx hr
    rw [show r=_ from hr]
    exact ⟨hx,by simp [ExecutionTask.ofResult,ExecuteOutcome.result]⟩
  | error n =>
    rw [ho] at hx hr
    obtain ⟨m,hm⟩ := hr
    rw [show r=_ from hm]
    exact ⟨hx,rfl⟩
  | panic n =>
    rw [ho] at hr
    exact hr.elim

end ExecuteTransactions

namespace IntervalBlockProducer

variable (s : IntervalBlockProducer Tx)

def spawnMining : IntervalBlockProducer Tx :=
  { s with ongoingMining := some (.spawned s.executor), timer := false, isBlockFull := false }

/-- A block is closed when its interval is over or when it is full. The timer is dropped
then and put back otherwise. -/
def pollTimer (ready : Bool) (s : IntervalBlockProducer Tx) : IntervalBlockProducer Tx :=
  if s.timer then
    if (ready || s.isBlockFull) && s.ongoingMining.isNone then s.spawnMining else s
  else if s.isBlockFull && s.ongoingMining.isNone then s.spawnMining
  else s

/-- Everything queued goes to one execution, unless one or a mining is going on. -/
def pollQueue (blockTime : Option Nat) (s : IntervalBlockProducer Tx) : IntervalBlockProducer Tx :=
  if !s.queued.isEmpty && s.ongoingExecution.isNone && s.ongoingMining.isNone then
    { s with
      queued := []
      ongoingExecution := some (.running s.executor s.queued.flatten)
      timer := s.timer || blockTime.isSome }
  else s

/-- The result of the execution task that poll_next finds finished. -/
def collectExecution : IntervalBlockProducer Tx :=
  match s.ongoingExecution with
  | some (.finished (some leftovers)) =>
    { s with
      ongoingExecution := none
      isBlockFull := true
      queued := leftovers::s.queued
      lock := .polling .mining }
  | some (.finished none) => { s with ongoingExecution := none, lock := .polling .queue }
  | some .failed | some .cancelled => { s with ongoingExecution := none, lock := .free }
  | _ => s

def replaceExecutor : IntervalBlockProducer Tx :=
  { s with
    executor := s.created
    created := s.created+1
    transactions := Function.update s.transactions s.created [] }

/-- What poll_next does about a mining that returned: the permit is unlocked only after the
executor was replaced and the validator updated. -/
def completeMining (next : NextBlockOutcome) (s : IntervalBlockProducer Tx) :
    IntervalBlockProducer Tx :=
  match next with
  | .ready =>
    { s.replaceExecutor with
      ongoingMining := none, permit := .free, isBlockFull := false, lock := .free }
  | .createFailed | .latestNumberFailed | .blockEnvPanicked =>
    { s with ongoingMining := none, lock := .free }

/-- The lock of an executor, which a do_mine holds from taking the output until it returns. -/
def ExecutorLocked (e : Nat) : Prop :=
  (∃ output, s.ongoingMining=some (.taken e output)) ∨
    (∃ output, s.lock=.forcing (.store output)) ∧ e=s.executor

end IntervalBlockProducer

open IntervalBlockProducer in
inductive Step (blockTime : Option Nat) :
    IntervalBlockProducer Tx → Action Tx → IntervalBlockProducer Tx → Prop where
  -- BlockProducer::queue
  | push {s} (txs : List Tx) (h : s.lock=.free) :
      Step blockTime s (.push txs) { s with queued := s.queued++[txs] }
  -- poll_next
  | pollBegin {s} (h : s.lock=.free) :
      Step blockTime s .pollBegin { s with lock := .polling .timer }
  | pollTimer {s} (ready : Bool) (h : s.lock=.polling .timer) :
      Step blockTime s (.pollTimer ready) { s.pollTimer ready with lock := .polling .queue }
  | pollQueue {s} (h : s.lock=.polling .queue) :
      Step blockTime s .pollQueue { s.pollQueue blockTime with lock := .polling .execution }
  | executionPending {s} (h : s.lock=.polling .execution) :
      Step blockTime s .executionPending { s with lock := .polling .mining }
  | executionReady {s} (h : s.lock=.polling .execution) {task : ExecutionTask Tx}
      (ht : s.ongoingExecution=some task) (hr : ∀ e txs, task≠.running e txs) :
      Step blockTime s .executionReady s.collectExecution
  | miningPending {s} (h : s.lock=.polling .mining) :
      Step blockTime s .miningPending { s with lock := .free }
  | miningReady {s} (next : NextBlockOutcome) (h : s.lock=.polling .mining)
      (hm : s.ongoingMining=some .finished ∨ s.ongoingMining=some .failed) :
      Step blockTime s (.miningReady next) (s.completeMining next)
  | miningCancelled {s} (next : NextBlockOutcome) (h : s.lock=.polling .mining)
      (hm : s.ongoingMining=some .cancelled) :
      Step blockTime s (.miningReady next) { s with ongoingMining := none, lock := .free }
  -- execute_transactions, on the executor it was spawned with
  | execute {s} {e : Nat} {txs : List Tx} (outcome : ExecuteOutcome)
      (h : s.ongoingExecution=some (.running e txs)) (hl : ¬s.ExecutorLocked e)
      (ho : outcome.Possible txs) :
      Step blockTime s (.execute outcome) { s with
        ongoingExecution := some (outcome.result txs)
        transactions := Function.update s.transactions e (s.transactions e++outcome.executed txs) }
  -- do_mine as a task
  | mineLock {s} {e : Nat} (h : s.ongoingMining=some (.spawned e)) (hp : s.permit=.free) :
      Step blockTime s .mineLock { s with ongoingMining := some (.locked e), permit := .mining }
  | mineTake {s} {e : Nat} (h : s.ongoingMining=some (.locked e)) :
      Step blockTime s (.mineTake true) { s with
        ongoingMining := some (.taken e (s.transactions e))
        transactions := Function.update s.transactions e [] }
  | mineTakeFailed {s} {e : Nat} (h : s.ongoingMining=some (.locked e)) :
      Step blockTime s (.mineTake false) { s with ongoingMining := some .failed }
  | mineStore {s} {e : Nat} {output : List Tx} (h : s.ongoingMining=some (.taken e output)) :
      Step blockTime s (.mineStore true)
        { s with ongoingMining := some .finished, stored := s.stored++[output] }
  | mineStoreFailed {s} {e : Nat} {output : List Tx} (h : s.ongoingMining=some (.taken e output)) :
      Step blockTime s (.mineStore false) { s with ongoingMining := some .failed }
  | minePanic {s} {task : MiningTask Tx} (h : s.ongoingMining=some task)
      (hr : task≠.finished ∧ task≠.failed ∧ task≠.cancelled) :
      Step blockTime s .minePanic { s with ongoingMining := some .cancelled }
  -- force_mine
  | forceCall {s} :
      Step blockTime s .forceCall { s with waitingForceMines := s.waitingForceMines+1 }
  | forceBegin {s} {n : Nat} (h : s.lock=.free) (hw : s.waitingForceMines=n+1) :
      Step blockTime s .forceBegin { s with lock := .forcing .permit, waitingForceMines := n }
  | forceLock {s} (h : s.lock=.forcing .permit) (hp : s.permit=.free) :
      Step blockTime s .forceLock { s with lock := .forcing .take, permit := .forcing }
  | forceTake {s} (h : s.lock=.forcing .take) :
      Step blockTime s (.forceTake true) { s with
        lock := .forcing (.store (s.transactions s.executor))
        transactions := Function.update s.transactions s.executor [] }
  | forceTakeFailed {s} (h : s.lock=.forcing .take) :
      Step blockTime s (.forceTake false) { s with lock := .free }
  | forceStore {s} {output : List Tx} (h : s.lock=.forcing (.store output)) :
      Step blockTime s (.forceStore true)
        { s with lock := .forcing .replace, stored := s.stored++[output] }
  | forceStoreFailed {s} {output : List Tx} (h : s.lock=.forcing (.store output)) :
      Step blockTime s (.forceStore false) { s with lock := .free }
  | forceReplace {s} (h : s.lock=.forcing .replace) :
      Step blockTime s (.forceReplace true) { s.replaceExecutor with lock := .forcing .update }
  | forceReplacePanicked {s} (h : s.lock=.forcing .replace) :
      Step blockTime s (.forceReplace false) { s with lock := .free }
  | forceUpdate {s} (h : s.lock=.forcing .update) :
      Step blockTime s (.forceUpdate true) { s with lock := .free, permit := .free }
  | forceUpdatePanicked {s} (h : s.lock=.forcing .update) :
      Step blockTime s (.forceUpdate false) { s with lock := .free }
  -- TxValidator::validate
  | validateCall {s} :
      Step blockTime s .validateCall { s with waitingValidations := s.waitingValidations+1 }
  | validateLock {s} {n : Nat} (hp : s.permit=.free) (hw : s.waitingValidations=n+1) :
      Step blockTime s .validateLock { s with permit := .validating, waitingValidations := n }
  | validateUnlock {s} (hp : s.permit=.validating) :
      Step blockTime s .validateUnlock { s with permit := .free }

theorem executeTransactions_step {State Header Receipt : Type}
    (B : Blockifier State Header Tx Receipt) {s : IntervalBlockProducer Tx} {e : Nat}
    {txs : List Tx} (h : s.ongoingExecution=some (.running e txs)) (hl : ¬s.ExecutorLocked e)
    {x : StarknetVMProcessor State Tx Receipt} (hx : x.transactions.map Prod.fst=s.transactions e) :
    ∃ outcome, Step blockTime s (.execute outcome) { s with
      ongoingExecution := some (.ofResult (IntervalBlockProducer.executeTransactions B txs x).2)
      transactions := Function.update s.transactions e
        ((IntervalBlockProducer.executeTransactions B txs x).1.transactions.map Prod.fst) } := by
  obtain ⟨outcome,hp,ht,hr⟩ := executeTransactions_outcome B txs x
  refine ⟨outcome,?_⟩
  rw [ht,hr,hx]
  exact .execute outcome h hl hp

/-- A block with room for two of the three transactions of a batch. -/
theorem two_executed : ∃ outcome t, Step none
    { ongoingExecution := some (.running 0 [7,8,9]) } (.execute outcome) t ∧
      t.transactions 0=[7,8] ∧ t.ongoingExecution=some (.finished (some [9])) := by
  refine (executeTransactions_step ⟨fun (_ : Unit) s => s,fun s _ =>
    if s<2 then (s+1,.ok (.success ())) else (s,.error .limitsExhausted)⟩ rfl ?_
    (x := ⟨0,[]⟩) rfl).imp fun outcome h => ⟨_,h,rfl,rfl⟩
  simp [IntervalBlockProducer.ExecutorLocked]

/-- A do_mine that locked the permit and was not completed yet. -/
def MiningTask.HoldsPermit : MiningTask Tx → Prop
  | .locked _ | .taken _ _ | .finished | .failed => True
  | .spawned _ | .cancelled => False

def ForcePoint.HoldsPermit : ForcePoint Tx → Prop
  | .permit => False
  | .take | .store _ | .replace | .update => True

/-- Whoever went past locking the permit is its owner. -/
structure PermitOwned (s : IntervalBlockProducer Tx) : Prop where
  mining : ∀ task, s.ongoingMining=some task → task.HoldsPermit → s.permit=.mining
  forcing : ∀ point, s.lock=.forcing point → point.HoldsPermit → s.permit=.forcing

theorem PermitOwned.initial : PermitOwned ({} : IntervalBlockProducer Tx) where
  mining _ h := by cases h
  forcing _ h := by cases h

section Fields
variable (s : IntervalBlockProducer Tx)

@[simp] theorem pollTimer_permit (ready : Bool) : (s.pollTimer ready).permit=s.permit := by
  unfold IntervalBlockProducer.pollTimer
  split_ifs <;> rfl

theorem pollTimer_mining (ready : Bool) :
    (s.pollTimer ready).ongoingMining=s.ongoingMining ∨
      s.ongoingMining=none ∧ (s.pollTimer ready).ongoingMining=some (.spawned s.executor) := by
  unfold IntervalBlockProducer.pollTimer
  split_ifs with h₁ h₂ h₃
  · simp only [Bool.and_eq_true,Option.isNone_iff_eq_none] at h₂
    exact Or.inr ⟨h₂.2,rfl⟩
  · exact Or.inl rfl
  · simp only [Bool.and_eq_true,Option.isNone_iff_eq_none] at h₃
    exact Or.inr ⟨h₃.2,rfl⟩
  · exact Or.inl rfl

@[simp] theorem pollQueue_permit (blockTime : Option Nat) :
    (s.pollQueue blockTime).permit=s.permit := by
  unfold IntervalBlockProducer.pollQueue
  split_ifs <;> rfl

@[simp] theorem pollQueue_mining (blockTime : Option Nat) :
    (s.pollQueue blockTime).ongoingMining=s.ongoingMining := by
  unfold IntervalBlockProducer.pollQueue
  split_ifs <;> rfl

@[simp] theorem collectExecution_permit : s.collectExecution.permit=s.permit := by
  unfold IntervalBlockProducer.collectExecution
  split <;> rfl

@[simp] theorem collectExecution_mining : s.collectExecution.ongoingMining=s.ongoingMining := by
  unfold IntervalBlockProducer.collectExecution
  split <;> rfl

@[simp] theorem replaceExecutor_permit : s.replaceExecutor.permit=s.permit := rfl

@[simp] theorem replaceExecutor_mining : s.replaceExecutor.ongoingMining=s.ongoingMining := rfl

end Fields

theorem PermitOwned.step {s t : IntervalBlockProducer Tx} {a : Action Tx} (h : PermitOwned s)
    (hs : Step blockTime s a t) : PermitOwned t := by
  obtain ⟨hm,hf⟩ := h
  cases hs with
  | pollTimer ready h =>
    refine ⟨?_,by simp⟩
    intro task ht hh
    cases pollTimer_mining s ready with
    | inl he => exact (pollTimer_permit s ready).trans (hm task (he.symm.trans ht) hh)
    | inr he =>
      rw [he.2,Option.some.injEq] at ht
      subst ht
      cases hh
  | pollQueue h => exact ⟨by simpa using hm,by simp⟩
  | executionReady h ht hr =>
    refine ⟨by simpa using hm,?_⟩
    intro point hl hp
    simp only [IntervalBlockProducer.collectExecution] at hl
    split at hl <;> simp_all
  | miningReady next h hm' =>
    constructor
    · intro task ht
      cases next <;> cases ht
    · intro point hl
      cases next <;> cases hl
  | forceReplace h => exact ⟨hm,fun point _ _ => hf _ h trivial⟩
  | _ => constructor <;> grind [MiningTask.HoldsPermit,ForcePoint.HoldsPermit]

theorem permitOwned_of_run {as : List (Action Tx)} {s : IntervalBlockProducer Tx}
    (h : Transition.Run (Step blockTime) {} as s) : PermitOwned s :=
  h.invariant (fun _ _ _ ho hs => PermitOwned.step ho hs) .initial

end Katana.Service
