import Katana.Service.Interval
import Mathlib.Tactic.Abel

/-! Where the transactions of the interval producer are. A step moves them between the
queue, the execution task, the executor of the next block, the output of a running do_mine
and the stored blocks; a transaction outside these places is lost. -/
namespace Katana.Service
open Transition IntervalBlockProducer
variable {Tx : Type}

/-- A force_mine that took the output of the executor and did not replace it yet. -/
@[simp] def ProducerLock.tookOutput : ProducerLock Tx → Bool
  | .forcing (.store _) | .forcing .replace => true
  | _ => false

/-- The executor that the next mined block is made of: that of a mining that has not taken
the output yet, otherwise the current one, unless its output is being mined. -/
def IntervalBlockProducer.nextExecutor (s : IntervalBlockProducer Tx) : Option Nat :=
  match s.ongoingMining with
  | some (.spawned e) | some (.locked e) => some e
  | some (.taken _ _) | some .finished | some .failed => none
  | some .cancelled | none => if s.lock.tookOutput then none else some s.executor

@[simp] def ExecutionTask.held : ExecutionTask Tx → List Tx
  | .running _ txs => txs
  | .finished (some leftovers) => leftovers
  | .finished none | .failed | .cancelled => []

@[simp] def MiningTask.output : MiningTask Tx → List Tx
  | .taken _ output => output
  | _ => []

@[simp] def ProducerLock.output : ProducerLock Tx → List Tx
  | .forcing (.store output) => output
  | _ => []

namespace IntervalBlockProducer

variable (s : IntervalBlockProducer Tx)

def executing : List Tx :=
  (s.ongoingExecution.map ExecutionTask.held).getD []

def nextTransactions : List Tx :=
  (s.nextExecutor.map s.transactions).getD []

def mining : List Tx :=
  (s.ongoingMining.map MiningTask.output).getD []++s.lock.output

/-- All places, each transaction counted in every place it is in. -/
def located : Multiset Tx :=
  s.queued.flatten+s.executing+s.nextTransactions+s.mining+s.stored.flatten

end IntervalBlockProducer

@[simp] def Action.pushed : Action Tx → Multiset Tx
  | .push txs => txs
  | _ => 0

/-- The steps that lose nothing: an execution runs on the executor of the next block and
returns, and a mining neither fails nor panics. -/
def Keeps (s : IntervalBlockProducer Tx) : Action Tx → Prop
  | .execute outcome =>
    (∀ e txs, s.ongoingExecution=some (.running e txs) → s.nextExecutor=some e) ∧
      outcome.Ends
  | .mineTake ok | .mineStore ok | .forceStore ok => ok=true
  | .minePanic => False
  | _ => True

/-- Only the executor of the next block holds executed transactions. -/
structure Conserving (s : IntervalBlockProducer Tx) : Prop where
  owned : PermitOwned s
  current : s.executor<s.created
  next : ∀ e, s.nextExecutor=some e → e<s.created
  only : ∀ e, s.nextExecutor≠some e → s.transactions e=[]

theorem Conserving.initial : Conserving ({} : IntervalBlockProducer Tx) where
  owned := .initial
  current := Nat.zero_lt_one
  next e h := by
    cases h
    exact Nat.zero_lt_one
  only _ _ := rfl

theorem ExecuteOutcome.executed_append_held {outcome : ExecuteOutcome} (txs : List Tx)
    (h : outcome.Ends) : outcome.executed txs++(outcome.result txs).held=txs := by
  cases outcome with
  | all => exact List.append_nil txs
  | full n => exact List.take_append_drop n txs
  | error n | panic n => exact h.elim

/-- There is no mining, or one that panicked and was not collected yet. -/
def IntervalBlockProducer.NoMining (s : IntervalBlockProducer Tx) : Prop :=
  s.ongoingMining=none ∨ s.ongoingMining=some .cancelled

/-- A force_mine that owns the permit finds no mining past its start. -/
theorem PermitOwned.mining_of_forcing {s : IntervalBlockProducer Tx} (h : PermitOwned s)
    {point : ForcePoint Tx} (hl : s.lock=.forcing point) (hp : point.HoldsPermit) :
    s.NoMining ∨ ∃ e, s.ongoingMining=some (.spawned e) := by
  have hf := h.forcing point hl hp
  cases hm : s.ongoingMining with
  | none => exact Or.inl (Or.inl hm)
  | some task =>
    have ht := h.mining task hm
    cases task with
    | spawned e => exact Or.inr ⟨e,rfl⟩
    | cancelled => exact Or.inl (Or.inr hm)
    | _ =>
      rw [ht trivial] at hf
      cases hf

/-- What a step that loses nothing does, the permit apart. -/
structure Moves (s t : IntervalBlockProducer Tx) (pushed : Multiset Tx) : Prop where
  current : t.executor<t.created
  next : ∀ e, t.nextExecutor=some e → e<t.created
  only : ∀ e, t.nextExecutor≠some e → t.transactions e=[]
  located : t.located=s.located+pushed

section Moves
variable {s t : IntervalBlockProducer Tx}

theorem nextExecutor_of_noMining (h : s.NoMining) :
    s.nextExecutor=if s.lock.tookOutput then none else some s.executor := by
  cases h with
  | inl h | inr h => rw [nextExecutor,h]

theorem mining_of_noMining (h : s.NoMining) : s.mining=s.lock.output := by
  cases h with
  | inl h | inr h => simp [mining,h]

theorem nextTransactions_of_next {e : Nat} (h : s.nextExecutor=some e) :
    s.nextTransactions=s.transactions e := by
  rw [nextTransactions,h]
  rfl

theorem Conserving.transactions_of_none (hc : Conserving s) (h : s.nextExecutor=none) (e : Nat) :
    s.transactions e=[] := by
  apply hc.only
  simp [h]

theorem located_of_nextTransactions {pushed : Multiset Tx}
    (hx : t.nextTransactions=s.nextTransactions)
    (h : (t.queued.flatten : Multiset Tx)+t.executing+t.mining+t.stored.flatten=
      s.queued.flatten+s.executing+s.mining+s.stored.flatten+pushed) :
    t.located=s.located+pushed := by
  calc t.located=t.queued.flatten+t.executing+t.mining+t.stored.flatten+t.nextTransactions := by
        simp only [IntervalBlockProducer.located]
        abel
    _=s.located+pushed := by
        simp only [IntervalBlockProducer.located,h,hx]
        abel

theorem Moves.of_executors {pushed : Multiset Tx} (hc : Conserving s)
    (he : t.executor=s.executor) (hr : t.created=s.created) (ht : t.transactions=s.transactions)
    (hn : t.nextExecutor=s.nextExecutor)
    (h : (t.queued.flatten : Multiset Tx)+t.executing+t.mining+t.stored.flatten=
      s.queued.flatten+s.executing+s.mining+s.stored.flatten+pushed) : Moves s t pushed where
  current := he ▸ hr ▸ hc.current
  next := hn ▸ hr ▸ hc.next
  only := hn ▸ ht ▸ hc.only
  located := located_of_nextTransactions (by simp only [nextTransactions,hn,ht]) h

theorem Moves.of_empty (hs : ∀ e, s.transactions e=[]) (ht : ∀ e, t.transactions e=[])
    (hcur : t.executor<t.created) (hnext : ∀ e, t.nextExecutor=some e → e<t.created)
    (hq : t.queued=s.queued) (hx : t.executing=s.executing) (hm : t.mining=s.mining)
    (hst : t.stored=s.stored) : Moves s t 0 where
  current := hcur
  next := hnext
  only e _ := ht e
  located := by
    apply located_of_nextTransactions
    · cases hn : s.nextExecutor <;> cases hn' : t.nextExecutor <;> simp [nextTransactions,hn,hn',hs,ht]
    · rw [hq,hx,hm,hst,add_zero]

theorem Moves.of_same (hc : Conserving s) (he : t.executor=s.executor)
    (hr : t.created=s.created) (ht : t.transactions=s.transactions)
    (hn : t.nextExecutor=s.nextExecutor) (hq : t.queued=s.queued) (hx : t.executing=s.executing)
    (hm : t.mining=s.mining) (hs : t.stored=s.stored) : Moves s t 0 := by
  apply Moves.of_executors hc he hr ht hn
  rw [hq,hx,hm,hs,add_zero]

end Moves
end Katana.Service
