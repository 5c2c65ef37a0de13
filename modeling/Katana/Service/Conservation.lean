import Katana.Service.Places

/-! Conservation of transactions in the interval producer: what each step moves, and from it
what a run keeps. -/
namespace Katana.Service
open Transition IntervalBlockProducer Run
variable {Tx : Type}

section Moves
variable {s : IntervalBlockProducer Tx}

theorem executionReady_moves (hc : Conserving s) (h : s.lock=.polling .execution)
    {task : ExecutionTask Tx} (ht : s.ongoingExecution=some task)
    (hr : ∀ e txs, task≠.running e txs) : Moves s s.collectExecution 0 := by
  cases task with
  | running e txs => exact absurd rfl (hr e txs)
  | finished leftovers =>
    cases leftovers with
    | none => apply Moves.of_same hc <;> simp [collectExecution,ht,nextExecutor,executing,mining,h]
    | some leftovers =>
      -- the leftovers go back to the front of the queue
      apply Moves.of_executors hc
      case h =>
        simp only [collectExecution,ht,executing,mining,h,ExecutionTask.held,ProducerLock.output,
          List.flatten_cons,← Multiset.coe_add,Option.map_none,Option.getD_none,Option.map_some,
          Option.getD_some,Multiset.coe_nil]
        abel
      all_goals simp [collectExecution,ht,nextExecutor,h]
  | failed => apply Moves.of_same hc <;> simp [collectExecution,ht,nextExecutor,executing,mining,h]
  | cancelled =>
    apply Moves.of_same hc <;> simp [collectExecution,ht,nextExecutor,executing,mining,h]

theorem execute_moves (hc : Conserving s) {e : Nat} {txs : List Tx} {outcome : ExecuteOutcome}
    (h : s.ongoingExecution=some (.running e txs)) (hk : Keeps s (.execute outcome)) :
    Moves s { s with
      ongoingExecution := some (outcome.result txs)
      transactions := Function.update s.transactions e (s.transactions e++outcome.executed txs) }
      0 := by
  have hn := hk.1 e txs h
  refine ⟨hc.current,hc.next,?_,?_⟩
  · intro x hx
    have he : x≠e := fun he => hx (he ▸ hn)
    exact (Function.update_of_ne he _ _).trans (hc.only x hx)
  · have hs : s.executing=outcome.executed txs++(outcome.result txs).held := by
      rw [ExecuteOutcome.executed_append_held txs hk.2,executing,h]
      rfl
    simp only [IntervalBlockProducer.located,hs,nextTransactions_of_next hn]
    rw [nextTransactions_of_next (e := e)]
    · simp only [executing,Option.map_some,Option.getD_some,Function.update_self,← Multiset.coe_add,
        mining]
      abel
    · exact hn

theorem update_nil_of_ne {e x : Nat} (h : x≠e → s.transactions x=[]) :
    Function.update s.transactions e [] x=[] := by
  by_cases he : x=e
  · rw [he,Function.update_self]
  · rw [Function.update_of_ne he]
    exact h he

section
variable (hc : Conserving s)
include hc

theorem mineTake_moves {e : Nat} (h : s.ongoingMining=some (.locked e)) :
    Moves s { s with
      ongoingMining := some (.taken e (s.transactions e))
      transactions := Function.update s.transactions e [] } 0 := by
  have hn : s.nextExecutor=some e := by rw [nextExecutor,h]
  refine ⟨hc.current,by simp [nextExecutor],?_,?_⟩
  · intro x _
    exact update_nil_of_ne fun hx => hc.only x (by simpa [hn] using hx.symm)
  · simp only [IntervalBlockProducer.located,nextTransactions_of_next hn]
    simp [executing,nextTransactions,nextExecutor,mining,h]

theorem miningReady_moves (next : NextBlockOutcome)
    (h : s.lock=.polling .mining)
    (hm : s.ongoingMining=some .finished ∨ s.ongoingMining=some .failed) :
    Moves s (s.completeMining next) 0 := by
  have ht := hc.transactions_of_none (by cases hm <;> simp [nextExecutor, *])
  have hmin : s.mining=[] := by cases hm <;> simp [mining, *]
  have hcur := hc.current
  cases next with
  | ready =>
    apply Moves.of_empty ht
    · exact fun x => update_nil_of_ne fun _ => ht x
    all_goals simp [completeMining,replaceExecutor,nextExecutor,executing,hmin]
    simp [mining]
  | _ =>
    apply Moves.of_empty ht
    · exact ht
    all_goals simp [completeMining,nextExecutor,executing,hmin,hcur]
    simp [mining]

theorem forceTake_moves (h : s.lock=.forcing .take) :
    Moves s { s with
      lock := .forcing (.store (s.transactions s.executor))
      transactions := Function.update s.transactions s.executor [] } 0 := by
  cases hc.owned.mining_of_forcing h trivial with
  | inl hm =>
    have hn : s.nextExecutor=some s.executor := by simp [nextExecutor_of_noMining hm,h]
    refine ⟨hc.current,?_,?_,?_⟩
    · cases hm <;> simp [nextExecutor, *]
    · intro x _
      exact update_nil_of_ne fun hx => hc.only x (by simpa [hn] using hx.symm)
    · simp only [IntervalBlockProducer.located,nextTransactions_of_next hn,mining_of_noMining hm,h]
      cases hm <;> simp [nextTransactions,nextExecutor,mining,executing, *]
  | inr hm =>
    -- the mining has not started yet, and keeps the executor it was spawned with
    obtain ⟨e,hm⟩ := hm
    have hn : s.nextExecutor=some e := by simp [nextExecutor,hm]
    refine ⟨hc.current,by simpa [nextExecutor,hm] using hc.next,?_,?_⟩
    · intro x hx
      exact update_nil_of_ne fun _ => hc.only x (by simpa [nextExecutor,hm] using hx)
    · simp only [IntervalBlockProducer.located,nextTransactions_of_next hn]
      by_cases he : e=s.executor
      · simp [nextTransactions,nextExecutor,mining,executing,hm,h,he]
      · have hx := hc.only s.executor (by simpa [hn] using he)
        simp [nextTransactions,nextExecutor,mining,executing,hm,h,he,hx]

theorem forceReplace_moves (h : s.lock=.forcing .replace) :
    Moves s { s.replaceExecutor with lock := .forcing .update } 0 := by
  cases hc.owned.mining_of_forcing h trivial with
  | inl hm =>
    have ht := hc.transactions_of_none (by simp [nextExecutor_of_noMining hm,h])
    apply Moves.of_empty ht
    · exact fun x => update_nil_of_ne fun _ => ht x
    all_goals cases hm <;> simp [replaceExecutor,nextExecutor,executing,mining, *]
  | inr hm =>
    obtain ⟨e,hm⟩ := hm
    have hn : s.nextExecutor=some e := by simp [nextExecutor,hm]
    have he := hc.next e hn
    refine ⟨Nat.lt_succ_self _,?_,?_,?_⟩
    · intro x hx
      have hx : e=x := by simpa [replaceExecutor,nextExecutor,hm] using hx
      exact hx ▸ he.trans (Nat.lt_succ_self _)
    · intro x hx
      exact update_nil_of_ne fun _ => hc.only x (by simpa [replaceExecutor,nextExecutor,hm] using hx)
    · simp only [IntervalBlockProducer.located,nextTransactions_of_next hn]
      simp [replaceExecutor,nextTransactions,nextExecutor,mining,executing,hm,h,he.ne]

theorem forceReplacePanicked_moves (h : s.lock=.forcing .replace) :
    Moves s { s with lock := .free } 0 := by
  have hcur := hc.current
  cases hc.owned.mining_of_forcing h trivial with
  | inl hm =>
    have ht := hc.transactions_of_none (by simp [nextExecutor_of_noMining hm,h])
    apply Moves.of_empty ht
    · exact ht
    all_goals cases hm <;> simp [nextExecutor,executing,mining, *]
  | inr hm =>
    obtain ⟨e,hm⟩ := hm
    apply Moves.of_same hc <;> simp [nextExecutor,executing,mining,h,hm]

end

end Moves

variable {blockTime : Option Nat}

section
variable {s t : IntervalBlockProducer Tx} {a : Action Tx} (hc : Conserving s)
  (hs : Restrict Keeps (Step blockTime) s a t)
include hc hs

theorem step_moves : Moves s t a.pushed := by
  obtain ⟨hk,hs⟩ := hs
  cases hs with
  | push txs h =>
    apply Moves.of_executors hc
    case h =>
      simp only [List.flatten_append,List.flatten_singleton,← Multiset.coe_add,Action.pushed,
        executing,mining]
      abel
    all_goals rfl
  | pollTimer ready h =>
    unfold IntervalBlockProducer.pollTimer
    split_ifs <;> apply Moves.of_same hc <;> simp_all [nextExecutor,mining,executing,spawnMining]
  | pollQueue h =>
    unfold IntervalBlockProducer.pollQueue
    split_ifs
    · apply Moves.of_executors hc <;> simp_all [nextExecutor,executing,mining]
    · apply Moves.of_same hc <;> simp [nextExecutor,executing,mining,h]
  | executionReady h ht hr => exact executionReady_moves hc h ht hr
  | miningReady next h hm => exact miningReady_moves hc next h hm
  | execute outcome h hl hp => exact execute_moves hc h hk
  | mineTake h => exact mineTake_moves hc h
  | mineStore h =>
    apply Moves.of_executors hc
    case h =>
      simp only [List.flatten_append,List.flatten_singleton,← Multiset.coe_add,executing,mining,h,
        Option.map_some,Option.getD_some,MiningTask.output,Multiset.coe_nil,Action.pushed]
      abel
    all_goals simp [nextExecutor,h]
  | forceTake h => exact forceTake_moves hc h
  | forceStore h =>
    apply Moves.of_executors hc
    case h =>
      simp only [List.flatten_append,List.flatten_singleton,← Multiset.coe_add,executing,mining,h,
        ProducerLock.output,Multiset.coe_nil,Action.pushed]
      abel
    all_goals simp [nextExecutor,h]
  | forceReplace h => exact forceReplace_moves hc h
  | forceReplacePanicked h => exact forceReplacePanicked_moves hc h
  | minePanic | mineTakeFailed | mineStoreFailed | forceStoreFailed => cases hk
  | _ => apply Moves.of_same hc <;> simp [nextExecutor,executing,mining, *]

theorem conserving_step : Conserving t ∧ t.located=s.located+a.pushed := by
  have h := step_moves hc hs
  exact ⟨⟨hc.owned.step hs.2,h.current,h.next,h.only⟩,h.located⟩

end

/-- In a run whose steps lose nothing every pushed transaction is in one of the places, and
in one only; no executor but that of the next block holds one. -/
theorem interval_conserves {as : List (Action Tx)}
    {s : IntervalBlockProducer Tx} (h : Run (Restrict Keeps (Step blockTime)) {} as s) :
    s.located=(as.map Action.pushed).sum ∧ ∀ e, s.transactions e≠[] → s.nextExecutor=some e := by
  obtain ⟨hc,hl⟩ := h.accumulate (fun _ _ _ hc hs => conserving_step hc hs) .initial
  constructor
  · rw [hl]
    exact zero_add _
  · intro e he
    by_contra hn
    exact he (hc.only e hn)

def pendingPoll (ready : Bool) : List (Action Tx) :=
  [.pollBegin,.pollTimer ready,.pollQueue,.executionPending,.miningPending]

/-- The interval is over after the execution. -/
def minedInTime : List (Action Nat) :=
  [.push [7]]++pendingPoll false++[.execute .all]++pendingPoll true++
    [.mineLock,.mineTake true,.mineStore true]

theorem interval_conserves_in_time :
    ∃ s, Run (Restrict Keeps (Step (some 10))) {} minedInTime s ∧ s.stored=[[7]] ∧
      s.located=(minedInTime.map Action.pushed).sum := by
  have hrun : ∃ s, Run (Restrict Keeps (Step (some 10))) {} minedInTime s ∧ s.stored=[[7]] := by
    apply exists_cons ⟨trivial,.push _ rfl⟩
    apply exists_cons ⟨trivial,.pollBegin rfl⟩
    apply exists_cons ⟨trivial,.pollTimer _ rfl⟩
    apply exists_cons ⟨trivial,.pollQueue rfl⟩
    apply exists_cons ⟨trivial,.executionPending rfl⟩
    apply exists_cons ⟨trivial,.miningPending rfl⟩
    apply exists_cons ⟨⟨fun _ _ h => by cases h; rfl,trivial⟩,
      .execute _ rfl (by simp [ExecutorLocked,IntervalBlockProducer.pollTimer]) trivial⟩
    apply exists_cons ⟨trivial,.pollBegin rfl⟩
    apply exists_cons ⟨trivial,.pollTimer _ rfl⟩
    apply exists_cons ⟨trivial,.pollQueue rfl⟩
    apply exists_cons ⟨trivial,.executionPending rfl⟩
    apply exists_cons ⟨trivial,.miningPending rfl⟩
    apply exists_cons ⟨trivial,.mineLock rfl rfl⟩
    apply exists_cons ⟨rfl,.mineTake rfl⟩
    apply exists_cons ⟨rfl,.mineStore rfl⟩
    exact ⟨_,.nil _,rfl⟩
  obtain ⟨s,hs,hstored⟩ := hrun
  exact ⟨s,hs,hstored,(interval_conserves hs).1⟩

/-- The interval is over before the execution starts: its executor is mined first. -/
def executedLate : List (Action Nat) :=
  [.push [7]]++pendingPoll false++pendingPoll true++
    [.mineLock,.mineTake true,.mineStore true,.execute .all]++
    [.pollBegin,.pollTimer false,.pollQueue,.executionReady,.pollQueue,.executionPending,
      .miningReady .ready]

/-- Nothing fails in the run, and the transaction is only on a discarded executor. -/
theorem executed_late_lost : ∃ s, Run (Step (some 10)) {} executedLate s ∧
    (executedLate.map Action.pushed).sum={7} ∧ s.located=0 ∧ s.transactions 0=[7] ∧
      s.nextExecutor=some 1 := by
  apply exists_cons (.push _ rfl)
  apply exists_cons (.pollBegin rfl)
  apply exists_cons (.pollTimer _ rfl)
  apply exists_cons (.pollQueue rfl)
  apply exists_cons (.executionPending rfl)
  apply exists_cons (.miningPending rfl)
  apply exists_cons (.pollBegin rfl)
  apply exists_cons (.pollTimer _ rfl)
  apply exists_cons (.pollQueue rfl)
  apply exists_cons (.executionPending rfl)
  apply exists_cons (.miningPending rfl)
  apply exists_cons (.mineLock rfl rfl)
  apply exists_cons (.mineTake rfl)
  apply exists_cons (.mineStore rfl)
  apply exists_cons (.execute _ rfl (by simp [ExecutorLocked,IntervalBlockProducer.pollTimer]) trivial)
  apply exists_cons (.pollBegin rfl)
  apply exists_cons (.pollTimer _ rfl)
  apply exists_cons (.pollQueue rfl)
  apply exists_cons (.executionReady rfl rfl (by simp [ExecuteOutcome.result]))
  apply exists_cons (.pollQueue rfl)
  apply exists_cons (.executionPending rfl)
  apply exists_cons (.miningReady _ rfl (Or.inl rfl))
  exact ⟨_,.nil _,by decide,by decide,rfl,rfl⟩

end Katana.Service
