import Katana.Service.Interval

/-! The permit of the interval producer: when it is released, and when a poll, a force_mine
or a validation can no longer get on. -/
namespace Katana.Service
open Transition IntervalBlockProducer
variable {Tx : Type} (s : IntervalBlockProducer Tx)

def IntervalBlockProducer.MiningHolds : Prop :=
  ∃ task, s.ongoingMining=some task ∧ task.HoldsPermit

def IntervalBlockProducer.ForceHolds : Prop :=
  ∃ point, s.lock=.forcing point ∧ point.HoldsPermit

/-- The steps after which the permit has an owner who releases it. A do_mine, the new
executor and the reads of the provider succeed; a task panics only before it locks the
permit; a force_mine and a mining do not wait for each other. -/
def Releases : Action Tx → Prop
  | .forceTake ok | .forceStore ok | .forceReplace ok | .forceUpdate ok => ok=true
  | .miningReady next => next=.ready ∨ s.ongoingMining=some .cancelled
  | .minePanic | .forceBegin => ¬s.MiningHolds
  | .mineLock => s.lock≠.forcing .permit
  | _ => True

/-- The permit is locked for good: by a mining or a force_mine that is gone, or by a mining
that only a poll completes while a force_mine waits for it with the producer locked. -/
def Stuck : Prop :=
  s.permit=.mining ∧ ¬s.MiningHolds ∨ s.permit=.forcing ∧ ¬s.ForceHolds ∨
    s.lock=.forcing .permit ∧ s.MiningHolds

section Step
variable {blockTime : Option Nat} {s t : IntervalBlockProducer Tx} {a : Action Tx}

theorem stuck_poll_iff (hr : Releases s a) (hl : ∀ point, s.lock≠.forcing point)
    (hp : t.permit=s.permit) (hm : t.MiningHolds ↔ s.MiningHolds)
    (hl' : ∀ point, t.lock≠.forcing point) : Stuck t ↔ Stuck s ∨ ¬Releases s a := by
  simp [Stuck,hp,hm,ForceHolds,hl,hl',hr]

theorem miningHolds_pollTimer (ready : Bool) : (s.pollTimer ready).MiningHolds ↔ s.MiningHolds := by
  cases pollTimer_mining s ready with
  | inl h => simp only [MiningHolds,h]
  | inr h => simp [MiningHolds,h.1,h.2,MiningTask.HoldsPermit]

theorem PermitOwned.permit_of_returned (ho : PermitOwned s)
    (hm : s.ongoingMining=some .finished ∨ s.ongoingMining=some .failed) : s.permit=.mining := by
  cases hm with
  | inl h | inr h => exact ho.mining _ h trivial

/-- A returned mining owns the permit, which poll_next unlocks if nothing else fails. -/
theorem stuck_miningReady_iff (ho : PermitOwned s) (next : NextBlockOutcome)
    (h : s.lock=.polling .mining)
    (hm : s.ongoingMining=some .finished ∨ s.ongoingMining=some .failed) :
    Stuck (s.completeMining next) ↔ Stuck s ∨ ¬Releases s (.miningReady next) := by
  have hh : s.MiningHolds := by cases hm <;> simp [MiningHolds,MiningTask.HoldsPermit, *]
  have hp := ho.permit_of_returned hm
  have hc : s.ongoingMining≠some .cancelled := by cases hm <;> simp [ *]
  have hs : ¬Stuck s := by simp [Stuck,hp,hh,h]
  cases next <;> simp [hs,Releases,hc] <;> simp [Stuck,completeMining,MiningHolds,hp]

theorem stuck_step_iff (ho : PermitOwned s) (hs : Step blockTime s a t) :
    Stuck t ↔ Stuck s ∨ ¬Releases s a := by
  obtain ⟨hom,hof⟩ := id ho
  cases hs with
  | pollTimer ready h =>
    apply stuck_poll_iff
    · trivial
    · simp [h]
    · exact pollTimer_permit s ready
    · exact miningHolds_pollTimer ready
    · simp
  | pollQueue h => apply stuck_poll_iff <;> simp [Releases,MiningHolds,h]
  | executionReady h ht hr =>
    apply stuck_poll_iff
    case hl' =>
      unfold collectExecution
      split <;> simp [h]
    all_goals simp [Releases,MiningHolds,h]
  | miningReady next h hm => exact stuck_miningReady_iff ho next h hm
  | _ =>
    simp only [Stuck,MiningHolds,ForceHolds,Releases]
    grind [MiningTask.HoldsPermit,ForcePoint.HoldsPermit,replaceExecutor_permit,
      replaceExecutor_mining]

end Step

end Katana.Service
