import Katana.Service.Permit

/-! Unless the permit is stuck every poll, mining, force_mine and validation gets on: each
state has a step that comes closer to one with all locks free. -/
namespace Katana.Service
open Transition IntervalBlockProducer Run
variable {Tx : Type}

/-- Neither the producer nor the permit is locked and no mining is outstanding; the calls
that wait in a state wait in the other too. -/
structure Quiet (s t : IntervalBlockProducer Tx) : Prop where
  lock : t.lock=.free
  permit : t.permit=.free
  mining : t.ongoingMining=none
  validations : t.waitingValidations=s.waitingValidations
  forceMines : t.waitingForceMines=s.waitingForceMines

/-- The steps that a mining has left until poll_next collects it. -/
def MiningTask.left : MiningTask Tx → Nat
  | .spawned _ => 4
  | .locked _ => 3
  | .taken _ _ => 2
  | .finished | .failed | .cancelled => 1

/-- The steps that the holder of the producer lock has left. With a mining to collect a poll
is still to begin. -/
def ProducerLock.left (mining : Bool) : ProducerLock Tx → Nat
  | .free => if mining then 5 else 0
  | .polling .mining => 1
  | .polling .execution => 2
  | .polling .queue => 3
  | .polling .timer => 4
  | .forcing .update => 6
  | .forcing .replace => 7
  | .forcing (.store _) => 8
  | .forcing .take => 9
  | .forcing .permit => 10

/-- A poll closes a full block, which starts a mining. -/
def IntervalBlockProducer.left (s : IntervalBlockProducer Tx) : Nat :=
  (if s.isBlockFull then 100 else 0)+12*((s.ongoingMining.map MiningTask.left).getD 0)+
    s.lock.left s.ongoingMining.isSome+(if s.permit=.validating then 1 else 0)

/-- A step that a release takes. -/
structure Closer (blockTime : Option Nat) (s : IntervalBlockProducer Tx) (a : Action Tx)
    (t : IntervalBlockProducer Tx) : Prop where
  step : Step blockTime s a t
  releases : Releases s a
  left : t.left<s.left
  validations : t.waitingValidations=s.waitingValidations
  forceMines : t.waitingForceMines=s.waitingForceMines

section Closer
variable {blockTime : Option Nat} {s : IntervalBlockProducer Tx} {task : MiningTask Tx}

theorem left_free_le (mining : Bool) : (ProducerLock.free : ProducerLock Tx).left mining≤5 := by
  cases mining <;> simp [ProducerLock.left]

theorem left_ge (h : s.ongoingMining=some task) : 12*task.left ≤ s.left := by
  simp only [IntervalBlockProducer.left,h,Option.map_some,Option.getD_some]
  omega

theorem closer_validating (h : s.permit=.validating) : ∃ a t, Closer blockTime s a t := by
  refine ⟨_,_,.validateUnlock h,trivial,?_,rfl,rfl⟩
  simp [IntervalBlockProducer.left,h]

theorem closer_polling {point : PollPoint} (h : s.lock=.polling point) (hp : point≠.mining) :
    ∃ a t, Closer blockTime s a t := by
  cases point with
  | timer =>
    refine ⟨_,_,.pollTimer false h,trivial,?_,?_,?_⟩
    all_goals unfold IntervalBlockProducer.pollTimer
    · split_ifs <;> simp_all [IntervalBlockProducer.left,spawnMining,MiningTask.left,ProducerLock.left]
    all_goals split_ifs <;> rfl
  | queue =>
    refine ⟨_,_,.pollQueue h,trivial,?_,?_,?_⟩
    all_goals unfold IntervalBlockProducer.pollQueue
    · split_ifs <;> simp_all [IntervalBlockProducer.left,ProducerLock.left]
    all_goals split_ifs <;> rfl
  | execution =>
    refine ⟨_,_,.executionPending h,trivial,?_,rfl,rfl⟩
    simp [IntervalBlockProducer.left,ProducerLock.left,h]
  | mining => exact absurd rfl hp

theorem closer_forcing {point : ForcePoint Tx} (h : s.lock=.forcing point)
    (hp : point=.permit → s.permit=.free) : ∃ a t, Closer blockTime s a t := by
  cases point with
  | permit =>
    refine ⟨_,_,.forceLock h (hp rfl),trivial,?_,rfl,rfl⟩
    simp [IntervalBlockProducer.left,ProducerLock.left,h,hp rfl]
  | take =>
    refine ⟨_,_,.forceTake h,rfl,?_,rfl,rfl⟩
    simp [IntervalBlockProducer.left,ProducerLock.left,h]
  | store output =>
    refine ⟨_,_,.forceStore h,rfl,?_,rfl,rfl⟩
    simp [IntervalBlockProducer.left,ProducerLock.left,h]
  | replace =>
    refine ⟨_,_,.forceReplace h,rfl,?_,rfl,rfl⟩
    simp [IntervalBlockProducer.left,ProducerLock.left,h,replaceExecutor]
  | update =>
    refine ⟨_,_,.forceUpdate h,rfl,?_,rfl,rfl⟩
    have hfree : (ProducerLock.free : ProducerLock Tx).left _≤5 := left_free_le s.ongoingMining.isSome
    simp only [IntervalBlockProducer.left,h,ProducerLock.left] at hfree ⊢
    simp only [reduceCtorEq,if_false]
    omega

theorem closer_mining (h : s.ongoingMining=some task)
    (hr : task≠.finished ∧ task≠.failed ∧ task≠.cancelled)
    (hp : ∀ e, task=.spawned e → s.permit=.free ∧ s.lock≠.forcing .permit) :
    ∃ a t, Closer blockTime s a t := by
  cases task with
  | spawned e =>
    refine ⟨_,_,.mineLock h (hp e rfl).1,(hp e rfl).2,?_,rfl,rfl⟩
    simp [IntervalBlockProducer.left,MiningTask.left,h,(hp e rfl).1]
  | locked e =>
    refine ⟨_,_,.mineTake h,trivial,?_,rfl,rfl⟩
    simp [IntervalBlockProducer.left,MiningTask.left,h]
  | taken e output =>
    refine ⟨_,_,.mineStore h,trivial,?_,rfl,rfl⟩
    simp [IntervalBlockProducer.left,MiningTask.left,h]
  | finished => exact absurd rfl hr.1
  | failed => exact absurd rfl hr.2.1
  | cancelled => exact absurd rfl hr.2.2

theorem closer_collect (h : s.ongoingMining=some task)
    (hr : task=.finished ∨ task=.failed ∨ task=.cancelled) (hl : s.lock=.free ∨ s.lock=.polling .mining) :
    ∃ a t, Closer blockTime s a t := by
  cases hl with
  | inl hl =>
    refine ⟨_,_,.pollBegin hl,trivial,?_,rfl,rfl⟩
    simp [IntervalBlockProducer.left,ProducerLock.left,h,hl]
  | inr hl =>
    have hleft := left_ge h
    have hdone : (s.completeMining .ready).left=0 := by
      simp [IntervalBlockProducer.left,completeMining,ProducerLock.left]
    cases task with
    | finished =>
      refine ⟨_,_,.miningReady .ready hl (Or.inl h),Or.inl rfl,?_,rfl,rfl⟩
      simp only [MiningTask.left] at hleft
      omega
    | failed =>
      refine ⟨_,_,.miningReady .ready hl (Or.inr h),Or.inl rfl,?_,rfl,rfl⟩
      simp only [MiningTask.left] at hleft
      omega
    | cancelled =>
      refine ⟨_,_,.miningCancelled .ready hl h,Or.inl rfl,?_,rfl,rfl⟩
      simp only [IntervalBlockProducer.left,MiningTask.left,ProducerLock.left,h,hl,Option.map_some,
        Option.map_none,Option.getD_some,Option.getD_none,Option.isSome_none,Bool.false_eq_true,
        if_false]
      omega
    | _ => simp at hr

theorem permit_free_of_not_stuck (hs : ¬Stuck s) (hv : s.permit≠.validating)
    (hm : ¬s.MiningHolds) (hf : ¬s.ForceHolds) : s.permit=.free := by
  simp only [Stuck,hm,hf,not_false_eq_true,and_true,and_false,or_false,not_or] at hs
  cases hp : s.permit with
  | free => rfl
  | mining => exact absurd hp hs.1
  | forcing => exact absurd hp hs.2
  | validating => exact absurd hp hv

theorem closer_task (hs : ¬Stuck s) (hv : s.permit≠.validating) (h : s.ongoingMining=some task)
    (hl : s.lock=.free ∨ s.lock=.polling .mining) : ∃ a t, Closer blockTime s a t := by
  have hf : ∀ point, s.lock≠.forcing point := by cases hl <;> simp [ *]
  cases task with
  | spawned e =>
    apply closer_mining h (by simp)
    intro _ _
    refine ⟨permit_free_of_not_stuck hs hv ?_ ?_,hf _⟩
    · simp [MiningHolds,h,MiningTask.HoldsPermit]
    · simp [ForceHolds,hf]
  | locked e | taken e output => exact closer_mining h (by simp) (by simp)
  | _ => exact closer_collect h (by simp) hl

theorem closer (blockTime : Option Nat) (hs : ¬Stuck s) (hq : ¬Quiet s s) :
    ∃ a t, Closer blockTime s a t := by
  by_cases hv : s.permit=.validating
  · exact closer_validating hv
  cases hl : s.lock with
  | free =>
    cases hm : s.ongoingMining with
    | none =>
      have hp := permit_free_of_not_stuck hs hv (by simp [MiningHolds,hm]) (by simp [ForceHolds,hl])
      exact absurd ⟨hl,hp,hm,rfl,rfl⟩ hq
    | some task => exact closer_task hs hv hm (Or.inl hl)
  | polling point =>
    cases point with
    | mining =>
      cases hm : s.ongoingMining with
      | none =>
        refine ⟨_,_,.miningPending hl,trivial,?_,rfl,rfl⟩
        simp [IntervalBlockProducer.left,ProducerLock.left,hl,hm]
      | some task => exact closer_task hs hv hm (Or.inr hl)
    | _ => exact closer_polling hl (by simp)
  | forcing point =>
    apply closer_forcing hl
    intro hp
    subst hp
    apply permit_free_of_not_stuck hs hv
    · exact fun hm => hs (Or.inr (Or.inr ⟨hl,hm⟩))
    · simp [ForceHolds,hl,ForcePoint.HoldsPermit]

end Closer

/-- The states from which all who wait can get on. -/
structure Live (blockTime : Option Nat) (s : IntervalBlockProducer Tx) : Prop where
  /-- Between polls with no mining outstanding only a validation holds the permit. -/
  idle : s.lock=.free → s.ongoingMining=none → s.permit=.free ∨ s.permit=.validating
  quiet : ∃ as t, Run (Step blockTime) s as t ∧ Quiet s t
  validate : s.waitingValidations≠0 → ∃ as t, Run (Step blockTime) s as t ∧
    t.permit=.validating ∧ t.waitingValidations+1=s.waitingValidations
  forceMine : s.waitingForceMines≠0 → ∃ as t, Run (Step blockTime) s as t ∧
    t.lock=.forcing .take ∧ t.permit=.forcing ∧ t.waitingForceMines+1=s.waitingForceMines

section Live
variable {blockTime : Option Nat} {s t : IntervalBlockProducer Tx}

theorem quiet_of_not_stuck (blockTime : Option Nat) (ho : PermitOwned s) (hs : ¬Stuck s) :
    ∃ as t, Run (Step blockTime) s as t ∧ Quiet s t := by
  have hr : ∃ as t, Run (Step blockTime) s as t ∧ (PermitOwned t ∧ ¬Stuck t ∧
      t.waitingValidations=s.waitingValidations ∧ t.waitingForceMines=s.waitingForceMines) ∧
      Quiet t t := by
    apply reaches IntervalBlockProducer.left _ ⟨ho,hs,rfl,rfl⟩
    intro t ht hq
    obtain ⟨a,u,hc⟩ := closer blockTime ht.2.1 hq
    refine ⟨a,u,hc.step,⟨ht.1.step hc.step,?_,?_,?_⟩,hc.left⟩
    · rw [stuck_step_iff ht.1 hc.step,not_or,not_not]
      exact ⟨ht.2.1,hc.releases⟩
    · rw [hc.validations,ht.2.2.1]
    · rw [hc.forceMines,ht.2.2.2]
  obtain ⟨as,t,hrun,⟨-,-,hv,hf⟩,hq⟩ := hr
  exact ⟨as,t,hrun,hq.lock,hq.permit,hq.mining,hv,hf⟩

theorem Stuck.run {as : List (Action Tx)} (ho : PermitOwned s) (hs : Stuck s)
    (h : Run (Step blockTime) s as t) : Stuck t := by
  have hi : PermitOwned t ∧ Stuck t := by
    apply h.invariant (I := fun s => PermitOwned s ∧ Stuck s) _ ⟨ho,hs⟩
    intro s a t h h'
    exact ⟨h.1.step h',(stuck_step_iff h.1 h').mpr (Or.inl h.2)⟩
  exact hi.2

theorem Quiet.not_stuck (h : Quiet s t) : ¬Stuck t := by
  simp [Stuck,h.permit,h.lock]

theorem live_iff (ho : PermitOwned s) : Live blockTime s ↔ ¬Stuck s := by
  constructor
  · intro h hs
    obtain ⟨as,t,hr,hq⟩ := h.quiet
    exact hq.not_stuck (hs.run ho hr)
  · intro hs
    obtain ⟨as,t,hr,hq⟩ := quiet_of_not_stuck blockTime ho hs
    refine ⟨?_,⟨as,t,hr,hq⟩,?_,?_⟩
    · intro hl hm
      by_cases hv : s.permit=.validating
      · exact Or.inr hv
      · exact Or.inl (permit_free_of_not_stuck hs hv (by simp [MiningHolds,hm])
          (by simp [ForceHolds,hl]))
    · intro hw
      obtain ⟨n,hn⟩ := Nat.exists_eq_succ_of_ne_zero hw
      refine ⟨_,_,hr.snoc (.validateLock hq.permit (hq.validations.trans hn)),rfl,hn.symm⟩
    · intro hw
      obtain ⟨n,hn⟩ := Nat.exists_eq_succ_of_ne_zero hw
      refine ⟨_,_,(hr.snoc (.forceBegin hq.lock (hq.forceMines.trans hn))).snoc
        (.forceLock rfl hq.permit),rfl,rfl,hn.symm⟩

end Live

/-- The unlocks of poll_next and force_mine. -/
def UnlocksOwned (blockTime : Option Nat) (s : IntervalBlockProducer Tx) : Prop :=
  (∀ t, Step blockTime s (.miningReady .ready) t → s.ongoingMining≠some .cancelled →
    s.permit=.mining) ∧
  ∀ t, Step blockTime s (.forceUpdate true) t → s.permit=.forcing

theorem unlocksOwned {blockTime : Option Nat} {s : IntervalBlockProducer Tx} (h : PermitOwned s) :
    UnlocksOwned blockTime s := by
  constructor
  · intro t hs hc
    cases hs with
    | miningReady _ hl hm => exact h.permit_of_returned hm
    | miningCancelled _ hl hm => exact absurd hm hc
  · intro t hs
    cases hs with
    | forceUpdate hl => exact h.forcing _ hl trivial

/-- After a run all who wait can get on if and only if every step of the run releases the
permit; an unlock always finds the permit locked by the mining it completes. -/
theorem permit_live_iff {blockTime : Option Nat} {as : List (Action Tx)}
    {s : IntervalBlockProducer Tx} (h : Run (Step blockTime) {} as s) :
    (Live blockTime s ↔ Run (Restrict Releases (Step blockTime)) {} as s) ∧
      UnlocksOwned blockTime s := by
  have ho := permitOwned_of_run h
  refine ⟨?_,unlocksOwned ho⟩
  rw [live_iff ho]
  apply h.avoids_iff (fun _ _ _ ho hs => PermitOwned.step ho hs)
    (fun _ _ _ ho hs => stuck_step_iff ho hs) .initial
  simp [Stuck]

def forceMined : List (Action Nat) :=
  [.forceCall,.validateCall,.forceBegin,.forceLock,.forceTake true,.forceStore true,
    .forceReplace true,.forceUpdate true]

theorem permit_live_force_mined :
    ∃ s, Run (Step none) {} forceMined s ∧ s.waitingValidations=1 ∧ Live none s := by
  have hrun : ∃ s, Run (Restrict Releases (Step none)) {} forceMined s ∧
      s.waitingValidations=1 := by
    apply exists_cons ⟨trivial,.forceCall⟩
    apply exists_cons ⟨trivial,.validateCall⟩
    apply exists_cons ⟨by simp [Releases,MiningHolds],.forceBegin rfl rfl⟩
    apply exists_cons ⟨trivial,.forceLock rfl rfl⟩
    apply exists_cons ⟨rfl,.forceTake rfl⟩
    apply exists_cons ⟨rfl,.forceStore rfl⟩
    apply exists_cons ⟨rfl,.forceReplace rfl⟩
    apply exists_cons ⟨rfl,.forceUpdate rfl⟩
    exact ⟨_,.nil _,rfl⟩
  obtain ⟨s,hr,hw⟩ := hrun
  exact ⟨s,hr.of_restrict,hw,(permit_live_iff hr.of_restrict).1.mpr hr⟩

/-- A force_mine whose do_mine fails returns with the permit locked. -/
def forceFailed : List (Action Nat) := [.forceCall,.forceBegin,.forceLock,.forceTake false]

/-- A force_mine is called while a mining has the permit. -/
def forceWaiting : List (Action Nat) :=
  [.push [7],.pollBegin,.pollTimer false,.pollQueue,.executionPending,.miningPending,
    .pollBegin,.pollTimer true,.pollQueue,.executionPending,.miningPending,
    .mineLock,.forceCall,.forceBegin,.mineTake true,.mineStore true]

theorem force_mine_deadlocks :
    (∃ s, Run (Step none) {} forceFailed s ∧
      (s.lock=.free ∧ s.ongoingMining=none ∧ s.permit=.forcing) ∧ ¬Live none s) ∧
    ∃ s, Run (Step (some 10)) {} forceWaiting s ∧
      (s.lock=.forcing .permit ∧ s.ongoingMining=some .finished ∧ s.permit=.mining) ∧
        ¬Live (some 10) s := by
  have hfailed : ∃ s, Run (Step none) {} forceFailed s ∧
      s.lock=.free ∧ s.ongoingMining=none ∧ s.permit=.forcing := by
    apply exists_cons .forceCall
    apply exists_cons (.forceBegin rfl rfl)
    apply exists_cons (.forceLock rfl rfl)
    apply exists_cons (.forceTakeFailed rfl)
    exact ⟨_,.nil _,rfl,rfl,rfl⟩
  have hwaiting : ∃ s, Run (Step (some 10)) {} forceWaiting s ∧
      s.lock=.forcing .permit ∧ s.ongoingMining=some .finished ∧ s.permit=.mining := by
    apply exists_cons (.push _ rfl)
    apply exists_cons (.pollBegin rfl)
    apply exists_cons (.pollTimer _ rfl)
    apply exists_cons (.pollQueue rfl)
    apply exists_cons (.executionPending rfl)
    apply exists_cons (.miningPending rfl)
    apply exists_cons (.pollBegin rfl)
    apply exists_cons (.pollTimer _ rfl)
    apply exists_cons (.pollQueue rfl)
    apply exists_cons (.executionPending rfl)
    apply exists_cons (.miningPending rfl)
    apply exists_cons (.mineLock rfl rfl)
    apply exists_cons .forceCall
    apply exists_cons (.forceBegin rfl rfl)
    apply exists_cons (.mineTake rfl)
    apply exists_cons (.mineStore rfl)
    exact ⟨_,.nil _,rfl,rfl,rfl⟩
  constructor
  · obtain ⟨s,hr,hs⟩ := hfailed
    refine ⟨s,hr,hs,?_⟩
    rw [live_iff (permitOwned_of_run hr),not_not]
    simp [Stuck,ForceHolds,hs]
  · obtain ⟨s,hr,hs⟩ := hwaiting
    refine ⟨s,hr,hs,?_⟩
    rw [live_iff (permitOwned_of_run hr),not_not]
    simp [Stuck,MiningHolds,MiningTask.HoldsPermit,hs]

end Katana.Service
