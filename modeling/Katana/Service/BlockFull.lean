import Katana.Service.Interval

/-! Full blocks of the interval producer (poll_next and execute_transactions in
core/service/block_producer.rs, the bouncer of the executor in executor/implementation/blockifier).
The bouncer refuses a transaction exactly when the resources used by the block and its own ones
exceed the limit. -/
namespace Katana.Service
open Transition IntervalBlockProducer
variable {Tx W : Type} [AddCommMonoid W] {txs : List Tx}

structure Resources (Tx W : Type) where
  weight : Tx → W
  limit : W

namespace Resources
variable [LE W] (r : Resources Tx W)

/-- A transaction that an empty block has room for. -/
def Fits (tx : Tx) : Prop := r.weight tx≤r.limit

variable [DecidableLE W]

/-- The bouncer; a refused transaction uses nothing. -/
def bouncer : Blockifier W Unit Tx Unit where
  fillBlockEnvFromHeader _ used := used
  transact used tx :=
    if used+r.weight tx≤r.limit then (used+r.weight tx,.ok (.success ()))
    else (used,.error .limitsExhausted)

theorem outcome_cons (used : W) (tx : Tx) (txs : List Tx) :
    r.bouncer.outcome used (tx::txs)=
      if used+r.weight tx≤r.limit then (r.bouncer.outcome (used+r.weight tx) txs).next
      else .full 0 := by
  by_cases h : used+r.weight tx≤r.limit
  · simp [Blockifier.outcome,bouncer,h]
  · simp [Blockifier.outcome,bouncer,h]

theorem outcome_cases (used : W) (txs : List Tx) : r.bouncer.outcome used txs=.all ∨
    ∃ n<txs.length, r.bouncer.outcome used txs=.full n := by
  induction txs generalizing used with
  | nil => exact Or.inl rfl
  | cons tx txs ih =>
    rw [outcome_cons]
    by_cases h : used+r.weight tx≤r.limit
    · rw [if_pos h]
      obtain ha | ⟨n,hn,hf⟩ := ih (used+r.weight tx)
      · exact Or.inl (by rw [ha]; rfl)
      · exact Or.inr ⟨n+1,Nat.succ_lt_succ hn,by rw [hf]; rfl⟩
    · exact Or.inr ⟨0,Nat.succ_pos _,if_neg h⟩

theorem pos_of_empty (hfit : ∀ tx∈txs, r.Fits tx) {n : Nat} (h : r.bouncer.outcome 0 txs=.full n) :
    0<n := by
  cases txs with
  | nil => cases h
  | cons tx txs =>
    rw [outcome_cons,if_pos (by rw [zero_add]; exact hfit tx (by simp))] at h
    cases ho : r.bouncer.outcome (0+r.weight tx) txs with
    | full m =>
      rw [ho] at h
      cases h
      exact Nat.succ_pos m
    | _ =>
      rw [ho] at h
      cases h

end Resources

/-- The producer with the resources its executors used. Closing says that the ongoing mining was
started because the block was full, and full are the blocks stored by such minings. -/
structure Filling (Tx W : Type) [Zero W] extends IntervalBlockProducer Tx where
  used : Nat → W := fun _ => 0
  closing : Bool := false
  full : List (List Tx) := []

namespace Filling

/-- What an action records besides the step of the producer. -/
def advance (r : Resources Tx W) (x : Filling Tx W) (a : Action Tx) (t : IntervalBlockProducer Tx) :
    Filling Tx W where
  toIntervalBlockProducer := t
  used :=
    match a,x.ongoingExecution with
    | .execute outcome,some (.running e txs) =>
      Function.update x.used e (x.used e+((outcome.executed txs).map r.weight).sum)
    | _,_ => x.used
  closing :=
    match a with
    | .pollTimer _ =>
      if x.ongoingMining.isNone && t.ongoingMining.isSome then x.isBlockFull
      else x.closing
    | _ => x.closing
  full :=
    match a,x.ongoingMining with
    | .mineStore _,some (.taken _ output) => if x.closing then x.full++[output] else x.full
    | _,_ => x.full

variable (x : Filling Tx W)

def busy : Bool :=
  match x.ongoingExecution,x.ongoingMining with
  | some (.running _ _),_ => true
  | _,some (.spawned _) | _,some (.locked _) | _,some (.taken _ _) => true
  | _,_ => false

def fresh : Bool := (x.transactions x.executor).isEmpty

/-- What is left to execute; every batch counts once more. -/
def outstanding : Nat :=
  (x.queued.map fun txs => txs.length+1).sum+
    match x.ongoingExecution with
    | some (.running _ txs) | some (.finished (some txs)) => txs.length+1
    | _ => 0

/-- The steps to the next execution in an empty block, at most. -/
def phase : Nat :=
  match x.ongoingExecution,x.ongoingMining with
  | some (.running _ _),_ => if x.fresh then 1 else 9
  | some (.finished (some _)),_ => 8
  | some _,_ => 11
  | none,none =>
    if x.isBlockFull then 7
    else if x.fresh then if x.timer then 7 else 2 else 10
  | none,some (.spawned _) => 6
  | none,some (.locked _) => 5
  | none,some (.taken _ _) => 4
  | none,some _ => 3

def position : Nat :=
  match x.lock,x.ongoingExecution with
  | .free,_ => if x.busy then 0 else 7
  | .polling .timer,_ => 6
  | .polling .queue,_ => 5
  | .polling .execution,_ => 4
  | .polling .mining,some (.finished _) => 8
  | .polling .mining,_ => if x.isBlockFull then 8 else 3
  | .forcing _,_ => 0

def potential : Nat := 12*x.outstanding+x.phase

def rank : Nat := 20*x.potential+x.position

/-- A poll that begins while a task has not ended does nothing. -/
def credit (l : Action Tx × Bool) : Nat := if l.2 then 7 else 0

theorem position_le : x.position≤8 := by
  unfold position
  split <;> (try split) <;> omega

variable {x} {y : Filling Tx W}

theorem rank_of_potential {l : Action Tx × Bool} (h : y.potential<x.potential) :
    y.rank+1≤x.rank+credit l := by
  have hle := position_le y
  unfold rank
  omega

theorem rank_of_position {l : Action Tx × Bool} (h : y.potential=x.potential)
    (hp : y.position<x.position) :
    y.rank+1≤x.rank+credit l := by
  unfold rank
  omega

theorem flatten_length_le (queued : List (List Tx)) (h : queued≠[]) :
    queued.flatten.length+1≤(queued.map fun txs => txs.length+1).sum := by
  induction queued with
  | nil => exact absurd rfl h
  | cons txs queued ih =>
    cases queued with
    | nil => simp
    | cons txs' queued =>
      have hle := ih (by simp)
      simp only [List.flatten_cons,List.length_append,List.map_cons,List.sum_cons] at hle ⊢
      omega

theorem potential_spawnMining (he : x.ongoingExecution=none)
    (hm : x.ongoingMining=none)
    (hcause : x.timer=true ∨ x.isBlockFull=true) {lock : ProducerLock Tx}
    {closing : Bool} : potential { x with
      toIntervalBlockProducer := { x.spawnMining with lock }
      closing }<x.potential := by
  simp only [potential,outstanding,phase,spawnMining,he,hm]
  rcases hcause with h | h <;> simp only [h] <;> (repeat' split) <;> simp_all

theorem potential_running (hq : x.queued≠[])
    (he : x.ongoingExecution=none) (hm : x.ongoingMining=none)
    (hf : x.isBlockFull=false) {lock : ProducerLock Tx} {timer : Bool} :
    potential { x with
      queued := [], ongoingExecution := some (.running x.executor x.queued.flatten)
      timer, lock }<x.potential := by
  have hlen := flatten_length_le x.queued hq
  simp only [potential,outstanding,phase,he,hm,hf,fresh,List.map_nil,List.sum_nil]
  by_cases hfresh : (x.transactions x.executor).isEmpty=true
  · by_cases htimer : x.timer=true
    · simp only [hfresh,htimer,if_true,Bool.false_eq_true,if_false]
      omega
    · simp only [hfresh,htimer,if_true,Bool.false_eq_true,if_false]
      omega
  · simp only [hfresh,Bool.false_eq_true,if_false]
    omega

section Steps
variable [LE W] [DecidableLE W]

/-- Polls and tasks that succeed: the bouncer decides about an execution, and a poll finds the
tasks ready that have ended. -/
def Runs (r : Resources Tx W) (x : Filling Tx W) : Action Tx → Prop
  | .push _ | .pollBegin | .pollTimer _ | .pollQueue | .executionReady | .mineLock => True
  | .executionPending => ∀ task, x.ongoingExecution=some task → ∃ e txs, task=.running e txs
  | .miningPending => x.ongoingMining≠some .finished
  | .miningReady next => next=.ready
  | .execute outcome => ∀ e txs, x.ongoingExecution=some (.running e txs) →
      outcome=r.bouncer.outcome (x.used e) txs
  | .mineTake ok | .mineStore ok => ok=true
  | _ => False

/-- A step; the mark of its label says that a poll begins while a task has not ended. -/
def Step (blockTime : Option Nat) (r : Resources Tx W) (x : Filling Tx W) (l : Action Tx × Bool)
    (y : Filling Tx W) : Prop :=
  ∃ t, Service.Step blockTime x.toIntervalBlockProducer l.1 t ∧ y=x.advance r l.1 t ∧ x.Runs r l.1 ∧
    (l.2=true ↔ l.1=.pollBegin ∧ x.busy=true)

end Steps

variable [LE W] {r : Resources Tx W} {blockTime : Option Nat} {e : Nat}

/-- An empty block has room for every transaction, and no block is closed while the result of an
execution is outstanding. -/
def Roomy (r : Resources Tx W) (x : Filling Tx W) (l : Action Tx × Bool) : Prop :=
  match l.1 with
  | .push txs => ∀ tx∈txs, r.Fits tx
  | .pollTimer ready => x.ongoingExecution≠none →
    (x.pollTimer ready).ongoingMining=x.ongoingMining
  | _ => True

def RoomyAlone (r : Resources Tx W) (x : Filling Tx W) (l : Action Tx × Bool) : Prop :=
  x.Roomy r l ∧ ∀ txs, l.1≠.push txs

def Done (x : Filling Tx W) : Prop :=
  x.queued=[] ∧ x.ongoingExecution=none

/-- An executor without transactions has used nothing. -/
def Unused (x : Filling Tx W) : Prop := x.fresh=true → x.used x.executor=0

/-- The points of a poll after the queue was looked at. -/
def Looked (x : Filling Tx W) : Prop :=
  x.lock=.polling .execution ∨ x.lock=.polling .mining

/-- What holds of an execution. -/
inductive ExecutionStage (r : Resources Tx W) (x : Filling Tx W) : ExecutionTask Tx → Prop where
  | running {txs : List Tx} (fits : ∀ tx∈txs, r.Fits tx) :
      ExecutionStage r x (.running x.executor txs)
  | executed : ExecutionStage r x (.finished none)
  | leftover {txs : List Tx} (held : x.fresh=false) (fits : ∀ tx∈txs, r.Fits tx) :
      ExecutionStage r x (.finished (some txs))

/-- What holds of a mining. -/
inductive MiningStage (x : Filling Tx W) : MiningTask Tx → Prop where
  | spawned (permit : x.permit=.free) (held : x.closing=true → x.fresh=false) :
      MiningStage x (.spawned x.executor)
  | locked (permit : x.permit=.mining) (held : x.closing=true → x.fresh=false) :
      MiningStage x (.locked x.executor)
  | taken {e : Nat} {output : List Tx} (permit : x.permit=.mining)
      (held : x.closing=true → output≠[]) : MiningStage x (.taken e output)
  | mined (permit : x.permit=.mining) : MiningStage x .finished

/-- The stages of a block. At most one task is there at a time. -/
inductive Stage (r : Resources Tx W) (x : Filling Tx W) : Prop where
  | idle (he : x.ongoingExecution=none) (hm : x.ongoingMining=none) (permit : x.permit=.free)
      (unused : x.Unused)
      (full : x.isBlockFull=true → x.fresh=false ∧ x.queued≠[] ∧ x.lock≠.polling .queue ∧
        x.lock≠.polling .execution)
      (looked : x.Looked → x.isBlockFull=false → x.queued=[])
  | executing {task : ExecutionTask Tx} (he : x.ongoingExecution=some task)
      (hm : x.ongoingMining=none) (permit : x.permit=.free) (unused : x.Unused)
      (full : x.isBlockFull=false) (stage : x.ExecutionStage r task)
  | mining {task : MiningTask Tx} (he : x.ongoingExecution=none) (hm : x.ongoingMining=some task)
      (full : x.isBlockFull=false) (timer : x.timer=false) (stage : x.MiningStage task)

structure Inv (r : Resources Tx W) (x : Filling Tx W) : Prop where
  queued : ∀ tx∈x.queued.flatten, r.Fits tx
  created : x.created=x.executor+1
  later : ∀ e, x.executor<e → x.used e=0 ∧ x.transactions e=[]
  polls : ∀ point, x.lock≠.forcing point
  stage : x.Stage r
  nonempty : []∉x.full

theorem Inv.initial (r : Resources Tx W) : Inv r ({} : Filling Tx W) where
  queued := by simp
  created := rfl
  later _ _ := ⟨rfl,rfl⟩
  polls _ h := by cases h
  stage := .idle rfl rfl rfl (fun _ => rfl) (by simp) (by simp [Looked])
  nonempty := by simp

section
variable (hi : x.Inv r)
include hi

theorem Inv.change (queued : List (List Tx)) (lock : ProducerLock Tx)
    (hfits : ∀ tx∈queued.flatten, r.Fits tx) (hpolls : ∀ point, lock≠.forcing point)
    (hfull : x.isBlockFull=true → x.queued≠[] →
      queued≠[] ∧ lock≠.polling .queue ∧ lock≠.polling .execution)
    (hlooked : (lock=.polling .execution ∨ lock=.polling .mining) →
      x.ongoingExecution=none → x.ongoingMining=none →
      x.isBlockFull=false → queued=[]) :
    Inv r { x with queued, lock } := by
  refine ⟨hfits,hi.created,hi.later,hpolls,?_,hi.nonempty⟩
  cases hi.stage with
  | idle he hm permit unused full looked =>
    refine .idle he hm permit unused (fun h => ?_) (fun h => hlooked h he hm)
    exact ⟨(full h).1,hfull h (full h).2.1⟩
  | executing he hm permit unused full stage =>
    refine .executing he hm permit unused full ?_
    cases stage with
    | running fits => exact .running fits
    | executed => exact .executed
    | leftover held fits => exact .leftover held fits
  | mining he hm full timer stage =>
    refine .mining he hm full timer ?_
    cases stage with
    | spawned permit held => exact .spawned permit held
    | locked permit held => exact .locked permit held
    | taken permit held => exact .taken permit held
    | mined permit => exact .mined permit

theorem Inv.relock (lock : ProducerLock Tx) (hpolls : ∀ point, lock≠.forcing point)
    (hfull : x.isBlockFull=true → lock≠.polling .queue ∧ lock≠.polling .execution)
    (hlooked : (lock=.polling .execution ∨ lock=.polling .mining) →
      x.ongoingExecution=none → x.ongoingMining=none →
      x.isBlockFull=false → x.queued=[]) :
    Inv r { x with lock := lock } :=
  hi.change _ lock hi.queued hpolls (fun h hq => ⟨hq,hfull h⟩) hlooked

theorem Inv.not_full (h : x.lock=.polling .queue ∨
    x.lock=.polling .execution ∨ x.ongoingExecution≠none ∨
    x.ongoingMining≠none) : x.isBlockFull=false := by
  cases hi.stage with
  | idle he hm permit unused full looked =>
    rw [←Bool.not_eq_true]
    intro hf
    obtain ⟨-,-,hqueue,hexecution⟩ := full hf
    rcases h with h | h | h | h
    · exact hqueue h
    · exact hexecution h
    · exact h he
    · exact h hm
  | _ => assumption

theorem Inv.push (hlock : x.lock=.free) (hfit : ∀ tx∈txs, r.Fits tx) :
    Inv r { x with queued := x.queued++[txs] } := by
  refine hi.change _ x.lock ?_ hi.polls ?_ ?_
  · intro tx htx
    rw [List.flatten_append,List.mem_append] at htx
    exact htx.elim (hi.queued tx) fun h => hfit tx (by simpa using h)
  · intro _ _
    simp [hlock]
  · simp [hlock]

theorem Inv.idle (he : x.ongoingExecution=none)
    (hm : x.ongoingMining=none) : x.permit=.free ∧ x.Unused ∧
      (x.isBlockFull=true → x.fresh=false ∧ x.queued≠[]) ∧
      (x.Looked → x.isBlockFull=false → x.queued=[]) := by
  cases hi.stage with
  | idle _ _ permit unused full looked =>
    exact ⟨permit,unused,fun h => ⟨(full h).1,(full h).2.1⟩,looked⟩
  | executing he' => cases he.symm.trans he'
  | mining _ hm' => cases hm.symm.trans hm'

theorem Inv.spawnMining (he : x.ongoingExecution=none)
    (hm : x.ongoingMining=none) (lock : PollPoint) :
    Inv r { x with
      toIntervalBlockProducer := { x.spawnMining with lock := .polling lock }
      closing := x.isBlockFull } := by
  refine ⟨hi.queued,hi.created,hi.later,by simp,?_,hi.nonempty⟩
  obtain ⟨permit,-,full,-⟩ := hi.idle he hm
  exact .mining he rfl rfl rfl (.spawned permit fun h => (full h).1)

end

theorem pollTimer_cases (s : IntervalBlockProducer Tx) (ready : Bool) :
    (s.ongoingMining=none ∧ (s.timer=true ∨ s.isBlockFull=true) ∧ s.pollTimer ready=s.spawnMining) ∨
    (s.pollTimer ready=s ∧ (s.isBlockFull=true → s.ongoingMining≠none)) := by
  cases hm : s.ongoingMining with
  | some task => exact Or.inr (by simp [IntervalBlockProducer.pollTimer,hm])
  | none =>
    cases ht : s.timer <;> cases hf : s.isBlockFull <;> cases ready <;>
      simp [IntervalBlockProducer.pollTimer,hm,ht,hf]

theorem pollQueue_cases (blockTime : Option Nat) (s : IntervalBlockProducer Tx) :
    (s.queued≠[] ∧ s.ongoingExecution=none ∧ s.ongoingMining=none ∧
      s.pollQueue blockTime={ s with
        queued := []
        ongoingExecution := some (.running s.executor s.queued.flatten)
        timer := s.timer || blockTime.isSome }) ∨
    (s.pollQueue blockTime=s ∧
      (s.ongoingExecution=none → s.ongoingMining=none → s.queued=[])) := by
  cases hq : s.queued <;> cases he : s.ongoingExecution <;> cases hm : s.ongoingMining <;>
    simp [IntervalBlockProducer.pollQueue,hq,he,hm]

theorem Roomy.idle {ready mark : Bool} (hr : x.Roomy r (.pollTimer ready,mark))
    (hm : x.ongoingMining=none)
    (hspawn : x.pollTimer ready=x.spawnMining) :
    x.ongoingExecution=none := by
  by_contra hne
  have hkept := hr hne
  rw [hspawn,hm] at hkept
  cases hkept

theorem Inv.pollTimer (hi : x.Inv r) {ready mark : Bool}
    (hr : x.Roomy r (.pollTimer ready,mark)) :
    (x.advance r (.pollTimer ready)
      { x.pollTimer ready with lock := .polling .queue }).Inv r := by
  obtain ⟨hm,-,hspawn⟩ | ⟨hsame,hfull⟩ := pollTimer_cases x.toIntervalBlockProducer ready
  · have hnew := hi.spawnMining (hr.idle hm hspawn) hm .queue
    simpa [advance,hspawn,hm,IntervalBlockProducer.spawnMining] using hnew
  · have hclosing : (x.ongoingMining.isNone && x.ongoingMining.isSome)=false := by
      cases x.ongoingMining <;> rfl
    have hnew := hi.relock (.polling .queue) (by simp)
      (fun h => absurd (hi.not_full (.inr (.inr (.inr (hfull h))))) (by simp [h])) (by simp)
    simpa [advance,hsame,hclosing] using hnew

theorem Inv.pollQueue (hi : x.Inv r) (hlock : x.lock=.polling .queue) :
    Inv r { x with toIntervalBlockProducer :=
      { x.pollQueue blockTime with lock := .polling .execution } } := by
  have hf := hi.not_full (.inl hlock)
  obtain ⟨-,he,hm,hspawn⟩ | ⟨hsame,hempty⟩ := pollQueue_cases blockTime x.toIntervalBlockProducer
  · rw [hspawn]
    refine ⟨by simp,hi.created,hi.later,by simp,?_,hi.nonempty⟩
    obtain ⟨permit,unused,-,-⟩ := hi.idle he hm
    exact .executing rfl hm permit unused hf (.running hi.queued)
  · rw [hsame]
    exact hi.relock _ (by simp) (fun h => by simp [hf] at h) (fun _ he hm _ => hempty he hm)

theorem Inv.of_execution (hi : x.Inv r) {task : ExecutionTask Tx}
    (he : x.ongoingExecution=some task) : x.ongoingMining=none ∧ x.permit=.free ∧ x.Unused ∧
      x.isBlockFull=false ∧ x.ExecutionStage r task := by
  cases hi.stage with
  | executing he' hm permit unused full stage =>
    cases he.symm.trans he'
    exact ⟨hm,permit,unused,full,stage⟩
  | idle he' | mining he' => cases he.symm.trans he'

theorem Inv.of_running (hi : x.Inv r) (he : x.ongoingExecution=some (.running e txs)) :
    e=x.executor ∧ ∀ tx∈txs, r.Fits tx := by
  obtain ⟨-,-,-,-,stage⟩ := hi.of_execution he
  cases stage with
  | running fits => exact ⟨rfl,fits⟩

section
variable (hi : x.Inv r)
include hi

theorem Inv.of_mining {task : MiningTask Tx}
    (hm : x.ongoingMining=some task) : x.ongoingExecution=none ∧
      x.isBlockFull=false ∧ x.timer=false ∧ x.MiningStage task := by
  cases hi.stage with
  | mining he hm' full timer stage =>
    cases hm.symm.trans hm'
    exact ⟨he,full,timer,stage⟩
  | idle _ hm' | executing _ hm' => cases hm.symm.trans hm'

theorem Inv.collect {task : ExecutionTask Tx}
    (ht : x.ongoingExecution=some task) (hrun : ∀ e txs, task≠.running e txs) :
    Inv r { x with toIntervalBlockProducer := x.collectExecution } := by
  obtain ⟨hm,permit,unused,full,stage⟩ := hi.of_execution ht
  cases stage with
  | running fits => exact absurd rfl (hrun _ _)
  | executed =>
    simp only [collectExecution,ht]
    refine ⟨hi.queued,hi.created,hi.later,by simp,?_,hi.nonempty⟩
    exact .idle rfl hm permit unused (fun h => by simp [full] at h) (by simp [Looked])
  | leftover held fits =>
    simp only [collectExecution,ht]
    refine ⟨?_,hi.created,hi.later,by simp,?_,hi.nonempty⟩
    · intro tx htx
      rw [List.flatten_cons,List.mem_append] at htx
      exact htx.elim (fits tx) (hi.queued tx)
    · exact .idle rfl hm permit unused (fun _ => ⟨held,by simp⟩) (by simp)

/-- An execution puts at least one transaction in an empty block, unless it has none. -/
theorem Inv.execute [DecidableLE W]
    (he : x.ongoingExecution=some (.running x.executor txs))
    {outcome : ExecuteOutcome} (ho : outcome=r.bouncer.outcome (x.used x.executor) txs) :
    Inv r { x with
      ongoingExecution := some (outcome.result txs)
      transactions := Function.update x.transactions x.executor
        (x.transactions x.executor++outcome.executed txs)
      used := Function.update x.used x.executor
        (x.used x.executor+((outcome.executed txs).map r.weight).sum) } := by
  obtain ⟨hm,permit,unused,full,-⟩ := hi.of_execution he
  obtain ⟨-,fits⟩ := hi.of_running he
  have hempty : (x.transactions x.executor++outcome.executed txs).isEmpty=true →
      x.used x.executor=0 ∧ outcome.executed txs=[] := by
    intro h
    simp only [List.isEmpty_iff,List.append_eq_nil_iff] at h
    exact ⟨unused (by simp [fresh,h.1]),h.2⟩
  refine ⟨hi.queued,hi.created,fun e hlt => ?_,hi.polls,?_,hi.nonempty⟩
  · have hne : e≠x.executor := Nat.ne_of_gt hlt
    simpa [hne] using hi.later e hlt
  · have hunused : (x.transactions x.executor++outcome.executed txs).isEmpty=true →
        x.used x.executor+((outcome.executed txs).map r.weight).sum=0 := by
      intro h
      obtain ⟨hzero,hnil⟩ := hempty h
      simp [hzero,hnil]
    obtain hall | ⟨n,hn,hfull⟩ := r.outcome_cases (x.used x.executor) txs
    · rw [hall] at ho
      subst ho
      exact .executing rfl hm permit (by simpa [Unused,fresh] using hunused) full .executed
    · rw [hfull] at ho
      subst ho
      refine .executing rfl hm permit (by simpa [Unused,fresh] using hunused) full (.leftover ?_ ?_)
      · rw [←Bool.not_eq_true]
        intro h
        simp only [fresh,Function.update_self] at h
        obtain ⟨hzero,hnil⟩ := hempty h
        rw [hzero] at hfull
        have hpos := r.pos_of_empty fits hfull
        have hlen := congrArg List.length hnil
        simp only [ExecuteOutcome.executed,List.length_take,List.length_nil] at hlen
        omega
      · exact fun tx htx => fits tx (List.mem_of_mem_drop htx)

theorem Inv.mineLock (hm : x.ongoingMining=some (.spawned e)) :
    Inv r { x with ongoingMining := some (.locked e), permit := .mining } := by
  refine ⟨hi.queued,hi.created,hi.later,hi.polls,?_,hi.nonempty⟩
  obtain ⟨he,full,timer,hstage⟩ := hi.of_mining hm
  cases hstage with
  | spawned permit held => exact .mining he rfl full timer (.locked rfl held)

theorem Inv.mineTake (hm : x.ongoingMining=some (.locked e)) :
    Inv r { x with
      ongoingMining := some (.taken e (x.transactions e))
      transactions := Function.update x.transactions e [] } := by
  obtain ⟨he,full,timer,hstage⟩ := hi.of_mining hm
  cases hstage with
  | locked permit held =>
    refine ⟨hi.queued,hi.created,fun e hlt => ?_,hi.polls,?_,hi.nonempty⟩
    · have hne : e≠x.executor := Nat.ne_of_gt hlt
      simpa [hne] using hi.later e hlt
    · refine .mining he rfl full timer (.taken permit fun h => ?_)
      simpa [fresh] using held h

theorem Inv.mineStore {output : List Tx}
    (hm : x.ongoingMining=some (.taken e output)) {stored : List (List Tx)} :
    Inv r { x with
      ongoingMining := some .finished, stored
      full := if x.closing then x.full++[output] else x.full } := by
  obtain ⟨he,full,timer,hstage⟩ := hi.of_mining hm
  cases hstage with
  | taken permit held =>
    refine ⟨hi.queued,hi.created,hi.later,hi.polls,.mining he rfl full timer (.mined permit),?_⟩
    intro hmem
    dsimp only at hmem
    split at hmem
    · rename_i hclosing
      rw [List.mem_append,List.mem_singleton] at hmem
      exact hmem.elim hi.nonempty fun h => held hclosing h.symm
    · exact hi.nonempty hmem

theorem Inv.complete (hm : x.ongoingMining=some .finished) :
    Inv r { x with toIntervalBlockProducer := x.completeMining .ready } := by
  obtain ⟨he,-⟩ := hi.of_mining hm
  have hnext := hi.later (x.executor+1) (Nat.lt_succ_self _)
  refine ⟨hi.queued,rfl,fun e hlt => ?_,by simp [completeMining],?_,hi.nonempty⟩
  · have hlt' : x.created<e := hlt
    have hne : e≠x.created := Nat.ne_of_gt hlt'
    rw [hi.created] at hlt'
    simpa [completeMining,replaceExecutor,hne] using hi.later e (by omega)
  · refine .idle he rfl rfl (fun _ => ?_) (fun h => by cases h) (by simp [Looked,completeMining])
    change x.used x.created=0
    rw [hi.created]
    exact hnext.1

theorem potential_collect {task : ExecutionTask Tx}
    (ht : x.ongoingExecution=some task) (hrun : ∀ e txs, task≠.running e txs) :
    potential { x with toIntervalBlockProducer := x.collectExecution }<x.potential := by
  obtain ⟨hm,-,-,full,stage⟩ := hi.of_execution ht
  cases stage with
  | running fits => exact absurd rfl (hrun _ _)
  | executed =>
    simp only [collectExecution,ht,potential,outstanding,phase,hm,full]
    (repeat' split) <;> simp_all
  | leftover held fits =>
    simp only [collectExecution,ht,potential,outstanding,phase,hm,List.map_cons,List.sum_cons,
      if_true]
    omega

theorem position_miningPending (h : x.lock=.polling .mining)
    (hm : x.ongoingMining≠some .finished) (hdone : ¬x.Done) :
    position { x with lock := .free }<x.position := by
  cases hi.stage with
  | idle he hm permit unused full looked =>
    cases hf : x.isBlockFull with
    | true => simp [position,busy,h,he,hm,hf]
    | false => exact absurd ⟨looked (.inr h) hf,he⟩ hdone
  | executing he hm permit unused full stage =>
    cases stage with
    | running fits => simp [position,busy,h,he]; split <;> omega
    | executed | leftover => simp [position,busy,h,he,hm]
  | mining he hm' full timer stage =>
    cases stage with
    | mined => exact absurd hm' hm
    | spawned | locked | taken => simp [position,busy,h,he,hm']; split <;> omega

theorem potential_complete (hm : x.ongoingMining=some .finished) :
    potential { x with toIntervalBlockProducer := x.completeMining .ready }<x.potential := by
  obtain ⟨he,-,timer,-⟩ := hi.of_mining hm
  simp [potential,outstanding,phase,completeMining,replaceExecutor,fresh,he,hm,timer]

theorem Inv.not_locked (hm : x.ongoingMining=none) (e : Nat) :
    ¬x.ExecutorLocked e := by
  rintro (⟨output,h⟩ | ⟨⟨output,h⟩,-⟩)
  · cases hm.symm.trans h
  · exact hi.polls _ h

end

section Runs
variable [DecidableLE W] {l : Action Tx × Bool}

theorem Inv.step (hi : x.Inv r) (hs : x.Step blockTime r l y) (hr : x.Roomy r l) : y.Inv r := by
  obtain ⟨a,mark⟩ := l
  obtain ⟨t,hstep,rfl,hruns,-⟩ := hs
  cases hstep with
  | push txs h => exact hi.push h hr
  | pollBegin h | miningPending h => exact hi.relock _ (by simp) (by simp) (by simp)
  | pollTimer ready h => exact hi.pollTimer hr
  | pollQueue h => exact hi.pollQueue h
  | executionPending h =>
    have hf := hi.not_full (.inr (.inl h))
    exact hi.relock _ (by simp) (by simp) fun _ he hm _ => (hi.idle he hm).2.2.2 (.inl h) hf
  | executionReady h ht hrun => exact hi.collect ht hrun
  | miningReady next h hm =>
    obtain rfl : next=.ready := hruns
    exact hi.complete (hm.resolve_right fun hfailed => nomatch (hi.of_mining hfailed).2.2.2)
  | miningCancelled next h hm => exact nomatch (hi.of_mining hm).2.2.2
  | @execute e txs outcome h hl ho =>
    obtain ⟨rfl,-⟩ := hi.of_running h
    simpa only [advance,h] using hi.execute h (hruns _ _ h)
  | mineLock h hp => exact hi.mineLock h
  | mineTake h => exact hi.mineTake h
  | mineStore h => simpa only [advance,h] using hi.mineStore h
  | mineTakeFailed h | mineStoreFailed h => cases hruns
  | _ => exact hruns.elim

theorem potential_execute (hi : x.Inv r)
    (he : x.ongoingExecution=some (.running x.executor txs))
    {outcome : ExecuteOutcome} (ho : outcome=r.bouncer.outcome (x.used x.executor) txs)
    {used : Nat → W} {transactions : Nat → List Tx} :
    potential { x with
      ongoingExecution := some (outcome.result txs), transactions, used }<x.potential := by
  obtain ⟨-,-,unused,-⟩ := hi.of_execution he
  obtain ⟨-,fits⟩ := hi.of_running he
  obtain hall | ⟨n,hn,hfull⟩ := r.outcome_cases (x.used x.executor) txs
  · rw [hall] at ho
    subst ho
    simp only [potential,outstanding,phase,ExecuteOutcome.result,he]
    split <;> omega
  · rw [hfull] at ho
    subst ho
    simp only [potential,outstanding,phase,ExecuteOutcome.result,he,List.length_drop]
    split
    · rename_i hfresh
      rw [unused hfresh] at hfull
      have hpos := r.pos_of_empty fits hfull
      omega
    · omega

theorem rank_step (hi : x.Inv r) (hs : x.Step blockTime r l y) (hr : x.RoomyAlone r l)
    (hdone : ¬x.Done) : y.rank+1≤x.rank+credit l := by
  obtain ⟨a,mark⟩ := l
  obtain ⟨t,hstep,rfl,hruns,hmark⟩ := hs
  cases hstep with
  | push txs h => exact absurd rfl (hr.2 txs)
  | pollBegin h =>
    cases hbusy : x.busy with
    | true =>
      obtain rfl : mark=true := hmark.mpr ⟨rfl,hbusy⟩
      have hbefore : x.rank=20*x.potential+0 := by simp [rank,position,h,hbusy]
      have hafter : (x.advance r .pollBegin { x.toIntervalBlockProducer with lock := .polling .timer }).rank=
        20*x.potential+6 := rfl
      rw [hbefore,hafter]
      simp [credit]
    | false =>
      refine rank_of_position rfl ?_
      simp [position,advance,h,hbusy]
  | pollTimer ready h =>
    obtain ⟨hm,hcause,hspawn⟩ | ⟨hsame,-⟩ := pollTimer_cases x.toIntervalBlockProducer ready
    · rw [hspawn]
      exact rank_of_potential (potential_spawnMining (hr.1.idle hm hspawn) hm hcause)
    · rw [hsame]
      refine rank_of_position rfl ?_
      simp [position,advance,h]
  | pollQueue h =>
    obtain ⟨hq,he,hm,hspawn⟩ | ⟨hsame,-⟩ := pollQueue_cases blockTime x.toIntervalBlockProducer
    · rw [hspawn]
      exact rank_of_potential (potential_running hq he hm (hi.not_full (.inl h)))
    · rw [hsame]
      refine rank_of_position rfl ?_
      simp [position,advance,h]
  | executionPending h =>
    have hf := hi.not_full (.inr (.inl h))
    refine rank_of_position rfl ?_
    cases he : x.ongoingExecution with
    | none => simp [position,advance,h,he,hf]
    | some task =>
      obtain ⟨e,txs,rfl⟩ := hruns task he
      simp [position,advance,h,he,hf]
  | executionReady h ht hrun => exact rank_of_potential (potential_collect hi ht hrun)
  | miningPending h => exact rank_of_position rfl (position_miningPending hi h hruns hdone)
  | miningReady next h hm =>
    obtain rfl : next=.ready := hruns
    exact rank_of_potential (potential_complete hi
      (hm.resolve_right fun hfailed => nomatch (hi.of_mining hfailed).2.2.2))
  | miningCancelled next h hm => exact nomatch (hi.of_mining hm).2.2.2
  | @execute e txs outcome h hl ho =>
    obtain ⟨rfl,-⟩ := hi.of_running h
    exact rank_of_potential (potential_execute hi h (hruns _ _ h))
  | mineLock h hp | mineTake h | mineStore h =>
    refine rank_of_potential ?_
    simp [potential,outstanding,phase,advance,h,(hi.of_mining h).1]
  | mineTakeFailed h | mineStoreFailed h => cases hruns
  | _ => exact hruns.elim

theorem exists_poll_step (hi : x.Inv r) (hbusy : x.busy=false) :
    ∃ a y, Restrict (RoomyAlone r) (Step blockTime r) x (a,false) y := by
  cases hlock : x.lock with
  | forcing point => exact absurd hlock (hi.polls point)
  | free =>
    exact ⟨.pollBegin,_,⟨trivial,by simp⟩,_,.pollBegin hlock,rfl,trivial,by simp [hbusy]⟩
  | polling point =>
    cases point with
    | timer =>
      refine ⟨.pollTimer false,_,⟨fun he => ?_,by simp⟩,_,.pollTimer false hlock,rfl,
        trivial,by simp⟩
      have hf := hi.not_full (.inr (.inr (.inl he)))
      simp [IntervalBlockProducer.pollTimer,hf]
    | queue =>
      exact ⟨.pollQueue,_,⟨trivial,by simp⟩,_,.pollQueue hlock,rfl,trivial,by simp⟩
    | execution =>
      cases he : x.ongoingExecution with
      | none =>
        exact ⟨.executionPending,_,⟨trivial,by simp⟩,_,.executionPending hlock,rfl,
          by simp [Runs,he],by simp⟩
      | some task =>
        refine ⟨.executionReady,_,⟨trivial,by simp⟩,_,.executionReady hlock he ?_,rfl,
          trivial,by simp⟩
        rintro e txs rfl
        simp [busy,he] at hbusy
    | mining =>
      by_cases hm : x.ongoingMining=some .finished
      · exact ⟨.miningReady .ready,_,⟨trivial,by simp⟩,_,.miningReady .ready hlock (.inl hm),
          rfl,rfl,by simp⟩
      · exact ⟨.miningPending,_,⟨trivial,by simp⟩,_,.miningPending hlock,rfl,hm,by simp⟩

theorem exists_step (blockTime : Option Nat) (hi : x.Inv r) :
    ∃ a y, Restrict (RoomyAlone r) (Step blockTime r) x (a,false) y := by
  cases hi.stage with
  | idle he hm => exact exists_poll_step hi (by simp [busy,he,hm])
  | executing he hm permit unused full stage =>
    cases stage with
    | @running txs fits =>
      exact ⟨.execute (r.bouncer.outcome (x.used x.executor) txs),_,
        ⟨trivial,by simp⟩,_,.execute _ he (hi.not_locked hm _) (r.bouncer.outcome_possible _ _),rfl,
        fun e txs' he' => by cases he.symm.trans he'; rfl,by simp⟩
    | executed | leftover => exact exists_poll_step hi (by simp [busy,he,hm])
  | mining he hm full timer stage =>
    cases stage with
    | spawned permit held =>
      exact ⟨.mineLock,_,⟨trivial,by simp⟩,_,.mineLock hm permit,rfl,trivial,by simp⟩
    | locked => exact ⟨.mineTake true,_,⟨trivial,by simp⟩,_,.mineTake hm,rfl,rfl,by simp⟩
    | taken => exact ⟨.mineStore true,_,⟨trivial,by simp⟩,_,.mineStore hm,rfl,rfl,by simp⟩
    | mined => exact exists_poll_step hi (by simp [busy,he,hm])

theorem Done.step (h : x.Done) (hs : Restrict (RoomyAlone r) (Step blockTime r) x l y) :
    y.Done := by
  obtain ⟨a,mark⟩ := l
  obtain ⟨⟨-,hpush⟩,t,hstep,rfl,hruns,-⟩ := hs
  obtain ⟨hq,he⟩ := h
  cases hstep with
  | push txs h => exact absurd rfl (hpush txs)
  | pollTimer ready h =>
    obtain ⟨-,-,hspawn⟩ | ⟨hsame,-⟩ := pollTimer_cases x.toIntervalBlockProducer ready
    · rw [hspawn]
      exact ⟨hq,he⟩
    · rw [hsame]
      exact ⟨hq,he⟩
  | pollQueue h =>
    obtain ⟨hne,-⟩ | ⟨hsame,-⟩ := pollQueue_cases blockTime x.toIntervalBlockProducer
    · exact absurd hq hne
    · rw [hsame]
      exact ⟨hq,he⟩
  | executionReady h ht hrun => cases he.symm.trans ht
  | execute outcome h hl ho => cases he.symm.trans h
  | miningReady next h hm =>
    obtain rfl : next=.ready := hruns
    exact ⟨hq,he⟩
  | _ => exact ⟨hq,he⟩

/-- In a run in which an empty block has room for every transaction and no block is closed while an
execution is outstanding, no block that was closed because it was full is empty; and once no
transactions come, a run that has not executed all of them is no longer than its start allows, and
goes on to the end. -/
theorem block_full_progress (r : Resources Tx W) (blockTime : Option Nat)
    (as bs : List (Action Tx × Bool)) (x y : Filling Tx W)
    (hx : Run (Restrict (Roomy r) (Step blockTime r)) {} as x)
    (hy : Run (Restrict (RoomyAlone r) (Step blockTime r)) x bs y) :
    []∉y.full ∧ (y.Done ∨ y.rank+bs.length≤x.rank+(bs.map credit).sum) ∧
      ∃ cs z, Run (Restrict (RoomyAlone r) (Step blockTime r)) y cs z ∧ z.Done := by
  have hix : x.Inv r := hx.invariant (fun _ _ _ hi hs => hi.step hs.2 hs.1) (Inv.initial r)
  have hstep (s : Filling Tx W) (l : Action Tx × Bool) (t : Filling Tx W) (hi : s.Inv r)
      (hs : Restrict (RoomyAlone r) (Step blockTime r) s l t) : t.Inv r := hi.step hs.2 hs.1.1
  have hiy : y.Inv r := hy.invariant hstep hix
  refine ⟨hiy.nonempty,?_,?_⟩
  · refine hy.within Done rank credit hstep ?_ ?_ hix
    · intro s l t hi hs hd
      exact hd.step hs
    · intro s l t hi hs hd
      exact Or.inr (rank_step hi hs.2 hs.1 hd)
  · have hcloser (s : Filling Tx W) (hi : s.Inv r) (hd : ¬s.Done) :
        ∃ l t, Restrict (RoomyAlone r) (Step blockTime r) s l t ∧ t.Inv r ∧ t.rank<s.rank := by
      obtain ⟨a,t,hs⟩ := exists_step blockTime hi
      exact ⟨(a,false),t,hs,hstep s _ t hi hs,rank_step hi hs.2 hs.1 hd⟩
    obtain ⟨cs,z,hz,-,hdone⟩ := Run.reaches rank hcloser hiy
    exact ⟨cs,z,hz,hdone⟩

end Runs

/-- Numbers as transactions of that many units, in blocks with room for one unit. -/
def unit : Resources Nat Nat := ⟨id,1⟩

def pushed : Filling Nat Nat where
  queued := [[1,1]]

/-- The first steps of a poll, and where they end. -/
def started (mark ready : Bool) : List (Action Nat × Bool) :=
  [(.pollBegin,mark),(.pollTimer ready,false),(.pollQueue,false)]

def looked (ready : Bool) (x : Filling Nat Nat) : Filling Nat Nat :=
  let x := x.advance unit .pollBegin { x.toIntervalBlockProducer with lock := .polling .timer }
  let x := x.advance unit (.pollTimer ready)
    { x.pollTimer ready with lock := .polling .queue }
  x.advance unit .pollQueue { x.pollQueue (some 10) with lock := .polling .execution }

/-- A poll that finds nothing ready. -/
def quiet (mark ready : Bool) : List (Action Nat × Bool) :=
  started mark ready++[(.executionPending,false),(.miningPending,false)]

/-- Leftovers are collected, and the next poll closes the block. -/
def collected : List (Action Nat × Bool) :=
  started false false++[(.executionReady,false),(.miningPending,false)]++quiet false false

def mined : List (Action Nat × Bool) :=
  [(.mineLock,false),(.mineTake true,false),(.mineStore true,false)]

section Poll
variable {x y : Filling Nat Nat} {p : Filling Nat Nat → Action Nat × Bool → Prop} {mark : Bool}
  (hp : ∀ z l, (∀ ready, l.1≠.pollTimer ready) → (∀ txs, l.1≠.push txs) → p z l)
include hp

theorem mined_run (hm : x.ongoingMining=some (.spawned e)) (hpermit : x.permit=.free)
    (hy : y={ x with
      ongoingMining := some .finished, permit := .mining, stored := x.stored++[x.transactions e]
      transactions := Function.update x.transactions e []
      full := if x.closing then x.full++[x.transactions e] else x.full }) :
    Run (Restrict p (Step (some 10) unit)) x mined y :=
  .cons ⟨hp _ _ nofun nofun,_,.mineLock hm hpermit,rfl,trivial,by simp⟩ <|
  .cons ⟨hp _ _ nofun nofun,_,.mineTake rfl,rfl,rfl,by simp⟩ <|
  .single ⟨hp _ _ nofun nofun,_,.mineStore rfl,hy,rfl,by simp⟩

variable (ready : Bool) (hlock : x.lock=.free) (hmark : mark=x.busy)
  (htimer : p (x.advance unit .pollBegin { x.toIntervalBlockProducer with lock := .polling .timer })
    (.pollTimer ready,false))
include hlock hmark htimer

theorem started_run :
    Run (Restrict p (Step (some 10) unit)) x (started mark ready) (looked ready x) :=
  .cons ⟨hp _ _ nofun nofun,_,.pollBegin hlock,rfl,trivial,by simp [hmark]⟩ <|
  .cons ⟨htimer,_,.pollTimer ready rfl,rfl,trivial,by simp⟩ <|
  .single ⟨hp _ _ nofun nofun,_,.pollQueue rfl,rfl,trivial,by simp⟩

theorem quiet_run (he : (looked ready x).Runs unit .executionPending)
    (hm : (looked ready x).Runs unit .miningPending)
    (hy : y={ looked ready x with lock := .free }) :
    Run (Restrict p (Step (some 10) unit)) x (quiet mark ready) y :=
  (started_run hp ready hlock hmark htimer).append <|
  .cons ⟨hp _ _ nofun nofun,_,.executionPending rfl,rfl,he,by simp⟩ <|
  .single ⟨hp _ _ nofun nofun,_,.miningPending rfl,hy,hm,by simp⟩

end Poll

theorem pushed_run :
    Run (Restrict (Roomy unit) (Step (some 10) unit)) {} [(.push [1,1],false)] pushed :=
  .cons ⟨by simp [Roomy,unit,Resources.Fits],_,.push [1,1] rfl,rfl,trivial,by simp⟩ (.nil _)

theorem roomyAlone (z : Filling Nat Nat) (l : Action Nat × Bool)
    (ht : ∀ ready, l.1≠.pollTimer ready) (hp : ∀ txs, l.1≠.push txs) : z.RoomyAlone unit l := by
  refine ⟨?_,hp⟩
  unfold Roomy
  split
  · exact absurd ‹_› (hp _)
  · exact absurd ‹_› (ht _)
  · trivial

/-- The first transaction fills the block, which is closed and stored; the second is left. -/
theorem ones_fill_block : ∃ bs y,
    Run (Restrict (RoomyAlone unit) (Step (some 10) unit)) pushed bs y ∧
    y.full=[[1]] ∧ []∉y.full ∧ y.queued=[[1]] ∧
    (y.Done ∨ y.rank+bs.length≤pushed.rank+(bs.map credit).sum) ∧
      ∃ cs z, Run (Restrict (RoomyAlone unit) (Step (some 10) unit)) y cs z ∧ z.Done := by
  have hrunning := quiet_run roomyAlone (y := { pushed with queued := [], ongoingExecution := some (.running 0 [1,1]), timer := true }) (x := pushed)
    false rfl rfl ⟨nofun,nofun⟩ (fun _ h => ⟨0,[1,1],by cases h; rfl⟩) nofun rfl
  have hleft := hrunning.snoc (a := (Action.execute (.full 1),false)) ⟨⟨trivial,by simp⟩,_,
    .execute (.full 1) rfl (by rintro (⟨_,h⟩ | ⟨⟨_,h⟩,-⟩) <;> cases h) (show 1<2 by decide),rfl,
    (by intro e txs h; cases h; rfl),by simp⟩
  have hready := (hleft.append (started_run roomyAlone false rfl rfl ⟨fun _ => rfl,nofun⟩)).snoc
    (a := (Action.executionReady,false))
    ⟨⟨trivial,by simp⟩,_,.executionReady rfl rfl (fun _ _ => nofun),rfl,trivial,by simp⟩
  have hfull := hready.snoc (a := (Action.miningPending,false))
    ⟨⟨trivial,by simp⟩,_,.miningPending rfl,rfl,nofun,by simp⟩
  have hmining := hfull.append (quiet_run roomyAlone false rfl rfl ⟨nofun,nofun⟩ nofun nofun rfl)
  have hmined := hmining.append (mined_run (e := 0) roomyAlone rfl rfl rfl)
  obtain ⟨hempty,hrest⟩ := block_full_progress unit (some 10) _ _ _ _ pushed_run hmined
  exact ⟨_,_,hmined,rfl,hempty,rfl,hrest⟩

/-- The state after a transaction of two units was retried n times. -/
def retrying (n : Nat) : Filling Nat Nat where
  queued := [[2]]
  executor := n
  created := n+1
  stored := List.replicate n []
  closing := decide (0<n)
  full := List.replicate n []

def retryRunning (n : Nat) : Filling Nat Nat := { retrying n with
  queued := [], ongoingExecution := some (.running n [2]), timer := true }

def retryLeft (n : Nat) : Filling Nat Nat := { retrying n with
  queued := [], ongoingExecution := some (.finished (some [2])), timer := true }

def retryMining (n : Nat) : Filling Nat Nat := { retrying n with
  ongoingMining := some (.spawned n), closing := true }

def retryMined (n : Nat) : Filling Nat Nat := { retrying n with
  stored := List.replicate n []++[[]], ongoingMining := some .finished, permit := .mining
  closing := true
  full := List.replicate n []++[[]] }

variable (n : Nat)

theorem free (_ : Filling Nat Nat) (l : Action Nat × Bool) (_ : ∀ ready, l.1≠.pollTimer ready)
    (_ : ∀ txs, l.1≠.push txs) : True := trivial

theorem retrying_running :
    Run (Step (some 10) unit) (retrying n) (quiet false false) (retryRunning n) :=
  .of_restrict <| quiet_run free false rfl rfl trivial (fun _ h => ⟨n,[2],by cases h; rfl⟩) nofun rfl

theorem retryRunning_left : Run (Step (some 10) unit) (retryRunning n)
    [(.execute (.full 0),false)] (retryLeft n) := by
  refine .cons ⟨_,.execute (.full 0) rfl ?_ (Nat.succ_pos _),?_,?_,by simp⟩ (.nil _)
  · rintro (⟨output,h⟩ | ⟨⟨output,h⟩,-⟩) <;> cases h
  · simp [retryLeft,retryRunning,retrying,advance,ExecuteOutcome.executed,ExecuteOutcome.result]
  · intro e txs h
    cases h
    rfl

theorem retryLeft_mining : Run (Step (some 10) unit) (retryLeft n) collected (retryMining n) :=
  .append (.append (.of_restrict <| started_run free false rfl rfl trivial) <|
    .cons ⟨_,.executionReady rfl rfl (by simp),rfl,trivial,by simp⟩ <|
    .single ⟨_,.miningPending rfl,rfl,nofun,by simp⟩)
  (.of_restrict <| quiet_run free false rfl rfl trivial nofun nofun rfl)

theorem retryMining_mined : Run (Step (some 10) unit) (retryMining n) mined (retryMined n) :=
  .of_restrict <| mined_run free rfl rfl (by simp [retryMined,retryMining,retrying])

theorem retryMined_next : Run (Step (some 10) unit) (retryMined n)
    (started false false++[(.executionPending,false),(.miningReady .ready,false)])
    (retrying (n+1)) := by
  refine .append (.of_restrict <| started_run free false rfl rfl trivial) <|
    .cons ⟨_,.executionPending rfl,rfl,nofun,by simp⟩ <|
    .single ⟨_,.miningReady .ready rfl (.inl rfl),?_,rfl,by simp⟩
  simp [looked,retryMined,retrying,advance,List.replicate_succ',completeMining,replaceExecutor,
    IntervalBlockProducer.pollTimer,IntervalBlockProducer.pollQueue]

def retry : List (Action Nat × Bool) :=
  quiet false false++[(.execute (.full 0),false)]++collected++mined++
    (started false false++[(.executionPending,false),(.miningReady .ready,false)])

theorem retry_not_push : ∀ l∈retry, ∀ txs, l.1≠.push txs := by
  simp [retry,quiet,started,collected,mined]

theorem retrying_retry : Run (Step (some 10) unit) (retrying n) retry (retrying (n+1)) :=
  ((((retrying_running n).append (retryRunning_left n)).append (retryLeft_mining n)).append
    (retryMining_mined n)).append (retryMined_next n)

theorem retrying_run :
    Run (Step (some 10) unit) {} ((.push [2],false)::(List.replicate n retry).flatten)
      (retrying n) := by
  induction n with
  | zero => exact .cons ⟨_,.push [2] rfl,rfl,trivial,by simp⟩ (.nil _)
  | succ n ih =>
    rw [List.replicate_succ',List.flatten_append,List.flatten_singleton,←List.cons_append]
    exact ih.append (retrying_retry n)

def overtaken : Filling Nat Nat where
  ongoingExecution := some (.running 0 [1,1])
  ongoingMining := some (.spawned 0)

def outlived : Filling Nat Nat where
  executor := 1
  created := 2
  ongoingExecution := some (.running 0 [1,1])
  stored := [[]]

theorem overtaken_run : Run (Step (some 10) unit) {}
    ((.push [1,1],false)::(quiet false false++quiet true true)) overtaken :=
  .cons ⟨_,.push [1,1] rfl,rfl,trivial,by simp⟩ <|
  .append (.of_restrict <| quiet_run free false rfl rfl trivial (fun _ h => ⟨0,[1,1],by cases h; rfl⟩) nofun rfl) <|
  .of_restrict <| quiet_run free true rfl rfl trivial (fun _ h => ⟨0,[1,1],by cases h; rfl⟩) nofun rfl

theorem overtaken_outlived : Run (Step (some 10) unit) overtaken
    (mined++(started true false++[(.executionPending,false),(.miningReady .ready,false)]))
      outlived := by
  refine .append (.of_restrict <| mined_run free rfl rfl rfl) <|
    .append (.of_restrict <| started_run free false rfl rfl trivial) <|
    .cons ⟨_,.executionPending rfl,rfl,fun _ h => ⟨0,[1,1],by cases h; rfl⟩,by simp⟩ <|
    .single ⟨_,.miningReady .ready rfl (.inl rfl),?_,rfl,by simp⟩
  simp [looked,outlived,overtaken,advance,completeMining,replaceExecutor,
    IntervalBlockProducer.pollTimer,IntervalBlockProducer.pollQueue]

theorem outlived_full : ∃ x, Run (Step (some 10) unit) outlived
    ((.execute (.full 1),false)::(collected++mined)) x ∧ x.full=[[]] := by
  refine ⟨_,
    .cons ⟨_,.execute (.full 1) rfl ?_ (show 1<2 by decide),rfl,?_,by simp⟩ <|
    .append (.append (.append (.of_restrict <| started_run free false rfl rfl trivial) <|
        .cons ⟨_,.executionReady rfl rfl nofun,rfl,trivial,by simp⟩ <|
        .single ⟨_,.miningPending rfl,rfl,nofun,by simp⟩) <|
      .of_restrict <| quiet_run free false rfl rfl trivial nofun nofun rfl) <|
    .of_restrict <| mined_run free rfl rfl rfl,rfl⟩
  · rintro (⟨output,h⟩ | ⟨⟨output,h⟩,-⟩) <;> cases h
  · intro e txs h
    cases h
    rfl

/-- A transaction that alone exceeds the limit is retried forever, and every retry mines an empty
block; and after a block closed during an execution a full one is empty. -/
theorem oversize_retried_forever :
    (¬unit.Fits 2 ∧ ∀ n, ∃ as x, Run (Step (some 10) unit) {} ((.push [2],false)::as) x ∧
      (∀ l∈as, ∀ txs, l.1≠.push txs) ∧ x.queued=[[2]] ∧ x.full=List.replicate n []) ∧
    unit.Fits 1 ∧ ∃ as x, Run (Step (some 10) unit) {} ((.push [1,1],false)::as) x ∧
      x.full=[[]] := by
  obtain ⟨x,hx,hfull⟩ := outlived_full
  refine ⟨⟨by simp [Resources.Fits,unit],fun n => ⟨_,_,retrying_run n,?_,rfl,rfl⟩⟩,
    by simp [Resources.Fits,unit],_,x,(overtaken_run.append overtaken_outlived).append hx,hfull⟩
  intro l hl
  obtain ⟨as,has,hl⟩ := List.mem_flatten.1 hl
  obtain rfl := List.eq_of_mem_replicate has
  exact retry_not_push l hl

end Filling
end Katana.Service
