import Katana.Base.Transition
import Katana.Service.Round
import Mathlib.Tactic.Abel

/-! The instant block producer (InstantBlockProducer of core/service/block_producer.rs): polls
and force_mine calls, and where the transactions that they take from the queue end up. -/
namespace Katana.Service
open Transition

/-- The spawned do_mine of a round. With a result the model remembers what was not mined. -/
inductive InstantTask (Tx : Type) where
  | running (transactions : List (List Tx))
  | returned (result : Except MiningFailure Unit) (unmined : List Tx)

/-- The lock of the producer is held through a poll. -/
structure InstantBlockProducer (Tx Receipt : Type) where
  queued : List (List Tx) := []
  blockMining : Option (InstantTask Tx) := none
  polling : Bool := false
  /-- The execution outputs of the stored blocks. -/
  stored : List (ExecutionOutput Tx Receipt) := []
  /-- What the rounds did not mine whose error poll_next returned. -/
  reported : List (List Tx) := []

inductive InstantAction (State BlockEnv Tx : Type) where
  | push (transactions : List Tx)
  | pollBegin
  | pollPending
  | pollReady (result : Except MiningFailure Unit)
  | mine (round : MiningRound State BlockEnv)
  | forceMine (round : MiningRound State BlockEnv)

section
variable {State BlockEnv Tx Receipt : Type}
variable (B : Blockifier State (PartialHeader BlockEnv) Tx Receipt)

/-- Everything that is in the queue goes to one round, unless one is going on. -/
def InstantBlockProducer.takeQueue (s : InstantBlockProducer Tx Receipt) :
    InstantBlockProducer Tx Receipt :=
  if !s.queued.isEmpty && s.blockMining.isNone then
    { s with queued := [], blockMining := some (.running s.queued) }
  else s

inductive InstantStep : InstantBlockProducer Tx Receipt → InstantAction State BlockEnv Tx →
    InstantBlockProducer Tx Receipt → Prop where
  -- BlockProducer::queue
  | push {s} (txs : List Tx) (h : s.polling=false) :
      InstantStep s (.push txs) { s with queued := s.queued++[txs] }
  -- poll_next
  | pollBegin {s} (h : s.polling=false) :
      InstantStep s .pollBegin { s.takeQueue with polling := true }
  | pollPending {s} (h : s.polling=true)
      (hm : ∀ result unmined, s.blockMining≠some (.returned result unmined)) :
      InstantStep s .pollPending { s with polling := false }
  | pollOk {s} {unmined : List Tx} (h : s.polling=true)
      (hm : s.blockMining=some (.returned (.ok ()) unmined)) :
      InstantStep s (.pollReady (.ok ())) { s with polling := false, blockMining := none }
  | pollError {s} {e : MiningFailure} {unmined : List Tx} (h : s.polling=true)
      (hm : s.blockMining=some (.returned (.error e) unmined)) :
      InstantStep s (.pollReady (.error e))
        { s with polling := false, blockMining := none, reported := s.reported++[unmined] }
  -- do_mine as a task
  | mine {s} {transactions : List (List Tx)} (round : MiningRound State BlockEnv)
      (hm : s.blockMining=some (.running transactions)) :
      InstantStep s (.mine round) { s with
        blockMining := some (.returned (doMine B round transactions).2
          (unmined B round transactions))
        stored := s.stored++(doMine B round transactions).1.toList }
  -- force_mine
  | forceMine {s} (round : MiningRound State BlockEnv) (h : s.polling=false)
      (hm : s.blockMining=none) :
      InstantStep s (.forceMine round)
        { s with queued := [], stored := s.stored++(doMine B round s.queued).1.toList }
  | forceMineRunning {s} {task : InstantTask Tx} (round : MiningRound State BlockEnv)
      (h : s.polling=false) (hm : s.blockMining=some task) : InstantStep s (.forceMine round) s

/-- The transactions of a round that is not completed, without those that were lost. -/
def InstantTask.held : InstantTask Tx → List Tx
  | .running transactions => transactions.flatten
  | .returned (.ok ()) _ => []
  | .returned (.error _) unmined => unmined

/-- All places: the queue, the round, the blocks and the errors of poll_next. -/
def InstantBlockProducer.located (s : InstantBlockProducer Tx Receipt) : Multiset Tx :=
  s.queued.flatten+((s.blockMining.map InstantTask.held).getD [] : List Tx)+
    (s.stored.flatten.map Prod.fst : List Tx)+s.reported.flatten

def InstantAction.pushed : InstantAction State BlockEnv Tx → Multiset Tx
  | .push txs => txs
  | _ => 0

def InstantBlockProducer.lost (s : InstantBlockProducer Tx Receipt) :
    InstantAction State BlockEnv Tx → Multiset Tx
  | .mine round =>
    match s.blockMining with
    | some (.running transactions) => dropped B round transactions
    | _ => 0
  | .forceMine round => if s.blockMining.isNone then unmined B round s.queued else 0
  | _ => 0

/-- The rounds that lose nothing. The caller of poll_next learns about a failed round, the
caller of force_mine does not. -/
def InstantKeeps (s : InstantBlockProducer Tx Receipt) : InstantAction State BlockEnv Tx → Prop
  | .mine round => ∀ transactions, s.blockMining=some (.running transactions) →
      NotCut B round transactions
  | .forceMine round => s.blockMining=none → MinesAll B round s.queued
  | _ => True

theorem lost_eq_zero_iff (s : InstantBlockProducer Tx Receipt)
    (a : InstantAction State BlockEnv Tx) : s.lost B a=0 ↔ InstantKeeps B s a := by
  cases a with
  | mine round =>
    simp only [InstantBlockProducer.lost,InstantKeeps]
    split
    · rename_i transactions h
      simp [h,dropped_eq_nil_iff]
    · rename_i h
      simp only [true_iff]
      exact fun transactions ht => absurd ht (h transactions)
  | forceMine round =>
    cases hm : s.blockMining <;>
      simp [InstantBlockProducer.lost,InstantKeeps,hm,unmined_eq_nil_iff]
  | _ => simp [InstantBlockProducer.lost,InstantKeeps]

theorem held_append_dropped (round : MiningRound State BlockEnv) (transactions : List (List Tx)) :
    (InstantTask.returned (doMine B round transactions).2 (unmined B round transactions)).held++
      dropped B round transactions=unmined B round transactions := by
  unfold dropped
  cases (doMine B round transactions).2 with
  | ok u => rfl
  | error e => exact List.append_nil _

theorem mined_add_unmined (round : MiningRound State BlockEnv) (transactions : List (List Tx)) :
    ((doMine B round transactions).1.toList.flatten.map Prod.fst : Multiset Tx)+
      unmined B round transactions=transactions.flatten := by
  rw [Multiset.coe_add,← mined_append_unmined B round transactions]
  cases (doMine B round transactions).1 <;> simp

theorem located_takeQueue (s : InstantBlockProducer Tx Receipt) :
    s.takeQueue.located=s.located := by
  unfold InstantBlockProducer.takeQueue
  split_ifs with h
  · simp only [Bool.and_eq_true,Option.isNone_iff_eq_none] at h
    simp [InstantBlockProducer.located,InstantTask.held,h.2]
  · rfl

theorem located_step {s t : InstantBlockProducer Tx Receipt} {a : InstantAction State BlockEnv Tx}
    (h : InstantStep B s a t) : t.located+s.lost B a=s.located+a.pushed := by
  cases h with
  | push txs h =>
    simp only [InstantBlockProducer.located,InstantBlockProducer.lost,InstantAction.pushed,
      List.flatten_append,List.flatten_singleton,← Multiset.coe_add]
    abel
  | pollBegin h => exact congrArg (·+0) (located_takeQueue s)
  | pollPending h hm => rfl
  | pollOk h hm =>
    simp [InstantBlockProducer.located,InstantBlockProducer.lost,InstantAction.pushed,hm,InstantTask.held]
  | pollError h hm =>
    simp only [InstantBlockProducer.located,InstantBlockProducer.lost,InstantAction.pushed,hm,
      InstantTask.held,List.flatten_append,List.flatten_singleton,← Multiset.coe_add,
      Option.map_some,Option.map_none,Option.getD_some,Option.getD_none,Multiset.coe_nil]
    abel
  | @mine transactions round hm =>
    have hsplit := mined_add_unmined B round transactions
    rw [← held_append_dropped B round transactions,← Multiset.coe_add] at hsplit
    have hheld : (InstantTask.running transactions).held=transactions.flatten := rfl
    simp only [InstantBlockProducer.located,InstantBlockProducer.lost,InstantAction.pushed,hm,
      List.flatten_append,List.map_append,← Multiset.coe_add,Option.map_some,Option.getD_some,
      hheld,← hsplit]
    abel
  | forceMine round h hm =>
    have hsplit := mined_add_unmined B round s.queued
    simp only [InstantBlockProducer.located,InstantBlockProducer.lost,InstantAction.pushed,hm,
      List.flatten_append,List.map_append,← Multiset.coe_add,Option.map_none,Option.getD_none,
      Option.isNone_none,if_true,List.flatten_nil,Multiset.coe_nil,← hsplit]
    abel
  | forceMineRunning round h hm => simp [InstantBlockProducer.lost,InstantAction.pushed,hm]

/-- After a run every pushed transaction is in the queue, in a round, in a block or in a round
whose error poll_next returned if and only if every round of the run keeps its transactions.
The block of a round holds the first of them in order. -/
theorem instant_conserves_iff {as : List (InstantAction State BlockEnv Tx)}
    {s : InstantBlockProducer Tx Receipt} (h : Run (InstantStep B) {} as s) :
    (s.located=(as.map InstantAction.pushed).sum ↔
      Run (Restrict (InstantKeeps B) (InstantStep B)) {} as s) ∧
    ∀ round transactions, ((doMine B round transactions).1.getD []).map Prod.fst++
      unmined B round transactions=transactions.flatten := by
  refine ⟨?_,mined_append_unmined B⟩
  have hb : s.located=({} : InstantBlockProducer Tx Receipt).located+
      (as.map InstantAction.pushed).sum ↔
      Run (Restrict (InstantKeeps B) (InstantStep B)) {} as s := by
    apply h.balanced_iff _ (lost_eq_zero_iff B)
    intro s a t hs
    exact located_step B hs
  rw [← hb]
  exact Eq.congr_right (zero_add _).symm

end

def roomFor : Blockifier Nat (PartialHeader Unit) Nat Unit where
  fillBlockEnvFromHeader _ room := room
  transact
    | 0,_ => (0,.error .limitsExhausted)
    | room+1,_ => (room,.ok (.success ()))

def fineRound (room : Nat) : MiningRound Nat Unit where
  latestNumber := .ok 0
  blockEnvAt _ := .ok (some ())
  updateBlockEnv := id
  latestHash := .ok 0
  latest := .ok room
  doMineBlock := .ok ()
  minedLatest := .ok room
  minedLatestNumber := .ok 1
  minedBlockEnvAt _ := .ok (some ())

def threeQueued (room : Nat) : List (InstantAction Nat Unit Nat) :=
  [.push [1,2],.push [3],.pollBegin,.pollPending,.mine (fineRound room),.pollBegin,
    .pollReady (.ok ())]

theorem instant_conserves_three : ∃ s, Run (InstantStep roomFor) {} (threeQueued 3) s ∧
    s.stored=[[(1,.success ()),(2,.success ()),(3,.success ())]] ∧
      s.located=((threeQueued 3).map InstantAction.pushed).sum := by
  have hrun : ∃ s, Run (Restrict (InstantKeeps roomFor) (InstantStep roomFor)) {} (threeQueued 3) s ∧
      s.stored=[[(1,.success ()),(2,.success ()),(3,.success ())]] := by
    apply Run.exists_cons ⟨trivial,.push _ rfl⟩
    apply Run.exists_cons ⟨trivial,.push _ rfl⟩
    apply Run.exists_cons ⟨trivial,.pollBegin rfl⟩
    apply Run.exists_cons ⟨trivial,.pollPending rfl (by simp [InstantBlockProducer.takeQueue])⟩
    apply Run.exists_cons ⟨(by
      intro transactions h n hn
      cases h
      cases hn),.mine _ rfl⟩
    apply Run.exists_cons ⟨trivial,.pollBegin rfl⟩
    apply Run.exists_cons ⟨trivial,.pollOk rfl rfl⟩
    exact ⟨_,.nil _,rfl⟩
  obtain ⟨s,hr,hs⟩ := hrun
  exact ⟨s,hr.of_restrict,hs,(instant_conserves_iff roomFor hr.of_restrict).1.mpr hr⟩

/-- The block has room for two of the three transactions. Nothing fails, and the third is
neither mined nor queued nor in a round, and no error is returned. -/
theorem third_transaction_lost : ∃ s, Run (InstantStep roomFor) {} (threeQueued 2) s ∧
    s.stored=[[(1,.success ()),(2,.success ())]] ∧ s.queued=[] ∧ s.reported=[] ∧
      ((threeQueued 2).map InstantAction.pushed).sum={1,2,3} ∧ s.located={1,2} := by
  apply Run.exists_cons (.push _ rfl)
  apply Run.exists_cons (.push _ rfl)
  apply Run.exists_cons (.pollBegin rfl)
  apply Run.exists_cons (.pollPending rfl (by simp [InstantBlockProducer.takeQueue]))
  apply Run.exists_cons (.mine _ rfl)
  apply Run.exists_cons (.pollBegin rfl)
  apply Run.exists_cons (.pollOk rfl rfl)
  exact ⟨_,.nil _,rfl,rfl,rfl,rfl,rfl⟩

end Katana.Service
