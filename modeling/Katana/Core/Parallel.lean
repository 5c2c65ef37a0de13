import Katana.Core.StateRoot

/-! The two ways to commit a block (UncommittedBlock::commit and commit_parallel in
core/backend/mod.rs). The parallel one computes the commitments in tasks of their own, and collects
the hashes of the events through a bridge that does not keep their order. -/
namespace Katana
variable {P : Payloads}

inductive CommitTask where
  | stateRoot
  | transactions
  | events
  | receipts
  | stateDiff
  deriving DecidableEq, Repr

/-- The variables that the tasks assign. -/
structure Commitments where
  stateRoot : Felt := 0
  transactions : Felt := 0
  events : Felt := 0
  receipts : Felt := 0
  stateDiff : Felt := 0
  deriving DecidableEq, Repr

namespace Backend
variable (K : Backend P)

def eventHashes (b : UncommittedBlock P) : List Felt :=
  b.receipts.flatMap fun r => (K.events r.receipt).map (K.eventHash r.txHash)

/-- An order in which the tasks run, and an order in which the hashes of the events come out. -/
structure Schedule (b : UncommittedBlock P) where
  tasks : List CommitTask
  tasks_perm : tasks.Perm [.stateRoot,.transactions,.events,.receipts,.stateDiff]
  events : List Felt
  events_perm : events.Perm (K.eventHashes b)

def sealWith (b : UncommittedBlock P) (c : Commitments) : SealedBlock P :=
  let header : Header := {
    stateRoot := c.stateRoot
    parentHash := b.header.parentHash
    eventsCount := (b.receipts.map (fun r => (K.events r.receipt).length%2^32)).sum%2^32
    stateDiffLength := b.stateUpdates.len%2^32
    transactionCount := b.transactions.length%2^32
    eventsCommitment := c.events
    receiptsCommitment := c.receipts
    stateDiffCommitment := c.stateDiff
    transactionsCommitment := c.transactions
    number := b.header.number
    timestamp := b.header.timestamp
    l1DaMode := b.header.l1DaMode
    l2GasPrices := b.header.l2GasPrices
    l1GasPrices := b.header.l1GasPrices
    l1DataGasPrices := b.header.l1DataGasPrices
    sequencerAddress := b.header.sequencerAddress
    protocolVersion := b.header.protocolVersion }
  ⟨header.computeHash K.hashes,header,b.transactions⟩

variable {K} {b : UncommittedBlock P} {ε : Type} (s : K.Schedule b)

/-- What a task assigns; only the state root needs the provider. -/
def Schedule.assign (root : Felt) (c : Commitments) : CommitTask → Commitments
  | .stateRoot => { c with stateRoot := root }
  | .transactions => { c with transactions := K.computeTransactionCommitment b }
  | .events => { c with events := K.computeMerkleRoot s.events }
  | .receipts => { c with receipts := K.computeReceiptCommitment b }
  | .stateDiff => { c with stateDiff := computeStateDiffHash K.hashes b.stateUpdates }

variable (w : TrieWriter P)

def Schedule.runTask (c : Commitments) : CommitTask → CallM P ε Commitments
  | .stateRoot => do
    let root ← K.computeNewStateRoot w b
    return s.assign root c .stateRoot
  | task => return s.assign c.stateRoot c task

variable (K b) in
def commitParallel (w : TrieWriter P) (s : K.Schedule b) : CallM P ε (SealedBlock P) := do
  let c ← s.tasks.foldlM (s.runTask w) {}
  return K.sealWith b c

def Schedule.all (root : Felt) : Commitments where
  stateRoot := root
  transactions := K.computeTransactionCommitment b
  events := K.computeMerkleRoot s.events
  receipts := K.computeReceiptCommitment b
  stateDiff := computeStateDiffHash K.hashes b.stateUpdates

instance (root : Felt) : RightCommutative (s.assign root) where
  right_comm c task task' := by cases task <;> cases task' <;> rfl

theorem Schedule.foldl_assign (root : Felt) : s.tasks.foldl (s.assign root) {}=s.all root :=
  s.tasks_perm.foldl_eq (f:=s.assign root) ({} : Commitments)

theorem Schedule.runTask_pure (root : Felt) (c : Commitments)
    {task : CommitTask} (h : task≠.stateRoot) :
    s.runTask w c task=(pure (s.assign root c task) : CallM P ε Commitments) := by
  cases task with
  | stateRoot => exact absurd rfl h
  | _ => rfl

theorem Schedule.foldlM_pure (root : Felt)
    {tasks : List CommitTask} (h : .stateRoot∉tasks) (c : Commitments) :
    tasks.foldlM (s.runTask w) c=
      (pure (tasks.foldl (s.assign root) c) : CallM P ε Commitments) := by
  induction tasks generalizing c with
  | nil => rfl
  | cons task tasks ih =>
    rw [List.mem_cons,not_or] at h
    rw [List.foldlM_cons,s.runTask_pure w root c (Ne.symm h.1),pure_bind,ih h.2]
    rfl

theorem Schedule.foldlM_stateRoot {tasks : List CommitTask} (hmem : .stateRoot∈tasks)
    (hnodup : tasks.Nodup) (c : Commitments) :
    tasks.foldlM (s.runTask w) c=(do
      let root ← K.computeNewStateRoot w b
      return tasks.foldl (s.assign root) c : CallM P ε Commitments) := by
  induction tasks generalizing c with
  | nil => cases hmem
  | cons task tasks ih =>
    rw [List.nodup_cons] at hnodup
    rw [List.foldlM_cons]
    by_cases htask : task=.stateRoot
    · subst htask
      rw [Schedule.runTask,bind_assoc]
      congr 1
      funext root
      rw [pure_bind,s.foldlM_pure w root hnodup.1]
      rfl
    · have hmem' : .stateRoot∈tasks := (List.mem_cons.mp hmem).resolve_left (Ne.symm htask)
      rw [s.runTask_pure w 0 c htask,pure_bind,ih hmem' hnodup.2]
      congr 1
      funext root
      cases task with
      | stateRoot => exact absurd rfl htask
      | _ => rfl

theorem commitParallel_eq (w : TrieWriter P) (s : K.Schedule b) :
    K.commitParallel b w s=(do
      let root ← K.computeNewStateRoot w b
      return K.sealWith b (s.all root) : CallM P ε (SealedBlock P)) := by
  have hmem : CommitTask.stateRoot∈s.tasks := s.tasks_perm.mem_iff.mpr (by simp)
  have hnodup : s.tasks.Nodup := s.tasks_perm.nodup_iff.mpr (by decide)
  rw [commitParallel,s.foldlM_stateRoot w hmem hnodup,bind_assoc]
  congr 1
  funext root
  rw [pure_bind,s.foldl_assign]

/-- One task after the other, with this order of the events. -/
def Schedule.inTurn (events : List Felt) (h : events.Perm (K.eventHashes b)) : K.Schedule b where
  tasks := [.stateRoot,.transactions,.events,.receipts,.stateDiff]
  tasks_perm := List.Perm.refl _
  events := events
  events_perm := h

theorem commit_eq : K.commit w b=(do
    let root ← K.computeNewStateRoot w b
    return K.sealWith b ((Schedule.inTurn (K.eventHashes b) (List.Perm.refl _)).all root) :
      CallM P ε (SealedBlock P)) := rfl

theorem forall_perm_eq_iff {α : Type*} [DecidableEq α] (l : List α) :
    (∀ l', l'.Perm l → l'=l) ↔ ∀ x∈l, ∀ y∈l, x=y := by
  constructor
  · intro h x hx y hy
    have hfront {z : α} (hz : z∈l) : z::l.erase z=l := h _ (List.perm_cons_erase hz).symm
    have hxy : x::l.erase x=y::l.erase y := (hfront hx).trans (hfront hy).symm
    exact (List.cons.inj hxy).1
  · intro h l' hp
    cases l with
    | nil => exact List.perm_nil.mp hp
    | cons x l =>
      have hall : x::l=List.replicate (l.length+1) x :=
        List.eq_replicate_iff.mpr ⟨rfl,fun y hy => h y hy x (by simp)⟩
      rw [hall] at hp ⊢
      exact List.perm_replicate.mp hp

/-- The two commits agree in every schedule exactly if the events of the block cannot be told apart
by their hashes, or the state root is not computed at all. -/
theorem commit_parallel_agrees_iff (K : Backend P) (b : UncommittedBlock P) (w : TrieWriter P)
    (db : Db P) (hroot : ∀ l l', l.Perm (K.eventHashes b) → l'.Perm (K.eventHashes b) →
      K.computeMerkleRoot l=K.computeMerkleRoot l' → l=l') :
    (∀ s : K.Schedule b, (K.commitParallel b w s : CallM P ε (SealedBlock P)) db=K.commit w b db) ↔
      ((∃ root db', (K.computeNewStateRoot w b : CallM P ε Felt) db=.ok root db') →
        ∀ x∈K.eventHashes b, ∀ y∈K.eventHashes b, x=y) := by
  simp only [commitParallel_eq,commit_eq,bind,EStateM.bind]
  cases hr : (K.computeNewStateRoot w b : CallM P ε Felt) db with
  | error e db' => simp
  | ok root db' =>
    constructor
    · intro h _
      refine (forall_perm_eq_iff _).mp fun l' hp => ?_
      have heq := h (.inTurn l' hp)
      simp only [pure,EStateM.pure,EStateM.Result.ok.injEq,and_true] at heq
      exact hroot l' _ hp (List.Perm.refl _)
        (congrArg (fun block => block.header.eventsCommitment) heq)
    · intro h s
      have hevents : s.events=K.eventHashes b :=
        (forall_perm_eq_iff _).mpr (h ⟨root,db',rfl⟩) s.events s.events_perm
      simp only [Schedule.all,hevents,Schedule.inTurn]

/-- Receipts that are their events, and a root that shows the first value, for concrete blocks. -/
def listedPayloads : Payloads := ⟨Unit,Unit,id,List Event,Unit,Unit⟩

def listedBackend : Backend listedPayloads where
  hashes := { plainBackend.hashes with poseidonArray := fun xs => xs.headD 0 }
  tries := plainBackend.tries
  codecs := plainBackend.codecs
  computeMerkleRoot xs := xs.headD 0
  Trace := Unit
  typedExecutionInfo _ _ := ()
  events receipt := receipt
  receiptHash r := r.txHash

def noTries : TrieWriter listedPayloads := ⟨fun _ _ => pure 0,fun _ _ => pure 0⟩

def listedBlock (txs : List Felt) : UncommittedBlock listedPayloads where
  header := partialHeader ⟨1,0,⟨1,1⟩,⟨1,1⟩,⟨1,1⟩,0⟩ 0
  transactions := txs.map fun tx => ⟨tx,()⟩
  receipts := txs.map fun tx => ⟨tx,[⟨9,[],[]⟩]⟩
  stateUpdates := {}

/-- One transaction with three events of one hash. -/
def repeatedEvents : UncommittedBlock listedPayloads :=
  { listedBlock [5] with receipts := [⟨5,List.replicate 3 ⟨9,[],[]⟩⟩] }

theorem equal_events_commits_agree :
    listedBackend.eventHashes repeatedEvents=List.replicate 3 5 ∧
    ∀ s : listedBackend.Schedule repeatedEvents,
      (listedBackend.commitParallel repeatedEvents noTries s :
        CallM listedPayloads Unit (SealedBlock listedPayloads)) Db.empty=
      listedBackend.commit noTries repeatedEvents Db.empty := by
  have hashes : listedBackend.eventHashes repeatedEvents=List.replicate 3 5 := rfl
  refine ⟨hashes,(commit_parallel_agrees_iff listedBackend repeatedEvents noTries Db.empty
    ?_).mpr ?_⟩
  · intro l l' hl hl' _
    rw [hashes] at hl hl'
    rw [List.perm_replicate.mp hl,List.perm_replicate.mp hl']
  · intro _ x hx y hy
    rw [hashes] at hx hy
    rw [List.eq_of_mem_replicate hx,List.eq_of_mem_replicate hy]

/-- The second event comes out of the bridge first. -/
def swapped : listedBackend.Schedule (listedBlock [5,6]) := .inTurn [6,5] (List.Perm.swap 5 6 [])

theorem swapped_events_commit_differently :
    (∃ block, (listedBackend.commitParallel (listedBlock [5,6]) noTries swapped :
        CallM listedPayloads Unit (SealedBlock listedPayloads)) Db.empty=.ok block Db.empty ∧
      block.header.eventsCommitment=6) ∧
    ∃ block, (listedBackend.commit noTries (listedBlock [5,6]) :
        CallM listedPayloads Unit (SealedBlock listedPayloads)) Db.empty=.ok block Db.empty ∧
      block.header.eventsCommitment=5 :=
  ⟨⟨_,rfl,rfl⟩,⟨_,rfl,rfl⟩⟩

end Backend
end Katana
