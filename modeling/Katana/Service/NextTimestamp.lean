import Katana.Core.Timestamp
import Katana.Executor.BlockEnv

/-! Which block gets a timestamp that was set (set_next_block_timestamp of rpc/dev.rs). It is used
by the next update_block_env: of a do_mine of the instant producer, of an executor that the
interval producer creates, or of block_env_at for the pending block (rpc/starknet/mod.rs). -/
namespace Katana.Service
open Overflow (Build)
open Transition
variable {Tx : Type}

/-- The instant producer with the environment of the do_mine that runs, and the interval producer
with its executor and whether a do_mine of that executor has ended. -/
inductive Producer (Tx : Type) where
  | instant (queued : List (List Tx)) (blockMining : Option BlockEnv)
  | interval (queued : List (List Tx)) (executor : BlockEnv) (transactions : List Tx) (ended : Bool)
  deriving DecidableEq, Repr

/-- The headers are those of the stored blocks, as block_env_at answers them. -/
structure Sequencer (Tx : Type) where
  generator : BlockContextGenerator := {}
  headers : List BlockEnv
  producer : Producer Tx
  deriving DecidableEq, Repr

inductive SequencerAction (Tx : Type) where
  | submit (transactions : List Tx)
  /-- The executor of the interval producer executes some of what is queued. -/
  | execute (n : Nat)
  /-- The environment of a do_mine or of a new executor is made. -/
  | openBlock (now : BitVec 64) (l1GasPrices l1DataGasPrices : GasPrice)
  | mine
  | fail
  | pendingBlockEnv (now : BitVec 64) (l1GasPrices l1DataGasPrices : GasPrice)
  | setNextBlockTimestamp (timestamp : BitVec 64)
  | increaseNextBlockTimestamp (offset : BitVec 64)
  deriving DecidableEq, Repr

namespace Producer

def queue (transactions : List Tx) : Producer Tx → Producer Tx
  | .instant queued blockMining => .instant (queued++[transactions]) blockMining
  | .interval queued executor executed ended =>
    .interval (queued++[transactions]) executor executed ended

def hasPendingTransactions : Producer Tx → Bool
  | .instant _ _ => false
  | .interval _ _ transactions _ => !transactions.isEmpty

def blockEnv : Producer Tx → Option BlockEnv
  | .instant _ blockMining => blockMining
  | .interval _ executor _ ended => if ended then none else some executor

end Producer

namespace Sequencer

/-- block_env_at of the latest block, then update_block_env. -/
def nextBlockEnv (build : Build) (now : BitVec 64) (l1GasPrices l1DataGasPrices : GasPrice)
    (s : Sequencer Tx) : Option (BlockEnv × BlockContextGenerator) := do
  let latest ← s.headers.getLast?
  s.generator.updateBlockEnv build now l1GasPrices l1DataGasPrices latest

def step (build : Build) (s : Sequencer Tx) : SequencerAction Tx → Option (Sequencer Tx)
  | .submit transactions => some ⟨s.generator,s.headers,s.producer.queue transactions⟩
  | .execute n =>
    match s.producer with
    | .instant _ _ => none
    | .interval queued executor executed ended =>
      let left := queued.flatten.drop n
      some ⟨s.generator,s.headers,.interval (if left.isEmpty then [] else [left]) executor
        (executed++queued.flatten.take n) ended⟩
  | .openBlock now l1GasPrices l1DataGasPrices => do
    let (env,g) ← s.nextBlockEnv build now l1GasPrices l1DataGasPrices
    match s.producer with
    | .instant _ none => some ⟨g,s.headers,.instant [] (some env)⟩
    | .interval queued _ _ true => some ⟨g,s.headers,.interval queued env [] false⟩
    | _ => none
  | .mine =>
    match s.producer with
    | .instant queued (some env) => some ⟨s.generator,s.headers++[env],.instant queued none⟩
    | .interval queued executor _ false =>
      some ⟨s.generator,s.headers++[Executor.converted executor],.interval queued executor [] true⟩
    | _ => none
  -- the transactions were taken, and a new executor follows all the same
  | .fail =>
    match s.producer with
    | .instant queued (some _) => some ⟨s.generator,s.headers,.instant queued none⟩
    | .interval queued executor _ false =>
      some ⟨s.generator,s.headers,.interval queued executor [] true⟩
    | _ => none
  | .pendingBlockEnv now l1GasPrices l1DataGasPrices =>
    match s.producer with
    | .interval _ _ _ _ => some s
    | .instant queued blockMining => do
      let (_,g) ← s.nextBlockEnv build now l1GasPrices l1DataGasPrices
      return ⟨g,s.headers,.instant queued blockMining⟩
  | .setNextBlockTimestamp timestamp => do
    let g ← (s.generator.setNextBlockTimestamp s.producer.hasPendingTransactions
      timestamp).toOption
    return ⟨g,s.headers,s.producer⟩
  | .increaseNextBlockTimestamp offset => do
    let r ← s.generator.increaseNextBlockTimestamp build s.producer.hasPendingTransactions offset
    let g ← r.toOption
    return ⟨g,s.headers,s.producer⟩

/-- Between a timestamp that was set and the next block: nothing but the environment of that block
uses it up, and the do_mine with that environment does not fail. -/
def Undisturbed (s : Sequencer Tx) : SequencerAction Tx → Prop
  | .submit _ | .execute _ | .openBlock _ _ _ | .increaseNextBlockTimestamp _ => True
  | .mine | .fail | .setNextBlockTimestamp _ => False
  | .pendingBlockEnv _ _ _ => s.producer.blockEnv≠none ∨ ∃ q e t b, s.producer=.interval q e t b

/-- The timestamp is set, or the next block has it. -/
def Holds (timestamp : BitVec 64) (s : Sequencer Tx) : Prop :=
  (s.producer.blockEnv=none ∧ s.generator.nextBlockStartTime=timestamp) ∨
    ∃ env, s.producer.blockEnv=some env ∧ env.timestamp=timestamp.toNat

section Steps
variable {build : Build} {s t : Sequencer Tx} {timestamp now : BitVec 64}
    {l1GasPrices l1DataGasPrices : GasPrice}

theorem queue_blockEnv (transactions : List Tx) (producer : Producer Tx) :
    (producer.queue transactions).blockEnv=producer.blockEnv := by
  cases producer <;> rfl

theorem nextBlockEnv_timestamp {env : BlockEnv} {g : BlockContextGenerator} (hne : timestamp≠0)
    (hset : s.generator.nextBlockStartTime=timestamp)
    (h : s.nextBlockEnv build now l1GasPrices l1DataGasPrices=some (env,g)) :
    env.timestamp=timestamp.toNat := by
  obtain ⟨latest,_,h⟩ := Option.bind_eq_some_iff.mp h
  obtain ⟨⟨given,g'⟩,hg,h⟩ := Option.bind_eq_some_iff.mp h
  cases h
  obtain ⟨hzero,_⟩ | ⟨_,rfl,_⟩ := BlockContextGenerator.timestamp_cases hg
  · exact absurd (hset.symm.trans hzero) hne
  · exact congrArg BitVec.toNat hset

theorem holds_openBlock (hne : timestamp≠0) (h : s.Holds timestamp)
    (hs : s.step build (.openBlock now l1GasPrices l1DataGasPrices)=some t) :
    t.Holds timestamp := by
  obtain ⟨⟨env,g⟩,henv,hs⟩ := Option.bind_eq_some_iff.mp hs
  obtain ⟨generator,headers,producer⟩ := s
  have hunused : producer.blockEnv=none → env.timestamp=timestamp.toNat := by
    intro hnone
    obtain ⟨_,hset⟩ | ⟨env',hsome,_⟩ := h
    · exact nextBlockEnv_timestamp hne hset henv
    · exact absurd (hnone.symm.trans hsome) nofun
  cases producer with
  | instant queued blockMining =>
    cases blockMining with
    | none =>
      cases hs
      exact Or.inr ⟨env,rfl,hunused rfl⟩
    | some _ => cases hs
  | interval queued executor executed ended =>
    cases ended with
    | true =>
      cases hs
      exact Or.inr ⟨env,rfl,hunused rfl⟩
    | false => cases hs

theorem holds_pendingBlockEnv (h : s.Holds timestamp)
    (hok : s.Undisturbed (.pendingBlockEnv now l1GasPrices l1DataGasPrices))
    (hs : s.step build (.pendingBlockEnv now l1GasPrices l1DataGasPrices)=some t) :
    t.Holds timestamp := by
  obtain ⟨generator,headers,producer⟩ := s
  cases producer with
  | interval queued executor executed ended =>
    cases hs
    exact h
  | instant queued blockMining =>
    obtain ⟨⟨env,g⟩,_,hs⟩ := Option.bind_eq_some_iff.mp hs
    cases hs
    have hused : blockMining≠none := by
      obtain hused | ⟨_,_,_,_,hinterval⟩ := hok
      · exact hused
      · cases hinterval
    obtain ⟨hnone,_⟩ | hnext := h
    · exact absurd hnone hused
    · exact Or.inr hnext

theorem Holds.step {a : SequencerAction Tx} (hne : timestamp≠0) (h : s.Holds timestamp)
    (hok : s.Undisturbed a) (hs : s.step build a=some t) : t.Holds timestamp := by
  cases a with
  | submit transactions =>
    cases hs
    unfold Holds
    rw [queue_blockEnv]
    exact h
  | execute n =>
    obtain ⟨generator,headers,producer⟩ := s
    cases producer with
    | instant queued blockMining => cases hs
    | interval queued executor executed ended =>
      cases hs
      exact h
  | openBlock now l1 l1Data => exact holds_openBlock hne h hs
  | mine | fail | setNextBlockTimestamp timestamp => exact hok.elim
  | pendingBlockEnv now l1 l1Data => exact holds_pendingBlockEnv h hok hs
  | increaseNextBlockTimestamp offset =>
    obtain ⟨r,hr,hs⟩ := Option.bind_eq_some_iff.mp hs
    cases r with
    | error e => cases hs
    | ok g =>
      cases hs
      obtain rfl := BlockContextGenerator.increaseNextBlockTimestamp_ok hr
      exact h

theorem holds_mine (h : s.Holds timestamp) (hs : s.step build .mine=some t) :
    ∃ env, t.headers=s.headers++[env] ∧ env.timestamp=timestamp.toNat := by
  obtain ⟨generator,headers,producer⟩ := s
  cases producer with
  | instant queued blockMining =>
    cases blockMining with
    | none => cases hs
    | some env =>
      cases hs
      obtain ⟨hnone,_⟩ | ⟨env',henv,ht⟩ := h
      · cases hnone
      · cases henv
        exact ⟨env,rfl,ht⟩
  | interval queued executor executed ended =>
    cases ended with
    | true => cases hs
    | false =>
      cases hs
      obtain ⟨hnone,_⟩ | ⟨env',henv,ht⟩ := h
      · cases hnone
      · cases henv
        exact ⟨Executor.converted executor,rfl,ht⟩

end Steps

/-- A timestamp that is set while the next block has no environment is the one of the next block,
unless a call for the pending block or a block that fails uses it up. -/
theorem set_timestamp_mined {build : Build} {s t u v : Sequencer Tx} {timestamp : BitVec 64}
    {actions : List (SequencerAction Tx)} (hne : timestamp≠0) (hunused : s.producer.blockEnv=none)
    (hset : s.step build (.setNextBlockTimestamp timestamp)=some t)
    (hrun : Run (Restrict Undisturbed (fun s a t => s.step build a=some t)) t actions u)
    (hmine : u.step build .mine=some v) :
    ∃ env, v.headers=u.headers++[env] ∧ env.timestamp=timestamp.toNat := by
  obtain ⟨g,hg,ht⟩ := Option.bind_eq_some_iff.mp hset
  have hstart : t.Holds timestamp := by
    cases ht
    unfold BlockContextGenerator.setNextBlockTimestamp at hg
    split at hg
    · cases hg
    · cases hg
      exact Or.inl ⟨hunused,rfl⟩
  exact holds_mine (hrun.invariant (fun _ _ _ h hs => h.step hne hs.1 hs.2) hstart) hmine

end Sequencer

section Samples
open Sequencer

def genesisBlockEnv : BlockEnv := ⟨0,0,⟨1,1⟩,⟨1,1⟩,⟨1,1⟩,1⟩

def instantSequencer : Sequencer Nat :=
  { headers := [genesisBlockEnv], producer := .instant [] none }

def intervalSequencer : Sequencer Nat :=
  { headers := [genesisBlockEnv], producer := .interval [] ⟨1,50,⟨1,1⟩,⟨1,1⟩,⟨1,1⟩,1⟩ [] false }

def openAt (now : BitVec 64) : SequencerAction Nat := .openBlock now ⟨1,1⟩ ⟨1,1⟩

def timestamps (build : Build) (s : Sequencer Nat) (actions : List (SequencerAction Nat)) :
    Option (List Nat) :=
  (actions.foldlM (step build) s).map (fun t => t.headers.map (fun env => env.timestamp))

/-- The interval producer between two blocks: the executor of the last one has ended. -/
def betweenBlocks : Sequencer Nat :=
  { headers := [genesisBlockEnv], producer := .interval [] genesisBlockEnv [] true }

def MinedAsSet (s : Sequencer Nat) : Prop :=
  ∃ t u v : Sequencer Nat, s.step .checked (.setNextBlockTimestamp 1000)=some t ∧
    Run (Restrict Undisturbed (fun s a t => s.step .checked a=some t)) t
      [.submit [3],openAt 105] u ∧
    u.step .checked .mine=some v ∧ ∃ env, v.headers=u.headers++[env] ∧ env.timestamp=1000

theorem set_timestamp_mined_in_both_modes : MinedAsSet instantSequencer ∧ MinedAsSet betweenBlocks := by
  have hne : (1000 : BitVec 64)≠0 := by decide
  have hrun (t u : Sequencer Nat)
      (hopen : (⟨t.generator,t.headers,t.producer.queue [3]⟩ : Sequencer Nat).step .checked
        (openAt 105)=some u) :
      Run (Restrict Undisturbed (fun (s : Sequencer Nat) a t => s.step .checked a=some t)) t
        [.submit [3],openAt 105] u := .cons ⟨trivial,rfl⟩ (.single ⟨trivial,hopen⟩)
  constructor
  · have h := hrun ⟨⟨0,1000⟩,[genesisBlockEnv],.instant [] none⟩ ⟨⟨895,0⟩,[genesisBlockEnv],
      .instant [] (some ⟨1,1000,⟨1,1⟩,⟨1,1⟩,⟨1,1⟩,1⟩)⟩ (by decide)
    exact ⟨_,_,_,rfl,h,rfl,set_timestamp_mined (s := instantSequencer) hne rfl rfl h rfl⟩
  · have h := hrun ⟨⟨0,1000⟩,[genesisBlockEnv],.interval [] genesisBlockEnv [] true⟩
      ⟨⟨895,0⟩,[genesisBlockEnv],.interval [[3]] ⟨1,1000,⟨1,1⟩,⟨1,1⟩,⟨1,1⟩,1⟩ [] false⟩ (by decide)
    exact ⟨_,_,_,rfl,h,rfl,set_timestamp_mined (s := betweenBlocks) hne rfl rfl h rfl⟩

/-- In instant mode a call for the pending block uses the timestamp up, and so does a do_mine that
fails; in interval mode the next block has the timestamp of its executor, and the block after it
the one that was set. -/
theorem set_timestamp_missed :
    (∀ build, timestamps build instantSequencer [.setNextBlockTimestamp 1000,
      .pendingBlockEnv 100 ⟨1,1⟩ ⟨1,1⟩,.submit [3],openAt 105,.mine]=some [0,1005]) ∧
    (∀ build, timestamps build instantSequencer [.setNextBlockTimestamp 1000,.submit [3],
      openAt 100,.fail,.submit [4],openAt 105,.mine]=some [0,1005]) ∧
    ∀ build, timestamps build intervalSequencer [.setNextBlockTimestamp 1000,.submit [3],
      .execute 1,.mine,openAt 110,.mine]=some [0,50,1000] := by
  refine ⟨?_,?_,?_⟩ <;> intro build <;> cases build <;> decide

end Samples
end Katana.Service
