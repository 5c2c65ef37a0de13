import Katana.Service.Executor

/-! A mining round of the instant block producer (InstantBlockProducer::do_mine of
core/service/block_producer.rs): which of its transactions are in the block that it stores. -/
namespace Katana.Service

/-- A do_mine that does not return a block: with an error or by a panic. -/
inductive MiningFailure where
  | error (e : BlockProductionError)
  | panicked
  deriving DecidableEq, Repr

/-- The header of the block to execute; its other fields are those of the block environment. -/
structure PartialHeader (BlockEnv : Type) where
  parentHash : Felt
  blockEnv : BlockEnv

/-- What the provider and the backend answer in one do_mine, before the block is stored and
(the fields named mined) after. -/
structure MiningRound (State BlockEnv : Type) where
  latestNumber : Except ProviderError Nat
  blockEnvAt : Nat → Except ProviderError (Option BlockEnv)
  updateBlockEnv : BlockEnv → BlockEnv
  latestHash : Except ProviderError Felt
  latest : Except ProviderError State
  doMineBlock : Except BlockProductionError Unit
  minedLatest : Except ProviderError State
  minedLatestNumber : Except ProviderError Nat
  minedBlockEnvAt : Nat → Except ProviderError (Option BlockEnv)

namespace MiningRound
variable {State BlockEnv : Type}

def read {α : Type} : Except ProviderError α → Except MiningFailure α
  | .ok a => .ok a
  | .error e => .error (.error (.provider e))

def unwrap {α : Type} : Option α → Except MiningFailure α
  | some a => .ok a
  | none => .error .panicked

def prepare (round : MiningRound State BlockEnv) :
    Except MiningFailure (PartialHeader BlockEnv × State) := do
  let latestNum ← read round.latestNumber
  let blockEnv ← unwrap (← read (round.blockEnvAt latestNum))
  let parentHash ← read round.latestHash
  let latestState ← read round.latest
  return (⟨parentHash,round.updateBlockEnv blockEnv⟩,latestState)

def updateValidator (round : MiningRound State BlockEnv) : Except MiningFailure Unit := do
  let _ ← read round.minedLatest
  let latestNum ← read round.minedLatestNumber
  let _ ← unwrap (← read (round.minedBlockEnvAt latestNum))

end MiningRound

section
variable {State BlockEnv Tx Receipt : Type}
variable (B : Blockifier State (PartialHeader BlockEnv) Tx Receipt)

/-- An execution output, as far as a block is made of it. -/
abbrev ExecutionOutput (Tx Receipt : Type) := List (Tx × ExecutionResult Receipt)

variable (round : MiningRound State BlockEnv)

def executeRound (transactions : List Tx) : Except MiningFailure (ExecutionOutput Tx Receipt) :=
  match round.prepare with
  | .error e => .error e
  | .ok (header,latestState) =>
    match StarknetVMProcessor.executeBlock B header transactions { state := latestState } with
    | (executor,.ok ()) => .ok executor.takeExecutionOutput.2
    | (_,.error e) => .error (.error (.transactionExecutionError e))

/-- The output of the block that is stored, if one is, and how do_mine returns. -/
def doMine (transactions : List (List Tx)) :
    Option (ExecutionOutput Tx Receipt) × Except MiningFailure Unit :=
  match executeRound B round transactions.flatten with
  | .error e => (none,.error e)
  | .ok output =>
    match round.doMineBlock with
    | .error e => (none,.error (.error e))
    | .ok () => (some output,round.updateValidator)

/-- The transactions of a round that are not in the block it stores. -/
def unmined (transactions : List (List Tx)) : List Tx :=
  transactions.flatten.drop ((doMine B round transactions).1.getD []).length

/-- What blockifier reports for the transactions of a round that gets to execute them. -/
def MiningRound.outcome (transactions : List Tx) : Option ExecuteOutcome :=
  match round.prepare with
  | .ok (header,latestState) =>
    some (B.outcome (B.fillBlockEnvFromHeader header latestState) transactions)
  | .error _ => none

variable {txs : List Tx} {outcome : ExecuteOutcome}

section
variable {B} {round : MiningRound State BlockEnv}

theorem executeRound_ok (h : round.outcome B txs=some outcome) (he : outcome.Ends) :
    ∃ output, executeRound B round txs=.ok output ∧ output.map Prod.fst=outcome.executed txs := by
  unfold MiningRound.outcome at h
  unfold executeRound
  cases hp : round.prepare with
  | error e => simp [hp] at h
  | ok p =>
    obtain ⟨header,state⟩ := p
    simp only [hp,Option.some.injEq] at h
    subst h
    have hok := StarknetVMProcessor.executeBlock_ok (x := { state := state }) he
    have htx := StarknetVMProcessor.executeBlock_transactions (B := B) header txs
      { state := state }
    refine ⟨_,?_,htx⟩
    simp only
    rw [← Prod.mk.eta (p := StarknetVMProcessor.executeBlock B header txs { state := state }),hok]
    rfl

theorem executeRound_error (h : ∀ outcome, round.outcome B txs=some outcome → ¬outcome.Ends) :
    ∃ e, executeRound B round txs=.error e := by
  unfold MiningRound.outcome at h
  unfold executeRound
  cases hp : round.prepare with
  | error e => exact ⟨e,rfl⟩
  | ok p =>
    obtain ⟨header,state⟩ := p
    simp only [hp,Option.some.injEq,forall_eq'] at h
    obtain ⟨e,he⟩ := StarknetVMProcessor.executeBlock_error (x := { state := state }) h
    refine ⟨.error (.transactionExecutionError e),?_⟩
    simp only
    rw [← Prod.mk.eta (p := StarknetVMProcessor.executeBlock B header txs { state := state }),he]

end

variable (round : MiningRound State BlockEnv) (transactions : List (List Tx))

theorem doMine_cases :
    (∃ outcome output, round.outcome B transactions.flatten=some outcome ∧ outcome.Ends ∧
        round.doMineBlock=.ok () ∧
        doMine B round transactions=(some output,round.updateValidator) ∧
        output.map Prod.fst=outcome.executed transactions.flatten) ∨
      (∀ outcome, round.outcome B transactions.flatten=some outcome → outcome.Ends →
        round.doMineBlock≠.ok ()) ∧ ∃ e, doMine B round transactions=(none,.error e) := by
  by_cases h : ∃ outcome, round.outcome B transactions.flatten=some outcome ∧ outcome.Ends
  · obtain ⟨outcome,ho,he⟩ := h
    obtain ⟨output,hx,ht⟩ := executeRound_ok ho he
    cases hd : round.doMineBlock with
    | ok u => exact Or.inl ⟨outcome,output,ho,he,rfl,by simp only [doMine,hx,hd],ht⟩
    | error e => exact Or.inr ⟨fun _ _ _ => nofun,.error e,by simp only [doMine,hx,hd]⟩
  · obtain ⟨e,hx⟩ := executeRound_error fun outcome ho hends => h ⟨outcome,ho,hends⟩
    exact Or.inr ⟨fun outcome ho he => absurd ⟨outcome,ho,he⟩ h,e,by simp only [doMine,hx]⟩

theorem mined_append_unmined :
    ((doMine B round transactions).1.getD []).map Prod.fst++unmined B round transactions=
      transactions.flatten := by
  unfold unmined
  cases doMine_cases B round transactions with
  | inl h =>
    obtain ⟨outcome,output,-,-,-,hm,ht⟩ := h
    have hlen : output.length=(outcome.executed transactions.flatten).length := by
      rw [← ht,List.length_map]
    simp only [hm,Option.getD_some,ht,hlen]
    exact outcome.executed_append_drop _
  | inr h =>
    obtain ⟨-,e,hm⟩ := h
    rw [hm]
    rfl

theorem MiningRound.outcome_possible {round : MiningRound State BlockEnv}
    (h : round.outcome B txs=some outcome) : outcome.Possible txs := by
  unfold MiningRound.outcome at h
  split at h
  · rw [← Option.some.inj h]
    exact B.outcome_possible _ _
  · cases h

def MinesAll : Prop :=
  transactions.flatten=[] ∨
    round.outcome B transactions.flatten=some .all ∧ round.doMineBlock=.ok ()

theorem unmined_eq_nil_iff : unmined B round transactions=[] ↔ MinesAll B round transactions := by
  have hsplit := mined_append_unmined B round transactions
  unfold MinesAll
  cases doMine_cases B round transactions with
  | inl h =>
    obtain ⟨outcome,output,ho,he,hd,hm,ht⟩ := h
    rw [hm,Option.getD_some,ht] at hsplit
    rw [ho]
    cases outcome with
    | all => simpa [hd,ExecuteOutcome.executed] using hsplit
    | full n =>
      have hn : n<transactions.flatten.length := MiningRound.outcome_possible B ho
      have hlen := congrArg List.length hsplit
      simp only [ExecuteOutcome.executed,List.length_append,List.length_take] at hlen
      constructor
      · intro h
        simp only [h,List.length_nil] at hlen
        omega
      · intro h
        cases h with
        | inl h => simp [h] at hn
        | inr h => simp at h
    | error n | panic n => exact he.elim
  | inr h =>
    obtain ⟨hf,e,hm⟩ := h
    rw [hm,Option.getD_none,List.map_nil,List.nil_append] at hsplit
    rw [hsplit]
    constructor
    · exact Or.inl
    · intro h
      cases h with
      | inl h => exact h
      | inr h => exact absurd h.2 (hf _ h.1 trivial)

/-- The transactions of a round of poll_next of which its caller learns nothing. -/
def dropped : List Tx :=
  match (doMine B round transactions).2 with
  | .ok () => unmined B round transactions
  | .error _ => []

/-- A round that succeeds does not fill the block before its last transaction. -/
def NotCut : Prop :=
  ∀ n, round.outcome B transactions.flatten=some (.full n) → round.doMineBlock=.ok () →
    round.updateValidator≠.ok ()

theorem dropped_eq_nil_iff : dropped B round transactions=[] ↔ NotCut B round transactions := by
  unfold dropped NotCut
  cases doMine_cases B round transactions with
  | inl h =>
    obtain ⟨outcome,output,ho,he,hd,hm,-⟩ := h
    rw [hm]
    cases hu : round.updateValidator with
    | error e => simp
    | ok u =>
      simp only [unmined_eq_nil_iff,MinesAll,ho,hd]
      cases outcome with
      | all => simp
      | full n =>
        have hn : n<transactions.flatten.length := MiningRound.outcome_possible B ho
        have hne : transactions.flatten≠[] := List.ne_nil_of_length_pos (Nat.zero_lt_of_lt hn)
        simp [hne]
      | error n | panic n => exact he.elim
  | inr h =>
    obtain ⟨hf,e,hm⟩ := h
    rw [hm]
    simp only [true_iff]
    intro n ho hd
    exact absurd hd (hf _ ho trivial)

end

end Katana.Service
