import Katana.Base.Transition

/-! The messaging service (messaging/src/service.rs) and the ranges its messengers gather
(gather_messages of messaging/src/ethereum.rs and starknet.rs). The cursor of the service is
moved by what the messenger returns. -/
namespace Katana.Messaging
open Transition
variable {Log Tx : Type}

def u64Size : Nat := 2^64

def u64Add (a b : Nat) : Nat := (a+b)%u64Size

def maxBlock : Nat := 200

/-- What the settlement chain answers to one gathering; none is an error of the provider. -/
structure Answers (Log : Type) where
  blockNumber : Option Nat
  logs : Nat → Nat → Option (List Log)

/-- How a gathering ends. A panic ends the task. -/
inductive Gathered (Tx : Type) where
  | ok (lastBlock : Nat) (txs : List Tx)
  | err
  | panic
  deriving DecidableEq, Repr

/-- What a log converts to. A log that cannot be decoded, or whose nonce or fee is too large, is
a panic. -/
inductive Converted (Tx : Type) where
  | ok (tx : Tx)
  | err
  | panic
  deriving DecidableEq, Repr

def Converted.toOption : Converted Tx → Option Tx
  | .ok tx => some tx
  | _ => none

def convertAll (convert : Log → Converted Tx) : List Log → Option (List Tx)
  | [] => some []
  | log::logs =>
    match convert log with
    | .ok tx => (convertAll convert logs).map (tx :: ·)
    | .err => convertAll convert logs
    | .panic => none

/-- The last block of a gathering, with its first block counted as one. -/
def toBlock (fromBlock maxBlocks latest : Nat) : Nat :=
  if u64Add (u64Add fromBlock maxBlocks) 1<latest then u64Add fromBlock maxBlocks else latest

inductive MessengerMode where
  | ethereum
  | starknet
  deriving DecidableEq, Repr

section
variable (convert : Log → Converted Tx) (fromBlock maxBlocks : Nat) (answers : Answers Log)

def finish (lastBlock : Nat) (logs : List Log) : Gathered Tx :=
  match convertAll convert logs with
  | none => .panic
  | some txs => .ok lastBlock txs

def EthereumMessaging.gatherMessages : Gathered Tx :=
  match answers.blockNumber with
  | none => .err
  | some latest =>
    match answers.logs fromBlock (toBlock fromBlock maxBlocks latest) with
    | none => .err
    | some logs => finish convert (toBlock fromBlock maxBlocks latest) logs

/-- Nothing is asked when the chain is behind the first block, but its height is returned. -/
def StarknetMessaging.gatherMessages : Gathered Tx :=
  match answers.blockNumber with
  | none => .err
  | some latest =>
    if latest<fromBlock then .ok latest []
    else
      match answers.logs fromBlock (toBlock fromBlock maxBlocks latest) with
      | none => .panic
      | some logs => finish convert (toBlock fromBlock maxBlocks latest) logs

def MessengerMode.gatherMessages : MessengerMode → Gathered Tx
  | .ethereum => EthereumMessaging.gatherMessages convert fromBlock maxBlock answers
  | .starknet => StarknetMessaging.gatherMessages convert fromBlock maxBlock answers

end

/-- The service, with the blocks of the ranges it gathered and the transactions it gave to the
pool. The future keeps the block it was started from. -/
structure MessagingService (Tx : Type) where
  gatherFromBlock : Nat
  msgGatherFut : Option Nat := none
  panicked : Bool := false
  blocks : List Nat := []
  txs : List Tx := []

/-- One poll: if the interval ticks, and what the gathering is answered if it comes to its end. -/
structure Poll (Log : Type) where
  tick : Bool
  answers : Option (Answers Log)

def blockRange (first last : Nat) : List Nat := List.range' first (last+1-first)

namespace MessagingService

def spawn (tick : Bool) (s : MessagingService Tx) : MessagingService Tx :=
  if tick ∧ s.msgGatherFut=none then { s with msgGatherFut := some s.gatherFromBlock } else s

def pollNext (convert : Log → Converted Tx) (mode : MessengerMode) (poll : Poll Log)
    (s : MessagingService Tx) : MessagingService Tx :=
  if s.panicked then s
  else
    let s := s.spawn poll.tick
    match s.msgGatherFut,poll.answers with
    | none,_ => s
    | some _,none => s
    | some fromBlock,some answers =>
      match mode.gatherMessages convert fromBlock answers with
      | .ok lastBlock txs =>
        { s with
          msgGatherFut := none
          gatherFromBlock := u64Add lastBlock 1
          blocks := s.blocks++blockRange fromBlock lastBlock
          txs := s.txs++txs }
      | .err => { s with msgGatherFut := none }
      | .panic => { s with msgGatherFut := none, panicked := true }

end MessagingService

/-- The settlement chain has fixed messages in each block, and answers a range with them. -/
def Answers.Faithful (chain : Nat → List Log) (answers : Answers Log) : Prop :=
  (∀ latest, answers.blockNumber=some latest → latest<u64Size) ∧
  ∀ first last logs, answers.logs first last=some logs →
    logs=(blockRange first last).flatMap chain

def Step (convert : Log → Converted Tx) (mode : MessengerMode) (chain : Nat → List Log)
    (s : MessagingService Tx) (poll : Poll Log) (t : MessagingService Tx) : Prop :=
  (∀ answers, poll.answers=some answers → answers.Faithful chain) ∧
    t=s.pollNext convert mode poll

/-- The chain has reached the block before the first one of a gathering, far from the end of u64. -/
def Reached (fromBlock latest : Nat) : Prop :=
  fromBlock ≤ latest+1 ∧ fromBlock+maxBlock+1<u64Size ∧ latest+1<u64Size

instance (fromBlock latest : Nat) : Decidable (Reached fromBlock latest) :=
  inferInstanceAs (Decidable (_ ∧ _ ∧ _))

/-- The height that a gathering is told has reached the block before its first one. -/
def HeightReached (s : MessagingService Tx) (poll : Poll Log) : Prop :=
  ∀ fromBlock answers latest, (s.spawn poll.tick).msgGatherFut=some fromBlock →
    poll.answers=some answers → answers.blockNumber=some latest → Reached fromBlock latest

section Gather
variable {convert : Log → Converted Tx} {mode : MessengerMode} {chain : Nat → List Log}
  {answers : Answers Log} {fromBlock latest lastBlock : Nat} {txs : List Tx}

theorem u64Add_of_lt {a b : Nat} (h : a+b<u64Size) : u64Add a b=a+b := Nat.mod_eq_of_lt h

theorem toBlock_reached (h : Reached fromBlock latest) :
    fromBlock ≤ toBlock fromBlock maxBlock latest+1 ∧
      toBlock fromBlock maxBlock latest+1<u64Size := by
  obtain ⟨hle,hfrom,hlatest⟩ := h
  have hadd : u64Add fromBlock maxBlock=fromBlock+maxBlock := u64Add_of_lt (by omega)
  rw [toBlock,hadd,u64Add_of_lt hfrom]
  split
  · exact ⟨by omega,hfrom⟩
  · exact ⟨hle,hlatest⟩

def rangeTxs (convert : Log → Converted Tx) (chain : Nat → List Log) (blocks : List Nat) : List Tx :=
  blocks.flatMap (fun b => (chain b).filterMap (Converted.toOption ∘ convert))

theorem convertAll_eq_some {logs : List Log} (h : convertAll convert logs=some txs) :
    txs=logs.filterMap (Converted.toOption ∘ convert) := by
  induction logs generalizing txs with
  | nil =>
    cases h
    rfl
  | cons log logs ih =>
    rw [convertAll] at h
    rw [List.filterMap_cons,Function.comp_apply]
    cases hc : convert log with
    | ok tx =>
      rw [hc] at h
      obtain ⟨rest,hrest,rfl⟩ := Option.map_eq_some_iff.mp h
      rw [ih hrest]
      rfl
    | err =>
      rw [hc] at h
      exact ih h
    | panic =>
      rw [hc] at h
      cases h

theorem finish_ok {first last lastBlock : Nat} {logs : List Log} (hf : answers.Faithful chain)
    (hl : answers.logs first last=some logs) (h : finish convert last logs=.ok lastBlock txs) :
    lastBlock=last ∧ txs=rangeTxs convert chain (blockRange first last) := by
  rw [finish] at h
  cases hc : convertAll convert logs with
  | none =>
    rw [hc] at h
    cases h
  | some txs' =>
    rw [hc] at h
    cases h
    rw [convertAll_eq_some hc,hf.2 first last logs hl,rangeTxs,List.filterMap_flatMap]
    exact ⟨rfl,rfl⟩

section
variable (hf : answers.Faithful chain)
  (hr : ∀ latest, answers.blockNumber=some latest → Reached fromBlock latest)
include hf hr

theorem EthereumMessaging.gatherMessages_ok
    (h : EthereumMessaging.gatherMessages convert fromBlock maxBlock answers=.ok lastBlock txs) :
    fromBlock ≤ lastBlock+1 ∧ lastBlock+1<u64Size ∧
      txs=rangeTxs convert chain (blockRange fromBlock lastBlock) := by
  rw [gatherMessages] at h
  cases hn : answers.blockNumber with
  | none =>
    rw [hn] at h
    cases h
  | some latest =>
    rw [hn] at h
    obtain ⟨hle,hlt⟩ := toBlock_reached (hr latest hn)
    dsimp only at h
    cases hl : answers.logs fromBlock (toBlock fromBlock maxBlock latest) with
    | none =>
      rw [hl] at h
      cases h
    | some logs =>
      rw [hl] at h
      obtain ⟨rfl,htxs⟩ := finish_ok hf hl h
      exact ⟨hle,hlt,htxs⟩

theorem StarknetMessaging.gatherMessages_ok
    (h : StarknetMessaging.gatherMessages convert fromBlock maxBlock answers=.ok lastBlock txs) :
    fromBlock ≤ lastBlock+1 ∧ lastBlock+1<u64Size ∧
      txs=rangeTxs convert chain (blockRange fromBlock lastBlock) := by
  rw [gatherMessages] at h
  cases hn : answers.blockNumber with
  | none =>
    rw [hn] at h
    cases h
  | some latest =>
    rw [hn] at h
    dsimp only at h
    by_cases hlt : latest<fromBlock
    · rw [if_pos hlt] at h
      obtain ⟨hle,-,hsize⟩ := hr latest hn
      have hempty : blockRange fromBlock latest=[] := by
        rw [blockRange,Nat.sub_eq_zero_of_le hlt]
        rfl
      cases h
      rw [hempty]
      exact ⟨hle,hsize,rfl⟩
    · rw [if_neg hlt] at h
      obtain ⟨hle,hlt⟩ := toBlock_reached (hr latest hn)
      cases hl : answers.logs fromBlock (toBlock fromBlock maxBlock latest) with
      | none =>
        rw [hl] at h
        cases h
      | some logs =>
        rw [hl] at h
        obtain ⟨rfl,htxs⟩ := finish_ok hf hl h
        exact ⟨hle,hlt,htxs⟩

theorem MessengerMode.gatherMessages_ok
    (h : mode.gatherMessages convert fromBlock answers=.ok lastBlock txs) :
    fromBlock ≤ lastBlock+1 ∧ lastBlock+1<u64Size ∧
      txs=rangeTxs convert chain (blockRange fromBlock lastBlock) := by
  cases mode with
  | ethereum => exact EthereumMessaging.gatherMessages_ok hf hr h
  | starknet => exact StarknetMessaging.gatherMessages_ok hf hr h

end

end Gather

section Cursor
variable {convert : Log → Converted Tx} {mode : MessengerMode} {chain : Nat → List Log}
  {first : Nat} {s t : MessagingService Tx} {poll : Poll Log}

/-- Everything from the first block up to the cursor was gathered, once and in order. -/
structure UpToCursor (convert : Log → Converted Tx) (chain : Nat → List Log) (first : Nat)
    (s : MessagingService Tx) : Prop where
  future : ∀ fromBlock, s.msgGatherFut=some fromBlock → fromBlock=s.gatherFromBlock
  cursor : first ≤ s.gatherFromBlock
  blocks : s.blocks=List.range' first (s.gatherFromBlock-first)
  txs : s.txs=rangeTxs convert chain s.blocks

theorem UpToCursor.spawn (h : UpToCursor convert chain first s) (tick : Bool) :
    UpToCursor convert chain first (s.spawn tick) := by
  unfold MessagingService.spawn
  split
  · exact ⟨fun fromBlock he => (Option.some.inj he).symm,h.cursor,h.blocks,h.txs⟩
  · exact h

theorem blocks_extend {cursor lastBlock : Nat} (hfirst : first ≤ cursor)
    (hlast : cursor ≤ lastBlock+1) :
    List.range' first (cursor-first)++blockRange cursor lastBlock=
      List.range' first (lastBlock+1-first) := by
  have hstart : cursor=first+1*(cursor-first) := by omega
  rw [blockRange]
  nth_rewrite 2 [hstart]
  rw [List.range'_append]
  congr 1
  omega

theorem UpToCursor.step (h : UpToCursor convert chain first s) (hr : HeightReached s poll)
    (hs : Step convert mode chain s poll t) : UpToCursor convert chain first t := by
  obtain ⟨hf,rfl⟩ := hs
  rw [MessagingService.pollNext]
  split
  · exact h
  · have hspawn := h.spawn poll.tick
    rw [HeightReached] at hr
    generalize s.spawn poll.tick=u at hspawn hr
    dsimp only
    cases hfut : u.msgGatherFut with
    | none => exact hspawn
    | some fromBlock =>
      cases ha : poll.answers with
      | none => exact hspawn
      | some answers =>
        dsimp only
        have hfrom := hspawn.future fromBlock hfut
        have hr' : ∀ latest, answers.blockNumber=some latest → Reached fromBlock latest :=
          fun latest => hr fromBlock answers latest hfut ha
        cases hg : mode.gatherMessages convert fromBlock answers with
        | err | panic => exact ⟨by simp,hspawn.cursor,hspawn.blocks,hspawn.txs⟩
        | ok lastBlock txs =>
          obtain ⟨hle,hlt,htxs⟩ := MessengerMode.gatherMessages_ok (hf answers ha) hr' hg
          have hfirst := hspawn.cursor
          rw [← hfrom] at hfirst
          have hnext : u64Add lastBlock 1=lastBlock+1 := u64Add_of_lt hlt
          refine ⟨by simp,?_,?_,?_⟩
          · change first ≤ u64Add lastBlock 1
            omega
          · change u.blocks++blockRange fromBlock lastBlock=
              List.range' first (u64Add lastBlock 1-first)
            rw [hspawn.blocks,← hfrom,hnext,blocks_extend hfirst hle]
          · change u.txs++txs=rangeTxs convert chain (u.blocks++blockRange fromBlock lastBlock)
            rw [hspawn.txs,htxs,rangeTxs,rangeTxs,rangeTxs,List.flatMap_append]

end Cursor

/-- The blocks gathered so far are those from the first one on, each once and in order, and
their messages were given to the pool. -/
def GatheredInOrder (convert : Log → Converted Tx) (chain : Nat → List Log) (first : Nat)
    (s : MessagingService Tx) : Prop :=
  ∃ n, s.blocks=List.range' first n ∧ s.txs=rangeTxs convert chain (List.range' first n)

section Report
variable (convert : Log → Converted Tx) (mode : MessengerMode) (chain : Nat → List Log)

/-- A tick whose gathering is told a height and answered from the chain. -/
def report (height : Nat) : Poll Log where
  tick := true
  answers := some
    { blockNumber := some height
      logs := fun first last => some ((blockRange first last).flatMap chain) }

theorem report_step {height : Nat} (hlt : height<u64Size) (s : MessagingService Tx) :
    Step convert mode chain s (report chain height)
      (s.pollNext convert mode (report chain height)) := by
  refine ⟨?_,rfl⟩
  intro answers ha
  cases ha
  refine ⟨?_,?_⟩
  · intro latest hn
    cases hn
    exact hlt
  · intro first last logs hl
    exact (Option.some.inj hl).symm

theorem report_reached {height : Nat} {s : MessagingService Tx} (hf : s.msgGatherFut=none)
    (hr : Reached s.gatherFromBlock height) : HeightReached s (report chain height) := by
  intro fromBlock answers latest hfut ha hn
  rw [MessagingService.spawn,if_pos ⟨rfl,hf⟩] at hfut
  cases hfut
  cases ha
  cases hn
  exact hr

end Report

/-- In every run in which the reported heights have reached the cursor, with either messenger. -/
theorem gathered_in_order (convert : Log → Converted Tx) (mode : MessengerMode)
    (chain : Nat → List Log) (first : Nat) {polls : List (Poll Log)} {t : MessagingService Tx}
    (h : Run (Restrict HeightReached (Step convert mode chain)) { gatherFromBlock := first }
      polls t) : GatheredInOrder convert chain first t := by
  have hstart : UpToCursor convert chain first { gatherFromBlock := first } := by
    refine ⟨by simp,Nat.le_refl first,?_,rfl⟩
    simp
  have hend := h.invariant (I := UpToCursor convert chain first)
    (fun _ _ _ hi hs => hi.step hs.1 hs.2) hstart
  refine ⟨_,hend.blocks,?_⟩
  rw [hend.txs,hend.blocks]

/-- A chain with one message in each block, its number. -/
def numbered (block : Nat) : List Nat := [block]

theorem gathered_from_behind :
    ∃ t : MessagingService Nat,
      Run (Restrict HeightReached (Step .ok .starknet numbered)) { gatherFromBlock := 100 }
        [report numbered 99,report numbered 103,report numbered 104] t ∧
      t.blocks=[100,101,102,103,104] ∧ GatheredInOrder .ok numbered 100 t := by
  have hrun : Run (Restrict HeightReached (Step Converted.ok .starknet numbered))
      { gatherFromBlock := 100 } [report numbered 99,report numbered 103,report numbered 104]
      { gatherFromBlock := 105, blocks := [100,101,102,103,104], txs := [100,101,102,103,104] } :=
    .snoc (.snoc (.snoc (.nil _)
      ⟨report_reached numbered rfl (by decide),report_step _ _ _ (by decide) _⟩)
      ⟨report_reached numbered rfl (by decide),report_step _ _ _ (by decide) _⟩)
      ⟨report_reached numbered rfl (by decide),report_step _ _ _ (by decide) _⟩
  exact ⟨_,hrun,rfl,gathered_in_order .ok .starknet numbered 100 hrun⟩

/-- A chain at height 50, then 60, when messages are wanted from block 100 on. -/
def GatheredBelow (mode : MessengerMode) : Prop :=
  ∃ t : MessagingService Nat,
    Run (Step .ok mode numbered) { gatherFromBlock := 100 }
      [report numbered 50,report numbered 60] t ∧
    t.blocks=List.range' 51 10 ∧ ¬GatheredInOrder .ok numbered 100 t

theorem gatheredBelow (mode : MessengerMode) : GatheredBelow mode := by
  have hblocks : ((({ gatherFromBlock := 100 } : MessagingService Nat).pollNext .ok mode
      (report numbered 50)).pollNext .ok mode (report numbered 60)).blocks=List.range' 51 10 := by
    cases mode with
    | ethereum | starknet => decide
  refine ⟨_,.snoc (.snoc (.nil _) (report_step _ _ _ (by decide) _))
    (report_step _ _ _ (by decide) _),hblocks,?_⟩
  intro h
  obtain ⟨n,hn,-⟩ := h
  rw [hblocks] at hn
  cases n with
  | zero => exact absurd hn (by decide)
  | succ n => exact absurd (List.cons.inj hn).1 (by decide)

theorem gathered_below_from_block : GatheredBelow .ethereum ∧ GatheredBelow .starknet :=
  ⟨gatheredBelow .ethereum,gatheredBelow .starknet⟩

end Katana.Messaging
