import Katana.Messaging.Starknet

/-! Failures of a gathering (gather_messages of messaging/src/ethereum.rs and starknet.rs): what
malformed entries and failed requests do to it, and what poll_next of service.rs waits for after
one. The decoding of logs, the parsing of felts and the hash are functions of libraries. -/
namespace Katana.Messaging
open Transition Primitives
variable {Log Tx : Type}

/-- The fields of the event; those of type uint256 are numbers. -/
structure LogMessageToL2 where
  fromAddress : Felt
  toAddress : Nat
  selector : Nat
  payload : List Nat
  nonce : Nat
  fee : Nat

structure LogLibraries (Log : Type) where
  decodeLog : Log → Option LogMessageToL2
  feltFromU256 : Nat → Option Felt
  computeL1ToL2MessageHash (fromAddress toAddress selector : Felt) (payload : List Felt)
    (nonce : Nat) : Bytes
  normalizeAddress : Felt → Felt

def LogLibraries.wellFormed (L : LogLibraries Log) (log : Log) : Bool := (L.decodeLog log).isSome

/-- A message with the keys and the data of the event. -/
def Event.wellFormed (selector : String → Felt) (event : Event) : Bool :=
  event.keys[0]?=some (messageSentEventKey selector) ∧ event.keys.length=4 ∧ 3 ≤ event.data.length

variable (wellFormed : Log → Bool) (convert : Log → Converted Tx)

/-- How a gathering should end: with the transactions of the well-formed entries, or with an error
if a request fails. The Starknet messenger asks for nothing while the chain is behind. -/
def expected (mode : MessengerMode)
    (fromBlock maxBlocks : Nat) (answers : Answers Log) : Gathered Tx :=
  match answers.blockNumber with
  | none => .err
  | some latest =>
    if mode=.starknet ∧ latest<fromBlock then .ok latest []
    else
      match answers.logs fromBlock (toBlock fromBlock maxBlocks latest) with
      | none => .err
      | some logs => .ok (toBlock fromBlock maxBlocks latest)
          ((logs.filter wellFormed).filterMap (fun log => (convert log).toOption))

/-- The entries that a gathering is answered, if it is. -/
def EthereumMessaging.Answered (entry : Log → Prop) (fromBlock maxBlocks : Nat)
    (answers : Answers Log) : Prop :=
  ∀ latest, answers.blockNumber=some latest →
    ∀ logs, answers.logs fromBlock (toBlock fromBlock maxBlocks latest)=some logs →
      ∀ log∈logs, entry log

/-- A gathering that asks for entries is answered, with such ones. -/
def StarknetMessaging.Answered (entry : Log → Prop) (fromBlock maxBlocks : Nat)
    (answers : Answers Log) : Prop :=
  ∀ latest, answers.blockNumber=some latest → fromBlock ≤ latest →
    ∃ logs, answers.logs fromBlock (toBlock fromBlock maxBlocks latest)=some logs ∧
      ∀ log∈logs, entry log

section Entries
variable {wellFormed : Log → Bool} {convert : Log → Converted Tx}

variable (wellFormed convert) (fromBlock maxBlocks : Nat) (answers : Answers Log)

end Entries

section Shapes

/-- The log decodes, its nonce and its fee fit in the fields of the transaction, and its
numbers are felts. -/
def LogLibraries.Fits (L : LogLibraries Log) (log : Log) : Prop :=
  ∃ m, L.decodeLog log=some m ∧ m.nonce<2^64 ∧ m.fee<2^128 ∧
    ∀ v∈m.toAddress::m.selector::m.payload, (L.feltFromU256 v).isSome

/-- An event has a first key; if it is that of a message, there are four keys and, behind the
selector and the nonce, the length of the payload. -/
def Event.Fits (selector : String → Felt) (event : Event) : Prop :=
  event.keys≠[] ∧ (event.keys[0]?=some (messageSentEventKey selector) →
    event.keys.length=4 ∧ 3 ≤ event.data.length)

end Shapes

section Cursor
variable (convert : Log → Converted Tx) (mode : MessengerMode) (poll : Poll Log)
  (s : MessagingService Tx)

/-- The gathering that the poll goes on with, if it comes to its end. -/
def MessagingService.gathered : Option (Gathered Tx) :=
  if s.panicked then none
  else
    match (s.spawn poll.tick).msgGatherFut,poll.answers with
    | some fromBlock,some answers => some (mode.gatherMessages convert fromBlock answers)
    | _,_ => none

theorem MessagingService.spawn_tick : ∃ fromBlock, (s.spawn true).msgGatherFut=some fromBlock := by
  unfold spawn
  cases hfut : s.msgGatherFut with
  | none => simp
  | some fromBlock => simp [hfut]

end Cursor

section Waking
variable (convert : Log → Converted Tx) (mode : MessengerMode)

/-- In the poll the interval or the gathering is polled to Pending, with the current waker. -/
def Registered (poll : Poll Log) (s : MessagingService Tx) : Prop :=
  poll.tick=false ∨ (s.spawn poll.tick).msgGatherFut≠none ∧ poll.answers=none

/-- Only a gathering that returned messages makes poll_next return Ready. -/
def ReturnsPending (poll : Poll Log) (s : MessagingService Tx) : Prop :=
  s.panicked=false ∧
    (s.gathered convert mode poll=none ∨ s.gathered convert mode poll=some .err)

/-- The service as it is polled by MessagingTask, which polls again after Ready. The task is
stalled by a poll that returns Pending without a registered waker. -/
structure MessagingTask (Tx : Type) where
  messaging : MessagingService Tx
  stalled : Bool := false

variable (s : MessagingTask Tx)

def MessagingTask.Stalled : Prop := s.stalled=true

def TaskStep (poll : Poll Log) (t : MessagingTask Tx) : Prop :=
  ¬s.Stalled ∧ t.messaging=s.messaging.pollNext convert mode poll ∧
    (t.Stalled ↔ ReturnsPending convert mode poll s.messaging ∧ ¬Registered poll s.messaging)

/-- The gathering fails in a poll in which the interval ticks. -/
def FailsAtTick (poll : Poll Log) : Prop :=
  poll.tick=true ∧ s.messaging.gathered convert mode poll=some .err

variable {convert mode}

theorem unregistered_iff (poll : Poll Log) :
    ReturnsPending convert mode poll s.messaging ∧ ¬Registered poll s.messaging ↔
      FailsAtTick convert mode s poll := by
  cases htick : poll.tick with
  | false => simp [Registered,FailsAtTick,htick]
  | true =>
    obtain ⟨fromBlock,hfut⟩ := s.messaging.spawn_tick
    cases hp : s.messaging.panicked with
    | true => simp [ReturnsPending,FailsAtTick,MessagingService.gathered,hp]
    | false =>
      cases ha : poll.answers with
      | none => simp [Registered,FailsAtTick,MessagingService.gathered,hp,ha,htick,hfut]
      | some answers =>
        simp [ReturnsPending,Registered,FailsAtTick,MessagingService.gathered,hp,ha,htick,hfut]

/-- In every run of the task a waker is registered after each poll that returns Pending exactly
if no gathering fails in a poll in which the interval ticks. -/
theorem never_stalls_iff {first : Nat} {polls : List (Poll Log)} {t : MessagingTask Tx}
    (h : Run (TaskStep convert mode) ⟨{ gatherFromBlock := first },false⟩ polls t) :
    ¬t.Stalled ↔ Run (Restrict (fun s poll => ¬FailsAtTick convert mode s poll)
      (TaskStep convert mode)) ⟨{ gatherFromBlock := first },false⟩ polls t := by
  apply h.avoids_iff (I := fun _ => True) (fun _ _ _ _ _ => trivial) ?_ trivial nofun
  intro s poll t _ hs
  obtain ⟨hawake,-,hnext⟩ := hs
  rw [hnext,unregistered_iff,not_not]
  exact (or_iff_right hawake).symm

theorem taskStep {s : MessagingTask Tx} {poll : Poll Log} (stalled : Bool) (hs : ¬s.Stalled)
    (h : stalled=true ↔ FailsAtTick convert mode s poll) :
    TaskStep convert mode s poll ⟨s.messaging.pollNext convert mode poll,stalled⟩ :=
  ⟨hs,rfl,h.trans (unregistered_iff s poll).symm⟩

end Waking

/-- The provider does not answer. -/
def noAnswers : Answers Nat := ⟨none,fun _ _ => none⟩

/-- A gathering that is started by a tick and fails later, in a poll that leaves the waker with the
interval. -/
theorem awake_after_late_failure :
    ∃ t : MessagingTask Nat,
      Run (TaskStep .ok .starknet) ⟨{ gatherFromBlock := 0 },false⟩
        [⟨true,none⟩,⟨false,some noAnswers⟩] t ∧ t.messaging.msgGatherFut=none ∧ ¬t.Stalled := by
  have hrun : Run (Restrict (fun s poll => ¬FailsAtTick Converted.ok .starknet s poll)
      (TaskStep Converted.ok .starknet)) ⟨{ gatherFromBlock := 0 },false⟩
      [⟨true,none⟩,⟨false,some noAnswers⟩]
      (⟨{ gatherFromBlock := 0 },false⟩ : MessagingTask Nat) :=
    .cons ⟨nofun,taskStep false nofun (iff_of_false nofun nofun)⟩
      (.cons ⟨nofun,taskStep false nofun (iff_of_false nofun nofun)⟩ (.nil _))
  exact ⟨_,hrun.of_restrict,rfl,(never_stalls_iff hrun.of_restrict).mpr hrun⟩

/-- The gathering that is started by the first tick fails at once, and the task is not polled
again. -/
theorem first_failure_stalls : ∃ t : MessagingTask Nat,
    Run (TaskStep .ok .ethereum) ⟨{ gatherFromBlock := 0 },false⟩ [⟨true,some noAnswers⟩] t ∧
      t.Stalled ∧ ∀ poll u, ¬TaskStep .ok .ethereum t poll u := by
  have hfails : FailsAtTick Converted.ok .ethereum
      (⟨{ gatherFromBlock := 0 },false⟩ : MessagingTask Nat) ⟨true,some noAnswers⟩ :=
    ⟨rfl,rfl⟩
  refine ⟨_,.single (taskStep true nofun (iff_of_true rfl hfails)),rfl,?_⟩
  intro poll u hstep
  exact hstep.1 rfl

end Katana.Messaging
