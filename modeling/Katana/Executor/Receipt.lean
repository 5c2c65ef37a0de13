import Katana.Base.Emission
import Katana.Primitives.Transaction

/-! Receipts of executed transactions (executor/src/utils.rs, primitives/src/receipt.rs) and the
call infos they are built from. The virtual machine records a call's own events and messages with
a counter, which is what tells the order in which they were emitted. -/
namespace Katana.Executor
open Primitives Emission
variable {Vm Fee β γ : Type}

structure Event where
  fromAddress : Felt
  keys : List Felt
  data : List Felt
  deriving DecidableEq, Repr

structure MessageToL1 where
  fromAddress : Felt
  toAddress : Felt
  payload : List Felt
  deriving DecidableEq, Repr

structure OrderedEvent where
  order : Nat
  keys : List Felt
  data : List Felt
  deriving DecidableEq, Repr

structure OrderedL2ToL1Message where
  order : Nat
  toAddress : Felt
  payload : List Felt
  deriving DecidableEq, Repr

inductive CallInfo where
  | mk (storageAddress : Felt) (events : List OrderedEvent)
      (l2ToL1Messages : List OrderedL2ToL1Message) (innerCalls : List CallInfo)

structure GasVector where
  l1Gas : Nat
  l2Gas : Nat
  l1DataGas : Nat
  deriving DecidableEq, Repr

/-- What blockifier says about the resources of a transaction. -/
structure TransactionReceipt (Vm : Type) where
  vmResources : Vm
  gas : GasVector
  daGas : GasVector

structure TransactionExecutionInfo (Vm : Type) where
  validateCallInfo : Option CallInfo
  executeCallInfo : Option CallInfo
  feeTransferCallInfo : Option CallInfo
  revertError : Option String
  receipt : TransactionReceipt Vm

structure DataAvailabilityResources where
  l1Gas : Nat
  l1DataGas : Nat
  deriving DecidableEq, Repr

structure ExecutionResources (Vm : Type) where
  daResources : DataAvailabilityResources
  computationResources : Vm
  gas : GasVector

/-- The fields that the receipts of all kinds of transactions have. -/
structure TxReceipt (Fee Vm : Type) where
  fee : Fee
  events : List Event
  messagesSent : List MessageToL1
  revertError : Option String
  executionResources : ExecutionResources Vm

inductive Receipt (Fee Vm : Type) where
  | invoke (receipt : TxReceipt Fee Vm)
  | declare (receipt : TxReceipt Fee Vm)
  | l1Handler (receipt : TxReceipt Fee Vm) (messageHash : Bytes)
  | deployAccount (receipt : TxReceipt Fee Vm) (contractAddress : Felt)

def Receipt.fields : Receipt Fee Vm → TxReceipt Fee Vm
  | .invoke receipt | .declare receipt | .l1Handler receipt _ | .deployAccount receipt _ => receipt

/-! What a call recorded itself, followed by what its inner calls recorded. -/
mutual
def CallInfo.collect (own : Felt → List OrderedEvent → List OrderedL2ToL1Message → List β) :
    CallInfo → List β
  | ⟨storageAddress,events,l2ToL1Messages,innerCalls⟩ =>
    own storageAddress events l2ToL1Messages++collectAll own innerCalls

def collectAll (own : Felt → List OrderedEvent → List OrderedL2ToL1Message → List β) :
    List CallInfo → List β
  | [] => []
  | call::calls => call.collect own++collectAll own calls
end

def OrderedEvent.toEvent (fromAddress : Felt) (e : OrderedEvent) : Event :=
  ⟨fromAddress,e.keys,e.data⟩

def OrderedL2ToL1Message.toMessage (fromAddress : Felt) (m : OrderedL2ToL1Message) : MessageToL1 :=
  ⟨fromAddress,m.toAddress,m.payload⟩

def getEventsRecur (info : CallInfo) : List Event :=
  info.collect fun fromAddress events _ => events.map (OrderedEvent.toEvent fromAddress)

def getL2ToL1MessagesRecur (info : CallInfo) : List MessageToL1 :=
  info.collect fun fromAddress _ messages =>
    messages.map (OrderedL2ToL1Message.toMessage fromAddress)

section
variable (info : TransactionExecutionInfo Vm)

/-- Validation first, then execution, then the fee transfer. -/
def TransactionExecutionInfo.collect (recur : CallInfo → List β)
    (info : TransactionExecutionInfo Vm) : List β :=
  info.validateCallInfo.toList.flatMap recur++info.executeCallInfo.toList.flatMap recur++
    info.feeTransferCallInfo.toList.flatMap recur

def eventsFromExecInfo : List Event :=
  info.collect getEventsRecur

def l2ToL1MessagesFromExecInfo : List MessageToL1 :=
  info.collect getL2ToL1MessagesRecur

def getReceiptResources (receipt : TransactionReceipt Vm) : ExecutionResources Vm where
  computationResources := receipt.vmResources
  gas := receipt.gas
  daResources := ⟨receipt.daGas.l1Gas,receipt.daGas.l1DataGas⟩

def DeployAccountTx.contractAddress : DeployAccountTx → Felt
  | .v1 tx => tx.contractAddress
  | .v3 tx => tx.contractAddress

def buildReceipt (tx : ExecutableTx) (fee : Fee) (info : TransactionExecutionInfo Vm) :
    Receipt Fee Vm :=
  let receipt : TxReceipt Fee Vm :=
    { fee := fee
      events := eventsFromExecInfo info
      messagesSent := l2ToL1MessagesFromExecInfo info
      revertError := info.revertError
      executionResources := getReceiptResources info.receipt }
  match tx with
  | .invoke _ => .invoke receipt
  | .declare _ => .declare receipt
  | .l1Handler tx => .l1Handler receipt tx.messageHash
  | .deployAccount tx => .deployAccount receipt (DeployAccountTx.contractAddress tx)

end

/-! How the virtual machine comes to the call infos. -/

/-- What a call does, one thing after the other. -/
inductive Actions where
  | done
  | event (keys data : List Felt) (rest : Actions)
  | message (toAddress : Felt) (payload : List Felt) (rest : Actions)
  | call (storageAddress : Felt) (body rest : Actions)
  deriving DecidableEq, Repr

/-- The numbers of the next event and of the next message of the transaction. -/
structure Counters where
  events : Nat
  messages : Nat
  deriving DecidableEq, Repr

structure Recorded where
  events : List OrderedEvent
  l2ToL1Messages : List OrderedL2ToL1Message
  innerCalls : List CallInfo
  counters : Counters

def Actions.run : Actions → Counters → Recorded
  | done,c => ⟨[],[],[],c⟩
  | event keys data rest,c =>
    let r := rest.run { c with events := c.events+1 }
    { r with events := ⟨c.events,keys,data⟩::r.events }
  | message toAddress payload rest,c =>
    let r := rest.run { c with messages := c.messages+1 }
    { r with l2ToL1Messages := ⟨c.messages,toAddress,payload⟩::r.l2ToL1Messages }
  | call storageAddress body rest,c =>
    let b := body.run c
    let r := rest.run b.counters
    { r with
      innerCalls := ⟨storageAddress,b.events,b.l2ToL1Messages,b.innerCalls⟩::r.innerCalls }

structure Call where
  storageAddress : Felt
  actions : Actions
  deriving DecidableEq, Repr

def runPhase (phase : Option Call) (c : Counters) : Option CallInfo × Counters :=
  match phase with
  | none => (none,c)
  | some call =>
    let r := call.actions.run c
    (some ⟨call.storageAddress,r.events,r.l2ToL1Messages,r.innerCalls⟩,r.counters)

/-- The phases of a transaction that take place. -/
structure Execution (Vm : Type) where
  validate : Option Call
  execute : Option Call
  feeTransfer : Option Call
  revertError : Option String
  receipt : TransactionReceipt Vm

/-- An account is deployed by its constructor before it can validate the transaction. -/
def Execution.info (e : Execution Vm) (tx : ExecutableTx) : TransactionExecutionInfo Vm :=
  match tx with
  | .deployAccount _ =>
    let execute := runPhase e.execute ⟨0,0⟩
    let validate := runPhase e.validate execute.2
    let feeTransfer := runPhase e.feeTransfer validate.2
    ⟨validate.1,execute.1,feeTransfer.1,e.revertError,e.receipt⟩
  | _ =>
    let validate := runPhase e.validate ⟨0,0⟩
    let execute := runPhase e.execute validate.2
    let feeTransfer := runPhase e.feeTransfer execute.2
    ⟨validate.1,execute.1,feeTransfer.1,e.revertError,e.receipt⟩

/-- The phases as one list of calls, in the order they take place. -/
def Execution.phases (e : Execution Vm) (tx : ExecutableTx) : List (Option Call) :=
  match tx with
  | .deployAccount _ => [e.execute,e.validate,e.feeTransfer]
  | _ => [e.validate,e.execute,e.feeTransfer]

mutual
theorem CallInfo.collect_map (f : β → γ)
    (own : Felt → List OrderedEvent → List OrderedL2ToL1Message → List β) :
    ∀ info : CallInfo, (info.collect own).map f=info.collect fun a es ms => (own a es ms).map f
  | ⟨storageAddress,events,l2ToL1Messages,innerCalls⟩ => by
    rw [CallInfo.collect,CallInfo.collect,List.map_append,collectAll_map f own innerCalls]

theorem collectAll_map (f : β → γ)
    (own : Felt → List OrderedEvent → List OrderedL2ToL1Message → List β) :
    ∀ infos : List CallInfo,
      (collectAll own infos).map f=collectAll (fun a es ms => (own a es ms).map f) infos
  | [] => rfl
  | info::infos => by
    rw [collectAll,collectAll,List.map_append,info.collect_map f own,collectAll_map f own infos]
end

/-- One of the two lists of a receipt: what a call holds of it with its numbers, the number that
comes next, and what an event and a message add to it. -/
structure View (β : Type) where
  own : Felt → List OrderedEvent → List OrderedL2ToL1Message → List (Numbered β)
  next : Counters → Nat
  event : Felt → List Felt → List Felt → Option β
  message : Felt → Felt → List Felt → Option β
  next_start : next ⟨0,0⟩=0
  own_done : ∀ address, own address [] []=[]
  next_event : ∀ address keys data c,
    next { c with events := c.events+1 }=next c+(event address keys data).toList.length
  own_event : ∀ address keys data c events messages,
    own address (⟨c.events,keys,data⟩::events) messages=
      (event address keys data).toList.map (next c,·)++own address events messages
  next_message : ∀ address toAddress payload c,
    next { c with messages := c.messages+1 }=next c+(message address toAddress payload).toList.length
  own_message : ∀ address toAddress payload c events messages,
    own address events (⟨c.messages,toAddress,payload⟩::messages)=
      (message address toAddress payload).toList.map (next c,·)++own address events messages

def eventView : View Event where
  own address events _ := events.map fun e => (e.order,e.toEvent address)
  next := Counters.events
  event address keys data := some ⟨address,keys,data⟩
  message _ _ _ := none
  next_start := rfl
  own_done _ := rfl
  next_event _ _ _ _ := rfl
  own_event _ _ _ _ _ _ := rfl
  next_message _ _ _ _ := rfl
  own_message _ _ _ _ _ _ := rfl

def messageView : View MessageToL1 where
  own address _ messages := messages.map fun m => (m.order,m.toMessage address)
  next := Counters.messages
  event _ _ _ := none
  message address toAddress payload := some ⟨address,toAddress,payload⟩
  next_start := rfl
  own_done _ := rfl
  next_event _ _ _ _ := rfl
  own_event _ _ _ _ _ _ := rfl
  next_message _ _ _ _ := rfl
  own_message _ _ _ _ _ _ := rfl

namespace View
variable (v : View β) (e : Execution Vm) (tx : ExecutableTx)

/-- The emissions of a call, as far as they are in the list. -/
def trace (address : Felt) : Actions → Trace β
  | .done => .done
  | .event keys data rest => .emitSome (v.event address keys data) (trace address rest)
  | .message toAddress payload rest =>
    .emitSome (v.message address toAddress payload) (trace address rest)
  | .call storageAddress body rest => .call (trace storageAddress body) (trace address rest)

section
variable (address : Felt) (actions : Actions) (c : Counters)

theorem next_run : v.next (actions.run c).counters=v.next c+(v.trace address actions).size := by
  induction actions generalizing address c with
  | done => rfl
  | event keys data rest ih =>
    refine (ih address _).trans ?_
    rw [v.next_event address keys data,trace,Trace.size_emitSome,Nat.add_assoc]
  | message toAddress payload rest ih =>
    refine (ih address _).trans ?_
    rw [v.next_message address toAddress payload,trace,Trace.size_emitSome,Nat.add_assoc]
  | call storageAddress body rest ihb ihr =>
    refine (ihr address _).trans ?_
    rw [ihb storageAddress c,trace,Trace.size,Nat.add_assoc]

theorem own_run : v.own address (actions.run c).events (actions.run c).l2ToL1Messages=
    (v.trace address actions).own (v.next c) := by
  induction actions generalizing c with
  | done => exact v.own_done address
  | event keys data rest ih =>
    rw [Actions.run,v.own_event,ih,v.next_event address keys data,trace,Trace.own_emitSome]
  | message toAddress payload rest ih =>
    rw [Actions.run,v.own_message,ih,v.next_message address toAddress payload,trace,
      Trace.own_emitSome]
  | call storageAddress body rest _ ihr =>
    refine (ihr _).trans ?_
    rw [v.next_run storageAddress,trace,Trace.own]

theorem inner_run : collectAll v.own (actions.run c).innerCalls=
    (v.trace address actions).inner (v.next c) := by
  induction actions generalizing address c with
  | done => rfl
  | event keys data rest ih =>
    rw [trace,Trace.inner_emitSome,← v.next_event address keys data]
    exact ih address _
  | message toAddress payload rest ih =>
    rw [trace,Trace.inner_emitSome,← v.next_message address toAddress payload]
    exact ih address _
  | call storageAddress body rest ihb ihr =>
    rw [Actions.run,trace,Trace.inner,collectAll,CallInfo.collect,own_run,ihb storageAddress c,
      ihr address,v.next_run storageAddress]

end

def listed (info : TransactionExecutionInfo Vm) : List (Numbered β) :=
  info.collect (CallInfo.collect v.own)

def phaseTrace : Option Call → Trace β
  | none => .done
  | some call => v.trace call.storageAddress call.actions

/-- All emissions of the transaction, in the order of its phases. -/
def emitted : List (Numbered β) :=
  ((e.phases tx).foldr (fun phase rest => Trace.call (v.phaseTrace phase) rest) .done).emitted 0

/-- In no phase a call emits after an inner call that emitted. When an account is deployed, its
constructor and its validation do not both emit. -/
def OwnFirst : Prop :=
  (v.phaseTrace e.validate).OwnFirst ∧ (v.phaseTrace e.execute).OwnFirst ∧
    (v.phaseTrace e.feeTransfer).OwnFirst ∧
    ∀ deploy, tx=.deployAccount deploy →
      (v.phaseTrace e.execute).emitted 0=[] ∨ (v.phaseTrace e.validate).emitted 0=[]

theorem runPhase_listed (phase : Option Call) (c : Counters) :
    (runPhase phase c).1.toList.flatMap (CallInfo.collect v.own)=
      (v.phaseTrace phase).listed (v.next c) := by
  cases phase with
  | none => rfl
  | some call =>
    change CallInfo.collect v.own _++[]=_
    rw [List.append_nil,CallInfo.collect,v.own_run,v.inner_run call.storageAddress]
    rfl

theorem runPhase_next (phase : Option Call) (c : Counters) :
    v.next (runPhase phase c).2=v.next c+(v.phaseTrace phase).size := by
  cases phase with
  | none => rfl
  | some call => exact v.next_run call.storageAddress call.actions c

section Blocks
variable (a b c : Trace β)

theorem phases_sorted :
    Sorted (a.listed 0++b.listed a.size++c.listed (a.size+b.size)) ↔
      a.OwnFirst ∧ b.OwnFirst ∧ c.OwnFirst := by
  have ha : Within 0 a.size (a.listed 0) := by simpa using a.listed_within 0
  have hab := (ha.mono (Nat.le_refl 0) (Nat.le_add_right _ _)).append
    ((b.listed_within a.size).mono (Nat.zero_le _) (Nat.le_refl _))
  rw [sorted_append hab (c.listed_within _),sorted_append ha (b.listed_within _),
    a.listed_sorted_iff,b.listed_sorted_iff,c.listed_sorted_iff,and_assoc]

theorem phases_swapped_sorted :
    Sorted (b.listed a.size++a.listed 0++c.listed (a.size+b.size)) ↔
      a.OwnFirst ∧ b.OwnFirst ∧ (a.emitted 0=[] ∨ b.emitted 0=[]) ∧ c.OwnFirst := by
  have ha : Within 0 a.size (a.listed 0) := by simpa using a.listed_within 0
  have hba := ((b.listed_within a.size).mono (Nat.zero_le _) (Nat.le_refl _)).append
    (ha.mono (Nat.le_refl 0) (Nat.le_add_right _ _))
  rw [sorted_append hba (c.listed_within _),sorted_append_swap ha (b.listed_within _),
    a.listed_sorted_iff,b.listed_sorted_iff,c.listed_sorted_iff,a.listed_eq_nil,b.listed_eq_nil,
    and_assoc,and_assoc]

theorem phases_perm :
    (a.listed 0++b.listed a.size++c.listed (a.size+b.size)).Perm
      ((Trace.call a (.call b (.call c .done))).emitted 0) := by
  simp only [Trace.emitted,List.append_nil,Nat.zero_add,List.append_assoc]
  exact (a.listed_perm 0).append ((b.listed_perm _).append (c.listed_perm _))

end Blocks

theorem listed_info_deployAccount (tx : DeployAccountTx) :
    v.listed (e.info (.deployAccount tx))=
      (v.phaseTrace e.validate).listed (v.phaseTrace e.execute).size++
        (v.phaseTrace e.execute).listed 0++
        (v.phaseTrace e.feeTransfer).listed
          ((v.phaseTrace e.execute).size+(v.phaseTrace e.validate).size) := by
  simp [listed,TransactionExecutionInfo.collect,Execution.info,runPhase_listed,runPhase_next,v.next_start]

theorem listed_info (h : ¬∃ deploy, tx=.deployAccount deploy) :
    v.listed (e.info tx)=
      (v.phaseTrace e.validate).listed 0++
        (v.phaseTrace e.execute).listed (v.phaseTrace e.validate).size++
        (v.phaseTrace e.feeTransfer).listed
          ((v.phaseTrace e.validate).size+(v.phaseTrace e.execute).size) := by
  cases tx with
  | deployAccount deploy => exact absurd ⟨deploy,rfl⟩ h
  | invoke tx | l1Handler tx | declare tx =>
    simp [listed,TransactionExecutionInfo.collect,Execution.info,runPhase_listed,runPhase_next,v.next_start]

theorem phases_eq (h : ¬∃ deploy, tx=.deployAccount deploy) :
    e.phases tx=[e.validate,e.execute,e.feeTransfer] := by
  cases tx with
  | deployAccount deploy => exact absurd ⟨deploy,rfl⟩ h
  | invoke tx | l1Handler tx | declare tx => rfl

theorem listed_perm : (v.listed (e.info tx)).Perm (v.emitted e tx) := by
  by_cases h : ∃ deploy, tx=.deployAccount deploy
  · obtain ⟨deploy,rfl⟩ := h
    rw [v.listed_info_deployAccount]
    exact (List.perm_append_comm.append_right _).trans (phases_perm _ _ _)
  · rw [v.listed_info e tx h,emitted,phases_eq e tx h]
    exact phases_perm _ _ _

theorem listed_sorted_iff : Sorted (v.listed (e.info tx)) ↔ v.OwnFirst e tx := by
  by_cases h : ∃ deploy, tx=.deployAccount deploy
  · obtain ⟨deploy,rfl⟩ := h
    rw [v.listed_info_deployAccount,phases_swapped_sorted,OwnFirst]
    exact ⟨fun hs => ⟨hs.2.1,hs.1,hs.2.2.2,fun _ _ => hs.2.2.1⟩,
      fun hs => ⟨hs.2.1,hs.1,hs.2.2.2 deploy rfl,hs.2.2.1⟩⟩
  · rw [v.listed_info e tx h,phases_sorted,OwnFirst]
    exact ⟨fun hs => ⟨hs.1,hs.2.1,hs.2.2,fun deploy hd => absurd ⟨deploy,hd⟩ h⟩,
      fun hs => ⟨hs.1,hs.2.1,hs.2.2.1⟩⟩

end View

variable (info : TransactionExecutionInfo Vm)

theorem TransactionExecutionInfo.collect_map (f : β → γ) (recur : CallInfo → List β)
    (info : TransactionExecutionInfo Vm) :
    (info.collect recur).map f=info.collect fun call => (recur call).map f := by
  simp [TransactionExecutionInfo.collect,List.map_flatMap]

theorem eventsFromExecInfo_eq : eventsFromExecInfo info=(eventView.listed info).map Prod.snd := by
  rw [View.listed,TransactionExecutionInfo.collect_map,eventsFromExecInfo]
  congr 1
  funext call
  rw [call.collect_map,getEventsRecur]
  congr 1
  funext address events messages
  simp [eventView]

theorem l2ToL1MessagesFromExecInfo_eq :
    l2ToL1MessagesFromExecInfo info=(messageView.listed info).map Prod.snd := by
  rw [View.listed,TransactionExecutionInfo.collect_map,l2ToL1MessagesFromExecInfo]
  congr 1
  funext call
  rw [call.collect_map,getL2ToL1MessagesRecur]
  congr 1
  funext address events messages
  simp [messageView]

theorem buildReceipt_lists (tx : ExecutableTx) (fee : Fee) (info : TransactionExecutionInfo Vm) :
    (buildReceipt tx fee info).fields.events=eventsFromExecInfo info ∧
      (buildReceipt tx fee info).fields.messagesSent=l2ToL1MessagesFromExecInfo info := by
  cases tx <;> exact ⟨rfl,rfl⟩

/-- The lists of a receipt hold what was emitted, nothing dropped or duplicated, and they are in
the order of emission exactly when every call emits before its inner calls do, and an account
that is deployed does not emit both in its constructor and in its validation. -/
theorem receipt_in_order_iff (e : Execution Vm) (tx : ExecutableTx) (fee : Fee) :
    ((buildReceipt tx fee (e.info tx)).fields.events=
        (eventView.listed (e.info tx)).map Prod.snd ∧
      (buildReceipt tx fee (e.info tx)).fields.messagesSent=
        (messageView.listed (e.info tx)).map Prod.snd) ∧
    ((eventView.listed (e.info tx)).Perm (eventView.emitted e tx) ∧
      (messageView.listed (e.info tx)).Perm (messageView.emitted e tx)) ∧
    (Sorted (eventView.listed (e.info tx)) ∧ Sorted (messageView.listed (e.info tx)) ↔
      eventView.OwnFirst e tx ∧ messageView.OwnFirst e tx) := by
  obtain ⟨hevents,hmessages⟩ := buildReceipt_lists tx fee (e.info tx)
  refine ⟨⟨?_,?_⟩,⟨eventView.listed_perm e tx,messageView.listed_perm e tx⟩,?_⟩
  · rw [hevents,eventsFromExecInfo_eq]
  · rw [hmessages,l2ToL1MessagesFromExecInfo_eq]
  · rw [eventView.listed_sorted_iff,messageView.listed_sorted_iff]

def sampleExecution (validate execute : Actions) : Execution Unit where
  validate := some ⟨1,validate⟩
  execute := some ⟨1,execute⟩
  feeTransfer := none
  revertError := none
  receipt := ⟨(),⟨0,0,0⟩,⟨0,0,0⟩⟩

def sampleInvokeTx : ExecutableTx := .invoke (.v0 ⟨1,0,[],[],0⟩)

def sampleDeployTx : ExecutableTx := .deployAccount (.v1 ⟨.id 0,0,[],0,1,0,[],0⟩)

/-- A call that emits, calls a contract that emits, and emits again. -/
def emitAround : Actions :=
  .event [10] [] (.message 10 [] (.call 2 (.event [11] [] (.message 11 [] .done))
    (.event [12] [] (.message 12 [] .done))))

/-- The receipt lists the third event and message before the second ones; the events of the
validation of a new account are listed before those of its constructor. -/
theorem receipt_out_of_order :
    (eventView.emitted (sampleExecution .done emitAround) sampleInvokeTx).map Prod.snd=
      [⟨1,[10],[]⟩,⟨2,[11],[]⟩,⟨1,[12],[]⟩] ∧
    (buildReceipt sampleInvokeTx ()
      ((sampleExecution .done emitAround).info sampleInvokeTx)).fields.events=
      [⟨1,[10],[]⟩,⟨1,[12],[]⟩,⟨2,[11],[]⟩] ∧
    (buildReceipt sampleInvokeTx ()
      ((sampleExecution .done emitAround).info sampleInvokeTx)).fields.messagesSent=
      [⟨1,10,[]⟩,⟨1,12,[]⟩,⟨2,11,[]⟩] ∧
    (eventView.emitted (sampleExecution (.event [20] [] .done) (.event [21] [] .done))
      sampleDeployTx).map Prod.snd=[⟨1,[21],[]⟩,⟨1,[20],[]⟩] ∧
    (buildReceipt sampleDeployTx ()
      ((sampleExecution (.event [20] [] .done) (.event [21] [] .done)).info
        sampleDeployTx)).fields.events=[⟨1,[20],[]⟩,⟨1,[21],[]⟩] := by
  decide +kernel

end Katana.Executor
