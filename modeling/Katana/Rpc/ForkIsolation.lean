import Katana.Rpc.Transactions

/-! The whole client of the forked network (rpc/starknet/forking.rs) against the states of that
network. A request is isolated when its answer does not depend on what the network has after
the fork block. -/
namespace Katana.Rpc
variable {P : Payloads} {Hdr Upd α β : Type} {r : RemoteTx P} {hash : Felt}

/-- A block as the network shows it, with its transactions in one of three forms. -/
structure BlockWith (Hdr α : Type) where
  hash : Felt
  number : Nat
  finality : FinalityStatus
  header : Hdr
  transactions : List α

structure PendingBlockWith (Hdr α : Type) where
  header : Hdr
  transactions : List α

inductive MaybePendingBlock (Hdr α : Type) where
  | block (block : BlockWith Hdr α)
  | pendingBlock (block : PendingBlockWith Hdr α)

inductive MaybePendingStateUpdate (Upd : Type) where
  | update (update : Upd)
  | pendingUpdate (update : Upd)

/-- The other calls of the JSON-RPC provider. -/
@[ext] structure Provider (P : Payloads) (Hdr Upd : Type) extends RemoteProvider P where
  blockWithTxHashes : BlockIdOrTag → Except StarknetApiError (MaybePendingBlock Hdr Felt)
  blockWithTxs : BlockIdOrTag → Except StarknetApiError (MaybePendingBlock Hdr (TxWithHash P))
  blockWithReceipts : BlockIdOrTag →
    Except StarknetApiError (MaybePendingBlock Hdr (TxWithHash P × P.Receipt))
  transactionByBlockIdAndIndex : BlockIdOrTag → Nat → Except StarknetApiError (TxWithHash P)
  blockTransactionCount : BlockIdOrTag → Except StarknetApiError Nat
  stateUpdate : BlockIdOrTag → Except StarknetApiError (MaybePendingStateUpdate Upd)

/-- The client with all calls of its provider. -/
structure ForkedNetwork (P : Payloads) (Hdr Upd : Type) where
  block : Nat
  provider : Provider P Hdr Upd

namespace ForkedNetwork
variable (net : ForkedNetwork P Hdr Upd)

def client : ForkedClient P := ⟨net.block,net.provider.toRemoteProvider⟩

def inRange : MaybePendingBlock Hdr α → Except ForkingError (BlockWith Hdr α)
  | .block b => if net.block<b.number then .error .blockOutOfRange else .ok b
  | .pendingBlock _ => .error .unexpectedPendingData

variable (blockId : BlockIdOrTag)

/-- A tag is refused, a number is compared at once and the block of a hash is asked for first. -/
def getTransactionByBlockIdAndIndex (idx : Nat) : Except ForkingError (TxWithHash P) :=
  match blockId with
  | .number num =>
    if net.block<num then .error .blockOutOfRange
    else (net.provider.transactionByBlockIdAndIndex blockId idx).mapError .provider
  | .hash hash => do
    let block ← (net.provider.blockWithTxHashes (.hash hash)).mapError .provider
    let _ ← net.inRange block
    (net.provider.transactionByBlockIdAndIndex blockId idx).mapError .provider
  | .tag _ => .error .blockTagNotAllowed

def getBlockWithTxs : Except ForkingError (BlockWith Hdr (TxWithHash P)) := do
  net.inRange (← (net.provider.blockWithTxs blockId).mapError .provider)

def getBlockWithReceipts : Except ForkingError (BlockWith Hdr (TxWithHash P × P.Receipt)) := do
  net.inRange (← (net.provider.blockWithReceipts blockId).mapError .provider)

def getBlockWithTxHashes : Except ForkingError (BlockWith Hdr Felt) := do
  net.inRange (← (net.provider.blockWithTxHashes blockId).mapError .provider)

/-- What get_block_transaction_count and get_state_update check before they ask. A pending block
passes. -/
def checkBlockId : Except ForkingError Unit :=
  match blockId with
  | .number num => if net.block<num then .error .blockOutOfRange else .ok ()
  | .hash hash => do
    match ← (net.provider.blockWithTxHashes (.hash hash)).mapError .provider with
    | .block b => if net.block<b.number then .error .blockOutOfRange else .ok ()
    | .pendingBlock _ => .ok ()
  | .tag _ => .error .blockTagNotAllowed

def getBlockTransactionCount : Except ForkingError Nat := do
  net.checkBlockId blockId
  (net.provider.blockTransactionCount blockId).mapError .provider

def getStateUpdate : Except ForkingError (MaybePendingStateUpdate Upd) := do
  net.checkBlockId blockId
  (net.provider.stateUpdate blockId).mapError .provider

end ForkedNetwork

inductive Request where
  | blockNumberByHash (hash : Felt)
  | transactionByHash (hash : Felt)
  | transactionReceipt (hash : Felt)
  | transactionStatus (hash : Felt)
  | transactionByBlockIdAndIndex (blockId : BlockIdOrTag) (idx : Nat)
  | blockWithTxs (blockId : BlockIdOrTag)
  | blockWithReceipts (blockId : BlockIdOrTag)
  | blockWithTxHashes (blockId : BlockIdOrTag)
  | blockTransactionCount (blockId : BlockIdOrTag)
  | stateUpdate (blockId : BlockIdOrTag)
  | events (fromBlock toBlock : Nat) (address : Option Felt) (keys : Option (List (List Felt)))
      (token : Option String) (chunkSize : Nat)

inductive Answer (P : Payloads) (Hdr Upd : Type) where
  | number (number : Nat)
  | transaction (tx : TxWithHash P)
  | receipt (receipt : TxReceiptWithBlockInfo P)
  | status (status : TransactionStatus)
  | blockWithTxs (block : BlockWith Hdr (TxWithHash P))
  | blockWithReceipts (block : BlockWith Hdr (TxWithHash P × P.Receipt))
  | blockWithTxHashes (block : BlockWith Hdr Felt)
  | stateUpdate (update : MaybePendingStateUpdate Upd)
  | events (page : EventsPage)

def ForkedNetwork.answer (net : ForkedNetwork P Hdr Upd) :
    Request → Except ForkingError (Answer P Hdr Upd)
  | .blockNumberByHash hash => (net.client.getBlockNumberByHash hash).map .number
  | .transactionByHash hash => (net.client.getTransactionByHash hash).map .transaction
  | .transactionReceipt hash => (net.client.getTransactionReceipt hash).map .receipt
  | .transactionStatus hash => (net.client.getTransactionStatus hash).map .status
  | .transactionByBlockIdAndIndex blockId idx =>
    (net.getTransactionByBlockIdAndIndex blockId idx).map .transaction
  | .blockWithTxs blockId => (net.getBlockWithTxs blockId).map .blockWithTxs
  | .blockWithReceipts blockId => (net.getBlockWithReceipts blockId).map .blockWithReceipts
  | .blockWithTxHashes blockId => (net.getBlockWithTxHashes blockId).map .blockWithTxHashes
  | .blockTransactionCount blockId => (net.getBlockTransactionCount blockId).map .number
  | .stateUpdate blockId => (net.getStateUpdate blockId).map .stateUpdate
  | .events fromBlock toBlock address keys token chunkSize =>
    (net.client.getEvents fromBlock toBlock address keys token chunkSize).map .events

/-! The network behind the provider. -/

structure RemoteEntry (P : Payloads) where
  tx : TxWithHash P
  receipt : P.Receipt
  execution : ExecutionStatus

structure RemoteBlock (P : Payloads) (Hdr Upd : Type) where
  hash : Felt
  number : Nat
  finality : FinalityStatus
  header : Hdr
  entries : List (RemoteEntry P)
  stateUpdate : Upd

structure RemotePending (P : Payloads) (Hdr Upd : Type) where
  header : Hdr
  entries : List (RemoteEntry P)
  stateUpdate : Upd

def RemoteBlock.txs (b : RemoteBlock P Hdr Upd) : List (RemoteTx P) :=
  b.entries.map fun e => ⟨e.tx,⟨e.receipt,.block b.hash b.number⟩,b.finality,e.execution⟩

def RemotePending.txs (b : RemotePending P Hdr Upd) : List (RemoteTx P) :=
  b.entries.map fun e => ⟨e.tx,⟨e.receipt,.pending⟩,.acceptedOnL2,e.execution⟩

def remoteTxs (blocks : List (RemoteBlock P Hdr Upd)) (pending : Option (RemotePending P Hdr Upd)) :
    List (RemoteTx P) :=
  blocks.flatMap RemoteBlock.txs++pending.toList.flatMap RemotePending.txs

/-- A state of the network: blocks numbered from 0 on and maybe a pending block. -/
structure Remote (P : Payloads) (Hdr Upd : Type) where
  blocks : List (RemoteBlock P Hdr Upd)
  pending : Option (RemotePending P Hdr Upd)
  numbered : blocks.map RemoteBlock.number=List.range blocks.length

/-- A block of the network that an identifier stands for. -/
inductive Found (P : Payloads) (Hdr Upd : Type) where
  | block (b : RemoteBlock P Hdr Upd)
  | pending (b : RemotePending P Hdr Upd)

def Found.entries : Found P Hdr Upd → List (RemoteEntry P)
  | .block b => b.entries
  | .pending b => b.entries

def Found.blockWith (f : RemoteEntry P → α) : Found P Hdr Upd → MaybePendingBlock Hdr α
  | .block b => .block ⟨b.hash,b.number,b.finality,b.header,b.entries.map f⟩
  | .pending b => .pendingBlock ⟨b.header,b.entries.map f⟩

def Found.update : Found P Hdr Upd → MaybePendingStateUpdate Upd
  | .block b => .update b.stateUpdate
  | .pending b => .pendingUpdate b.stateUpdate

def Found.txAt (idx : Nat) (b : Found P Hdr Upd) : Except StarknetApiError (TxWithHash P) :=
  match b.entries[idx]? with
  | some e => .ok e.tx
  | none => .error .invalidTxnIndex

def Found.number : Found P Hdr Upd → Option Nat
  | .block b => some b.number
  | .pending _ => none

def orBlockNotFound : Option α → Except StarknetApiError α
  | some a => .ok a
  | none => .error .blockNotFound

def EventsOf (P : Payloads) (Hdr Upd : Type) : Type :=
  List (RemoteBlock P Hdr Upd) → EventFilter → Option String → Nat →
    Except StarknetApiError EventsPage

namespace Remote
variable (remote : Remote P Hdr Upd)

def resolve : BlockIdOrTag → Except StarknetApiError (Found P Hdr Upd)
  | .number n => orBlockNotFound (remote.blocks[n]?.map .block)
  | .hash h => orBlockNotFound ((remote.blocks.find? (fun b => b.hash=h)).map .block)
  | .tag .latest => orBlockNotFound (remote.blocks.getLast?.map .block)
  | .tag .pending => orBlockNotFound (remote.pending.map .pending)

def find (hash : Felt) : Option (RemoteTx P) :=
  (remoteTxs remote.blocks remote.pending).find? (fun r => r.tx.hash=hash)

/-- A node that answers as it should. -/
def provider (events : EventsOf P Hdr Upd) : Provider P Hdr Upd where
  getBlockWithTxHashes hash := (remote.resolve (.hash hash)).map Found.number
  getEvents filter token chunkSize :=
    events (remote.blocks.filter fun b => filter.fromBlock ≤ b.number ∧ b.number ≤ filter.toBlock)
      filter token chunkSize
  getTransactionByHash hash := orNotFound ((remote.find hash).map RemoteTx.tx)
  getTransactionReceipt hash := orNotFound ((remote.find hash).map RemoteTx.receipt)
  getTransactionStatus hash := orNotFound ((remote.find hash).map RemoteTx.status)
  blockWithTxHashes blockId := (remote.resolve blockId).map (Found.blockWith fun e => e.tx.hash)
  blockWithTxs blockId := (remote.resolve blockId).map (Found.blockWith RemoteEntry.tx)
  blockWithReceipts blockId :=
    (remote.resolve blockId).map (Found.blockWith fun e => (e.tx,e.receipt))
  transactionByBlockIdAndIndex blockId idx := remote.resolve blockId>>=Found.txAt idx
  blockTransactionCount blockId := (remote.resolve blockId).map (fun b => b.entries.length)
  stateUpdate blockId := (remote.resolve blockId).map Found.update

def upTo (n : Nat) : Remote P Hdr Upd where
  blocks := remote.blocks.take (n+1)
  pending := none
  numbered := by
    rw [List.map_take,remote.numbered,List.length_take,List.take_range]

def forkOf (events : EventsOf P Hdr Upd) (block : Nat) : ForkedNetwork P Hdr Upd :=
  ⟨block,remote.provider events⟩

variable {remote} {b : RemoteBlock P Hdr Upd} {n : Nat}

theorem number_eq {i : Nat} (h : remote.blocks[i]?=some b) : b.number=i := by
  have hnum := congrArg (fun l => l[i]?) remote.numbered
  simp only [List.getElem?_map,h,Option.map_some] at hnum
  obtain ⟨hlt,heq⟩ := List.getElem?_eq_some_iff.mp hnum.symm
  rw [← heq,List.getElem_range]

theorem getElem?_number (h : b∈remote.blocks) : remote.blocks[b.number]?=some b := by
  obtain ⟨i,hi⟩ := List.mem_iff_getElem?.mp h
  rw [number_eq hi,hi]

theorem mem_upTo : b∈(remote.upTo n).blocks ↔ b∈remote.blocks ∧ b.number ≤ n := by
  constructor
  · intro h
    have hlt : b.number<n+1 := by
      have hi := getElem?_number h
      obtain ⟨hlt,-⟩ := List.getElem?_eq_some_iff.mp hi
      exact lt_of_lt_of_le hlt (List.length_take_le _ _)
    exact ⟨List.mem_of_mem_take h,Nat.le_of_lt_succ hlt⟩
  · rintro ⟨hb,hn⟩
    have hi : (remote.upTo n).blocks[b.number]?=some b := by
      rw [upTo,List.getElem?_take_of_lt (Nat.lt_succ_of_le hn),getElem?_number hb]
    exact List.mem_of_getElem? hi

theorem number_of_mem_drop (h : b∈remote.blocks.drop n) : n ≤ b.number := by
  obtain ⟨i,hi⟩ := List.mem_iff_getElem?.mp h
  rw [List.getElem?_drop] at hi
  rw [number_eq hi]
  exact Nat.le_add_right n i

/-- A search that finds a block of the range finds it also without the later blocks. -/
theorem find?_upTo {p : RemoteBlock P Hdr Upd → Bool} (h : remote.blocks.find? p=some b)
    (hn : b.number ≤ n) : (remote.upTo n).blocks.find? p=some b := by
  have hsplit := List.take_append_drop (n+1) remote.blocks
  rw [← hsplit,List.find?_append] at h
  rw [upTo]
  cases ht : (remote.blocks.take (n+1)).find? p with
  | some b' =>
    rw [ht] at h
    exact h
  | none =>
    rw [ht,Option.none_or] at h
    have := number_of_mem_drop (List.mem_of_find?_eq_some h)
    omega

theorem orBlockNotFound_map {f : β → α} {o : Option β} {a : α} :
    orBlockNotFound (o.map f)=.ok a ↔ ∃ b, o=some b ∧ f b=a := by
  cases o <;> simp [orBlockNotFound]

theorem resolve_upTo {blockId : BlockIdOrTag} (h : remote.resolve blockId=.ok (.block b))
    (hn : b.number ≤ n) : (remote.upTo n).resolve blockId=.ok (.block b) := by
  cases blockId with
  | number k =>
    obtain ⟨b',hk,he⟩ := orBlockNotFound_map.mp h
    cases he
    have hlt : k<n+1 := by
      rw [← number_eq hk]
      exact Nat.lt_succ_of_le hn
    rw [resolve,upTo,List.getElem?_take_of_lt hlt,hk]
    rfl
  | hash k =>
    obtain ⟨b',hk,he⟩ := orBlockNotFound_map.mp h
    cases he
    rw [resolve,find?_upTo hk hn]
    rfl
  | tag t =>
    cases t with
    | latest =>
      obtain ⟨b',hk,he⟩ := orBlockNotFound_map.mp h
      cases he
      rw [List.getLast?_eq_getElem?] at hk
      have hnum := number_eq hk
      have hall : (remote.upTo n).blocks=remote.blocks := List.take_of_length_le (by omega)
      rw [resolve,hall,List.getLast?_eq_getElem?,hk]
      rfl
    | pending =>
      obtain ⟨p,-,he⟩ := orBlockNotFound_map.mp h
      cases he

/-- The transaction is in a block of the range. -/
def Within (n : Nat) (r : RemoteTx P) : Prop :=
  ∃ hash number, r.receipt.block=.block hash number ∧ number ≤ n

theorem within_of_mem_upTo (h : r∈(remote.upTo n).blocks.flatMap RemoteBlock.txs) : Within n r := by
  obtain ⟨b,hb,hr⟩ := List.mem_flatMap.mp h
  obtain ⟨e,-,rfl⟩ := List.mem_map.mp hr
  exact ⟨_,_,rfl,(mem_upTo.mp hb).2⟩

theorem not_within_of_later (h : r∈(remote.blocks.drop (n+1)).flatMap RemoteBlock.txs++
      remote.pending.toList.flatMap RemotePending.txs) : ¬Within n r := by
  rintro ⟨hash,number,hb,hn⟩
  obtain h | h := List.mem_append.mp h
  · obtain ⟨b,hmem,hr⟩ := List.mem_flatMap.mp h
    obtain ⟨e,-,rfl⟩ := List.mem_map.mp hr
    cases hb
    have := number_of_mem_drop hmem
    omega
  · obtain ⟨b,-,hr⟩ := List.mem_flatMap.mp h
    obtain ⟨e,-,rfl⟩ := List.mem_map.mp hr
    cases hb

theorem find_eq (n : Nat) (hash : Felt) :
    remote.find hash=((remote.upTo n).find hash).or
      (((remote.blocks.drop (n+1)).flatMap RemoteBlock.txs++
        remote.pending.toList.flatMap RemotePending.txs).find? (fun r => r.tx.hash=hash)) := by
  rw [find,find,← List.find?_append]
  congr 1
  simp only [remoteTxs,upTo,Option.toList_none,List.flatMap_nil,List.append_nil]
  rw [← List.append_assoc,← List.flatMap_append,List.take_append_drop]

theorem find_upTo_within (h : (remote.upTo n).find hash=some r) : Within n r := by
  have hmem := List.mem_of_find?_eq_some h
  simp only [remoteTxs,upTo,Option.toList_none,List.flatMap_nil,List.append_nil] at hmem
  exact within_of_mem_upTo hmem

theorem find_upTo (h : remote.find hash=some r) (hw : Within n r) :
    (remote.upTo n).find hash=some r := by
  rw [find_eq n] at h
  cases hu : (remote.upTo n).find hash with
  | some r' =>
    rw [hu] at h
    exact h
  | none =>
    rw [hu,Option.none_or] at h
    exact absurd hw (not_within_of_later (List.mem_of_find?_eq_some h))

theorem find_upTo_none (h : remote.find hash=some r) (hw : ¬Within n r) :
    (remote.upTo n).find hash=none := by
  rw [find_eq n] at h
  cases hu : (remote.upTo n).find hash with
  | none => rfl
  | some r' =>
    rw [hu] at h
    cases h
    exact absurd (find_upTo_within hu) hw

end Remote

/-- How a node of the network answers: for the block that an identifier stands for and for the
transactions of the network. Events are a function of the blocks of the filter. -/
structure Provider.Answers (node : Provider P Hdr Upd) (remote : Remote P Hdr Upd)
    (events : EventsOf P Hdr Upd) : Prop extends node.toRemoteProvider.Answers remote.find where
  number : ∀ hash, node.getBlockWithTxHashes hash=(remote.resolve (.hash hash)).map Found.number
  events : ∀ filter token chunkSize, node.getEvents filter token chunkSize=
    events (remote.blocks.filter fun b => filter.fromBlock ≤ b.number ∧ b.number ≤ filter.toBlock)
      filter token chunkSize
  txHashes : ∀ blockId, node.blockWithTxHashes blockId=
    (remote.resolve blockId).map (Found.blockWith fun e => e.tx.hash)
  txs : ∀ blockId, node.blockWithTxs blockId=
    (remote.resolve blockId).map (Found.blockWith RemoteEntry.tx)
  receipts : ∀ blockId, node.blockWithReceipts blockId=
    (remote.resolve blockId).map (Found.blockWith fun e => (e.tx,e.receipt))
  byIndex : ∀ blockId idx, node.transactionByBlockIdAndIndex blockId idx=
    remote.resolve blockId>>=Found.txAt idx
  count : ∀ blockId, node.blockTransactionCount blockId=
    (remote.resolve blockId).map fun b => b.entries.length
  update : ∀ blockId, node.stateUpdate blockId=(remote.resolve blockId).map Found.update

/-- The nodes of the network, one for each of its states. -/
structure Network (P : Payloads) (Hdr Upd : Type) where
  node : Remote P Hdr Upd → Provider P Hdr Upd
  events : EventsOf P Hdr Upd
  answers : ∀ remote, (node remote).Answers remote events

theorem Provider.Answers.eq {node : Provider P Hdr Upd} {remote : Remote P Hdr Upd}
    {events : EventsOf P Hdr Upd} (h : node.Answers remote events) :
    node=remote.provider events :=
  Provider.ext (funext h.number)
    (funext fun filter => funext fun token => funext (h.events filter token))
    (funext h.transaction) (funext h.receipt) (funext h.status) (funext h.txHashes) (funext h.txs) (funext h.receipts)
    (funext fun blockId => funext (h.byIndex blockId)) (funext h.count) (funext h.update)

/-- A client that forked from the network at a block. -/
def Remote.fork (remote : Remote P Hdr Upd) (network : Network P Hdr Upd) (block : Nat) :
    ForkedNetwork P Hdr Upd := ⟨block,network.node remote⟩

theorem Remote.fork_eq (remote : Remote P Hdr Upd) (network : Network P Hdr Upd) (block : Nat) :
    remote.fork network block=remote.forkOf network.events block :=
  congrArg (ForkedNetwork.mk block) (network.answers remote).eq

/-- An answer that is the same in the other state, or an error. -/
def SameOrError {ε : Type} (x y : Except ε α) : Prop := x=y ∨ ∃ e, x=.error e

theorem SameOrError.map {ε : Type} {x y : Except ε α} (f : α → β) (h : SameOrError x y) :
    SameOrError (x.map f) (y.map f) := by
  obtain rfl | ⟨e,rfl⟩ := h
  · exact .inl rfl
  · exact .inr ⟨e,rfl⟩

theorem bind_error {ε : Type} {x : Except ε α} {f : α → Except ε β} {e : ε} (h : x=.error e) :
    (x>>=f)=.error e := by
  rw [h]
  rfl

namespace Remote
variable {remote : Remote P Hdr Upd} {events : EventsOf P Hdr Upd} {n : Nat}
  {blockId : BlockIdOrTag}

theorem resolve_cases (remote : Remote P Hdr Upd) (n : Nat) (blockId : BlockIdOrTag) :
    (∃ e, remote.resolve blockId=.error e) ∨
    (∃ b, remote.resolve blockId=.ok (.block b) ∧ b.number ≤ n ∧
      (remote.upTo n).resolve blockId=.ok (.block b)) ∨
    (∃ b, remote.resolve blockId=.ok (.block b) ∧ n<b.number) ∨
    (∃ b, remote.resolve blockId=.ok (.pending b) ∧ blockId=.tag .pending) := by
  cases hr : remote.resolve blockId with
  | error e => exact .inl ⟨e,rfl⟩
  | ok found =>
    cases found with
    | block b =>
      by_cases hn : b.number ≤ n
      · exact .inr (.inl ⟨b,rfl,hn,resolve_upTo hr hn⟩)
      · exact .inr (.inr (.inl ⟨b,rfl,Nat.lt_of_not_le hn⟩))
    | pending b =>
      refine .inr (.inr (.inr ⟨b,rfl,?_⟩))
      cases blockId with
      | number k | hash k =>
        obtain ⟨b',-,he⟩ := orBlockNotFound_map.mp hr
        cases he
      | tag t =>
        cases t with
        | pending => rfl
        | latest =>
          obtain ⟨b',-,he⟩ := orBlockNotFound_map.mp hr
          cases he

theorem resolve_number {k : Nat} (hk : k ≤ n) :
    (remote.upTo n).resolve (.number k)=remote.resolve (.number k) := by
  rw [resolve,resolve,upTo,List.getElem?_take_of_lt (Nat.lt_succ_of_le hk)]

/-- A result that comes from a block is isolated when errors, later blocks and the pending block
all end in errors. -/
theorem same_of_resolve (F : Except StarknetApiError (Found P Hdr Upd) → Except ForkingError α)
    (herror : ∀ e, ∃ e', F (.error e)=.error e')
    (hlater : ∀ b, n<b.number → ∃ e', F (.ok (.block b))=.error e')
    (hpending : blockId=.tag .pending → ∀ b, ∃ e', F (.ok (.pending b))=.error e') :
    SameOrError (F (remote.resolve blockId)) (F ((remote.upTo n).resolve blockId)) := by
  obtain ⟨e,h⟩ | ⟨b,h,-,h'⟩ | ⟨b,h,hn⟩ | ⟨b,h,htag⟩ := resolve_cases remote n blockId
  · rw [h]
    exact .inr (herror e)
  · rw [h,h']
    exact .inl rfl
  · rw [h]
    exact .inr (hlater b hn)
  · rw [h]
    exact .inr (hpending htag b)

theorem numberByHash_eq (hash : Felt) : (remote.forkOf events n).client.getBlockNumberByHash hash=
    (((remote.resolve (.hash hash)).map Found.number).mapError ForkingError.provider >>=
      fun found => found.elim (.error .unexpectedPendingData)
        (fun number => if n<number then .error .blockOutOfRange else .ok number)) := by
  change (_>>=_)=(_>>=_)
  congr 1
  funext found
  cases found with
  | none | some number => rfl

theorem numberByHash_same (hash : Felt) :
    SameOrError ((remote.forkOf events n).client.getBlockNumberByHash hash)
      (((remote.upTo n).forkOf events n).client.getBlockNumberByHash hash) := by
  rw [numberByHash_eq,numberByHash_eq]
  refine same_of_resolve (fun r => (r.map Found.number).mapError ForkingError.provider >>=
    fun found => found.elim (.error .unexpectedPendingData)
      (fun number => if n<number then .error .blockOutOfRange else .ok number)) ?_ ?_ ?_
  · exact fun e => ⟨.provider e,rfl⟩
  · exact fun b hn => ⟨.blockOutOfRange,if_pos hn⟩
  · exact fun htag => nomatch htag

theorem blockWith_same (f : RemoteEntry P → α) :
    SameOrError
      (((remote.resolve blockId).map (Found.blockWith f)).mapError ForkingError.provider >>=
        (remote.forkOf events n).inRange)
      ((((remote.upTo n).resolve blockId).map (Found.blockWith f)).mapError
        ForkingError.provider >>= ((remote.upTo n).forkOf events n).inRange) := by
  refine same_of_resolve (fun r => (r.map (Found.blockWith f)).mapError ForkingError.provider >>=
    (remote.forkOf events n).inRange) ?_ ?_ ?_
  · exact fun e => ⟨.provider e,rfl⟩
  · exact fun b hn => ⟨.blockOutOfRange,if_pos hn⟩
  · exact fun _ b => ⟨.unexpectedPendingData,rfl⟩

theorem byIndex_same (idx : Nat) :
    SameOrError ((remote.forkOf events n).getTransactionByBlockIdAndIndex blockId idx)
      (((remote.upTo n).forkOf events n).getTransactionByBlockIdAndIndex blockId idx) := by
  cases blockId with
  | number k =>
    by_cases hk : n<k
    · exact .inr ⟨.blockOutOfRange,if_pos hk⟩
    · refine .inl ?_
      simp only [ForkedNetwork.getTransactionByBlockIdAndIndex,forkOf,provider,
        resolve_number (Nat.le_of_not_lt hk)]
      rfl
  | hash k =>
    refine same_of_resolve (fun r => do
      let block ← (r.map (Found.blockWith fun e => e.tx.hash)).mapError ForkingError.provider
      let _ ← (remote.forkOf events n).inRange block
      (r>>=Found.txAt idx).mapError ForkingError.provider) ?_ ?_ ?_
    · exact fun e => ⟨.provider e,rfl⟩
    · intro b hn
      have hrange : (remote.forkOf events n).inRange
          (Found.blockWith (fun e => e.tx.hash) (.block b))=.error .blockOutOfRange := if_pos hn
      refine ⟨.blockOutOfRange,?_⟩
      change ((remote.forkOf events n).inRange
        (Found.blockWith (fun e => e.tx.hash) (.block b))>>=_)=_
      exact bind_error hrange
    · exact fun htag => nomatch htag
  | tag t => exact .inl rfl

theorem checked_same (g : Found P Hdr Upd → α) :
    SameOrError
      (do
        (remote.forkOf events n).checkBlockId blockId
        ((remote.resolve blockId).map g).mapError ForkingError.provider)
      (do
        ((remote.upTo n).forkOf events n).checkBlockId blockId
        (((remote.upTo n).resolve blockId).map g).mapError ForkingError.provider) := by
  cases blockId with
  | number k =>
    by_cases hk : n<k
    · exact .inr ⟨.blockOutOfRange,bind_error (if_pos hk)⟩
    · refine .inl ?_
      rw [resolve_number (Nat.le_of_not_lt hk)]
      rfl
  | hash k =>
    refine same_of_resolve (fun r => do
      (do
        match ← (r.map (Found.blockWith fun e => e.tx.hash)).mapError ForkingError.provider with
        | .block b => if n<b.number then .error .blockOutOfRange else .ok ()
        | .pendingBlock _ => .ok () : Except ForkingError Unit)
      (r.map g).mapError ForkingError.provider) ?_ ?_ ?_
    · exact fun e => ⟨.provider e,rfl⟩
    · exact fun b hn => ⟨.blockOutOfRange,bind_error (if_pos hn)⟩
    · exact fun htag => nomatch htag
  | tag t => exact .inl rfl

theorem events_same (fromBlock toBlock : Nat) (address : Option Felt)
    (keys : Option (List (List Felt))) (token : Option String) (chunkSize : Nat) :
    SameOrError
      ((remote.forkOf events n).client.getEvents fromBlock toBlock address keys token chunkSize)
      (((remote.upTo n).forkOf events n).client.getEvents fromBlock toBlock address keys token
        chunkSize) := by
  by_cases h : n<fromBlock ∨ n<toBlock
  · exact .inr ⟨.blockOutOfRange,if_pos h⟩
  · refine .inl ?_
    have hblocks : (remote.upTo n).blocks.filter
        (fun b => fromBlock ≤ b.number ∧ b.number ≤ toBlock)=
        remote.blocks.filter (fun b => fromBlock ≤ b.number ∧ b.number ≤ toBlock) := by
      have hlater : (remote.blocks.drop (n+1)).filter
          (fun b => fromBlock ≤ b.number ∧ b.number ≤ toBlock)=[] := by
        rw [List.filter_eq_nil_iff]
        intro b hb
        have := number_of_mem_drop hb
        simp only [decide_eq_true_eq,not_and]
        omega
      rw [upTo]
      nth_rewrite 2 [← List.take_append_drop (n+1) remote.blocks]
      rw [List.filter_append,hlater,List.append_nil]
    simp only [ForkedClient.getEvents,ForkedNetwork.client,forkOf,provider,hblocks]
    rfl

/-- The answer is the one against the network that ends at the fork block, or an error. -/
def Isolated (remote : Remote P Hdr Upd) (network : Network P Hdr Upd) (block : Nat)
    (request : Request) : Prop :=
  SameOrError ((remote.fork network block).answer request)
    (((remote.upTo block).fork network block).answer request)

/-- The hash is of a transaction after the fork block, or of the pending block. -/
def Reveals (remote : Remote P Hdr Upd) (block : Nat) : Request → Prop
  | .transactionByHash hash => ∃ r, remote.find hash=some r ∧ ¬Within block r
  | .transactionReceipt hash | .transactionStatus hash =>
    ∃ r, remote.find hash=some r ∧ r.receipt.block=.pending
  | _ => False

theorem not_sameOrError {ε : Type} {x y : Except ε α} {a : α} {e : ε} (hx : x=.ok a)
    (hy : y=.error e) : ¬SameOrError x y := by
  rintro (h | ⟨e',h⟩)
  · rw [hx,hy] at h
    cases h
  · rw [hx] at h
    cases h

theorem same_of_find_iff (G : Option (RemoteTx P) → Except ForkingError α) {e : ForkingError}
    (hnone : G none=.error e) :
    SameOrError (G (remote.find hash)) (G ((remote.upTo n).find hash)) ↔
      ¬∃ r, remote.find hash=some r ∧ ¬Within n r ∧ ∃ a, G (some r)=.ok a := by
  cases hf : remote.find hash with
  | none =>
    refine ⟨fun _ h => ?_,fun _ => .inr ⟨e,hnone⟩⟩
    obtain ⟨r,hr,-⟩ := h
    cases hr
  | some r =>
    by_cases hw : Within n r
    · rw [find_upTo hf hw]
      refine ⟨fun _ h => ?_,fun _ => .inl rfl⟩
      obtain ⟨r',hr,hn,-⟩ := h
      cases hr
      exact hn hw
    · rw [find_upTo_none hf hw,hnone]
      cases hg : G (some r) with
      | ok a =>
        exact ⟨fun h => absurd h (not_sameOrError rfl rfl),
          fun h => absurd ⟨r,rfl,hw,a,hg⟩ h⟩
      | error e' =>
        refine ⟨fun _ h => ?_,fun _ => .inr ⟨e',rfl⟩⟩
        obtain ⟨r',hr,-,a,ha⟩ := h
        cases hr
        rw [hg] at ha
        cases ha

theorem not_within_pending (h : r.receipt.block=.pending) : ¬Within n r := by
  rintro ⟨hash,number,hb,-⟩
  rw [h] at hb
  cases hb

def checkReceipt (block : Nat) (receipt : TxReceiptWithBlockInfo P) :
    Except ForkingError (TxReceiptWithBlockInfo P) :=
  match receipt.block with
  | .block _ number => if block<number then .error .blockOutOfRange else .ok receipt
  | .pending => .ok receipt

theorem checkReceipt_eq (hw : ¬Within n r) :
    checkReceipt n r.receipt=.ok r.receipt ∧ r.receipt.block=.pending ∨
      checkReceipt n r.receipt=.error .blockOutOfRange ∧ r.receipt.block≠.pending := by
  rw [checkReceipt]
  cases hb : r.receipt.block with
  | pending => exact .inl ⟨rfl,rfl⟩
  | block hash number =>
    have hn : n<number := by
      by_contra hle
      exact hw ⟨hash,number,hb,Nat.le_of_not_lt hle⟩
    exact .inr ⟨if_pos hn,by simp⟩

theorem same_of_checked_iff (G : RemoteTx P → TxReceiptWithBlockInfo P → Except ForkingError α)
    (hok : ∀ r receipt, ∃ a, G r receipt=.ok a) :
    SameOrError
      ((remote.find hash).elim (.error (.provider .txnHashNotFound))
        fun r => checkReceipt n r.receipt>>=G r)
      (((remote.upTo n).find hash).elim (.error (.provider .txnHashNotFound))
        fun r => checkReceipt n r.receipt>>=G r) ↔
    ¬∃ r, remote.find hash=some r ∧ r.receipt.block=.pending := by
  refine (same_of_find_iff (fun o => o.elim (.error (.provider .txnHashNotFound))
    fun r => checkReceipt n r.receipt>>=G r) rfl).trans (not_congr ?_)
  refine exists_congr fun r => and_congr_right fun _ => ?_
  constructor
  · rintro ⟨hw,a,ha⟩
    obtain ⟨-,hp⟩ | ⟨hc,-⟩ := checkReceipt_eq hw
    · exact hp
    · rw [Option.elim_some,bind_error hc] at ha
      cases ha
  · intro hp
    have hw : ¬Within n r := not_within_pending hp
    obtain ⟨hc,-⟩ | ⟨-,hne⟩ := checkReceipt_eq hw
    · obtain ⟨a,ha⟩ := hok r r.receipt
      refine ⟨hw,a,?_⟩
      rw [Option.elim_some,hc]
      exact ha
    · exact absurd hp hne

theorem txByHash_same_iff :
    SameOrError ((remote.forkOf events n).answer (.transactionByHash hash))
      (((remote.upTo n).forkOf events n).answer (.transactionByHash hash)) ↔
      ¬remote.Reveals n (.transactionByHash hash) := by
  refine (same_of_find_iff (fun o =>
    ((orNotFound (o.map RemoteTx.tx)).mapError ForkingError.provider).map Answer.transaction)
    rfl).trans (not_congr ?_)
  refine exists_congr fun r => and_congr_right fun _ => ?_
  exact ⟨fun h => h.1,fun h => ⟨h,.transaction r.tx,rfl⟩⟩

variable (remote : Remote P Hdr Upd)

theorem receipt_eq (hash : Felt) :
    (remote.forkOf events n).client.getTransactionReceipt hash=(remote.find hash).elim
      (.error (.provider .txnHashNotFound)) fun r => checkReceipt n r.receipt := by
  simp only [ForkedClient.getTransactionReceipt,ForkedNetwork.client,forkOf,provider]
  cases remote.find hash with
  | none | some r => rfl

theorem answer_receipt (hash : Felt) : (remote.forkOf events n).answer (.transactionReceipt hash)=
      (remote.find hash).elim (.error (.provider .txnHashNotFound))
        fun r => checkReceipt n r.receipt>>=fun receipt => .ok (.receipt receipt) := by
  rw [ForkedNetwork.answer,receipt_eq]
  cases remote.find hash with
  | none => rfl
  | some r =>
    rw [Option.elim_some,Option.elim_some]
    cases checkReceipt n r.receipt with
    | ok receipt | error e => rfl

theorem answer_status (hash : Felt) : (remote.forkOf events n).answer (.transactionStatus hash)=
      (remote.find hash).elim (.error (.provider .txnHashNotFound))
        fun r => checkReceipt n r.receipt>>=fun _ => .ok (.status r.status) := by
  rw [ForkedNetwork.answer,ForkedClient.getTransactionStatus,receipt_eq]
  cases hf : remote.find hash with
  | none => rfl
  | some r =>
    simp only [ForkedNetwork.client,forkOf,provider,hf,Option.elim_some]
    cases checkReceipt n r.receipt with
    | ok receipt | error e => rfl

/-- For every state of the network, every fork block and every request: the answer is isolated
exactly when the hash is not of a transaction that the client forgets to refuse. -/
theorem isolated_iff (network : Network P Hdr Upd) (block : Nat) (request : Request) :
    remote.Isolated network block request ↔ ¬remote.Reveals block request := by
  rw [Isolated,fork_eq,fork_eq]
  cases request with
  | blockNumberByHash hash => exact ⟨fun _ h => h,fun _ => (numberByHash_same hash).map _⟩
  | transactionByHash hash => exact txByHash_same_iff
  | transactionReceipt hash =>
    rw [answer_receipt,answer_receipt]
    exact same_of_checked_iff _ (fun _ receipt => ⟨.receipt receipt,rfl⟩)
  | transactionStatus hash =>
    rw [answer_status,answer_status]
    exact same_of_checked_iff (fun r _ => .ok (Answer.status r.status)) (fun r _ => ⟨_,rfl⟩)
  | transactionByBlockIdAndIndex blockId idx =>
    exact ⟨fun _ h => h,fun _ => (byIndex_same idx).map _⟩
  | blockWithTxs blockId | blockWithReceipts blockId | blockWithTxHashes blockId =>
    exact ⟨fun _ h => h,fun _ => (blockWith_same _).map _⟩
  | blockTransactionCount blockId | stateUpdate blockId =>
    exact ⟨fun _ h => h,fun _ => (checked_same _).map _⟩
  | events fromBlock toBlock address keys token chunkSize =>
    exact ⟨fun _ h => h,
      fun _ => (events_same fromBlock toBlock address keys token chunkSize).map _⟩

end Remote

def sampleEntry (hash : Felt) : RemoteEntry unitPayloads := ⟨⟨hash,()⟩,(),.succeeded⟩

/-- A network with two blocks and a pending block, with the transactions 7, 8 and 9. -/
def sampleRemote : Remote unitPayloads Unit Unit where
  blocks := [⟨100,0,.acceptedOnL2,(),[sampleEntry 7],()⟩,⟨101,1,.acceptedOnL2,(),[sampleEntry 8],()⟩]
  pending := some ⟨(),[sampleEntry 9],()⟩
  numbered := rfl

def sampleNetwork : Network unitPayloads Unit Unit where
  node remote := remote.provider fun _ _ _ _ => .ok { events := [] }
  events := fun _ _ _ _ => .ok { events := [] }
  answers _ := {
    transaction := fun _ => rfl, receipt := fun _ => rfl, status := fun _ => rfl
    number := fun _ => rfl, events := fun _ _ _ => rfl, txHashes := fun _ => rfl
    txs := fun _ => rfl, receipts := fun _ => rfl, byIndex := fun _ _ => rfl
    count := fun _ => rfl, update := fun _ => rfl }

/-- Forked at block 0, the client hands out the transaction of block 1 and the transaction, the
receipt and the status of the pending block. -/
theorem fork_not_isolated :
    (sampleRemote.fork sampleNetwork 0).answer (.transactionByHash 8)=.ok (.transaction ⟨8,()⟩) ∧
    (sampleRemote.fork sampleNetwork 0).answer (.transactionByHash 9)=.ok (.transaction ⟨9,()⟩) ∧
    (sampleRemote.fork sampleNetwork 0).answer (.transactionReceipt 9)=.ok (.receipt ⟨(),.pending⟩) ∧
    (sampleRemote.fork sampleNetwork 0).answer (.transactionStatus 9)=
      .ok (.status (.acceptedOnL2 .succeeded)) ∧
    ((sampleRemote.upTo 0).fork sampleNetwork 0).answer (.transactionByHash 8)=
      .error (.provider .txnHashNotFound) ∧
    ((sampleRemote.upTo 0).fork sampleNetwork 0).answer (.transactionReceipt 9)=
      .error (.provider .txnHashNotFound) ∧
    ¬sampleRemote.Isolated sampleNetwork 0 (.transactionByHash 8) ∧
    ¬sampleRemote.Isolated sampleNetwork 0 (.transactionReceipt 9) :=
  ⟨rfl,rfl,rfl,rfl,rfl,rfl,Remote.not_sameOrError rfl rfl,Remote.not_sameOrError rfl rfl⟩

end Katana.Rpc
