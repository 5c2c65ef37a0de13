import Katana.Base.Paging
import Katana.Core.StateRoot
import Katana.Provider.Transactions
import Katana.Rpc.Api

/-! Pages of events (rpc/utils/events.rs). A cursor names a block, a transaction of it and the
number of matching events of that transaction that have been read. -/
namespace Katana.Rpc
open Paging
open Service (ExecutionResult)
variable {P : Payloads}

inductive EventError where
  | invalidCursor
  | provider (e : ProviderError)
  | other (message : String)
  deriving DecidableEq, Repr

structure Filter where
  address : Option Felt := none
  keys : Option (List (List Felt)) := none
  deriving DecidableEq, Repr

/-- An event within a block. -/
structure PartialCursor where
  idx : Nat := 0
  event : Nat := 0
  deriving DecidableEq, Repr

structure Cursor where
  block : Nat
  txn : PartialCursor
  deriving DecidableEq, Repr

def Cursor.newBlock (block : Nat) : Cursor := ⟨block,{}⟩

def PartialCursor.intoFull (c : PartialCursor) (block : Nat) : Cursor := ⟨block,c⟩

structure EmittedEvent where
  blockHash : Option Felt
  blockNumber : Option Nat
  keys : List Felt
  data : List Felt
  transactionHash : Felt
  fromAddress : Felt
  deriving DecidableEq, Repr

/-- The address is the one asked for, and at every position of the filter the event has a key,
one of those listed there if there are any. -/
def Filter.isMatched (filter : Filter) (event : Event) : Bool :=
  !filter.address.any (fun addr => addr≠event.fromAddress) &&
  match filter.keys with
  | none => true
  | some filters => filters.zipIdx.all (fun p => match event.keys[p.2]? with
    | none => false
    | some key => p.1.isEmpty || p.1.contains key)

def filteredEvents (filter : Filter) (events : List Event) : List Event :=
  events.filter filter.isMatched

def emitted (blockNumber : Option Nat) (blockHash : Option Felt) (txHash : Felt) (e : Event) :
    EmittedEvent :=
  ⟨blockHash,blockNumber,e.keys,e.data,txHash,e.fromAddress⟩

/-- The events of a transaction. They are enumerated after the filter, so that an event number
counts the matching ones. -/
def fetchTxEvents (nextEventIdx : Nat) (blockNumber : Option Nat) (blockHash : Option Felt)
    (txIdx : Nat) (txHash : Felt) (events : List Event) (filter : Filter) (chunkSize : Nat)
    (buffer : List EmittedEvent) : Option PartialCursor × List EmittedEvent :=
  let totalCanTake := chunkSize-buffer.length
  let filtered := ((((filteredEvents filter events).map
    (emitted blockNumber blockHash txHash)).zipIdx).drop nextEventIdx).take totalCanTake
  let totalEventsTraversed := nextEventIdx+totalCanTake
  let lastEventIdx := (filtered.getLast?.map Prod.snd).getD totalEventsTraversed
  let buffer := buffer++filtered.map Prod.fst
  if chunkSize ≤ buffer.length then
    let newLastEvent := if totalCanTake=0 then lastEventIdx else lastEventIdx+1
    -- the length is that of all events of the transaction
    if newLastEvent<events.length then (some ⟨txIdx,newLastEvent⟩,buffer) else (none,buffer)
  else (none,buffer)

/-- The body of the loop over the transactions of a block. The event to start from is chosen
by the reader of the block; none goes on to the next transaction. -/
def fetchTx (filter : Filter) (chunkSize block : Nat) (blockNumber : Option Nat)
    (blockHash : Option Felt) (nextEvent : Nat → List Event → Option Nat)
    (tx : (Felt × List Event) × Nat) (buffer : List EmittedEvent) :
    Except EventError (Option Cursor × List EmittedEvent) :=
  match nextEvent tx.2 tx.1.2 with
  | none => .ok (none,buffer)
  | some e =>
    let r := fetchTxEvents e blockNumber blockHash tx.2 tx.1.1 tx.1.2 filter chunkSize buffer
    .ok (r.1.map (fun c => c.intoFull block),r.2)

/-- The cursor of a mined block is left behind at the last event of its transaction. -/
def Cursor.nextEvent (cursor : Cursor) (blockNum txIdx : Nat) (events : List Event) : Option Nat :=
  if blockNum=cursor.block ∧ txIdx=cursor.txn.idx then
    if cursor.txn.event<events.length then some cursor.txn.event else none
  else some 0

/-- The reader of the pending block does not look at the block of the cursor. -/
def Cursor.nextPendingEvent (cursor : Cursor) (txIdx : Nat) (events : List Event) : Option Nat :=
  if txIdx=cursor.txn.idx then
    if cursor.txn.event ≤ events.length then some cursor.txn.event else none
  else some 0

/-- A read of the provider with a context for a missing value. -/
def context {α : Type} (message : String) (r : Except ProviderError (Option α)) :
    Except EventError α :=
  match r with
  | .error e => .error (.provider e)
  | .ok none => .error (.other message)
  | .ok (some a) => .ok a

section Mined
variable (K : Backend P)

def fetchBlock (db : Db P) (filter : Filter) (chunkSize : Nat) (cursor : Cursor) (blockNum : Nat)
    (buffer : List EmittedEvent) : Except EventError (Option Cursor × List EmittedEvent) := do
  let blockHash ← context "Missing block hash" (blockHashByNum db blockNum)
  let receipts ← context "Missing receipts" (receiptsByBlock db (.num blockNum))
  let bodyIndex ← context "Missing block body index" (blockBodyIndices db (.num blockNum))
  let txHashes ← (transactionHashesInRange db bodyIndex.txOffset bodyIndex.stop).mapError .provider
  if blockNum=cursor.block ∧ receipts.length<cursor.txn.idx then return (none,buffer)
  let totalTxToSkip := if blockNum=cursor.block then cursor.txn.idx else 0
  readAll (fetchTx filter chunkSize blockNum (some blockNum) (some blockHash)
    (cursor.nextEvent blockNum)) ((txHashes.zip (receipts.map K.events)).zipIdx.drop totalTxToSkip)
    buffer

def fetchEventsAtBlocks (db : Db P) (start stop : Nat) (filter : Filter) (chunkSize : Nat)
    (cursor : Option Cursor) (buffer : List EmittedEvent) :
    Except EventError (Option Cursor × List EmittedEvent) :=
  let cursor := cursor.getD (Cursor.newBlock start)
  readAll (fetchBlock K db filter chunkSize cursor)
    (List.range' cursor.block (stop+1-cursor.block)) buffer

end Mined

/-- What the pending executor shows of the block that is being built. -/
structure PendingExecutor (K : Backend P) where
  blockEnv : BlockEnv
  transactions : List (TxWithHash P × ExecutionResult (P.Receipt × K.Trace)) := []

section Pending
variable {K : Backend P}

/-- Transactions that failed have no receipt and are not counted. -/
def PendingExecutor.receipts (executor : PendingExecutor K) : List (Felt × List Event) :=
  executor.transactions.filterMap (fun r => match r.2 with
    | .success res => some (r.1.hash,K.events res.1)
    | .failed _ => none)

/-- The pending block never ends: behind its last transaction the answer is the position
after all transactions, the failed ones included. -/
def fetchPendingEvents (executor : PendingExecutor K) (filter : Filter) (chunkSize : Nat)
    (cursor : Option Cursor) (buffer : List EmittedEvent) :
    Except EventError (Cursor × List EmittedEvent) :=
  let cursor := cursor.getD (Cursor.newBlock executor.blockEnv.number)
  match readAll (fetchTx filter chunkSize executor.blockEnv.number none none
      cursor.nextPendingEvent) (executor.receipts.zipIdx.drop cursor.txn.idx) buffer with
  | .error e => .error e
  | .ok (some c,buffer) => .ok (c,buffer)
  | .ok (none,buffer) =>
    .ok (⟨executor.blockEnv.number,executor.transactions.length,0⟩,buffer)

end Pending

variable {buffer : List EmittedEvent}

section Tx
variable {filter : Filter} {chunkSize : Nat} {blockNumber : Option Nat} {blockHash : Option Felt}

def matching (filter : Filter) (blockNumber : Option Nat) (blockHash : Option Felt)
    (tx : Felt × List Event) : List EmittedEvent :=
  (filteredEvents filter tx.2).map (emitted blockNumber blockHash tx.1)

theorem matching_length_le (tx : Felt × List Event) :
    (matching filter blockNumber blockHash tx).length ≤ tx.2.length := by
  rw [matching,List.length_map]
  exact List.length_filter_le _ _

theorem next_of_full {α : Type} {w : List α} {next k : Nat} (hk : w.length=k) :
    (if k=0 then ((w.zipIdx next).getLast?.map Prod.snd).getD (next+k)
      else ((w.zipIdx next).getLast?.map Prod.snd).getD (next+k)+1)=next+k := by
  subst hk
  cases w using List.reverseRecOn with
  | nil => rfl
  | append_singleton w a =>
    rw [List.getLast?_zipIdx,if_neg (by simp)]
    simp only [List.getLast?_concat,Option.map_some,Option.getD_some,List.length_append,
      List.length_singleton]
    omega

/-- The events that fit are taken. The cursor, if any, stands before the first event that
did not fit. -/
theorem fetchTxEvents_eq (next txIdx : Nat) (tx : Felt × List Event)
    (hb : buffer.length ≤ chunkSize) :
    fetchTxEvents next blockNumber blockHash txIdx tx.1 tx.2 filter chunkSize buffer=
      (if chunkSize-buffer.length ≤ ((matching filter blockNumber blockHash tx).drop next).length ∧
          next+(chunkSize-buffer.length)<tx.2.length
        then some ⟨txIdx,next+(chunkSize-buffer.length)⟩ else none,
      buffer++((matching filter blockNumber blockHash tx).drop next).take
        (chunkSize-buffer.length)) := by
  simp only [fetchTxEvents]
  rw [← matching]
  generalize matching filter blockNumber blockHash tx=m
  generalize hk : chunkSize-buffer.length=k
  rw [window_zipIdx,List.zipIdx_map_fst]
  by_cases hfull : k ≤ (m.drop next).length
  · have hw : ((m.drop next).take k).length=k := List.length_take_of_le hfull
    rw [if_pos (by rw [List.length_append,hw]; omega),next_of_full hw]
    by_cases hlt : next+k<tx.2.length
    · rw [if_pos hlt,if_pos ⟨hfull,hlt⟩]
    · rw [if_neg hlt,if_neg (fun h => hlt h.2)]
  · rw [if_neg (by rw [List.length_append,List.length_take]; omega),if_neg (fun h => hfull h.1)]

variable (filter blockNumber blockHash) in
/-- Either all matching events from the number on are taken, or the buffer is full and the
cursor has the rest. -/
theorem fetchTxEvents_cases (next txIdx : Nat) (tx : Felt × List Event)
    (hb : buffer.length ≤ chunkSize) :
    (fetchTxEvents next blockNumber blockHash txIdx tx.1 tx.2 filter chunkSize buffer=
        (none,buffer++(matching filter blockNumber blockHash tx).drop next) ∧
      (buffer++(matching filter blockNumber blockHash tx).drop next).length ≤ chunkSize) ∨
    ∃ e out, fetchTxEvents next blockNumber blockHash txIdx tx.1 tx.2 filter chunkSize buffer=
        (some ⟨txIdx,e⟩,out) ∧ out.length=chunkSize ∧ e<tx.2.length ∧
      buffer++(matching filter blockNumber blockHash tx).drop next=
        out++(matching filter blockNumber blockHash tx).drop e := by
  have hle : (matching filter blockNumber blockHash tx).length ≤ tx.2.length :=
    matching_length_le tx
  rw [fetchTxEvents_eq next txIdx tx hb]
  generalize matching filter blockNumber blockHash tx=m at *
  by_cases h : chunkSize-buffer.length ≤ (m.drop next).length ∧
      next+(chunkSize-buffer.length)<tx.2.length
  · rw [if_pos h]
    refine Or.inr ⟨_,_,rfl,?_,h.2,?_⟩
    · rw [List.length_append,List.length_take_of_le h.1]
      omega
    · rw [List.append_assoc,← List.drop_drop,List.take_append_drop]
  · -- what does not fit would have an event behind it
    have hfit : (m.drop next).length ≤ chunkSize-buffer.length := by
      rw [List.length_drop] at h ⊢
      omega
    rw [if_neg h,List.take_of_length_le hfit,List.length_append]
    exact Or.inl ⟨rfl,by omega⟩

def ownEvents (filter : Filter) (blockNumber : Option Nat) (blockHash : Option Felt)
    (nextEvent : Nat → List Event → Option Nat) (tx : (Felt × List Event) × Nat) :
    List EmittedEvent :=
  match nextEvent tx.2 tx.1.2 with
  | none => []
  | some e => (matching filter blockNumber blockHash tx.1).drop e

variable {block : Nat} {nextEvent : Nat → List Event → Option Nat}
  {rest : Cursor → List EmittedEvent} {V : Cursor → Prop} {later : List EmittedEvent}

theorem fetchTx_continues {tx : Felt × List Event} {i : Nat}
    (h : ∀ e, e<tx.2.length → V ⟨block,i,e⟩ ∧
      rest ⟨block,i,e⟩=(matching filter blockNumber blockHash tx).drop e++later) :
    Continues chunkSize rest V (fetchTx filter chunkSize block blockNumber blockHash nextEvent
      (tx,i)) (ownEvents filter blockNumber blockHash nextEvent (tx,i)) later := by
  intro buffer hb
  simp only [fetchTx,ownEvents]
  cases nextEvent i tx.2 with
  | none => exact Or.inl ⟨by simp,by simpa using hb⟩
  | some next =>
    obtain ⟨hr,hlen⟩ | ⟨e,out,hr,hlen,he,hout⟩ :=
      fetchTxEvents_cases filter blockNumber blockHash next i tx hb
    · exact Or.inl ⟨by simp [hr],hlen⟩
    · obtain ⟨hV,hrest⟩ := h e he
      refine Or.inr ⟨⟨block,i,e⟩,out,by simp only [hr]; rfl,hlen,hV,?_⟩
      simp [hrest,hout]

theorem fetchTxs_continues {txs : List (Felt × List Event)} {p : PartialCursor}
    (hnext : ∀ tx i, p.idx ≤ i → ownEvents filter blockNumber blockHash nextEvent (tx,i)=
      (matching filter blockNumber blockHash tx).drop (if i=p.idx then p.event else 0))
    (hrest : ∀ i e tx, txs[i]?=some tx → e<tx.2.length → V ⟨block,i,e⟩ ∧
      rest ⟨block,i,e⟩=dropAt (txs.map (matching filter blockNumber blockHash)) i e++later) :
    Continues chunkSize rest V (readAll (fetchTx filter chunkSize block blockNumber blockHash
      nextEvent) (txs.zipIdx.drop p.idx))
      (dropAt (txs.map (matching filter blockNumber blockHash)) p.idx p.event) later := by
  -- behind the place every transaction is read from its first event
  have hbehind : ∀ k, p.idx<k → (txs.zipIdx.drop k).flatMap
      (ownEvents filter blockNumber blockHash nextEvent)=
        ((txs.map (matching filter blockNumber blockHash)).drop k).flatten := by
    intro k hk
    apply flatMap_drop_zipIdx
    intro tx i hi
    rw [hnext tx i (by omega),if_neg (by omega),List.drop_zero]
  have hown : (txs.zipIdx.drop p.idx).flatMap (ownEvents filter blockNumber blockHash nextEvent)=
      dropAt (txs.map (matching filter blockNumber blockHash)) p.idx p.event := by
    by_cases hi : p.idx<txs.length
    · have hcons : txs.zipIdx.drop p.idx=(txs.get ⟨p.idx,hi⟩,p.idx)::txs.zipIdx.drop (p.idx+1) := by
        rw [List.drop_eq_getElem_cons (by simpa using hi)]
        simp
      rw [hcons,List.flatMap_cons,hbehind _ (by omega),hnext _ _ (Nat.le_refl _),if_pos rfl,dropAt]
      simp [hi]
    · rw [List.drop_eq_nil_of_le (by simpa using hi),dropAt_behind (by simpa using hi)]
      rfl
  rw [← hown]
  apply Continues.readAll
  rintro pre ⟨tx,i⟩ post he
  obtain ⟨htx,hle,rfl⟩ := drop_zipIdx_split he
  apply fetchTx_continues
  intro e hlt
  obtain ⟨hV,hr⟩ := hrest i e tx htx hlt
  refine ⟨hV,hr.trans ?_⟩
  rw [hbehind _ (by omega),dropAt,List.getD_eq_getElem?_getD,List.getElem?_map,htx,Option.map_some,
    Option.getD_some,List.append_assoc]

end Tx

section Chain
variable (K : Backend P) (blocks : List (BlockInput P)) (filter : Filter)

def blockTxs (b : BlockInput P) : List (Felt × List Event) :=
  (b.body.map TxWithHash.hash).zip (b.receipts.map K.events)

def blockEvents (b : BlockInput P) : List (List EmittedEvent) :=
  (blockTxs K b).map (matching filter (some b.number) (some b.hash))

def rangeEvents (start stop : Nat) : List EmittedEvent :=
  (blocks.filter (fun b => start ≤ b.number ∧ b.number ≤ stop)).flatMap
    (fun b => (blockEvents K filter b).flatten)

def eventsAt (n : Nat) : List (List EmittedEvent) :=
  (blocks.filter (fun b => b.number=n)).flatMap (blockEvents K filter)

/-- The place of the cursor in a block: only its own block is not read from the start. -/
def Cursor.within (c : Cursor) (n : Nat) : PartialCursor := if n=c.block then c.txn else {}

/-- What is left of the blocks up to the end of the range, from a cursor on. -/
def eventsFrom (stop : Nat) (c : Cursor) : List EmittedEvent :=
  (List.range' c.block (stop+1-c.block)).flatMap (fun n =>
    dropAt (eventsAt K blocks filter n) (c.within n).idx (c.within n).event)

/-- A cursor that names an event of a transaction of the range. -/
def Cursor.Names (start stop : Nat) (c : Cursor) : Prop :=
  start ≤ c.block ∧ c.block ≤ stop ∧ ∃ b∈blocks, b.number=c.block ∧
    ∃ tx, (blockTxs K b)[c.txn.idx]?=some tx ∧ c.txn.event<tx.2.length

variable {K blocks filter} {chunkSize stop start : Nat}

/-- The call as a source of pages. -/
def minedPage (K : Backend P) (db : Db P) (start stop : Nat) (filter : Filter) (chunkSize : Nat) :
    Source EventError Cursor EmittedEvent := fun cursor =>
  (fetchEventsAtBlocks K db start stop filter chunkSize cursor []).map Prod.swap

theorem eventsAt_eq {b : BlockInput P} (hd : DistinctNumbers blocks) (hb : b∈blocks) :
    eventsAt K blocks filter b.number=blockEvents K filter b := by
  obtain ⟨pre,post,rfl⟩ := List.append_of_mem hb
  rw [DistinctNumbers,List.map_append,List.map_cons,List.nodup_middle,List.nodup_cons,
    ← List.map_append] at hd
  have hne : (pre++post).filter (fun c => c.number=b.number)=[] := by
    rw [List.filter_eq_nil_iff]
    intro c hc he
    exact hd.1 (List.mem_map.mpr ⟨c,hc,of_decide_eq_true he⟩)
  rw [List.filter_append,List.append_eq_nil_iff] at hne
  rw [eventsAt,List.filter_append,List.filter_cons_of_pos (by simp),hne.1,hne.2]
  simp

theorem eventsFrom_block {n i e : Nat} (hn : n ≤ stop) :
    eventsFrom K blocks filter stop ⟨n,i,e⟩=dropAt (eventsAt K blocks filter n) i e++
      (List.range' (n+1) (stop-n)).flatMap (fun m => (eventsAt K blocks filter m).flatten) := by
  have hlen : stop+1-n=stop-n+1 := by omega
  rw [eventsFrom,hlen,List.range'_succ,List.flatMap_cons]
  congr 1
  · simp [Cursor.within]
  · apply List.flatMap_congr
    intro m hm
    have hlt := (List.mem_range'_1.mp hm).1
    rw [Cursor.within,if_neg (Nat.ne_of_gt hlt),dropAt_start]

theorem ownEvents_mined {number : Option Nat} {hash : Option Felt} (c : Cursor) (n : Nat)
    (tx : Felt × List Event) (i : Nat) :
    ownEvents filter number hash (c.nextEvent n) (tx,i)=(matching filter number hash tx).drop
      (if i=(c.within n).idx then (c.within n).event else 0) := by
  have hle : (matching filter number hash tx).length ≤ tx.2.length := matching_length_le tx
  by_cases hn : n=c.block
  · by_cases hi : i=c.txn.idx
    · by_cases he : c.txn.event<tx.2.length
      · simp [ownEvents,Cursor.nextEvent,Cursor.within,hn,hi,he]
      · have hdrop : (matching filter number hash tx).drop c.txn.event=[] :=
          List.drop_eq_nil_of_le (by omega)
        simp [ownEvents,Cursor.nextEvent,Cursor.within,hn,hi,he,hdrop]
    · simp [ownEvents,Cursor.nextEvent,Cursor.within,hn,hi]
  · simp [ownEvents,Cursor.nextEvent,Cursor.within,hn]

section Mined
variable (hd : DistinctNumbers blocks) (ha : Aligned blocks)
include hd ha

theorem fetchBlock_eq {b : BlockInput P} (hb : b∈blocks) (cursor : Cursor)
    (buffer : List EmittedEvent) :
    fetchBlock K (insertBlocks K.codecs blocks) filter chunkSize cursor b.number buffer=
      readAll (fetchTx filter chunkSize b.number (some b.number) (some b.hash)
        (cursor.nextEvent b.number)) ((blockTxs K b).zipIdx.drop (cursor.within b.number).idx)
        buffer := by
  obtain ⟨pre,post,rfl⟩ := List.append_of_mem hb
  have hreads := readsBlock K.codecs ha hd (Or.inl rfl : Names (.num b.number) b post)
  have hhash := (insertBlocks_byNumber K.codecs hd ha).2.1
  have hlen : (blockTxs K b).length=b.receipts.length := by
    simp [blockTxs,(ha b (by simp)).1]
  simp only [fetchBlock,blockHashByNum,hhash,hreads.receipts,hreads.indices,context,
    StoredBlockBodyIndices.stop,hashesInRange K.codecs ha,bind,Except.bind,Except.mapError,pure,
    Except.pure]
  rw [← blockTxs]
  by_cases hn : b.number=cursor.block
  · rw [Cursor.within,if_pos hn,if_pos hn]
    by_cases hlt : b.receipts.length<cursor.txn.idx
    · rw [if_pos ⟨hn,hlt⟩,List.drop_eq_nil_of_le (by rw [List.length_zipIdx]; omega)]
      rfl
    · rw [if_neg (fun h => hlt h.2)]
  · rw [Cursor.within,if_neg hn,if_neg hn,if_neg (fun h => hn h.1)]

theorem fetchEventsAtBlocks_continues {cursor : Option Cursor}
    (hmined : ∀ n, start ≤ n → n ≤ stop → ∃ b∈blocks, b.number=n)
    (hstart : start ≤ (cursor.getD (Cursor.newBlock start)).block) :
    Continues chunkSize (eventsFrom K blocks filter stop) (Cursor.Names K blocks start stop)
      (fetchEventsAtBlocks K (insertBlocks K.codecs blocks) start stop filter chunkSize cursor)
      (eventsFrom K blocks filter stop (cursor.getD (Cursor.newBlock start))) [] := by
  generalize hc : cursor.getD (Cursor.newBlock start)=c at *
  have hcall : fetchEventsAtBlocks K (insertBlocks K.codecs blocks) start stop filter chunkSize
      cursor=readAll (fetchBlock K (insertBlocks K.codecs blocks) filter chunkSize c)
        (List.range' c.block (stop+1-c.block)) := by
    funext buffer
    simp only [fetchEventsAtBlocks,hc]
  have hfrom : eventsFrom K blocks filter stop c=(List.range' c.block (stop+1-c.block)).flatMap
      (fun n => dropAt (eventsAt K blocks filter n) (c.within n).idx (c.within n).event) := rfl
  rw [hcall,hfrom]
  apply Continues.readAll
  intro pre n post he
  obtain ⟨k,hk,_,hpost⟩ := List.range'_eq_append_iff.mp he
  obtain ⟨hn,_,rfl⟩ := List.range'_eq_cons_iff.mp hpost.symm
  have hge : start ≤ n := by omega
  have hle : n ≤ stop := by omega
  obtain ⟨b,hb,rfl⟩ := hmined n hge hle
  have hread : fetchBlock K (insertBlocks K.codecs blocks) filter chunkSize c b.number=
      readAll (fetchTx filter chunkSize b.number (some b.number) (some b.hash)
        (c.nextEvent b.number)) ((blockTxs K b).zipIdx.drop (c.within b.number).idx) :=
    funext (fetchBlock_eq hd ha hb c)
  -- the blocks behind this one are read from their start
  have hlater : (List.range' (b.number+1) (stop+1-c.block-k-1)).flatMap (fun n =>
      dropAt (eventsAt K blocks filter n) (c.within n).idx (c.within n).event)=
      (List.range' (b.number+1) (stop-b.number)).flatMap (fun m =>
        (eventsAt K blocks filter m).flatten) := by
    have hlen : stop+1-c.block-k-1=stop-b.number := by omega
    rw [hlen]
    apply List.flatMap_congr
    intro m hm
    have hlt := (List.mem_range'_1.mp hm).1
    rw [Cursor.within,if_neg (by omega),dropAt_start]
  rw [hread,hlater,List.append_nil,eventsAt_eq hd hb]
  apply fetchTxs_continues
  · intro tx i _
    exact ownEvents_mined c b.number tx i
  · intro i e tx htx hlt
    refine ⟨⟨hge,hle,b,hb,rfl,tx,htx,hlt⟩,?_⟩
    rw [eventsFrom_block hle,eventsAt_eq hd hb]
    rfl

variable (K filter) in
/-- The cursors that a call gives name events of the range, so that the next call can go on. -/
theorem fetchEventsAtBlocks_named {t : Option Cursor}
    (hmined : ∀ n, start ≤ n → n ≤ stop → ∃ b∈blocks, b.number=n)
    (ht : ∀ c, t=some c → c.Names K blocks start stop) :
    Continues chunkSize (fun c => eventsFrom K blocks filter stop c)
      (fun c => ∀ d, some c=some d → d.Names K blocks start stop)
      (fetchEventsAtBlocks K (insertBlocks K.codecs blocks) start stop filter chunkSize t)
      (eventsFrom K blocks filter stop (t.getD (Cursor.newBlock start))) [] := by
  have hstart : start ≤ (t.getD (Cursor.newBlock start)).block := by
    cases t with
    | none => exact Nat.le_refl start
    | some c => exact (ht c rfl).1
  refine (fetchEventsAtBlocks_continues hd ha hmined hstart).imp (fun c hc => ?_)
  intro d he
  cases he
  exact hc

theorem fetchEventsAtBlocks_missing {top : Nat}
    (hmined : ∀ n, start ≤ n → n ≤ top → ∃ b∈blocks, b.number=n)
    (hmissing : ∀ b∈blocks, b.number≠top+1) (hstart : start ≤ top+1) (htop : top<stop)
    {t c : Option Cursor} (ht : ∀ c, t=some c → c.Names K blocks start top)
    {out : List EmittedEvent} (hb : buffer.length ≤ chunkSize)
    (hr : fetchEventsAtBlocks K (insertBlocks K.codecs blocks) start stop filter chunkSize t buffer=
      .ok (c,out)) : ∃ d, c=some d ∧ d.Names K blocks start top := by
  have hblock : (t.getD (Cursor.newBlock start)).block ≤ top+1 := by
    cases t with
    | none => exact hstart
    | some c => exact Nat.le_succ_of_le (ht c rfl).2.1
  have hhash : (insertBlocks K.codecs blocks).get .blockHashes (top+1)=none := by
    rw [(insertBlocks_numberTables K.codecs blocks).hashes,
      List.find?_eq_none.mpr (by simpa using hmissing)]
    rfl
  have hrange : ∀ k, k ≤ top+1 → List.range' k (stop+1-k)=
      List.range' k (top+1-k)++(top+1)::List.range' (top+1+1) (stop-top-1) := by
    intro k hk
    have hlen : stop-top-1+1=stop-top := by omega
    have hk' : k+(top+1-k)=top+1 := by omega
    have hsum : top+1-k+(stop-top)=stop+1-k := by omega
    rw [← List.range'_succ,hlen,← hsum,← List.range'_append_1,hk']
  have hread := fetchEventsAtBlocks_named K filter hd ha hmined ht buffer hb
  simp only [fetchEventsAtBlocks] at hr hread
  rw [hrange _ hblock,readAll_append] at hr
  obtain ⟨hfull,_⟩ | ⟨d,out',hsome,_,hnames,_⟩ := hread
  · -- the first block behind the chain has no hash
    simp [hfull,readAll,fetchBlock,blockHashByNum,hhash,context,bind,Except.bind] at hr
  · simp only [hsome,Except.ok.injEq,Prod.mk.injEq] at hr
    exact ⟨d,hr.1.symm,hnames d rfl⟩

variable (K filter) in
theorem minedPage_paginates (hmined : ∀ n, start ≤ n → n ≤ stop → ∃ b∈blocks, b.number=n)
    (hsize : 1 ≤ chunkSize) :
    Paginates (minedPage K (insertBlocks K.codecs blocks) start stop filter chunkSize) chunkSize
      (fun t => ∀ c, t=some c → c.Names K blocks start stop)
      (fun t => eventsFrom K blocks filter stop (t.getD (Cursor.newBlock start)))
      (fun t => (eventsFrom K blocks filter stop (t.getD (Cursor.newBlock start))).length) :=
  Continues.paginates hsize (fun _ ht => fetchEventsAtBlocks_named K filter hd ha hmined ht)

end Mined

theorem filter_split {α : Type} {p q r : α → Bool} {xs : List α}
    (h : xs.Pairwise (fun a b => ¬(q a=true ∧ p b=true))) (hr : ∀ a, r a=(p a || q a))
    (hpq : ∀ a, ¬(p a=true ∧ q a=true)) : xs.filter r=xs.filter p++xs.filter q := by
  induction xs with
  | nil => rfl
  | cons a xs ih =>
    obtain ⟨ha,hxs⟩ := List.pairwise_cons.mp h
    have ih' := ih hxs
    cases hp : p a with
    | true =>
      have hq : q a=false := by simpa [hp] using hpq a
      simp [hr,hp,hq,ih']
    | false =>
      cases hq : q a with
      | false => simp [hr,hp,hq,ih']
      | true =>
        have hnone : xs.filter p=[] := by
          rw [List.filter_eq_nil_iff]
          exact fun b hb hpb => ha b hb ⟨hq,hpb⟩
        simp [hr,hp,hq,ih',hnone]

theorem eventsAt_flatten (n : Nat) : (eventsAt K blocks filter n).flatten=
    (blocks.filter (fun b => b.number=n)).flatMap (fun b => (blockEvents K filter b).flatten) := by
  simp only [eventsAt,← List.flatMap_id,List.flatMap_assoc]

theorem eventsFrom_start (hinc : Increasing blocks) (start : Nat) :
    eventsFrom K blocks filter stop (Cursor.newBlock start)=
      rangeEvents K blocks filter start stop := by
  have hrange : ∀ k s, (List.range' s k).flatMap (fun n => (eventsAt K blocks filter n).flatten)=
      (blocks.filter (fun b => s ≤ b.number ∧ b.number<s+k)).flatMap
        (fun b => (blockEvents K filter b).flatten) := by
    intro k
    induction k with
    | zero =>
      intro s
      rw [List.filter_eq_nil_iff.mpr (by simp)]
      rfl
    | succ k ih =>
      intro s
      have hsplit : blocks.filter (fun b => s ≤ b.number ∧ b.number<s+(k+1))=
          blocks.filter (fun b => b.number=s)++
            blocks.filter (fun b => s+1 ≤ b.number ∧ b.number<s+1+k) := by
        apply filter_split
        · refine hinc.imp (fun {b c} hlt h => ?_)
          simp only [decide_eq_true_eq] at h
          omega
        · intro b
          rw [Bool.eq_iff_iff]
          simp only [decide_eq_true_eq,Bool.or_eq_true]
          omega
        · intro b
          simp only [decide_eq_true_eq]
          omega
      rw [List.range'_succ,List.flatMap_cons,ih,eventsAt_flatten,hsplit,List.flatMap_append]
  have hown : ∀ n, dropAt (eventsAt K blocks filter n) ((Cursor.newBlock start).within n).idx
      ((Cursor.newBlock start).within n).event=(eventsAt K blocks filter n).flatten := by
    intro n
    rw [Cursor.within,Cursor.newBlock,ite_self,dropAt_start]
  simp only [eventsFrom,hown,hrange,rangeEvents]
  congr 1
  apply List.filter_congr
  intro b _
  rw [decide_eq_decide]
  simp only [Cursor.newBlock]
  omega

/-- Following the cursors from the start ends, no page is above the chunk size, and the pages
are the matching events of the range. -/
theorem event_pages_complete (K : Backend P) {blocks : List (BlockInput P)}
    (hinc : Increasing blocks) (ha : Aligned blocks) {start stop : Nat}
    (hmined : ∀ n, start ≤ n → n ≤ stop → ∃ b∈blocks, b.number=n) (filter : Filter)
    {chunkSize : Nat} (hsize : 1 ≤ chunkSize) :
    ∃ outs, Ends (minedPage K (insertBlocks K.codecs blocks) start stop filter chunkSize) none outs ∧
      (∀ out∈outs, out.length ≤ chunkSize) ∧
      outs.flatten=rangeEvents K blocks filter start stop := by
  have hpages := minedPage_paginates K filter hinc.distinctNumbers ha hmined hsize
  obtain ⟨outs,hends,hflat,hsizes⟩ := hpages.ends (t := none) (by simp)
  exact ⟨outs,hends,hsizes,hflat.trans (eventsFrom_start hinc start)⟩

end Chain

/-- Payloads and a backend whose receipts are their events, for concrete runs. -/
def eventPayloads : Payloads := ⟨Unit,Unit,id,List Event,Unit,Unit⟩

def eventBackend : Backend eventPayloads where
  hashes := Backend.plainBackend.hashes
  tries := Backend.plainBackend.tries
  codecs := starknetCodecs
  computeMerkleRoot := Backend.plainBackend.computeMerkleRoot
  Trace := Unit
  typedExecutionInfo _ _ := ()
  events receipt := receipt
  receiptHash r := r.txHash

def keyed (key : Felt) : Event := ⟨9,[key],[]⟩

def eventBlock (number : Nat) (hash : Felt) (txs : List (Felt × List Felt)) :
    BlockInput eventPayloads where
  block := ⟨⟨hash,{ (default : Header) with number := number },txs.map (fun tx => ⟨tx.1,()⟩)⟩,
    .acceptedOnL2⟩
  states := ⟨{},∅⟩
  receipts := txs.map (fun tx => tx.2.map keyed)
  executions := txs.map (fun _ => ())

def twoBlocks : List (BlockInput eventPayloads) :=
  [eventBlock 0 100 [(1,[5,6]),(2,[])],eventBlock 1 101 [(3,[6,5,5])]]

theorem event_pages_of_two_blocks :
    (∀ n, 0 ≤ n → n ≤ 1 → ∃ b∈twoBlocks, b.number=n) ∧
    ∃ outs, Ends (minedPage eventBackend (insertBlocks starknetCodecs twoBlocks) 0 1
        ⟨some 9,some [[5]]⟩ 2) none outs ∧ (∀ out∈outs, out.length ≤ 2) ∧
      outs.flatten.map EmittedEvent.transactionHash=[1,3,3] := by
  have hmined : ∀ n, 0 ≤ n → n ≤ 1 → ∃ b∈twoBlocks, b.number=n := by decide
  obtain ⟨outs,hends,hsizes,hflat⟩ := event_pages_complete eventBackend
    (by decide : Increasing twoBlocks) (by decide) hmined ⟨some 9,some [[5]]⟩
    (by decide : 1 ≤ 2)
  exact ⟨hmined,outs,hends,hsizes,by rw [hflat]; decide⟩

end Katana.Rpc
