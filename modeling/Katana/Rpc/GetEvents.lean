import Katana.Provider.History
import Katana.Rpc.Forking
import Katana.Rpc.Token

/-! The pages of starknet_getEvents (events_inner of rpc/starknet/mod.rs): first the fork, then
the mined blocks, then the pending block, with one token for all of them. -/
namespace Katana.Rpc
open Paging MaybeForkedContinuationToken Cursor
variable {P : Payloads} {K : Backend P}

/-- What the handlers read of the node. There is a pending executor in interval mode only. The
events of a page, of 168 bytes each, have to fit in isize::MAX bytes. -/
structure StarknetApi (K : Backend P) where
  db : Db P
  forkedClient : Option (ForkedClient P) := none
  pendingExecutor : Option (PendingExecutor K) := none
  capacity : Nat := (2^63-1)/168

inductive EventBlockId where
  | pending
  | num (n : Nat)
  deriving DecidableEq, Repr

def Cursor.intoRpcCursor (c : Cursor) : ContinuationToken := ⟨c.block,c.txn.idx,c.txn.event⟩

def Cursor.ofToken (t : ContinuationToken) : Cursor := ⟨t.blockN,t.txnN,t.eventN⟩

def EventError.toApi : EventError → StarknetApiError
  | .invalidCursor => .invalidContinuationToken
  | .provider e => .unexpectedError (.provider e)
  | .other message => .unexpectedError (.text message)

def ofEvents {α : Type} (r : Except EventError α) : RpcM α := r.mapError (fun e => .err e.toApi)

def ParseIntError.text : ParseIntError → String
  | .empty => "cannot parse integer from empty string"
  | .invalidDigit => "invalid digit found in string"
  | .posOverflow => "number too large to fit in target type"

def ContinuationTokenError.toApi : ContinuationTokenError → StarknetApiError
  | .invalidToken => .invalidContinuationToken
  | .parseFailed e => .unexpectedError (.text e.text)

namespace StarknetApi
variable (api : StarknetApi K)

def resolveEventBlockIdIfForked : BlockIdOrTag → RpcM EventBlockId
  | .tag .pending => .ok .pending
  | .number n => .ok (.num n)
  | .tag .latest => do
    let num ← ofProvider (convertBlockId api.db (.tag .latest))
    return .num (← okOrNotFound .blockNotFound num)
  | .hash hash => do
    match ← ofProvider (convertBlockId api.db (.hash hash)) with
    | some num => return .num num
    | none =>
      match api.forkedClient with
      | some client => return .num (← ofForking (client.getBlockNumberByHash hash))
      | none => .error (.err .blockNotFound)

/-- The token for the fork: none if the token is native, and then the fork is not asked. -/
def forkedToken : Option MaybeForkedContinuationToken → Option (Option String)
  | none => some none
  | some (.token _) => none
  | some (.forked text) => some (some text)

/-- What the fork answers, and the block from which the local blocks are read. The blocks of
the fork end at the limit. -/
def forkedEvents (fromBlock : Nat) (limit : Nat → Nat) (filter : Filter)
    (token : Option MaybeForkedContinuationToken) (chunkSize : Nat) : RpcM (EventsPage × Nat) :=
  match api.forkedClient with
  | none => .ok (⟨[],none⟩,fromBlock)
  | some client =>
    if fromBlock ≤ client.block then
      match forkedToken token with
      | some text => do
        let page ← ofForking (client.getEvents fromBlock (limit client.block) filter.address
          filter.keys text chunkSize)
        return (page,client.block+1)
      | none => .ok (⟨[],none⟩,client.block+1)
    else .ok (⟨[],none⟩,client.block+1)

def minedEvents (fromBlock toBlock : Nat) (filter : Filter)
    (token : Option MaybeForkedContinuationToken) (chunkSize : Nat) : RpcM EventsPage := do
  let (page,start) ← api.forkedEvents fromBlock
    (fun forked => if toBlock ≤ forked then toBlock else forked) filter token chunkSize
  match page.continuationToken with
  | some text => return ⟨page.events,some (forked text).toString⟩
  | none =>
    let cursor := (token.bind (fun t => t.toToken)).map ofToken
    let (c,events) ← ofEvents (fetchEventsAtBlocks K api.db start toBlock filter chunkSize cursor
      page.events)
    return ⟨events,c.map (fun c => c.intoRpcCursor.toString)⟩

/-- From a number to the pending block. The token of the request goes to both readers. -/
def minedAndPendingEvents (fromBlock : Nat) (filter : Filter)
    (token : Option MaybeForkedContinuationToken) (chunkSize : Nat) : RpcM EventsPage := do
  let (page,start) ← api.forkedEvents fromBlock (fun forked => forked) filter token chunkSize
  match page.continuationToken with
  | some text => return ⟨page.events,some (forked text).toString⟩
  | none =>
    let cursor := (token.bind (fun t => t.toToken)).map ofToken
    let latest ← ofProvider (latestNumber api.db)
    match ← ofEvents (fetchEventsAtBlocks K api.db start latest filter chunkSize cursor
        page.events) with
    | (some c,events) => return ⟨events,some c.intoRpcCursor.toString⟩
    | (none,events) =>
      match api.pendingExecutor with
      | some executor =>
        let (c,events) ← ofEvents (fetchPendingEvents executor filter chunkSize cursor events)
        return ⟨events,some c.intoRpcCursor.toString⟩
      | none => return ⟨events,some (newBlock (latest+1)).intoRpcCursor.toString⟩

def pendingEvents (filter : Filter) (token : Option MaybeForkedContinuationToken)
    (chunkSize : Nat) : RpcM EventsPage := do
  match api.pendingExecutor with
  | some executor =>
    let cursor := (token.bind (fun t => t.toToken)).map ofToken
    let (c,events) ← ofEvents (fetchPendingEvents executor filter chunkSize cursor [])
    return ⟨events,some c.intoRpcCursor.toString⟩
  | none =>
    let latest ← ofProvider (latestNumber api.db)
    return ⟨[],some (newBlock latest).intoRpcCursor.toString⟩

def eventsInner (fromBlock toBlock : BlockIdOrTag) (filter : Filter)
    (token : Option MaybeForkedContinuationToken) (chunkSize : Nat) : RpcM EventsPage := do
  let start ← api.resolveEventBlockIdIfForked fromBlock
  let stop ← api.resolveEventBlockIdIfForked toBlock
  -- the buffer is allocated for a full page
  if api.capacity<chunkSize then .error (.panic "capacity overflow") else
  match start,stop with
  | .num first, .num last => api.minedEvents first last filter token chunkSize
  | .num first, .pending => api.minedAndPendingEvents first filter token chunkSize
  | .pending, .pending => api.pendingEvents filter token chunkSize
  | .pending, .num _ => .error (.err (.unexpectedError
    (.text "Invalid block range; `from` block must be lower than `to`")))

/-- The requests of a client, who sends back the text of the last token. -/
def eventPages (fromBlock toBlock : BlockIdOrTag) (filter : Filter) (chunkSize : Nat) :
    Source (Failure StarknetApiError) String EmittedEvent := fun text => do
  let token ← match text with
    | none => pure none
    | some text =>
      ((parse text).mapError (fun e => .err e.toApi)).map some
  let page ← api.eventsInner fromBlock toBlock filter token chunkSize
  return (page.events,page.continuationToken)

end StarknetApi

section Chain
variable {blocks : List (BlockInput P)} {first : Nat}

structure Numbered (first : Nat) (blocks : List (BlockInput P)) : Prop where
  nonempty : blocks≠[]
  numbers : blocks.map BlockInput.number=List.range' first blocks.length

def tip (first : Nat) (blocks : List (BlockInput P)) : Nat := first+(blocks.length-1)

theorem Numbered.increasing (h : Numbered first blocks) : Increasing blocks := by
  have hlt : (blocks.map BlockInput.number).Pairwise (· < ·) := by
    rw [h.numbers]
    exact List.pairwise_lt_range'
  exact List.pairwise_map.mp hlt

theorem Numbered.mem_iff (h : Numbered first blocks) (n : Nat) :
    (∃ b∈blocks, b.number=n) ↔ first ≤ n ∧ n ≤ tip first blocks := by
  have hpos := List.length_pos_iff.mpr h.nonempty
  rw [← List.mem_map,h.numbers,List.mem_range'_1,tip]
  omega

theorem Numbered.latestNumber (h : Numbered first blocks) (C : Codecs) :
    latestNumber (insertBlocks C blocks)=.ok (tip first blocks) := by
  obtain ⟨pre,b,rfl⟩ : ∃ pre b, blocks=pre++[b] :=
    ⟨_,_,(List.dropLast_append_getLast h.nonempty).symm⟩
  have hb : b.number=first+pre.length := by
    have hn := h.numbers
    rw [List.map_append,List.length_append,List.length_singleton,List.range'_concat] at hn
    simpa using (List.append_inj' hn rfl).2
  rw [(insertBlocks_numberTables C _).latestNumber h.increasing,hb]
  simp [tip]

end Chain

def Cursor.text (c : Cursor) : String := c.intoRpcCursor.toString

theorem Cursor.parse_text {c : Cursor} (h : c.intoRpcCursor.Fits) :
    parse c.text=.ok (.token c.intoRpcCursor) := by
  have htext : c.text=(token c.intoRpcCursor).toString := rfl
  rw [htext]
  apply parse_toString
  intro n hn
  rw [toToken,Option.some.injEq] at hn
  exact hn ▸ h

def TxsFit (txs : List (Felt × List Event)) : Prop :=
  txs.length<2^64 ∧ ∀ tx∈txs, tx.2.length<2^64

instance (txs : List (Felt × List Event)) : Decidable (TxsFit txs) :=
  inferInstanceAs (Decidable (_ ∧ _))

theorem TxsFit.fits {txs : List (Felt × List Event)} {tx : Felt × List Event} {n i e : Nat}
    (h : TxsFit txs) (hn : n<2^64) (hi : txs[i]?=some tx) (he : e<tx.2.length) :
    (intoRpcCursor ⟨n,i,e⟩).Fits := by
  have hlt := (List.getElem?_eq_some_iff.mp hi).1
  have htx := h.2 tx (List.mem_of_getElem? hi)
  exact ⟨hn,Nat.lt_trans hlt h.1,Nat.lt_trans he htx⟩

section Pending
variable {filter : Filter} {chunkSize : Nat} {executor : PendingExecutor K}

def PendingExecutor.events (executor : PendingExecutor K) (filter : Filter) :
    List (List EmittedEvent) :=
  executor.receipts.map (matching filter none none)

structure PendingExecutor.Fits (executor : PendingExecutor K) : Prop where
  number : executor.blockEnv.number<2^64
  transactions : executor.transactions.length<2^64
  receipts : TxsFit executor.receipts

theorem ownEvents_pending (c : Cursor) (tx : Felt × List Event) (i : Nat) :
    ownEvents filter none none c.nextPendingEvent (tx,i)=
      (matching filter none none tx).drop (if i=c.txn.idx then c.txn.event else 0) := by
  have hle : (matching filter none none tx).length ≤ tx.2.length := matching_length_le tx
  by_cases hi : i=c.txn.idx
  · by_cases he : c.txn.event ≤ tx.2.length
    · simp [ownEvents,nextPendingEvent,hi,he]
    · have hdrop : (matching filter none none tx).drop c.txn.event=[] :=
        List.drop_eq_nil_of_le (by omega)
      simp [ownEvents,nextPendingEvent,hi,he,hdrop]
  · simp [ownEvents,nextPendingEvent,hi]

def PendingExecutor.eventsFrom (executor : PendingExecutor K) (filter : Filter)
    (p : PartialCursor) : List EmittedEvent :=
  dropAt (executor.events filter) p.idx p.event

/-- The place of a cursor in its block, the start if there is none. -/
def place : Option Cursor → PartialCursor
  | none => {}
  | some c => c.txn

variable (filter) in
/-- One call on the pending block reads what is left at the place of its cursor, whatever block
the cursor is for. -/
theorem fetchPendingEvents_reads (hfit : executor.Fits) (hsize : 1 ≤ chunkSize)
    (cursor : Option Cursor) {buffer : List EmittedEvent} (hb : buffer.length ≤ chunkSize) :
    ∃ c out, fetchPendingEvents executor filter chunkSize cursor buffer=.ok (c,buffer++out) ∧
      c.block=executor.blockEnv.number ∧ c.intoRpcCursor.Fits ∧
      (c.txn.idx<executor.receipts.length ∨ c.txn=⟨executor.transactions.length,0⟩) ∧
      executor.eventsFrom filter (place cursor)=out++executor.eventsFrom filter c.txn ∧
      (buffer++out=[] → executor.eventsFrom filter (place cursor)=[]) := by
  have hplace : (cursor.getD (newBlock executor.blockEnv.number)).txn=place cursor := by
    cases cursor with
    | none | some c => rfl
  simp only [fetchPendingEvents]
  rw [← hplace]
  generalize cursor.getD (newBlock executor.blockEnv.number)=c
  have hreads : Continues chunkSize (fun c => executor.eventsFrom filter c.txn)
      (fun c => c.block=executor.blockEnv.number ∧ c.intoRpcCursor.Fits ∧
        c.txn.idx<executor.receipts.length)
      (readAll (fetchTx filter chunkSize executor.blockEnv.number none none c.nextPendingEvent)
        (executor.receipts.zipIdx.drop c.txn.idx)) (executor.eventsFrom filter c.txn) [] := by
    apply fetchTxs_continues
    · exact fun tx i _ => ownEvents_pending c tx i
    · intro i e tx htx he
      exact ⟨⟨rfl,hfit.receipts.fits hfit.number htx he,(List.getElem?_eq_some_iff.mp htx).1⟩,
        (List.append_nil _).symm⟩
  obtain ⟨hr,hlen⟩ | ⟨c',out,hr,hlen,⟨hblock,hfits,hidx⟩,hout⟩ := hreads buffer hb
  · -- the position behind the last transaction
    refine ⟨⟨executor.blockEnv.number,executor.transactions.length,0⟩,_,by rw [hr],rfl,
      ⟨hfit.number,hfit.transactions,Nat.two_pow_pos 64⟩,Or.inr rfl,?_,
      fun h => (List.append_eq_nil_iff.mp h).2⟩
    have hend : (executor.events filter).length ≤ executor.transactions.length := by
      rw [PendingExecutor.events,List.length_map]
      exact List.length_filterMap_le _ _
    rw [PendingExecutor.eventsFrom,PendingExecutor.eventsFrom,dropAt_behind hend,List.append_nil]
  · rw [List.append_nil] at hout
    obtain ⟨more,rfl⟩ : buffer<+:out := List.prefix_of_prefix_length_le
      ⟨_,hout⟩ (List.prefix_append _ _) (by omega)
    rw [List.append_assoc,List.append_cancel_left_eq] at hout
    refine ⟨c',more,by rw [hr],hblock,hfits,Or.inl hidx,hout,fun h => ?_⟩
    rw [h,List.length_nil] at hlen
    omega

end Pending

namespace StarknetApi
variable {api : StarknetApi K} {blocks : List (BlockInput P)} {first fromBlock chunkSize : Nat}
  {filter : Filter} {cursor : Option Cursor} {out : List EmittedEvent}

/-- The node stores the blocks of a chain, and its pending block is the next one. -/
structure Serves (api : StarknetApi K) (first : Nat) (blocks : List (BlockInput P)) : Prop where
  db : api.db=insertBlocks K.codecs blocks
  numbered : Numbered first blocks
  aligned : Aligned blocks
  number : tip first blocks+1<2^64
  txs : ∀ b∈blocks, TxsFit (blockTxs K b)
  pending : ∀ executor, api.pendingExecutor=some executor → executor.Fits ∧
    executor.blockEnv.number=tip first blocks+1

theorem Serves.latestNumber (h : api.Serves first blocks) :
    latestNumber api.db=.ok (tip first blocks) := by
  rw [h.db]
  exact h.numbered.latestNumber K.codecs

theorem Serves.fits (h : api.Serves first blocks) {start stop : Nat} {c : Cursor}
    (hc : c.Names K blocks start stop) : c.intoRpcCursor.Fits := by
  obtain ⟨_,_,b,hb,hn,tx,htx,he⟩ := hc
  have hle := ((h.numbered.mem_iff b.number).mp ⟨b,hb,rfl⟩).2
  have hnum := h.number
  exact (h.txs b hb).fits (by omega) htx he

theorem eventPages_cursor (fromBlock toBlock : BlockIdOrTag)
    (hfits : ∀ c, cursor=some c → c.intoRpcCursor.Fits) :
    api.eventPages fromBlock toBlock filter chunkSize (cursor.map text)=
      (api.eventsInner fromBlock toBlock filter (cursor.map (fun c => .token c.intoRpcCursor))
        chunkSize).map (fun page => (page.events,page.continuationToken)) := by
  cases cursor with
  | none => rfl
  | some c =>
    have hparse := parse_text (hfits c rfl)
    simp only [eventPages,Option.map_some,hparse]
    rfl

theorem ofToken_intoRpcCursor : ((cursor.map (fun c =>
      token c.intoRpcCursor)).bind
    toToken).map ofToken=cursor := by
  cases cursor with
  | none | some c => rfl

theorem Serves.paginates (h : api.Serves first blocks) {start stop : Nat} (hstart : first ≤ start)
    (hstop : stop ≤ tip first blocks) (filter : Filter) (hsize : 1 ≤ chunkSize) :
    Paginates (minedPage K api.db start stop filter chunkSize) chunkSize
      (fun t => ∀ c, t=some c → c.Names K blocks start stop)
      (fun t => eventsFrom K blocks filter stop (t.getD (newBlock start)))
      (fun t => (eventsFrom K blocks filter stop (t.getD (newBlock start))).length) := by
  rw [h.db]
  exact minedPage_paginates K filter h.numbered.increasing.distinctNumbers h.aligned
    (fun n hn hle => (h.numbered.mem_iff n).mpr ⟨by omega,by omega⟩) hsize

variable (filter) in
theorem eventPages_overflow (hcap : api.capacity<chunkSize) (fromBlock toBlock : BlockIdOrTag) :
    ∃ e, api.eventPages fromBlock toBlock filter chunkSize none=.error e := by
  simp only [eventPages,eventsInner,hcap,if_true,bind,Except.bind,pure,Except.pure]
  cases api.resolveEventBlockIdIfForked fromBlock with
  | error e => exact ⟨e,rfl⟩
  | ok start =>
    cases api.resolveEventBlockIdIfForked toBlock with
    | error e => exact ⟨e,rfl⟩
    | ok stop => exact ⟨_,rfl⟩

section Local
variable (h : api.Serves first blocks) (hlocal : api.forkedClient=none)
  (hcap : chunkSize ≤ api.capacity)
include h hlocal hcap

omit h in
theorem pendingPages_eq {last : Nat} (hlast : latestNumber api.db=.ok last)
    (hfits : ∀ c, cursor=some c → c.intoRpcCursor.Fits) :
    api.eventPages (.number fromBlock) (.tag .pending) filter chunkSize (cursor.map text)=
      match fetchEventsAtBlocks K api.db fromBlock last filter chunkSize cursor [] with
      | .error e => .error (.err e.toApi)
      | .ok (some c,events) => .ok (events,some c.text)
      | .ok (none,events) =>
        match api.pendingExecutor with
        | some executor =>
          match fetchPendingEvents executor filter chunkSize cursor events with
          | .error e => .error (.err e.toApi)
          | .ok (c,events) => .ok (events,some c.text)
        | none => .ok (events,some (newBlock (last+1)).text) := by
  rw [eventPages_cursor _ _ hfits]
  simp only [eventsInner,resolveEventBlockIdIfForked,Nat.not_lt.mpr hcap,if_false,
    minedAndPendingEvents,forkedEvents,hlocal,ofToken_intoRpcCursor,hlast,ofProvider,bind,Except.bind,pure,Except.pure]
  cases fetchEventsAtBlocks K api.db fromBlock last filter chunkSize cursor [] with
  | error e => rfl
  | ok r =>
    obtain ⟨c,events⟩ := r
    cases c with
    | some c => rfl
    | none =>
      cases api.pendingExecutor with
      | none => rfl
      | some executor =>
        simp only [ofEvents,Except.mapError]
        cases fetchPendingEvents executor filter chunkSize cursor events with
        | error e | ok r => rfl

end Local

def oneBlock : List (BlockInput eventPayloads) := [eventBlock 0 100 [(1,[5,6])]]

end StarknetApi
end Katana.Rpc
