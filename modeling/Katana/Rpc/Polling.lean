import Katana.Base.Transition
import Katana.Rpc.GetEvents

/-! A client that follows the events of a chain in interval mode: it asks for the events up to the
pending block again and again, with the last token, while the pending block grows and is mined
(fetch_pending_events and fetch_events_at_blocks in rpc/utils/events.rs, do_mine_block in
core/backend/mod.rs). -/
namespace Katana.Rpc
open Paging Transition EmittedEvent
open Service (ExecutionResult)
variable {P : Payloads} {K : Backend P} {c : Cursor}

/-- The chain, its pending block, and the client with its token and what it has got. A block that
is stored stays the one of the executor, which is empty then, until the executor is replaced. -/
structure Polling (K : Backend P) where
  blocks : List (BlockInput P)
  stored : Option (BlockInput P) := none
  pending : PendingExecutor K
  token : Option String := none
  received : List EmittedEvent := []

namespace Polling
variable (s : Polling K)

def api : StarknetApi K where
  db := match s.stored with
    | none => insertBlocks K.codecs s.blocks
    | some b => insertBlocks K.codecs (s.blocks++[b])
  pendingExecutor := some s.pending

/-- The block that do_mine_block stores for the transactions of the pending block. -/
def minedBlock (parentHash root : Felt) (states : StateUpdatesWithClasses P) (u : StateUpdates) :
    BlockInput P :=
  let output : ExecutionOutput K := { states, transactions := s.pending.transactions }
  K.blockInput (K.sealBlock (K.uncommitted (Backend.partialHeader s.pending.blockEnv parentHash)
    output) root) .acceptedOnL2 u output

/-- The output of the executor is taken and the block is stored. -/
def mineBlock (b : BlockInput P) : Polling K :=
  { s with stored := some b, pending := ⟨s.pending.blockEnv,[]⟩ }

/-- The executor of the next block takes the place of the one whose block is stored. -/
def replaceExecutor (b : BlockInput P) (blockEnv : BlockEnv) : Polling K :=
  { s with blocks := s.blocks++[b], stored := none, pending := ⟨blockEnv,[]⟩ }

/-- What is there once the executor of a stored block is replaced. -/
def settled : Polling K :=
  match s.stored with
  | none => s
  | some b =>
    s.replaceExecutor b { s.pending.blockEnv with number := s.pending.blockEnv.number+1 }

end Polling

/-- What happens to the chain, and the requests of the client. -/
inductive PollingOp (K : Backend P) where
  | append (tx : TxWithHash P) (result : ExecutionResult (P.Receipt × K.Trace))
  | mine (parentHash root : Felt) (states : StateUpdatesWithClasses P) (u : StateUpdates)
  | replace
  | poll

namespace Polling

/-- Transactions, blocks and numbers are counted in 64 bits. -/
inductive Step (fromBlock : Nat) (filter : Filter) (chunkSize : Nat) :
    Polling K → PollingOp K → Polling K → Prop where
  | append {s} (tx : TxWithHash P) (result : ExecutionResult (P.Receipt × K.Trace))
      {pending : PendingExecutor K}
      (hp : pending=⟨s.pending.blockEnv,s.pending.transactions++[(tx,result)]⟩)
      (hfits : pending.Fits) :
      Step fromBlock filter chunkSize s (.append tx result) { s with pending }
  | mine {s} (parentHash root : Felt) (states : StateUpdatesWithClasses P) (u : StateUpdates)
      (hstored : s.stored=none) (hfits : s.pending.blockEnv.number+1<2^64) :
      Step fromBlock filter chunkSize s (.mine parentHash root states u)
        (s.mineBlock (s.minedBlock parentHash root states u))
  | replace {s} {b : BlockInput P} (blockEnv : BlockEnv) (hstored : s.stored=some b)
      (hn : blockEnv.number=s.pending.blockEnv.number+1) :
      Step fromBlock filter chunkSize s .replace (s.replaceExecutor b blockEnv)
  | poll {s} {out : List EmittedEvent} {token : Option String}
      (h : s.api.eventPages (.number fromBlock) (.tag .pending) filter chunkSize s.token=
        .ok (out,token)) :
      Step fromBlock filter chunkSize s .poll { s with token, received := s.received++out }

theorem receipts_eq (executor : PendingExecutor K) (states : StateUpdatesWithClasses P) :
    executor.receipts=
      ({ states, transactions := executor.transactions } : ExecutionOutput K).successes.map
        fun r => (r.1.hash,K.events r.2.1) := by
  unfold PendingExecutor.receipts ExecutionOutput.successes
  rw [List.map_filterMap]
  congr 1
  funext r
  cases r.2 <;> rfl

variable (s : Polling K) (parentHash root : Felt) (states : StateUpdatesWithClasses P)
  (u : StateUpdates)

theorem blockTxs_minedBlock :
    blockTxs K (s.minedBlock parentHash root states u)=s.pending.receipts := by
  rw [receipts_eq s.pending states]
  simp only [blockTxs,minedBlock,Backend.blockInput,Backend.sealBlock,Backend.uncommitted,
    BlockInput.body,List.map_map]
  rw [List.zip_map']
  rfl

theorem aligned_minedBlock : Aligned [s.minedBlock parentHash root states u] := by
  intro b hb
  obtain rfl := List.mem_singleton.mp hb
  simp [minedBlock,Backend.blockInput,Backend.sealBlock,Backend.uncommitted,BlockInput.body]

end Polling

/-- An event without the block it was in, which a pending event does not have. -/
def EmittedEvent.unplaced (e : EmittedEvent) : EmittedEvent :=
  { e with blockHash := none, blockNumber := none }

theorem map_unplaced_matching (filter : Filter) (blockNumber : Option Nat) (blockHash : Option Felt)
    (tx : Felt × List Event) :
    (matching filter blockNumber blockHash tx).map unplaced=
      matching filter none none tx := by
  simp [matching,emitted,unplaced,Function.comp_def]

section Lists
variable (filter : Filter) {blocks : List (BlockInput P)}

def minedLists (blocks : List (BlockInput P)) : List (List (List EmittedEvent)) :=
  blocks.map fun b => (blockTxs K b).map (matching filter none none)

variable {filter}

theorem map_unplaced_blockEvents (b : BlockInput P) :
    (blockEvents K filter b).map (List.map unplaced)=
      (blockTxs K b).map (matching filter none none) := by
  simp only [blockEvents,List.map_map]
  congr 1
  funext tx
  exact map_unplaced_matching filter _ _ tx

theorem Numbered.eventsAt (h : Numbered 0 blocks) {n : Nat} (hn : n<blocks.length) :
    (eventsAt K blocks filter n).map (List.map unplaced)=
      (minedLists (K:=K) filter blocks).getD n [] := by
  have hnum : blocks[n].number=n := by
    have hget := congrArg (fun l => l[n]?) h.numbers
    simpa [hn] using hget
  have hat : Katana.Rpc.eventsAt K blocks filter blocks[n].number=blockEvents K filter blocks[n] :=
    eventsAt_eq h.increasing.distinctNumbers (List.getElem_mem hn)
  rw [hnum] at hat
  rw [hat,map_unplaced_blockEvents]
  simp [minedLists,hn]

theorem eventsFrom_behind {stop : Nat} (hc : stop<c.block) :
    eventsFrom K blocks filter stop c=[] := by
  have hrange : stop+1-c.block=0 := by omega
  rw [eventsFrom,hrange]
  rfl

theorem Numbered.eventsFrom (h : Numbered 0 blocks) (hc : c.block<blocks.length) :
    (eventsFrom K blocks filter (tip 0 blocks) c).map unplaced=
      restAt (minedLists (K:=K) filter blocks) c.block c.txn.idx c.txn.event := by
  obtain ⟨n,i,e⟩ := c
  have hn : n<blocks.length := hc
  have htip : n≤tip 0 blocks := by
    rw [tip]
    omega
  rw [eventsFrom_block htip,List.map_append,map_dropAt,h.eventsAt hc,restAt,List.map_flatMap]
  congr 1
  have hlen : (minedLists (K:=K) filter blocks).length-(n+1)=tip 0 blocks-n := by
    rw [minedLists,List.length_map,tip]
    omega
  rw [drop_eq_map_range' _ [],hlen,List.map_map,← List.flatMap_def]
  apply List.flatMap_congr
  intro m hm
  have hlt : m<blocks.length := by
    have hm' := List.mem_range'_1.mp hm
    rw [tip] at hm'
    omega
  rw [List.map_flatten,h.eventsAt hlt]
  rfl

end Lists

theorem PendingExecutor.map_unplaced_eventsFrom (executor : PendingExecutor K) (filter : Filter)
    (p : PartialCursor) :
    (executor.eventsFrom filter p).map unplaced=executor.eventsFrom filter p := by
  have hself : (executor.events filter).map (List.map unplaced)=
      executor.events filter := by
    rw [PendingExecutor.events,List.map_map]
    congr 1
    funext tx
    exact map_unplaced_matching filter none none tx
  rw [PendingExecutor.eventsFrom,map_dropAt,hself]

theorem PendingExecutor.length_receipts {executor : PendingExecutor K}
    (h : ∀ r∈executor.transactions, ∀ e, r.2≠.failed e) :
    executor.receipts.length=executor.transactions.length := by
  rw [PendingExecutor.receipts,List.length_filterMap_eq_countP,List.countP_eq_length]
  intro r hr
  cases hres : r.2 with
  | success res => rfl
  | failed e => exact absurd hres (h r hr e)

theorem PendingExecutor.events_append (executor : PendingExecutor K) (filter : Filter)
    (tx : TxWithHash P) (result : ExecutionResult (P.Receipt × K.Trace)) :
    (PendingExecutor.mk executor.blockEnv (executor.transactions++[(tx,result)])).events filter=
      executor.events filter ∨
    ∃ events, (PendingExecutor.mk executor.blockEnv
      (executor.transactions++[(tx,result)])).events filter=executor.events filter++[events] := by
  simp only [PendingExecutor.events,PendingExecutor.receipts,List.filterMap_append,List.map_append]
  cases result with
  | failed e => exact Or.inl (List.append_nil _)
  | success res => exact Or.inr ⟨_,rfl⟩

namespace Polling
variable {fromBlock chunkSize : Nat} {filter : Filter} {cursor : Option Cursor} {s t : Polling K}

def lists (s : Polling K) (filter : Filter) : List (List (List EmittedEvent)) :=
  minedLists (K:=K) filter s.blocks++[s.pending.events filter]

def rest (s : Polling K) (filter : Filter) (c : Cursor) : List EmittedEvent :=
  restAt (s.lists filter) c.block c.txn.idx c.txn.event

def allEvents (s : Polling K) (fromBlock : Nat) (filter : Filter) : List EmittedEvent :=
  (s.settled.blocks.drop fromBlock).flatMap
      (fun b => (blockTxs K b).flatMap (matching filter none none))++
    s.settled.pending.receipts.flatMap (matching filter none none)

/-- A poll is on track if no stored block has its executor still in place, no transaction of the
pending block has failed, and no pending event lies before the place that the token has in a mined
block, when no more events than a page has are left there. -/
def OnTrack (filter : Filter) (chunkSize : Nat) (s : Polling K) :
    PollingOp K → Prop
  | .poll => s.stored=none ∧ (∀ r∈s.pending.transactions, ∀ e, r.2≠.failed e) ∧
    ∀ c : Cursor, s.token=some c.text → c.intoRpcCursor.Fits → c.block<s.blocks.length →
      (eventsFrom K s.blocks filter (tip 0 s.blocks) c).length ≤ chunkSize →
      takeAt (s.pending.events filter) c.txn.idx c.txn.event=[]
  | _ => True

/-- A place of the chain, or the one right behind its last transaction. -/
structure Reached (s : Polling K) (c : Cursor) : Prop where
  block : c.block≤ s.blocks.length
  inside : c.block=s.blocks.length → c.txn.idx<s.pending.receipts.length ∨
    c.txn.idx=s.pending.receipts.length ∧ c.txn.event=0

/-- What has been received and what is left at the cursor are all events. -/
structure Inv (fromBlock : Nat) (filter : Filter) (s : Polling K) (cursor : Option Cursor) :
    Prop where
  stored : s.stored=none
  serves : s.api.Serves 0 s.blocks
  token : s.token=cursor.map Cursor.text
  fits : ∀ c, cursor=some c → c.intoRpcCursor.Fits
  start : fromBlock≤(cursor.getD (.newBlock fromBlock)).block
  reached : s.Reached (cursor.getD (.newBlock fromBlock))
  received : s.received.map unplaced++
    s.rest filter (cursor.getD (.newBlock fromBlock))=s.rest filter (.newBlock fromBlock)

theorem settled_eq (h : s.stored=none) : s.settled=s := by
  simp only [settled,h]

theorem settled_some {b : BlockInput P} (h : s.stored=some b) : s.settled=
    s.replaceExecutor b { s.pending.blockEnv with number := s.pending.blockEnv.number+1 } := by
  simp only [settled,h]

theorem settled_received (s : Polling K) : s.settled.received=s.received := by
  unfold settled
  split <;> rfl

theorem allEvents_eq (h : fromBlock≤ s.settled.blocks.length) :
    s.allEvents fromBlock filter=s.settled.rest filter (.newBlock fromBlock) := by
  unfold allEvents
  generalize s.settled=s at *
  have hmap : ∀ txs : List (Felt × List Event),
      txs.flatMap (matching filter none none)=(txs.map (matching filter none none)).flatten :=
    fun txs => List.flatMap_def
  have hlen : fromBlock<(s.lists filter).length := by
    simp only [lists,minedLists,List.length_append,List.length_map,List.length_singleton]
    omega
  have hdrop : (s.lists filter).drop fromBlock=
      ((s.blocks.drop fromBlock).map fun b => (blockTxs K b).map (matching filter none none))++
        [s.pending.events filter] := by
    rw [lists,List.drop_append_of_le_length (by simpa [minedLists] using h),minedLists,
      List.map_drop]
  rw [rest,Cursor.newBlock,restAt_start hlen,hdrop,List.flatMap_append,List.flatMap_map]
  simp only [hmap,PendingExecutor.events,List.flatMap_singleton]

theorem place_getD (cursor : Option Cursor) (n : Nat) :
    (cursor.getD (.newBlock n)).txn=place cursor := by
  cases cursor with
  | none | some c => rfl

theorem rest_pending (hc : c.block=s.blocks.length) :
    s.rest filter c=s.pending.eventsFrom filter c.txn := by
  have hlen : c.block=(minedLists (K:=K) filter s.blocks).length := by
    rw [minedLists,List.length_map,hc]
  rw [rest,lists,hlen,restAt_last,PendingExecutor.eventsFrom]

theorem rest_mined (h : Numbered 0 s.blocks) (hc : c.block<s.blocks.length) :
    s.rest filter c=(eventsFrom K s.blocks filter (tip 0 s.blocks) c).map unplaced++
      (s.pending.events filter).flatten := by
  have hlen : c.block<(minedLists (K:=K) filter s.blocks).length := by
    rwa [minedLists,List.length_map]
  rw [rest,lists,restAt_concat hlen,h.eventsFrom hc]

theorem Inv.settle (h : s.Inv fromBlock filter cursor) : s.settled.Inv fromBlock filter cursor := by
  rwa [settled_eq h.stored]

theorem Inv.rest_crossing (h : s.Inv fromBlock filter cursor)
    (hplace : ∀ c, cursor=some c → c.block<s.blocks.length →
      takeAt (s.pending.events filter) c.txn.idx c.txn.event=[]) :
    s.rest filter (cursor.getD (.newBlock fromBlock))=
      (eventsFrom K s.blocks filter (tip 0 s.blocks) (cursor.getD (.newBlock fromBlock))).map
        unplaced++s.pending.eventsFrom filter (place cursor) := by
  rcases Nat.lt_or_eq_of_le h.reached.block with hlt | heq
  · have hflat : (s.pending.events filter).flatten=s.pending.eventsFrom filter (place cursor) := by
      cases cursor with
      | none => exact (dropAt_start _).symm
      | some c =>
        have hsplit := takeAt_append_dropAt (s.pending.events filter) c.txn.idx c.txn.event
        rw [hplace c rfl hlt,List.nil_append] at hsplit
        exact hsplit.symm
    rw [rest_mined h.serves.numbered hlt,hflat]
  · have hpos := List.length_pos_iff.mpr h.serves.numbered.nonempty
    have hbehind : tip 0 s.blocks<(cursor.getD (.newBlock fromBlock)).block := by
      rw [tip,heq]
      omega
    rw [rest_pending heq,place_getD,eventsFrom_behind hbehind]
    rfl

theorem Inv.poll (h : s.Inv fromBlock filter cursor) (hsize : 1≤chunkSize)
    (hcap : chunkSize≤ s.api.capacity) (hok : s.OnTrack filter chunkSize .poll) :
    ∃ out c, s.api.eventPages (.number fromBlock) (.tag .pending) filter chunkSize s.token=
        .ok (out,some c.text) ∧
      ({ s with token := some c.text, received := s.received++out } : Polling K).Inv fromBlock
        filter (some c) ∧
      s.rest filter (cursor.getD (.newBlock fromBlock))=
        out.map unplaced++s.rest filter c ∧
      (out=[] → s.rest filter (cursor.getD (.newBlock fromBlock))=[]) := by
  obtain ⟨-,hfailed,htrack⟩ := hok
  have hpos := List.length_pos_iff.mpr h.serves.numbered.nonempty
  have htip : tip 0 s.blocks+1=s.blocks.length := by
    rw [tip]
    omega
  have hpending : s.api.pendingExecutor=some s.pending := rfl
  rw [h.token,StarknetApi.pendingPages_eq rfl hcap h.serves.latestNumber h.fits]
  -- the account goes on from the new cursor
  have hinv : ∀ out c, c.intoRpcCursor.Fits → fromBlock≤c.block → s.Reached c →
      s.rest filter (cursor.getD (.newBlock fromBlock))=
        out.map unplaced++s.rest filter c →
      ({ s with token := some c.text, received := s.received++out } : Polling K).Inv fromBlock
        filter (some c) := by
    intro out c hfits hstart hreached hrest
    refine ⟨h.stored,h.serves,rfl,fun d hd => by cases hd; exact hfits,hstart,
      ⟨hreached.block,hreached.inside⟩,?_⟩
    have hrec := h.received
    rw [hrest,← List.append_assoc,← List.map_append] at hrec
    exact hrec
  have hread : Continues chunkSize (eventsFrom K s.blocks filter (tip 0 s.blocks))
      (Cursor.Names K s.blocks fromBlock (tip 0 s.blocks))
      (fetchEventsAtBlocks K s.api.db fromBlock (tip 0 s.blocks) filter chunkSize cursor)
      (eventsFrom K s.blocks filter (tip 0 s.blocks) (cursor.getD (.newBlock fromBlock))) [] := by
    rw [h.serves.db]
    exact fetchEventsAtBlocks_continues h.serves.numbered.increasing.distinctNumbers h.serves.aligned
      (fun n _ hn => (h.serves.numbered.mem_iff n).mpr ⟨Nat.zero_le n,hn⟩) h.start
  obtain ⟨hr,hlen⟩ | ⟨c,out,hr,hlen,hnames,hout⟩ := hread [] (Nat.zero_le chunkSize)
  · -- the page goes on in the pending block
    obtain ⟨c,more,hp,hblock,hfits,hidx,hmore,hempty⟩ :=
      fetchPendingEvents_reads filter (h.serves.pending s.pending rfl).1 hsize cursor hlen
    rw [List.nil_append] at hr hp hempty
    have hnum : c.block=s.blocks.length := by
      rw [hblock,(h.serves.pending s.pending rfl).2,htip]
    have hrest := h.rest_crossing (fun c hc hlt => htrack c (by rw [h.token,hc]; rfl)
      (h.fits c hc) hlt (by simpa [hc] using hlen))
    have hcross : s.rest filter (cursor.getD (.newBlock fromBlock))=
        (eventsFrom K s.blocks filter (tip 0 s.blocks) (cursor.getD (.newBlock fromBlock))++
          more).map unplaced++s.rest filter c := by
      have hself := s.pending.map_unplaced_eventsFrom filter (place cursor)
      rw [hmore,List.map_append,s.pending.map_unplaced_eventsFrom,List.append_cancel_right_eq]
        at hself
      rw [hrest,hmore,List.map_append,hself,rest_pending hnum,List.append_assoc]
    refine ⟨_,c,?_,hinv _ c hfits (by rw [hnum]; exact h.start.trans h.reached.block)
      ⟨Nat.le_of_eq hnum,fun _ => ?_⟩ hcross,hcross,fun hnil => ?_⟩
    · simp only [hr,hpending,hp]
    · rcases hidx with hlt | heq
      · exact Or.inl hlt
      · rw [heq,PendingExecutor.length_receipts hfailed]
        exact Or.inr ⟨rfl,rfl⟩
    · rw [hrest,(List.append_eq_nil_iff.mp hnil).1,hempty hnil]
      rfl
  · -- the page is full before
    rw [List.nil_append,List.append_nil] at hout
    have hc : c.block<s.blocks.length := by
      have hle := hnames.2.1
      omega
    have hmined : (cursor.getD (.newBlock fromBlock)).block<s.blocks.length := by
      by_contra hge
      rw [eventsFrom_behind (by omega)] at hout
      rw [(List.append_eq_nil_iff.mp hout.symm).1,List.length_nil] at hlen
      omega
    have hrest : s.rest filter (cursor.getD (.newBlock fromBlock))=
        out.map unplaced++s.rest filter c := by
      rw [rest_mined h.serves.numbered hmined,rest_mined h.serves.numbered hc,hout,List.map_append,
        List.append_assoc]
    refine ⟨out,c,?_,hinv out c (h.serves.fits hnames) hnames.1
      ⟨Nat.le_of_lt hc,fun he => absurd he (Nat.ne_of_lt hc)⟩ hrest,hrest,fun hnil => ?_⟩
    · simp only [hr]
    · rw [hnil,List.length_nil] at hlen
      omega

theorem reached_newBlock (h : fromBlock≤ s.blocks.length) : s.Reached (.newBlock fromBlock) := by
  refine ⟨h,fun _ => ?_⟩
  have hzero := Nat.eq_zero_or_pos s.pending.receipts.length
  exact hzero.symm.imp_right fun he => ⟨he.symm,rfl⟩

/-- If a change of the chain keeps the places that were reached and adds the same events behind
all of them, the account goes on. -/
theorem Inv.extend (h : s.Inv fromBlock filter cursor) (hstored : t.stored=none)
    (hserves : t.api.Serves 0 t.blocks)
    (htoken : t.token=s.token) (hreceived : t.received=s.received)
    (hreached : ∀ c, s.Reached c → t.Reached c) (more : List EmittedEvent)
    (hrest : ∀ c, s.Reached c → t.rest filter c=s.rest filter c++more) :
    t.Inv fromBlock filter cursor := by
  refine ⟨hstored,hserves,htoken.trans h.token,h.fits,h.start,hreached _ h.reached,?_⟩
  rw [hreceived,hrest _ h.reached,hrest _ (reached_newBlock (h.start.trans h.reached.block)),
    ← List.append_assoc,h.received]

section Append
variable {tx : TxWithHash P} {result : ExecutionResult (P.Receipt × K.Trace)}
  {pending : PendingExecutor K}

theorem serves_append (h : s.api.Serves 0 s.blocks)
    (hp : pending=⟨s.pending.blockEnv,s.pending.transactions++[(tx,result)]⟩)
    (hfits : pending.Fits) : ({ s with pending } : Polling K).api.Serves 0 s.blocks := by
  refine { h with pending := fun executor he => ?_ }
  obtain rfl : pending=executor := Option.some.inj he
  refine ⟨hfits,?_⟩
  rw [hp]
  exact (h.pending s.pending rfl).2

theorem Inv.append (h : s.Inv fromBlock filter cursor)
    (hp : pending=⟨s.pending.blockEnv,s.pending.transactions++[(tx,result)]⟩)
    (hfits : pending.Fits) : ({ s with pending } : Polling K).Inv fromBlock filter cursor := by
  have hserves := serves_append h.serves hp hfits
  have hlen : ∀ executor : PendingExecutor K,
      executor.receipts.length=(executor.events filter).length :=
    fun executor => (List.length_map _).symm
  have hmined : (minedLists (K:=K) filter s.blocks).length=s.blocks.length := List.length_map _
  rcases s.pending.events_append filter tx result with hsame | ⟨events,hmore⟩
  · rw [← hp] at hsame
    refine h.extend h.stored hserves rfl rfl (fun c hc => ⟨hc.block,?_⟩) [] (fun c hc => ?_)
    · rw [hlen,hsame,← hlen]
      exact hc.inside
    · rw [rest,lists,hsame,List.append_nil]
      rfl
  · rw [← hp] at hmore
    refine h.extend h.stored hserves rfl rfl (fun c hc => ⟨hc.block,fun he => ?_⟩) events (fun c hc => ?_)
    · have hin := hc.inside he
      rw [hlen] at hin ⊢
      rw [hmore,List.length_append,List.length_singleton]
      omega
    · rw [rest,lists,hmore]
      refine restAt_grow (by rw [hmined]; exact hc.block) (fun he => ?_) events
      rw [← hlen]
      exact hc.inside (by rw [he,hmined])

end Append

section Mine
variable (parentHash root : Felt) (states : StateUpdatesWithClasses P) (u : StateUpdates)
  (blockEnv : BlockEnv)

theorem serves_mined (h : s.api.Serves 0 s.blocks)
    (hn : blockEnv.number=s.pending.blockEnv.number+1) (hfits : blockEnv.number<2^64) :
    (s.replaceExecutor (s.minedBlock parentHash root states u) blockEnv).api.Serves 0
      (s.blocks++[s.minedBlock parentHash root states u]) := by
  obtain ⟨hpending,hnum⟩ := h.pending s.pending rfl
  have hpos := List.length_pos_iff.mpr h.numbered.nonempty
  have hlen : s.pending.blockEnv.number=0+s.blocks.length := by
    rw [hnum,tip]
    omega
  have htip : tip 0 (s.blocks++[s.minedBlock parentHash root states u])+1=blockEnv.number := by
    rw [hn,hlen]
    simp [tip]
  refine ⟨rfl,⟨by simp,?_⟩,?_,htip.trans_lt hfits,?_,?_⟩
  · have hnew : (s.minedBlock parentHash root states u).number=0+s.blocks.length := hlen
    rw [List.map_append,h.numbered.numbers,List.length_append,List.length_singleton,
      List.range'_concat,List.map_singleton,hnew,Nat.one_mul]
  · intro b hb
    exact (List.mem_append.mp hb).elim (h.aligned b) (s.aligned_minedBlock _ _ _ _ b)
  · intro b hb
    rcases List.mem_append.mp hb with hb | hb
    · exact h.txs b hb
    · rw [List.mem_singleton.mp hb,blockTxs_minedBlock]
      exact hpending.receipts
  · intro executor he
    obtain rfl : (⟨blockEnv,[]⟩ : PendingExecutor K)=executor := Option.some.inj he
    exact ⟨⟨hfits,Nat.two_pow_pos 64,Nat.two_pow_pos 64,by simp [PendingExecutor.receipts]⟩,
      htip.symm⟩

theorem lists_mined :
    (s.replaceExecutor (s.minedBlock parentHash root states u) blockEnv).lists filter=
      s.lists filter++[[]] := by
  simp only [lists,minedLists,replaceExecutor,List.map_append,List.map_singleton,blockTxs_minedBlock]
  rfl

theorem Inv.mine (h : s.Inv fromBlock filter cursor)
    (hn : blockEnv.number=s.pending.blockEnv.number+1) (hfits : blockEnv.number<2^64) :
    (s.replaceExecutor (s.minedBlock parentHash root states u) blockEnv).Inv fromBlock filter
      cursor := by
  have hlen : (s.replaceExecutor (s.minedBlock parentHash root states u) blockEnv).blocks.length=
      s.blocks.length+1 := by
    simp [replaceExecutor]
  refine h.extend rfl (serves_mined parentHash root states u blockEnv h.serves hn hfits) rfl rfl
    (fun c hc => ⟨?_,fun he => ?_⟩) [] (fun c hc => ?_)
  · rw [hlen]
    exact Nat.le_succ_of_le hc.block
  · have hle := hc.block
    omega
  · rw [rest,lists_mined,restAt_concat]
    · rfl
    · have hle := hc.block
      simp only [lists,minedLists,List.length_append,List.length_map,List.length_singleton]
      omega

/-- Only the number of the block counts of its environment. -/
theorem Inv.replace {b : BlockInput P} {env : BlockEnv}
    (h : (s.replaceExecutor b env).Inv fromBlock filter cursor) (hn : blockEnv.number=env.number) :
    (s.replaceExecutor b blockEnv).Inv fromBlock filter cursor := by
  refine h.extend rfl { h.serves with pending := fun executor he => ?_ } rfl rfl
    (fun c hc => ⟨hc.block,hc.inside⟩) [] (fun c _ => (List.append_nil _).symm)
  obtain rfl : (⟨blockEnv,[]⟩ : PendingExecutor K)=executor := Option.some.inj he
  obtain ⟨hfits,hnum⟩ := h.serves.pending ⟨env,[]⟩ rfl
  exact ⟨⟨hn.trans_lt hfits.number,hfits.transactions,hfits.receipts⟩,hn.trans hnum⟩

end Mine

def missing (fromBlock : Nat) (filter : Filter) (s : Polling K) : Nat :=
  (s.allEvents fromBlock filter).length-s.received.length

theorem Inv.step (h : s.settled.Inv fromBlock filter cursor) (hsize : 1≤chunkSize)
    (hcap : chunkSize≤ s.api.capacity) {op : PollingOp K}
    (hstep : Restrict (OnTrack filter chunkSize) (Step fromBlock filter chunkSize) s op t) :
    ∃ cursor, t.settled.Inv fromBlock filter cursor := by
  obtain ⟨hok,hstep⟩ := hstep
  cases hstep with
  | append tx result hp hfits =>
    refine ⟨cursor,?_⟩
    obtain hstored | ⟨b,hstored⟩ := Option.eq_none_or_eq_some s.stored
    · rw [settled_eq hstored] at h
      exact (h.append hp hfits).settle
    · -- what is executed behind the stored block is lost with its executor
      rw [settled_some hstored] at h
      rw [settled_some (b := b) (by exact hstored),hp]
      exact h
  | mine parentHash root states u hstored hfits =>
    rw [settled_eq hstored] at h
    exact ⟨cursor,h.mine parentHash root states u _ rfl hfits⟩
  | replace blockEnv hstored hn =>
    rw [settled_some hstored] at h
    exact ⟨cursor,h.replace blockEnv hn⟩
  | poll hpage =>
    rw [settled_eq hok.1] at h
    obtain ⟨out,c,hpage',hinv,_⟩ := h.poll hsize hcap hok
    rw [hpage,Except.ok.injEq,Prod.mk.injEq] at hpage'
    obtain ⟨rfl,rfl⟩ := hpage'
    exact ⟨some c,hinv.settle⟩

section
variable (h : s.settled.Inv fromBlock filter cursor)
include h

theorem Inv.account : s.received.map unplaced++
    s.settled.rest filter (cursor.getD (.newBlock fromBlock))=s.allEvents fromBlock filter := by
  rw [allEvents_eq (h.start.trans h.reached.block),← h.received,settled_received]

end

def nextEnv (number : Nat) : BlockEnv := ⟨number,0,default,default,default,0⟩

end Polling
end Katana.Rpc
