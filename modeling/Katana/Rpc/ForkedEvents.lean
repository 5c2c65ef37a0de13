import Katana.Rpc.GetEvents

/-! Events of a forked node. The blocks up to the fork block are asked from the fork, the blocks
after it are local; the pages of both are read through one chain of tokens. -/
namespace Katana.Rpc
open Paging MaybeForkedContinuationToken
variable {P : Payloads} {K : Backend P}

def forkedText (text : String) : String := (forked text).toString

def ForkedClient.eventPages (client : ForkedClient P) (start stop : Nat) (filter : Filter)
    (chunkSize : Nat) : Source StarknetApiError String EmittedEvent := fun text =>
  (client.provider.getEvents ⟨start,stop,filter.address,filter.keys⟩ text chunkSize).map
    (fun page => (page.events,page.continuationToken))

/-- The fork paginates every range of its chain up to the fork block. -/
def ForkedClient.Paginates (client : ForkedClient P) (K : Backend P)
    (fork : List (BlockInput P)) (filter : Filter) (chunkSize : Nat) : Prop :=
  ∀ start stop, start ≤ client.block → stop ≤ client.block → ∃ I rest steps,
    Paging.Paginates (client.eventPages start stop filter chunkSize) chunkSize I rest steps ∧
      I none ∧ rest none=rangeEvents K fork filter start stop

namespace StarknetApi
variable {api : StarknetApi K} {blocks fork : List (BlockInput P)} {client : ForkedClient P}
  {first fromBlock toBlock chunkSize : Nat} {filter : Filter}

theorem eventPages_forked (fromBlock toBlock : BlockIdOrTag) (t : Option String) :
    api.eventPages fromBlock toBlock filter chunkSize (t.map forkedText)=
      (api.eventsInner fromBlock toBlock filter (t.map .forked) chunkSize).map
        (fun page => (page.events,page.continuationToken)) := by
  cases t with
  | none => rfl
  | some text =>
    have hparse : parse (forkedText text)=.ok (.forked text) := by
      rw [forkedText]
      exact parse_toString (fun n hn => by cases hn)
    simp only [eventPages,Option.map_some,hparse]
    rfl

/-- The local blocks of a forked node, read from the block after the fork block. -/
def localEvents (api : StarknetApi K) (client : ForkedClient P) (toBlock : Nat) (filter : Filter)
    (chunkSize : Nat) (cursor : Option Cursor) (buffer : List EmittedEvent) :
    Except EventError (Option Cursor × List EmittedEvent) :=
  fetchEventsAtBlocks K api.db (client.block+1) toBlock filter chunkSize cursor buffer

/-- The error of a local read, as the api shows it. -/
def localError (e : EventError) : Failure StarknetApiError := .err e.toApi

section Forked
variable (hclient : api.forkedClient=some client) (hcap : chunkSize ≤ api.capacity)
include hclient hcap

/-- The fork is not asked: the token is native, or the range starts after the fork block. -/
theorem forkedPages_local (cursor : Option Cursor) (hc : ∀ c, cursor=some c → c.intoRpcCursor.Fits)
    (hskip : cursor=none → client.block<fromBlock) :
    api.eventPages (.number fromBlock) (.number toBlock) filter chunkSize (cursor.map Cursor.text)=
      give localError Cursor.text (api.localEvents client toBlock filter chunkSize cursor []) := by
  have hforked : api.forkedEvents fromBlock (fun forked => if toBlock ≤ forked then toBlock else forked)
      filter (cursor.map (fun c => .token c.intoRpcCursor)) chunkSize=
        .ok (⟨[],none⟩,client.block+1) := by
    simp only [forkedEvents,hclient]
    cases cursor with
    | none => rw [if_neg (Nat.not_le.mpr (hskip rfl))]
    | some c => simp [forkedToken]
  rw [eventPages_cursor _ _ hc]
  simp only [eventsInner,resolveEventBlockIdIfForked,Nat.not_lt.mpr hcap,if_false,minedEvents,hforked,
    ofToken_intoRpcCursor,bind,Except.bind,pure,Except.pure]
  rw [← localEvents]
  cases api.localEvents client toBlock filter chunkSize cursor [] with
  | error e | ok r => rfl

theorem forkedPages_fork (hfrom : fromBlock ≤ client.block) (t : Option String) :
    api.eventPages (.number fromBlock) (.number toBlock) filter chunkSize (t.map forkedText)=
      match client.eventPages fromBlock (min toBlock client.block) filter chunkSize t with
      | .error e => .error (.err e)
      | .ok (events,some text) => .ok (events,some (forkedText text))
      | .ok (events,none) => give localError Cursor.text
        (api.localEvents client toBlock filter chunkSize none events) := by
  have hlimit : (if toBlock ≤ client.block then toBlock else client.block)=min toBlock client.block :=
    rfl
  have hrange : ¬(client.block<fromBlock ∨ client.block < min toBlock client.block) := by omega
  have htoken : forkedToken (t.map .forked)=some t := by
    cases t with
    | none | some text => rfl
  have hcursor : ((t.map forked).bind
      toToken).map Cursor.ofToken=none := by
    cases t with
    | none | some text => rfl
  rw [eventPages_forked]
  simp only [eventsInner,resolveEventBlockIdIfForked,Nat.not_lt.mpr hcap,if_false,minedEvents,
    forkedEvents,hclient,hfrom,if_true,htoken,hlimit,ForkedClient.getEvents,hrange,hcursor,bind,Except.bind,pure,Except.pure,
    ForkedClient.eventPages]
  cases client.provider.getEvents ⟨fromBlock,min toBlock client.block,filter.address,filter.keys⟩ t
      chunkSize with
  | error e => rfl
  | ok page =>
    obtain ⟨events,token⟩ := page
    cases token with
    | some text => rfl
    | none =>
      simp only [Except.mapError,ofForking,Except.map]
      rw [← localEvents]
      cases api.localEvents client toBlock filter chunkSize none events with
      | error e | ok r => rfl

/-- What the fork has of the range comes first, then the local blocks after the fork block,
wherever the range starts. -/
theorem forkedPages_stitched (h : api.Serves client.block blocks)
    (hfork : client.Paginates K fork filter chunkSize) (fromBlock toBlock : Nat) :
    ∃ (front : Source StarknetApiError String EmittedEvent) (I : Option String → Prop)
      (rest : Option String → List EmittedEvent) (steps : Option String → Nat),
      Paginates front chunkSize I rest steps ∧ I none ∧
      rest none=rangeEvents K fork filter fromBlock (min toBlock client.block) ∧
      ∀ stop, Stitched (api.eventPages (.number fromBlock) (.number toBlock) filter chunkSize) front I
        forkedText (api.localEvents client toBlock filter chunkSize)
        (fun t => ∀ c, t=some c → c.Names K blocks (client.block+1) stop) Cursor.text localError := by
  have hbehind : ∀ stop c, (∀ d, some c=some d → d.Names K blocks (client.block+1) stop) →
      api.eventPages (.number fromBlock) (.number toBlock) filter chunkSize (some c.text)=
        give localError Cursor.text
          (api.localEvents client toBlock filter chunkSize (some c) []) := by
    intro stop c hc
    exact forkedPages_local hclient hcap (some c) (fun d hd => h.fits (hc d hd)) (fun he => by cases he)
  by_cases hfrom : fromBlock ≤ client.block
  · obtain ⟨I,rest,steps,hpages,hI,hrest⟩ := hfork fromBlock (min toBlock client.block) hfrom
      (Nat.min_le_right _ _)
    refine ⟨_,I,rest,steps,hpages,hI,hrest,fun stop => ⟨?_,?_,hbehind stop⟩⟩
    · intro t out t' _ hp
      rw [forkedPages_fork hclient hcap hfrom,hp]
    · intro t out _ hp
      rw [forkedPages_fork hclient hcap hfrom,hp]
  · have hnone : rangeEvents K fork filter fromBlock (min toBlock client.block)=[] := by
      rw [rangeEvents,List.filter_eq_nil_iff.mpr]
      · rfl
      · intro b _
        simp only [decide_eq_true_eq]
        omega
    refine ⟨fun _ => .ok ([],none),fun t => t=none,fun _ => [],fun _ => 0,?_,rfl,hnone.symm,
      fun stop => ⟨?_,?_,hbehind stop⟩⟩
    · exact ⟨fun t _ => ⟨[],none,rfl,Nat.zero_le _,rfl,by simp⟩⟩
    · intro t out t' _ hp
      cases hp
    · intro t out ht hp
      cases hp
      subst ht
      exact forkedPages_local hclient hcap none (by simp) (fun _ => Nat.lt_of_not_le hfrom)

section Pages
variable (h : api.Serves client.block blocks) (hfork : client.Paginates K fork filter chunkSize)
include h hfork

theorem forkedPages_end (hsize : 1 ≤ chunkSize) (fromBlock : Nat)
    (hto : toBlock ≤ tip client.block blocks) :
    ∃ outs, Ends (api.eventPages (.number fromBlock) (.number toBlock) filter chunkSize) none outs ∧
      outs.flatten=rangeEvents K fork filter fromBlock (min toBlock client.block)++
        rangeEvents K blocks filter (client.block+1) toBlock ∧
      ∀ out∈outs, out.length ≤ chunkSize := by
  obtain ⟨front,I,rest,steps,hfront,hI,hrest,hstitched⟩ :=
    forkedPages_stitched hclient hcap h hfork fromBlock toBlock
  have hmined : ∀ n, client.block+1 ≤ n → n ≤ toBlock → ∃ b∈blocks, b.number=n :=
    fun n hn hle => (h.numbered.mem_iff n).mpr ⟨by omega,by omega⟩
  have hreads : api.localEvents client toBlock filter chunkSize=fetchEventsAtBlocks K
      (insertBlocks K.codecs blocks) (client.block+1) toBlock filter chunkSize := by
    rw [← h.db]
    rfl
  have hlocal := (hstitched toBlock).ends
    (fun t => eventsFrom K blocks filter toBlock (t.getD (Cursor.newBlock (client.block+1))))
    hfront hI (by simp) hsize (fun t ht => by
      rw [hreads]
      exact fetchEventsAtBlocks_named K filter h.numbered.increasing.distinctNumbers h.aligned
        hmined ht)
  rwa [hrest,Option.getD_none,eventsFrom_start h.numbered.increasing] at hlocal

theorem forkedPages_endless (hto : tip client.block blocks<toBlock)
    {outs : List (List EmittedEvent)} :
    ¬Ends (api.eventPages (.number fromBlock) (.number toBlock) filter chunkSize) none outs := by
  obtain ⟨front,I,rest,steps,hfront,hI,_,hstitched⟩ :=
    forkedPages_stitched hclient hcap h hfork fromBlock toBlock
  refine (hstitched (tip client.block blocks)).not_ends hfront hI (by simp) ?_
  intro t buffer ht hb c out hr
  rw [localEvents,h.db] at hr
  obtain ⟨d,hd,hnames⟩ := fetchEventsAtBlocks_missing h.numbered.increasing.distinctNumbers h.aligned
    (fun n hn hle => (h.numbered.mem_iff n).mpr ⟨by omega,hle⟩)
    (fun b hb he => by have := ((h.numbered.mem_iff _).mp ⟨b,hb,rfl⟩).2; omega)
    (by rw [tip]; omega) hto ht hb hr
  exact ⟨d,hd,fun d' he => by cases he; exact hnames⟩

end Pages
end Forked

theorem rangeEvents_split (K : Backend P) (filter : Filter) (hinc : Increasing blocks)
    (start middle stop : Nat) :
    rangeEvents K blocks filter start stop=
      (blocks.filter (fun b => start ≤ b.number ∧ b.number < middle ∧ b.number ≤ stop)).flatMap
        (fun b => (blockEvents K filter b).flatten)++
      rangeEvents K blocks filter (max middle start) stop := by
  rw [rangeEvents,rangeEvents,← List.flatMap_append]
  congr 1
  apply filter_split
  · refine hinc.imp (fun {b c} hlt h => ?_)
    simp only [decide_eq_true_eq] at h
    omega
  · intro b
    rw [Bool.eq_iff_iff]
    simp only [decide_eq_true_eq,Bool.or_eq_true]
    omega
  · intro b
    simp only [decide_eq_true_eq]
    omega

theorem mem_rangeEvents {start stop : Nat} {e : EmittedEvent}
    (he : e∈rangeEvents K blocks filter start stop) :
    ∃ n, e.blockNumber=some n ∧ start ≤ n ∧ n ≤ stop := by
  simp only [rangeEvents,blockEvents,matching,List.mem_flatMap,List.mem_filter,decide_eq_true_eq,
    List.mem_flatten,List.mem_map] at he
  obtain ⟨b,⟨_,hn⟩,_,⟨tx,_,rfl⟩,he⟩ := he
  obtain ⟨ev,_,rfl⟩ := List.mem_map.mp he
  exact ⟨b.number,rfl,hn⟩

/-- The pages of a range on a forked node: they end, none is above the chunk size, and they are
the events of the fork and then the local ones, all of them in the range. -/
def ForkedRange (api : StarknetApi K) (client : ForkedClient P) (fork blocks : List (BlockInput P))
    (fromBlock toBlock : Nat) (filter : Filter) (chunkSize : Nat) : Prop :=
  ∃ outs, Ends (api.eventPages (.number fromBlock) (.number toBlock) filter chunkSize) none outs ∧
    (∀ out∈outs, out.length ≤ chunkSize) ∧
    outs.flatten=rangeEvents K fork filter fromBlock (min toBlock client.block)++
      rangeEvents K blocks filter (max fromBlock (client.block+1)) toBlock ∧
    ∀ e∈outs.flatten, ∃ n, e.blockNumber=some n ∧ fromBlock ≤ n ∧ n ≤ toBlock

/-- The pages of a range are right if and only if a page can be allocated, the range ends in the
chain and no local block before its start, up to its end, has a matching event. -/
theorem forked_range_iff (hclient : api.forkedClient=some client)
    (h : api.Serves client.block blocks) (hsize : 1 ≤ chunkSize)
    (hfork : client.Paginates K fork filter chunkSize) (fromBlock toBlock : Nat) :
    ForkedRange api client fork blocks fromBlock toBlock filter chunkSize ↔
      chunkSize ≤ api.capacity ∧ toBlock ≤ tip client.block blocks ∧
        ∀ b∈blocks, client.block<b.number → b.number<fromBlock → b.number ≤ toBlock →
          (blockEvents K filter b).flatten=[] := by
  have hsplit := rangeEvents_split K filter h.numbered.increasing (client.block+1) fromBlock toBlock
  have hbefore : (blocks.filter (fun b => client.block+1 ≤ b.number ∧ b.number<fromBlock ∧
      b.number ≤ toBlock)).flatMap (fun b => (blockEvents K filter b).flatten)=[] ↔
      ∀ b∈blocks, client.block<b.number → b.number<fromBlock → b.number ≤ toBlock →
        (blockEvents K filter b).flatten=[] := by
    simp only [List.flatMap_eq_nil_iff,List.mem_filter,decide_eq_true_eq,and_imp]
    rfl
  rw [← hbefore]
  constructor
  · rintro ⟨outs,hends,_,hflat,_⟩
    have hcap : chunkSize ≤ api.capacity := by
      by_contra hlt
      obtain ⟨e,he⟩ := eventPages_overflow filter (Nat.lt_of_not_le hlt) (.number fromBlock)
        (.number toBlock)
      exact not_ends_error he hends
    have hto : toBlock ≤ tip client.block blocks := by
      by_contra hlt
      exact forkedPages_endless hclient hcap h hfork (Nat.lt_of_not_le hlt) hends
    obtain ⟨outs',hends',hflat',_⟩ := forkedPages_end hclient hcap h hfork hsize fromBlock hto
    refine ⟨hcap,hto,?_⟩
    rw [hends.unique hends',hflat',List.append_cancel_left_eq,hsplit] at hflat
    exact List.append_left_eq_self.mp hflat
  · intro ⟨hcap,hto,hnone⟩
    obtain ⟨outs,hends,hflat,hsizes⟩ := forkedPages_end hclient hcap h hfork hsize fromBlock hto
    rw [hsplit,hnone,List.nil_append] at hflat
    refine ⟨outs,hends,hsizes,hflat,fun e he => ?_⟩
    rw [hflat,List.mem_append] at he
    obtain he | he := he
    · obtain ⟨n,hn,hle,hge⟩ := mem_rangeEvents he
      exact ⟨n,hn,hle,by omega⟩
    · obtain ⟨n,hn,hle,hge⟩ := mem_rangeEvents he
      exact ⟨n,hn,by omega,hge⟩

/-- A fork with three events up to its block 1, which it answers in one page. -/
def forkChain : List (BlockInput eventPayloads) :=
  [eventBlock 0 100 [(1,[5])],eventBlock 1 101 [(2,[5,5])]]

def forkClient : ForkedClient eventPayloads where
  block := 1
  provider := {
    getBlockWithTxHashes := fun _ => .error .blockNotFound
    getEvents := fun f _ _ =>
      .ok ⟨rangeEvents eventBackend forkChain ⟨f.address,f.keys⟩ f.fromBlock f.toBlock,none⟩
    getTransactionByHash := fun _ => .error .txnHashNotFound
    getTransactionReceipt := fun _ => .error .txnHashNotFound
    getTransactionStatus := fun _ => .error .txnHashNotFound }

/-- The fork block without transactions, and two local blocks with an event each. -/
def localChain : List (BlockInput eventPayloads) :=
  [eventBlock 1 101 [],eventBlock 2 102 [(3,[5])],eventBlock 3 103 [(4,[5])]]

def forkedApi : StarknetApi eventBackend where
  db := insertBlocks starknetCodecs localChain
  forkedClient := some forkClient

theorem forkedApi_serves : forkedApi.Serves forkClient.block localChain where
  db := rfl
  numbered := ⟨by decide,by decide⟩
  aligned := by decide
  number := by decide
  txs := by decide
  pending executor he := by cases he

theorem forkClient_paginates : forkClient.Paginates eventBackend forkChain {} 3 := by
  intro start stop hstart hstop
  refine ⟨fun t => t=none,fun _ => rangeEvents eventBackend forkChain {} start stop,fun _ => 0,
    ⟨fun t _ => ⟨_,none,rfl,?_,(List.append_nil _).symm,by simp⟩⟩,rfl,rfl⟩
  have hlen : ∀ start, start ≤ 1 → ∀ stop, stop ≤ 1 →
      (rangeEvents eventBackend forkChain {} start stop).length ≤ 3 := by decide
  exact hlen start hstart stop hstop

theorem forked_range_over_the_fork_block :
    forkedApi.Serves forkClient.block localChain ∧
    ForkedRange forkedApi forkClient forkChain localChain 1 3 {} 3 :=
  ⟨forkedApi_serves,(forked_range_iff rfl forkedApi_serves (by decide) forkClient_paginates 1 3).mpr
    (by decide)⟩

/-- A range of the last block answers the local block before it too, and a range that ends
behind the last block is never answered in full. -/
theorem forked_range_starts_too_early :
    (∃ outs, Ends (forkedApi.eventPages (.number 3) (.number 3) {} 3) none outs ∧
      outs.flatten.map EmittedEvent.blockNumber=[some 2,some 3]) ∧
    ¬ForkedRange forkedApi forkClient forkChain localChain 3 3 {} 3 ∧
    ¬ForkedRange forkedApi forkClient forkChain localChain 2 4 {} 3 := by
  have hclient : forkedApi.forkedClient=some forkClient := rfl
  have hcap : 3 ≤ forkedApi.capacity := by decide
  obtain ⟨outs,hends,hflat,_⟩ := forkedPages_end hclient hcap forkedApi_serves forkClient_paginates
    (by decide) 3 (by decide : 3 ≤ tip forkClient.block localChain)
  refine ⟨⟨outs,hends,by rw [hflat]; decide⟩,?_,?_⟩
  · intro ⟨outs',hends',_,hflat',_⟩
    rw [hends'.unique hends,hflat] at hflat'
    exact absurd hflat' (by decide)
  · intro ⟨outs',hends',_⟩
    exact forkedPages_endless hclient hcap forkedApi_serves forkClient_paginates (by decide) hends'

end StarknetApi
end Katana.Rpc
