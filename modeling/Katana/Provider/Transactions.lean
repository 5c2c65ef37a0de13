import Katana.Db.Postcard
import Katana.Provider.BlockReads

/-! Transactions are numbered through the whole run. The number of a transaction is its
place in the list of all transactions, and every read goes through that number. -/
namespace Katana
open ChangeLog
variable {P : Payloads} (blocks : List (BlockInput P))

def runTxs : List (TxWithHash P) := blocks.flatMap (fun b => b.body)

def runReceipts : List P.Receipt := blocks.flatMap (fun b => b.receipts)

def runExecutions : List P.ExecutionInfo := blocks.flatMap (fun b => b.executions)

def runTxBlocks : List Nat := blocks.flatMap (fun b => b.body.map (fun _ => b.number))

def Aligned : Prop :=
  ∀ b∈blocks, b.receipts.length=b.body.length ∧ b.executions.length=b.body.length

instance : Decidable (Aligned blocks) :=
  inferInstanceAs (Decidable (∀ b∈blocks, _))

def DistinctHashes : Prop := ((runTxs blocks).map TxWithHash.hash).Nodup

instance : Decidable (DistinctHashes blocks) :=
  inferInstanceAs (Decidable ((runTxs blocks).map TxWithHash.hash).Nodup)

theorem runTxs_concat (b : BlockInput P) :
    runTxs (blocks++[b])=runTxs blocks++b.body := by
  simp [runTxs]

theorem runTxBlocks_length : (runTxBlocks blocks).length=(runTxs blocks).length := by
  simp [runTxBlocks,runTxs]

structure TxTables (db : Db P) : Prop where
  transactions : ∀ i, db.get .transactions i=
    ((runTxs blocks).map (fun tx => VersionedTx.ofTx tx.transaction))[i]?
  hashes : ∀ i, db.get .txHashes i=((runTxs blocks).map TxWithHash.hash)[i]?
  blockNumbers : ∀ i, db.get .txBlocks i=(runTxBlocks blocks)[i]?
  receipts : ∀ i, db.get .receipts i=(runReceipts blocks)[i]?
  traces : ∀ i, db.get .txTraces i=(runExecutions blocks)[i]?

variable {blocks}

theorem Aligned.of_append {pre post : List (BlockInput P)} (h : Aligned (pre++post)) : Aligned pre :=
  fun b hb => h b (List.mem_append_left post hb)

theorem runReceipts_length (h : Aligned blocks) :
    (runReceipts blocks).length=(runTxs blocks).length := by
  rw [runReceipts,runTxs,List.length_flatMap,List.length_flatMap,
    List.map_congr_left (fun b hb => (h b hb).1)]

theorem runExecutions_length (h : Aligned blocks) :
    (runExecutions blocks).length=(runTxs blocks).length := by
  rw [runExecutions,runTxs,List.length_flatMap,List.length_flatMap,
    List.map_congr_left (fun b hb => (h b hb).2)]

theorem TxTables.entries {db : Db P} (h : TxTables blocks db) :
    db.entries .transactions=(runTxs blocks).length := by
  apply SortedMap.size_of_keys_lt
  intro i
  have hi := h.transactions i
  rw [Db.get] at hi
  rw [hi]
  simp

theorem insertBlocks_txTables (C : Codecs) (blocks : List (BlockInput P)) (h : Aligned blocks) :
    TxTables blocks (insertBlocks C blocks) := by
  induction blocks using List.reverseRecOn with
  | nil => exact ⟨fun _ => rfl,fun _ => rfl,fun _ => rfl,fun _ => rfl,fun _ => rfl⟩
  | append_singleton blocks b ih =>
    have hrep := ih h.of_append
    have hins := (insertBlocks_step C blocks b).2
    have hoff := hrep.entries
    constructor
    · intro i
      have hor := latest_numbered_or ((runTxs blocks).map (fun tx => VersionedTx.ofTx tx.transaction))
        (fun tx : TxWithHash P => VersionedTx.ofTx tx.transaction) b.body i
      rw [hins.get _ (by decide),hrep.transactions,insertPuts,hoff]
      simpa [runTxs] using hor
    · intro i
      have hor := latest_numbered_or ((runTxs blocks).map TxWithHash.hash) TxWithHash.hash b.body i
      rw [hins.get _ (by decide),hrep.hashes,insertPuts,hoff]
      simpa [runTxs] using hor
    · intro i
      have hor := latest_numbered_or (runTxBlocks blocks) (fun _ => b.number) b.body i
      rw [hins.get _ (by decide),hrep.blockNumbers,insertPuts,hoff,← runTxBlocks_length]
      simpa [runTxBlocks] using hor
    · intro i
      have hor := latest_numbered_or (runReceipts blocks) id b.receipts i
      rw [hins.get _ (by decide),hrep.receipts,insertPuts,hoff,← runReceipts_length h.of_append]
      simpa [runReceipts] using hor
    · intro i
      have hor := latest_numbered_or (runExecutions blocks) id b.executions i
      rw [hins.get _ (by decide),hrep.traces,insertPuts,hoff,← runExecutions_length h.of_append]
      simpa [runExecutions] using hor

theorem insertBlocks_txNumbers (C : Codecs) (blocks : List (BlockInput P)) (h : Aligned blocks)
    (hn : DistinctHashes blocks) (x : Felt) (i : Nat) :
    (insertBlocks C blocks).get .txNumbers x=some i ↔
      ((runTxs blocks).map TxWithHash.hash)[i]?=some x := by
  induction blocks using List.reverseRecOn with
  | nil => simp [insertBlocks,runTxs]
  | append_singleton blocks b ih =>
    have hoff := (insertBlocks_txTables C blocks h.of_append).entries
    rw [DistinctHashes,runTxs_concat,List.map_append] at hn
    have ih := ih h.of_append (List.nodup_append.mp hn).1
    rw [(insertBlocks_step C blocks b).2.get _ (by decide),hoff,runTxs_concat,List.map_append]
    cases hl : latest (insertPuts b (runTxs blocks).length .txNumbers) x with
    | none =>
      have hx : x∉b.body.map TxWithHash.hash :=
        fun hm => latest_txNumbers_ne (List.mem_map.mp hm) _ hl
      rw [Option.none_or,ih]
      constructor
      · intro hi
        have hlt := (List.getElem?_eq_some_iff.mp hi).1
        rw [List.getElem?_append_left hlt,hi]
      · intro hi
        by_cases hlt : i<((runTxs blocks).map TxWithHash.hash).length
        · rw [List.getElem?_append_left hlt] at hi
          exact hi
        · rw [List.getElem?_append_right (by omega)] at hi
          exact absurd (List.mem_of_getElem? hi) hx
    | some v =>
      obtain ⟨t,ht⟩ := latest_mem hl
      obtain ⟨r,hr,he⟩ := List.mem_map.mp ht
      simp only [Change.mk.injEq] at he
      have hbody := List.mk_mem_zipIdx_iff_getElem?.mp hr
      have hv : ((runTxs blocks).map TxWithHash.hash++b.body.map TxWithHash.hash)[v]?=some x := by
        rw [← he.2.2,← List.length_map TxWithHash.hash,List.getElem?_append_right (by omega),
          Nat.add_sub_cancel_left,List.getElem?_map,hbody,← he.2.1]
        rfl
      rw [Option.some_or,Option.some.injEq]
      constructor
      · intro hvi
        rw [← hvi,hv]
      · intro hi
        have hlt := (List.getElem?_eq_some_iff.mp hv).1
        exact (List.getElem?_inj hlt hn).mp (hv.trans hi.symm)

section Numbers
variable {C : Codecs} {pre post : List (BlockInput P)} {b : BlockInput P}

theorem insertBlocks_keeps (C : Codecs) {t : Table} (ht : t∉historyTables) {k : t.Key}
    (pre post : List (BlockInput P))
    (h : ∀ c∈post, ∀ off, latest (insertPuts c off t) k=none) :
    (insertBlocks C (pre++post)).get t k=(insertBlocks C pre).get t k := by
  induction post using List.reverseRecOn with
  | nil => rw [List.append_nil]
  | append_singleton post c ih =>
    rw [← List.append_assoc,(insertBlocks_step C _ c).2.get t ht,h c (by simp),Option.none_or]
    exact ih (fun d hd => h d (by simp [hd]))

variable (C) (h : DistinctNumbers (pre++b::post))
include h

theorem DistinctNumbers.ne_of_mem {c : BlockInput P} (hc : c∈post) : c.number≠b.number := by
  rw [DistinctNumbers,List.map_append,List.map_cons] at h
  have hb := (List.nodup_cons.mp (List.nodup_append.mp h).2.1).1
  intro he
  exact hb (List.mem_map.mpr ⟨c,hc,he⟩)

/-- The table of the block that wrote the key, if only blocks of its number write there. -/
theorem insertBlocks_own {t : Table} (ht : t∉historyTables) {k : t.Key} {v : t.Value P}
    (hother : ∀ c : BlockInput P, ∀ off, c.number≠b.number → latest (insertPuts c off t) k=none)
    (hown : latest (insertPuts b ((insertBlocks C pre).entries .transactions) t) k=some v) :
    (insertBlocks C (pre++b::post)).get t k=some v := by
  have hsplit : pre++b::post=(pre++[b])++post := by simp
  rw [hsplit,insertBlocks_keeps C ht _ _ (fun c hc off => hother c off (h.ne_of_mem hc)),
    (insertBlocks_step C pre b).2.get t ht,hown,Option.some_or]

theorem insertBlocks_byNumber (ha : Aligned (pre++b::post)) :
    (insertBlocks C (pre++b::post)).get .headers b.number=
        some (VersionedHeader.ofHeader b.block.block.header) ∧
      (insertBlocks C (pre++b::post)).get .blockHashes b.number=some b.hash ∧
      (insertBlocks C (pre++b::post)).get .blockBodyIndices b.number=
        some ⟨(runTxs pre).length,b.body.length⟩ := by
  have hoff := (insertBlocks_txTables C pre ha.of_append).entries
  refine ⟨insertBlocks_own C h (by decide) ?_ ?_,insertBlocks_own C h (by decide) ?_ ?_,
    insertBlocks_own C h (by decide) ?_ ?_⟩ <;> simp +contextual [insertPuts,latest,hoff]

theorem insertBlocks_status :
    (insertBlocks C (pre++b::post)).get .blockStatusses b.number=some b.block.status := by
  refine insertBlocks_own C h (by decide) ?_ ?_ <;> simp +contextual [insertPuts,latest]

end Numbers
/-- Every way to read the block and its transactions by place. -/
structure ReadsBlock (db : Db P) (id : BlockHashOrNumber) (off : Nat) (b : BlockInput P) : Prop where
  indices : blockBodyIndices db id=.ok (some ⟨off,b.body.length⟩)
  block : block db id=.ok (some ⟨b.block.block.header,b.body⟩)
  withTxHashes : blockWithTxHashes db id=
    .ok (some ⟨b.block.block.header,b.body.map TxWithHash.hash⟩)
  receipts : receiptsByBlock db id=.ok (some b.receipts)
  executions : transactionExecutionsByBlock db id=.ok (some b.executions)
  byIdx : ∀ i tx, b.body[i]?=some tx → transactionByBlockAndIdx db id i=.ok (some tx)

/-- Every way to read the i-th transaction of the block by its hash. -/
structure ReadsTx (db : Db P) (b : BlockInput P) (i : Nat) (tx : TxWithHash P) : Prop where
  transaction : transactionByHash db tx.hash=.ok (some tx)
  receipt : receiptByHash db tx.hash=.ok b.receipts[i]?
  execution : transactionExecution db tx.hash=.ok b.executions[i]?
  location : transactionBlockNumAndHash db tx.hash=.ok (some (b.number,b.hash))

/-- The ranges of the blocks follow each other and cover all transactions. -/
structure RangesCover (blocks : List (BlockInput P)) (db : Db P) : Prop where
  first : ∀ b post, blocks=b::post → ∃ r, blockBodyIndices db (.num b.number)=.ok (some r) ∧
    r.txOffset=0
  consecutive : ∀ pre b c post, blocks=pre++b::c::post → ∃ r s,
    blockBodyIndices db (.num b.number)=.ok (some r) ∧
    blockBodyIndices db (.num c.number)=.ok (some s) ∧ s.txOffset=r.stop
  disjoint : ∀ pre b mid c post, blocks=pre++b::(mid++c::post) → ∃ r s,
    blockBodyIndices db (.num b.number)=.ok (some r) ∧
    blockBodyIndices db (.num c.number)=.ok (some s) ∧ r.stop ≤ s.txOffset
  cover : ∀ i, i<(runTxs blocks).length ↔ ∃ b∈blocks, ∃ r,
    blockBodyIndices db (.num b.number)=.ok (some r) ∧ r.txOffset ≤ i ∧ i<r.stop

section Reads
variable {C : Codecs} {pre post : List (BlockInput P)} {b : BlockInput P} {i : Nat}
    {tx : TxWithHash P}

theorem getElem_flatMap_block {α : Type} {f : BlockInput P → List α} {x : α}
    (h : (f b)[i]?=some x) : ((pre++b::post).flatMap f)[(pre.flatMap f).length+i]?=some x := by
  have hlt := (List.getElem?_eq_some_iff.mp h).1
  rw [List.flatMap_append,List.flatMap_cons,List.getElem?_append_right (by omega),
    Nat.add_sub_cancel_left,List.getElem?_append_left hlt,h]

/-- The tables keyed by transaction number, at the i-th transaction of the block. -/
structure RowOf (db : Db P) (n : Nat) (b : BlockInput P) (i : Nat) (tx : TxWithHash P) : Prop where
  transaction : db.get .transactions n=some (VersionedTx.ofTx tx.transaction)
  hash : db.get .txHashes n=some tx.hash
  blockNumber : db.get .txBlocks n=some b.number
  receipt : db.get .receipts n=b.receipts[i]?
  trace : db.get .txTraces n=b.executions[i]?

variable (C) (ha : Aligned (pre++b::post))
include ha

theorem rowOf (h : b.body[i]?=some tx) :
    RowOf (insertBlocks C (pre++b::post)) ((runTxs pre).length+i) b i tx := by
  have htab := insertBlocks_txTables C _ ha
  have hb := ha b (by simp)
  have hi := (List.getElem?_eq_some_iff.mp h).1
  have hbody : (runTxs (pre++b::post))[(runTxs pre).length+i]?=some tx := getElem_flatMap_block h
  constructor
  · rw [htab.transactions,List.getElem?_map,hbody]
    rfl
  · rw [htab.hashes,List.getElem?_map,hbody]
    rfl
  · rw [htab.blockNumbers,← runTxBlocks_length]
    have hn : (b.body.map (fun _ => b.number))[i]?=some b.number := by
      rw [List.getElem?_map,h]
      rfl
    exact getElem_flatMap_block hn
  · have hr : b.receipts[i]?=some (b.receipts.get ⟨i,by omega⟩) := by simp
    rw [htab.receipts,← runReceipts_length ha.of_append,hr]
    exact getElem_flatMap_block hr
  · have he : b.executions[i]?=some (b.executions.get ⟨i,by omega⟩) := by simp
    rw [htab.traces,← runExecutions_length ha.of_append,he]
    exact getElem_flatMap_block he

theorem hashesInRange :
    transactionHashesInRange (insertBlocks C (pre++b::post)) (runTxs pre).length
      ((runTxs pre).length+b.body.length)=.ok (b.body.map TxWithHash.hash) := by
  have hmap : (b.body.map TxWithHash.hash).length=b.body.length := List.length_map _
  rw [← hmap]
  apply collectRange_eq
  intro i x h
  obtain ⟨tx,htx,he⟩ := Option.map_eq_some_iff.mp ((List.getElem?_map ..).symm.trans h)
  rw [(rowOf C ha htx).hash,he]

theorem readsBlock (hd : DistinctNumbers (pre++b::post)) {id : BlockHashOrNumber}
    (hid : Names id b post) :
    ReadsBlock (insertBlocks C (pre++b::post)) id (runTxs pre).length b := by
  obtain ⟨hheader,_,hindices⟩ := insertBlocks_byNumber C hd ha
  have hhashes := hashesInRange C ha
  have hnum := blockNumberById_names C pre hid
  have hrow : ∀ i tx, b.body[i]?=some tx → RowOf (insertBlocks C (pre++b::post))
      ((runTxs pre).length+i) b i tx := fun _ _ h => rowOf C ha h
  have hlen := ha b (by simp)
  generalize insertBlocks C (pre++b::post)=db at *
  have hidx : blockBodyIndices db id=.ok (some ⟨(runTxs pre).length,b.body.length⟩) := by
    simp only [blockBodyIndices,hnum,bind,Except.bind,pure,Except.pure,hindices]
  have hhead : header db id=.ok (some b.block.block.header) := by
    simp only [header,hnum,bind,Except.bind,pure,Except.pure,hheader,okOr]
    rfl
  -- the loops of a block answer its own lists
  have hbody : transactionInRange db (runTxs pre).length ((runTxs pre).length+b.body.length)=
      .ok b.body := by
    apply collectRange_eq
    intro i tx h
    simp only [(hrow i tx h).transaction,(hrow i tx h).hash,okOr]
    rfl
  have hreceipts : collectRange (fun i => .ok (db.get .receipts i)) (runTxs pre).length
      ((runTxs pre).length+b.body.length)=.ok b.receipts := by
    rw [← hlen.1]
    apply collectRange_eq
    intro i r h
    have hi := (List.getElem?_eq_some_iff.mp h).1
    rw [(hrow i (b.body.get ⟨i,by omega⟩) (by simp)).receipt,h]
  have hexecutions : transactionExecutionsInRange db (runTxs pre).length
      ((runTxs pre).length+b.body.length)=.ok b.executions := by
    rw [← hlen.2]
    apply collectRange_eq
    intro i e h
    have hi := (List.getElem?_eq_some_iff.mp h).1
    rw [(hrow i (b.body.get ⟨i,by omega⟩) (by simp)).trace,h]
  constructor
  · exact hidx
  · simp only [block,hhead,transactionsByBlock,hidx,StoredBlockBodyIndices.stop,hbody,bind,
      Except.bind,pure,Except.pure,okOr]
  · simp only [blockWithTxHashes,hnum,hheader,hindices,StoredBlockBodyIndices.stop,hhashes,bind,
      Except.bind,pure,Except.pure,okOr]
    rfl
  · simp only [receiptsByBlock,hidx,StoredBlockBodyIndices.stop,hreceipts,bind,Except.bind,pure,
      Except.pure]
  · simp only [transactionExecutionsByBlock,hidx,StoredBlockBodyIndices.stop,hexecutions,bind,
      Except.bind,pure,Except.pure]
  · intro i tx h
    have hi := (List.getElem?_eq_some_iff.mp h).1
    simp only [transactionByBlockAndIdx,hidx,bind,Except.bind,pure,Except.pure,hi,if_true,
      (hrow i tx h).hash,(hrow i tx h).transaction,okOr]
    rfl

theorem txNumber_of_mem (hh : DistinctHashes (pre++b::post)) (h : b.body[i]?=some tx) :
    (insertBlocks C (pre++b::post)).get .txNumbers tx.hash=some ((runTxs pre).length+i) := by
  have hbody : (runTxs (pre++b::post))[(runTxs pre).length+i]?=some tx := getElem_flatMap_block h
  rw [insertBlocks_txNumbers C _ ha hh,List.getElem?_map,hbody]
  rfl

theorem readsTx (hd : DistinctNumbers (pre++b::post)) (hh : DistinctHashes (pre++b::post))
    (h : b.body[i]?=some tx) :
    ReadsTx (insertBlocks C (pre++b::post)) b i tx := by
  have hlen := ha b (by simp)
  have hi := (List.getElem?_eq_some_iff.mp h).1
  have hrow := rowOf C ha h
  obtain ⟨_,hhash,_⟩ := insertBlocks_byNumber C hd ha
  have hnum := txNumber_of_mem C ha hh h
  have hr : b.receipts[i]?=some (b.receipts.get ⟨i,by omega⟩) := by simp
  have he : b.executions[i]?=some (b.executions.get ⟨i,by omega⟩) := by simp
  constructor
  · simp only [transactionByHash,hnum,hrow.transaction,okOr,bind,Except.bind,pure,Except.pure]
    rfl
  · simp only [receiptByHash,hnum,hrow.receipt,hr,okOr,bind,Except.bind,pure,Except.pure]
  · simp only [transactionExecution,hnum,hrow.trace,he,okOr,bind,Except.bind,pure,Except.pure]
  · simp only [transactionBlockNumAndHash,hnum,hrow.blockNumber,hhash,okOr,bind,Except.bind,pure,
      Except.pure]

theorem transactionStatus_of_mem (hd : DistinctNumbers (pre++b::post))
    (hh : DistinctHashes (pre++b::post)) (h : b.body[i]?=some tx) :
    transactionStatus (insertBlocks C (pre++b::post)) tx.hash=.ok (some b.block.status) := by
  simp only [transactionStatus,txNumber_of_mem C ha hh h,(rowOf C ha h).blockNumber,
    insertBlocks_status C hd,okOr,bind,Except.bind,pure,Except.pure]

omit ha

theorem txNumbers_none (hh : DistinctHashes blocks) (ha : Aligned blocks) {hash : Felt}
    (hne : ∀ b∈blocks, ∀ tx∈b.body, tx.hash≠hash) :
    (insertBlocks C blocks).get .txNumbers hash=none := by
  cases hn : (insertBlocks C blocks).get .txNumbers hash with
  | none => rfl
  | some i =>
    have hmem := List.mem_of_getElem? ((insertBlocks_txNumbers C _ ha hh hash i).mp hn)
    obtain ⟨tx,htx,he⟩ := List.mem_map.mp hmem
    obtain ⟨b,hb,htx⟩ := List.mem_flatMap.mp htx
    exact absurd he (hne b hb tx htx)

theorem exists_block_of_lt (h : i<(runTxs blocks).length) :
    ∃ pre b post, blocks=pre++b::post ∧ (runTxs pre).length ≤ i ∧
      i<(runTxs pre).length+b.body.length := by
  induction blocks using List.reverseRecOn with
  | nil => simp [runTxs] at h
  | append_singleton blocks c ih =>
    by_cases hlt : i<(runTxs blocks).length
    · obtain ⟨pre,b,post,he,hle,hi⟩ := ih hlt
      exact ⟨pre,b,post++[c],by simp [he],hle,hi⟩
    · rw [runTxs_concat,List.length_append] at h
      exact ⟨blocks,c,[],rfl,by omega,h⟩

theorem rangesCover (hd : DistinctNumbers blocks) (ha : Aligned blocks) :
    RangesCover blocks (insertBlocks C blocks) := by
  have hidx : ∀ pre b post, blocks=pre++b::post →
      blockBodyIndices (insertBlocks C blocks) (.num b.number)=
        .ok (some ⟨(runTxs pre).length,b.body.length⟩) := by
    intro pre b post he
    subst he
    exact (readsBlock C ha hd (Or.inl rfl)).indices
  constructor
  · intro b post he
    exact ⟨_,hidx [] b post he,rfl⟩
  · intro pre b c post he
    refine ⟨_,_,hidx pre b (c::post) he,hidx (pre++[b]) c post (by simp [he]),?_⟩
    simp [runTxs,StoredBlockBodyIndices.stop]
  · intro pre b mid c post he
    refine ⟨_,_,hidx pre b _ he,hidx (pre++b::mid) c post (by simp [he]),?_⟩
    simp [runTxs,StoredBlockBodyIndices.stop]
  · intro i
    constructor
    · intro hi
      obtain ⟨pre,b,post,he,hle,hlt⟩ := exists_block_of_lt hi
      exact ⟨b,by simp [he],_,hidx pre b post he,hle,hlt⟩
    · intro ⟨b,hb,r,hr,_,hi⟩
      obtain ⟨pre,post,he⟩ := List.append_of_mem hb
      rw [hidx pre b post he,Except.ok.injEq,Option.some.injEq] at hr
      subst hr
      simp only [StoredBlockBodyIndices.stop] at hi
      simp only [he,runTxs,List.flatMap_append,List.flatMap_cons,List.length_append] at hi ⊢
      omega

end Reads

/-- In a run with distinct transaction hashes, distinct block numbers and a receipt and a
trace for every transaction, all reads of a block and of its transactions agree. A block
is asked for by its number, or by its hash if no later block has the same one. -/
theorem transaction_reads_agree (C : Codecs) {blocks : List (BlockInput P)}
    (hd : DistinctNumbers blocks) (hh : DistinctHashes blocks) (ha : Aligned blocks) :
    RangesCover blocks (insertBlocks C blocks) ∧
    ∀ pre b post, blocks=pre++b::post →
      (∀ id, Names id b post →
        ReadsBlock (insertBlocks C blocks) id (runTxs pre).length b) ∧
      ∀ i tx, b.body[i]?=some tx → ReadsTx (insertBlocks C blocks) b i tx := by
  refine ⟨rangesCover C hd ha,?_⟩
  intro pre b post he
  subst he
  exact ⟨fun id hid => readsBlock C ha hd hid,fun i tx h => readsTx C ha hd hh h⟩

def txBlock (number : Nat) (hash : Felt) (txs : List Felt) : BlockInput unitPayloads where
  block := ⟨⟨hash,{ (default : Header) with number := number },txs.map (fun h => ⟨h,()⟩)⟩,
    .acceptedOnL2⟩
  states := ⟨{},∅⟩
  receipts := txs.map (fun _ => ())
  executions := txs.map (fun _ => ())

theorem transaction_reads_two_blocks :
    RangesCover [txBlock 0 100 [1,2],txBlock 1 101 [3]]
        (insertBlocks starknetCodecs [txBlock 0 100 [1,2],txBlock 1 101 [3]]) ∧
      ReadsTx (insertBlocks starknetCodecs [txBlock 0 100 [1,2],txBlock 1 101 [3]])
        (txBlock 0 100 [1,2]) 1 ⟨2,()⟩ :=
  have h := transaction_reads_agree starknetCodecs
    (by decide : DistinctNumbers [txBlock 0 100 [1,2],txBlock 1 101 [3]]) (by decide) (by decide)
  ⟨h.1,(h.2 [] _ _ rfl).2 1 _ rfl⟩

/-- Two blocks with one hash: the hash of the first answers the second. -/
theorem block_by_reused_hash :
    blockBodyIndices (insertBlocks starknetCodecs [txBlock 0 100 [1,2],txBlock 1 100 [3]])
        (.num 0)=.ok (some ⟨0,2⟩) ∧
      blockBodyIndices (insertBlocks starknetCodecs [txBlock 0 100 [1,2],txBlock 1 100 [3]])
        (.hash 100)=.ok (some ⟨2,1⟩) := ⟨rfl,rfl⟩

end Katana
