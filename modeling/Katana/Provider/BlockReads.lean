import Katana.Provider.State

/-! Reads of blocks, transactions, receipts and traces (BlockProvider, TransactionProvider,
TransactionStatusProvider, TransactionTraceProvider and ReceiptProvider of DbProvider). -/
namespace Katana
variable {P : Payloads}

structure Block (P : Payloads) where
  header : Header
  body : List (TxWithHash P)

structure BlockWithTxHashes where
  header : Header
  body : List Felt
  deriving DecidableEq, Repr

/-- res.ok_or(error). -/
def okOr {α : Type} (e : ProviderError) : Option α → Except ProviderError α
  | some a => .ok a
  | none => .error e

/-- The loop over a range of numbers that pushes what it finds. -/
def collectRange {α : Type} (f : Nat → Except ProviderError (Option α)) (start stop : Nat) :
    Except ProviderError (List α) :=
  (List.range' start (stop-start)).foldlM (fun acc i => (f i).map (fun o => acc++o.toList)) []

section
variable (db : Db P) (id : BlockHashOrNumber)

def blockNumberById : BlockHashOrNumber → Except ProviderError (Option Nat)
  | .num n => .ok (some n)
  | .hash h => blockNumberByHash db h

def header : Except ProviderError (Option Header) := do
  let some num ← blockNumberById db id | return none
  let header ← okOr (.missingBlockHeader num) (db.get .headers num)
  return some header.toHeader

def blockBodyIndices : Except ProviderError (Option StoredBlockBodyIndices) := do
  let some num ← blockNumberById db id | return none
  return db.get .blockBodyIndices num

def StoredBlockBodyIndices.stop (r : StoredBlockBodyIndices) : Nat := r.txOffset+r.txCount

def transactionInRange : Nat → Nat → Except ProviderError (List (TxWithHash P)) :=
  collectRange (fun i => match db.get .transactions i with
    | none => .ok none
    | some tx => do
      let hash ← okOr (.missingTxHash i) (db.get .txHashes i)
      return some ⟨hash,tx.toTx⟩)

def transactionHashesInRange : Nat → Nat → Except ProviderError (List Felt) :=
  collectRange (fun i => .ok (db.get .txHashes i))

def transactionExecutionsInRange : Nat → Nat → Except ProviderError (List P.ExecutionInfo) :=
  collectRange (fun i => .ok (db.get .txTraces i))

def transactionsByBlock : Except ProviderError (Option (List (TxWithHash P))) := do
  let some indices ← blockBodyIndices db id | return none
  return some (← transactionInRange db indices.txOffset indices.stop)

def block : Except ProviderError (Option (Block P)) := do
  let some header ← header db id | return none
  let body ← okOr (.missingBlockTxs header.number) (← transactionsByBlock db id)
  return some ⟨header,body⟩

/-- The blocks of start..=stop. The capacity it asks for, which panics on a range that is too
long or the wrong way round, depends on no table. -/
def blocksInRange (start stop : Nat) : Except ProviderError (List (Block P)) :=
  collectRange (fun num => match db.get .headers num with
    | none => .ok none
    | some header => do
      let indices ← okOr (.missingBlockBodyIndices num) (db.get .blockBodyIndices num)
      let body ← transactionInRange db indices.txOffset indices.stop
      return some ⟨header.toHeader,body⟩) start (stop+1)

def blockWithTxHashes : Except ProviderError (Option BlockWithTxHashes) := do
  let some num ← blockNumberById db id | return none
  let some header := db.get .headers num | return none
  let indices ← okOr (.missingBlockTxs num) (db.get .blockBodyIndices num)
  let body ← transactionHashesInRange db indices.txOffset indices.stop
  return some ⟨header.toHeader,body⟩

variable (hash : Felt)

def transactionByHash : Except ProviderError (Option (TxWithHash P)) := do
  let some num := db.get .txNumbers hash | return none
  let transaction ← okOr (.missingTx num) (db.get .transactions num)
  return some ⟨hash,transaction.toTx⟩

def transactionBlockNumAndHash : Except ProviderError (Option (Nat × Felt)) := do
  let some num := db.get .txNumbers hash | return none
  let blockNum ← okOr (.missingTxBlock num) (db.get .txBlocks num)
  -- the error names the transaction number, as the source does
  let blockHash ← okOr (.missingBlockHash num) (db.get .blockHashes blockNum)
  return some (blockNum,blockHash)

def transactionStatus : Except ProviderError (Option FinalityStatus) := do
  let some num := db.get .txNumbers hash | return none
  let blockNum ← okOr (.missingTxBlock num) (db.get .txBlocks num)
  let status ← okOr (.missingBlockStatus blockNum) (db.get .blockStatusses blockNum)
  return some status

def transactionByBlockAndIdx (idx : Nat) : Except ProviderError (Option (TxWithHash P)) := do
  let some indices ← blockBodyIndices db id | return none
  if idx < indices.txCount then
    let num := indices.txOffset+idx
    let hash ← okOr (.missingTxHash num) (db.get .txHashes num)
    let transaction ← okOr (.missingTx num) (db.get .transactions num)
    return some ⟨hash,transaction.toTx⟩
  else return none

def transactionCountByBlock : Except ProviderError (Option Nat) := do
  let some indices ← blockBodyIndices db id | return none
  return some indices.txCount

def transactionExecution : Except ProviderError (Option P.ExecutionInfo) := do
  let some num := db.get .txNumbers hash | return none
  return some (← okOr (.missingTxExecution num) (db.get .txTraces num))

def transactionExecutionsByBlock : Except ProviderError (Option (List P.ExecutionInfo)) := do
  let some indices ← blockBodyIndices db id | return none
  return some (← transactionExecutionsInRange db indices.txOffset indices.stop)

def receiptByHash : Except ProviderError (Option P.Receipt) := do
  let some num := db.get .txNumbers hash | return none
  return some (← okOr (.missingTxReceipt num) (db.get .receipts num))

def receiptsByBlock : Except ProviderError (Option (List P.Receipt)) := do
  let some indices ← blockBodyIndices db id | return none
  return some (← collectRange (fun i => .ok (db.get .receipts i)) indices.txOffset indices.stop)

end

theorem blockNumberById_names (C : Codecs) (pre : List (BlockInput P)) {post : List (BlockInput P)}
    {b : BlockInput P} {id : BlockHashOrNumber} (h : Names id b post) :
    blockNumberById (insertBlocks C (pre++b::post)) id=.ok (some b.number) := by
  cases h with
  | inl hn => rw [hn,blockNumberById]
  | inr hh =>
    rw [hh.1,blockNumberById,blockNumberByHash,(insertBlocks_numberTables C _).number_of_hash hh.2]

theorem collectRange_eq {α : Type} {f : Nat → Except ProviderError (Option α)} {off : Nat}
    {xs : List α} (h : ∀ i x, xs[i]?=some x → f (off+i)=.ok (some x)) :
    collectRange f off (off+xs.length)=.ok xs := by
  unfold collectRange
  rw [Nat.add_sub_cancel_left]
  induction xs using List.reverseRecOn with
  | nil => rfl
  | append_singleton xs x ih =>
    have hxs := ih (fun i y hy => h i y (by
      have hi : i<xs.length := (List.getElem?_eq_some_iff.mp hy).1
      rw [List.getElem?_append_left hi,hy]))
    have hx : f (off+xs.length)=.ok (some x) := h xs.length x (by simp)
    rw [List.length_append,List.length_singleton,List.range'_concat,List.foldlM_append,hxs]
    simp [bind,Except.bind,hx,Except.map,pure,Except.pure]

end Katana
