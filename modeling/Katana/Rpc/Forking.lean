import Katana.Rpc.Events

/-! The client of the forked network (rpc/starknet/forking.rs). Blocks after the fork block
are out of its range. -/
namespace Katana.Rpc
variable {P : Payloads}

structure EventsPage where
  events : List EmittedEvent
  continuationToken : Option String := none
  deriving DecidableEq, Repr

/-- How a transaction ended (ExecutionResult of the Starknet types). -/
inductive ExecutionStatus where
  | succeeded
  | reverted (reason : String)
  deriving DecidableEq, Repr

inductive TransactionStatus where
  | received
  | rejected
  | acceptedOnL2 (status : ExecutionStatus)
  | acceptedOnL1 (status : ExecutionStatus)
  deriving DecidableEq, Repr

inductive ReceiptBlock where
  | pending
  | block (hash : Felt) (number : Nat)
  deriving DecidableEq, Repr

structure TxReceiptWithBlockInfo (P : Payloads) where
  receipt : P.Receipt
  block : ReceiptBlock

structure EventFilter where
  fromBlock : Nat
  toBlock : Nat
  address : Option Felt
  keys : Option (List (List Felt))
  deriving DecidableEq, Repr

/-- The calls of the JSON-RPC provider. Its errors are the ones the api answers for them, and
a block that it shows without a number is its pending block. -/
structure RemoteProvider (P : Payloads) where
  getBlockWithTxHashes : Felt → Except StarknetApiError (Option Nat)
  getEvents : EventFilter → Option String → Nat → Except StarknetApiError EventsPage
  getTransactionByHash : Felt → Except StarknetApiError (TxWithHash P)
  getTransactionReceipt : Felt → Except StarknetApiError (TxReceiptWithBlockInfo P)
  getTransactionStatus : Felt → Except StarknetApiError TransactionStatus

structure ForkedClient (P : Payloads) where
  block : Nat
  provider : RemoteProvider P

inductive ForkingError where
  | provider (e : StarknetApiError)
  | blockOutOfRange
  | blockTagNotAllowed
  | unexpectedPendingData
  deriving DecidableEq, Repr

def ForkingError.toApi : ForkingError → StarknetApiError
  | .provider e => e
  | .blockOutOfRange => .blockNotFound
  | .blockTagNotAllowed =>
    .unexpectedError (.text "Not allowed to use block tag as a block identifier")
  | .unexpectedPendingData => .unexpectedError (.text "Unexpected pending data")

def ofForking {α : Type} (r : Except ForkingError α) : RpcM α :=
  r.mapError (fun e => .err e.toApi)

namespace ForkedClient
variable (client : ForkedClient P)

def getBlockNumberByHash (hash : Felt) : Except ForkingError Nat := do
  match ← (client.provider.getBlockWithTxHashes hash).mapError .provider with
  | none => .error .unexpectedPendingData
  | some number => if client.block<number then .error .blockOutOfRange else .ok number

def getEvents (fromBlock toBlock : Nat) (address : Option Felt) (keys : Option (List (List Felt)))
    (token : Option String) (chunkSize : Nat) : Except ForkingError EventsPage :=
  if client.block<fromBlock ∨ client.block<toBlock then .error .blockOutOfRange
  else (client.provider.getEvents ⟨fromBlock,toBlock,address,keys⟩ token chunkSize).mapError
    .provider

def getTransactionByHash (hash : Felt) : Except ForkingError (TxWithHash P) :=
  (client.provider.getTransactionByHash hash).mapError .provider

/-- Only a receipt with a block is checked against the fork block. -/
def getTransactionReceipt (hash : Felt) : Except ForkingError (TxReceiptWithBlockInfo P) := do
  let receipt ← (client.provider.getTransactionReceipt hash).mapError .provider
  match receipt.block with
  | .block _ number => if client.block<number then .error .blockOutOfRange else .ok receipt
  | .pending => .ok receipt

def getTransactionStatus (hash : Felt) : Except ForkingError TransactionStatus := do
  let _ ← client.getTransactionReceipt hash
  (client.provider.getTransactionStatus hash).mapError .provider

end ForkedClient
end Katana.Rpc
