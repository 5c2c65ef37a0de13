import Katana.Core.Block

/-! Errors and block ids of the Starknet RPC (rpc-api/error/starknet.rs, traits/block.rs). -/
namespace Katana.Rpc
variable {P : Payloads}

/-- Where the text of an unexpected error comes from. -/
inductive Reason where
  | provider (e : ProviderError)
  | text (reason : String)
  deriving DecidableEq, Repr

inductive StarknetApiError where
  | blockNotFound
  | txnHashNotFound
  | invalidTxnIndex
  | pageSizeTooBig (requested maxAllowed : Nat)
  | invalidContinuationToken
  | proofLimitExceeded (limit total : Nat)
  | unexpectedError (reason : Reason)
  deriving DecidableEq, Repr

inductive BlockTag where
  | latest
  | pending
  deriving DecidableEq, Repr

inductive BlockIdOrTag where
  | number (n : Nat)
  | hash (h : Felt)
  | tag (t : BlockTag)
  deriving DecidableEq, Repr

/-- A request ends with an answer, an error or a panic. -/
abbrev RpcM (α : Type) := Except (Failure StarknetApiError) α

def ofProvider {α : Type} (r : Except ProviderError α) : RpcM α :=
  match r with
  | .ok a => .ok a
  | .error e => .error (.err (.unexpectedError (.provider e)))

/-- There is no pending block in the provider. -/
def convertBlockId (db : Db P) : BlockIdOrTag → Except ProviderError (Option Nat)
  | .number n => .ok (some n)
  | .hash h => blockNumberByHash db h
  | .tag _ => (latestNumber db).map some

def okOrNotFound {α : Type} (e : StarknetApiError) (a : Option α) : RpcM α :=
  match a with
  | some a => .ok a
  | none => .error (.err e)

theorem mapM_ok {ε α β : Type} {f : α → Except ε β} {Q : α → β → Prop} (l : List α)
    (h : ∀ a∈l, ∃ c, f a=.ok c ∧ Q a c) : ∃ cs, l.mapM f=.ok cs ∧ List.Forall₂ Q l cs := by
  induction l with
  | nil => exact ⟨[],rfl,.nil⟩
  | cons a l ih =>
    obtain ⟨c,hc,hq⟩ := h a (by simp)
    obtain ⟨cs,hcs,hqs⟩ := ih (fun a' ha' => h a' (List.mem_cons_of_mem a ha'))
    refine ⟨c::cs,?_,.cons hq hqs⟩
    simp only [List.mapM_cons,hc,hcs]
    rfl

end Katana.Rpc
