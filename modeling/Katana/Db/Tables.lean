import Katana.Primitives
import Katana.Db.BlockList
import Mathlib.Data.Prod.Lex
import Mathlib.Data.String.Basic

/-! The tables of the database (tables.rs), with the type of their keys and values.
u64 and field keys are written big-endian, so byte order is numeric order and keys
are kept as numbers. Values of plain tables are kept decoded: their codecs are library
round trips. Values of DUPSORT tables are kept as bytes, since their order matters. -/
namespace Katana

structure StoredBlockBodyIndices where
  txOffset : Nat
  txCount : Nat
  deriving DecidableEq, Repr

structure GenericContractInfo where
  nonce : Felt := 0
  classHash : Felt := 0
  deriving DecidableEq, Repr

structure ContractInfoChangeList where
  classChangeList : BlockList := ∅
  nonceChangeList : BlockList := ∅
  deriving DecidableEq

inductive TrieTable where
  | classes
  | contracts
  | storages
  deriving DecidableEq, Repr

inductive Table where
  | stageCheckpoints
  | headers
  | blockHashes
  | blockNumbers
  | blockStatusses
  | blockBodyIndices
  | txNumbers
  | txHashes
  | transactions
  | txBlocks
  | txTraces
  | receipts
  | compiledClassHashes
  | classes
  | contractInfo
  | classDeclarationBlock
  | contractInfoChangeSet
  | storageChangeSet
  | trie (t : TrieTable)
  | trieChangeSet (t : TrieTable)
  deriving DecidableEq, Repr

@[reducible] def Table.Key : Table → Type
  | .stageCheckpoints => String
  | .headers | .blockHashes | .blockStatusses | .blockBodyIndices => Nat
  | .blockNumbers => Felt
  | .txNumbers => Felt
  | .txHashes | .transactions | .txBlocks | .txTraces | .receipts => Nat
  | .compiledClassHashes | .classes | .classDeclarationBlock => Felt
  | .contractInfo | .contractInfoChangeSet => Felt
  | .storageChangeSet => Felt ×ₗ Felt
  | .trie _ | .trieChangeSet _ => Bytes

@[reducible] def Table.Value (P : Payloads) : Table → Type
  | .stageCheckpoints => Nat
  | .headers => VersionedHeader
  | .blockHashes => Felt
  | .blockNumbers => Nat
  | .blockStatusses => FinalityStatus
  | .blockBodyIndices => StoredBlockBodyIndices
  | .txNumbers => Nat
  | .txHashes => Felt
  | .transactions => VersionedTx P
  | .txBlocks => Nat
  | .txTraces => P.ExecutionInfo
  | .receipts => P.Receipt
  | .compiledClassHashes => Felt
  | .classes => P.ContractClass
  | .contractInfo => GenericContractInfo
  | .classDeclarationBlock => Nat
  | .contractInfoChangeSet => ContractInfoChangeList
  | .storageChangeSet => BlockList
  | .trie _ => Bytes
  | .trieChangeSet _ => BlockList

instance Table.keyOrder (t : Table) : LinearOrder t.Key :=
  match t with
  | .stageCheckpoints => inferInstanceAs (LinearOrder String)
  | .headers | .blockHashes | .blockStatusses | .blockBodyIndices =>
    inferInstanceAs (LinearOrder Nat)
  | .blockNumbers | .txNumbers => inferInstanceAs (LinearOrder Felt)
  | .txHashes | .transactions | .txBlocks | .txTraces | .receipts =>
    inferInstanceAs (LinearOrder Nat)
  | .compiledClassHashes | .classes | .classDeclarationBlock =>
    inferInstanceAs (LinearOrder Felt)
  | .contractInfo | .contractInfoChangeSet => inferInstanceAs (LinearOrder Felt)
  | .storageChangeSet => inferInstanceAs (LinearOrder (Felt ×ₗ Felt))
  | .trie _ | .trieChangeSet _ => inferInstanceAs (LinearOrder Bytes)

inductive DupTable where
  | contractStorage
  | classDeclarations
  | nonceChangeHistory
  | classChangeHistory
  | storageChangeHistory
  | trieHistory (t : TrieTable)
  deriving DecidableEq, Repr

@[reducible] def DupTable.Key : DupTable → Type
  | .contractStorage => Felt
  | _ => Nat

instance DupTable.keyOrder (t : DupTable) : LinearOrder t.Key :=
  match t with
  | .contractStorage => inferInstanceAs (LinearOrder Felt)
  | .classDeclarations | .nonceChangeHistory | .classChangeHistory | .storageChangeHistory
  | .trieHistory _ => inferInstanceAs (LinearOrder Nat)

end Katana
