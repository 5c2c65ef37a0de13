import Katana.Core.BlockHash

/-! What a failed do_mine_block leaves behind. The class trie, the contract tries and the
block are committed one after the other, each in tables of its own. -/
namespace Katana
open DbTx Panicking
open Service (BlockProductionError)
variable {P : Payloads}

section Frames
variable {S : List Table} {D : List DupTable} {t : TrieTable} {B : Bonsai} {C : Codecs}

section Counted
variable (message : String)

end Counted

end Frames

section Calls
variable {α : Type} {S : List Table} {D : List DupTable} {env : TxEnv} {m : TrieM P α}
  {db db' : Db P}

end Calls

namespace Backend
variable (K : Backend P) (env : MineEnv) (blockEnv : BlockEnv) (output : ExecutionOutput K)

/-- The block up to its state root: nothing is written yet. -/
def prepared : CallM P BlockProductionError (UncommittedBlock P) := do
  let parentHash ← mapErr .provider (fallible env.latestHash latestHash)
  let b := K.uncommitted (partialHeader blockEnv parentHash) output
  let u ← mapErr .provider
    (updateBlockHashRegistryContract env.blockHash b.stateUpdates b.header.number)
  return { b with stateUpdates := u }

variable (b : UncommittedBlock P)

def classCall : CallM P ProviderError Felt :=
  trieInsertDeclaredClasses K.hashes K.tries K.codecs env.classes b.header.number
    b.stateUpdates.declaredClasses

def contractCall : CallM P ProviderError Felt :=
  trieInsertContractUpdates K.hashes K.tries K.codecs env.contracts b.header.number b.stateUpdates

def rooted (classRoot contractRoot : Felt) : BlockInput P :=
  K.blockInput (K.sealBlock b (K.stateRoot contractRoot classRoot)) .acceptedOnL2 b.stateUpdates
    output

def mineCalls : CallM P BlockProductionError MinedBlockOutcome := do
  let classRoot ← expect "failed to update class trie" (K.classCall env b)
  let contractRoot ← expect "failed to update contract trie" (K.contractCall env b)
  K.storeBlock .provider env.insert (K.rooted output b classRoot contractRoot)
  return ⟨(K.rooted output b classRoot contractRoot).number,
    (K.rooted output b classRoot contractRoot).body.map (fun tx => tx.hash),output.stats⟩

theorem doMineBlock_eq : K.doMineBlock env blockEnv output=
    K.prepared env blockEnv output>>=K.mineCalls env output := by
  simp only [doMineBlock,produceBlock,commitBlock,commit,computeNewStateRoot,prepared,mineCalls,
    bind_assoc,pure_bind]
  rfl

section Reads
variable {α β ε δ : Type} {m : CallM P ε α}

def ReadsOnly (m : CallM P ε α) : Prop := ∀ db, leftBy (m db)=db

theorem fallible_readsOnly (fault : Option ProviderError) (g : Db P → Except ProviderError α) :
    ReadsOnly (fallible fault g) := by
  intro db
  unfold fallible
  cases fault with
  | some e => rfl
  | none => cases g db <;> rfl

theorem ReadsOnly.mapErr (h : ReadsOnly m) (f : ε → δ) : ReadsOnly (mapErr f m) := by
  intro db
  have hm := h db
  unfold Katana.mapErr
  cases hr : m db with
  | ok a s =>
    rw [hr] at hm
    exact hm
  | error e s =>
    rw [hr] at hm
    cases e <;> exact hm

theorem ReadsOnly.bind {g : α → CallM P ε β} (h : ReadsOnly m) (hg : ∀ a, ReadsOnly (g a)) :
    ReadsOnly (m>>=g) := by
  intro db
  have hm := h db
  change leftBy (EStateM.bind m g db)=db
  unfold EStateM.bind
  cases hr : m db with
  | ok a s =>
    rw [hr] at hm
    exact (hg a s).trans hm
  | error e s =>
    rw [hr] at hm
    exact hm

end Reads

section Failed
variable {K env blockEnv output} {db db' db₁ db₂ : Db P} {b : UncommittedBlock P}
    {e : Failure ProviderError}
  {f : Failure BlockProductionError} {r r' : Felt}

def nextEnv : BlockEnv := ⟨1,7,⟨1,1⟩,⟨1,1⟩,⟨1,1⟩,0⟩

end Failed
end Backend
end Katana
