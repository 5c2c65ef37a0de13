import Katana.Primitives.Version
import Katana.Provider.BlockReads
import Katana.Trie.Writer

/-! Headers and their hash (primitives block.rs), the length and the hash of a
state diff (state.rs), and the environment of a block (env.rs). -/
namespace Katana
open ByteOrder

def Felt.ofNat (n : Nat) : Felt := Fin.ofNat feltPrime n

namespace Header

/-- Three counts of 64 bits, one byte for the mode and seven of padding. -/
def concatCounts (transactionCount eventCount stateDiffLength : Nat)
    (l1DaMode : L1DataAvailabilityMode) : Felt :=
  let l1DataAvailabilityByte : Fin 256 := match l1DaMode with
    | .calldata => 0
    | .blob => 128
  Felt.fromBytesBeSlice (beBytes 8 transactionCount++beBytes 8 eventCount++
    beBytes 8 stateDiffLength++[l1DataAvailabilityByte]++List.replicate 7 0)

/-- What is hashed. The l2 gas prices are not part of it. -/
def hashed (h : Header) : List Felt :=
  [shortString "STARKNET_BLOCK_HASH0",
    Felt.ofNat h.number,
    h.stateRoot,
    h.sequencerAddress,
    Felt.ofNat h.timestamp,
    concatCounts h.transactionCount h.eventsCount h.stateDiffLength h.l1DaMode,
    h.stateDiffCommitment,
    h.transactionsCommitment,
    h.eventsCommitment,
    h.receiptsCommitment,
    Felt.ofNat h.l1GasPrices.eth,
    Felt.ofNat h.l1GasPrices.strk,
    Felt.ofNat h.l1DataGasPrices.eth,
    Felt.ofNat h.l1DataGasPrices.strk,
    shortString (versionString h.protocolVersion),
    0,
    h.parentHash]

def computeHash (H : Hashes) (h : Header) : Felt := H.poseidonArray h.hashed

end Header

def Block.seal {P : Payloads} (H : Hashes) (b : Block P) : SealedBlock P :=
  ⟨b.header.computeHash H,b.header,b.body⟩

namespace StateUpdates

def len (u : StateUpdates) : Nat :=
  u.deployedContracts.size+u.replacedClasses.size+u.declaredClasses.size+
    u.deprecatedDeclaredClasses.elems.length+u.nonceUpdates.size+
    (u.storageUpdates.rows.map (fun r => r.2.size)).sum

def flatten (m : SortedMap Felt Felt) : List Felt := m.rows.flatMap (fun r => [r.1,r.2])

def diff (u : StateUpdates) : List Felt :=
  [shortString "STARKNET_STATE_DIFF0",
    Felt.ofNat (u.deployedContracts.size+u.replacedClasses.size)]++
  flatten u.deployedContracts++flatten u.replacedClasses++
  [Felt.ofNat u.declaredClasses.size]++flatten u.declaredClasses++
  [Felt.ofNat u.deprecatedDeclaredClasses.elems.length]++u.deprecatedDeclaredClasses.elems++
  [1,0,Felt.ofNat u.storageUpdates.size]++
  u.storageUpdates.rows.flatMap (fun r => [r.1,Felt.ofNat r.2.size]++flatten r.2)++
  [Felt.ofNat u.nonceUpdates.size]++flatten u.nonceUpdates

end StateUpdates

def computeStateDiffHash (H : Hashes) (u : StateUpdates) : Felt := H.poseidonArray u.diff

structure PartialHeader where
  parentHash : Felt
  number : Nat
  timestamp : Nat
  sequencerAddress : Felt
  l1GasPrices : GasPrice
  l1DataGasPrices : GasPrice
  l2GasPrices : GasPrice
  l1DaMode : L1DataAvailabilityMode
  protocolVersion : List Nat
  deriving DecidableEq, Repr

structure BlockEnv where
  number : Nat
  timestamp : Nat
  l2GasPrices : GasPrice
  l1GasPrices : GasPrice
  l1DataGasPrices : GasPrice
  sequencerAddress : Felt
  deriving DecidableEq, Repr

section Provider
variable {P : Payloads}

def blockHashByNum (db : Db P) (num : Nat) : Except ProviderError (Option Felt) :=
  .ok (db.get .blockHashes num)

def latestHash (db : Db P) : Except ProviderError Felt := do
  let latest ← latestNumber db
  okOr .missingLatestBlockHash (← blockHashByNum db latest)

def blockEnvAt (db : Db P) (id : BlockHashOrNumber) : Except ProviderError (Option BlockEnv) := do
  let some header ← header db id | return none
  return some {
    number := header.number
    timestamp := header.timestamp
    l2GasPrices := header.l2GasPrices
    l1GasPrices := header.l1GasPrices
    l1DataGasPrices := header.l1DataGasPrices
    sequencerAddress := header.sequencerAddress }

end Provider
end Katana
