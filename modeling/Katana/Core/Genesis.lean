import Katana.Core.Backend

/-! The genesis of a chain: the chain specifications (chain-spec dev.rs and rollup/mod.rs,
primitives genesis) and Backend::init_genesis. -/
namespace Katana
open Service (BlockProductionError)
variable {P : Payloads}

structure GenesisAccount where
  publicKey : Felt
  classHash : Felt
  balance : Option Nat := none
  nonce : Option Felt := none
  storage : Option (SortedMap Felt Felt) := none
  deriving DecidableEq

inductive GenesisAccountAlloc where
  | account (a : GenesisAccount)
  | devAccount (inner : GenesisAccount)
  deriving DecidableEq

def GenesisAccountAlloc.inner : GenesisAccountAlloc → GenesisAccount
  | .account a => a
  | .devAccount inner => inner

structure GenesisContractAlloc where
  classHash : Option Felt := none
  balance : Option Nat := none
  nonce : Option Felt := none
  storage : Option (SortedMap Felt Felt) := none
  deriving DecidableEq

inductive GenesisAllocation where
  | account (a : GenesisAccountAlloc)
  | contract (c : GenesisContractAlloc)
  deriving DecidableEq

namespace GenesisAllocation

def publicKey : GenesisAllocation → Option Felt
  | .contract _ => none
  | .account a => some a.inner.publicKey

def classHash : GenesisAllocation → Option Felt
  | .contract c => c.classHash
  | .account a => some a.inner.classHash

def balance : GenesisAllocation → Option Nat
  | .contract c => c.balance
  | .account a => a.inner.balance

def nonce : GenesisAllocation → Option Felt
  | .contract c => c.nonce
  | .account a => a.inner.nonce

def storage : GenesisAllocation → Option (SortedMap Felt Felt)
  | .contract c => c.storage
  | .account a => a.inner.storage

end GenesisAllocation

structure Genesis (P : Payloads) where
  parentHash : Felt := 0
  stateRoot : Felt := 0
  number : Nat := 0
  timestamp : Nat := 0
  sequencerAddress : Felt := 0
  gasPrices : GasPrice := ⟨1,1⟩
  classes : SortedMap Felt P.ContractClass := ∅
  allocations : SortedMap Felt GenesisAllocation := ∅

/-- The classes that come with katana, and what is read of a class. Without a casm hash the
compilation panics. -/
structure GenesisClasses (P : Payloads) where
  isLegacy : P.ContractClass → Bool
  casmHash : P.ContractClass → Option Felt
  legacyErc20Class : P.ContractClass
  legacyUdcClass : P.ContractClass
  feeTokenBalanceBaseStorageAddress : Felt → Felt

def defaultUdcAddress : Felt := 0x041a78e741e5af2fec34b695679bc6891742439f7afb8484ecd7766661ad02bf
def defaultEthFeeTokenAddress : Felt :=
  0x049d36570d4e46f48e99674bd3fcc84644ddd6b96f7c741b1562b82f9e004dc7
def defaultStrkFeeTokenAddress : Felt :=
  0x04718f5a0fc34cc1af16a1cdee98ffb20c31f5cd61d6ab07201858f4287c938d
def defaultAccountClassPubkeyStorageSlot : Felt :=
  0x1379ac0624b939ceb9dede92211d7db5ee174fe28be72245b0a1a2abd81c98f
def erc20NameStorageSlot : Felt := 0x0341c1bdfd89f69748aa00b5742b03adbffd79b8e80cab5c50d91cd8c2a79be1
def erc20SymbolStorageSlot : Felt :=
  0x00b6ce5410fca59d078ee9b2a4371a9d684c530d697c64fbef0ae6d5e8f0ac72
def erc20DecimalStorageSlot : Felt :=
  0x01f0d4aa99431d246bac9b8e48c33e888245b15e9678f64f9bdfc8823dc8f979
def erc20TotalSupplyStorageSlot : Felt :=
  0x110e2f729c9c2b988559994a3daccd838cf52faf88e18101373e67dd061455a
def defaultLegacyErc20ClassHash : Felt :=
  0xa2475bc66197c751d854ea8c39c6ad9781eb284103bcd856b58e6b500078ac
def defaultLegacyUdcClassHash : Felt :=
  0x07b3e05f48f0c69e4a65ce5e076a66271a527aff2c34ce1083ec6e1526997a69

def splitU256 (v : Nat) : Felt × Felt := (Felt.ofNat (v%2^128),Felt.ofNat (v/2^128))

/-- entry(k).or_insert(v). -/
def orInsert {ν : Type} (m : SortedMap Felt ν) (k : Felt) (v : ν) : SortedMap Felt ν :=
  if (m.get k).isSome then m else m.put k v

namespace Dev

structure ChainSpec (P : Payloads) where
  genesis : Genesis P

namespace ChainSpec
variable (cs : ChainSpec P)

def header : Header where
  stateDiffLength := 0
  protocolVersion := currentStarknetVersion
  number := cs.genesis.number
  timestamp := cs.genesis.timestamp
  eventsCount := 0
  transactionCount := 0
  eventsCommitment := 0
  receiptsCommitment := 0
  stateDiffCommitment := 0
  transactionsCommitment := 0
  stateRoot := cs.genesis.stateRoot
  parentHash := cs.genesis.parentHash
  l1DaMode := .calldata
  l1GasPrices := cs.genesis.gasPrices
  l2GasPrices := ⟨1,1⟩
  l1DataGasPrices := cs.genesis.gasPrices
  sequencerAddress := cs.genesis.sequencerAddress

def block : Block P := ⟨cs.header,[]⟩

end ChainSpec

variable (G : GenesisClasses P) (states : StateUpdatesWithClasses P)

def addClass (r : Felt × P.ContractClass) : Except String (StateUpdatesWithClasses P) := do
  let u := states.stateUpdates
  let u ← if G.isLegacy r.2 then
      pure { u with deprecatedDeclaredClasses := u.deprecatedDeclaredClasses.insert r.1 }
    else match G.casmHash r.2 with
      | none => throw "called Result::unwrap() on an Err value"
      | some casmHash => pure { u with declaredClasses := u.declaredClasses.put r.1 casmHash }
  return ⟨u,states.classes.put r.1 r.2⟩

def addAllocation (u : StateUpdates) (r : Felt × GenesisAllocation) : StateUpdates :=
  let u := match r.2.classHash with
    | some hash => { u with deployedContracts := u.deployedContracts.put r.1 hash }
    | none => u
  let u := match r.2.nonce with
    | some nonce => { u with nonceUpdates := u.nonceUpdates.put r.1 nonce }
    | none => u
  let storage := r.2.storage.getD ∅
  let storage := match r.2.publicKey with
    | some key => storage.put defaultAccountClassPubkeyStorageSlot key
    | none => storage
  { u with storageUpdates := u.storageUpdates.put r.1 storage }

/-- The balance of one allocation, in two slots, and the supply so far. -/
def addBalance (acc : SortedMap Felt Felt × Nat) (r : Felt × GenesisAllocation) :
    SortedMap Felt Felt × Nat :=
  match r.2.balance with
  | none => acc
  | some balance =>
    let base := G.feeTokenBalanceBaseStorageAddress r.1
    ((acc.1.put base (splitU256 balance).1).put (base+1) (splitU256 balance).2,
      (acc.2+balance)%2^256)

def addFeeToken (u : StateUpdates) (name symbol : String) (decimals : Nat)
    (address classHash : Felt) (allocations : SortedMap Felt GenesisAllocation) : StateUpdates :=
  let (storage,totalSupply) := allocations.rows.foldl (addBalance G) (∅,0)
  let storage := storage.put erc20NameStorageSlot (shortString name)
  let storage := storage.put erc20SymbolStorageSlot (shortString symbol)
  let storage := storage.put erc20DecimalStorageSlot (Felt.ofNat decimals)
  let storage := storage.put erc20TotalSupplyStorageSlot (splitU256 totalSupply).1
  let storage := storage.put (erc20TotalSupplyStorageSlot+1) (splitU256 totalSupply).2
  { u with
    deployedContracts := u.deployedContracts.put address classHash
    storageUpdates := u.storageUpdates.put address storage }

def addDefaultFeeTokens (genesis : Genesis P) : StateUpdatesWithClasses P :=
  let u := addFeeToken G states.stateUpdates "Ether" "ETH" 18 defaultEthFeeTokenAddress
    defaultLegacyErc20ClassHash genesis.allocations
  let u := addFeeToken G u "Starknet Token" "STRK" 18 defaultStrkFeeTokenAddress
    defaultLegacyErc20ClassHash genesis.allocations
  ⟨u,orInsert states.classes defaultLegacyErc20ClassHash G.legacyErc20Class⟩

def addDefaultUdc : StateUpdatesWithClasses P :=
  let u := states.stateUpdates
  let deprecated := u.deprecatedDeclaredClasses.insert defaultLegacyUdcClassHash
  let deployed := orInsert u.deployedContracts defaultUdcAddress defaultLegacyUdcClassHash
  ⟨{ u with deprecatedDeclaredClasses := deprecated, deployedContracts := deployed },
    orInsert states.classes defaultLegacyUdcClassHash G.legacyUdcClass⟩

/-- The declared classes, the allocations, the two fee tokens and the UDC. -/
def ChainSpec.stateUpdates (cs : ChainSpec P) : Except String (StateUpdatesWithClasses P) := do
  let states ← cs.genesis.classes.rows.foldlM (addClass G) ⟨{},∅⟩
  let states := { states with
    stateUpdates := cs.genesis.allocations.rows.foldl addAllocation states.stateUpdates }
  return addDefaultUdc G (addDefaultFeeTokens G states cs.genesis)

end Dev

namespace Rollup

structure ChainSpec (P : Payloads) where
  genesis : Genesis P

def ChainSpec.header (cs : ChainSpec P) : PartialHeader where
  protocolVersion := currentStarknetVersion
  number := cs.genesis.number
  timestamp := cs.genesis.timestamp
  parentHash := cs.genesis.parentHash
  l1DaMode := .calldata
  l2GasPrices := ⟨1,1⟩
  l1GasPrices := cs.genesis.gasPrices
  l1DataGasPrices := cs.genesis.gasPrices
  sequencerAddress := cs.genesis.sequencerAddress

end Rollup

inductive ChainSpec (P : Payloads) where
  | dev (cs : Dev.ChainSpec P)
  | rollup (cs : Rollup.ChainSpec P)

inductive GenesisError where
  | provider (e : ProviderError)
  | context (message : String) (e : ProviderError)
  | hashMismatch (expected found : Felt)
  | execution (message : String)
  | production (e : BlockProductionError)
  deriving DecidableEq, Repr

/-- What fails while the genesis is initialised. -/
structure GenesisEnv where
  blockHash : Option ProviderError := none
  classes : TxEnv := {}
  contracts : TxEnv := {}
  insert : TxEnv := {}

namespace Backend
variable (K : Backend P)

/-- A trie writer over tries in memory, for the genesis block of a rollup. -/
def genesisTrieWriter : TrieWriter P where
  trieInsertDeclaredClasses _ updates :=
    pure ((K.tries .classes).root (TrieMap.setAll ∅ (updates.rows.map (fun r =>
      (triePath r.1,computeClassesTrieValue K.hashes r.2)))))
  trieInsertContractUpdates _ u := do
    let leafs : SortedMap Felt ContractLeaf := contractLeafs u
    let leafs := leafs.merge (fun leaf m => { leaf.getD {} with
      storageRoot := some ((K.tries .storages).root (TrieMap.setAll ∅ (TrieMap.entries m))) })
      u.storageUpdates
    let entries ← leafs.rows.mapM (fun r => match r.2.classHash with
      | none => throw (.panic "called Option::unwrap() on a None value")
      | some classHash => pure (triePath r.1,computeContractStateHash K.hashes classHash
          (r.2.storageRoot.getD 0) (r.2.nonce.getD 0)))
    return (K.tries .contracts).root (TrieMap.setAll ∅ entries)

/-- The block is sealed before its state root is known. -/
def createDevGenesis (env : GenesisEnv) (cs : Dev.ChainSpec P)
    (states : StateUpdatesWithClasses P) : CallM P GenesisError Unit := do
  let block := cs.block.seal K.hashes
  let w := K.provider env.classes env.contracts
  let classTrieRoot ← mapErr (.context "failed to update class trie")
    (w.trieInsertDeclaredClasses block.header.number states.stateUpdates.declaredClasses)
  let contractTrieRoot ← mapErr (.context "failed to update contract trie")
    (w.trieInsertContractUpdates block.header.number states.stateUpdates)
  let header := { block.header with stateRoot := K.stateRoot contractTrieRoot classTrieRoot }
  K.storeBlock .provider env.insert
    ⟨⟨{ block with header := header },.acceptedOnL1⟩,states,[],[]⟩

def initDevGenesis (G : GenesisClasses P) (env : GenesisEnv) (cs : Dev.ChainSpec P) :
    CallM P GenesisError Unit := do
  let localHash ← mapErr .provider (fallible env.blockHash (fun db =>
    blockHashByNum db cs.genesis.number))
  match localHash with
  | some localHash =>
    let genesisHash := cs.block.header.computeHash K.hashes
    if localHash≠genesisHash then throw (.err (.hashMismatch genesisHash localHash))
  | none =>
    match cs.stateUpdates G with
    | .error message => throw (.panic message)
    | .ok states => K.createDevGenesis env cs states

/-- The output is what the executor makes of the genesis block on the empty state. -/
def initRollupGenesis (execute : Rollup.ChainSpec P → Except String (ExecutionOutput K))
    (env : GenesisEnv) (cs : Rollup.ChainSpec P) : CallM P GenesisError Unit := do
  match execute cs with
  | .error message => throw (.err (.execution message))
  | .ok output =>
    let b := K.uncommitted cs.header output
    let localHash ← mapErr .provider (fallible env.blockHash (fun db =>
      blockHashByNum db cs.header.number))
    match localHash with
    | some localHash =>
      let block ← K.commit K.genesisTrieWriter b
      if block.hash≠localHash then throw (.err (.hashMismatch block.hash localHash))
    | none =>
      let block ← K.commit (K.provider env.classes env.contracts) b
      K.storeBlock (fun e => .production (.provider e)) env.insert
        (K.blockInput block .acceptedOnL2 output.states.stateUpdates output)

def initGenesis (G : GenesisClasses P)
    (execute : Rollup.ChainSpec P → Except String (ExecutionOutput K)) (env : GenesisEnv) :
    ChainSpec P → CallM P GenesisError Unit
  | .dev cs => K.initDevGenesis G env cs
  | .rollup cs => K.initRollupGenesis execute env cs

end Backend
end Katana
