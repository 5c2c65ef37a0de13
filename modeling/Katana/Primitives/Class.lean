import Katana.Primitives.Transaction

/-! Contract classes, their hashes and their compilation (primitives/src/class.rs). The ABI with
its two readings, the Sierra compiler and the hash functions are those of libraries. -/
namespace Katana.Primitives

structure ContractEntryPoint where
  selector : Nat
  functionIdx : Nat
  deriving DecidableEq, Repr

structure ContractEntryPoints where
  external : List ContractEntryPoint := []
  l1Handler : List ContractEntryPoint := []
  constructor : List ContractEntryPoint := []
  deriving DecidableEq, Repr

structure SierraContractClass (Abi : Type) where
  sierraProgram : List Nat
  contractClassVersion : String
  entryPointsByType : ContractEntryPoints
  abi : Option Abi
  deriving DecidableEq, Repr

structure ClassLibraries extends Hashers where
  Abi : Type
  LegacyContractClass : Type
  CasmContractClass : Type
  defaultAbi : Abi
  /-- serde_json::from_str at Option<abi::Contract>: the text null is no ABI. -/
  parseAbi : String → Except String (Option Abi)
  toStringPythonic : Abi → String
  starknetKeccak : String → Felt
  normalizeAddress : Felt → Felt
  legacyClassHash : LegacyContractClass → Felt
  /-- CasmContractClass::from_contract_class, with pythonic hints and no size limit. -/
  fromContractClass : SierraContractClass Abi → Except String CasmContractClass
  compiledClassHash : CasmContractClass → Felt
  /-- The class hash of starknet-rs, of the class written as JSON and read back. -/
  rereadClassHash : CasmContractClass → Except String Felt
  /-- FlattenedSierraClass::class_hash of starknet-rs, of the program, the selector and the number
  of each entry point (external, L1 handler, constructor) and the text of the ABI. -/
  flattenedClassHash : List Felt → List (Felt × Nat) → List (Felt × Nat) → List (Felt × Nat) →
    String → Felt

inductive ContractClass (L : ClassLibraries) where
  | sierra (c : SierraContractClass L.Abi)
  | legacy (c : L.LegacyContractClass)

inductive CompiledClass (L : ClassLibraries) where
  | casm (c : L.CasmContractClass)
  | legacy (c : L.LegacyContractClass)

section
variable (L : ClassLibraries)

def entrypointsHash (entrypoints : List ContractEntryPoint) : Felt :=
  L.poseidonHashMany (entrypoints.flatMap (fun entry =>
    [Fin.ofNat feltPrime entry.selector,Fin.ofNat feltPrime entry.functionIdx]))

/-- The hash of a Sierra class, from the hashes of its entry points and the text of its ABI. -/
def sierraClassHash (external l1Handler constructor : Felt) (abi : String)
    (program : List Felt) : Felt :=
  L.normalizeAddress (L.poseidonHashMany
    [shortString "CONTRACT_CLASS_V0.1.0".toList,external,l1Handler,constructor,
      L.starknetKeccak abi,L.poseidonHashMany program])

def selectorsHash (entrypoints : List (Felt × Nat)) : Felt :=
  L.poseidonHashMany (entrypoints.flatMap (fun entry => [entry.1,Fin.ofNat feltPrime entry.2]))

/-- The compiler reads no ABI, the two libraries agree on the hash of a compiled class, and
starknet-rs hashes a class as class.rs does, with the text of the ABI as it is. -/
structure ClassLibraries.Lawful : Prop where
  fromContractClass_abi : ∀ c abi,
    L.fromContractClass { c with abi := abi }=L.fromContractClass c
  rereadClassHash_eq : ∀ casm, L.rereadClassHash casm=.ok (L.compiledClassHash casm)
  flattenedClassHash_eq : ∀ program external l1Handler constructor abi,
    L.flattenedClassHash program external l1Handler constructor abi=
      sierraClassHash L (selectorsHash L external) (selectorsHash L l1Handler)
        (selectorsHash L constructor) abi program

def abiStr (abi : Option L.Abi) : String := L.toStringPythonic (abi.getD L.defaultAbi)

def computeSierraClassHash (c : SierraContractClass L.Abi) : Felt :=
  sierraClassHash L (entrypointsHash L c.entryPointsByType.external)
    (entrypointsHash L c.entryPointsByType.l1Handler)
    (entrypointsHash L c.entryPointsByType.constructor) (abiStr L c.abi)
    (c.sierraProgram.map (Fin.ofNat feltPrime))

end

variable {L : ClassLibraries}

def ContractClass.classHash : ContractClass L → Felt
  | .sierra c => computeSierraClassHash L c
  | .legacy c => L.legacyClassHash c

def ContractClass.isLegacy : ContractClass L → Bool
  | .sierra _ => false
  | .legacy _ => true

def ContractClass.compile : ContractClass L → Except String (CompiledClass L)
  | .legacy c => .ok (.legacy c)
  | .sierra c => (L.fromContractClass c).map .casm

def CompiledClass.classHash : CompiledClass L → Felt
  | .casm c => L.compiledClassHash c
  | .legacy c => L.legacyClassHash c

def DeclareTx.classHash : DeclareTx → Felt
  | .v0 tx => tx.classHash
  | .v1 tx => tx.classHash
  | .v2 tx => tx.classHash
  | .v3 tx => tx.classHash

/-- A transaction with its hash; a declare transaction has its class with it. -/
structure ExecutableTxWithHash (L : ClassLibraries) where
  hash : Felt
  transaction : ExecutableTx
  declaredClass : Option (ContractClass L)

/-- None is the panic of a hash that is not implemented. -/
def ExecutableTxWithHash.new (transaction : ExecutableTx)
    (declaredClass : Option (ContractClass L)) : Option (ExecutableTxWithHash L) :=
  (transaction.calculateHash L.toHashers false).map (⟨·,transaction,declaredClass⟩)

/-- What the executor keeps of a declare transaction. -/
def ExecutableTxWithHash.classDeclArtifacts (tx : ExecutableTxWithHash L) :
    Option (Felt × ContractClass L) :=
  match tx.transaction,tx.declaredClass with
  | .declare declare,some c => some (declare.classHash,c)
  | _,_ => none

end Katana.Primitives
