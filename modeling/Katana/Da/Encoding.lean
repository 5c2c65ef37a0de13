import Katana.Base.BitString
import Katana.Db.Postcard
import Katana.Primitives

/-! The words in which a state update is published (primitives/src/da/encoding.rs). A word is a
number of any size. Per contract there is its address, a word that packs whether its class is
new, its nonce and the number of its storage entries, and then the class and the entries. -/
namespace Katana.Da

inductive EncodingError where
  | missingUpdatesCount
  | missingDeclarationsCount
  | missingAddress
  | missingMetadata
  | missingStorageKey
  | missingStorageValue
  | missingNewClassHash
  | missingClassHash
  | missingCompiledClassHash
  | invalidValue
  | invalidMetadata
  deriving DecidableEq, Repr

structure Metadata where
  classInformationFlag : Bool := false
  newNonce : Option Felt := none
  totalStorageUpdates : Nat := 0
  deriving DecidableEq, Repr

structure ContractUpdate where
  metadata : Metadata := {}
  classHash : Option Felt := none
  storageUpdates : SortedMap Felt Felt := ∅
  deriving DecidableEq

section Encode

def Metadata.encode (m : Metadata) : Option Nat :=
  let flag := if m.classInformationFlag then 1<<<128 else 0
  (m.newNonce.elim (some flag) fun nonce =>
    if nonce.val<2^64 then some (flag|||nonce.val<<<64) else none).map (·|||m.totalStorageUpdates)

def pairWords (r : Felt × Felt) : List Nat := [r.1.val,r.2.val]

def ContractUpdate.encode (u : ContractUpdate) : Option (List Nat) :=
  u.metadata.encode.map fun word =>
    word::(u.classHash.toList.map Fin.val++u.storageUpdates.rows.flatMap pairWords)

/-- The contracts of the three maps in the order of their addresses. The replaced classes are not
among them. -/
def contractUpdates (su : StateUpdates) : SortedMap Felt ContractUpdate :=
  let nonces := SortedMap.merge (fun entry nonce =>
    let u := entry.getD {}
    { u with metadata := { u.metadata with newNonce := some nonce } }) ∅ su.nonceUpdates
  let classes := SortedMap.merge (fun entry classHash =>
    let u := entry.getD {}
    { u with metadata := { u.metadata with classInformationFlag := true }
             classHash := some classHash }) nonces su.deployedContracts
  SortedMap.merge (fun entry storages =>
    let u := entry.getD {}
    { u with metadata := { u.metadata with totalStorageUpdates := storages.size }
             storageUpdates := storages }) classes su.storageUpdates

def contractWords (r : Felt × ContractUpdate) : Option (List Nat) :=
  r.2.encode.map (r.1.val::·)

def encodeStateUpdates (su : StateUpdates) : Option (List Nat) :=
  ((contractUpdates su).rows.mapM contractWords).map fun contracts =>
    (contractUpdates su).size::(contracts.flatten++
      su.declaredClasses.size::su.declaredClasses.rows.flatMap pairWords)

end Encode

section Decode

/-- The binary digits of a word, padded to 256; a longer word is not cut. -/
def bits (word : Nat) : List Bool := BitString.digits (max 256 (word.log2+1)) word

def slice (bs : List Bool) (start len : Nat) : Except EncodingError (List Bool) :=
  if start+len≤bs.length then .ok ((bs.drop start).take len) else .error .invalidMetadata

def Metadata.decode (word : Nat) : Except EncodingError Metadata := do
  let flag ← slice (bits word) 127 1
  let nonce ← slice (bits word) 128 64
  let nonce : Felt := Fin.ofNat feltPrime (BitString.value nonce)
  let total ← slice (bits word) 192 64
  return ⟨BitString.value flag==1,if nonce=0 then none else some nonce,BitString.value total⟩

/-- What is left to read is the state. -/
abbrev Decoder := StateT (List Nat) (Except EncodingError)

def next (missing : EncodingError) : Decoder Nat
  | [] => .error missing
  | w::ws => .ok (w,ws)

def toUsize (n : Nat) : Except EncodingError Nat :=
  if n<2^64 then .ok n else .error .invalidValue

def toFelt (n : Nat) : Felt := Fin.ofNat feltPrime n

/-- ContractAddress::from; the normalisation is that of starknet-rs. -/
def contractAddress (normalizeAddress : Felt → Felt) (n : Nat) : Felt :=
  normalizeAddress (toFelt n)

def readPairs (missingKey missingValue : EncodingError) :
    Nat → SortedMap Felt Felt → Decoder (SortedMap Felt Felt)
  | 0,m => pure m
  | n+1,m => do
    let key ← next missingKey
    let value ← next missingValue
    readPairs missingKey missingValue n (m.put (toFelt key) (toFelt value))

def readStorages : Nat → SortedMap Felt Felt → Decoder (SortedMap Felt Felt) :=
  readPairs .missingStorageKey .missingStorageValue

def readDeclarations : Nat → SortedMap Felt Felt → Decoder (SortedMap Felt Felt) :=
  readPairs .missingClassHash .missingCompiledClassHash

def readClassHash (classInformationFlag : Bool) : Decoder (Option Felt) :=
  if classInformationFlag then do
    let hash ← next .missingNewClassHash
    return some (toFelt hash)
  else pure none

def insertContract (su : StateUpdates) (address : Felt) (newNonce classHash : Option Felt)
    (storages : SortedMap Felt Felt) : StateUpdates :=
  { su with
    storageUpdates := if storages.rows=[] then su.storageUpdates
      else su.storageUpdates.put address storages
    nonceUpdates := newNonce.elim su.nonceUpdates fun nonce => su.nonceUpdates.put address nonce
    deployedContracts := classHash.elim su.deployedContracts fun h =>
      su.deployedContracts.put address h }

section Addresses
variable (address : Nat → Felt)

def readContracts : Nat → StateUpdates → Decoder StateUpdates
  | 0,su => pure su
  | n+1,su => do
    let a ← next .missingAddress
    let metadata ← next .missingMetadata
    let metadata ← Metadata.decode metadata
    let classHash ← readClassHash metadata.classInformationFlag
    let storages ← readStorages metadata.totalStorageUpdates ∅
    readContracts n (insertContract su (address a) metadata.newNonce classHash storages)

def decodeWith (value : List Nat) : Except EncodingError StateUpdates :=
  if value=[] then .ok {} else do
    let (su,_) ← (do
      let totalUpdates ← next .missingUpdatesCount
      let totalUpdates ← toUsize totalUpdates
      let su ← readContracts address totalUpdates {}
      let totalDeclarations ← next .missingDeclarationsCount
      let totalDeclarations ← toUsize totalDeclarations
      let declaredClasses ← readDeclarations totalDeclarations ∅
      return { su with declaredClasses } : Decoder StateUpdates).run value
    return su

end Addresses

def decodeStateUpdates (normalizeAddress : Felt → Felt) (value : List Nat) :
    Except EncodingError StateUpdates :=
  decodeWith (contractAddress normalizeAddress) value

end Decode
section Metadata

theorem Metadata.decode_eq {word : Nat} (h : word<2^256) :
    Metadata.decode word=.ok ⟨word>>>128%2==1,
      if toFelt (word>>>64%2^64)=0 then none else some (toFelt (word>>>64%2^64)),word%2^64⟩ := by
  have hwidth : max 256 (word.log2+1)=256 := by
    have hlog : word.log2<256 := by
      by_cases h0 : word=0
      · simp [h0]
      · exact (Nat.log2_lt h0).mpr h
    omega
  have hslice {start len : Nat} (hl : start+len≤256) : slice (bits word) start len=
      .ok (((BitString.digits 256 word).drop start).take len) := by
    simp [slice,bits,hwidth,hl]
  rw [Metadata.decode,hslice (by decide),hslice (by decide),hslice (by decide)]
  simp [bind,Except.bind,pure,Except.pure,BitString.value_slice,toFelt]

/-- The word of metadata whose fields have their widths. -/
def packed (flag : Bool) (nonce total : Nat) : Nat := flag.toNat*2^128+nonce*2^64+total

theorem or_fields (flag : Nat) {nonce total : Nat} (hnonce : nonce<2^64) (htotal : total<2^64) :
    flag<<<128|||nonce<<<64|||total=flag*2^128+nonce*2^64+total := by
  have hlt : nonce<<<64<2^128 := by
    rw [Nat.shiftLeft_eq]
    omega
  have hshift : flag<<<128+nonce<<<64=(flag*2^64+nonce)<<<64 := by
    simp only [Nat.shiftLeft_eq]
    omega
  rw [←Nat.shiftLeft_add_eq_or_of_lt hlt,hshift,←Nat.shiftLeft_add_eq_or_of_lt htotal,
    Nat.shiftLeft_eq]
  omega

theorem Metadata.encode_eq {m : Metadata} (htotal : m.totalStorageUpdates<2^64)
    (hnonce : ∀ n∈m.newNonce, n.val<2^64) :
    m.encode=some (packed m.classInformationFlag (m.newNonce.elim 0 Fin.val)
      m.totalStorageUpdates) := by
  have hflag : (if m.classInformationFlag then 1<<<128 else 0)=
      m.classInformationFlag.toNat<<<128 := by
    cases m.classInformationFlag <;> rfl
  unfold Metadata.encode packed
  simp only [hflag]
  cases hn : m.newNonce with
  | none =>
    have hzero : 0<2^64 := by decide
    have h := or_fields m.classInformationFlag.toNat hzero htotal
    simpa using h
  | some nonce =>
    have hlt := hnonce nonce hn
    simp only [Option.elim_some,hlt,if_true,Option.map_some]
    rw [or_fields _ hlt htotal]

def shownNonce (nonce : Felt) : Option Felt := if nonce=0 then none else some nonce

theorem Metadata.decode_packed (flag : Bool) {nonce : Felt} {total : Nat}
    (hnonce : nonce.val<2^64) (htotal : total<2^64) :
    Metadata.decode (packed flag nonce.val total)=
      .ok ⟨flag,shownNonce nonce,total⟩ := by
  have hflag : flag.toNat<2 := by cases flag <;> decide
  have hword : packed flag nonce.val total<2^256 := by
    unfold packed
    omega
  have hn : packed flag nonce.val total>>>64%2^64=nonce.val := by
    rw [packed,Nat.shiftRight_eq_div_pow]
    omega
  have hf : packed flag nonce.val total>>>128%2=flag.toNat := by
    rw [packed,Nat.shiftRight_eq_div_pow]
    omega
  have ht : packed flag nonce.val total%2^64=total := by
    unfold packed
    omega
  have hfelt : toFelt nonce.val=nonce := by simp [toFelt]
  rw [Metadata.decode_eq hword,hn,hf,ht,hfelt]
  cases flag <;> rfl

end Metadata
end Katana.Da
