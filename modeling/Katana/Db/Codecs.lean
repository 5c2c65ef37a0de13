import Katana.Base.ByteOrder

/-! Key and value encodings of the DUPSORT tables (codecs/mod.rs, models/storage.rs,
models/contract.rs). A stored value is the encoding of its subkey followed by the
encoding of a field element, so the subkey bytes are a prefix of the value bytes. -/
namespace Katana

def feltPrime : Nat := 2^251+17*2^192+1

instance : NeZero feltPrime := ⟨by decide⟩

/-- The Stark field element. -/
abbrev Felt := Fin feltPrime

theorem Felt.val_one : (1 : Felt).val=1 := by decide

theorem Felt.val_add_one_of_lt {x : Felt} (h : x.val+1<feltPrime) : (x+1).val=x.val+1 := by
  rw [Fin.val_add,Felt.val_one,Nat.mod_eq_of_lt h]

theorem Felt.val_add_one_of_not_lt {x : Felt} (h : ¬x.val+1<feltPrime) : (x+1).val=0 := by
  have he : x.val+1=feltPrime := by
    have := x.isLt
    omega
  rw [Fin.val_add,Felt.val_one,he,Nat.mod_self]

theorem Felt.add_one_ne (x : Felt) : x+1≠x := by
  intro h
  have hv := congrArg Fin.val h
  by_cases hx : x.val+1<feltPrime
  · rw [Felt.val_add_one_of_lt hx] at hv
    omega
  · rw [Felt.val_add_one_of_not_lt hx] at hv
    have hp : 1<feltPrime := by decide
    omega

inductive CodecError where
  | decode (message : String)
  | decompress (message : String)
  | compress (message : String)
  deriving DecidableEq, Repr

/-- A value encoding of a library that is not part of the repository. Only the
round trip is relied on. -/
structure Codec (α : Type) where
  encode : α → Bytes
  decode : Bytes → Except CodecError α
  decode_encode : ∀ v, decode (encode v)=.ok v

/-- What the database takes from libraries: postcard for field elements and byte
strings, and the starknet address normalisation, which is a projection. -/
structure Codecs where
  felt : Codec Felt
  byteVec : Codec Bytes
  normalizeAddress : Felt → Felt
  normalize_idem : ∀ a, normalizeAddress (normalizeAddress a)=normalizeAddress a

theorem Codec.encode_inj {α : Type} (C : Codec α) {v w : α} (h : C.encode v=C.encode w) :
    v=w := by
  have hd := congrArg C.decode h
  rw [C.decode_encode,C.decode_encode] at hd
  exact Except.ok.inj hd

@[irreducible] def Felt.toBytesBe (x : Felt) : Bytes := ByteOrder.beBytes 32 x.val

/-- Reads any number of bytes and reduces modulo the prime. -/
@[irreducible] def Felt.fromBytesBeSlice (bs : Bytes) : Felt :=
  Fin.ofNat feltPrime (ByteOrder.beVal bs)

@[simp] theorem Felt.toBytesBe_length (x : Felt) : x.toBytesBe.length=32 := by
  rw [Felt.toBytesBe,ByteOrder.beBytes_length]

theorem Felt.val_lt_bytes (x : Felt) : x.val<256^32 :=
  lt_trans x.isLt (by decide)

@[simp] theorem Felt.fromBytesBe_toBytesBe (x : Felt) : Felt.fromBytesBeSlice x.toBytesBe=x := by
  apply Fin.ext
  rw [Felt.fromBytesBeSlice,Felt.toBytesBe,ByteOrder.beVal_beBytes 32 x.val x.val_lt_bytes,
    Fin.val_ofNat]
  exact Nat.mod_eq_of_lt x.isLt

theorem Felt.toBytesBe_inj {x y : Felt} (h : x.toBytesBe=y.toBytesBe) : x=y := by
  rw [← Felt.fromBytesBe_toBytesBe x,h,Felt.fromBytesBe_toBytesBe]

theorem Felt.eq_of_prefix {x y : Felt} {w : Bytes} (h : x.toBytesBe<+:y.toBytesBe++w) : x=y :=
  Felt.toBytesBe_inj (ByteOrder.eq_of_prefix (by simp) h)

variable (C : Codecs)

/-- ContractAddress::decode goes through From<Felt>, which normalises. -/
def decodeAddress (bs : Bytes) : Felt :=
  C.normalizeAddress (Felt.fromBytesBeSlice bs)

structure StorageEntry where
  key : Felt
  value : Felt
  deriving DecidableEq, Repr

structure ContractNonceChange where
  contractAddress : Felt
  nonce : Felt
  deriving DecidableEq, Repr

structure ContractClassChange where
  contractAddress : Felt
  classHash : Felt
  deriving DecidableEq, Repr

structure ContractStorageKey where
  contractAddress : Felt
  key : Felt
  deriving DecidableEq, Repr

structure ContractStorageEntry where
  key : ContractStorageKey
  value : Felt
  deriving DecidableEq, Repr

def ContractStorageKey.encode (k : ContractStorageKey) : Bytes :=
  k.contractAddress.toBytesBe++k.key.toBytesBe

/-- The subkey bytes, then the compressed field element. -/
def compressEntry (subkey : Bytes) (value : Felt) : Bytes :=
  subkey++C.felt.encode value

/-- Splits off the subkey bytes; slicing a shorter value panics in the source. -/
def decompressEntry (width : Nat) (bs : Bytes) : Except CodecError (Bytes × Felt) :=
  if bs.length<width then .error (.decode "range end index out of range")
  else (C.felt.decode (bs.drop width)).map (fun v => (bs.take width,v))

def StorageEntry.compress (e : StorageEntry) : Bytes :=
  compressEntry C e.key.toBytesBe e.value

def StorageEntry.decompress (bs : Bytes) : Except CodecError StorageEntry :=
  (decompressEntry C 32 bs).map (fun r => ⟨Felt.fromBytesBeSlice r.1,r.2⟩)

def ContractNonceChange.compress (e : ContractNonceChange) : Bytes :=
  compressEntry C e.contractAddress.toBytesBe e.nonce

def ContractNonceChange.decompress (bs : Bytes) : Except CodecError ContractNonceChange :=
  (decompressEntry C 32 bs).map (fun r => ⟨decodeAddress C r.1,r.2⟩)

def ContractClassChange.compress (e : ContractClassChange) : Bytes :=
  compressEntry C e.contractAddress.toBytesBe e.classHash

def ContractClassChange.decompress (bs : Bytes) : Except CodecError ContractClassChange :=
  (decompressEntry C 32 bs).map (fun r => ⟨decodeAddress C r.1,r.2⟩)

def ContractStorageEntry.compress (e : ContractStorageEntry) : Bytes :=
  compressEntry C e.key.encode e.value

def ContractStorageEntry.decompress (bs : Bytes) : Except CodecError ContractStorageEntry :=
  (decompressEntry C 64 bs).map (fun r =>
    ⟨⟨decodeAddress C (r.1.take 32),Felt.fromBytesBeSlice (r.1.drop 32)⟩,r.2⟩)

@[simp] theorem ContractStorageKey.encode_length (k : ContractStorageKey) :
    k.encode.length=64 := by
  simp [ContractStorageKey.encode]

theorem ContractStorageKey.encode_inj {k k' : ContractStorageKey} (h : k.encode=k'.encode) :
    k=k' := by
  obtain ⟨a,x⟩ := k
  obtain ⟨a',x'⟩ := k'
  obtain ⟨ha,hx⟩ := List.append_inj h (by simp)
  obtain rfl : a=a' := Felt.toBytesBe_inj ha
  obtain rfl : x=x' := Felt.toBytesBe_inj hx
  rfl

theorem ContractStorageKey.eq_of_prefix {k k' : ContractStorageKey} {w : Bytes}
    (h : k.encode<+:k'.encode++w) : k=k' :=
  ContractStorageKey.encode_inj (ByteOrder.eq_of_prefix (by simp) h)

theorem compressEntry_inj {s t : Bytes} {v w : Felt} (hl : s.length=t.length)
    (h : compressEntry C s v=compressEntry C t w) : s=t ∧ v=w :=
  ⟨(List.append_inj h hl).1,C.felt.encode_inj (List.append_inj h hl).2⟩

theorem decompress_compressEntry (width : Nat) (s : Bytes) (v : Felt)
    (hs : s.length=width) : decompressEntry C width (compressEntry C s v)=.ok (s,v) := by
  subst hs
  have hn : ¬(s++C.felt.encode v).length < s.length := by simp
  simp only [decompressEntry,compressEntry,if_neg hn,List.drop_left,List.take_left,
    C.felt.decode_encode]
  rfl

@[simp] theorem StorageEntry.decompress_compress (e : StorageEntry) :
    StorageEntry.decompress C (e.compress C)=.ok e := by
  rw [StorageEntry.decompress,StorageEntry.compress,
    decompress_compressEntry C 32 _ _ (Felt.toBytesBe_length _)]
  simp [Except.map]

@[simp] theorem ContractNonceChange.decompress_compress (a n : Felt) :
    ContractNonceChange.decompress C (ContractNonceChange.compress C ⟨a,n⟩)=
      .ok ⟨C.normalizeAddress a,n⟩ := by
  rw [ContractNonceChange.decompress,ContractNonceChange.compress,
    decompress_compressEntry C 32 _ _ (Felt.toBytesBe_length _)]
  simp [Except.map,decodeAddress]

@[simp] theorem ContractClassChange.decompress_compress (a h : Felt) :
    ContractClassChange.decompress C (ContractClassChange.compress C ⟨a,h⟩)=
      .ok ⟨C.normalizeAddress a,h⟩ := by
  rw [ContractClassChange.decompress,ContractClassChange.compress,
    decompress_compressEntry C 32 _ _ (Felt.toBytesBe_length _)]
  simp [Except.map,decodeAddress]

@[simp] theorem ContractStorageEntry.decompress_compress (a k v : Felt) :
    ContractStorageEntry.decompress C (ContractStorageEntry.compress C ⟨⟨a,k⟩,v⟩)=
      .ok ⟨⟨C.normalizeAddress a,k⟩,v⟩ := by
  rw [ContractStorageEntry.decompress,ContractStorageEntry.compress,
    decompress_compressEntry C 64 _ _ (ContractStorageKey.encode_length _)]
  have ht : List.take 32 (ContractStorageKey.encode ⟨a,k⟩)=a.toBytesBe := by
    rw [ContractStorageKey.encode,List.take_left' (Felt.toBytesBe_length a)]
  have hd : List.drop 32 (ContractStorageKey.encode ⟨a,k⟩)=k.toBytesBe := by
    rw [ContractStorageKey.encode,List.drop_left' (Felt.toBytesBe_length a)]
  simp [Except.map,decodeAddress,ht,hd]

end Katana
