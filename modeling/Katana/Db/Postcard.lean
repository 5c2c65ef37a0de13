import Katana.Db.Codecs

/-! The library encodings as they are: postcard writes a byte string as its length, in
groups of seven bits, and the bytes; a field element is the byte string of its 32
bytes; the address bound of Starknet is 2^251-256. -/
namespace Katana

/-- Seven bits per byte, least significant group first; the high bit says that more
bytes follow. -/
def varint (n : Nat) : Bytes :=
  if n<128 then [Fin.ofNat 256 n] else Fin.ofNat 256 (n%128+128)::varint (n/128)
termination_by n

def decodeVarint : Bytes → Option (Nat × Bytes)
  | [] => none
  | b::bs => if b.val<128 then some (b.val,bs)
    else (decodeVarint bs).map (fun r => (b.val-128+128*r.1,r.2))

theorem decodeVarint_varint (n : Nat) (rest : Bytes) :
    decodeVarint (varint n++rest)=some (n,rest) := by
  induction n using Nat.strongRecOn with
  | ind n ih =>
    unfold varint
    by_cases h : n<128
    · have hv : n%256=n := Nat.mod_eq_of_lt (by omega)
      simp [h,decodeVarint,hv]
    · have hv : (n%128+128)%256=n%128+128 := Nat.mod_eq_of_lt (by omega)
      have hdiv : n%128+128*(n/128)=n := Nat.mod_add_div n 128
      simp [h,decodeVarint,hv,ih (n/128) (by omega),hdiv]

def decodeBytes (bs : Bytes) : Except CodecError Bytes :=
  match decodeVarint bs with
  | none => .error (.decompress "Hit the end of buffer, expected more data")
  | some r =>
    if r.2.length<r.1 then .error (.decompress "Hit the end of buffer, expected more data")
    else .ok (r.2.take r.1)

def postcardBytes : Codec Bytes where
  encode v := varint v.length++v
  decode := decodeBytes
  decode_encode v := by simp [decodeBytes,decodeVarint_varint]

def postcardFelt : Codec Felt where
  encode x := postcardBytes.encode x.toBytesBe
  decode bs := (decodeBytes bs).map Felt.fromBytesBeSlice
  decode_encode x := by
    have h := postcardBytes.decode_encode x.toBytesBe
    simp only [postcardBytes] at h ⊢
    rw [h]
    simp [Except.map]

def addressBound : Nat := 2^251-256

def normalizeAddress (a : Felt) : Felt := Fin.ofNat feltPrime (a.val%addressBound)

theorem normalizeAddress_val (a : Felt) : (normalizeAddress a).val=a.val%addressBound := by
  have hlt : a.val%addressBound<addressBound := Nat.mod_lt _ (by decide)
  exact Nat.mod_eq_of_lt (hlt.trans (by decide))

def starknetCodecs : Codecs where
  felt := postcardFelt
  byteVec := postcardBytes
  normalizeAddress := normalizeAddress
  normalize_idem a := by
    apply Fin.ext
    rw [normalizeAddress_val,normalizeAddress_val,Nat.mod_mod]

end Katana
