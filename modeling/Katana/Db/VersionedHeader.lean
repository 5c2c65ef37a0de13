import Katana.Db.Formats
import Katana.Primitives
import Katana.Primitives.Version

/-! What the database reads back of a header (models/versioned/block). The numbers of a header
have the widths of their machine types and its prices are not zero; version 7 has the prices of
L2 gas before the mode of data availability. -/
namespace Katana
open Wire

def GasPrice.InRange (p : GasPrice) : Prop := 0<p.eth ∧ p.eth<2^128 ∧ 0<p.strk ∧ p.strk<2^128

structure HeaderV6.InRange (h : HeaderV6) : Prop where
  number : h.number<2^64
  transactionCount : h.transactionCount<2^32
  eventsCount : h.eventsCount<2^32
  stateDiffLength : h.stateDiffLength<2^32
  timestamp : h.timestamp<2^64
  l1GasPrices : h.l1GasPrices.InRange
  l1DataGasPrices : h.l1DataGasPrices.InRange
  segments : h.protocolVersion.length=4
  segment : ∀ s∈h.protocolVersion, s<256

structure Header.InRange (h : Header) : Prop where
  v6 : h.toHeaderV6.InRange
  l2GasPrices : h.l2GasPrices.InRange

def VersionedHeader.InRange : VersionedHeader → Prop
  | .v6 h => h.InRange
  | .v7 h => h.InRange

/-- The values of the types in the source. -/
abbrev StoredGasPrice := {p : GasPrice // p.InRange}
abbrev StoredHeaderV6 := {h : HeaderV6 // h.InRange}
abbrev StoredHeader := {h : Header // h.InRange}
abbrev StoredVersionedHeader := {h : VersionedHeader // h.InRange}

namespace Formats

def nonZeroU128 : Wire {n : Nat // 0<n ∧ n<2^128} :=
  (below 128).refine (fun n => if h : 0<n.val then some ⟨n.val,h,n.property⟩ else none)
    (fun n => ⟨n.val,n.property.2⟩) fun n => by simp [n.property.1]

def gasPrice : Wire StoredGasPrice :=
  (nonZeroU128.pair nonZeroU128).iso
    (fun r => ⟨⟨r.1.val,r.2.val⟩,r.1.property.1,r.1.property.2,r.2.property.1,r.2.property.2⟩)
    (fun p => (⟨p.val.eth,p.property.1,p.property.2.1⟩,⟨p.val.strk,p.property.2.2⟩)) fun _ => rfl

def l1DataAvailabilityMode : Wire L1DataAvailabilityMode where
  encode
    | .blob => index.encode 0
    | .calldata => index.encode 1
  decode := choose [branch unit fun _ => .blob,branch unit fun _ => .calldata]
  decode_encode m rest := by cases m <;> simp [branch,unit]

/-- A version is stored as the string it is printed as. -/
def protocolVersion : Wire ProtocolVersion :=
  byteString.refine ProtocolVersion.parse ProtocolVersion.display ProtocolVersion.parse_display

/-- The fields before the prices of L2 gas. -/
abbrev HeaderHead := Felt × {n // n<2^64} × Felt × Felt × Felt × Felt × Felt × {n // n<2^32} × {n // n<2^32} ×
  {n // n<2^32} × {n // n<2^64} × Felt × StoredGasPrice × StoredGasPrice

def headerHead : Wire HeaderHead :=
  felt.pair ((below 64).pair (felt.pair (felt.pair (felt.pair (felt.pair (felt.pair
    ((below 32).pair ((below 32).pair ((below 32).pair ((below 64).pair (felt.pair
      (gasPrice.pair gasPrice))))))))))))

def headOf (h : StoredHeaderV6) : HeaderHead :=
  (h.val.parentHash,⟨h.val.number,h.property.number⟩,h.val.stateDiffCommitment,
    h.val.transactionsCommitment,h.val.receiptsCommitment,h.val.eventsCommitment,h.val.stateRoot,
    ⟨h.val.transactionCount,h.property.transactionCount⟩,
    ⟨h.val.eventsCount,h.property.eventsCount⟩,
    ⟨h.val.stateDiffLength,h.property.stateDiffLength⟩,⟨h.val.timestamp,h.property.timestamp⟩,
    h.val.sequencerAddress,⟨h.val.l1GasPrices,h.property.l1GasPrices⟩,
    ⟨h.val.l1DataGasPrices,h.property.l1DataGasPrices⟩)

def versionOf (h : StoredHeaderV6) : ProtocolVersion :=
  ⟨h.val.protocolVersion,h.property.segments,h.property.segment⟩

/-- The header of the fields before the prices of L2 gas and of those after. -/
def buildV6 (r : HeaderHead) (mode : L1DataAvailabilityMode) (version : ProtocolVersion) :
    StoredHeaderV6 :=
  ⟨⟨r.1,r.2.1.val,r.2.2.1,r.2.2.2.1,r.2.2.2.2.1,r.2.2.2.2.2.1,r.2.2.2.2.2.2.1,
    r.2.2.2.2.2.2.2.1.val,r.2.2.2.2.2.2.2.2.1.val,r.2.2.2.2.2.2.2.2.2.1.val,
    r.2.2.2.2.2.2.2.2.2.2.1.val,r.2.2.2.2.2.2.2.2.2.2.2.1,r.2.2.2.2.2.2.2.2.2.2.2.2.1.val,
    r.2.2.2.2.2.2.2.2.2.2.2.2.2.val,mode,version.val⟩,
   ⟨r.2.1.property,r.2.2.2.2.2.2.2.1.property,r.2.2.2.2.2.2.2.2.1.property,
    r.2.2.2.2.2.2.2.2.2.1.property,r.2.2.2.2.2.2.2.2.2.2.1.property,
    r.2.2.2.2.2.2.2.2.2.2.2.2.1.property,r.2.2.2.2.2.2.2.2.2.2.2.2.2.property,
    version.property.1,version.property.2⟩⟩

def build (r : HeaderHead) (l2GasPrices : StoredGasPrice) (mode : L1DataAvailabilityMode)
    (version : ProtocolVersion) : StoredHeader :=
  ⟨⟨(buildV6 r mode version).val,l2GasPrices.val⟩,(buildV6 r mode version).property,
    l2GasPrices.property⟩

theorem buildV6_headOf (h : StoredHeaderV6) :
    buildV6 (headOf h) h.val.l1DaMode (versionOf h)=h := rfl

theorem build_headOf (h : StoredHeader) :
    build (headOf ⟨h.val.toHeaderV6,h.property.v6⟩) ⟨h.val.l2GasPrices,h.property.l2GasPrices⟩
      h.val.l1DaMode (versionOf ⟨h.val.toHeaderV6,h.property.v6⟩)=h := rfl

def headerV6 : Wire StoredHeaderV6 :=
  (headerHead.pair (l1DataAvailabilityMode.pair protocolVersion)).iso
    (fun r => buildV6 r.1 r.2.1 r.2.2) (fun h => (headOf h,h.val.l1DaMode,versionOf h))
    buildV6_headOf

def header : Wire StoredHeader :=
  (headerHead.pair (gasPrice.pair (l1DataAvailabilityMode.pair protocolVersion))).iso
    (fun r => build r.1 r.2.1 r.2.2.1 r.2.2.2)
    (fun h => (headOf ⟨h.val.toHeaderV6,h.property.v6⟩,⟨h.val.l2GasPrices,h.property.l2GasPrices⟩,
      h.val.l1DaMode,versionOf ⟨h.val.toHeaderV6,h.property.v6⟩)) build_headOf

def versionedHeader : Wire StoredVersionedHeader where
  encode h := match h with
    | ⟨.v6 h,hr⟩ => index.encode 0++headerV6.encode ⟨h,hr⟩
    | ⟨.v7 h,hr⟩ => index.encode 1++header.encode ⟨h,hr⟩
  decode := choose [branch headerV6 fun h => ⟨.v6 h.val,h.property⟩,
    branch header fun h => ⟨.v7 h.val,h.property⟩]
  decode_encode h rest := by
    obtain ⟨h,hr⟩ := h
    cases h <;> simp

end Formats
open Formats

namespace VersionedHeader

def compress (h : StoredVersionedHeader) : Bytes := versionedHeader.encode h

def decompress (bs : Bytes) : Except CodecError StoredVersionedHeader :=
  match versionedHeader.fromBytes bs with
  | some h => .ok h
  | none =>
    match header.fromBytes bs with
    | some h => .ok ⟨.v7 h.val,h.property⟩
    | none =>
      match headerV6.fromBytes bs with
      | some h => .ok ⟨.v6 h.val,h.property⟩
      | none => .error (.decompress "failed to deserialize header: unknown format")

theorem decompress_compress (h : StoredVersionedHeader) : decompress (compress h)=.ok h := by
  simp [decompress,compress]

theorem nonZeroU128_decode {bs : Bytes} {r : {n : Nat // 0<n ∧ n<2^128} × Bytes}
    (h : nonZeroU128.decode bs=some r) : ∃ x, (uint 128).decode bs=some (x,r.2) := by
  simp only [nonZeroU128,refine,below,iso_decode,Option.bind_eq_some_iff,
    Option.map_eq_some_iff] at h
  obtain ⟨-,⟨s,hs,rfl⟩,-,-,rfl⟩ := h
  exact ⟨s.1,hs⟩

/-- After a mode and the length of a string, which may pass for prices, comes a digit, which is no
mode. -/
theorem decode_prices (mode : L1DataAvailabilityMode) (version : ProtocolVersion) :
    (gasPrice.pair (l1DataAvailabilityMode.pair protocolVersion)).decode
      (l1DataAvailabilityMode.encode mode++protocolVersion.encode version)=none := by
  rw [Option.eq_none_iff_forall_ne_some]
  intro r h
  obtain ⟨u,hu,hrest⟩ := pair_decode_eq_some h
  simp only [gasPrice,iso_decode,Option.map_eq_some_iff] at hu
  obtain ⟨v,hv,rfl⟩ := hu
  obtain ⟨eth,heth,hstrk⟩ := pair_decode_eq_some hv
  obtain ⟨x,hx⟩ := nonZeroU128_decode heth
  obtain ⟨y,hy⟩ := nonZeroU128_decode hstrk
  have hmode : ∃ i, l1DataAvailabilityMode.encode mode=(uint 32).encode i := by
    cases mode with
    | blob => exact ⟨0,rfl⟩
    | calldata => exact ⟨1,rfl⟩
  obtain ⟨i,hi⟩ := hmode
  rw [hi] at hx
  have heth' : eth.2=protocolVersion.encode version := (uint_decode_uint hx).2
  rw [heth'] at hy
  have hstr : v.2=version.display := (uint_decode_leb (lt_pow_succ_self _) hy).2
  obtain ⟨b,bs,hb,hlo,hhi⟩ := version.display_head
  have hnone : l1DataAvailabilityMode.decode v.2=none := by
    rw [hstr,hb]
    exact choose_byte_none (by omega) (by simp; omega) bs
  simp only at hrest
  rw [pair_decode_none hnone] at hrest
  cases hrest

theorem header_decode_v6 (h : StoredHeaderV6) : header.decode (headerV6.encode h)=none := by
  simp [header,headerV6,pair_encode,decode_prices]

theorem decompress_untagged (h : StoredHeaderV6) :
    decompress (headerV6.encode h)=.ok ⟨.v6 h.val,h.property⟩ := by
  have htagged : versionedHeader.decode (headerV6.encode h)=none := by
    rw [headerV6,iso_encode,pair_encode,headerHead,pair_encode,List.append_assoc]
    exact choose_felt rfl (by simp) _ _
  simp [decompress,fromBytes_none htagged,fromBytes_none (header_decode_v6 h)]

end VersionedHeader
end Katana
