import Katana.Db.VersionedHeader

/-! What the database reads back of a transaction (models/versioned/transaction/mod.rs). A value
is written with the number of its version. One without is tried as version 7, then as version
6; whatever follows the value that was read is ignored, so that bytes of version 6 can be taken
for another transaction of version 7. -/
namespace Katana
open Primitives Wire

abbrev storedPayloads : Payloads := ⟨Tx,V6.Tx,V6.Tx.into,Unit,Unit,Unit⟩

namespace Formats

def versionedTx : Wire (VersionedTx storedPayloads) where
  encode
    | .v6 t => index.encode 0++V6.tx.encode t
    | .v7 t => index.encode 1++tx.encode t
  decode := choose [branch V6.tx fun t => .v6 t,branch tx fun t => .v7 t]
  decode_encode t rest := by cases t <;> simp

end Formats
open Formats

namespace VersionedTx

def compress (t : VersionedTx storedPayloads) : Bytes := versionedTx.encode t

def decompress (bs : Bytes) : Except CodecError (VersionedTx storedPayloads) :=
  match versionedTx.fromBytes bs with
  | some t => .ok t
  | none =>
    match tx.fromBytes bs with
    | some t => .ok (.v7 t)
    | none =>
      match V6.tx.fromBytes bs with
      | some t => .ok (.v6 t)
      | none =>
        .error (.decompress "failed to deserialize versioned transaction: unknown format")

theorem decompress_compress (t : VersionedTx storedPayloads) : decompress (compress t)=.ok t := by
  simp [decompress,compress]

/-- Bytes of version 6 are read as such where neither of the other readers takes them. -/
theorem decompress_v6 {t : V6.Tx} (htagged : versionedTx.decode (V6.tx.encode t)=none)
    (hv7 : tx.decode (V6.tx.encode t)=none) : decompress (V6.tx.encode t)=.ok (.v6 t) := by
  simp [decompress,fromBytes_none htagged,fromBytes_none hv7]

/-- They are not where the reader of version 7 takes them and the tagged one reads nothing that
is this transaction. -/
theorem decompress_ne_v6 {t : V6.Tx} {s : Tx} {rest : Bytes}
    (htagged : versionedTx.fromBytes (V6.tx.encode t)≠some (.v6 t))
    (hv7 : tx.decode (V6.tx.encode t)=some (s,rest)) :
    decompress (V6.tx.encode t)≠.ok (.v6 t) := by
  intro h
  cases ht : versionedTx.fromBytes (V6.tx.encode t) with
  | some u =>
    simp only [decompress,ht,Except.ok.injEq] at h
    exact htagged (ht.trans (congrArg some h))
  | none =>
    have hv7' : tx.fromBytes (V6.tx.encode t)=some s := by simp [fromBytes,hv7]
    simp [decompress,ht,hv7'] at h

end VersionedTx

section Misread

theorem felt_decode_ne {b : Byte} (h : b≠32) (bs : Bytes) : felt.decode (b::bs)=none := by
  simp [felt,h]

variable {bs : Bytes} {zs : List Felt}

theorem felt_decode_short (h : bs.length≤32) : felt.decode bs=none := by
  cases bs with
  | nil => rfl
  | cons b bs =>
    have hl : ¬32≤bs.length := by
      simp only [List.length_cons] at h
      omega
    simp [felt,hl]

theorem toBytesBe_head (x : Felt) : ∃ b bs, x.toBytesBe=b::bs ∧ b.val<32 := by
  obtain ⟨bs,hbs⟩ := ByteOrder.beBytes_head 31 x.val
  refine ⟨_,bs,by rw [Felt.toBytesBe,hbs],?_⟩
  have hx : x.val<256^31*32 := x.isLt.trans (by decide)
  have hdiv : x.val/256^31<32 := Nat.div_lt_of_lt_mul hx
  exact (Nat.mod_le _ _).trans_lt hdiv

theorem felt_decode_inside (x : Felt) (bs : Bytes) : felt.decode (x.toBytesBe++bs)=none := by
  obtain ⟨b,cs,hx,hb⟩ := toBytesBe_head x
  rw [hx]
  refine felt_decode_ne ?_ _
  rintro rfl
  exact absurd hb (by decide)

theorem felts_decode_felt (x : Felt) (bs : Bytes) : felts.decode (felt.encode x++bs)=none := by
  have hc : count.decode (32::(x.toBytesBe++bs))=some (32,x.toBytesBe++bs) :=
    count_decode_byte (b:=32) (by decide) _
  show ((count.decode (32::(x.toBytesBe++bs))).bind fun r => felt.many r.1 r.2)=none
  rw [hc]
  exact many_none (felt_decode_inside x bs) (n:=32) (by decide)

theorem chainId_decode_felt (x : Felt) (bs : Bytes) : chainId.decode (felt.encode x++bs)=none :=
  choose_felt rfl (by simp) x bs

theorem chainId_encode_named (name : NamedChainId) :
    chainId.encode (.named name)=index.encode 0++namedChainId.encode name := rfl

theorem chainId_encode_id (x : Felt) : chainId.encode (.id x)=index.encode 1++felt.encode x := rfl

theorem chainId_decode_name {name : NamedChainId} (h : name≠.goerli) (x : Felt) (bs : Bytes) :
    chainId.decode (namedChainId.encode name++(felt.encode x++bs))=none := by
  cases name with
  | mainnet =>
    have hm : namedChainId.decode (felt.encode x++bs)=none := choose_felt rfl (by simp) x bs
    have henc : namedChainId.encode .mainnet=index.encode 0 := rfl
    simp [chainId,henc,branch_none hm]
  | goerli => exact absurd rfl h
  | sepolia =>
    have henc : namedChainId.encode .sepolia=index.encode 2 := rfl
    simp [chainId,henc]

theorem felt_decode_chainId (c : ChainId) (bs : Bytes) :
    felt.decode (chainId.encode c++bs)=none := by
  cases c with
  | named name => exact felt_decode_ne (b:=0) (by decide) _
  | id x => exact felt_decode_ne (b:=1) (by decide) _

theorem felt_decode_run (hbs : felt.decode bs=none) {r : Felt × Bytes}
    (h : felt.decode (felt.run zs++bs)=some r) : ∃ zs', r.2=felt.run zs'++bs := by
  cases zs with
  | nil => simp [hbs] at h
  | cons z zs =>
    rw [run_cons,List.append_assoc,decode_encode,Option.some.injEq] at h
    exact ⟨zs,by rw [←h]⟩

/-- Where a list of 32 elements is read as one element, the reader stops one byte early. -/
theorem felt_decode_felts {xs : List Felt} {r : Felt × Bytes}
    (h : felt.decode (felts.encode xs++bs)=some r) : ∃ y ys, r.2=y::(felt.run ys++bs) := by
  have hlen : xs.length=32 := by
    by_contra hne
    have hnone : felt.decode (felts.encode xs++bs)=none := by
      show felt.decode (leb (xs.length+1) xs.length++felt.run xs++bs)=none
      unfold leb
      split
      · refine felt_decode_ne ?_ _
        intro hb
        have hv := congrArg Fin.val hb
        simp only [Fin.val_ofNat] at hv
        omega
      · refine felt_decode_ne ?_ _
        intro hb
        have hv := congrArg Fin.val hb
        simp only [Fin.val_ofNat] at hv
        omega
    simp [hnone] at h
  obtain ⟨x,xs,rfl⟩ : ∃ x ys, xs=x::ys := List.exists_cons_of_length_pos (by omega)
  have hdrop : (x.toBytesBe.drop 31).length=1 := by simp
  obtain ⟨y,hy⟩ := List.length_eq_one_iff.mp hdrop
  refine ⟨y,xs,?_⟩
  have henc : felts.encode (x::xs)++bs=32::32::(x.toBytesBe++(felt.run xs++bs)) := by
    show (count.encode (x::xs).length++felt.run (x::xs))++bs=_
    rw [hlen,run_cons,felt_encode]
    simp only [List.append_assoc,List.cons_append]
    rfl
  rw [henc] at h
  simp only [felt,List.length_cons,List.length_append,Felt.toBytesBe_length,true_and] at h
  rw [if_pos (by omega),Option.some.injEq] at h
  rw [←h,List.drop_succ_cons,List.drop_append_of_le_length (by simp),hy]
  rfl

theorem felts_decode_shifted (hbs : felt.decode bs=none) {y : Byte} (hzs : zs≠[])
    {r : List Felt × Bytes} (h : felts.decode (y::(felt.run zs++bs))=some r) :
    ∃ zs', r.2=felt.run zs'++bs := by
  by_cases hy : y.val<128
  · have hc := count_decode_byte hy (felt.run zs++bs)
    simp only [felts,Wire.list,hc,Option.bind_some] at h
    exact many_leaves_run felt hbs _ _ h
  · obtain ⟨z,zs,rfl⟩ := List.exists_cons_of_ne_nil hzs
    have hc : count.decode (y::(felt.run (z::zs)++bs))=
        some (y.val-128+128*32,z.toBytesBe++(felt.run zs++bs)) := by
      simp [count,unleb,hy,felt_encode]
    have hn : 0<y.val-128+128*32 := by omega
    simp only [felts,Wire.list,hc,Option.bind_some,many_none (felt_decode_inside z _) hn] at h
    cases h

theorem u128_decode_felt (x : BitVec 128) : felt.decode ((uint 128).encode x)=none :=
  felt_decode_short ((leb_length _ _).trans (by decide))

theorem resourceBounds_decode_nil : resourceBounds.decode []=none := by
  simp [resourceBounds,pair]

theorem resourceBoundsMapping_decode_u128 (x : BitVec 128) :
    resourceBoundsMapping.decode ((uint 128).encode x)=none := by
  apply choose_none
  intro r hr d hd
  have hread : (uint 32).decode ((uint 128).encode x++[])=some r := by simpa [index] using hr
  have hrest : r.2=[] := (uint_decode_uint hread).2
  have hmem := List.mem_of_getElem? hd
  rw [hrest]
  simp only [List.mem_cons,List.not_mem_nil,or_false] at hmem
  obtain rfl | rfl := hmem
  · exact branch_none resourceBounds_decode_nil _
  · exact branch_none (by simp [allResourceBoundsMapping,pair,resourceBounds_decode_nil]) _

theorem resourceBoundsMapping_decode_run (zs : List Felt) (x : BitVec 128) :
    resourceBoundsMapping.decode (felt.run zs++(uint 128).encode x)=none := by
  cases zs with
  | nil => exact resourceBoundsMapping_decode_u128 x
  | cons z zs =>
    rw [run_cons,List.append_assoc]
    exact choose_felt rfl (by simp) z _

theorem felts_decode_run {x : BitVec 128} {r : List Felt × Bytes}
    (h : felts.decode (felt.run zs++(uint 128).encode x)=some r) : r.2=[] := by
  cases zs with
  | nil =>
    have hc : count.decode ((uint 128).encode x)=some (x.toNat,[]) := by
      simpa using count_decode_uint x []
    simp only [run_nil,List.nil_append,felts,Wire.list,hc,Option.bind_some] at h
    cases hx : x.toNat with
    | zero =>
      simp only [hx,many,Option.some.injEq] at h
      rw [←h]
    | succ n =>
      have hnil : felt.decode []=none := rfl
      simp [hx,many,hnil] at h
  | cons z zs => simp [felts_decode_felt] at h

/-- What follows the sender of a declare transaction of version 0. -/
def declareRest (signature : List Felt) (classHash : Felt) (maxFee : BitVec 128) : Bytes :=
  felts.encode signature++(felt.encode classHash++(uint 128).encode maxFee)

theorem decode_declareRest {β : Type} {g : Wire β} {signature : List Felt}
    {classHash : Felt} {maxFee : BitVec 128} {r : (Felt × List Felt × β) × Bytes}
    (h : (felt.pair (felts.pair g)).decode (declareRest signature classHash maxFee)=some r) :
    ∃ zs, g.decode (felt.run zs++(uint 128).encode maxFee)=some (r.1.2.2,r.2) := by
  obtain ⟨u,hu,h'⟩ := pair_decode_eq_some h
  obtain ⟨v,hv,hg⟩ := pair_decode_eq_some h'
  obtain ⟨y,ys,hy⟩ := felt_decode_felts hu
  have hrun : u.2=y::(felt.run (ys++[classHash])++(uint 128).encode maxFee) := by
    rw [hy,run_append]
    simp
  rw [hrun] at hv
  obtain ⟨zs,hzs⟩ := felts_decode_shifted (u128_decode_felt maxFee) (by simp) hv
  exact ⟨zs,by rw [←hzs]; exact hg⟩

theorem felt_pair_decode_run {β : Type} {g : Wire β} {x : BitVec 128} {r : (Felt × β) × Bytes}
    (h : (felt.pair g).decode (felt.run zs++(uint 128).encode x)=some r) :
    ∃ zs', g.decode (felt.run zs'++(uint 128).encode x)=some (r.1.2,r.2) := by
  obtain ⟨u,hu,hg⟩ := pair_decode_eq_some h
  obtain ⟨zs',hzs'⟩ := felt_decode_run (u128_decode_felt x) hu
  exact ⟨zs',by rw [←hzs']; exact hg⟩

theorem declareTxV0_encode (t : DeclareTxV0) : declareTxV0.encode t=
    chainId.encode t.chainId++(felt.encode t.senderAddress++
      declareRest t.signature t.classHash t.maxFee) := rfl

theorem declareTxV3_decode_v0 (t : DeclareTxV0) :
    declareTxV3.decode (declareTxV0.encode t)=none := by
  rw [Option.eq_none_iff_forall_ne_some]
  intro r h
  rw [declareTxV0_encode] at h
  simp only [declareTxV3,iso_decode,Option.map_eq_some_iff] at h
  obtain ⟨u,hu,-⟩ := h
  obtain ⟨v,hv,htail⟩ := pair_decode_eq_some hu
  simp only [declareHead,pair_decode_encode,Option.map_eq_some_iff] at hv
  obtain ⟨-,⟨w,hw,rfl⟩,rfl⟩ := hv
  obtain ⟨zs,hzs⟩ := decode_declareRest hw
  obtain ⟨ys,hys⟩ := felt_pair_decode_run hzs
  obtain ⟨xs,hxs⟩ := felt_decode_run (u128_decode_felt _) hys
  have hnone : (feeTail resourceBoundsMapping listTail).decode
      (felt.run xs++(uint 128).encode t.maxFee)=none := pair_decode_none (resourceBoundsMapping_decode_run xs t.maxFee) _
  simp only at hxs htail
  rw [hxs,hnone] at htail
  cases htail

theorem deployAccountTxV1_decode_rest (x : Felt) (t : DeclareTxV0) :
    deployAccountTxV1.decode (chainId.encode (.id x)++
      declareRest t.signature t.classHash t.maxFee)=none := by
  rw [Option.eq_none_iff_forall_ne_some]
  intro r h
  simp only [deployAccountTxV1,iso_decode,Option.map_eq_some_iff] at h
  obtain ⟨u,hu,-⟩ := h
  obtain ⟨v,hv,htail⟩ := pair_decode_eq_some hu
  simp only [deployAccountHead,pair_decode_encode,Option.map_eq_some_iff] at hv
  obtain ⟨w,hw,rfl⟩ := hv
  obtain ⟨zs,hzs⟩ := decode_declareRest hw
  obtain ⟨ys,hys⟩ := felt_pair_decode_run hzs
  obtain ⟨xs,hxs⟩ := felt_pair_decode_run hys
  obtain ⟨ws,hws⟩ := felt_pair_decode_run hxs
  have hnil := felts_decode_run hws
  simp only at hnil htail
  rw [hnil,uint_decode_nil] at htail
  cases htail

/-- The chain of a declare transaction of version 0 is taken for the version of a deploy account
transaction where it has a name, and its name for a chain. -/
theorem deployAccountTx_decode_v0 (t : DeclareTxV0) :
    deployAccountTx.decode (declareTxV0.encode t)=none := by
  rw [declareTxV0_encode]
  cases hc : t.chainId with
  | id x =>
    have h : deployAccountTxV3.decode (felt.encode x++(felt.encode t.senderAddress++
        declareRest t.signature t.classHash t.maxFee))=none := by
      simp [deployAccountTxV3,deployAccountHead,pair,chainId_decode_felt]
    simp [deployAccountTx,chainId_encode_id,branch_none h]
  | named name =>
    have h : deployAccountTxV1.decode (namedChainId.encode name++(felt.encode t.senderAddress++
        declareRest t.signature t.classHash t.maxFee))=none := by
      by_cases hg : name=.goerli
      · subst hg
        exact deployAccountTxV1_decode_rest t.senderAddress t
      · simp [deployAccountTxV1,deployAccountHead,pair,chainId_decode_name hg]
    simp [deployAccountTx,chainId_encode_named,branch_none h]

theorem declareTxV1_encode (t : DeclareTxV1) : declareTxV1.encode t=
    chainId.encode t.chainId++(felt.encode t.senderAddress++(felt.encode t.nonce ++
      (felts.encode t.signature++(felt.encode t.classHash++(uint 128).encode t.maxFee)))) := rfl

/-- The nonce of a declare transaction of version 1 is not read as the signature of one of
version 0. -/
theorem declareTxV0_decode_v1 (t : DeclareTxV1) :
    declareTxV0.decode (declareTxV1.encode t)=none := by
  simp [declareTxV1_encode,declareTxV0,pair_decode_none (felts_decode_felt _ _)]

theorem felt_decode_namedChainId (name : NamedChainId) (bs : Bytes) :
    felt.decode (namedChainId.encode name++bs)=none := by
  cases name with
  | mainnet => exact felt_decode_ne (b:=0) (by decide) _
  | goerli => exact felt_decode_ne (b:=1) (by decide) _
  | sepolia => exact felt_decode_ne (b:=2) (by decide) _

theorem invokeTx_decode_v1 (t : DeclareTxV1) : invokeTx.decode (declareTxV1.encode t)=none := by
  rw [declareTxV1_encode]
  cases t.chainId with
  | named name =>
    simp [invokeTx,chainId_encode_named,branch,invokeTxV0,
      pair_decode_none (felt_decode_namedChainId _ _)]
  | id x =>
    simp [invokeTx,chainId_encode_id,branch,invokeTxV1,pair_decode_none (chainId_decode_felt _ _)]

end Misread

namespace VersionedTx

theorem decompress_declareV0 (t : DeclareTxV0) :
    decompress (V6.tx.encode (.declare (.v0 t)))=.ok (.v6 (.declare (.v0 t))) := by
  apply decompress_v6
  · simp [versionedTx,Formats.V6.tx,Formats.V6.declareTx,tx,branch,deployAccountTx_decode_v0]
  · simp [Formats.V6.tx,Formats.V6.declareTx,tx,declareTx,branch,declareTxV3_decode_v0]

theorem decompress_declareV1 (t : DeclareTxV1) :
    decompress (V6.tx.encode (.declare (.v1 t)))=.ok (.v6 (.declare (.v1 t))) := by
  apply decompress_v6
  · simp [versionedTx,Formats.V6.tx,Formats.V6.declareTx,tx,branch,invokeTx_decode_v1]
  · simp [Formats.V6.tx,Formats.V6.declareTx,tx,declareTx,branch,declareTxV0_decode_v1]

/-- A declare transaction of version 2 is taken for one of version 1: the first byte of its
compiled class hash is the fee. -/
theorem tx_decode_declareV2 (t : DeclareTxV2) :
    tx.decode (V6.tx.encode (.declare (.v2 t)))=
      some (.declare (.v1 ⟨t.chainId,t.senderAddress,t.nonce,t.signature,t.classHash,32⟩),
        t.compiledClassHash.toBytesBe++(uint 128).encode t.maxFee) := by
  have hfee : (uint 128).decode (felt.encode t.compiledClassHash++(uint 128).encode t.maxFee)=
      some (32,t.compiledClassHash.toBytesBe++(uint 128).encode t.maxFee) :=
    uint_decode_byte (b:=32) (by decide) (by decide) _
  simp [tx,Formats.V6.tx,Formats.V6.declareTx,declareTx,branch,declareTxV1,declareTxV2,declareHead,
    pair_encode,hfee]

theorem decompress_declareV2 {t : DeclareTxV2} {x : Felt} (h : t.chainId=.id x) :
    decompress (V6.tx.encode (.declare (.v2 t)))=
      .ok (.v7 (.declare (.v1 ⟨t.chainId,t.senderAddress,t.nonce,t.signature,t.classHash,32⟩))) := by
  have hv1 (bs : Bytes) : declareTxV1.decode (felt.encode x++bs)=none := by
    simp [declareTxV1,pair_decode_none (chainId_decode_felt _ _)]
  have htagged : versionedTx.decode (V6.tx.encode (.declare (.v2 t)))=none := by
    simp [versionedTx,Formats.V6.tx,Formats.V6.declareTx,tx,declareTx,branch,declareTxV2,
      declareHead,pair_encode,h,chainId_encode_id,hv1]
  simp [decompress,fromBytes,htagged,tx_decode_declareV2]

/-- A declare transaction of version 3 is taken for one of version 2: the bound on the amount of
L1 gas is the fee. -/
theorem tx_decode_declareV3 (t : V6.DeclareTxV3) : ∃ rest,
    tx.decode (V6.tx.encode (.declare (.v3 t)))=
      some (.declare (.v2 ⟨t.chainId,t.senderAddress,t.nonce,t.signature,t.classHash,
        t.compiledClassHash,BitVec.ofNat 128 t.resourceBounds.l1Gas.maxAmount.toNat⟩),rest) := by
  have hfee (rest : Bytes) :
      (uint 128).decode ((uint 64).encode t.resourceBounds.l1Gas.maxAmount++rest)=
        some (BitVec.ofNat 128 t.resourceBounds.l1Gas.maxAmount.toNat,rest) :=
    uint_decode_narrow (by decide) _ rest
  simp [tx,Formats.V6.tx,Formats.V6.declareTx,declareTx,branch,declareTxV2,Formats.V6.declareTxV3,
    feeTail,Formats.V6.resourceBoundsMapping,resourceBounds,pair_encode,hfee]

theorem versionedTx_decode_invokeV3 (t : V6.InvokeTxV3) :
    versionedTx.decode (V6.tx.encode (.invoke (.v3 t)))=none := by
  have hhandler (bs : Bytes) : l1HandlerTx.decode (chainId.encode t.chainId++bs)=none := by
    simp [l1HandlerTx,pair_decode_none (felt_decode_chainId _ _)]
  simp [versionedTx,Formats.V6.tx,Formats.V6.invokeTx,Formats.V6.invokeTxV3,invokeHead,pair_encode,
    branch,hhandler]

end VersionedTx

namespace V6

/-- The bounds that are bounds to version 7 as well: the amount of L1 gas is taken for the number
of a variant, and either price for an amount or a tip. -/
def ResourceBoundsMapping.Parses (bounds : ResourceBoundsMapping) (variant : BitVec 64) : Prop :=
  bounds.l1Gas.maxAmount=variant ∧ bounds.l1Gas.maxPricePerUnit.toNat<2^64 ∧
    bounds.l2Gas.maxPricePerUnit.toNat<2^64

/-- Behind the bounds for L1 gas, the tip is taken for the length of the first list. Behind the
bounds for all three, it is the price of L2 gas, and the lists start with those for data gas. -/
def ResourceBoundsMapping.Taken {α : Type} (bounds : ResourceBoundsMapping) (tip : BitVec 64)
    (lists : Wire α) (rest : Bytes) : Prop :=
  (bounds.Parses 0 ∧ lists.decode ((uint 64).encode tip++rest)≠none) ∨
    (bounds.Parses 1 ∧ (resourceBounds.pair ((uint 64).pair lists)).decode rest≠none)

/-- The transactions that cannot be taken for one of version 7. Those that are laid out as in
version 7 are; so are declare transactions of version 2 and 3, since version 7 numbers the
versions otherwise. -/
def Tx.OnlyV6 : Tx → Prop
  | .declare (.v0 _) => True
  | .declare (.v1 _) => True
  | .invoke (.v3 tx) => ¬tx.resourceBounds.Taken tx.tip listTail (listTail.encode
      (tx.paymasterData,tx.accountDeploymentData,tx.nonceDataAvailabilityMode,
        tx.feeDataAvailabilityMode))
  | .deployAccount (.v3 tx) => ¬tx.resourceBounds.Taken tx.tip deployListTail
      (deployListTail.encode (tx.paymasterData,tx.nonceDataAvailabilityMode,
        tx.feeDataAvailabilityMode))
  | _ => False

/-- A price and the amount behind it, read as an amount and its price. -/
theorem resourceBounds_decode_shifted (p : BitVec 128) (a : BitVec 64) (bs : Bytes) :
    resourceBounds.decode ((uint 128).encode p++((uint 64).encode a++bs))=
      if p.toNat<2^64 then some (⟨BitVec.ofNat 64 p.toNat,BitVec.ofNat 128 a.toNat⟩,bs)
      else none := by
  simp only [resourceBounds,iso_decode,pair,uint_decode_width (w:=64)]
  split <;> simp [uint_decode_narrow (w:=128) (v:=64) (by decide)]

/-- The bounds of version 6 and what follows them, read as those of version 7. -/
theorem ResourceBoundsMapping.taken_iff {α : Type} (bounds : ResourceBoundsMapping)
    (tip : BitVec 64) (lists : Wire α) (rest : Bytes) :
    (feeTail Formats.resourceBoundsMapping lists).decode
        (Formats.V6.resourceBoundsMapping.encode bounds++((uint 64).encode tip++rest))=none ↔
      ¬bounds.Taken tip lists rest := by
  obtain ⟨⟨a₁,p₁⟩,⟨a₂,p₂⟩⟩ := bounds
  have hindex (bs : Bytes) :
      Formats.resourceBoundsMapping.decode ((uint 64).encode a₁++bs)=[branch resourceBounds .l1Gas,
        branch allResourceBoundsMapping .all][a₁.toNat]?.bind fun d => d bs :=
    choose_uint (by decide) a₁ bs
  have hbytes : Formats.V6.resourceBoundsMapping.encode ⟨⟨a₁,p₁⟩,⟨a₂,p₂⟩⟩++
      ((uint 64).encode tip++rest)=(uint 64).encode a₁++((uint 128).encode p₁++
        ((uint 64).encode a₂++((uint 128).encode p₂++((uint 64).encode tip++rest)))) := by
    simp [Formats.V6.resourceBoundsMapping,resourceBounds,pair_encode]
  simp only [hbytes,feeTail,pair,hindex,Taken,Parses]
  rcases h : a₁.toNat with _ | _ | n
  · obtain rfl : a₁=0 := BitVec.eq_of_toNat_eq h
    by_cases h₁ : p₁.toNat<2^64 <;> by_cases h₂ : p₂.toNat<2^64 <;>
      simp [branch,resourceBounds_decode_shifted,uint_decode_width,h₁,h₂,-Nat.reducePow]
  · obtain rfl : a₁=1 := BitVec.eq_of_toNat_eq h
    by_cases h₁ : p₁.toNat<2^64 <;> by_cases h₂ : p₂.toNat<2^64 <;>
      cases hd : resourceBounds.decode rest <;>
        simp [branch,allResourceBoundsMapping,pair,resourceBounds_decode_shifted,hd,h₁,h₂,
          -Nat.reducePow]
  · have h₀ : a₁≠0#64 := by rintro rfl; cases h
    have h₁ : a₁≠1#64 := by rintro rfl; cases h
    simp [h₀,h₁]

end V6

namespace VersionedTx

theorem tx_decode_invokeV3 (t : V6.InvokeTxV3) :
    tx.decode (V6.tx.encode (.invoke (.v3 t)))=none ↔ (V6.Tx.invoke (.v3 t)).OnlyV6 := by
  rw [V6.Tx.OnlyV6,←V6.ResourceBoundsMapping.taken_iff]
  simp [tx,Formats.V6.tx,Formats.V6.invokeTx,invokeTx,branch,invokeTxV3,Formats.V6.invokeTxV3,
    pair_encode,feeTail]

theorem tx_decode_deployAccountV3 (t : V6.DeployAccountTxV3) :
    tx.decode (V6.tx.encode (.deployAccount (.v3 t)))=none ↔
      (V6.Tx.deployAccount (.v3 t)).OnlyV6 := by
  rw [V6.Tx.OnlyV6,←V6.ResourceBoundsMapping.taken_iff]
  simp [tx,Formats.V6.tx,Formats.V6.deployAccountTx,deployAccountTx,branch,deployAccountTxV3,
    Formats.V6.deployAccountTxV3,pair_encode,feeTail]

/-- The tagged reader takes no transaction of version 6 without a tag for itself. -/
theorem versionedTx_fromBytes_ne (t : V6.Tx) :
    versionedTx.fromBytes (V6.tx.encode t)≠some (.v6 t) := by
  cases t with
  | invoke t =>
    cases t with
    | v0 t =>
      have henc : Formats.V6.invokeTx.encode (.v0 t)=index.encode 0++invokeTxV0.encode t := rfl
      have hinvoke : Formats.V6.invokeTx.decode (invokeTxV0.encode t)=none :=
        choose_felt rfl (by simp) t.contractAddress _
      simp [fromBytes,versionedTx,Formats.V6.tx,henc,hinvoke,branch]
    | v1 t => simp [fromBytes,versionedTx,Formats.V6.tx,Formats.V6.invokeTx,branch]
    | v3 t => simp [fromBytes,versionedTx_decode_invokeV3]
  | declare t => simp [fromBytes,versionedTx,Formats.V6.tx,branch]
  | l1Handler t | deployAccount t | deploy t => simp [fromBytes,versionedTx,Formats.V6.tx]

theorem decompress_untagged (t : V6.Tx) :
    decompress (V6.tx.encode t)=.ok (.v6 t) ↔ t.OnlyV6 := by
  cases t with
  | invoke t =>
    cases t with
    | v0 t =>
      have h := tx.decode_self (.invoke (.v0 t))
      exact iff_of_false (decompress_ne_v6 (versionedTx_fromBytes_ne _) h) id
    | v1 t =>
      have h := tx.decode_self (.invoke (.v1 t))
      exact iff_of_false (decompress_ne_v6 (versionedTx_fromBytes_ne _) h) id
    | v3 t =>
      rw [←tx_decode_invokeV3]
      cases h : tx.decode (V6.tx.encode (.invoke (.v3 t))) with
      | none => exact iff_of_true (decompress_v6 (versionedTx_decode_invokeV3 t) h) rfl
      | some r => exact iff_of_false (decompress_ne_v6 (versionedTx_fromBytes_ne _) h) (by simp)
  | declare t =>
    cases t with
    | v0 t => exact iff_of_true (decompress_declareV0 t) trivial
    | v1 t => exact iff_of_true (decompress_declareV1 t) trivial
    | v2 t =>
      exact iff_of_false (decompress_ne_v6 (versionedTx_fromBytes_ne _) (tx_decode_declareV2 t)) id
    | v3 t =>
      obtain ⟨rest,h⟩ := tx_decode_declareV3 t
      exact iff_of_false (decompress_ne_v6 (versionedTx_fromBytes_ne _) h) id
  | l1Handler t =>
    have h := tx.decode_self (.l1Handler t)
    exact iff_of_false (decompress_ne_v6 (versionedTx_fromBytes_ne _) h) id
  | deployAccount t =>
    cases t with
    | v1 t =>
      have h := tx.decode_self (.deployAccount (.v1 t))
      exact iff_of_false (decompress_ne_v6 (versionedTx_fromBytes_ne _) h) id
    | v3 t =>
      have htagged : versionedTx.decode (V6.tx.encode (.deployAccount (.v3 t)))=none := by
        simp [versionedTx,Formats.V6.tx]
      rw [←tx_decode_deployAccountV3]
      cases h : tx.decode (V6.tx.encode (.deployAccount (.v3 t))) with
      | none => exact iff_of_true (decompress_v6 htagged h) rfl
      | some r => exact iff_of_false (decompress_ne_v6 (versionedTx_fromBytes_ne _) h) (by simp)
  | deploy t =>
    have h := tx.decode_self (.deploy t)
    exact iff_of_false (decompress_ne_v6 (versionedTx_fromBytes_ne _) h) id

end VersionedTx

/-- What is written is read back, and so are the headers that version 6 wrote; of its transactions
exactly those are that cannot be taken for another. -/
theorem versioned_values_read_back (t : VersionedTx storedPayloads) (h : StoredVersionedHeader)
    (t₆ : V6.Tx) (h₆ : StoredHeaderV6) :
    VersionedTx.decompress t.compress=.ok t ∧
    VersionedHeader.decompress (VersionedHeader.compress h)=.ok h ∧
    VersionedHeader.decompress (headerV6.encode h₆)=.ok ⟨.v6 h₆.val,h₆.property⟩ ∧
    (VersionedTx.decompress (V6.tx.encode t₆)=.ok (.v6 t₆) ↔ t₆.OnlyV6) :=
  ⟨VersionedTx.decompress_compress t,VersionedHeader.decompress_compress h,
    VersionedHeader.decompress_untagged h₆,VersionedTx.decompress_untagged t₆⟩

theorem declareV2_read_as_declareV1 :
    VersionedTx.decompress (V6.tx.encode (.declare (.v2 ⟨.id 1,2,3,[],4,5,6⟩)))=
      .ok (.v7 (.declare (.v1 ⟨.id 1,2,3,[],4,32⟩))) :=
  VersionedTx.decompress_declareV2 rfl

end Katana
