import Katana.Base.Commitment
import Katana.Primitives.Transaction

/-! What a transaction hash commits to. The arrays that are hashed are brought to two forms, one
of version 3 and one of the versions before it, and both keep every field apart from the
signature. -/
namespace Katana.Primitives
open Commitment ByteOrder

theorem ofNat_inj {a b : Nat} (ha : a<feltPrime) (hb : b<feltPrime)
    (h : Fin.ofNat feltPrime a=Fin.ofNat feltPrime b) : a=b := by
  have hv := congrArg Fin.val h
  rwa [Fin.val_ofNat,Fin.val_ofNat,Nat.mod_eq_of_lt ha,Nat.mod_eq_of_lt hb] at hv

theorem ofU64_inj {x y : BitVec 64} (h : ofU64 x=ofU64 y) : x=y :=
  BitVec.eq_of_toNat_eq (ofNat_inj (lt_trans x.isLt (by decide)) (lt_trans y.isLt (by decide)) h)

theorem ofU128_inj {x y : BitVec 128} (h : ofU128 x=ofU128 y) : x=y :=
  BitVec.eq_of_toNat_eq (ofNat_inj (lt_trans x.isLt (by decide)) (lt_trans y.isLt (by decide)) h)

theorem encodeDaMode_inj : ∀ {nonce fee nonce' fee' : DataAvailabilityMode},
    encodeDaMode nonce fee=encodeDaMode nonce' fee' → nonce=nonce' ∧ fee=fee' := by
  intro nonce fee nonce' fee' h
  cases nonce <;> cases fee <;> cases nonce' <;> cases fee' <;> revert h <;> decide

theorem fromBytesBeSlice_inj {s t : Bytes} (hs : s.length=31) (ht : t.length=31)
    (h : Felt.fromBytesBeSlice (0::s)=Felt.fromBytesBeSlice (0::t)) : s=t := by
  rw [Felt.fromBytesBeSlice,Felt.fromBytesBeSlice] at h
  have hlt : ∀ u : Bytes, u.length=31 → beVal (0::u)<feltPrime := by
    intro u hu
    have hv : beVal (0::u)=beVal u := rfl
    rw [hv]
    refine lt_trans (beVal_lt u) ?_
    rw [hu]
    decide
  exact beVal_inj (hs.trans ht.symm) (ofNat_inj (hlt s hs) (hlt t ht) h)

theorem encodeGasBound_inj {name : Bytes} (hn : name.length ≤ 7) {x y : ResourceBounds}
    (h : encodeGasBound name x=encodeGasBound name y) : x=y := by
  have hpad : List.replicate (8-name.length) (0 : Byte)=
      0::List.replicate (7-name.length) 0 := by
    rw [← List.replicate_succ]
    congr 1
    omega
  rw [encodeGasBound,encodeGasBound,hpad] at h
  simp only [List.cons_append] at h
  have hlen : ∀ b : ResourceBounds, (List.replicate (7-name.length) 0++name++
      beBytes 8 b.maxAmount.toNat++
      beBytes 16 b.maxPricePerUnit.toNat).length=31 := by
    intro b
    simp only [List.length_append,List.length_replicate,beBytes_length]
    omega
  have hbytes := fromBytesBeSlice_inj (hlen x) (hlen y) h
  obtain ⟨hamount,hprice⟩ := List.append_inj' hbytes (by simp)
  have hamount := List.append_cancel_left hamount
  exact ResourceBounds.ext
    (BitVec.eq_of_toNat_eq (beBytes_inj x.maxAmount.isLt y.maxAmount.isLt hamount))
    (BitVec.eq_of_toNat_eq
      (beBytes_inj x.maxPricePerUnit.isLt y.maxPricePerUnit.isLt hprice))

inductive Algorithm where
  | pedersen
  | poseidon
  deriving DecidableEq, Repr

def Hashers.run (H : Hashers) : Algorithm → List Felt → Felt
  | .pedersen => H.computeHashOnElements
  | .poseidon => H.poseidonHashMany

abbrev TxPreimage := Preimage Algorithm Felt

/-- What is hashed before version 3: a list is hashed between the address and the fee. -/
def legacyPreimage (kind version address selector : Felt) (hashed : List Felt)
    (fee chainId : Felt) (rest : List Felt) : TxPreimage where
  algorithm := .pedersen
  pieces := .value kind::.value version::.value address::.value selector::.list hashed::
    .value fee::.value chainId::rest.map Piece.value

def FieldsV3.feeFields (tx : FieldsV3) : List Felt :=
  match tx.resourceBounds with
  | .all bounds => [ofU64 tx.tip,encodeGasBound l1GasName bounds.l1Gas,
      encodeGasBound l2GasName bounds.l2Gas,encodeGasBound l1DataGasName bounds.l1DataGas]
  | .l1Gas bounds => [ofU64 tx.tip,encodeGasBound l1GasName bounds,encodeGasBound l2GasName .zero]

/-- What is hashed in version 3, up to what the kinds of transactions add. -/
def FieldsV3.preimage (tx : FieldsV3) (kind version address : Felt) (rest : List (Piece Felt)) :
    TxPreimage where
  algorithm := .poseidon
  pieces := .value kind::.value version::.value address::.list tx.feeFields::
    .list tx.paymasterData::.value tx.chainId.toFelt::.value tx.nonce::
    .value (encodeDaMode tx.nonceDataAvailabilityMode tx.feeDataAvailabilityMode)::rest

def InvokeTx.preimage (isQuery : Bool) : InvokeTx → Option TxPreimage
  | .v0 _ => none
  | .v1 tx => some (legacyPreimage prefixInvoke (hashedVersion 1 isQuery) tx.senderAddress 0
      tx.calldata (ofU128 tx.maxFee) tx.chainId.toFelt [tx.nonce])
  | .v3 tx => some (tx.toFieldsV3.preimage prefixInvoke (hashedVersion 3 isQuery) tx.senderAddress
      [.list tx.accountDeploymentData,.list tx.calldata])

def DeclareTx.preimage (isQuery : Bool) : DeclareTx → TxPreimage
  | .v0 tx => legacyPreimage prefixDeclare (hashedVersion 0 isQuery) tx.senderAddress 0 []
      (ofU128 tx.maxFee) tx.chainId.toFelt [tx.classHash]
  | .v1 tx => legacyPreimage prefixDeclare (hashedVersion 1 isQuery) tx.senderAddress 0
      [tx.classHash] (ofU128 tx.maxFee) tx.chainId.toFelt [tx.nonce]
  | .v2 tx => legacyPreimage prefixDeclare (hashedVersion 2 isQuery) tx.senderAddress 0
      [tx.classHash] (ofU128 tx.maxFee) tx.chainId.toFelt [tx.nonce,tx.compiledClassHash]
  | .v3 tx => tx.toFieldsV3.preimage prefixDeclare (hashedVersion 3 isQuery) tx.senderAddress
      [.list tx.accountDeploymentData,.value tx.classHash,.value tx.compiledClassHash]

def DeployAccountTx.preimage (isQuery : Bool) : DeployAccountTx → TxPreimage
  | .v1 tx => legacyPreimage prefixDeployAccount (hashedVersion 1 isQuery) tx.contractAddress 0
      (tx.classHash::tx.contractAddressSalt::tx.constructorCalldata) (ofU128 tx.maxFee)
      tx.chainId.toFelt [tx.nonce]
  | .v3 tx => tx.toFieldsV3.preimage prefixDeployAccount (hashedVersion 3 isQuery)
      tx.contractAddress
      [.list tx.constructorCalldata,.value tx.classHash,.value tx.contractAddressSalt]

def L1HandlerTx.preimage (tx : L1HandlerTx) : TxPreimage :=
  legacyPreimage prefixL1Handler tx.version tx.contractAddress tx.entryPointSelector tx.calldata 0
    tx.chainId.toFelt [tx.nonce]

def ExecutableTx.preimage (isQuery : Bool) : ExecutableTx → Option TxPreimage
  | .l1Handler tx => some tx.preimage
  | .invoke tx => tx.preimage isQuery
  | .declare tx => some (tx.preimage isQuery)
  | .deployAccount tx => some (tx.preimage isQuery)

section Digest
variable (H : Hashers) (isQuery : Bool)

theorem InvokeTx.calculateHash_eq (tx : InvokeTx) :
    tx.calculateHash H isQuery=(tx.preimage isQuery).map (Preimage.digest H.run) := by
  cases tx with
  | v0 tx | v1 tx => rfl
  | v3 tx => cases hb : tx.resourceBounds with
    | l1Gas bounds | all bounds =>
      simp only [calculateHash,hb,preimage,Option.map_some,FieldsV3.preimage,FieldsV3.feeFields]
      rfl

theorem DeclareTx.calculateHash_eq (tx : DeclareTx) :
    tx.calculateHash H isQuery=(tx.preimage isQuery).digest H.run := by
  cases tx with
  | v0 tx | v1 tx | v2 tx => rfl
  | v3 tx => cases hb : tx.resourceBounds with
    | l1Gas bounds | all bounds =>
      simp only [calculateHash,hb,preimage,FieldsV3.preimage,FieldsV3.feeFields]
      rfl

theorem DeployAccountTx.calculateHash_eq (tx : DeployAccountTx) :
    tx.calculateHash H isQuery=(tx.preimage isQuery).digest H.run := by
  cases tx with
  | v1 tx => rfl
  | v3 tx => cases hb : tx.resourceBounds with
    | l1Gas bounds | all bounds =>
      simp only [calculateHash,hb,preimage,FieldsV3.preimage,FieldsV3.feeFields]
      rfl

theorem ExecutableTx.calculateHash_eq (tx : ExecutableTx) :
    tx.calculateHash H isQuery=(tx.preimage isQuery).map (Preimage.digest H.run) := by
  cases tx with
  | l1Handler tx => rfl
  | invoke tx => exact tx.calculateHash_eq H isQuery
  | declare tx | deployAccount tx => exact congrArg some (tx.calculateHash_eq H isQuery)

end Digest

inductive Version where
  | v0
  | v1
  | v2
  | v3
  deriving DecidableEq, Repr

def Version.felt : Version → Felt
  | .v0 => 0
  | .v1 => 1
  | .v2 => 2
  | .v3 => 3

theorem hashedVersion_inj {v v' : Version} {q q' : Bool}
    (h : hashedVersion v.felt q=hashedVersion v'.felt q') : v=v' ∧ q=q' := by
  revert h
  cases v <;> cases v' <;> cases q <;> cases q' <;> decide +kernel

def InvokeTx.version : InvokeTx → Version
  | .v0 _ => .v0
  | .v1 _ => .v1
  | .v3 _ => .v3

def DeclareTx.version : DeclareTx → Version
  | .v0 _ => .v0
  | .v1 _ => .v1
  | .v2 _ => .v2
  | .v3 _ => .v3

def DeployAccountTx.version : DeployAccountTx → Version
  | .v1 _ => .v1
  | .v3 _ => .v3

/-- The array starts with the prefix of the kind and the version. -/
def HasHead (p : TxPreimage) (kind version : Felt) : Prop :=
  ∃ rest, p.pieces=.value kind::.value version::rest

theorem InvokeTx.hasHead {tx : InvokeTx} {q : Bool} {p : TxPreimage}
    (h : tx.preimage q=some p) : HasHead p prefixInvoke (hashedVersion tx.version.felt q) := by
  cases tx with
  | v0 tx => cases h
  | v1 tx | v3 tx =>
    cases h
    exact ⟨_,rfl⟩

theorem DeclareTx.hasHead (tx : DeclareTx) (q : Bool) :
    HasHead (tx.preimage q) prefixDeclare (hashedVersion tx.version.felt q) := by
  cases tx <;> exact ⟨_,rfl⟩

theorem DeployAccountTx.hasHead (tx : DeployAccountTx) (q : Bool) :
    HasHead (tx.preimage q) prefixDeployAccount (hashedVersion tx.version.felt q) := by
  cases tx <;> exact ⟨_,rfl⟩

theorem L1HandlerTx.hasHead (tx : L1HandlerTx) :
    HasHead tx.preimage prefixL1Handler tx.version := ⟨_,rfl⟩

inductive Kind where
  | invoke
  | l1Handler
  | declare
  | deployAccount
  deriving DecidableEq, Repr

def Kind.felt : Kind → Felt
  | .invoke => prefixInvoke
  | .l1Handler => prefixL1Handler
  | .declare => prefixDeclare
  | .deployAccount => prefixDeployAccount

theorem Kind.felt_inj {kind kind' : Kind} (h : kind.felt=kind'.felt) : kind=kind' := by
  revert h
  cases kind <;> cases kind' <;> decide +kernel

def ExecutableTx.kind : ExecutableTx → Kind
  | .invoke _ => .invoke
  | .l1Handler _ => .l1Handler
  | .declare _ => .declare
  | .deployAccount _ => .deployAccount

theorem ExecutableTx.hasHead {tx : ExecutableTx} {q : Bool} {p : TxPreimage}
    (h : tx.preimage q=some p) : ∃ version, HasHead p tx.kind.felt version := by
  cases tx with
  | invoke tx => exact ⟨_,InvokeTx.hasHead h⟩
  | l1Handler tx =>
    cases h
    exact ⟨_,tx.hasHead⟩
  | declare tx | deployAccount tx =>
    cases h
    exact ⟨_,tx.hasHead q⟩

section Commit
variable {H : Hashers} {p p' : TxPreimage} {q q' : Bool} {kind version kind' version' : Felt}

theorem head_eq (h : HasHead p kind version) (h' : HasHead p' kind' version')
    (hc : Preimage.CollisionFree H.run p p') (hd : p.digest H.run=p'.digest H.run) :
    kind=kind' ∧ version=version' := by
  obtain ⟨rest,h⟩ := h
  obtain ⟨rest',h'⟩ := h'
  obtain ⟨-,hv⟩ := Preimage.values_eq hc hd
  rw [Preimage.values,Preimage.values,h,h'] at hv
  obtain ⟨hk,hv⟩ := List.cons.inj hv
  exact ⟨hk,(List.cons.inj hv).1⟩

theorem legacyPreimage_eq {address selector fee chainId : Felt} {hashed : List Felt}
    {rest : List Felt} {address' selector' fee' chainId' : Felt} {hashed' : List Felt}
    {rest' : List Felt} (hc : Preimage.CollisionFree H.run
      (legacyPreimage kind version address selector hashed fee chainId rest)
      (legacyPreimage kind' version' address' selector' hashed' fee' chainId' rest'))
    (hd : (legacyPreimage kind version address selector hashed fee chainId rest).digest H.run=
      (legacyPreimage kind' version' address' selector' hashed' fee' chainId' rest').digest H.run)
    (hl : rest.length=rest'.length) :
    address=address' ∧ selector=selector' ∧ hashed=hashed' ∧ fee=fee' ∧ chainId=chainId' ∧
      rest=rest' := by
  have hs : ∀ xs : List Felt,
      (xs.map Piece.value).map Piece.isList=List.replicate xs.length false := by
    intro xs
    rw [List.map_map,List.eq_replicate_iff]
    simp [Piece.isList]
  have h := Preimage.pieces_eq hc (by simp [Preimage.shape,legacyPreimage,hs,hl,Piece.isList]) hd
  simp only [legacyPreimage,List.cons.injEq,Piece.value.injEq,Piece.list.injEq] at h
  obtain ⟨-,-,ha,hs,hl,hf,hc,hr⟩ := h
  exact ⟨ha,hs,hl,hf,hc,List.map_injective_iff.mpr (fun _ _ => Piece.value.inj) hr⟩

theorem FieldsV3.feeFields_inj {tx tx' : FieldsV3} (h : tx.feeFields=tx'.feeFields) :
    tx.resourceBounds=tx'.resourceBounds ∧ tx.tip=tx'.tip := by
  rw [feeFields,feeFields] at h
  cases hb : tx.resourceBounds with
  | l1Gas bounds =>
    cases hb' : tx'.resourceBounds with
    | l1Gas bounds' =>
      simp only [hb,hb',List.cons.injEq,and_true] at h
      rw [encodeGasBound_inj (by decide) h.2]
      exact ⟨rfl,ofU64_inj h.1⟩
    | all bounds' => simp [hb,hb'] at h
  | all bounds =>
    cases hb' : tx'.resourceBounds with
    | l1Gas bounds' => simp [hb,hb'] at h
    | all bounds' =>
      simp only [hb,hb',List.cons.injEq,and_true] at h
      obtain ⟨htip,hl1,hl2,hdata⟩ := h
      have hbounds : bounds=bounds' := AllResourceBoundsMapping.ext
        (encodeGasBound_inj (by decide) hl1) (encodeGasBound_inj (by decide) hl2)
        (encodeGasBound_inj (by decide) hdata)
      rw [hbounds]
      exact ⟨rfl,ofU64_inj htip⟩

/-- The fields without the signature, and the chain id as the felt that is hashed. -/
def FieldsV3.committed (tx : FieldsV3) : FieldsV3 :=
  { tx with signature := [], chainId := .id tx.chainId.toFelt }

theorem FieldsV3.preimage_eq {tx tx' : FieldsV3} {address : Felt} {rest : List (Piece Felt)}
    {address' : Felt} {rest' : List (Piece Felt)}
    (hc : Preimage.CollisionFree H.run (tx.preimage kind version address rest)
      (tx'.preimage kind' version' address' rest'))
    (hd : (tx.preimage kind version address rest).digest H.run=
      (tx'.preimage kind' version' address' rest').digest H.run)
    (hl : rest.map Piece.isList=rest'.map Piece.isList) :
    tx.committed=tx'.committed ∧ address=address' ∧ rest=rest' := by
  have h := Preimage.pieces_eq hc (by simp [Preimage.shape,preimage,hl,Piece.isList]) hd
  simp only [preimage,List.cons.injEq,Piece.value.injEq,Piece.list.injEq] at h
  obtain ⟨-,-,ha,hfee,hp,hc,hn,hda,hr⟩ := h
  obtain ⟨hb,ht⟩ := feeFields_inj hfee
  obtain ⟨hnda,hfda⟩ := encodeDaMode_inj hda
  refine ⟨?_,ha,hr⟩
  rw [committed,committed,hb,ht,hp,hc,hn,hnda,hfda]

def InvokeTx.committed : InvokeTx → InvokeTx
  | .v0 tx => .v0 { tx with signature := [] }
  | .v1 tx => .v1 { tx with signature := [], chainId := .id tx.chainId.toFelt }
  | .v3 tx => .v3 { tx with toFieldsV3 := tx.toFieldsV3.committed }

def DeclareTx.committed : DeclareTx → DeclareTx
  | .v0 tx => .v0 { tx with signature := [], chainId := .id tx.chainId.toFelt }
  | .v1 tx => .v1 { tx with signature := [], chainId := .id tx.chainId.toFelt }
  | .v2 tx => .v2 { tx with signature := [], chainId := .id tx.chainId.toFelt }
  | .v3 tx => .v3 { tx with toFieldsV3 := tx.toFieldsV3.committed }

def DeployAccountTx.committed : DeployAccountTx → DeployAccountTx
  | .v1 tx => .v1 { tx with signature := [], chainId := .id tx.chainId.toFelt }
  | .v3 tx => .v3 { tx with toFieldsV3 := tx.toFieldsV3.committed }

def L1HandlerTx.committed (tx : L1HandlerTx) : L1HandlerTx :=
  { tx with chainId := .id tx.chainId.toFelt, paidFeeOnL1 := 0, messageHash := [] }

/-- A transaction without what its hash leaves out: the signature, for an L1 handler the fee paid
on L1 and the message hash, and whether the chain id was given by its name. -/
def ExecutableTx.committed : ExecutableTx → ExecutableTx
  | .invoke tx => .invoke tx.committed
  | .l1Handler tx => .l1Handler tx.committed
  | .declare tx => .declare tx.committed
  | .deployAccount tx => .deployAccount tx.committed

theorem InvokeTx.committed_eq {tx tx' : InvokeTx} (hp : tx.preimage q=some p)
    (hp' : tx'.preimage q'=some p') (hc : Preimage.CollisionFree H.run p p')
    (hd : p.digest H.run=p'.digest H.run) : tx.committed=tx'.committed ∧ q=q' := by
  obtain ⟨-,hv⟩ := head_eq (hasHead hp) (hasHead hp') hc hd
  obtain ⟨hversion,rfl⟩ := hashedVersion_inj hv
  refine ⟨?_,rfl⟩
  cases tx with
  | v0 tx => cases hp
  | v1 tx =>
    cases tx' with
    | v0 tx' => cases hp'
    | v3 tx' => cases hversion
    | v1 tx' =>
      cases hp
      cases hp'
      obtain ⟨ha,-,hl,hf,hc,hr⟩ := legacyPreimage_eq hc hd rfl
      rw [committed,committed,ha,hl,ofU128_inj hf,hc,(List.cons.inj hr).1]
  | v3 tx =>
    cases tx' with
    | v0 tx' => cases hp'
    | v1 tx' => cases hversion
    | v3 tx' =>
      cases hp
      cases hp'
      obtain ⟨ht,ha,hr⟩ := FieldsV3.preimage_eq hc hd rfl
      simp only [List.cons.injEq,Piece.list.injEq,and_true] at hr
      rw [committed,committed,ht,ha,hr.1,hr.2]

theorem DeclareTx.committed_eq {tx tx' : DeclareTx}
    (hc : Preimage.CollisionFree H.run (tx.preimage q) (tx'.preimage q'))
    (hd : (tx.preimage q).digest H.run=(tx'.preimage q').digest H.run) :
    tx.committed=tx'.committed ∧ q=q' := by
  obtain ⟨-,hv⟩ := head_eq (tx.hasHead q) (tx'.hasHead q') hc hd
  obtain ⟨hversion,rfl⟩ := hashedVersion_inj hv
  refine ⟨?_,rfl⟩
  cases tx with
  | v0 tx =>
    cases tx' with
    | v1 tx' | v2 tx' | v3 tx' => cases hversion
    | v0 tx' =>
      obtain ⟨ha,-,-,hf,hc,hr⟩ := legacyPreimage_eq hc hd rfl
      rw [committed,committed,ha,ofU128_inj hf,hc,(List.cons.inj hr).1]
  | v1 tx =>
    cases tx' with
    | v0 tx' | v2 tx' | v3 tx' => cases hversion
    | v1 tx' =>
      obtain ⟨ha,-,hl,hf,hc,hr⟩ := legacyPreimage_eq hc hd rfl
      rw [committed,committed,ha,(List.cons.inj hl).1,ofU128_inj hf,hc,(List.cons.inj hr).1]
  | v2 tx =>
    cases tx' with
    | v0 tx' | v1 tx' | v3 tx' => cases hversion
    | v2 tx' =>
      obtain ⟨ha,-,hl,hf,hc,hr⟩ := legacyPreimage_eq hc hd rfl
      simp only [List.cons.injEq,and_true] at hl hr
      rw [committed,committed,ha,hl,ofU128_inj hf,hc,hr.1,hr.2]
  | v3 tx =>
    cases tx' with
    | v0 tx' | v1 tx' | v2 tx' => cases hversion
    | v3 tx' =>
      obtain ⟨ht,ha,hr⟩ := FieldsV3.preimage_eq hc hd rfl
      simp only [List.cons.injEq,Piece.list.injEq,Piece.value.injEq,and_true] at hr
      rw [committed,committed,ht,ha,hr.1,hr.2.1,hr.2.2]

theorem DeployAccountTx.committed_eq {tx tx' : DeployAccountTx}
    (hc : Preimage.CollisionFree H.run (tx.preimage q) (tx'.preimage q'))
    (hd : (tx.preimage q).digest H.run=(tx'.preimage q').digest H.run) :
    tx.committed=tx'.committed ∧ q=q' := by
  obtain ⟨-,hv⟩ := head_eq (tx.hasHead q) (tx'.hasHead q') hc hd
  obtain ⟨hversion,rfl⟩ := hashedVersion_inj hv
  refine ⟨?_,rfl⟩
  cases tx with
  | v1 tx =>
    cases tx' with
    | v3 tx' => cases hversion
    | v1 tx' =>
      obtain ⟨ha,-,hl,hf,hc,hr⟩ := legacyPreimage_eq hc hd rfl
      simp only [List.cons.injEq,and_true] at hl hr
      rw [committed,committed,ha,hl.1,hl.2.1,hl.2.2,ofU128_inj hf,hc,hr]
  | v3 tx =>
    cases tx' with
    | v1 tx' => cases hversion
    | v3 tx' =>
      obtain ⟨ht,ha,hr⟩ := FieldsV3.preimage_eq hc hd rfl
      simp only [List.cons.injEq,Piece.list.injEq,Piece.value.injEq,and_true] at hr
      rw [committed,committed,ht,ha,hr.1,hr.2.1,hr.2.2]

theorem L1HandlerTx.committed_eq {tx tx' : L1HandlerTx}
    (hc : Preimage.CollisionFree H.run tx.preimage tx'.preimage)
    (hd : tx.preimage.digest H.run=tx'.preimage.digest H.run) : tx.committed=tx'.committed := by
  obtain ⟨-,hv⟩ := head_eq tx.hasHead tx'.hasHead hc hd
  obtain ⟨ha,hs,hl,-,hc,hr⟩ := legacyPreimage_eq hc hd rfl
  rw [committed,committed,hv,ha,hs,hl,hc,(List.cons.inj hr).1]

/-- Nothing that is hashed for the one transaction collides with something that is hashed for
the other one. -/
def ExecutableTx.CollisionFree (H : Hashers) (tx : ExecutableTx) (q : Bool) (tx' : ExecutableTx)
    (q' : Bool) : Prop :=
  ∀ p∈tx.preimage q, ∀ p'∈tx'.preimage q', Preimage.CollisionFree H.run p p'

/-- Equal hashes mean the same kind, version, query form and fields. An L1 handler transaction
has no query form. -/
theorem ExecutableTx.committed_of_hash_eq (H : Hashers) {tx tx' : ExecutableTx} {q q' : Bool}
    {hash : Felt} (hc : tx.CollisionFree H q tx' q') (h : tx.calculateHash H q=some hash)
    (h' : tx'.calculateHash H q'=some hash) :
    tx.committed=tx'.committed ∧ (q=q' ∨ ∃ handler, tx=.l1Handler handler) := by
  rw [calculateHash_eq,Option.map_eq_some_iff] at h h'
  obtain ⟨p,hp,hd⟩ := h
  obtain ⟨p',hp',hd'⟩ := h'
  have hfree := hc p hp p' hp'
  have hd := hd.trans hd'.symm
  obtain ⟨version,hhead⟩ := hasHead hp
  obtain ⟨version',hhead'⟩ := hasHead hp'
  have hkind := Kind.felt_inj (head_eq hhead hhead' hfree hd).1
  cases tx with
  | invoke tx =>
    cases tx' with
    | l1Handler tx' | declare tx' | deployAccount tx' => cases hkind
    | invoke tx' =>
      obtain ⟨ht,hq⟩ := InvokeTx.committed_eq hp hp' hfree hd
      exact ⟨congrArg invoke ht,.inl hq⟩
  | l1Handler tx =>
    cases tx' with
    | invoke tx' | declare tx' | deployAccount tx' => cases hkind
    | l1Handler tx' =>
      cases hp
      cases hp'
      exact ⟨congrArg l1Handler (L1HandlerTx.committed_eq hfree hd),.inr ⟨tx,rfl⟩⟩
  | declare tx =>
    cases tx' with
    | invoke tx' | l1Handler tx' | deployAccount tx' => cases hkind
    | declare tx' =>
      cases hp
      cases hp'
      obtain ⟨ht,hq⟩ := DeclareTx.committed_eq hfree hd
      exact ⟨congrArg declare ht,.inl hq⟩
  | deployAccount tx =>
    cases tx' with
    | invoke tx' | l1Handler tx' | declare tx' => cases hkind
    | deployAccount tx' =>
      cases hp
      cases hp'
      obtain ⟨ht,hq⟩ := DeployAccountTx.committed_eq hfree hd
      exact ⟨congrArg deployAccount ht,.inl hq⟩

end Commit

/-- Both hashes are the length of the list here. -/
def lengthHashers : Hashers where
  computeHashOnElements xs := Fin.ofNat feltPrime xs.length
  poseidonHashMany xs := Fin.ofNat feltPrime xs.length

def sampleInvoke (signature : List Felt) (chainId : ChainId) : ExecutableTx :=
  .invoke (.v3
    { chainId := chainId
      nonce := 5
      signature := signature
      resourceBounds := .all ⟨⟨1,2⟩,⟨3,4⟩,⟨5,6⟩⟩
      tip := 7
      paymasterData := []
      nonceDataAvailabilityMode := .l1
      feeDataAvailabilityMode := .l2
      senderAddress := 11
      calldata := [1,2]
      accountDeploymentData := [3] })

/-- Two signatures of one transaction. -/
theorem committed_of_resigned :
    (sampleInvoke [1] (.id 9)).CollisionFree lengthHashers true (sampleInvoke [2] (.id 9)) true ∧
    (sampleInvoke [1] (.id 9)).calculateHash lengthHashers true=some 10 ∧
    (sampleInvoke [2] (.id 9)).calculateHash lengthHashers true=some 10 ∧
    (sampleInvoke [1] (.id 9)).committed=(sampleInvoke [2] (.id 9)).committed := by
  have hfree : (sampleInvoke [1] (.id 9)).CollisionFree lengthHashers true
      (sampleInvoke [2] (.id 9)) true := by
    intro p hp p' hp'
    cases hp
    cases hp'
    decide +kernel
  have h : (sampleInvoke [1] (.id 9)).calculateHash lengthHashers true=some 10 := by
    decide +kernel
  have h' : (sampleInvoke [2] (.id 9)).calculateHash lengthHashers true=some 10 := by
    decide +kernel
  exact ⟨hfree,h,h',(ExecutableTx.committed_of_hash_eq lengthHashers hfree h h').1⟩

def sampleHandler : ExecutableTx :=
  .l1Handler
    { nonce := 5
      chainId := .named .mainnet
      paidFeeOnL1 := 1
      version := 0
      messageHash := []
      calldata := [1,2]
      contractAddress := 11
      entryPointSelector := 12 }

/-- The query form of an L1 handler transaction, and a chain id by its name and by its felt. -/
theorem hash_without_query_and_name :
    sampleHandler.CollisionFree lengthHashers false sampleHandler true ∧
    sampleHandler.calculateHash lengthHashers false=
      sampleHandler.calculateHash lengthHashers true ∧
    (sampleInvoke [] (.named .mainnet)).CollisionFree lengthHashers false
      (sampleInvoke [] (.id NamedChainId.mainnet.id)) false ∧
    (sampleInvoke [] (.named .mainnet)).calculateHash lengthHashers false=
      (sampleInvoke [] (.id NamedChainId.mainnet.id)).calculateHash lengthHashers false ∧
    sampleInvoke [] (.named .mainnet)≠sampleInvoke [] (.id NamedChainId.mainnet.id) := by
  refine ⟨?_,rfl,?_,rfl,by decide⟩
  · intro p hp p' hp'
    cases hp
    cases hp'
    decide +kernel
  · intro p hp p' hp'
    cases hp
    cases hp'
    decide +kernel

end Katana.Primitives
