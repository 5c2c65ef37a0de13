import Katana.Core.GasOracle
import Katana.Db.VersionedHeader
import Katana.Sync.Stages

/-! Gas prices made with GasPrice::new_unchecked: those of the oracle and those of the blocks from
the feeder gateway. -/
namespace Katana
open Overflow GasOracleWorker

def SampledPrices.InRange (p : SampledPrices) : Prop := p.gasPrices.InRange ∧ p.dataGasPrices.InRange

namespace GasOracleWorker
variable {build : Build} {w : GasOracleWorker} {h : FeeHistory}

section
variable (build : Build) (w : GasOracleWorker)

def gasPrice : Option (BitVec 128) := do
  add build (← w.gasPriceBuffer.average build) oneGwei

def ZeroAverage : Prop :=
  w.gasPrice build=some 0 ∨ w.gasPrice build≠none ∧ w.dataGasPriceBuffer.average build=some 0

def feeSum (fees : List (BitVec 128)) : Nat := (fees.map BitVec.toNat).sum

/-- A price is zero: the blob fees sum up to less than their number. Overflow checks stop before
it if the price of gas does not fit; without them the sums are reduced, and 1 gwei more can be
2^128. -/
def ZeroPrice : Prop :=
  let gas := w.gasPriceBuffer.buffer
  let dataGas := w.dataGasPriceBuffer.buffer
  match build with
  | .checked => feeSum gas<2^128 ∧ feeSum gas/gas.length+oneGwei.toNat<2^128 ∧
      feeSum dataGas<dataGas.length
  | .wrapping => feeSum gas%2^128/gas.length+oneGwei.toNat=2^128 ∨
      feeSum dataGas%2^128<dataGas.length

/-- A price is zero after the samples of an update. -/
def ZeroAfter (h : FeeHistory) : Prop :=
  ∃ gas dataGas, h.sample=some (gas,dataGas) ∧ (w.sampled gas dataGas).ZeroPrice build

/-- No zero is given to new_unchecked, and the prices of the oracle are in range afterwards. -/
def PricesNonzero (h : FeeHistory) : Prop :=
  (∀ v, updateGasPrice build h w≠.error (.panic "undefined") v) ∧ (w.update build h).prices.InRange

theorem newUnchecked_cases (p : BitVec 128) :
    p=0 ∧ GasPrice.newUnchecked p p=none ∨
      p≠0 ∧ ∃ price, GasPrice.newUnchecked p p=some price ∧ price.InRange := by
  by_cases hp : p=0
  · exact Or.inl ⟨hp,if_pos (Or.inl hp)⟩
  · have hpos : 0<p.toNat := Nat.pos_of_ne_zero (fun h => hp (BitVec.eq_of_toNat_eq h))
    exact Or.inr ⟨hp,_,if_neg (by rwa [or_self]),hpos,p.isLt,hpos,p.isLt⟩

theorem orPanic_none {α : Type} (message : String) {value : Option α} (hv : value=none)
    (v : GasOracleWorker) : orPanic message value v=.error (.panic message) v := by
  rw [hv]
  rfl

theorem averages_cases (w v : GasOracleWorker) :
    (∃ p, w.averages build v=.ok p v ∧ p.InRange ∧ ¬w.ZeroAverage build) ∨
    w.averages build v=.error (.panic "attempt to add with overflow") v ∧ ¬w.ZeroAverage build ∨
    w.averages build v=.error (.panic "undefined") v ∧ w.ZeroAverage build := by
  unfold averages ZeroAverage gasPrice
  cases havg : w.gasPriceBuffer.average build with
  | none => exact Or.inr (Or.inl ⟨bind_error (orPanic_none _ rfl v) _,by simp⟩)
  | some average =>
    rw [bind_ok (orPanic_some _ rfl),Option.bind_eq_bind,Option.bind_some]
    cases add build average oneGwei with
    | none => exact Or.inr (Or.inl ⟨bind_error (orPanic_none _ rfl v) _,by simp⟩)
    | some gas =>
      rw [bind_ok (orPanic_some _ rfl)]
      obtain ⟨rfl,hnone⟩ | ⟨hgas,price,hok,hrange⟩ := newUnchecked_cases gas
      · exact Or.inr (Or.inr ⟨bind_error (orPanic_none _ hnone v) _,Or.inl rfl⟩)
      · rw [bind_ok (orPanic_some _ hok)]
        cases w.dataGasPriceBuffer.average build with
        | none => exact Or.inr (Or.inl ⟨bind_error (orPanic_none _ rfl v) _,by simpa using hgas⟩)
        | some dataGas =>
          rw [bind_ok (orPanic_some _ rfl)]
          obtain ⟨rfl,hnone⟩ | ⟨hdata,price',hok',hrange'⟩ := newUnchecked_cases dataGas
          · exact Or.inr (Or.inr ⟨bind_error (orPanic_none _ hnone v) _,Or.inr ⟨by simp,rfl⟩⟩)
          · refine Or.inl ⟨⟨price,price'⟩,?_,⟨hrange,hrange'⟩,by simpa using ⟨hgas,hdata⟩⟩
            rw [bind_ok (orPanic_some _ hok')]
            rfl

/-- The mean of fees that fit, or whose sum is reduced. -/
theorem average_of_result {b : GasPriceBuffer} (hne : b.buffer≠[])
    (hfits : feeSum b.buffer<2^128 ∨ build=.wrapping) :
    ∃ a : BitVec 128, b.average build=some a ∧
      a.toNat=feeSum b.buffer%2^128/b.buffer.length := by
  have hresult : result build 128 (feeSum b.buffer)=some (BitVec.ofNat 128 (feeSum b.buffer)) :=
    if_pos hfits
  refine ⟨_,by rw [GasPriceBuffer.average_eq build hne]; exact congrArg _ hresult,?_⟩
  have hlt := lt_of_le_of_lt (Nat.div_le_self _ b.buffer.length)
    (BitVec.ofNat 128 (feeSum b.buffer)).isLt
  rw [BitVec.toNat_ofNat,Nat.mod_eq_of_lt hlt,BitVec.toNat_ofNat]

theorem average_eq_zero_iff {b : GasPriceBuffer} (hne : b.buffer≠[]) :
    b.average build=some 0 ↔ (build=.checked → feeSum b.buffer<2^128) ∧
      feeSum b.buffer%2^128<b.buffer.length := by
  have hlen := List.length_pos_of_ne_nil hne
  by_cases hfits : feeSum b.buffer<2^128 ∨ build=.wrapping
  · obtain ⟨a,ha,hval⟩ := average_of_result build hne hfits
    have hzero : a=0 ↔ a.toNat=0 := by
      rw [← BitVec.toNat_inj]
      rfl
    have hbuild : build=.checked → feeSum b.buffer<2^128 := by
      rintro rfl
      exact hfits.resolve_right nofun
    rw [ha,Option.some.injEq,hzero,hval,Nat.div_eq_zero_iff_lt hlen]
    exact (and_iff_right hbuild).symm
  · have hnone : result build 128 (feeSum b.buffer)=none := if_neg hfits
    rw [GasPriceBuffer.average_eq build hne,← feeSum,hnone]
    refine iff_of_false nofun (fun h => ?_)
    cases build with
    | checked => exact hfits (Or.inl (h.1 rfl))
    | wrapping => exact hfits (Or.inr rfl)

theorem gasPrice_eq {w : GasOracleWorker} {a : BitVec 128}
    (ha : w.gasPriceBuffer.average build=some a) :
    w.gasPrice build=result build 128 (a.toNat+oneGwei.toNat) := by
  rw [gasPrice,ha,Option.bind_eq_bind,Option.bind_some,add_eq]

theorem ofNat_add_eq_zero {n m : Nat} (hn : n<2^128) (hm : 0 < m) (hlt : m<2^128) :
    BitVec.ofNat 128 (n+m)=0 ↔ n+m=2^128 := by
  rw [← BitVec.toNat_inj,BitVec.toNat_ofNat]
  change (n+m)%2^128=0 ↔ n+m=2^128
  omega

theorem zeroAverage_iff {w : GasOracleWorker} (hgas : w.gasPriceBuffer.buffer≠[])
    (hdata : w.dataGasPriceBuffer.buffer≠[]) : w.ZeroAverage build ↔ w.ZeroPrice build := by
  have hgwei : 0<oneGwei.toNat ∧ oneGwei.toNat<2^128 := by decide
  cases build with
  | wrapping =>
    obtain ⟨a,ha,hval⟩ := average_of_result .wrapping hgas (Or.inr rfl)
    unfold ZeroAverage ZeroPrice
    rw [gasPrice_eq .wrapping ha,result_wrapping,Option.some.injEq,
      ofNat_add_eq_zero a.isLt hgwei.1 hgwei.2,average_eq_zero_iff .wrapping hdata,hval]
    exact or_congr_right ⟨fun h => h.2.2,fun h => ⟨nofun,nofun,h⟩⟩
  | checked =>
    unfold ZeroAverage ZeroPrice
    by_cases hfits : feeSum w.gasPriceBuffer.buffer<2^128
    · obtain ⟨a,ha,hval⟩ := average_of_result .checked hgas (Or.inl hfits)
      rw [Nat.mod_eq_of_lt hfits] at hval
      rw [gasPrice_eq .checked ha,average_eq_zero_iff .checked hdata,hval]
      by_cases hprice : feeSum w.gasPriceBuffer.buffer/w.gasPriceBuffer.buffer.length+
          oneGwei.toNat<2^128
      · rw [result_of_lt hprice,Option.some.injEq,ofNat_eq_zero_of_lt hprice]
        have hbound : w.dataGasPriceBuffer.buffer.length≤60 := w.dataGasPriceBuffer.bounded
        constructor
        · rintro (h | ⟨-,h,hmany⟩)
          · omega
          · exact ⟨hfits,hprice,Nat.mod_eq_of_lt (h rfl) ▸ hmany⟩
        · rintro ⟨-,-,hmany⟩
          exact Or.inr ⟨nofun,fun _ => by omega,by omega⟩
      · rw [result_checked_eq_none (Nat.le_of_not_lt hprice)]
        exact iff_of_false (by simp) (fun h => hprice h.2.1)
    · have hnone : w.gasPrice .checked=none := by
        rw [gasPrice,GasPriceBuffer.average_eq .checked hgas,← feeSum,
          result_checked_eq_none (Nat.le_of_not_lt hfits)]
        rfl
      rw [hnone]
      exact iff_of_false (by simp) (fun h => hfits h.1)

theorem updateGasPrice_noSample (hs : h.sample=none) :
    ∃ message v, updateGasPrice build h w=.error (.err message) v ∧ v.prices=w.prices := by
  cases hgas : h.baseFeePerGas.getLast? with
  | none => exact ⟨_,w,updateGasPrice_noGas build w hgas,rfl⟩
  | some gas =>
    cases hdata : h.baseFeePerBlobGas.getLast? with
    | none =>
      refine ⟨"Getting blob gas price",sampleGas gas w,?_,rfl⟩
      rw [updateGasPrice,hgas,hdata]
      rfl
    | some dataGas =>
      rw [FeeHistory.sample,hgas,hdata] at hs
      cases hs

theorem updateGasPrice_cases (h : FeeHistory) :
    (∃ v, updateGasPrice build h w=.ok () v ∧ v.prices.InRange ∧ ¬w.ZeroAfter build h) ∨
    ∃ e v, updateGasPrice build h w=.error e v ∧ v.prices=w.prices ∧
      (e=.panic "undefined" ↔ w.ZeroAfter build h) := by
  cases hs : h.sample with
  | none =>
    obtain ⟨message,v,hv,hprices⟩ := updateGasPrice_noSample build w hs
    exact Or.inr ⟨_,v,hv,hprices,by simp [ZeroAfter,hs]⟩
  | some sample =>
    obtain ⟨gas,dataGas⟩ := sample
    have hpush {buffer : List (BitVec 128)} {x : BitVec 128} :
        Window.push bufferSize buffer x≠[] := List.append_ne_nil_of_right_ne_nil _ (by simp)
    have hzero : w.ZeroAfter build h ↔ (w.sampled gas dataGas).ZeroAverage build := by
      rw [zeroAverage_iff build hpush hpush]
      simp [ZeroAfter,hs]
    rw [updateGasPrice_eq build w hs,hzero]
    obtain ⟨p,hp,hrange,hne⟩ | ⟨hp,hne⟩ | ⟨hp,hz⟩ :=
      averages_cases build (w.sampled gas dataGas) (w.sampled gas dataGas)
    · exact Or.inl ⟨_,bind_ok hp _,hrange,hne⟩
    · exact Or.inr ⟨_,_,bind_error hp _,rfl,by simpa using hne⟩
    · exact Or.inr ⟨_,_,bind_error hp _,rfl,by simpa using hz⟩

end

theorem run_inRange (build : Build) (histories : List FeeHistory) :
    (run build histories).prices.InRange := by
  refine List.foldlRecOn (motive := fun w : GasOracleWorker => w.prices.InRange) histories _ ?_ ?_
  · exact ⟨⟨by decide,by decide,by decide,by decide⟩,by decide,by decide,by decide,by decide⟩
  · intro w hw h _
    unfold update
    obtain ⟨v,hv,hrange,-⟩ | ⟨e,v,hv,hprices,-⟩ := updateGasPrice_cases build w h
    · rwa [hv]
    · rwa [hv,hprices]

theorem pricesNonzero_iff (hw : w.prices.InRange) :
    w.PricesNonzero build h ↔ ¬w.ZeroAfter build h := by
  unfold PricesNonzero update
  obtain ⟨v,hv,hrange,hne⟩ | ⟨e,v,hv,hprices,hzero⟩ := updateGasPrice_cases build w h
  · simp [hv,hrange,hne]
  · simp [hv,hprices,hw,hzero]

end GasOracleWorker

namespace Sync
open FeederGateway
variable {P : Payloads}

def Reports (p : ResourcePrice) (g : GasPrice) : Prop :=
  g.InRange ∧ g.eth=p.priceInWei.val ∧ g.strk=p.priceInFri.val

def reportedPrices {T R : Type} (b : FeederGateway.Block T R) : List ResourcePrice :=
  [b.l1GasPrice,b.l2GasPrice,b.l1DataGasPrice]

def headerPrices (h : Header) : List GasPrice := [h.l1GasPrices,h.l2GasPrices,h.l1DataGasPrices]

/-- The block that is made of a download has the prices that were reported. -/
def PricesReported (G : SequencerGateway P)
    (data : StateUpdateWithBlock G.Transaction G.Receipt) : Prop :=
  ∀ b, extractBlockData G data=.ok b →
    List.Forall₂ Reports (reportedPrices data.block) (headerPrices b.block.block.header)

theorem toGasPrices_reports {p : ResourcePrice} {g : GasPrice} (h : toGasPrices p=.ok g) :
    Reports p g ↔ p.priceInWei=p.priceInFri ∧ p.priceInFri≠0 := by
  obtain ⟨eth,heth,h⟩ := Except.bound h
  obtain ⟨strk,hstrk,h⟩ := Except.bound h
  cases h
  obtain rfl := Except.ok.inj (heth.symm.trans hstrk)
  unfold toU128 at heth
  split at heth
  case isFalse => cases heth
  case isTrue hlt =>
    cases heth
    constructor
    · rintro ⟨⟨hpos,-⟩,heth,-⟩
      exact ⟨(Fin.ext heth).symm,fun hzero => hpos.ne' (congrArg Fin.val hzero)⟩
    · rintro ⟨hwei,hne⟩
      have hpos : 0<p.priceInFri.val := Nat.pos_of_ne_zero (fun hzero => hne (Fin.ext hzero))
      exact ⟨⟨hpos,hlt,hpos,hlt⟩,by rw [hwei],rfl⟩

theorem extractBlockData_prices {G : SequencerGateway P}
    {data : StateUpdateWithBlock G.Transaction G.Receipt} {b : BlockInput P}
    (h : extractBlockData G data=.ok b) : List.Forall₂ (fun p g => toGasPrices p=.ok g)
      (reportedPrices data.block) (headerPrices b.block.block.header) := by
  unfold extractBlockData at h
  obtain ⟨_,_,h⟩ := Except.bound h
  obtain ⟨_,_,h⟩ := Except.bound h
  obtain ⟨_,_,h⟩ := Except.bound h
  obtain ⟨_,hl1,h⟩ := Except.bound h
  obtain ⟨_,hl2,h⟩ := Except.bound h
  obtain ⟨_,hdata,h⟩ := Except.bound h
  cases h
  exact .cons hl1 (.cons hl2 (.cons hdata .nil))

theorem forall₂_reports {ps : List ResourcePrice} {gs : List GasPrice}
    (h : List.Forall₂ (fun p g => toGasPrices p=.ok g) ps gs) :
    List.Forall₂ Reports ps gs ↔ ∀ p∈ps, p.priceInWei=p.priceInFri ∧ p.priceInFri≠0 := by
  induction h with
  | nil => simp
  | cons hp _ ih => rw [List.forall₂_cons,List.forall_mem_cons,toGasPrices_reports hp,ih]

theorem pricesReported_iff (G : SequencerGateway P)
    (data : StateUpdateWithBlock G.Transaction G.Receipt) :
    PricesReported G data ↔ (∀ b, extractBlockData G data≠.ok b) ∨
      ∀ p∈reportedPrices data.block, p.priceInWei=p.priceInFri ∧ p.priceInFri≠0 := by
  unfold PricesReported
  cases hd : extractBlockData G data with
  | error e => simp
  | ok b => simp [forall₂_reports (extractBlockData_prices hd)]

/-- After any fee histories the next update makes prices that are not zero exactly if the averages
are not; a block from the gateway has the reported prices exactly if those in wei and in fri are
equal and not zero, or if it is refused. -/
theorem gas_prices_right_iff (build : Build) (histories : List FeeHistory) (h : FeeHistory)
    (G : SequencerGateway P) (data : StateUpdateWithBlock G.Transaction G.Receipt) :
    ((GasOracleWorker.run build histories).PricesNonzero build h ↔
      ¬(GasOracleWorker.run build histories).ZeroAfter build h) ∧
    (PricesReported G data ↔ (∀ b, extractBlockData G data≠.ok b) ∨
      ∀ p∈reportedPrices data.block, p.priceInWei=p.priceInFri ∧ p.priceInFri≠0) :=
  ⟨pricesNonzero_iff (run_inRange build histories),
    pricesReported_iff G data⟩

/-- A blob base fee of zero, and a block whose gas costs 5 wei or 7 fri and whose data gas costs
nothing. -/
theorem zero_and_mixed_prices :
    (∀ build, ¬(GasOracleWorker.run build []).PricesNonzero build ⟨[100],[0]⟩) ∧
    ∃ data b, data.block.l1GasPrice=⟨7,5⟩ ∧ extractBlockData sampleGateway data=.ok b ∧
      b.block.block.header.l1GasPrices=⟨7,7⟩ ∧ b.block.block.header.l1DataGasPrices=⟨0,0⟩ ∧
      ¬PricesReported sampleGateway data := by
  constructor
  · intro build
    rw [pricesNonzero_iff (run_inRange build []),not_not]
    cases build with
    | checked => exact ⟨100,0,rfl,by decide,by decide,by decide⟩
    | wrapping => exact ⟨100,0,rfl,Or.inr (by decide)⟩
  · let block := (sampleGateway.getStateUpdateWithBlock 1).block
    refine ⟨⟨{},{ block with l1GasPrice := ⟨7,5⟩, l1DataGasPrice := ⟨0,0⟩ }⟩,_,rfl,rfl,rfl,rfl,?_⟩
    intro hreported
    have hl1 := (List.forall₂_cons.mp (hreported _ rfl)).1
    exact absurd hl1.2.1 (by decide)

end Sync
end Katana
