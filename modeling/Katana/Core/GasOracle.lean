import Katana.Base.Overflow
import Katana.Base.Window
import Katana.Db.Tx
import Mathlib.Data.List.Infix

/-! The gas prices sampled from Ethereum (core/backend/gas_oracle.rs). -/
namespace Katana
open Overflow

def bufferSize : Nat := 60

def oneGwei : BitVec 128 := 1000000000

structure GasPriceBuffer where
  buffer : List (BitVec 128) := []
  bounded : buffer.length≤bufferSize := by decide
  deriving DecidableEq

namespace GasPriceBuffer

def addSample (b : GasPriceBuffer) (sample : BitVec 128) : GasPriceBuffer where
  buffer := Window.push bufferSize b.buffer sample
  bounded := Window.length_push_le b.bounded (by decide) sample

/-- None is the panic of an overflow in a build with overflow checks. -/
def average (build : Build) (b : GasPriceBuffer) : Option (BitVec 128) :=
  if b.buffer.isEmpty then some 0
  else (sum build b.buffer).map fun sum => sum/BitVec.ofNat 128 b.buffer.length

end GasPriceBuffer

/-- GasPrice::new_unchecked, which is undefined for zero. -/
def GasPrice.newUnchecked (eth strk : BitVec 128) : Option GasPrice :=
  if eth=0 ∨ strk=0 then none else some ⟨eth.toNat,strk.toNat⟩

structure SampledPrices where
  gasPrices : GasPrice := ⟨1,1⟩
  dataGasPrices : GasPrice := ⟨1,1⟩
  deriving DecidableEq, Repr

structure FeeHistory where
  baseFeePerGas : List (BitVec 128)
  baseFeePerBlobGas : List (BitVec 128)
  deriving DecidableEq, Repr

structure GasOracleWorker where
  prices : SampledPrices := {}
  gasPriceBuffer : GasPriceBuffer := {}
  dataGasPriceBuffer : GasPriceBuffer := {}
  deriving DecidableEq

namespace GasOracleWorker

abbrev OracleM := EStateM (Failure String) GasOracleWorker

def context (message : String) (fee : Option (BitVec 128)) : OracleM (BitVec 128) :=
  match fee with
  | some fee => return fee
  | none => throw (.err message)

def orPanic {α : Type} (message : String) (value : Option α) : OracleM α :=
  match value with
  | some a => return a
  | none => throw (.panic message)

def sampleGas (fee : BitVec 128) (w : GasOracleWorker) : GasOracleWorker :=
  ⟨w.prices,w.gasPriceBuffer.addSample fee,w.dataGasPriceBuffer⟩

def sampleDataGas (fee : BitVec 128) (w : GasOracleWorker) : GasOracleWorker :=
  ⟨w.prices,w.gasPriceBuffer,w.dataGasPriceBuffer.addSample fee⟩

def averages (build : Build) (w : GasOracleWorker) : OracleM SampledPrices := do
  let average ← orPanic "attempt to add with overflow" (w.gasPriceBuffer.average build)
  let gasPrice ← orPanic "attempt to add with overflow" (add build average oneGwei)
  let avgGasPrice ← orPanic "undefined" (GasPrice.newUnchecked gasPrice gasPrice)
  let dataGasPrice ← orPanic "attempt to add with overflow" (w.dataGasPriceBuffer.average build)
  let avgBlobPrice ← orPanic "undefined" (GasPrice.newUnchecked dataGasPrice dataGasPrice)
  return ⟨avgGasPrice,avgBlobPrice⟩

def updateGasPrice (build : Build) (feeHistory : FeeHistory) : OracleM Unit := do
  let latestGasPrice ← context "Getting eth gas price" feeHistory.baseFeePerGas.getLast?
  modify (sampleGas latestGasPrice)
  let avgBlobBaseFee ← context "Getting blob gas price" feeHistory.baseFeePerBlobGas.getLast?
  modify (sampleDataGas avgBlobBaseFee)
  let w ← get
  let prices ← w.averages build
  set (⟨prices,w.gasPriceBuffer,w.dataGasPriceBuffer⟩ : GasOracleWorker)

def update (build : Build) (w : GasOracleWorker) (feeHistory : FeeHistory) : GasOracleWorker :=
  match updateGasPrice build feeHistory w with
  | .ok _ w' => w'
  | .error _ w' => w'

def run (build : Build) (histories : List FeeHistory) : GasOracleWorker :=
  histories.foldl (update build) {}

end GasOracleWorker

def FeeHistory.sample (h : FeeHistory) : Option (BitVec 128 × BitVec 128) := do
  let gas ← h.baseFeePerGas.getLast?
  let dataGas ← h.baseFeePerBlobGas.getLast?
  return (gas,dataGas)

def mean (xs : List (BitVec 128)) : Nat := (xs.map BitVec.toNat).sum/xs.length

variable (samples : List (BitVec 128 × BitVec 128))

/-- The base fees and the blob base fees that are averaged after some samples. -/
def gasWindow : List (BitVec 128) :=
  Window.last bufferSize (samples.map Prod.fst)

def dataGasWindow : List (BitVec 128) :=
  Window.last bufferSize (samples.map Prod.snd)

def pricesOf : SampledPrices :=
  if samples=[] then {}
  else
    let gas := mean (gasWindow samples)+oneGwei.toNat
    let dataGas := mean (dataGasWindow samples)
    ⟨⟨gas,gas⟩,⟨dataGas,dataGas⟩⟩

/-- The sums and the prices are numbers of 128 bits, and the price of data gas is not zero. -/
structure Fits (samples : List (BitVec 128 × BitVec 128)) : Prop where
  gasSum : ((gasWindow samples).map BitVec.toNat).sum<2^128
  gasPrice : mean (gasWindow samples)+oneGwei.toNat<2^128
  dataGasSum : ((dataGasWindow samples).map BitVec.toNat).sum<2^128
  dataGasPrice : mean (dataGasWindow samples)≠0

instance (samples : List (BitVec 128 × BitVec 128)) : Decidable (Fits samples) :=
  decidable_of_iff
    (((gasWindow samples).map BitVec.toNat).sum<2^128 ∧
      mean (gasWindow samples)+oneGwei.toNat<2^128 ∧
      ((dataGasWindow samples).map BitVec.toNat).sum<2^128 ∧ mean (dataGasWindow samples)≠0)
    ⟨fun h => ⟨h.1,h.2.1,h.2.2.1,h.2.2.2⟩,
      fun h => ⟨h.gasSum,h.gasPrice,h.dataGasSum,h.dataGasPrice⟩⟩

theorem GasPriceBuffer.average_eq (build : Build) {b : GasPriceBuffer} (hne : b.buffer≠[]) :
    b.average build=(result build 128 (b.buffer.map BitVec.toNat).sum).map (fun sum =>
      BitVec.ofNat 128 (sum.toNat/b.buffer.length)) := by
  have hempty : b.buffer.isEmpty=false := by simpa using hne
  have hlen : b.buffer.length<2^128 := lt_of_le_of_lt b.bounded (by decide)
  rw [average,hempty,if_neg (by simp),sum_eq]
  congr 1
  funext sum
  apply BitVec.eq_of_toNat_eq
  rw [BitVec.toNat_udiv,BitVec.toNat_ofNat,BitVec.toNat_ofNat,Nat.mod_eq_of_lt hlen,
    Nat.mod_eq_of_lt (lt_of_le_of_lt (Nat.div_le_self _ _) sum.isLt)]

theorem GasPriceBuffer.average_of_lt {build : Build} {b : GasPriceBuffer} (hne : b.buffer≠[])
    (h : (b.buffer.map BitVec.toNat).sum<2^128) :
    b.average build=some (BitVec.ofNat 128 (mean b.buffer)) := by
  rw [average_eq build hne,result_of_lt h,Option.map_some,BitVec.toNat_ofNat,Nat.mod_eq_of_lt h]
  rfl

theorem newUnchecked_ofNat {n : Nat} (h : n<2^128) (hne : n≠0) :
    GasPrice.newUnchecked (BitVec.ofNat 128 n) (BitVec.ofNat 128 n)=some ⟨n,n⟩ := by
  have hzero : ¬(BitVec.ofNat 128 n=0 ∨ BitVec.ofNat 128 n=0) := by
    rw [or_self,ofNat_eq_zero_of_lt h]
    exact hne
  rw [GasPrice.newUnchecked,if_neg hzero,BitVec.toNat_ofNat,Nat.mod_eq_of_lt h]

namespace GasOracleWorker
variable {build : Build} {w : GasOracleWorker} {h : FeeHistory}
  {samples : List (BitVec 128 × BitVec 128)}

/-- The worker after the samples of the updates that succeeded. -/
structure Sampled (w : GasOracleWorker) (samples : List (BitVec 128 × BitVec 128)) : Prop where
  gas : w.gasPriceBuffer.buffer=gasWindow samples
  dataGas : w.dataGasPriceBuffer.buffer=dataGasWindow samples
  prices : w.prices=pricesOf samples

theorem orPanic_some {α : Type} {a : α} {v : GasOracleWorker} (message : String)
    {value : Option α} (h : value=some a) : orPanic message value v=.ok a v := by
  rw [h]
  rfl

theorem averages_of_fits (hgas : w.gasPriceBuffer.buffer=gasWindow samples)
    (hdata : w.dataGasPriceBuffer.buffer=dataGasWindow samples) (hne : samples≠[])
    (hfits : Fits samples) (v : GasOracleWorker) :
    w.averages build v=.ok (pricesOf samples) v := by
  have hnil {xs : List (BitVec 128)} (hxs : xs≠[]) : Window.last bufferSize xs≠[] :=
    Window.last_ne_nil (by decide) hxs
  have havg : w.gasPriceBuffer.average build=
      some (BitVec.ofNat 128 (mean (gasWindow samples))) := by
    rw [← hgas]
    exact GasPriceBuffer.average_of_lt (hgas ▸ hnil (by simpa using hne)) (hgas ▸ hfits.gasSum)
  have hdataAvg : w.dataGasPriceBuffer.average build=
      some (BitVec.ofNat 128 (mean (dataGasWindow samples))) := by
    rw [← hdata]
    exact GasPriceBuffer.average_of_lt (hdata ▸ hnil (by simpa using hne)) (hdata ▸ hfits.dataGasSum)
  have hmean : mean (gasWindow samples)<2^128 :=
    lt_of_le_of_lt (Nat.le_add_right _ _) hfits.gasPrice
  have hdataMean : mean (dataGasWindow samples)<2^128 :=
    lt_of_le_of_lt (Nat.div_le_self _ _) hfits.dataGasSum
  have hadd : add build (BitVec.ofNat 128 (mean (gasWindow samples))) oneGwei=
      some (BitVec.ofNat 128 (mean (gasWindow samples)+oneGwei.toNat)) := by
    have hnat : (BitVec.ofNat 128 (mean (gasWindow samples))).toNat=mean (gasWindow samples) := by
      rw [BitVec.toNat_ofNat,Nat.mod_eq_of_lt hmean]
    rw [add,hnat,result_of_lt hfits.gasPrice]
  have hpositive : mean (gasWindow samples)+oneGwei.toNat≠0 := by
    have hgwei : oneGwei.toNat=1000000000 := by decide
    omega
  rw [averages,bind_ok (orPanic_some _ havg),bind_ok (orPanic_some _ hadd),
    bind_ok (orPanic_some _ (newUnchecked_ofNat hfits.gasPrice hpositive)),
    bind_ok (orPanic_some _ hdataAvg),
    bind_ok (orPanic_some _ (newUnchecked_ofNat hdataMean hfits.dataGasPrice)),
    pricesOf,if_neg hne]
  rfl

def sampled (gas dataGas : BitVec 128) (w : GasOracleWorker) : GasOracleWorker :=
  sampleDataGas dataGas (sampleGas gas w)

theorem updateGasPrice_eq (build : Build) (w : GasOracleWorker) {gas dataGas : BitVec 128}
    (hs : h.sample=some (gas,dataGas)) : updateGasPrice build h w=(do
      let prices ← (w.sampled gas dataGas).averages build
      set (⟨prices,(w.sampled gas dataGas).gasPriceBuffer,
        (w.sampled gas dataGas).dataGasPriceBuffer⟩ : GasOracleWorker)) (w.sampled gas dataGas) := by
  obtain ⟨gas,hgas,hs⟩ := Option.bind_eq_some_iff.mp hs
  obtain ⟨dataGas,hdata,hs⟩ := Option.bind_eq_some_iff.mp hs
  cases hs
  have hgasFee : context "Getting eth gas price" h.baseFeePerGas.getLast? w=.ok gas w := by
    rw [hgas]
    rfl
  have hdataFee : context "Getting blob gas price" h.baseFeePerBlobGas.getLast? (sampleGas gas w)=
      .ok dataGas (sampleGas gas w) := by
    rw [hdata]
    rfl
  rw [updateGasPrice,bind_ok hgasFee]
  exact bind_ok hdataFee _

theorem updateGasPrice_sample (build : Build) {sample : BitVec 128 × BitVec 128} (hw : w.Sampled samples)
    (hs : h.sample=some sample) (hfits : Fits (samples++[sample])) :
    ∃ w', updateGasPrice build h w=.ok () w' ∧ w'.Sampled (samples++[sample]) := by
  obtain ⟨gas,dataGas⟩ := sample
  let w' := w.sampled gas dataGas
  have hgasWindow : w'.gasPriceBuffer.buffer=gasWindow (samples++[(gas,dataGas)]) := by
    change Window.push bufferSize w.gasPriceBuffer.buffer gas=_
    rw [hw.gas,gasWindow,gasWindow,Window.push_last (by decide),List.map_append,List.map_singleton]
  have hdataWindow : w'.dataGasPriceBuffer.buffer=dataGasWindow (samples++[(gas,dataGas)]) := by
    change Window.push bufferSize w.dataGasPriceBuffer.buffer dataGas=_
    rw [hw.dataGas,dataGasWindow,dataGasWindow,Window.push_last (by decide),List.map_append,
      List.map_singleton]
  have hprices : w'.averages build w'=.ok _ w' :=
    averages_of_fits hgasWindow hdataWindow (by simp) hfits w'
  refine ⟨⟨pricesOf (samples++[(gas,dataGas)]),w'.gasPriceBuffer,w'.dataGasPriceBuffer⟩,?_,
    hgasWindow,hdataWindow,rfl⟩
  rw [updateGasPrice_eq build w hs,bind_ok hprices]
  rfl

theorem updateGasPrice_noGas (build : Build) (w : GasOracleWorker)
    (hgas : h.baseFeePerGas.getLast?=none) :
    updateGasPrice build h w=.error (.err "Getting eth gas price") w := by
  have hfee : context "Getting eth gas price" h.baseFeePerGas.getLast? w=
      .error (.err "Getting eth gas price") w := by
    rw [hgas]
    rfl
  exact bind_error hfee _

/-- An update with a base fee has a blob base fee. -/
def Paired (h : FeeHistory) : Prop := h.baseFeePerGas≠[] → h.baseFeePerBlobGas≠[]

theorem noGas_of_sample (hp : Paired h) (hs : h.sample=none) : h.baseFeePerGas.getLast?=none := by
  cases hgas : h.baseFeePerGas.getLast? with
  | none => rfl
  | some gas =>
    have hne : h.baseFeePerGas≠[] := by
      intro hnil
      rw [hnil] at hgas
      cases hgas
    obtain ⟨dataGas,hdata⟩ := Option.isSome_iff_exists.mp (List.getLast?_isSome.mpr (hp hne))
    rw [FeeHistory.sample,hgas,hdata] at hs
    cases hs

theorem update_noSample (hp : Paired h) (hs : h.sample=none) :
    updateGasPrice build h w=.error (.err "Getting eth gas price") w ∧ w.update build h=w := by
  have herror := updateGasPrice_noGas build w (noGas_of_sample hp hs)
  exact ⟨herror,by rw [update,herror]⟩

section
variable {histories : List FeeHistory} (hpaired : ∀ h∈histories, Paired h)
  (hfits : ∀ bs, bs<+:histories → bs.filterMap FeeHistory.sample≠[] →
    Fits (bs.filterMap FeeHistory.sample)) (build : Build)
include hpaired hfits

theorem run_sampled : (run build histories).Sampled (histories.filterMap FeeHistory.sample) := by
  induction histories using List.reverseRecOn with
  | nil => exact ⟨rfl,rfl,rfl⟩
  | append_singleton histories h ih =>
    have hrun : run build (histories++[h])=(run build histories).update build h := by
      rw [run,List.foldl_append]
      rfl
    have hw := ih (fun k hk => hpaired k (List.mem_append_left [h] hk))
      (fun bs hbs => hfits bs (hbs.trans (List.prefix_append histories [h])))
    rw [hrun,List.filterMap_append]
    cases hs : h.sample with
    | none =>
      rw [(update_noSample (hpaired h (by simp)) hs).2]
      simpa [hs] using hw
    | some sample =>
      have hsamples : [h].filterMap FeeHistory.sample=[sample] := by simp [hs]
      have hfit := hfits (histories++[h]) List.prefix_rfl
      rw [List.filterMap_append,hsamples] at hfit
      obtain ⟨w',hok,hw'⟩ := updateGasPrice_sample build hw hs (hfit (by simp))
      rw [hsamples,update,hok]
      exact hw'

/-- While no update has a base fee without a blob base fee, the prices are the means of the last
samples of the updates that succeeded, and an update that fails changes nothing. -/
theorem sampled_prices_exact :
    (run build histories).Sampled (histories.filterMap FeeHistory.sample) ∧
    ∀ bs h, bs++[h]<+:histories →
      ((∃ w, updateGasPrice build h (run build bs)=.ok () w) ↔ h.sample≠none) ∧
      (h.sample=none → run build (bs++[h])=run build bs) := by
  refine ⟨run_sampled hpaired hfits build,fun bs h hbs => ?_⟩
  have hmem : ∀ k∈bs++[h], Paired k := fun k hk => hpaired k (hbs.subset hk)
  have hlast : Paired h := hmem h (by simp)
  have hw := run_sampled (fun k hk => hmem k (List.mem_append_left [h] hk))
    (fun cs hcs => hfits cs ((hcs.trans (List.prefix_append bs [h])).trans hbs)) build
  constructor
  · constructor
    · rintro ⟨w,hok⟩ hs
      rw [(update_noSample hlast hs).1] at hok
      cases hok
    · intro hne
      obtain ⟨sample,hs⟩ := Option.ne_none_iff_exists'.mp hne
      have hsamples : (bs++[h]).filterMap FeeHistory.sample=
          bs.filterMap FeeHistory.sample++[sample] := by simp [hs]
      have hfit := hfits (bs++[h]) hbs
      rw [hsamples] at hfit
      obtain ⟨w,hok,_⟩ := updateGasPrice_sample build hw hs (hfit (by simp))
      exact ⟨w,hok⟩
  · intro hs
    rw [run,List.foldl_append]
    exact (update_noSample hlast hs).2

end

def pairedHistories : List FeeHistory := [⟨[],[9]⟩,⟨[100],[7]⟩,⟨[40,301],[8]⟩,⟨[],[]⟩]

theorem paired_prices :
    (run .checked pairedHistories).prices=⟨⟨1000000200,1000000200⟩,⟨7,7⟩⟩ ∧
    (run .wrapping pairedHistories).prices=⟨⟨1000000200,1000000200⟩,⟨7,7⟩⟩ := by
  have hpaired : ∀ h∈pairedHistories, Paired h := by simp [pairedHistories,Paired]
  have hfits : ∀ bs∈pairedHistories.inits, bs.filterMap FeeHistory.sample≠[] →
      Fits (bs.filterMap FeeHistory.sample) := by decide
  have hsampled := sampled_prices_exact hpaired
    (fun bs hbs => hfits bs ((List.mem_inits bs pairedHistories).mpr hbs))
  exact ⟨(hsampled .checked).1.prices,(hsampled .wrapping).1.prices⟩

/-- An update without a blob base fee fails and leaves its base fee in the buffer, and the next
price is the mean of both. A price of data gas of zero is undefined, and a gas price does not fit
from 2^128 on. -/
theorem failed_update_sampled :
    (∀ build, (run build [⟨[100],[]⟩]).gasPriceBuffer.buffer=[100] ∧
      (run build [⟨[100],[]⟩]).prices={}) ∧
    (∀ build, (run build [⟨[100],[]⟩,⟨[300],[7]⟩]).prices=⟨⟨1000000200,1000000200⟩,⟨7,7⟩⟩) ∧
    pricesOf ([⟨[100],[]⟩,⟨[300],[7]⟩].filterMap FeeHistory.sample)=
      ⟨⟨1000000300,1000000300⟩,⟨7,7⟩⟩ ∧
    (∀ build, (run build [⟨[100],[0]⟩]).prices={}) ∧
    (run .checked [⟨[BitVec.allOnes 128],[7]⟩]).prices={} ∧
    (run .wrapping [⟨[BitVec.allOnes 128],[7]⟩]).prices=⟨⟨999999999,999999999⟩,⟨7,7⟩⟩ := by
  refine ⟨?_,?_,by decide,?_,by decide,by decide⟩
  · intro build
    cases build <;> decide
  · intro build
    cases build <;> decide
  · intro build
    cases build <;> decide

end GasOracleWorker
end Katana
