import Katana.Base.Overflow
import Katana.Pool.Validator
import Katana.Primitives.Transaction

/-! Whether a transaction is executed with fees (to_executor_tx, skip_fee_on_zero_gas and
is_zero_resource_bounds in utils.rs of executor/implementation/blockifier). None is a panic: of an
overflow in a build with overflow checks, or of a conversion. -/
namespace Katana.Executor
open Primitives TransactionPool Overflow

variable (build : Build) (bounds : ResourceBounds)

def maxCost : Option (BitVec 128) :=
  mul build (bounds.maxAmount.setWidth 128) bounds.maxPricePerUnit

def isZeroResourceBounds : ResourceBoundsMapping → Option Bool
  | .all bounds => do
    let l1 ← maxCost build bounds.l1Gas
    let l2 ← maxCost build bounds.l2Gas
    let l1AndL2 ← add build l1 l2
    let l1Data ← maxCost build bounds.l1DataGas
    let total ← add build l1AndL2 l1Data
    return total==0
  | .l1Gas bounds => do
    let cost ← maxCost build bounds
    return cost==0

def skipFeeOnZeroGas : Primitives.ExecutableTx → Option Bool
  | .invoke (.v0 tx) => some (tx.maxFee==0)
  | .invoke (.v1 tx) => some (tx.maxFee==0)
  | .invoke (.v3 tx) => isZeroResourceBounds build tx.resourceBounds
  | .deployAccount (.v1 tx) => some (tx.maxFee==0)
  | .deployAccount (.v3 tx) => isZeroResourceBounds build tx.resourceBounds
  | .declare (.v0 tx) => some (tx.maxFee==0)
  | .declare (.v1 tx) => some (tx.maxFee==0)
  | .declare (.v2 tx) => some (tx.maxFee==0)
  | .declare (.v3 tx) => isZeroResourceBounds build tx.resourceBounds
  | .l1Handler _ => some true

/-- The initial gas of a transaction with all bounds is its bound of the L2 gas. -/
def maxL2Gas : ResourceBoundsMapping → ResourceBoundsMapping
  | .all bounds => .all { bounds with l2Gas := { bounds.l2Gas with maxAmount := BitVec.allOnes 64 } }
  | .l1Gas bounds => .l1Gas bounds

def setMaxInitialSierraGas : Primitives.ExecutableTx → Primitives.ExecutableTx
  | .invoke (.v3 tx) => .invoke (.v3 { tx with resourceBounds := maxL2Gas tx.resourceBounds })
  | .deployAccount (.v3 tx) =>
    .deployAccount (.v3 { tx with resourceBounds := maxL2Gas tx.resourceBounds })
  | .declare (.v3 tx) => .declare (.v3 { tx with resourceBounds := maxL2Gas tx.resourceBounds })
  | tx => tx

/-- What to_executor_tx unwraps: to_blk_address, and for a class compile and to_class_info. -/
structure Conversions where
  ContractClass : Type
  ClassInfo : Type
  toBlkAddress : Felt → Option Felt
  compileClassInfo : ContractClass → Option ClassInfo

def blkAddress : Primitives.ExecutableTx → Felt
  | .invoke (.v0 tx) => tx.contractAddress
  | .invoke (.v1 tx) => tx.senderAddress
  | .invoke (.v3 tx) => tx.senderAddress
  | .deployAccount (.v1 tx) => tx.contractAddress
  | .deployAccount (.v3 tx) => tx.contractAddress
  | .declare (.v0 tx) => tx.senderAddress
  | .declare (.v1 tx) => tx.senderAddress
  | .declare (.v2 tx) => tx.senderAddress
  | .declare (.v3 tx) => tx.senderAddress
  | .l1Handler tx => tx.contractAddress

variable (L : Conversions)

/-- What is handed to blockifier: the fields of the transaction with its address, the class of
a declaration and the flags. -/
structure Converted where
  tx : Primitives.ExecutableTx
  address : Felt
  classInfo : Option L.ClassInfo
  flags : ExecutionFlags

/-- The class is the one that travels with a declaration. -/
def convert (tx : Primitives.ExecutableTx) (cls : L.ContractClass) (flags : ExecutionFlags) :
    Option (Converted L) := do
  let address ← L.toBlkAddress (blkAddress tx)
  match tx with
  | .declare _ => (L.compileClassInfo cls).map (fun info => ⟨tx,address,some info,flags⟩)
  | _ => some ⟨tx,address,none,flags⟩

def toExecutorTx (tx : Primitives.ExecutableTx) (cls : L.ContractClass) (flags : ExecutionFlags) :
    Option (Converted L) := do
  let withFee skip := { flags with fee := !skip }
  let flags ← if flags.fee then (skipFeeOnZeroGas build tx).map withFee else some flags
  convert L (if flags.fee then tx else setMaxInitialSierraGas tx) cls flags

/-- The address of the transaction is one of blockifier's, and the class of a declaration
compiles. -/
def Converts (tx : Primitives.ExecutableTx) (cls : L.ContractClass) : Prop :=
  (∃ address, L.toBlkAddress (blkAddress tx)=some address) ∧
    ∀ d, tx=.declare d → ∃ classInfo, L.compileClassInfo cls=some classInfo

def resources : ResourceBoundsMapping → List ResourceBounds
  | .all bounds => [bounds.l1Gas,bounds.l2Gas,bounds.l1DataGas]
  | .l1Gas bounds => [bounds]

def committed : Nat :=
  bounds.maxAmount.toNat*bounds.maxPricePerUnit.toNat

variable (mapping : ResourceBoundsMapping)

def total : Nat := ((resources mapping).map committed).sum

theorem maxCost_eq : maxCost build bounds=result build 128 (committed bounds) := by
  have h : (bounds.maxAmount.setWidth 128).toNat=bounds.maxAmount.toNat := by
    rw [BitVec.toNat_setWidth]
    exact Nat.mod_eq_of_lt (bounds.maxAmount.isLt.trans (by decide))
  rw [maxCost,mul,h,committed]

theorem isZeroResourceBounds_eq :
    isZeroResourceBounds build mapping=(result build 128 (total mapping)).map (·==0) := by
  cases mapping with
  | l1Gas bounds =>
    simp only [isZeroResourceBounds,maxCost_eq,total,resources,List.map_cons,List.map_nil,
      List.sum_cons,List.sum_nil,Nat.add_zero,Option.map_eq_bind]
    rfl
  | all bounds =>
    have hsum := bind_add (w:=128) build (committed bounds.l1Gas) (committed bounds.l2Gas)
    have htotal := bind_add (w:=128) build (committed bounds.l1Gas+committed bounds.l2Gas)
      (committed bounds.l1DataGas)
    rw [←hsum] at htotal
    have hcost : total (.all bounds)=
        committed bounds.l1Gas+committed bounds.l2Gas+committed bounds.l1DataGas := by
      simp [total,resources,Nat.add_assoc]
    rw [hcost,←htotal]
    simp only [isZeroResourceBounds,maxCost_eq,Option.map_eq_bind,Option.bind_assoc,
      Option.bind_eq_bind]
    rfl

theorem total_eq_zero : total mapping=0 ↔ ∀ bounds∈resources mapping, committed bounds=0 := by
  cases mapping with
  | l1Gas bounds | all bounds => simp [total,resources]

theorem isZeroResourceBounds_of_lt {mapping : ResourceBoundsMapping}
    (h : total mapping<2^128) : isZeroResourceBounds build mapping=
      some (decide (∀ bounds∈resources mapping, committed bounds=0)) := by
  rw [isZeroResourceBounds_eq,result_of_lt h,Option.map_some,Option.some.injEq,
    Bool.eq_iff_iff,beq_iff_eq,decide_eq_true_iff,ofNat_eq_zero_of_lt h,total_eq_zero]

def resourceBounds : Primitives.ExecutableTx → Option ResourceBoundsMapping
  | .invoke (.v3 tx) => some tx.resourceBounds
  | .deployAccount (.v3 tx) => some tx.resourceBounds
  | .declare (.v3 tx) => some tx.resourceBounds
  | _ => none

theorem skipFeeOnZeroGas_eq {tx : Primitives.ExecutableTx}
    {mapping : ResourceBoundsMapping} (h : resourceBounds tx=some mapping) :
    skipFeeOnZeroGas build tx=isZeroResourceBounds build mapping := by
  unfold resourceBounds at h
  split at h
  · cases h
    rfl
  · cases h
    rfl
  · cases h
    rfl
  · cases h

theorem converts_setMaxInitialSierraGas {tx : Primitives.ExecutableTx} {cls : L.ContractClass}
    (h : Converts L tx cls) : Converts L (setMaxInitialSierraGas tx) cls := by
  unfold setMaxInitialSierraGas
  split
  · exact ⟨h.1,fun d hd => by cases hd⟩
  · exact ⟨h.1,fun d hd => by cases hd⟩
  · exact ⟨h.1,fun _ _ => h.2 _ rfl⟩
  · exact h

theorem convert_of_converts {tx : Primitives.ExecutableTx} {cls : L.ContractClass}
    (h : Converts L tx cls) (flags : ExecutionFlags) : ∃ c, convert L tx cls flags=some c := by
  obtain ⟨⟨address,haddress⟩,hclass⟩ := h
  rw [convert,haddress]
  cases tx with
  | declare d =>
    obtain ⟨info,hinfo⟩ := hclass d rfl
    exact ⟨_,by rw [hinfo]; rfl⟩
  | invoke _ | l1Handler _ | deployAccount _ => exact ⟨_,rfl⟩

theorem convert_flags {tx : Primitives.ExecutableTx} {cls : L.ContractClass}
    {flags : ExecutionFlags} {c : Converted L} (h : convert L tx cls flags=some c) :
    c.flags=flags := by
  obtain ⟨address,-,h⟩ := Option.bind_eq_some_iff.mp h
  cases tx with
  | declare d =>
    obtain ⟨info,-,rfl⟩ := Option.map_eq_some_iff.mp h
    rfl
  | invoke _ | l1Handler _ | deployAccount _ =>
    cases h
    rfl

/-- The decision about the fee of the bounds: the test is that of the integers, it stops no
conversion, and with fees enabled only bounds without cost are executed without them. -/
structure FeeExact (mapping : ResourceBoundsMapping) : Prop where
  test : ∀ build, isZeroResourceBounds build mapping=
    some (decide (∀ bounds∈resources mapping, committed bounds=0))
  converted : ∀ build tx cls flags, resourceBounds tx=some mapping → Converts L tx cls →
    ∃ c, toExecutorTx build L tx cls flags=some c
  charged : ∀ build tx cls (flags : ExecutionFlags) c, resourceBounds tx=some mapping →
    flags.fee → toExecutorTx build L tx cls flags=some c →
    (∃ bounds∈resources mapping, committed bounds≠0) → c.flags.fee

/-- The decision about the fee is exact if and only if the sum of the products fits in 128 bits. -/
theorem fee_decision_exact_iff : FeeExact L mapping ↔ total mapping<2^128 := by
  constructor
  · intro h
    by_contra hge
    have htest := h.test .checked
    rw [isZeroResourceBounds_eq,result_checked_eq_none (not_lt.mp hge)] at htest
    cases htest
  · intro h
    have htest := fun build => isZeroResourceBounds_of_lt build h
    refine ⟨htest,?_,?_⟩
    · intro build tx cls flags hb hconv
      -- the decision is made; behind it only the address and the class can stop the conversion
      have hconvert (flags : ExecutionFlags) :
          ∃ c, convert L (if flags.fee then tx else setMaxInitialSierraGas tx) cls flags=some c := by
        split
        · exact convert_of_converts L hconv flags
        · exact convert_of_converts L (converts_setMaxInitialSierraGas L hconv) flags
      rw [toExecutorTx,skipFeeOnZeroGas_eq build hb,htest build]
      split
      · exact hconvert _
      · exact hconvert _
    · intro build tx cls flags c hb hfee hconv hcost
      have hzero : ¬∀ bounds∈resources mapping, committed bounds=0 := by
        push Not
        exact hcost
      rw [toExecutorTx,if_pos hfee,skipFeeOnZeroGas_eq build hb,htest build] at hconv
      rw [convert_flags L hconv]
      simp [hzero]

def plainConversions : Conversions := ⟨Unit,Unit,some,some⟩

/-- The product of 2^32 units at 2^96 each is 2^128: it stops one build, and the other one takes
it for zero and charges no fee. -/
theorem wrapped_product_skips_fee :
    let bounds : ResourceBounds := ⟨2^32,2^96⟩
    let tx : Primitives.ExecutableTx := .invoke (.v3
      { chainId := .named .mainnet, nonce := 0, signature := [], resourceBounds := .l1Gas bounds
        tip := 0, paymasterData := [], nonceDataAvailabilityMode := .l1
        feeDataAvailabilityMode := .l1, senderAddress := 1, calldata := []
        accountDeploymentData := [] })
    committed bounds=2^128 ∧ isZeroResourceBounds .checked (.l1Gas bounds)=none ∧
      isZeroResourceBounds .wrapping (.l1Gas bounds)=some true ∧
      (toExecutorTx .wrapping plainConversions tx () {}).map (fun c => c.flags)=
        some { fee := false } ∧
      ¬FeeExact plainConversions (.l1Gas bounds) := by
  intro bounds tx
  have hstop : isZeroResourceBounds .checked (.l1Gas bounds)=none := by decide +kernel
  refine ⟨by decide +kernel,hstop,by decide +kernel,by decide +kernel,?_⟩
  intro h
  cases hstop.symm.trans (h.test .checked)

end Katana.Executor
