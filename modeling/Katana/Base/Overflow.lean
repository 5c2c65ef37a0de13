import Mathlib.Algebra.Ring.Nat
import Mathlib.Data.BitVec
import Mathlib.Tactic.Common

/-! Arithmetic of a fixed width in programs that are built with or without overflow checks. -/
namespace Overflow

inductive Build where
  | checked
  | wrapping
  deriving DecidableEq, Repr

/-- A number that does not fit stops a checked program and is reduced in the other one. -/
def result (build : Build) (w n : Nat) : Option (BitVec w) :=
  if n<2^w ∨ build=.wrapping then some (BitVec.ofNat w n) else none

variable {w : Nat} {build : Build} {z : BitVec w}

def add (build : Build) (x y : BitVec w) : Option (BitVec w) := result build w (x.toNat+y.toNat)

def mul (build : Build) (x y : BitVec w) : Option (BitVec w) := result build w (x.toNat*y.toNat)

theorem add_eq (build : Build) (x y : BitVec w) : add build x y=result build w (x.toNat+y.toNat) :=
  rfl

theorem result_of_lt {n : Nat} (h : n<2^w) : result build w n=some (BitVec.ofNat w n) :=
  if_pos (Or.inl h)

theorem result_wrapping (n : Nat) : result .wrapping w n=some (BitVec.ofNat w n) :=
  if_pos (Or.inr rfl)

theorem result_checked_eq_none {n : Nat} (h : 2^w≤n) : result .checked w n=none :=
  if_neg (by simp [h])

theorem bind_add (build : Build) (m n : Nat) :
    ((result build w m).bind fun x => (result build w n).bind fun y => add build x y)=
      result build w (m+n) := by
  cases build with
  | wrapping => simp [result_wrapping,add,BitVec.ofNat_add]
  | checked =>
    by_cases hm : m<2^w
    · by_cases hn : n<2^w
      · simp [result_of_lt hm,result_of_lt hn,add,Nat.mod_eq_of_lt hm,Nat.mod_eq_of_lt hn]
      · have hsum : 2^w≤ m+n := by omega
        simp [result_of_lt hm,result_checked_eq_none (not_lt.mp hn),result_checked_eq_none hsum]
    · have hsum : 2^w≤ m+n := by omega
      simp [result_checked_eq_none (not_lt.mp hm),result_checked_eq_none hsum]

def sum (build : Build) (xs : List (BitVec w)) : Option (BitVec w) := xs.foldlM (add build) 0

theorem sum_eq (build : Build) (xs : List (BitVec w)) :
    sum build xs=result build w (xs.map BitVec.toNat).sum := by
  have hfold (n : Nat) : ((result build w n).bind fun x => xs.foldlM (add build) x)=
      result build w (n+(xs.map BitVec.toNat).sum) := by
    induction xs generalizing n with
    | nil => simp
    | cons y xs ih =>
      have hy : result build w y.toNat=some y := by
        rw [result_of_lt y.isLt,BitVec.ofNat_toNat,BitVec.setWidth_eq]
      rw [List.map_cons,List.sum_cons,← Nat.add_assoc,← ih,← bind_add,hy]
      simp only [List.foldlM_cons,Option.bind_assoc,Option.bind_some,Option.bind_eq_bind]
  simpa [sum,result_of_lt (Nat.two_pow_pos w)] using hfold 0

theorem ofNat_eq_zero_of_lt {n : Nat} (h : n<2^w) : BitVec.ofNat w n=0 ↔ n=0 := by
  rw [←BitVec.toNat_inj,BitVec.toNat_ofNat,Nat.mod_eq_of_lt h]
  simp

/-- The same for numbers in two's complement. -/
def signedResult (build : Build) (w : Nat) (n : Int) : Option (BitVec w) :=
  if -2^(w-1)≤n ∧ n<2^(w-1) ∨ build=.wrapping then some (BitVec.ofInt w n) else none

def signedAdd (build : Build) (x y : BitVec w) : Option (BitVec w) :=
  signedResult build w (x.toInt+y.toInt)

def signedSub (build : Build) (x y : BitVec w) : Option (BitVec w) :=
  signedResult build w (x.toInt-y.toInt)

theorem signedResult_wrapping (n : Int) : signedResult .wrapping w n=some (BitVec.ofInt w n) :=
  if_pos (Or.inr rfl)

theorem signedResult_eq_some {n : Int} (h : signedResult build w n=some z) :
    z=BitVec.ofInt w n := by
  unfold signedResult at h
  split at h
  · exact (Option.some.inj h).symm
  · cases h

theorem ofInt_sub (m n : Int) : BitVec.ofInt w (m-n)=BitVec.ofInt w m-BitVec.ofInt w n := by
  rw [Int.sub_eq_add_neg,BitVec.ofInt_add,BitVec.ofInt_neg,BitVec.sub_eq_add_neg]

theorem ofInt_toNat (x : BitVec w) : BitVec.ofInt w x.toNat=x := by
  rw [BitVec.ofInt_natCast,BitVec.ofNat_toNat,BitVec.setWidth_eq]

/-- What is computed without a stop is the sum of the bits, whatever overflowed before. -/
theorem signedAdd_eq_some {x y : BitVec w} (h : signedAdd build x y=some z) : z=x+y := by
  rw [signedResult_eq_some h,BitVec.ofInt_add,BitVec.ofInt_toInt,BitVec.ofInt_toInt]

theorem signedSub_eq_some {x y : BitVec w} (h : signedSub build x y=some z) : z=x-y := by
  rw [signedResult_eq_some h,ofInt_sub,BitVec.ofInt_toInt,BitVec.ofInt_toInt]

theorem toNat_ofInt_of_fits {n : Int} (h₀ : 0≤n) (h : n<2^w) :
    ((BitVec.ofInt w n).toNat : Int)=n := by
  lift n to Nat using h₀
  rw [BitVec.ofInt_natCast,BitVec.toNat_ofNat,Nat.mod_eq_of_lt (by exact_mod_cast h)]

end Overflow
