import Katana.Base.BitString
import Mathlib.Data.List.Prime
import Mathlib.NumberTheory.LucasPrimality

/-! Powers modulo a number by squaring, and primes by the factors of their predecessor. -/
namespace PowMod

def step (b m acc : Nat) (bit : Bool) : Nat :=
  if bit then acc*acc%m*b%m else acc*acc%m

def powMod (b e m : Nat) : Nat := (BitString.digits (e.log2+1) e).foldl (step b m) (1%m)

theorem step_pow (b m n : Nat) (bit : Bool) :
    step b m (b^n%m) bit=b^(2*n+bit.toNat)%m := by
  have hsq : b^n%m*(b^n%m)%m=b^(2*n)%m := by
    rw [←Nat.mul_mod,two_mul,Nat.pow_add]
  cases bit with
  | false => simpa [step] using hsq
  | true => rw [step,if_pos rfl,hsq,Nat.mod_mul_mod,Bool.toNat_true,Nat.pow_succ]

theorem foldl_step (b m n : Nat) (bs : List Bool) :
    bs.foldl (step b m) (b^n%m)=b^(bs.foldl (fun n bit => 2*n+bit.toNat) n)%m := by
  induction bs generalizing n with
  | nil => rfl
  | cons bit bs ih => rw [List.foldl_cons,List.foldl_cons,step_pow,ih]

theorem powMod_eq (b e m : Nat) : powMod b e m=b^e%m := by
  have hvalue : BitString.value (BitString.digits (e.log2+1) e)=e := by
    have h := BitString.value_slice e (show 0+(e.log2+1)≤e.log2+1 by omega)
    rw [List.drop_zero,List.take_of_length_le (by simp)] at h
    rw [h]
    simpa using Nat.mod_eq_of_lt Nat.lt_log2_self
  have h := foldl_step b m 0 (BitString.digits (e.log2+1) e)
  rw [Nat.pow_zero] at h
  rw [powMod,h]
  exact congrArg (fun n => b^n%m) hvalue

theorem cast_pow_eq_one_iff {m : Nat} (hm : 2 ≤ m) (b e : Nat) :
    (b : ZMod m)^e=1 ↔ powMod b e m=1 := by
  rw [powMod_eq,←Nat.cast_pow,←Nat.cast_one,ZMod.natCast_eq_natCast_iff',
    Nat.one_mod_eq_one.mpr (by omega)]

/-- A number is prime if another has the full order modulo it; the order is full if it divides no
cofactor of a prime factor. -/
theorem prime_of_factors {m b : Nat} (factors : List Nat) (hm : 2 ≤ m)
    (hprime : ∀ q∈factors, q.Prime) (hprod : factors.prod=m-1) (hfull : powMod b (m-1) m=1)
    (hpart : ∀ q∈factors, powMod b ((m-1)/q) m≠1) : m.Prime := by
  refine lucas_primality m (b : ZMod m) ((cast_pow_eq_one_iff hm b _).mpr hfull) ?_
  intro q hq hdvd
  rw [←hprod] at hdvd
  obtain ⟨r,hr,hqr⟩ := (Prime.dvd_prod_iff hq.prime).mp hdvd
  obtain rfl := (Nat.prime_dvd_prime_iff_eq hq (hprime r hr)).mp hqr
  intro hone
  exact hpart q hr ((cast_pow_eq_one_iff hm b _).mp hone)

end PowMod
