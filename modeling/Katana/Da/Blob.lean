import Katana.Da.Math
import Mathlib.Tactic.NormNum.Prime

/-! The blobs of the data availability (primitives/src/da/blob.rs, eip4844.rs). -/
namespace Katana.Da

def blobLen : Nat := 4096

def blsModulus : Nat :=
  52435875175126190479447740508185965837690552500527637822603658699938581184513

def generator : Nat :=
  39033254847818212395286706435128746857159659164139250548781411570340225835782

/-- The twelve binary digits of an index, read from the right. -/
def evaluationPoints : List Nat :=
  (List.range blobLen).map fun i => PowMod.powMod generator (BitString.reversed 12 i) blsModulus

def recover (data : List Nat) : Option (List Nat) := ifft data evaluationPoints blsModulus

def transform (data : List Nat) : Option (List Nat) := fft data evaluationPoints blsModulus

/-- The odd prime factors of the predecessor of the modulus. -/
def oddFactors : List Nat :=
  [3,11,19,10177,125527,859267,906349,906349,2508409,2529403,52437899,254760293,254760293]

theorem oddFactors_prime : ∀ q∈oddFactors, q.Prime := by
  simp only [oddFactors,List.forall_mem_cons]
  norm_num

theorem blsModulus_prime : blsModulus.Prime := by
  refine PowMod.prime_of_factors (b:=7) (List.replicate 32 2++oddFactors) (by decide) ?_
    (by decide +kernel) (by decide +kernel) (by decide +kernel)
  intro q hq
  rcases List.mem_append.mp hq with h | h
  · rw [List.eq_of_mem_replicate h]
    exact Nat.prime_two
  · exact oddFactors_prime q h

instance : Fact blsModulus.Prime := ⟨blsModulus_prime⟩

theorem generator_primitive : IsPrimitiveRoot (generator : ZMod blsModulus) (2^12) := by
  have hfull : (generator : ZMod blsModulus)^2^(11+1)=1 :=
    (PowMod.cast_pow_eq_one_iff (by decide) _ _).mpr (by decide +kernel)
  have hhalf : ¬(generator : ZMod blsModulus)^2^11=1 := fun h =>
    absurd ((PowMod.cast_pow_eq_one_iff (by decide) _ _).mp h) (by decide +kernel)
  exact IsPrimitiveRoot.iff_orderOf.mpr (orderOf_eq_prime_pow hhalf hfull)

theorem evaluationPoints_length : evaluationPoints.length=2^12 := by
  rw [evaluationPoints,List.length_map,List.length_range]
  rfl

theorem evaluationPoints_paired :
    Butterfly.Paired 12 (toField blsModulus evaluationPoints) := by
  have h : evaluationPoints=points 12 generator blsModulus := rfl
  rw [h,toField_points]
  exact Butterfly.paired_points generator_primitive

/-- A blob is the transform of what it recovers to and recovers from its own transform; the
transform evaluates a polynomial at the powers of a root of unity and its inverse is the
interpolation there, for every size, modulus and root. -/
theorem blob_transforms :
    (∀ d : List Nat, d.length=blobLen → (∀ a∈d, a<blsModulus) →
      (∃ c, recover d=some c ∧ c.length=blobLen ∧ (∀ a∈c, a<blsModulus) ∧ transform c=some d) ∧
      ∃ v, transform d=some v ∧ v.length=blobLen ∧ (∀ a∈v, a<blsModulus) ∧ recover v=some d) ∧
    ∀ (k p w : Nat) [Fact p.Prime], Odd p → IsPrimitiveRoot (w : ZMod p) (2^k) →
      (∀ c : List Nat, c.length=2^k → ∃ v, fft c (points k w p) p=some v ∧ v.length=2^k ∧
        (∀ a∈v, a<p) ∧ toField p v=
          (toField p (points k w p)).map fun x => (Butterfly.poly (toField p c)).eval x) ∧
      ∀ v : List Nat, v.length=2^k → (∀ a∈v, a<p) →
        ∃ c, ifft v (points k w p) p=some c ∧ c.length=2^k ∧ (∀ a∈c, a<p) ∧
          ((toField p (points k w p)).map fun x => (Butterfly.poly (toField p c)).eval x)=
            toField p v ∧
          ∀ d : List Nat, d.length=2^k → (∀ a∈d, a<p) →
            ((toField p (points k w p)).map fun x => (Butterfly.poly (toField p d)).eval x)=
              toField p v → d=c := by
  simp only [Butterfly.poly_eval]
  constructor
  · intro d hlen hlt
    have htwo : (2 : ZMod blsModulus)≠0 := two_ne_zero_of_odd (by decide +kernel)
    exact ⟨fft_ifft htwo hlen hlt evaluationPoints_length evaluationPoints_paired,
      ifft_fft htwo hlen hlt evaluationPoints_length evaluationPoints_paired⟩
  · intro k p w hp hodd hw
    have hpaired : Butterfly.Paired k (toField p (points k w p)) := by
      rw [toField_points]
      exact Butterfly.paired_points hw
    constructor
    · intro c hlen
      have h := fft_spec (p:=p) ((points_length k w p).trans hlen.symm)
      rwa [hlen] at h
    · intro v hlen hlt
      obtain ⟨c,hc,hlc,hltc,hvalues⟩ := ifft_spec (two_ne_zero_of_odd hodd) hlen hlt hpaired
      refine ⟨c,hc,hlc,hltc,hvalues,?_⟩
      intro d hld hltd hd
      exact coefficients_unique (two_ne_zero_of_odd hodd) hpaired hld hlc hltd hltc
        (hd.trans hvalues.symm)

theorem interpolation_mod_seventeen :
    IsPrimitiveRoot ((4 : Nat) : ZMod 17) (2^2) ∧ points 2 4 17=[1,16,4,13] ∧
    ifft [10,15,7,6] (points 2 4 17) 17=some [1,2,3,4] ∧
    ∃ c, ifft [10,15,7,6] (points 2 4 17) 17=some c ∧ c.length=2^2 ∧ ∀ a∈c, a<17 := by
  have hroot : IsPrimitiveRoot ((4 : Nat) : ZMod 17) (2^2) :=
    IsPrimitiveRoot.iff_orderOf.mpr (orderOf_eq_prime_pow (n:=1) (by decide) (by decide))
  have hprime : Fact (Nat.Prime 17) := ⟨by norm_num⟩
  obtain ⟨c,hc,hlen,hlt,-⟩ := (blob_transforms.2 2 17 4 (by decide) hroot).2
    [10,15,7,6] rfl (by decide)
  exact ⟨hroot,by decide +kernel,by decide +kernel,c,hc,hlen,hlt⟩

end Katana.Da
