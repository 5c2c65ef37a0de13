import Katana.Base.BitString
import Mathlib.Algebra.Polynomial.Coeff
import Mathlib.Algebra.Polynomial.Eval.Defs
import Mathlib.Algebra.Polynomial.Eval.Degree
import Mathlib.RingTheory.RootsOfUnity.PrimitiveRoots
import Mathlib.Tactic.FieldSimp
import Mathlib.Tactic.LinearCombination

/-! Polynomials by their values at points that come in pairs of opposite signs, such that the
squares of one of each pair come in such pairs again. The values at a pair give those of the
even and of the odd part at the square, and the other way round. -/
namespace Butterfly
open BitString
variable {F α : Type*} [Field F] {e o : List F} {k : Nat}

/-- The value of the polynomial with these coefficients, the constant one first. -/
def evalAt (c : List F) (x : F) : F := c.foldr (fun a v => v*x+a) 0

noncomputable def poly (c : List F) : Polynomial F :=
  c.foldr (fun a q => q*Polynomial.X+Polynomial.C a) 0

theorem poly_coeff (c : List F) (n : Nat) : (poly c).coeff n=c.getD n 0 := by
  induction c generalizing n with
  | nil => simp [poly]
  | cons a c ih =>
    cases n with
    | zero => simp [poly]
    | succ n => simpa [poly,Polynomial.coeff_C_succ] using ih n

theorem poly_eval (c : List F) (x : F) : (poly c).eval x=evalAt c x := by
  induction c with
  | nil => simp [poly,evalAt]
  | cons a c ih => simpa [poly,evalAt] using congrArg (fun v => v*x+a) ih

/-- The coefficients of the even and of the odd powers in turn. -/
def interleave {α : Type*} (e o : List α) : List α := (e.zip o).flatMap fun r => [r.1,r.2]

theorem interleave_cons (a b : α) (e o : List α) :
    interleave (a::e) (b::o)=a::b::interleave e o := rfl

theorem interleave_length (e o : List α) : (interleave e o).length=2*min e.length o.length := by
  simp [interleave,Nat.mul_comm]

theorem mem_interleave {e o : List α} {x : α} (h : x∈interleave e o) : x∈e ∨ x∈o := by
  obtain ⟨r,hr,hx⟩ := List.mem_flatMap.mp h
  have hmem := List.of_mem_zip hr
  simp only [List.mem_cons,List.not_mem_nil,or_false] at hx
  obtain rfl | rfl := hx
  · exact .inl hmem.1
  · exact .inr hmem.2

theorem mem_interleave_right {e o : List α} {x : α} (h : e.length=o.length) (hx : x∈o) :
    x∈interleave e o := by
  induction e generalizing o with
  | nil =>
    obtain rfl := List.length_eq_zero_iff.mp h.symm
    cases hx
  | cons a e ih =>
    obtain ⟨b,o,rfl⟩ := List.exists_cons_of_length_pos (l:=o) (by simp at h; omega)
    rw [interleave_cons]
    rcases List.mem_cons.mp hx with rfl | hx
    · simp
    · exact List.mem_cons_of_mem a (List.mem_cons_of_mem b (ih (by simpa using h) hx))

theorem exists_interleave (n : Nat) (c : List α) (h : c.length=2*n) :
    ∃ e o, e.length=n ∧ o.length=n ∧ c=interleave e o := by
  induction n generalizing c with
  | zero => exact ⟨[],[],rfl,rfl,List.length_eq_zero_iff.mp h⟩
  | succ n ih =>
    obtain ⟨a,c,rfl⟩ := List.exists_cons_of_length_pos (l:=c) (by omega)
    obtain ⟨b,c,rfl⟩ := List.exists_cons_of_length_pos (l:=c) (by simp at h; omega)
    obtain ⟨e,o,he,ho,rfl⟩ := ih c (by simp at h; omega)
    exact ⟨a::e,b::o,by simp [he],by simp [ho],rfl⟩

theorem evalAt_interleave (h : e.length=o.length) (x : F) :
    evalAt (interleave e o) x=evalAt e (x^2)+x*evalAt o (x^2) := by
  induction e generalizing o with
  | nil =>
    obtain rfl := List.length_eq_zero_iff.mp h.symm
    simp [interleave,evalAt]
  | cons a e ih =>
    obtain ⟨b,o,rfl⟩ := List.exists_cons_of_length_pos (l:=o) (by simp at h; omega)
    have hi := ih (o:=o) (by simpa using h)
    simp only [evalAt] at hi
    simp only [interleave_cons,evalAt,List.foldr_cons,hi]
    ring

def signed (ys : List F) : List F := ys.flatMap fun y => [y,-y]

def Paired : Nat → List F → Prop
  | 0,xs => xs.length=1
  | k+1,xs => ∃ ys, xs=signed ys ∧ (∀ y∈ys, y≠0) ∧ Paired k (ys.map (·^2))

theorem Paired.length {xs : List F} (h : Paired k xs) : xs.length=2^k := by
  induction k generalizing xs with
  | zero => exact h
  | succ k ih =>
    obtain ⟨ys,rfl,-,hsq⟩ := h
    have hl := ih hsq
    rw [List.length_map] at hl
    rw [signed,List.length_flatMap,Nat.pow_succ]
    simp [hl,Nat.mul_comm]

theorem signed_map_interleave (h : e.length=o.length) (ys : List F) :
    (signed ys).map (evalAt (interleave e o))=
      ys.flatMap fun y => [evalAt e (y^2)+y*evalAt o (y^2),evalAt e (y^2)-y*evalAt o (y^2)] := by
  induction ys with
  | nil => rfl
  | cons y ys ih =>
    simp only [signed,List.flatMap_cons,List.map_append] at ih ⊢
    rw [ih]
    simp [evalAt_interleave h,sub_eq_add_neg]

theorem eq_of_flatMap_eq {β : Type*} {f g f' g' : α → β} {l : List α}
    (h : (l.flatMap fun x => [f x,g x])=l.flatMap fun x => [f' x,g' x]) :
    ∀ x∈l, f x=f' x ∧ g x=g' x := by
  induction l with
  | nil => simp
  | cons x l ih =>
    simp only [List.flatMap_cons,List.cons_append,List.nil_append,List.cons.injEq] at h
    obtain ⟨hf,hg,h⟩ := h
    intro y hy
    rcases List.mem_cons.mp hy with rfl | hy
    · exact ⟨hf,hg⟩
    · exact ih h y hy

theorem Paired.eval_injective (htwo : (2 : F)≠0) {xs : List F} (h : Paired k xs) {c d : List F}
    (hc : c.length=2^k) (hd : d.length=2^k) (he : xs.map (evalAt c)=xs.map (evalAt d)) : c=d := by
  induction k generalizing xs c d with
  | zero =>
    obtain ⟨x,rfl⟩ := List.length_eq_one_iff.mp h
    obtain ⟨a,rfl⟩ := List.length_eq_one_iff.mp hc
    obtain ⟨b,rfl⟩ := List.length_eq_one_iff.mp hd
    simpa [evalAt] using he
  | succ k ih =>
    obtain ⟨ys,rfl,hne,hsq⟩ := h
    obtain ⟨e,o,hle,hlo,rfl⟩ := exists_interleave (2^k) c (by rw [hc,Nat.pow_succ,Nat.mul_comm])
    obtain ⟨e',o',hle',hlo',rfl⟩ :=
      exists_interleave (2^k) d (by rw [hd,Nat.pow_succ,Nat.mul_comm])
    rw [signed_map_interleave (hle.trans hlo.symm),
      signed_map_interleave (hle'.trans hlo'.symm)] at he
    have hpair : ∀ y∈ys, evalAt e (y^2)=evalAt e' (y^2) ∧ evalAt o (y^2)=evalAt o' (y^2) := by
      intro y hy
      obtain ⟨hplus,hminus⟩ := eq_of_flatMap_eq he y hy
      have hy0 := hne y hy
      constructor
      · apply mul_left_cancel₀ htwo
        linear_combination hplus+hminus
      · apply mul_left_cancel₀ (mul_ne_zero htwo hy0)
        linear_combination hplus-hminus
    have heven : e=e' := by
      refine ih hsq hle hle' ?_
      simpa using fun y hy => (hpair y hy).1
    have hodd : o=o' := by
      refine ih hsq hlo hlo' ?_
      simpa using fun y hy => (hpair y hy).2
    rw [heven,hodd]

theorem eval_of_halves (htwo : (2 : F)≠0) {ys as bs : List F} (hne : ∀ y∈ys, y≠0)
    (h : e.length=o.length) (ha : as.length=ys.length) (hb : bs.length=ys.length)
    (he : ys.map (fun y => evalAt e (y^2))=List.zipWith (fun a b => (a+b)/2) as bs)
    (ho : ys.map (fun y => evalAt o (y^2))=
      List.zipWith (fun y d => d/(2*y)) ys (List.zipWith (·-·) as bs)) :
    (signed ys).map (evalAt (interleave e o))=interleave as bs := by
  rw [signed_map_interleave h]
  induction ys generalizing as bs with
  | nil =>
    obtain rfl := List.length_eq_zero_iff.mp ha
    rfl
  | cons y ys ih =>
    obtain ⟨a,as,rfl⟩ := List.exists_cons_of_length_pos (l:=as) (by simp at ha; omega)
    obtain ⟨b,bs,rfl⟩ := List.exists_cons_of_length_pos (l:=bs) (by simp at hb; omega)
    simp only [List.map_cons,List.zipWith_cons_cons,List.cons.injEq] at he ho
    have hy : y≠0 := hne y (by simp)
    rw [List.flatMap_cons,ih (fun z hz => hne z (by simp [hz])) (by simpa using ha)
      (by simpa using hb) he.2 ho.2,interleave_cons,he.1,ho.1]
    simp only [List.cons_append,List.nil_append,List.cons.injEq,and_true]
    constructor
    · field_simp
      ring
    · field_simp
      ring

section Roots

/-- The powers of a root in the order of the reversed digits of their exponents. -/
def points (k : Nat) (w : F) : List F :=
  (List.range (2^k)).map fun i => w^reversed k i

theorem range_two_mul (n : Nat) :
    List.range (2*n)=(List.range n).flatMap fun i => [2*i,2*i+1] := by
  induction n with
  | zero => rfl
  | succ n ih =>
    rw [Nat.mul_succ,List.range_succ,List.range_succ,List.range_succ,ih,List.flatMap_append]
    simp

theorem points_succ {w : F} (h : w^2^k=-1) :
    points (k+1) w=signed ((List.range (2^k)).map fun i => w^reversed k i) := by
  have heven (i : Nat) : reversed (k+1) (2*i)=reversed k i := by
    simpa using reversed_succ k i false
  have hodd (i : Nat) : reversed (k+1) (2*i+1)=2^k+reversed k i := by
    simpa using reversed_succ k i true
  rw [points,Nat.pow_succ,Nat.mul_comm,range_two_mul,List.map_flatMap,signed,List.flatMap_map]
  congr 1
  funext i
  simp [heven,hodd,pow_add,h]

theorem paired_points {w : F} (hw : IsPrimitiveRoot w (2^k)) : Paired k (points k w) := by
  induction k generalizing w with
  | zero => simp [Paired,points]
  | succ k ih =>
    have hhalf : w^2^k=-1 :=
      (hw.pow (by positivity) (Nat.pow_succ 2 k)).eq_neg_one_of_two_right
    have hsq : IsPrimitiveRoot (w^2) (2^k) :=
      hw.pow (by positivity) (by rw [Nat.pow_succ,Nat.mul_comm])
    have hw0 : w≠0 := hw.ne_zero (by positivity)
    refine ⟨_,points_succ hhalf,?_,?_⟩
    · intro y hy
      obtain ⟨i,-,rfl⟩ := List.mem_map.mp hy
      exact pow_ne_zero _ hw0
    · have hmap : ((List.range (2^k)).map fun i => w^reversed k i).map (·^2)=
          points k (w^2) := by
        simp only [points,List.map_map]
        congr 1
        funext i
        simp only [Function.comp_apply]
        rw [←pow_mul,←pow_mul,Nat.mul_comm]
      rw [hmap]
      exact ih hsq

end Roots
end Butterfly
