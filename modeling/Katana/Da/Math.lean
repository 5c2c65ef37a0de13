import Katana.Base.Butterfly
import Katana.Base.PowMod
import Mathlib.FieldTheory.Finite.Basic

/-! The transform of the data of a blob and its inverse (primitives/src/da/math.rs), on lists of
numbers. An access out of bounds, a subtraction below zero and a remainder by zero panic, which is
none here; so is the inverse of the empty list, which calls itself forever. -/
namespace Katana.Da

def divMod (a b p : Nat) : Option Nat :=
  if p<2 then none else some (a*PowMod.powMod b (p-2) p%p)

def horner (p : Nat) (elements : List Nat) (x : Nat) : Nat :=
  elements.foldr (fun e v => (v*x+e)%p) 0

def fft (elements xs : List Nat) (p : Nat) : Option (List Nat) :=
  if elements.length≤xs.length ∧ (p=0 → elements=[]) then
    some ((xs.take elements.length).map (horner p elements))
  else none

def difference (p a b : Nat) : Option Nat :=
  if a<b then if b-a≤p then some (p-(b-a)) else none else some (a-b)

/-- The halves of a pair of values, and the point of the halves. -/
def butterfly (p a b x : Nat) : Option (Nat × Nat × Nat) := do
  let half0 ← divMod (a+b) 2 p
  let diff ← difference p a b
  let half1 ← divMod diff (2*x) p
  return (half0,half1,PowMod.powMod x 2 p)

def butterflies (p : Nat) : List Nat → List Nat → Option (List (Nat × Nat × Nat))
  | [],_ => some []
  | [_],_ => some []
  | _::_::_,[] => none
  | a::b::arr,x::xs => do
    let r ← butterfly p a b x
    let rs ← butterflies p arr xs.tail
    return r::rs

def merge (n : Nat) (res0 res1 : List Nat) : Option (List Nat) :=
  if n≤res0.length ∧ n≤res1.length then some (Butterfly.interleave (res0.take n) (res1.take n))
  else none

/-- The recursion, which is at most as deep as the list is long. -/
def ifftDepth (p : Nat) : Nat → List Nat → List Nat → Option (List Nat)
  | 0,_,_ => none
  | depth+1,arr,xs =>
    if arr.length=1 then some arr else do
      let rs ← butterflies p arr xs
      let newXs := rs.map (·.2.2)
      let merged0 ← ifftDepth p depth (rs.map (·.1)) newXs
      let merged1 ← ifftDepth p depth (rs.map (·.2.1)) newXs
      merge (arr.length/2) merged0 merged1

def ifft (arr xs : List Nat) (p : Nat) : Option (List Nat) := ifftDepth p arr.length arr xs

section Field
variable {p : Nat}

def toField (p : Nat) (l : List Nat) : List (ZMod p) := l.map (Nat.cast : Nat → ZMod p)

theorem toField_interleave (e o : List Nat) :
    toField p (Butterfly.interleave e o)=Butterfly.interleave (toField p e) (toField p o) := by
  simp [toField,Butterfly.interleave,List.map_flatMap,List.zip_map,List.flatMap_map]

theorem map_val_toField {c : List Nat} (hc : ∀ a∈c, a<p) : (toField p c).map ZMod.val=c := by
  rw [toField,List.map_map]
  exact (List.map_congr_left fun a ha => ZMod.val_cast_of_lt (hc a ha)).trans (List.map_id c)

theorem toField_inj {c d : List Nat} (hc : ∀ a∈c, a<p) (hd : ∀ a∈d, a<p)
    (h : toField p c=toField p d) : c=d := by
  rw [←map_val_toField hc,h,map_val_toField hd]

variable [Fact p.Prime]

theorem horner_cast (elements : List Nat) (x : Nat) :
    (horner p elements x : ZMod p)=Butterfly.evalAt (toField p elements) (x : ZMod p) := by
  induction elements with
  | nil => simp [horner,Butterfly.evalAt,toField]
  | cons e elements ih =>
    simp only [horner,Butterfly.evalAt,toField,List.foldr_cons,List.map_cons,ZMod.natCast_mod,
      Nat.cast_add,Nat.cast_mul] at ih ⊢
    rw [ih]

theorem pos : 0<p := (Fact.out : p.Prime).pos

theorem horner_lt (elements : List Nat) (x : Nat) : horner p elements x<p := by
  cases elements with
  | nil => exact pos
  | cons e elements => exact Nat.mod_lt _ pos

theorem divMod_spec (a : Nat) {b : Nat} (hb : (b : ZMod p)≠0) :
    ∃ d, divMod a b p=some d ∧ (d : ZMod p)=(a : ZMod p)/(b : ZMod p) ∧ d<p := by
  have hp : 2≤p := (Fact.out : p.Prime).two_le
  have hfermat : (b : ZMod p)^(p-2)*(b : ZMod p)=1 := by
    rw [←pow_succ,show p-2+1=p-1 by omega]
    exact ZMod.pow_card_sub_one_eq_one hb
  refine ⟨_,if_neg (Nat.not_lt.mpr hp),?_,Nat.mod_lt _ pos⟩
  rw [PowMod.powMod_eq,ZMod.natCast_mod,Nat.cast_mul,ZMod.natCast_mod,Nat.cast_pow,eq_div_iff hb,
    mul_assoc,hfermat,mul_one]

theorem difference_spec {a b : Nat} (hb : b<p) :
    ∃ d, difference p a b=some d ∧ (d : ZMod p)=(a : ZMod p)-(b : ZMod p) := by
  unfold difference
  by_cases h : a<b
  · refine ⟨p-(b-a),by rw [if_pos h,if_pos (by omega)],?_⟩
    rw [Nat.cast_sub (by omega),Nat.cast_sub h.le,ZMod.natCast_self]
    ring
  · refine ⟨a-b,by rw [if_neg h],?_⟩
    rw [Nat.cast_sub (by omega)]

/-- What the pairs of values give. -/
structure Halved (p : Nat) [Fact p.Prime] (as bs : List Nat) (ys : List (ZMod p))
    (rs : List (Nat × Nat × Nat)) : Prop where
  even : toField p (rs.map (·.1))=
    List.zipWith (fun a b => (a+b)/2) (toField p as) (toField p bs)
  odd : toField p (rs.map (·.2.1))=List.zipWith (fun y d => d/(2*y)) ys
    (List.zipWith (·-·) (toField p as) (toField p bs))
  points : toField p (rs.map (·.2.2))=ys.map (·^2)
  lt : ∀ r∈rs, r.1<p ∧ r.2.1<p

theorem merge_eq {n : Nat} {res0 res1 : List Nat} (h0 : res0.length=n) (h1 : res1.length=n) :
    merge n res0 res1=some (Butterfly.interleave res0 res1) := by
  subst h0
  simp [merge,h1,List.take_of_length_le]

/-- The points of a root modulo p, in the order of the reversed digits of their exponents. -/
def points (k w p : Nat) : List Nat :=
  (List.range (2^k)).map fun i => PowMod.powMod w (BitString.reversed k i) p

theorem points_length (k w p : Nat) : (points k w p).length=2^k := by simp [points]

theorem toField_points (k w : Nat) :
    toField p (points k w p)=Butterfly.points k (w : ZMod p) := by
  simp [toField,points,Butterfly.points,PowMod.powMod_eq,Function.comp_def]

theorem two_ne_zero_of_odd (hodd : Odd p) : (2 : ZMod p)≠0 := by
  intro h
  have hdvd : p∣2 := (ZMod.natCast_eq_zero_iff 2 p).mp (by simpa using h)
  obtain ⟨m,hm⟩ := hodd
  have hle := Nat.le_of_dvd (by decide) hdvd
  have htwo := (Fact.out : p.Prime).two_le
  omega

theorem fft_spec {elements xs : List Nat} (h : xs.length=elements.length) :
    ∃ v, fft elements xs p=some v ∧ v.length=elements.length ∧ (∀ a∈v, a<p) ∧
      toField p v=(toField p xs).map (Butterfly.evalAt (toField p elements)) := by
  refine ⟨xs.map (horner p elements),?_,by simp [h],?_,?_⟩
  · rw [fft,if_pos ⟨h.ge,fun hp => absurd hp pos.ne'⟩,←h,List.take_length]
  · exact List.forall_mem_map.mpr fun x _ => horner_lt elements x
  · rw [toField,toField.eq_1 p xs,List.map_map,List.map_map]
    exact List.map_congr_left fun x _ => horner_cast elements x

variable (htwo : (2 : ZMod p)≠0)
include htwo

theorem butterfly_spec {a b x : Nat} (hb : b<p) (hx : (x : ZMod p)≠0) :
    ∃ r, butterfly p a b x=some r ∧ (r.1 : ZMod p)=((a : ZMod p)+b)/2 ∧
      (r.2.1 : ZMod p)=((a : ZMod p)-b)/(2*x) ∧ (r.2.2 : ZMod p)=(x : ZMod p)^2 ∧ r.1<p ∧ r.2.1<p := by
  obtain ⟨d,hd,hcast⟩ := difference_spec (a:=a) hb
  have htwo' : ((2 : Nat) : ZMod p)≠0 := by simpa using htwo
  have htx : ((2*x : Nat) : ZMod p)≠0 := by
    rw [Nat.cast_mul]
    exact mul_ne_zero htwo' hx
  obtain ⟨half0,h0,hcast0,hlt0⟩ := divMod_spec (a+b) htwo'
  obtain ⟨half1,h1,hcast1,hlt1⟩ := divMod_spec d htx
  refine ⟨(half0,half1,PowMod.powMod x 2 p),by simp [butterfly,h0,hd,h1],?_,?_,?_,hlt0,hlt1⟩
  · simpa using hcast0
  · simpa [hcast] using hcast1
  · simp [PowMod.powMod_eq]

theorem butterflies_spec {as bs xs : List Nat} {ys : List (ZMod p)}
    (ha : as.length=ys.length) (hb : bs.length=ys.length) (hlt : ∀ b∈bs, b<p)
    (hxs : toField p xs=Butterfly.signed ys) (hne : ∀ y∈ys, y≠0) :
    ∃ rs, butterflies p (Butterfly.interleave as bs) xs=some rs ∧ Halved p as bs ys rs := by
  induction ys generalizing as bs xs with
  | nil =>
    obtain rfl := List.length_eq_zero_iff.mp ha
    obtain rfl := List.length_eq_zero_iff.mp hb
    exact ⟨[],by simp [butterflies,Butterfly.interleave],rfl,rfl,rfl,by simp⟩
  | cons y ys ih =>
    obtain ⟨a,as,rfl⟩ := List.exists_cons_of_length_pos (l:=as) (by simp at ha; omega)
    obtain ⟨b,bs,rfl⟩ := List.exists_cons_of_length_pos (l:=bs) (by simp at hb; omega)
    have hlen := congrArg List.length hxs
    simp only [toField,List.length_map,Butterfly.signed,List.flatMap_cons,List.length_append,
      List.length_cons,List.length_nil] at hlen
    obtain ⟨x,xs,rfl⟩ := List.exists_cons_of_length_pos (l:=xs) (by omega)
    obtain ⟨x',xs,rfl⟩ := List.exists_cons_of_length_pos (l:=xs) (by simp at hlen; omega)
    simp only [toField,List.map_cons,Butterfly.signed,List.flatMap_cons,List.cons_append,
      List.nil_append,List.cons.injEq] at hxs
    obtain ⟨hx,-,hxs⟩ := hxs
    obtain ⟨rs,hrs,hh⟩ := ih (by simpa using ha) (by simpa using hb)
      (fun c hc => hlt c (by simp [hc])) hxs (fun z hz => hne z (by simp [hz]))
    have hx0 : (x : ZMod p)≠0 := by
      rw [hx]
      exact hne y (by simp)
    obtain ⟨r,hr,heven,hodd,hpoint,hlt0,hlt1⟩ := butterfly_spec (a:=a) htwo (hlt b (by simp)) hx0
    refine ⟨r::rs,?_,?_,?_,?_,?_⟩
    · simp [Butterfly.interleave_cons,butterflies,hr,hrs]
    · simpa [toField,heven] using hh.even
    · simpa [toField,hodd,hx] using hh.odd
    · simpa [toField,hpoint,hx] using hh.points
    · intro s hs
      rcases List.mem_cons.mp hs with rfl | hs
      · exact ⟨hlt0,hlt1⟩
      · exact hh.lt s hs

theorem ifftDepth_spec {k depth : Nat} (hdepth : k<depth)
    {arr xs : List Nat} (hlen : arr.length=2^k) (hlt : ∀ a∈arr, a<p)
    (hxs : Butterfly.Paired k (toField p xs)) :
    ∃ c, ifftDepth p depth arr xs=some c ∧ c.length=2^k ∧ (∀ a∈c, a<p) ∧
      (toField p xs).map (Butterfly.evalAt (toField p c))=toField p arr := by
  induction k generalizing depth arr xs with
  | zero =>
    obtain ⟨depth,rfl⟩ : ∃ d, depth=d+1 := ⟨depth-1,by omega⟩
    obtain ⟨a,rfl⟩ := List.length_eq_one_iff.mp hlen
    obtain ⟨x,hx⟩ := List.length_eq_one_iff.mp hxs
    refine ⟨[a],by simp [ifftDepth],rfl,hlt,?_⟩
    rw [hx]
    simp [toField,Butterfly.evalAt]
  | succ k ih =>
    obtain ⟨depth,rfl⟩ : ∃ d, depth=d+1 := ⟨depth-1,by omega⟩
    obtain ⟨ys,hys,hne,hsq⟩ := hxs
    have hlys : ys.length=2^k := by simpa using hsq.length
    obtain ⟨as,bs,ha,hb,rfl⟩ :=
      Butterfly.exists_interleave (2^k) arr (by rw [hlen,Nat.pow_succ,Nat.mul_comm])
    have hltb (b : Nat) (h : b∈bs) : b<p :=
      hlt b (Butterfly.mem_interleave_right (ha.trans hb.symm) h)
    obtain ⟨rs,hrs,hh⟩ :=
      butterflies_spec htwo (ha.trans hlys.symm) (hb.trans hlys.symm) hltb hys hne
    have hlrs : rs.length=2^k := by
      have h := congrArg List.length hh.points
      simpa [toField,hlys] using h
    rw [←hh.points] at hsq
    have hlt0 : ∀ a∈rs.map (·.1), a<p := List.forall_mem_map.mpr fun r hr => (hh.lt r hr).1
    have hlt1 : ∀ a∈rs.map (·.2.1), a<p := List.forall_mem_map.mpr fun r hr => (hh.lt r hr).2
    obtain ⟨c0,hc0,hl0,hlt0,he0⟩ := ih (Nat.lt_of_succ_lt_succ hdepth) (by simpa using hlrs) hlt0 hsq
    obtain ⟨c1,hc1,hl1,hlt1,he1⟩ := ih (Nat.lt_of_succ_lt_succ hdepth) (by simpa using hlrs) hlt1 hsq
    have hhalf : (Butterfly.interleave as bs).length/2=2^k := by
      rw [hlen,Nat.pow_succ]
      omega
    have hne1 : (Butterfly.interleave as bs).length≠1 := by
      have hpos := Nat.two_pow_pos k
      rw [hlen,Nat.pow_succ]
      omega
    refine ⟨Butterfly.interleave c0 c1,?_,?_,?_,?_⟩
    · rw [ifftDepth,if_neg hne1,hrs]
      simp [hc0,hc1,hhalf,merge_eq hl0 hl1]
    · rw [Butterfly.interleave_length,hl0,hl1,Nat.min_self,Nat.pow_succ,Nat.mul_comm]
    · intro a h
      exact (Butterfly.mem_interleave h).elim (hlt0 a) (hlt1 a)
    · rw [hys,toField_interleave,toField_interleave]
      refine Butterfly.eval_of_halves htwo hne (by simp [toField,hl0,hl1])
        (by simp [toField,ha,hlys]) (by simp [toField,hb,hlys]) ?_ ?_
      · rw [←hh.even,←he0,hh.points,List.map_map]
        rfl
      · rw [←hh.odd,←he1,hh.points,List.map_map]
        rfl

theorem coefficients_unique {k : Nat} {xs c d : List Nat}
    (hxs : Butterfly.Paired k (toField p xs)) (hc : c.length=2^k) (hd : d.length=2^k)
    (hltc : ∀ a∈c, a<p) (hltd : ∀ a∈d, a<p)
    (h : (toField p xs).map (Butterfly.evalAt (toField p c))=
      (toField p xs).map (Butterfly.evalAt (toField p d))) : c=d :=
  toField_inj hltc hltd
    (hxs.eval_injective htwo (by simpa [toField] using hc) (by simpa [toField] using hd) h)

variable {k : Nat} {d xs : List Nat} (hlen : d.length=2^k) (hlt : ∀ a∈d, a<p)
include hlen hlt

theorem ifft_spec (hxs : Butterfly.Paired k (toField p xs)) :
    ∃ c, ifft d xs p=some c ∧ c.length=2^k ∧ (∀ a∈c, a<p) ∧
      (toField p xs).map (Butterfly.evalAt (toField p c))=toField p d :=
  ifftDepth_spec htwo (by rw [hlen]; exact Nat.lt_two_pow_self) hlen hlt hxs

theorem fft_ifft (hl : xs.length=2^k) (hxs : Butterfly.Paired k (toField p xs)) :
    ∃ c, ifft d xs p=some c ∧ c.length=2^k ∧ (∀ a∈c, a<p) ∧ fft c xs p=some d := by
  obtain ⟨c,hc,hlc,hltc,hvalues⟩ := ifft_spec htwo hlen hlt hxs
  obtain ⟨v,hv,-,hltv,hback⟩ := fft_spec (p:=p) (hl.trans hlc.symm)
  refine ⟨c,hc,hlc,hltc,?_⟩
  rw [hv,toField_inj hltv hlt (hback.trans hvalues)]

theorem ifft_fft (hl : xs.length=2^k) (hxs : Butterfly.Paired k (toField p xs)) :
    ∃ v, fft d xs p=some v ∧ v.length=2^k ∧ (∀ a∈v, a<p) ∧ ifft v xs p=some d := by
  obtain ⟨v,hv,hlv,hltv,hvalues⟩ := fft_spec (p:=p) (hl.trans hlen.symm)
  rw [hlen] at hlv
  obtain ⟨c,hc,hlc,hltc,hback⟩ := ifft_spec htwo hlv hltv hxs
  refine ⟨v,hv,hlv,hltv,?_⟩
  rw [hc,coefficients_unique htwo hxs hlc hlen hltc hlt (hback.trans hvalues)]

end Field
end Katana.Da
