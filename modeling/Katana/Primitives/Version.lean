import Katana.Base.Interrupted
import Katana.Primitives.Transaction
import Mathlib.Data.List.Forall2

/-! The version of the protocol as it is printed and parsed (primitives/src/version.rs). -/
namespace Katana
open Primitives

def currentStarknetVersion : List Nat := [0,13,1,1]

/-- The last segment is not printed if it is zero. -/
def versionString (segments : List Nat) : String :=
  String.join (segments.zipIdx.map (fun r =>
    if r.2+1=segments.length then if r.1=0 then "" else "."++toString r.1
    else if r.2=0 then toString r.1
    else "."++toString r.1))

inductive ParseVersionError where
  | invalidFormat
  | parseSegment
  deriving DecidableEq, Repr

def parseDigit (n : Nat) (b : Byte) : Except ParseVersionError Nat :=
  if 48≤b.val ∧ b.val<58 ∧ n*10+(b.val-48)<256 then .ok (n*10+(b.val-48)) else .error .parseSegment

def stripPlus (s : Bytes) : Bytes := if s.head?=some 43 then s.tail else s

/-- A number of one byte in decimal digits; a plus sign may precede them. -/
def parseU8 (s : Bytes) : Except ParseVersionError Nat :=
  if stripPlus s=[] then .error .parseSegment else (stripPlus s).foldlM parseDigit 0

def parseSegment (s : Bytes) : Except ParseVersionError Nat :=
  if s=[] then .ok 0 else parseU8 s

/-- Segments that are empty or missing are zero. -/
def parseVersion (s : Bytes) : Except ParseVersionError (List Nat) :=
  if s=[] then .error .invalidFormat
  else if 4<(s.splitOn 46).length then .error .invalidFormat
  else do
    let segments ← (s.splitOn 46).mapM parseSegment
    return segments++List.replicate (4-segments.length) 0

def decimal (n : Nat) : Bytes := ascii (Nat.toDigits 10 n)

theorem digitChar_toNat : ∀ d : Fin 10, (Nat.digitChar d).toNat=48+d.val := by decide

variable {n : Nat} {segments : List Nat}

theorem decimal_of_lt (h : n<10) : decimal n=[Fin.ofNat 256 (48+n)] := by
  simp [decimal,ascii,Nat.toDigits_of_lt_base h,digitChar_toNat ⟨n,h⟩]

theorem decimal_of_le (h : 10≤n) : decimal n=decimal (n/10)++[Fin.ofNat 256 (48+n%10)] := by
  simp [decimal,ascii,Nat.toDigits_of_base_le (by decide) h,
    digitChar_toNat ⟨n%10,Nat.mod_lt n (by decide)⟩]

theorem decimal_digits (n : Nat) : ∀ b∈decimal n, 48≤b.val ∧ b.val<58 := by
  induction n using Nat.strongRecOn with
  | ind n ih =>
    intro b hb
    by_cases h : n<10
    · rw [decimal_of_lt h,List.mem_singleton] at hb
      subst hb
      simp only [Fin.val_ofNat]
      omega
    · rw [decimal_of_le (Nat.not_lt.mp h),List.mem_append,List.mem_singleton] at hb
      rcases hb with hb | rfl
      · exact ih (n/10) (by omega) b hb
      · simp only [Fin.val_ofNat]
        omega

theorem decimal_ne_nil (n : Nat) : decimal n≠[] := by
  by_cases h : n<10
  · simp [decimal_of_lt h]
  · simp [decimal_of_le (Nat.not_lt.mp h)]

theorem parseDigit_eq {d : Nat} (hd : d<10) (h : n*10+d<256) :
    parseDigit n (Fin.ofNat 256 (48+d))=.ok (n*10+d) := by
  have hv : (48+d)%256=48+d := Nat.mod_eq_of_lt (by omega)
  have hsub : 48+d-48=d := by omega
  have hlt : 48+d<58 := by omega
  simp [parseDigit,hv,hsub,hlt,h]

theorem foldlM_decimal (h : n<256) : (decimal n).foldlM parseDigit 0=.ok n := by
  induction n using Nat.strongRecOn with
  | ind n ih =>
    by_cases hn : n<10
    · have hp := parseDigit_eq hn (n:=0) (by omega)
      rw [decimal_of_lt hn,List.foldlM_cons,hp,Nat.zero_mul,Nat.zero_add]
      rfl
    · have hp := parseDigit_eq (n:=n/10) (Nat.mod_lt n (by decide : 10>0)) (by omega)
      have hdiv : n/10*10+n%10=n := by omega
      rw [hdiv] at hp
      rw [decimal_of_le (Nat.not_lt.mp hn),List.foldlM_append,ih (n/10) (by omega) (by omega)]
      show (List.foldlM parseDigit (n/10) [Fin.ofNat 256 (48+n%10)])=_
      rw [List.foldlM_cons,hp]
      rfl

theorem dot_not_mem_decimal (n : Nat) : 46∉decimal n :=
  fun hm => absurd (decimal_digits n 46 hm).1 (by decide)

theorem parseU8_decimal (h : n<256) : parseU8 (decimal n)=.ok n := by
  have hplus : (decimal n).head?≠some 43 := by
    intro hh
    exact absurd (decimal_digits n 43 (List.mem_of_mem_head? hh)).1 (by decide)
  simp [parseU8,stripPlus,hplus,decimal_ne_nil,foldlM_decimal h]

theorem mapM_parseSegment (hlt : ∀ n∈segments, n<256) :
    (segments.map decimal).mapM parseSegment=.ok segments := by
  induction segments with
  | nil => rfl
  | cons n ns ih =>
    have hn : parseSegment (decimal n)=.ok n := by
      rw [parseSegment,if_neg (decimal_ne_nil n),parseU8_decimal (hlt n (by simp))]
    rw [List.map_cons,List.mapM_cons,hn,ih (fun m hm => hlt m (List.mem_cons_of_mem n hm))]
    rfl

theorem parseVersion_intercalate (hne : segments≠[]) (hlen : segments.length≤4)
    (hlt : ∀ n∈segments, n<256) :
    parseVersion ([46].intercalate (segments.map decimal))=
      .ok (segments++List.replicate (4-segments.length) 0) := by
  have hsplit : ([46].intercalate (segments.map decimal)).splitOn 46=segments.map decimal := by
    apply List.splitOn_intercalate
    · intro l hl
      obtain ⟨n,-,rfl⟩ := List.mem_map.mp hl
      exact dot_not_mem_decimal n
    · simpa using hne
  have hnil : [46].intercalate (segments.map decimal)≠[] := by
    obtain ⟨n,ns,rfl⟩ := List.exists_cons_of_ne_nil hne
    have hn := decimal_ne_nil n
    cases ns with
    | nil => simpa using hn
    | cons m ns => simp [hn]
  have hparsed : (segments.map decimal).mapM parseSegment=.ok segments :=
    mapM_parseSegment hlt
  simp only [parseVersion,hnil,if_false,hsplit,List.length_map,Nat.not_lt.mpr hlen,hparsed]
  rfl

theorem foldlM_parseDigit_lt {digits : Bytes} {m : Nat} (hn : n<256)
    (h : digits.foldlM parseDigit n=.ok m) : m<256 := by
  induction digits generalizing n with
  | nil =>
    obtain rfl : n=m := by simpa [pure,Except.pure] using h
    exact hn
  | cons b digits ih =>
    rw [List.foldlM_cons] at h
    by_cases hb : 48≤b.val ∧ b.val<58 ∧ n*10+(b.val-48)<256
    · rw [parseDigit,if_pos hb] at h
      exact ih hb.2.2 h
    · rw [parseDigit,if_neg hb] at h
      cases h

theorem parseSegment_lt {s : Bytes} (h : parseSegment s=.ok n) : n<256 := by
  unfold parseSegment parseU8 at h
  split at h
  · cases h
    decide
  · split at h
    · cases h
    · exact foldlM_parseDigit_lt (by decide) h

theorem parsed_lt {segs : List Bytes} {parsed : List Nat}
    (h : List.Forall₂ (fun s n => parseSegment s=.ok n) segs parsed) : ∀ n∈parsed, n<256 := by
  induction h with
  | nil => simp
  | cons hn _ ih =>
    intro n hm
    rcases List.mem_cons.mp hm with rfl | hm
    · exact parseSegment_lt hn
    · exact ih n hm

abbrev ProtocolVersion := {segments : List Nat // segments.length=4 ∧ ∀ s∈segments, s<256}

theorem parseVersion_valid {s : Bytes} (h : parseVersion s=.ok segments) :
    segments.length=4 ∧ ∀ n∈segments, n<256 := by
  unfold parseVersion at h
  split at h
  · cases h
  · split at h
    · cases h
    · next hlen =>
      cases hp : (s.splitOn 46).mapM parseSegment with
      | error e =>
        rw [hp] at h
        cases h
      | ok parsed =>
        rw [hp] at h
        obtain rfl : parsed++List.replicate (4-parsed.length) 0=segments := Except.ok.inj h
        have hall := Except.forall₂_of_mapM hp
        have hl := hall.length_eq
        refine ⟨by simp; omega,?_⟩
        intro n hn
        rcases List.mem_append.mp hn with hn | hn
        · exact parsed_lt hall n hn
        · rw [List.eq_of_mem_replicate hn]
          decide

namespace ProtocolVersion

variable (v : ProtocolVersion)

def display : Bytes := ascii (versionString v.val).toList

def parse (s : Bytes) : Option ProtocolVersion :=
  match h : parseVersion s with
  | .ok segments => some ⟨segments,parseVersion_valid h⟩
  | .error _ => none

def shown : List Nat :=
  if v.val.getLast?=some 0 then v.val.dropLast else v.val

theorem exists_segments : ∃ a b c d, v.val=[a,b,c,d] :=
  List.length_eq_four.mp v.property.1

theorem display_eq : v.display=[46].intercalate (v.shown.map decimal) := by
  obtain ⟨a,b,c,d,hv⟩ := v.exists_segments
  by_cases hd : d=0
  · simp [display,shown,hv,versionString,String.join,ascii,decimal,hd]
  · simp [display,shown,hv,versionString,String.join,ascii,decimal,hd]

theorem parse_eq {s : Bytes} {v : ProtocolVersion} (h : parseVersion s=.ok v.val) :
    parse s=some v := by
  unfold parse
  split
  · next segments hs =>
    rw [h] at hs
    exact congrArg some (Subtype.ext (Except.ok.inj hs).symm)
  · next e hs =>
    rw [h] at hs
    cases hs

theorem parse_display : parse v.display=some v := by
  apply parse_eq
  obtain ⟨a,b,c,d,hv⟩ := v.exists_segments
  have hlt := v.property.2
  rw [display_eq]
  by_cases hd : d=0
  · have hs : v.shown=[a,b,c] := by simp [shown,hv,hd]
    rw [hs,parseVersion_intercalate (by simp) (by simp) (fun n hn => hlt n (by
      rw [hv]
      exact List.mem_append_left [d] hn)),hv,hd]
    rfl
  · have hs : v.shown=[a,b,c,d] := by simp [shown,hv,hd]
    rw [hs,parseVersion_intercalate (by simp) (by simp) (fun n hn => hlt n (hv▸hn)),hv]
    rfl

theorem display_head : ∃ b bs, v.display=b::bs ∧ 48≤b.val ∧ b.val<58 := by
  obtain ⟨a,b,c,d,hv⟩ := v.exists_segments
  obtain ⟨x,xs,hx⟩ := List.exists_cons_of_ne_nil (decimal_ne_nil a)
  have hdigit := decimal_digits a x (by simp [hx])
  rw [display_eq]
  by_cases hd : d=0
  · have hs : v.shown=[a,b,c] := by simp [shown,hv,hd]
    exact ⟨x,xs++46::(decimal b++46::decimal c),by simp [hs,hx],hdigit⟩
  · have hs : v.shown=[a,b,c,d] := by simp [shown,hv,hd]
    exact ⟨x,xs++46::(decimal b++46::(decimal c++46::decimal d)),by simp [hs,hx],hdigit⟩

end ProtocolVersion
end Katana
