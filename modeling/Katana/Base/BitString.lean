import Mathlib.Data.List.Induction
import Mathlib.Data.Nat.Bitwise
import Mathlib.Tactic.Ring

/-! Numbers as strings of binary digits, the most significant first. A slice of the digits is a
field of the number. -/
namespace BitString

def digits (width n : Nat) : List Bool :=
  (List.range width).map fun i => n.testBit (width-1-i)

variable (bs : List Bool)

def value : Nat := bs.foldl (fun n b => 2*n+b.toNat) 0

@[simp] theorem digits_length (width n : Nat) : (digits width n).length=width := by
  simp [digits]

theorem value_concat (b : Bool) : value (bs++[b])=2*value bs+b.toNat := by
  simp [value]

theorem value_lt : value bs<2^bs.length := by
  induction bs using List.reverseRecOn with
  | nil => decide
  | append_singleton bs b ih =>
    have hb := b.toNat_lt
    rw [value_concat,List.length_append,List.length_singleton,Nat.pow_succ]
    omega

theorem mod_pow_succ (q len : Nat) : q%2^(len+1)=2*(q/2%2^len)+q%2 := by
  rw [Nat.pow_succ',Nat.mod_mul]
  omega

theorem value_slice {width start len : Nat} (n : Nat) (h : start+len≤width) :
    value (((digits width n).drop start).take len)=(n>>>(width-start-len))%2^len := by
  induction len with
  | zero => simp [value,Nat.mod_one]
  | succ len ih =>
    have hlt : len<((digits width n).drop start).length := by
      simp
      omega
    have hdigit : ((digits width n).drop start).get ⟨len,hlt⟩=
        n.testBit (width-start-(len+1)) := by
      simp only [List.get_eq_getElem,List.getElem_drop,digits,List.getElem_map,
        List.getElem_range]
      congr 1
      omega
    have hshift : n>>>(width-start-len)=(n>>>(width-start-(len+1)))/2 := by
      rw [show width-start-len=width-start-(len+1)+1 by omega,Nat.shiftRight_succ]
    have hbit : (n.testBit (width-start-(len+1))).toNat=(n>>>(width-start-(len+1)))%2 := by
      rw [Nat.testBit_eq_decide_div_mod_eq,Nat.shiftRight_eq_div_pow]
      rcases Nat.mod_two_eq_zero_or_one (n/2^(width-start-(len+1))) with h | h <;> simp [h]
    rw [List.take_add_one,List.getElem?_eq_getElem hlt,Option.toList_some,value_concat,
      ih (by omega),mod_pow_succ,←hshift,←hbit,←hdigit]
    rfl

theorem value_cons (b : Bool) (bs : List Bool) : value (b::bs)=b.toNat*2^bs.length+value bs := by
  induction bs using List.reverseRecOn with
  | nil => simp [value]
  | append_singleton bs c ih =>
    rw [←List.cons_append,value_concat,ih,value_concat,List.length_append,List.length_singleton,
      Nat.pow_succ]
    ring

/-- The number with the k digits of another in reverse. -/
def reversed (k n : Nat) : Nat := value (digits k n).reverse

theorem digits_succ (k n : Nat) (b : Bool) : digits (k+1) (2*n+b.toNat)=digits k n++[b] := by
  have hlast : (2*n+b.toNat).testBit 0=b := by cases b <;> simp
  have hdiv : (2*n+b.toNat)/2=n := by
    have hb := b.toNat_lt
    omega
  simp only [digits,List.range_succ,List.map_append,List.map_cons,List.map_nil]
  congr 1
  · apply List.map_congr_left
    intro i hi
    have hlt := List.mem_range.mp hi
    rw [show k+1-1-i=k-1-i+1 by omega,Nat.testBit_succ,hdiv]
  · simpa using hlast

theorem digits_value : digits bs.length (value bs)=bs := by
  induction bs using List.reverseRecOn with
  | nil => rfl
  | append_singleton bs b ih =>
    rw [value_concat,List.length_append,List.length_singleton,digits_succ,ih]

theorem reversed_succ (k n : Nat) (b : Bool) :
    reversed (k+1) (2*n+b.toNat)=b.toNat*2^k+reversed k n := by
  simp [reversed,digits_succ,value_cons]

end BitString
