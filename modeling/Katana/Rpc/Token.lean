import Katana.Rpc.Api

/-! Continuation tokens and their text (primitives/event.rs). A token of the fork is told
apart by its first characters. -/
namespace Katana.Rpc

inductive ParseIntError where
  | empty
  | invalidDigit
  | posOverflow
  deriving DecidableEq, Repr

inductive ContinuationTokenError where
  | invalidToken
  | parseFailed (e : ParseIntError)
  deriving DecidableEq, Repr

structure ContinuationToken where
  blockN : Nat
  txnN : Nat
  eventN : Nat
  deriving DecidableEq, Repr

inductive MaybeForkedContinuationToken where
  | forked (text : String)
  | token (t : ContinuationToken)
  deriving DecidableEq, Repr

/-- char::to_digit(16). -/
def hexValue (c : Char) : Option Nat :=
  if '0' ≤ c ∧ c ≤ '9' then some (c.toNat-48)
  else if 'a' ≤ c ∧ c ≤ 'f' then some (c.toNat-87)
  else if 'A' ≤ c ∧ c ≤ 'F' then some (c.toNat-55)
  else none

def pushDigit (acc : Nat) (c : Char) : Except ParseIntError Nat :=
  match hexValue c with
  | none => .error .invalidDigit
  | some d => if acc*16+d<2^64 then .ok (acc*16+d) else .error .posOverflow

/-- u64::from_str_radix(_, 16). -/
def fromStrRadix : List Char → Except ParseIntError Nat
  | [] => .error .empty
  | ['+'] => .error .invalidDigit
  | '+'::digits => digits.foldlM pushDigit 0
  | digits => digits.foldlM pushDigit 0

namespace ContinuationToken

def parse (text : String) : Except ContinuationTokenError ContinuationToken :=
  match text.toList.splitOn ',' with
  | [block,txn,event] => do
    let blockN ← (fromStrRadix block).mapError .parseFailed
    let receiptN ← (fromStrRadix txn).mapError .parseFailed
    let eventN ← (fromStrRadix event).mapError .parseFailed
    return ⟨blockN,receiptN,eventN⟩
  | _ => .error .invalidToken

/-- The three numbers as lower case hexadecimals. -/
def toString (t : ContinuationToken) : String :=
  String.ofList ([','].intercalate [Nat.toDigits 16 t.blockN,Nat.toDigits 16 t.txnN,
    Nat.toDigits 16 t.eventN])

def Fits (t : ContinuationToken) : Prop := t.blockN<2^64 ∧ t.txnN<2^64 ∧ t.eventN<2^64

end ContinuationToken

namespace MaybeForkedContinuationToken

def forkedTokenPrefix : List Char := ['F','K','_']

def parse (text : String) : Except ContinuationTokenError MaybeForkedContinuationToken :=
  if forkedTokenPrefix.isPrefixOf text.toList then
    .ok (.forked (String.ofList (text.toList.drop forkedTokenPrefix.length)))
  else (ContinuationToken.parse text).map .token

def toToken : MaybeForkedContinuationToken → Option ContinuationToken
  | .token t => some t
  | .forked _ => none

def toString : MaybeForkedContinuationToken → String
  | .token t => t.toString
  | .forked text => String.ofList (forkedTokenPrefix++text.toList)

end MaybeForkedContinuationToken

section Text

theorem hexValue_digitChar : ∀ d, d<16 → hexValue (Nat.digitChar d)=some d := by decide

theorem digitChar_of_mem {n : Nat} {c : Char} (h : c∈Nat.toDigits 16 n) :
    ∃ d, d<16 ∧ c=Nat.digitChar d := by
  induction n using Nat.strongRecOn with
  | ind n ih =>
    rw [Nat.toDigits_eq_if (by decide)] at h
    by_cases hn : n<16
    · rw [if_pos hn,List.mem_singleton] at h
      exact ⟨n,hn,h⟩
    · rw [if_neg hn,List.mem_append,List.mem_singleton] at h
      cases h with
      | inl h => exact ih (n/16) (by omega) h
      | inr h => exact ⟨n%16,Nat.mod_lt n (by decide),h⟩

theorem not_mem_toDigits {c : Char} (hc : ∀ d, d<16 → c≠Nat.digitChar d) (n : Nat) :
    c∉Nat.toDigits 16 n := by
  intro h
  obtain ⟨d,hd,he⟩ := digitChar_of_mem h
  exact hc d hd he

/-- The digits of a number are read back to it. Every number on the way is smaller, so that
none overflows. -/
theorem foldlM_toDigits {n : Nat} (h : n<2^64) : (Nat.toDigits 16 n).foldlM pushDigit 0=.ok n := by
  induction n using Nat.strongRecOn with
  | ind n ih =>
    rw [Nat.toDigits_eq_if (by decide)]
    by_cases hn : n<16
    · rw [if_pos hn]
      simp only [List.foldlM_cons,pushDigit,hexValue_digitChar n hn,Nat.zero_mul,Nat.zero_add,h,if_true]
      rfl
    · have hd : n/16*16+n%16=n := by omega
      rw [if_neg hn,List.foldlM_append,ih (n/16) (by omega) (by omega)]
      simp only [bind,Except.bind,List.foldlM_cons,List.foldlM_nil,pushDigit,
        hexValue_digitChar (n%16) (Nat.mod_lt n (by decide)),hd,h,if_true]
      rfl

theorem fromStrRadix_eq {digits : List Char} (hne : digits≠[]) (hplus : '+'∉digits) :
    fromStrRadix digits=digits.foldlM pushDigit 0 := by
  unfold fromStrRadix
  split
  · exact absurd rfl hne
  · simp at hplus
  · simp at hplus
  · rfl

theorem fromStrRadix_toDigits {n : Nat} (h : n<2^64) : fromStrRadix (Nat.toDigits 16 n)=.ok n := by
  rw [fromStrRadix_eq Nat.toDigits_ne_nil (not_mem_toDigits (by decide) n),foldlM_toDigits h]

theorem splitOn_toString (t : ContinuationToken) : t.toString.toList.splitOn ','=
    [Nat.toDigits 16 t.blockN,Nat.toDigits 16 t.txnN,Nat.toDigits 16 t.eventN] := by
  rw [ContinuationToken.toString,String.toList_ofList]
  apply List.splitOn_intercalate
  · intro digits hd
    simp only [List.mem_cons,List.not_mem_nil,or_false] at hd
    obtain rfl | rfl | rfl := hd
    all_goals exact not_mem_toDigits (by decide) _
  · simp

theorem ContinuationToken.parse_toString {t : ContinuationToken} (h : t.Fits) :
    parse t.toString=.ok t := by
  simp only [parse,splitOn_toString,fromStrRadix_toDigits h.1,fromStrRadix_toDigits h.2.1,
    fromStrRadix_toDigits h.2.2,Except.mapError,bind,Except.bind,pure,Except.pure]

theorem native_not_forked (t : ContinuationToken) :
    MaybeForkedContinuationToken.forkedTokenPrefix.isPrefixOf t.toString.toList=false := by
  rw [ContinuationToken.toString,String.toList_ofList]
  cases hd : Nat.toDigits 16 t.blockN with
  | nil => exact absurd hd Nat.toDigits_ne_nil
  | cons c cs =>
    have hF : 'F'∉Nat.toDigits 16 t.blockN := not_mem_toDigits (by decide) _
    rw [hd,List.mem_cons,not_or] at hF
    simp [MaybeForkedContinuationToken.forkedTokenPrefix,List.intercalate,List.isPrefixOf,hF.1]

theorem MaybeForkedContinuationToken.parse_toString {t : MaybeForkedContinuationToken}
    (h : ∀ n, t.toToken=some n → n.Fits) : parse t.toString=.ok t := by
  cases t with
  | forked text =>
    have hfk : forkedTokenPrefix.isPrefixOf (forkedTokenPrefix++text.toList)=true :=
      List.isPrefixOf_iff_prefix.mpr (List.prefix_append _ _)
    rw [parse,toString,String.toList_ofList,if_pos hfk,List.drop_left,String.ofList_toList]
  | token t =>
    rw [parse,toString,native_not_forked,if_neg (by decide),ContinuationToken.parse_toString (h t rfl)]
    rfl

end Text
end Katana.Rpc
