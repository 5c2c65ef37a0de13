import Mathlib.Order.Fin.Basic
import Mathlib.Data.List.Induction
import Mathlib.Data.List.Lex
import Mathlib.Tactic.Ring
import Mathlib.Tactic.Common

/-! Byte strings in lexicographic order and fixed-width big-endian numbers.
A string between s and an extension of s starts with s; this is what makes a
seek by a prefix land on the entries that carry the prefix. -/

abbrev Byte := Fin 256
abbrev Bytes := List Byte

instance instNeZeroByte : NeZero 256 := ⟨by decide⟩

namespace ByteOrder

theorem cons_le_iff (a b : Byte) (s t : Bytes) : a::s≤b::t ↔ a<b ∨ a=b ∧ s≤t := by
  simp only [le_iff_lt_or_eq,List.cons_lt_cons_iff,List.cons.injEq]
  tauto

theorem not_cons_le_nil (a : Byte) (s : Bytes) : ¬a::s≤[] := by
  simp [le_iff_lt_or_eq]

theorem le_append (s x : Bytes) : s ≤ s++x := by
  induction s with
  | nil => cases x <;> simp [le_iff_lt_or_eq]
  | cons a s ih => exact (cons_le_iff a a s (s++x)).mpr (Or.inr ⟨rfl,ih⟩)

theorem prefix_of_between (s t x : Bytes) (h : s≤t) (h' : t ≤ s++x) : s<+:t := by
  induction s generalizing t with
  | nil => exact List.nil_prefix
  | cons a s ih =>
    cases t with
    | nil => exact absurd h (not_cons_le_nil a s)
    | cons b t =>
      rw [List.cons_append] at h'
      obtain hab | ⟨rfl,hst⟩ := (cons_le_iff a b s t).mp h
      · obtain hba | ⟨rfl,_⟩ := (cons_le_iff b a t (s++x)).mp h'
        · exact absurd (hab.trans hba) (lt_irrefl a)
        · exact absurd hab (lt_irrefl _)
      · obtain hba | ⟨_,hts⟩ := (cons_le_iff a a t (s++x)).mp h'
        · exact absurd hba (lt_irrefl _)
        · exact List.cons_prefix_cons.mpr ⟨rfl,ih t hst hts⟩

theorem eq_of_prefix {s t x : Bytes} (hl : s.length=t.length) (h : s<+:t++x) : s=t :=
  (List.prefix_of_prefix_length_le h (List.prefix_append t x) hl.le).eq_of_length hl

/-- The w low bytes of n, most significant first. -/
def beBytes : Nat → Nat → Bytes
  | 0, _ => []
  | w+1, n => beBytes w (n/256)++[Fin.ofNat 256 n]

/-- The number a byte string denotes, most significant byte first. -/
def beVal (bs : Bytes) : Nat := bs.foldl (fun n b => n*256+b.val) 0

@[simp] theorem beBytes_length (w n : Nat) : (beBytes w n).length=w := by
  induction w generalizing n with
  | zero => rfl
  | succ w ih => simp [beBytes,ih]

theorem beBytes_head (w n : Nat) : ∃ bs, beBytes (w+1) n=Fin.ofNat 256 (n/256^w)::bs := by
  induction w generalizing n with
  | zero => exact ⟨[],by simp [beBytes]⟩
  | succ w ih =>
    obtain ⟨bs,hbs⟩ := ih (n/256)
    refine ⟨bs++[Fin.ofNat 256 n],?_⟩
    rw [beBytes,hbs,Nat.div_div_eq_div_mul,←Nat.pow_succ',List.cons_append]

theorem beVal_append_one (bs : Bytes) (b : Byte) : beVal (bs++[b])=beVal bs*256+b.val := by
  simp [beVal]

theorem beVal_beBytes (w n : Nat) (h : n<256^w) : beVal (beBytes w n)=n := by
  induction w generalizing n with
  | zero =>
    have hn : n=0 := by simpa using h
    subst n
    rfl
  | succ w ih =>
    have hd : n/256<256^w := by
      apply Nat.div_lt_of_lt_mul
      rw [pow_succ] at h
      omega
    rw [beBytes,beVal_append_one,ih _ hd,Fin.val_ofNat]
    omega

theorem beBytes_inj {w m n : Nat} (hm : m<256^w) (hn : n<256^w)
    (h : beBytes w m=beBytes w n) : m=n := by
  rw [← beVal_beBytes w m hm,h,beVal_beBytes w n hn]

theorem beVal_lt (bs : Bytes) : beVal bs<256^bs.length := by
  induction bs using List.reverseRecOn with
  | nil => decide
  | append_singleton bs b ih =>
    have hb := b.isLt
    rw [beVal_append_one,List.length_append,List.length_singleton,pow_succ]
    omega

theorem beBytes_beVal (bs : Bytes) : beBytes bs.length (beVal bs)=bs := by
  induction bs using List.reverseRecOn with
  | nil => rfl
  | append_singleton bs b ih =>
    have hb := b.isLt
    have hdiv : (beVal bs*256+b.val)/256=beVal bs := by omega
    have hlast : Fin.ofNat 256 (beVal bs*256+b.val)=b := by
      apply Fin.ext
      rw [Fin.val_ofNat]
      omega
    rw [beVal_append_one,List.length_append,List.length_singleton,beBytes,hdiv,ih,hlast]

theorem beVal_inj {s t : Bytes} (hl : s.length=t.length) (h : beVal s=beVal t) : s=t := by
  rw [← beBytes_beVal s,hl,h,beBytes_beVal t]

end ByteOrder
