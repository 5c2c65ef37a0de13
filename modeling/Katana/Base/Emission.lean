import Mathlib.Data.List.Perm.Basic
import Mathlib.Data.List.Pairwise

/-! Things emitted by nested calls and numbered in the order of their emission. Listing what a
call emitted itself before what its inner calls emitted loses nothing, and keeps the order
exactly when no call emits after an inner call that emitted. -/
namespace Emission
variable {α : Type}

/-- What a call does, one thing after the other. -/
inductive Trace (α : Type) where
  | done
  | emit (x : α) (rest : Trace α)
  | call (body rest : Trace α)
  deriving DecidableEq, Repr

abbrev Numbered (α : Type) := Nat × α

def Sorted (xs : List (Numbered α)) : Prop := xs.Pairwise (fun x y => x.1<y.1)

def Within (m n : Nat) (xs : List (Numbered α)) : Prop := ∀ x∈xs, m ≤ x.1 ∧ x.1<n

namespace Trace

def size : Trace α → Nat
  | done => 0
  | emit _ rest => rest.size+1
  | call body rest => body.size+rest.size

def emitted : Trace α → Nat → List (Numbered α)
  | done,_ => []
  | emit x rest,n => (n,x)::rest.emitted (n+1)
  | call body rest,n => body.emitted n++rest.emitted (n+body.size)

def own : Trace α → Nat → List (Numbered α)
  | done,_ => []
  | emit x rest,n => (n,x)::rest.own (n+1)
  | call body rest,n => rest.own (n+body.size)

/-- What its inner calls emit, each listed in the same way. -/
def inner : Trace α → Nat → List (Numbered α)
  | done,_ => []
  | emit _ rest,n => rest.inner (n+1)
  | call body rest,n => body.own n++body.inner n++rest.inner (n+body.size)

def emitSome (x : Option α) (rest : Trace α) : Trace α := x.elim rest (emit · rest)

theorem size_emitSome (x : Option α) (rest : Trace α) :
    (emitSome x rest).size=x.toList.length+rest.size := by
  cases x <;> simp [emitSome,size,Nat.add_comm]

theorem own_emitSome (x : Option α) (rest : Trace α) (n : Nat) :
    (emitSome x rest).own n=x.toList.map (n,·)++rest.own (n+x.toList.length) := by
  cases x <;> simp [emitSome,own]

theorem inner_emitSome (x : Option α) (rest : Trace α) (n : Nat) :
    (emitSome x rest).inner n=rest.inner (n+x.toList.length) := by
  cases x <;> simp [emitSome,inner]

def listed (t : Trace α) (n : Nat) : List (Numbered α) := t.own n++t.inner n

/-- No call emits after an inner call that emitted something. -/
def OwnFirst : Trace α → Prop
  | done => True
  | emit _ rest => rest.OwnFirst
  | call body rest => body.OwnFirst ∧ rest.OwnFirst ∧ (body.emitted 0=[] ∨ rest.own 0=[])

end Trace

section Blocks
variable {m n k : Nat} {xs ys zs : List (Numbered α)}

theorem Within.append (hx : Within m n xs) (hy : Within m n ys) : Within m n (xs++ys) := by
  intro x hx'
  obtain h | h := List.mem_append.mp hx'
  · exact hx x h
  · exact hy x h

theorem Within.mono {m' n' : Nat} (hm : m' ≤ m) (hn : n ≤ n') (hx : Within m n xs) :
    Within m' n' xs :=
  fun x h => ⟨Nat.le_trans hm (hx x h).1,Nat.lt_of_lt_of_le (hx x h).2 hn⟩

theorem sorted_append (hx : Within m n xs) (hy : Within n k ys) :
    Sorted (xs++ys) ↔ Sorted xs ∧ Sorted ys := by
  rw [Sorted,List.pairwise_append]
  exact ⟨fun h => ⟨h.1,h.2.1⟩,
    fun h => ⟨h.1,h.2,fun x hx' y hy' => Nat.lt_of_lt_of_le (hx x hx').2 (hy y hy').1⟩⟩

theorem sorted_append_swap (hx : Within m n xs) (hy : Within n k ys) :
    Sorted (ys++xs) ↔ Sorted xs ∧ Sorted ys ∧ (xs=[] ∨ ys=[]) := by
  rw [Sorted,List.pairwise_append]
  constructor
  · rintro ⟨hys,hxs,hlt⟩
    refine ⟨hxs,hys,?_⟩
    cases xs with
    | nil => exact .inl rfl
    | cons x xs =>
      cases ys with
      | nil => exact .inr rfl
      | cons y ys =>
        have h := hlt y List.mem_cons_self x List.mem_cons_self
        have hxn := (hx x List.mem_cons_self).2
        have hny := (hy y List.mem_cons_self).1
        omega
  · rintro ⟨hxs,hys,hnil⟩
    refine ⟨hys,hxs,?_⟩
    rcases hnil with rfl | rfl
    · simp
    · simp

theorem sorted_of_sublist (h : xs.Sublist ys) (hs : Sorted ys) : Sorted xs :=
  List.Pairwise.sublist h hs

end Blocks

namespace Trace
variable (t : Trace α) (n : Nat)

theorem emitted_length : (t.emitted n).length=t.size := by
  induction t generalizing n with
  | done => rfl
  | emit x rest ih => simp [emitted,size,ih]
  | call body rest ihb ihr => simp [emitted,size,ihb,ihr]

theorem emitted_within : Within n (n+t.size) (t.emitted n) := by
  induction t generalizing n with
  | done => simp [emitted,Within]
  | emit x rest ih =>
    intro y hy
    obtain rfl | hy := List.mem_cons.mp hy
    · exact ⟨Nat.le_refl n,by simp only [size]; omega⟩
    · have h := ih (n+1) y hy
      simp only [size]
      omega
  | call body rest ihb ihr =>
    have hbody := (ihb n).mono (Nat.le_refl n) (Nat.add_le_add_left (Nat.le_add_right _ rest.size) n)
    have hrest := (ihr (n+body.size)).mono (Nat.le_add_right n body.size)
      (Nat.le_of_eq (Nat.add_assoc n body.size rest.size))
    exact hbody.append hrest

theorem listed_perm : (t.listed n).Perm (t.emitted n) := by
  induction t generalizing n with
  | done => exact .nil
  | emit x rest ih => exact (ih (n+1)).cons (n,x)
  | call body rest ihb ihr =>
    have hcomm : (rest.own (n+body.size)++((body.listed n)++rest.inner (n+body.size))).Perm
        (body.listed n++rest.listed (n+body.size)) :=
      List.perm_append_comm_assoc _ _ _
    exact hcomm.trans ((ihb n).append (ihr _))

theorem listed_within : Within n (n+t.size) (t.listed n) :=
  fun x hx => t.emitted_within n x ((t.listed_perm n).mem_iff.mp hx)

theorem own_within : Within n (n+t.size) (t.own n) :=
  fun x hx => t.listed_within n x (List.mem_append_left _ hx)

theorem inner_within : Within n (n+t.size) (t.inner n) :=
  fun x hx => t.listed_within n x (List.mem_append_right _ hx)

theorem own_length (m : Nat) : (t.own m).length=(t.own n).length := by
  induction t generalizing m n with
  | done => rfl
  | emit x rest ih => simpa [own] using ih (n+1) (m+1)
  | call body rest _ ihr => exact ihr _ _

theorem own_eq_nil : t.own n=[] ↔ t.own 0=[] := by
  rw [← List.length_eq_zero_iff,← List.length_eq_zero_iff,t.own_length 0 n]

theorem listed_eq_nil : t.listed n=[] ↔ t.emitted 0=[] := by
  rw [← List.length_eq_zero_iff,← List.length_eq_zero_iff,(t.listed_perm n).length_eq,
    emitted_length,emitted_length]

theorem listed_sorted_iff : Sorted (t.listed n) ↔ t.OwnFirst := by
  induction t generalizing n with
  | done => exact ⟨fun _ => trivial,fun _ => .nil⟩
  | emit x rest ih =>
    rw [OwnFirst,← ih (n+1)]
    refine ⟨fun h => (List.pairwise_cons.mp h).2,fun h => List.pairwise_cons.mpr ⟨?_,h⟩⟩
    intro y hy
    exact Nat.lt_of_succ_le (rest.listed_within (n+1) y hy).1
  | call body rest ihb ihr =>
    -- the own part of the rest stands before the body, which was numbered first
    have hlist : (call body rest).listed n=
        rest.own (n+body.size)++(body.listed n++rest.inner (n+body.size)) := rfl
    rw [OwnFirst,← ihb n,← ihr (n+body.size),← body.listed_eq_nil n,← rest.own_eq_nil (n+body.size),
      hlist]
    have hbody := body.listed_within n
    constructor
    · intro h
      have hswap : Sorted (rest.own (n+body.size)++body.listed n) := by
        refine sorted_of_sublist ?_ h
        rw [← List.append_assoc]
        exact List.sublist_append_left _ _
      obtain ⟨hb,-,hnil⟩ := (sorted_append_swap hbody (rest.own_within _)).mp hswap
      refine ⟨hb,?_,hnil⟩
      exact sorted_of_sublist ((List.sublist_append_right _ _).append_left _) h
    · rintro ⟨hb,hr,hnil | hnil⟩
      · rw [hnil]
        exact hr
      · rw [hnil]
        rw [listed,hnil] at hr
        exact (sorted_append hbody (rest.inner_within _)).mpr ⟨hb,hr⟩

end Trace
end Emission
