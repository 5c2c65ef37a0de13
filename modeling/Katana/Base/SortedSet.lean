import Mathlib.Order.Lattice
import Mathlib.Data.List.Basic
import Mathlib.Tactic.Common

/-! Finite sets kept as strictly increasing lists. Membership determines the
list, so every operation is specified by its members alone. -/
namespace SortedSet
variable {α : Type*} [LinearOrder α]

/-- Insertion keeps one copy of each element. -/
def insertList (x : α) : List α → List α
  | [] => [x]
  | y::ys => if x<y then x::y::ys else if x=y then y::ys else y::insertList x ys

theorem mem_insertList (x y : α) (l : List α) : y∈insertList x l ↔ y=x ∨ y∈l := by
  induction l with
  | nil => simp [insertList]
  | cons z zs ih =>
    by_cases hlt : x<z
    · simp [insertList,hlt]
    · by_cases he : x=z
      · simp [insertList,he]
      · simp only [insertList,hlt,he,if_false,List.mem_cons,ih]
        exact or_left_comm

theorem insertList_pairwise (x : α) (l : List α) (h : l.Pairwise (·<·)) :
    (insertList x l).Pairwise (·<·) := by
  induction l with
  | nil => simp [insertList]
  | cons z zs ih =>
    obtain ⟨hz,hzs⟩ := List.pairwise_cons.mp h
    by_cases hlt : x<z
    · simp only [insertList,hlt,if_true]
      refine List.pairwise_cons.mpr ⟨?_,h⟩
      intro y hy
      obtain rfl | hy := List.mem_cons.mp hy
      · exact hlt
      · exact hlt.trans (hz y hy)
    · by_cases he : x=z
      · simpa [insertList,he] using h
      · simp only [insertList,hlt,he,if_false]
        refine List.pairwise_cons.mpr ⟨?_,ih hzs⟩
        intro y hy
        obtain rfl | hy := (mem_insertList x y zs).mp hy
        · exact lt_of_le_of_ne (not_lt.mp hlt) (Ne.symm he)
        · exact hz y hy

theorem pairwise_ext (l m : List α) (hl : l.Pairwise (·<·)) (hm : m.Pairwise (·<·))
    (h : ∀ x, x∈l ↔ x∈m) : l=m := by
  have hp : l.Perm m := (List.perm_ext_iff_of_nodup (hl.imp ne_of_lt) (hm.imp ne_of_lt)).mpr h
  exact hp.eq_of_pairwise (fun a b _ _ hab hba => absurd (hab.trans hba) (lt_irrefl a)) hl hm

end SortedSet

/-- A finite set of a linear order, stored in increasing order. -/
@[ext] structure SortedSet (α : Type*) [LinearOrder α] where
  elems : List α
  sorted : elems.Pairwise (·<·)

namespace SortedSet
variable {α : Type*} [LinearOrder α]

instance : Membership α (SortedSet α) := ⟨fun s x => x∈s.elems⟩
instance (x : α) (s : SortedSet α) : Decidable (x∈s) := inferInstanceAs (Decidable (x∈s.elems))
instance : EmptyCollection (SortedSet α) := ⟨⟨[],List.Pairwise.nil⟩⟩
instance : Inhabited (SortedSet α) := ⟨∅⟩
instance : DecidableEq (SortedSet α) := fun s t => decidable_of_iff (s.elems=t.elems)
  ⟨SortedSet.ext,congrArg elems⟩

theorem mem_elems (x : α) (s : SortedSet α) : x∈s.elems ↔ x∈s := Iff.rfl

@[simp] theorem not_mem_empty (x : α) : ¬x∈(∅ : SortedSet α) := List.not_mem_nil

theorem ext_mem {s t : SortedSet α} (h : ∀ x, x∈s ↔ x∈t) : s=t :=
  SortedSet.ext (pairwise_ext s.elems t.elems s.sorted t.sorted h)

def insert (x : α) (s : SortedSet α) : SortedSet α :=
  ⟨insertList x s.elems,insertList_pairwise x s.elems s.sorted⟩

@[simp] theorem mem_insert (x y : α) (s : SortedSet α) : y∈s.insert x ↔ y=x ∨ y∈s :=
  mem_insertList x y s.elems

variable (p : α → Bool) (s : SortedSet α)

def filter : SortedSet α :=
  ⟨s.elems.filter p,s.sorted.filter p⟩

@[simp] theorem mem_filter (x : α) (s : SortedSet α) : x∈s.filter p ↔ x∈s ∧ p x=true := by
  rw [← mem_elems,← mem_elems,filter,List.mem_filter]

def erase (x : α) (s : SortedSet α) : SortedSet α := s.filter (fun y => decide (y≠x))

@[simp] theorem mem_erase (x y : α) (s : SortedSet α) : y∈s.erase x ↔ y∈s ∧ y≠x := by
  simp [erase]

def first : Option α := s.elems.find? p

theorem first_eq_none : s.first p=none ↔ ∀ x∈s, p x=false := by
  simp [first,List.find?_eq_none,mem_elems]

theorem first_mem {p : α → Bool} {s : SortedSet α} {x : α} (h : s.first p=some x) :
    x∈s ∧ p x=true :=
  ⟨List.mem_of_find?_eq_some h,List.find?_some h⟩

theorem first_le {p : α → Bool} {s : SortedSet α} {x y : α} (h : s.first p=some x)
    (hy : y∈s) (hp : p y=true) : x≤y := by
  obtain ⟨_,as,bs,he,hno⟩ := List.find?_eq_some_iff_append.mp h
  have hs := s.sorted
  rw [← mem_elems] at hy
  rw [he] at hs hy
  obtain hy | hy := List.mem_append.mp hy
  · have hf := hno y hy
    simp [hp] at hf
  · obtain rfl | hy := List.mem_cons.mp hy
    · exact le_refl _
    · exact le_of_lt ((List.pairwise_cons.mp (List.pairwise_append.mp hs).2.1).1 y hy)

theorem first_eq_some (x : α) : s.first p=some x ↔ x∈s ∧ p x=true ∧ ∀ y∈s, p y=true → x≤y := by
  constructor
  · intro h
    exact ⟨(first_mem h).1,(first_mem h).2,fun y hy hp => first_le h hy hp⟩
  · intro ⟨hx,hp,hmin⟩
    cases hf : s.first p with
    | none =>
      have hno := (first_eq_none p s).mp hf x hx
      simp [hp] at hno
    | some y =>
      have hxy := hmin y (first_mem hf).1 (first_mem hf).2
      rw [le_antisymm hxy (first_le hf hx hp)]

end SortedSet
