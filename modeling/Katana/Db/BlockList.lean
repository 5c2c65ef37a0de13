import Katana.Base.SortedSet

/-! Lists of block numbers (models/list.rs). Of the roaring bitmap underneath
only the order statistics are used: rank counts the members up to a value and
select is the inverse of position. -/
namespace Katana

/-- Block numbers are u64 in the source; no operation on them below can wrap,
so they are kept as natural numbers. -/
abbrev BlockList := SortedSet Nat

namespace BlockList

def ofOne (n : Nat) : BlockList := SortedSet.insert n ∅

/-- The list of a key after one more change; a missing list is created. -/
def extend (list : Option BlockList) (n : Nat) : BlockList :=
  match list with
  | some list => SortedSet.insert n list
  | none => ofOne n

/-- The number of members that are at most the given value. -/
def rank (l : BlockList) (value : Nat) : Nat :=
  (l.elems.filter (fun m => decide (m≤value))).length

def select (l : BlockList) (n : Nat) : Option Nat := l.elems[n]?

/-- remove_range(0..=cutoff): what is left, and how many members were removed. -/
def removeUpTo (l : BlockList) (cutoff : Nat) : BlockList × Nat :=
  (l.filter (fun m => decide (cutoff < m)),l.rank cutoff)

@[simp] theorem mem_ofOne (n m : Nat) : m∈ofOne n ↔ m=n := by
  simp [ofOne]

@[simp] theorem mem_extend (list : Option BlockList) (n m : Nat) :
    m∈extend list n ↔ m=n ∨ m∈list.getD ∅ := by
  cases list <;> simp [extend]

theorem filter_le_prefix (l : List Nat) (value : Nat) (h : l.Pairwise (·<·)) :
    l.filter (fun m => decide (m≤value))<+:l := by
  induction l with
  | nil => exact List.prefix_rfl
  | cons x xs ih =>
    obtain ⟨hx,hxs⟩ := List.pairwise_cons.mp h
    by_cases hle : x≤value
    · simpa [hle] using ih hxs
    · have hnil : (x::xs).filter (fun m => decide (m≤value))=[] := by
        refine List.filter_eq_nil_iff.mpr ?_
        intro y hy
        obtain rfl | hy := List.mem_cons.mp hy
        · simpa using hle
        · have := hx y hy
          simp only [decide_eq_true_eq]
          omega
      rw [hnil]
      exact List.nil_prefix

end BlockList

/-- The greatest block of the list that is at most the target. The same helper
stands in providers/db/state.rs and in trie/snapshot.rs. -/
def recentChangeFromBlock (target : Nat) (list : BlockList) : Option Nat :=
  let rank := list.rank target
  if rank=0 then none else list.select (rank-1)

theorem recent_eq_last (target : Nat) (list : BlockList) :
    recentChangeFromBlock target list=
      (list.elems.filter (fun m => decide (m≤target))).getLast? := by
  obtain ⟨q,hq⟩ := BlockList.filter_le_prefix list.elems target list.sorted
  unfold recentChangeFromBlock BlockList.rank BlockList.select
  generalize hp : list.elems.filter (fun m => decide (m≤target))=p at *
  cases p with
  | nil => rfl
  | cons x xs =>
    have hlt : (x::xs).length-1<(x::xs).length := by simp
    rw [if_neg (by simp),← hq,List.getLast?_eq_getElem?,List.getElem?_append_left hlt]

theorem recent_eq_none (target : Nat) (list : BlockList) :
    recentChangeFromBlock target list=none ↔ ∀ m∈list, target < m := by
  rw [recent_eq_last,List.getLast?_eq_none_iff,List.filter_eq_nil_iff]
  simp [SortedSet.mem_elems]

theorem recent_spec {target n : Nat} {list : BlockList}
    (h : recentChangeFromBlock target list=some n) :
    n∈list ∧ n≤target ∧ ∀ m∈list, m≤target → m≤n := by
  rw [recent_eq_last] at h
  have hn := List.mem_filter.mp (List.mem_of_getLast? h)
  refine ⟨hn.1,by simpa using hn.2,?_⟩
  intro m hm hle
  have hmf : m∈list.elems.filter (fun m => decide (m≤target)) :=
    List.mem_filter.mpr ⟨hm,by simpa using hle⟩
  obtain ⟨ys,he⟩ := List.getLast?_eq_some_iff.mp h
  have hs := list.sorted.filter (fun m => decide (m≤target))
  rw [he] at hs hmf
  obtain hmf | hmf := List.mem_append.mp hmf
  · exact le_of_lt ((List.pairwise_append.mp hs).2.2 m hmf n (by simp))
  · exact le_of_eq (by simpa using hmf)

end Katana
