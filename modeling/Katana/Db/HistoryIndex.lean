import Katana.Base.ChangeLog
import Katana.Db.Store

/-! A change log kept in two tables: for every key the list of blocks that changed
it, and for every block the rows subkey ++ value. Reading at a block takes the last
listed block and seeks the subkey in its rows. -/
namespace Katana
open ChangeLog
variable {κ ν : Type}

/-- The two tables hold exactly the log. -/
structure Indexed (log : List (Change κ ν)) (sub : κ → Bytes) (enc : ν → Bytes)
    (blocks : κ → BlockList) (rows : Nat → Bytes → Prop) : Prop where
  ordered : Ordered log
  mem_blocks : ∀ k n, n∈blocks k ↔ ∃ v, ⟨n,k,v⟩∈log
  mem_rows : ∀ n w, rows n w ↔ ∃ k v, ⟨n,k,v⟩∈log ∧ w=sub k++enc v

namespace Indexed
variable {log : List (Change κ ν)} {sub : κ → Bytes} {enc : ν → Bytes}
variable {blocks : κ → BlockList} {rows : Nat → Bytes → Prop}

theorem recent_none [DecidableEq κ] (h : Indexed log sub enc blocks rows) (b : Nat) (k : κ) :
    recentChangeFromBlock b (blocks k)=none ↔ asOf log b k=none := by
  rw [recent_eq_none,asOf_eq_none]
  constructor
  · intro hb c hc hk
    subst hk
    exact hb c.time ((h.mem_blocks _ _).mpr ⟨c.value,hc⟩)
  · intro ha n hn
    obtain ⟨v,hv⟩ := (h.mem_blocks k n).mp hn
    exact ha _ hv rfl

/-- The last listed block holds the value, in the only row that starts with the
subkey. -/
theorem recent_some [DecidableEq κ] (h : Indexed log sub enc blocks rows) {b n : Nat} {k : κ}
    (hsub : ∀ c∈log, sub k<+:sub c.key++enc c.value → c.key=k)
    (hn : recentChangeFromBlock b (blocks k)=some n) :
    ∃ v, asOf log b k=some v ∧ rows n (sub k++enc v) ∧
      ∀ w, rows n w → sub k<+:w → w=sub k++enc v := by
  obtain ⟨hm,hle,hmax⟩ := recent_spec hn
  obtain ⟨v,hv⟩ := (h.mem_blocks k n).mp hm
  refine ⟨v,?_,(h.mem_rows n _).mpr ⟨k,v,hv,rfl⟩,?_⟩
  · refine (h.ordered.asOf_eq_some b k v).mpr ⟨n,hv,hle,?_⟩
    intro c hc hk hct
    subst hk
    exact hmax c.time ((h.mem_blocks _ _).mpr ⟨c.value,hc⟩) hct
  · intro w hw hp
    obtain ⟨k',v',hv',rfl⟩ := (h.mem_rows n w).mp hw
    obtain rfl : k'=k := hsub _ hv' hp
    rw [h.ordered.unique hv' hv]

theorem empty (hb : ∀ k, blocks k=∅) (hr : ∀ n w, ¬rows n w) :
    Indexed ([] : List (Change κ ν)) sub enc blocks rows where
  ordered := List.Pairwise.nil
  mem_blocks := by simp [hb]
  mem_rows := by simp [hr]

theorem of_mem {log' : List (Change κ ν)} (h : Indexed log sub enc blocks rows)
    (hm : ∀ c, c∈log ↔ c∈log') (ho : Ordered log') : Indexed log' sub enc blocks rows where
  ordered := ho
  mem_blocks k n := by simpa only [hm] using h.mem_blocks k n
  mem_rows n w := by simpa only [hm] using h.mem_rows n w

theorem concat (h : Indexed log sub enc blocks rows) {c : Change κ ν}
    {blocks' : κ → BlockList} {rows' : Nat → Bytes → Prop}
    (hc : ∀ d∈log, d.time<c.time ∨ d.time=c.time ∧ d.key≠c.key)
    (hb : ∀ k n, n∈blocks' k ↔ c.key=k ∧ n=c.time ∨ n∈blocks k)
    (hr : ∀ n w, rows' n w ↔ n=c.time ∧ w=sub c.key++enc c.value ∨ rows n w) :
    Indexed (log++[c]) sub enc blocks' rows' where
  ordered := (ordered_concat log c).mpr ⟨h.ordered,hc⟩
  mem_blocks := by
    intro k n
    simp only [hb,h.mem_blocks,List.mem_append,List.mem_singleton]
    constructor
    · rintro (⟨rfl,rfl⟩ | ⟨v,hv⟩)
      · exact ⟨c.value,Or.inr rfl⟩
      · exact ⟨v,Or.inl hv⟩
    · rintro ⟨v,hv | rfl⟩
      · exact Or.inr ⟨v,hv⟩
      · exact Or.inl ⟨rfl,rfl⟩
  mem_rows := by
    intro n w
    simp only [hr,h.mem_rows,List.mem_append,List.mem_singleton]
    constructor
    · rintro (⟨rfl,rfl⟩ | ⟨k,v,hv,rfl⟩)
      · exact ⟨c.key,c.value,Or.inr rfl,rfl⟩
      · exact ⟨k,v,Or.inl hv,rfl⟩
    · rintro ⟨k,v,hv | rfl,rfl⟩
      · exact Or.inr ⟨k,v,hv,rfl⟩
      · exact Or.inl ⟨rfl,rfl⟩

end Indexed
end Katana
