import Katana.Base.SortedSet
import Mathlib.Data.List.Induction
import Mathlib.Data.List.Nodup
import Mathlib.Data.List.Perm.Subperm

/-! Finite maps kept as lists with strictly increasing keys. Lookup determines
the map, so every operation is specified by the lookups after it. -/
namespace SortedMap
variable {κ ν : Type*} [LinearOrder κ]

def putList (k : κ) (v : ν) : List (κ × ν) → List (κ × ν)
  | [] => [(k,v)]
  | r::rs => if k<r.1 then (k,v)::r::rs else if k=r.1 then (k,v)::rs else r::putList k v rs

theorem mem_putList_key (k : κ) (v : ν) (r : κ × ν) (l : List (κ × ν))
    (h : r∈putList k v l) : r.1=k ∨ r∈l := by
  induction l with
  | nil => simp_all [putList]
  | cons s rs ih =>
    unfold putList at h
    split_ifs at h with hlt he
    · obtain rfl | h := List.mem_cons.mp h
      · exact Or.inl rfl
      · exact Or.inr h
    · obtain rfl | h := List.mem_cons.mp h
      · exact Or.inl rfl
      · exact Or.inr (List.mem_cons_of_mem s h)
    · obtain rfl | h := List.mem_cons.mp h
      · exact Or.inr List.mem_cons_self
      · exact (ih h).imp id (List.mem_cons_of_mem s)

theorem putList_pairwise (k : κ) (v : ν) (l : List (κ × ν))
    (h : l.Pairwise (fun r s => r.1 < s.1)) :
    (putList k v l).Pairwise (fun r s => r.1 < s.1) := by
  induction l with
  | nil => simp [putList]
  | cons s rs ih =>
    obtain ⟨hs,hrs⟩ := List.pairwise_cons.mp h
    unfold putList
    split_ifs with hlt he
    · refine List.pairwise_cons.mpr ⟨?_,h⟩
      intro r hr
      obtain rfl | hr := List.mem_cons.mp hr
      · exact hlt
      · exact hlt.trans (hs r hr)
    · exact List.pairwise_cons.mpr ⟨fun r hr => he ▸ hs r hr,hrs⟩
    · refine List.pairwise_cons.mpr ⟨?_,ih hrs⟩
      intro r hr
      obtain hr | hr := mem_putList_key k v r rs hr
      · rw [hr]
        exact lt_of_le_of_ne (not_lt.mp hlt) (Ne.symm he)
      · exact hs r hr

end SortedMap

/-- A finite map of a linear order, stored in increasing order of its keys. -/
@[ext] structure SortedMap (κ ν : Type*) [LinearOrder κ] where
  rows : List (κ × ν)
  sorted : rows.Pairwise (fun r s => r.1 < s.1)

namespace SortedMap
variable {κ ν μ : Type*} [LinearOrder κ] {m : SortedMap κ ν} {k : κ} {l : List (κ × ν)}

instance : EmptyCollection (SortedMap κ ν) := ⟨⟨[],List.Pairwise.nil⟩⟩
instance : Inhabited (SortedMap κ ν) := ⟨∅⟩
instance [DecidableEq ν] : DecidableEq (SortedMap κ ν) := fun s t =>
  decidable_of_iff (s.rows=t.rows) ⟨SortedMap.ext,congrArg rows⟩

def get (m : SortedMap κ ν) (k : κ) : Option ν :=
  (m.rows.find? (fun r => decide (r.1=k))).map Prod.snd

def put (k : κ) (v : ν) (m : SortedMap κ ν) : SortedMap κ ν :=
  ⟨putList k v m.rows,putList_pairwise k v m.rows m.sorted⟩

def erase (k : κ) (m : SortedMap κ ν) : SortedMap κ ν :=
  ⟨m.rows.filter (fun r => decide (r.1≠k)),m.sorted.filter _⟩

def size (m : SortedMap κ ν) : Nat := m.rows.length

theorem size_put_le (k : κ) (v : ν) (m : SortedMap κ ν) : (m.put k v).size≤ m.size+1 := by
  have hlen (l : List (κ × ν)) : (putList k v l).length≤l.length+1 := by
    induction l with
    | nil => simp [putList]
    | cons r l ih =>
      unfold putList
      split_ifs
      · simp
      · simp
      · simpa using ih
  exact hlen m.rows

def last (m : SortedMap κ ν) : Option (κ × ν) := m.rows.getLast?

theorem keys_nodup (m : SortedMap κ ν) : (m.rows.map Prod.fst).Nodup :=
  List.pairwise_map.mpr (m.sorted.imp ne_of_lt)

theorem key_lt_of_split {pre post : List (κ × ν)} {q r : κ × ν} (h : m.rows=pre++r::post) (hq : q∈pre) :
    q.1<r.1 := by
  have hs := m.sorted
  rw [h] at hs
  exact (List.pairwise_append.mp hs).2.2 q hq r List.mem_cons_self

theorem find_key_eq_some {β ι : Type*} [DecidableEq ι] {key : β → ι} {l : List β}
    (hn : (l.map key).Nodup) {k : ι} {r : β} :
    l.find? (fun x => decide (key x=k))=some r ↔ r∈l ∧ key r=k := by
  constructor
  · intro h
    exact ⟨List.mem_of_find?_eq_some h,by simpa using List.find?_some h⟩
  · intro h
    obtain ⟨hr,hk⟩ := h
    cases hf : l.find? (fun x => decide (key x=k)) with
    | none =>
      have hno := List.find?_eq_none.mp hf r hr
      simp [hk] at hno
    | some q =>
      have hq : key q=k := by simpa using List.find?_some hf
      rw [List.inj_on_of_nodup_map hn (List.mem_of_find?_eq_some hf) hr (hq.trans hk.symm)]

theorem get_eq_some (m : SortedMap κ ν) (k : κ) (v : ν) : m.get k=some v ↔ (k,v)∈m.rows := by
  unfold get
  rw [Option.map_eq_some_iff]
  simp only [find_key_eq_some m.keys_nodup]
  constructor
  · intro h
    obtain ⟨r,⟨hr,rfl⟩,rfl⟩ := h
    exact hr
  · intro h
    exact ⟨(k,v),⟨h,rfl⟩,rfl⟩

theorem get_eq_none (m : SortedMap κ ν) (k : κ) : m.get k=none ↔ ∀ r∈m.rows, r.1≠k := by
  simp [get,List.find?_eq_none]

@[simp] theorem get_empty (k : κ) : (∅ : SortedMap κ ν).get k=none := rfl

theorem ext_get {n : SortedMap κ ν} (h : ∀ k, m.get k=n.get k) : m=n := by
  have hmem : ∀ r, r∈m.rows ↔ r∈n.rows := by
    intro r
    rw [← get_eq_some m r.1 r.2,← get_eq_some n r.1 r.2,h]
  have hp : m.rows.Perm n.rows :=
    (List.perm_ext_iff_of_nodup (List.Nodup.of_map _ m.keys_nodup)
      (List.Nodup.of_map _ n.keys_nodup)).mpr hmem
  apply SortedMap.ext
  exact hp.eq_of_pairwise (fun a b _ _ hab hba => absurd (hab.trans hba) (lt_irrefl a.1))
    m.sorted n.sorted

theorem find_putList (k k' : κ) (v : ν) (l : List (κ × ν)) :
    ((putList k v l).find? (fun r => decide (r.1=k'))).map Prod.snd =
      if k=k' then some v else (l.find? (fun r => decide (r.1=k'))).map Prod.snd := by
  induction l with
  | nil => by_cases h : k=k' <;> simp [putList,h]
  | cons r rs ih =>
    unfold putList
    by_cases hlt : k<r.1
    · rw [if_pos hlt]
      by_cases h : k=k' <;> simp [h]
    · by_cases he : k=r.1
      · by_cases h : k=k'
        · simp [← he,h]
        · simp [← he,h]
      · rw [if_neg hlt,if_neg he]
        by_cases hr : r.1=k'
        · have h : k≠k' := fun h => he (h.trans hr.symm)
          simp [hr,h]
        · simpa [hr] using ih

theorem get_put (k k' : κ) (v : ν) (m : SortedMap κ ν) :
    (m.put k v).get k'=if k=k' then some v else m.get k' := find_putList k k' v m.rows

@[simp] theorem get_put_self (k : κ) (v : ν) (m : SortedMap κ ν) : (m.put k v).get k=some v := by
  simp [get_put]

theorem get_put_ne {k' : κ} (h : k≠k') (v : ν) (m : SortedMap κ ν) :
    (m.put k v).get k'=m.get k' := by
  simp [get_put,h]

theorem eq_of_get_single {k' : κ} {v : ν} (h : ((∅ : SortedMap κ ν).put k v).get k'≠none) :
    k'=k := by
  by_contra hne
  exact h (get_put_ne (Ne.symm hne) v ∅)

theorem get_erase (k k' : κ) (m : SortedMap κ ν) :
    (m.erase k).get k'=if k=k' then none else m.get k' := by
  by_cases h : k=k'
  · rw [if_pos h,get_eq_none]
    intro r hr
    have := (List.mem_filter.mp hr).2
    simpa [h] using this
  · rw [if_neg h]
    ext v
    rw [get_eq_some,get_eq_some]
    simp [erase,Ne.symm h]

theorem last_eq_some (m : SortedMap κ ν) (k : κ) (v : ν) :
    m.last=some (k,v) ↔ m.get k=some v ∧ ∀ k' v', m.get k'=some v' → k'≤k := by
  simp only [get_eq_some]
  constructor
  · intro h
    obtain ⟨ys,he⟩ := List.getLast?_eq_some_iff.mp h
    have hs := m.sorted
    rw [he] at hs ⊢
    refine ⟨by simp,?_⟩
    intro k' v' hr
    obtain hr | hr := List.mem_append.mp hr
    · exact le_of_lt ((List.pairwise_append.mp hs).2.2 (k',v') hr (k,v) (by simp))
    · simp only [List.mem_singleton,Prod.mk.injEq] at hr
      exact le_of_eq hr.1
  · intro ⟨hm,hmax⟩
    cases hl : m.last with
    | none =>
      rw [List.getLast?_eq_none_iff.mp hl] at hm
      simp at hm
    | some r =>
      have hr : r∈m.rows := List.mem_of_getLast? hl
      obtain ⟨ys,he⟩ := List.getLast?_eq_some_iff.mp hl
      have hle : k≤r.1 := by
        have hs := m.sorted
        rw [he] at hs hm
        obtain hm | hm := List.mem_append.mp hm
        · exact le_of_lt ((List.pairwise_append.mp hs).2.2 (k,v) hm r (by simp))
        · simp only [List.mem_singleton] at hm
          rw [← hm]
      have hk : r.1=k := le_antisymm (hmax r.1 r.2 hr) hle
      rw [List.inj_on_of_nodup_map m.keys_nodup hr hm hk]

theorem size_of_keys_lt (m : SortedMap Nat ν) (n : Nat) (h : ∀ i, m.get i≠none ↔ i<n) :
    m.size=n := by
  have hkeys : m.rows.map Prod.fst=List.range n := by
    refine SortedSet.pairwise_ext _ _ (List.pairwise_map.mpr m.sorted) List.pairwise_lt_range ?_
    intro i
    rw [List.mem_range,← h i]
    constructor
    · intro hi
      obtain ⟨r,hr,rfl⟩ := List.mem_map.mp hi
      rw [(m.get_eq_some r.1 r.2).mpr hr]
      simp
    · intro hi
      obtain ⟨v,hv⟩ := Option.ne_none_iff_exists'.mp hi
      exact List.mem_map.mpr ⟨(i,v),(m.get_eq_some i v).mp hv,rfl⟩
  rw [size,← List.length_map Prod.fst,hkeys,List.length_range]

theorem size_le_of_keys {l : List κ} (h : ∀ k, m.get k≠none → k∈l) : m.size≤l.length := by
  have hsub : (m.rows.map Prod.fst).Subperm l := by
    apply List.subperm_of_subset m.keys_nodup
    intro k hk
    obtain ⟨r,hr,rfl⟩ := List.mem_map.mp hk
    exact h r.1 (by simp [(m.get_eq_some r.1 r.2).mpr hr])
  simpa [size] using hsub.length_le

theorem foldl_update {β : Type*} (f : β → μ → β) (g : κ → β) (u : SortedMap κ μ) (k : κ) :
    u.rows.foldl (fun g r => Function.update g r.1 (f (g r.1) r.2)) g k=match u.get k with
      | some v => f (g k) v
      | none => g k := by
  have hfold : ∀ (l : List (κ × μ)) (g : κ → β), (l.map Prod.fst).Nodup →
      l.foldl (fun g r => Function.update g r.1 (f (g r.1) r.2)) g k=
        match (l.find? (fun r => decide (r.1=k))).map Prod.snd with
        | some v => f (g k) v
        | none => g k := by
    intro l
    induction l with
    | nil => exact fun _ _ => rfl
    | cons r rs ih =>
      intro g hn
      obtain ⟨hr,hrs⟩ := List.nodup_cons.mp hn
      rw [List.foldl_cons,ih _ hrs]
      by_cases hk : r.1=k
      · have hnone : rs.find? (fun r => decide (r.1=k))=none := by
          rw [List.find?_eq_none]
          intro s hs
          simp only [decide_eq_true_eq]
          intro he
          exact hr (List.mem_map.mpr ⟨s,hs,he.trans hk.symm⟩)
        rw [hnone,List.find?_cons_of_pos (by simpa using hk)]
        simp [← hk]
      · rw [List.find?_cons_of_neg (by simpa using hk),Function.update_of_ne (Ne.symm hk)]
  exact hfold u.rows g u.keys_nodup

/-- Every entry of u is combined with what the map has under its key. -/
def merge {μ : Type*} (f : Option ν → μ → ν) (m : SortedMap κ ν) (u : SortedMap κ μ) :
    SortedMap κ ν :=
  u.rows.foldl (fun m r => m.put r.1 (f (m.get r.1) r.2)) m

theorem get_merge (f : Option ν → μ → ν) (m : SortedMap κ ν) (u : SortedMap κ μ) (k : κ) :
    (merge f m u).get k=match u.get k with
      | some v => some (f (m.get k) v)
      | none => m.get k := by
  have hget : ∀ (l : List (κ × μ)) (m : SortedMap κ ν),
      (l.foldl (fun m r => m.put r.1 (f (m.get r.1) r.2)) m).get=
        l.foldl (fun (g : κ → Option ν) r => Function.update g r.1 (some (f (g r.1) r.2)))
          m.get := by
    intro l
    induction l with
    | nil => exact fun _ => rfl
    | cons r rs ih =>
      intro m
      have hput : (m.put r.1 (f (m.get r.1) r.2)).get=
          Function.update m.get r.1 (some (f (m.get r.1) r.2)) := by
        funext k
        rw [get_put,Function.update_apply]
        simp only [eq_comm]
      rw [List.foldl_cons,List.foldl_cons,ih,hput]
  rw [merge,hget u.rows m]
  exact foldl_update (fun o v => some (f o v)) m.get u k

def override (m u : SortedMap κ ν) : SortedMap κ ν := merge (fun _ v => v) m u

theorem get_override (m u : SortedMap κ ν) (k : κ) :
    (m.override u).get k=(u.get k).or (m.get k) := by
  rw [override,get_merge]
  cases u.get k <;> rfl

def mapValues {μ : Type*} (f : κ → ν → μ) (m : SortedMap κ ν) : SortedMap κ μ :=
  ⟨m.rows.map (fun r => (r.1,f r.1 r.2)),List.pairwise_map.mpr m.sorted⟩

theorem get_mapValues (f : κ → ν → μ) (m : SortedMap κ ν) (k : κ) :
    (m.mapValues f).get k=(m.get k).map (f k) := by
  ext v
  rw [get_eq_some,Option.map_eq_some_iff]
  simp only [mapValues,List.mem_map,Prod.mk.injEq,get_eq_some]
  constructor
  · rintro ⟨r,hr,rfl,rfl⟩
    exact ⟨r.2,hr,rfl⟩
  · rintro ⟨a,ha,rfl⟩
    exact ⟨(k,a),ha,rfl,rfl⟩

/-- The map collected from a list; a later entry replaces an earlier one. -/
def ofList (l : List (κ × ν)) : SortedMap κ ν := l.foldl (fun m r => m.put r.1 r.2) ∅

theorem get_foldl_put (f : κ → Option ν) (l : List κ) (m : SortedMap κ ν) (k : κ) :
    (l.foldl (fun m a => (f a).elim m fun v => m.put a v) m).get k=
      if k∈l then (f k).or (m.get k) else m.get k := by
  induction l generalizing m with
  | nil => simp
  | cons a l ih =>
    have hput : ((f a).elim m fun v => m.put a v).get k=
        if a=k then (f k).or (m.get k) else m.get k := by
      by_cases ha : a=k
      · subst ha
        cases f a <;> simp
      · cases f a <;> simp [ha,get_put]
    rw [List.foldl_cons,ih,hput]
    by_cases hk : a=k
    · subst hk
      by_cases hl : a∈l <;> cases f a <;> simp [hl]
    · simp [hk,Ne.symm hk]

theorem get_ofList_concat (l : List (κ × ν)) (r : κ × ν) (k : κ) :
    (ofList (l++[r])).get k=if r.1=k then some r.2 else (ofList l).get k := by
  simp [ofList,get_put]

theorem get_ofList_eq_find (l : List (κ × ν)) (k : κ) :
    (ofList l).get k=(l.reverse.find? (fun r => decide (r.1=k))).map Prod.snd := by
  induction l using List.reverseRecOn with
  | nil => rfl
  | append_singleton l r ih =>
    rw [get_ofList_concat,ih]
    by_cases hr : r.1=k <;> simp [hr]

theorem mem_of_get_ofList {v : ν} (h : (ofList l).get k=some v) : (k,v)∈l := by
  induction l using List.reverseRecOn with
  | nil => simp [ofList] at h
  | append_singleton l r ih =>
    rw [get_ofList_concat] at h
    by_cases hr : r.1=k
    · simp only [hr,if_true,Option.some.injEq] at h
      simp [← hr,← h]
    · simp only [hr,if_false] at h
      exact List.mem_append_left _ (ih h)

theorem get_ofList_ne_none {v : ν} (h : (k,v)∈l) : (ofList l).get k≠none := by
  induction l using List.reverseRecOn with
  | nil => cases h
  | append_singleton l r ih =>
    rw [get_ofList_concat]
    by_cases hr : r.1=k
    · simp [hr]
    · have hm : (k,v)∈l := by
        cases List.mem_append.mp h with
        | inl hl => exact hl
        | inr hl => exact absurd (congrArg Prod.fst (List.mem_singleton.mp hl)).symm hr
      simpa [hr] using ih hm

theorem get_ofList_eq {o : Option ν} (h : ∀ v, (k,v)∈l ↔ o=some v) : (ofList l).get k=o := by
  cases hl : (ofList l).get k with
  | some v => exact ((h v).mp (mem_of_get_ofList hl)).symm
  | none =>
    cases ho : o with
    | none => rfl
    | some v => exact absurd hl (get_ofList_ne_none ((h v).mpr ho))

/-- The entries of a map under renamed keys give the map back exactly if no key is
renamed, for a renaming that is a projection. -/
theorem ofList_rename_eq_iff {norm : κ → κ} (hidem : ∀ a, norm (norm a)=norm a)
    (hl : ∀ k v, (k,v)∈l ↔ ∃ a, m.get a=some v ∧ k=norm a) :
    ofList l=m ↔ ∀ a, m.get a≠none → norm a=a := by
  constructor
  · intro he a ha
    obtain ⟨v,hv⟩ := Option.ne_none_iff_exists'.mp ha
    rw [← he] at hv
    obtain ⟨b,_,hb⟩ := (hl a v).mp (mem_of_get_ofList hv)
    rw [hb,hidem]
  · intro hnorm
    have hmem : ∀ k v, (k,v)∈l ↔ m.get k=some v := by
      intro k v
      rw [hl k v]
      constructor
      · intro ⟨a,ha,hk⟩
        rw [hk,hnorm a (by simp [ha]),ha]
      · intro hk
        exact ⟨k,hk,(hnorm k (by simp [hk])).symm⟩
    exact ext_get (fun k => get_ofList_eq (hmem k))

end SortedMap
