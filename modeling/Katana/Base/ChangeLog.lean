import Katana.Base.SortedMap

/-! Logs of timed changes to keyed values. The value of a key at a time is the
last change to it up to that time. -/

/-- At the given time the key got the value. -/
structure Change (κ ν : Type*) where
  time : Nat
  key : κ
  value : ν
  deriving DecidableEq

variable {t : Nat} {α : Type*}

namespace ChangeLog
variable {κ ν : Type*} {log : List (Change κ ν)}

def upTo (t : Nat) (log : List (Change κ ν)) : List (Change κ ν) :=
  log.filter (fun c => decide (c.time≤t))

/-- Times never go back, and one time changes a key at most once. -/
def Ordered (log : List (Change κ ν)) : Prop :=
  log.Pairwise (fun c d => c.time<d.time ∨ c.time=d.time ∧ c.key≠d.key)

theorem upTo_append (t : Nat) (l m : List (Change κ ν)) :
    upTo t (l++m)=upTo t l++upTo t m := List.filter_append l m

theorem upTo_eq_self (h : ∀ c∈log, c.time≤t) : upTo t log=log :=
  List.filter_eq_self.mpr (fun c hc => by simpa using h c hc)

theorem upTo_eq_nil (h : ∀ c∈log, t<c.time) : upTo t log=[] :=
  List.filter_eq_nil_iff.mpr (fun c hc => by simpa using h c hc)

theorem ordered_concat (log : List (Change κ ν)) (c : Change κ ν) :
    Ordered (log++[c]) ↔
      Ordered log ∧ ∀ d∈log, d.time<c.time ∨ d.time=c.time ∧ d.key≠c.key := by
  simp [Ordered,List.pairwise_append]

theorem Ordered.upTo (h : Ordered log) (t : Nat) : Ordered (upTo t log) := List.Pairwise.filter _ h

theorem Ordered.unique (h : Ordered log) {k : κ} {v w : ν} (hv : ⟨t,k,v⟩∈log) (hw : ⟨t,k,w⟩∈log) :
    v=w := by
  induction log with
  | nil => simp at hv
  | cons c cs ih =>
    obtain ⟨hc,hcs⟩ := List.pairwise_cons.mp h
    have hno : ∀ {x y : ν}, (⟨t,k,x⟩ : Change κ ν)=c → ⟨t,k,y⟩∈cs → False := by
      intro x y hx hy
      have := hc _ hy
      rw [← hx] at this
      simp at this
    obtain hv' | hv' := List.mem_cons.mp hv
    · obtain hw' | hw' := List.mem_cons.mp hw
      · have := hv'.trans hw'.symm
        simpa using this
      · exact (hno hv' hw').elim
    · obtain hw' | hw' := List.mem_cons.mp hw
      · exact (hno hw' hv').elim
      · exact ih hcs hv' hw'

variable [DecidableEq κ]

def latest (log : List (Change κ ν)) (k : κ) : Option ν :=
  (log.reverse.find? (fun c => decide (c.key=k))).map Change.value

def asOf (log : List (Change κ ν)) (t : Nat) (k : κ) : Option ν := latest (upTo t log) k

@[simp] theorem latest_nil (k : κ) : latest ([] : List (Change κ ν)) k=none := rfl

theorem latest_concat (log : List (Change κ ν)) (c : Change κ ν) (k : κ) :
    latest (log++[c]) k=if c.key=k then some c.value else latest log k := by
  by_cases h : c.key=k <;> simp [latest,h]

theorem latest_append (l m : List (Change κ ν)) (k : κ) :
    latest (l++m) k=(latest m k).or (latest l k) := by
  simp only [latest,List.reverse_append,List.find?_append]
  cases m.reverse.find? (fun c => decide (c.key=k)) <;> rfl

theorem latest_flatMap (l : List α) (f : α → List (Change κ ν)) (k : κ) :
    latest (l.flatMap f) k=l.reverse.findSome? (fun x => latest (f x) k) := by
  induction l using List.reverseRecOn with
  | nil => rfl
  | append_singleton l x ih =>
    rw [List.flatMap_append,latest_append,ih]
    cases h : latest (f x) k <;> simp [h]

theorem latest_eq_none (log : List (Change κ ν)) (k : κ) :
    latest log k=none ↔ ∀ c∈log, c.key≠k := by
  simp [latest,List.find?_eq_none]

theorem latest_mem {k : κ} {v : ν} (h : latest log k=some v) : ∃ t, ⟨t,k,v⟩∈log := by
  obtain ⟨c,hc,rfl⟩ := Option.map_eq_some_iff.mp h
  have hk : c.key=k := by simpa using List.find?_some hc
  subst hk
  exact ⟨c.time,List.mem_reverse.mp (List.mem_of_find?_eq_some hc)⟩

theorem asOf_append {l m : List (Change κ ν)} (hl : ∀ c∈l, c.time≤t) (hm : ∀ c∈m, t<c.time)
    (k : κ) : asOf (l++m) t k=latest l k := by
  rw [asOf,upTo_append,upTo_eq_self hl,upTo_eq_nil hm,List.append_nil]

theorem asOf_eq_none (log : List (Change κ ν)) (t : Nat) (k : κ) :
    asOf log t k=none ↔ ∀ c∈log, c.key=k → t<c.time := by
  simp only [asOf,latest_eq_none,upTo,List.mem_filter,decide_eq_true_eq,and_imp]
  constructor
  · intro h c hc hk
    exact Nat.lt_of_not_le (fun hle => h c hc hle hk)
  · intro h c hc hle hk
    exact absurd hle (Nat.not_le.mpr (h c hc hk))

theorem Ordered.latest_eq_some (h : Ordered log) (k : κ) (v : ν) :
    latest log k=some v ↔
      ∃ t, ⟨t,k,v⟩∈log ∧ ∀ c∈log, c.key=k → c.time≤t := by
  induction log using List.reverseRecOn with
  | nil => simp
  | append_singleton log c ih =>
    obtain ⟨ho,hc⟩ := (ordered_concat log c).mp h
    rw [latest_concat]
    by_cases hk : c.key=k
    · rw [if_pos hk]
      constructor
      · rintro ⟨rfl⟩
        refine ⟨c.time,by simp [← hk],?_⟩
        intro d hd _
        obtain hd | hd := List.mem_append.mp hd
        · have := hc d hd
          omega
        · exact Nat.le_of_eq (congrArg Change.time (List.mem_singleton.mp hd))
      · rintro ⟨t,hv,hmax⟩
        obtain hv | hv := List.mem_append.mp hv
        · have h1 := hmax c (by simp) hk
          have h2 := hc _ hv
          simp only [hk] at h2
          exfalso
          rcases h2 with h2 | ⟨_,h2⟩
          · omega
          · exact h2 rfl
        · rw [← List.mem_singleton.mp hv]
    · rw [if_neg hk,ih ho]
      constructor
      · rintro ⟨t,hv,hmax⟩
        refine ⟨t,by simp [hv],?_⟩
        intro d hd hdk
        obtain hd | hd := List.mem_append.mp hd
        · exact hmax d hd hdk
        · rw [List.mem_singleton.mp hd] at hdk
          exact absurd hdk hk
      · rintro ⟨t,hv,hmax⟩
        obtain hv | hv := List.mem_append.mp hv
        · exact ⟨t,hv,fun d hd => hmax d (List.mem_append_left _ hd)⟩
        · rw [← List.mem_singleton.mp hv] at hk
          exact absurd rfl hk

theorem Ordered.asOf_eq_some (h : Ordered log) (t : Nat) (k : κ) (v : ν) : asOf log t k=some v ↔
      ∃ n, ⟨n,k,v⟩∈log ∧ n≤t ∧ ∀ c∈log, c.key=k → c.time≤t → c.time≤n := by
  rw [asOf,(h.upTo t).latest_eq_some]
  simp only [ChangeLog.upTo,List.mem_filter,decide_eq_true_eq,and_assoc,and_imp]
  constructor
  · rintro ⟨n,hv,hn,hmax⟩
    exact ⟨n,hv,hn,fun c hc hk hct => hmax c hc hct hk⟩
  · rintro ⟨n,hv,hn,hmax⟩
    exact ⟨n,hv,hn,fun c hc hct hk => hmax c hc hk hct⟩

/-- Dropping the changes up to a cutoff leaves the value of a later time exactly if
the key changed after the cutoff, or not at all up to it. -/
theorem Ordered.asOf_dropUpTo_iff (h : Ordered log) (cutoff t : Nat) (hct : cutoff<t) (k : κ) :
    asOf (log.filter (fun c => decide (cutoff<c.time))) t k=asOf log t k ↔
      ((∃ c∈log, c.key=k ∧ c.time≤cutoff) → ∃ c∈log, c.key=k ∧ cutoff<c.time ∧ c.time≤t) := by
  have hf : Ordered (log.filter (fun c => decide (cutoff<c.time))) := List.Pairwise.filter _ h
  by_cases hlate : ∃ c∈log, c.key=k ∧ cutoff<c.time ∧ c.time≤t
  · refine iff_of_true ?_ (fun _ => hlate)
    obtain ⟨c,hc,hk,hlt,hle⟩ := hlate
    ext v
    rw [hf.asOf_eq_some,h.asOf_eq_some]
    simp only [List.mem_filter,decide_eq_true_eq]
    constructor
    · rintro ⟨n,⟨hv,hn⟩,hnt,hmax⟩
      refine ⟨n,hv,hnt,?_⟩
      intro d hd hdk hdt
      by_cases hdc : cutoff<d.time
      · exact hmax d ⟨hd,hdc⟩ hdk hdt
      · omega
    · rintro ⟨n,hv,hnt,hmax⟩
      have hcn := hmax c hc hk hle
      exact ⟨n,⟨hv,by omega⟩,hnt,fun d hd hdk hdt => hmax d hd.1 hdk hdt⟩
  · have hnone : asOf (log.filter (fun c => decide (cutoff<c.time))) t k=none := by
      rw [asOf_eq_none]
      intro c hc hk
      obtain ⟨hcl,hlt⟩ := List.mem_filter.mp hc
      exact Nat.lt_of_not_le (fun hle => hlate ⟨c,hcl,hk,by simpa using hlt,hle⟩)
    rw [hnone,eq_comm,asOf_eq_none]
    constructor
    · rintro hall ⟨c,hc,hk,hle⟩
      have := hall c hc hk
      omega
    · intro himp c hc hk
      by_contra hle
      have hle : c.time≤t := Nat.not_lt.mp hle
      by_cases hcc : c.time≤cutoff
      · exact hlate (himp ⟨c,hc,hk,hcc⟩)
      · exact hlate ⟨c,hc,hk,by omega,hle⟩

end ChangeLog

namespace ChangeLog
variable {κ ν : Type*}

/-- All rows of a map as changes at one time. -/
def changesAt (t : Nat) (rows : List (κ × ν)) : List (Change κ ν) :=
  rows.map (fun r => ⟨t,r.1,r.2⟩)

theorem mem_changesAt (t : Nat) (rows : List (κ × ν)) (c : Change κ ν) :
    c∈changesAt t rows ↔ c.time=t ∧ (c.key,c.value)∈rows := by
  simp only [changesAt,List.mem_map]
  constructor
  · rintro ⟨r,hr,rfl⟩
    exact ⟨rfl,hr⟩
  · rintro ⟨rfl,hr⟩
    exact ⟨_,hr,rfl⟩

variable [LinearOrder κ]

theorem changesAt_fresh {log : List (Change κ ν)} {m : SortedMap κ ν} {pre post : List (κ × ν)}
    {r : κ × ν} (hlog : ∀ d∈log, d.time<t) (h : m.rows=pre++r::post) :
    ∀ d∈log++changesAt t pre, d.time<t ∨ d.time=t ∧ d.key≠r.1 := by
  intro d hd
  obtain hd | hd := List.mem_append.mp hd
  · exact Or.inl (hlog d hd)
  · obtain ⟨ht,hk⟩ := (mem_changesAt t pre d).mp hd
    exact Or.inr ⟨ht,ne_of_lt (SortedMap.key_lt_of_split h hk)⟩

theorem ordered_changesAt (t : Nat) (m : SortedMap κ ν) : Ordered (changesAt t m.rows) :=
  List.pairwise_map.mpr (m.sorted.imp (fun h => Or.inr ⟨rfl,ne_of_lt h⟩))

theorem latest_changesAt [DecidableEq κ] (t : Nat) (m : SortedMap κ ν) (k : κ) :
    latest (changesAt t m.rows) k=m.get k := by
  ext v
  rw [Ordered.latest_eq_some (ordered_changesAt t m),SortedMap.get_eq_some]
  simp only [mem_changesAt]
  constructor
  · rintro ⟨_,⟨rfl,hv⟩,_⟩
    exact hv
  · intro hv
    exact ⟨t,⟨rfl,hv⟩,fun c hc _ => Nat.le_of_eq hc.1⟩

/-- Changes that number the elements of a list from an offset on. -/
def numbered {α : Type*} (off : Nat) (g : α → ν) (l : List α) : List (Change Nat ν) :=
  l.zipIdx.map (fun r => ⟨0,off+r.2,g r.1⟩)

theorem latest_numbered (off : Nat) (g : α → ν) (l : List α) (j : Nat) :
    latest (numbered off g l) j=if off≤j then (l.map g)[j-off]? else none := by
  induction l using List.reverseRecOn with
  | nil => simp [numbered]
  | append_singleton l x ih =>
    have hcons : numbered off g (l++[x])=numbered off g l++[⟨0,off+l.length,g x⟩] := by
      simp [numbered,List.zipIdx_append]
    rw [hcons,latest_concat,ih]
    by_cases hj : off+l.length=j
    · have hsub : j-off=l.length := by omega
      have hle : off≤j := by omega
      simp [hj,hle,hsub]
    · by_cases hle : off≤j
      · have hne : j-off≠l.length := by omega
        simp only [hj,hle,if_true,if_false,List.map_append,List.map_cons,List.map_nil]
        by_cases hlt : j-off<l.length
        · rw [List.getElem?_append_left (by simpa using hlt)]
        · rw [List.getElem?_eq_none (by simp; omega),List.getElem?_eq_none (by simp; omega)]
      · simp [hj,hle]

theorem latest_numbered_or (all : List ν) (g : α → ν) (l : List α) (j : Nat) :
    (latest (numbered all.length g l) j).or all[j]?=(all++l.map g)[j]? := by
  rw [latest_numbered]
  by_cases hj : all.length≤j
  · have hnone : all[j]?=none := List.getElem?_eq_none hj
    rw [if_pos hj,hnone,Option.or_none,List.getElem?_append_right hj]
  · rw [if_neg hj,Option.none_or,List.getElem?_append_left (by omega)]

end ChangeLog
