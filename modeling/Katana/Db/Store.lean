import Katana.Db.Tables

/-! A database state and the libmdbx operations on it. Each operation changes one
table; the lemmas say what every lookup answers afterwards. -/
namespace Katana

@[ext] structure Db (P : Payloads) where
  kv : (t : Table) → SortedMap t.Key (t.Value P)
  dup : (t : DupTable) → SortedSet (t.Key ×ₗ Bytes)

namespace Db
variable {P : Payloads}

def empty : Db P := ⟨fun _ => ∅,fun _ => ∅⟩

variable (db : Db P)

def get (t : Table) (k : t.Key) : Option (t.Value P) := (db.kv t).get k

def put (t : Table) (k : t.Key) (v : t.Value P) (db : Db P) : Db P :=
  { db with kv := Function.update db.kv t ((db.kv t).put k v) }

def delete (t : Table) (k : t.Key) (db : Db P) : Db P :=
  { db with kv := Function.update db.kv t ((db.kv t).erase k) }

def entries (t : Table) : Nat := (db.kv t).size

def last (t : Table) : Option (t.Key × t.Value P) := (db.kv t).last

variable (t : DupTable) (k : t.Key)

/-- Put on a DUPSORT table adds a value to its key. -/
def putDup (v : Bytes) (db : Db P) : Db P :=
  { db with dup := Function.update db.dup t ((db.dup t).insert (toLex (k,v))) }

def deleteDup (v : Bytes) (db : Db P) : Db P :=
  { db with dup := Function.update db.dup t ((db.dup t).erase (toLex (k,v))) }

/-- get_both_range: the first value of the key that is at least the subkey. -/
def seek (subkey : Bytes) : Option Bytes :=
  ((db.dup t).first (fun r => decide ((ofLex r).1=k ∧ subkey≤(ofLex r).2))).map
    (fun r => (ofLex r).2)

def dups : List Bytes :=
  ((db.dup t).elems.filter (fun r => decide ((ofLex r).1=k))).map (fun r => (ofLex r).2)

def HasDup (v : Bytes) : Prop := toLex (k,v)∈db.dup t

@[simp] theorem get_empty (t : Table) (k : t.Key) : (empty : Db P).get t k=none := rfl

@[simp] theorem hasDup_empty (v : Bytes) : ¬(empty : Db P).HasDup t k v := SortedSet.not_mem_empty _

theorem get_put (t : Table) (k k' : t.Key) (v : t.Value P) :
    (db.put t k v).get t k'=if k=k' then some v else db.get t k' := by
  simp [get,put,SortedMap.get_put]

@[simp] theorem get_put_self (t : Table) (k : t.Key) (v : t.Value P) :
    (db.put t k v).get t k=some v := by
  simp [get_put]

@[simp] theorem get_put_table {t t' : Table} (h : t'≠t) (db : Db P) (k : t.Key) (v : t.Value P)
    (k' : t'.Key) : (db.put t k v).get t' k'=db.get t' k' := by
  simp only [get,put,Function.update_of_ne h]

theorem get_delete (t : Table) (k k' : t.Key) :
    (db.delete t k).get t k'=if k=k' then none else db.get t k' := by
  simp [get,delete,SortedMap.get_erase]

@[simp] theorem get_delete_table {t t' : Table} (h : t'≠t) (db : Db P) (k : t.Key) (k' : t'.Key) :
    (db.delete t k).get t' k'=db.get t' k' := by
  simp only [get,delete,Function.update_of_ne h]

@[simp] theorem get_putDup (v : Bytes) (t' : Table)
    (k' : t'.Key) : (db.putDup t k v).get t' k'=db.get t' k' := rfl

@[simp] theorem hasDup_put (t : Table) (k : t.Key) (v : t.Value P) (t' : DupTable)
    (k' : t'.Key) (w : Bytes) : (db.put t k v).HasDup t' k' w ↔ db.HasDup t' k' w := Iff.rfl

theorem hasDup_putDup (k k' : t.Key) (v w : Bytes) :
    (db.putDup t k v).HasDup t k' w ↔ k'=k ∧ w=v ∨ db.HasDup t k' w := by
  simp [HasDup,putDup]

@[simp] theorem hasDup_putDup_table {t t' : DupTable} (h : t'≠t) (db : Db P) (k : t.Key)
    (v : Bytes) (k' : t'.Key) (w : Bytes) :
    (db.putDup t k v).HasDup t' k' w ↔ db.HasDup t' k' w := by
  simp only [HasDup,putDup,Function.update_of_ne h]

theorem hasDup_deleteDup (k k' : t.Key) (v w : Bytes) :
    (db.deleteDup t k v).HasDup t k' w ↔ db.HasDup t k' w ∧ ¬(k'=k ∧ w=v) := by
  simp [HasDup,deleteDup]

theorem seek_eq_none (subkey : Bytes) :
    db.seek t k subkey=none ↔ ∀ v, db.HasDup t k v → ¬subkey≤v := by
  unfold seek
  rw [Option.map_eq_none_iff,SortedSet.first_eq_none]
  constructor
  · intro h v hv hle
    have := h (toLex (k,v)) hv
    simp [hle] at this
  · intro h r hr
    by_cases hk : (ofLex r).1=k
    · subst hk
      simpa using h (ofLex r).2 hr
    · simp [hk]

theorem seek_eq_some (subkey v : Bytes) : db.seek t k subkey=some v ↔
      db.HasDup t k v ∧ subkey≤v ∧ ∀ w, db.HasDup t k w → subkey≤w → v≤w := by
  unfold seek
  rw [Option.map_eq_some_iff]
  constructor
  · rintro ⟨r,hr,rfl⟩
    obtain ⟨hm,hp,hmin⟩ := (SortedSet.first_eq_some _ _ _).mp hr
    obtain ⟨rfl,hle⟩ := of_decide_eq_true hp
    refine ⟨hm,hle,?_⟩
    intro w hw hsw
    have hlex := hmin (toLex ((ofLex r).1,w)) hw (by simp [hsw])
    obtain hlt | ⟨_,h⟩ := Prod.Lex.le_iff.mp hlex
    · exact absurd hlt (lt_irrefl _)
    · exact h
  · intro ⟨hm,hle,hmin⟩
    refine ⟨toLex (k,v),(SortedSet.first_eq_some _ _ _).mpr ⟨hm,by simp [hle],?_⟩,rfl⟩
    intro r hr hp
    obtain ⟨rfl,hsr⟩ := of_decide_eq_true hp
    exact Prod.Lex.le_iff.mpr (Or.inr ⟨rfl,hmin _ hr hsr⟩)

/-- When one stored value starts with the subkey, the seek finds it: a value
between the subkey and that one starts with the subkey too. -/
theorem seek_prefix {db : Db P} {t : DupTable} {k : t.Key} {subkey v : Bytes}
    (hv : db.HasDup t k v) (hp : subkey<+:v)
    (hu : ∀ w, db.HasDup t k w → subkey<+:w → w=v) : db.seek t k subkey=some v := by
  obtain ⟨x,rfl⟩ := hp
  cases hs : db.seek t k subkey with
  | none => exact absurd (ByteOrder.le_append subkey x) ((seek_eq_none db t k subkey).mp hs _ hv)
  | some w =>
    obtain ⟨hw,hle,hmin⟩ := (seek_eq_some db t k subkey w).mp hs
    have hwv := hmin _ hv (ByteOrder.le_append subkey x)
    rw [hu w hw (ByteOrder.prefix_of_between subkey w x hle hwv)]

theorem mem_dups (v : Bytes) : v∈db.dups t k ↔ db.HasDup t k v := by
  simp only [dups,List.mem_map,List.mem_filter,decide_eq_true_eq]
  constructor
  · rintro ⟨r,⟨hr,rfl⟩,rfl⟩
    exact hr
  · intro h
    exact ⟨toLex (k,v),⟨h,rfl⟩,rfl⟩

end Db
end Katana
