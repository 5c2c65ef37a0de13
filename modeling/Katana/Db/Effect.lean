import Katana.Base.ChangeLog
import Katana.Db.Tx

/-! The effect of a transaction program on the tables. Programs that only put have
as effect the list of their puts, table by table; for the others the tables they
write are named and everything else is unchanged. -/
namespace Katana
open ChangeLog
variable {P : Payloads} {s s' : Db P}

/-- The puts of a program, in order, for every table; all at time zero. -/
structure Effect (P : Payloads) where
  puts : (t : Table) → List (Change t.Key (t.Value P))
  dups : (t : DupTable) → List (t.Key × Bytes)

namespace Effect

def none : Effect P := ⟨fun _ => [],fun _ => []⟩

def put (t : Table) (k : t.Key) (v : t.Value P) : Effect P :=
  ⟨Function.update (fun _ => []) t [⟨0,k,v⟩],fun _ => []⟩

def putDup (t : DupTable) (k : t.Key) (v : Bytes) : Effect P :=
  ⟨fun _ => [],Function.update (fun _ => []) t [(k,v)]⟩

def andThen (e f : Effect P) : Effect P := ⟨fun t => e.puts t++f.puts t,fun t => e.dups t++f.dups t⟩

def ofList {α : Type} (l : List α) (e : α → Effect P) : Effect P :=
  ⟨fun t => l.flatMap (fun x => (e x).puts t),fun t => l.flatMap (fun x => (e x).dups t)⟩

/-- Every lookup answers the last put, or what it answered before. -/
structure Holds (e : Effect P) (s s' : Db P) : Prop where
  get : ∀ t k, s'.get t k=(latest (e.puts t) k).or (s.get t k)
  dup : ∀ t k w, s'.HasDup t k w ↔ (k,w)∈e.dups t ∨ s.HasDup t k w

theorem holds_none (s : Db P) : (none : Effect P).Holds s s where
  get _ _ := rfl
  dup _ _ _ := by simp [none]

theorem holds_put (s : Db P) (t : Table) (k : t.Key) (v : t.Value P) :
    (put t k v).Holds s (s.put t k v) where
  get := by
    intro t' k'
    by_cases h : t'=t
    · subst h
      by_cases hk : k=k' <;> simp [put,Db.get_put,latest,hk]
    · simp [put,h]
  dup := by simp [put]

theorem holds_putDup (s : Db P) (t : DupTable) (k : t.Key) (v : Bytes) :
    (putDup t k v).Holds s (s.putDup t k v) where
  get := by simp [putDup]
  dup := by
    intro t' k' w
    by_cases h : t'=t
    · subst h
      simp [putDup,Db.hasDup_putDup]
    · simp [putDup,h]

theorem Holds.andThen {e f : Effect P} {s'' : Db P} (he : e.Holds s s') (hf : f.Holds s' s'') :
    (e.andThen f).Holds s s'' where
  get t k := by
    rw [hf.get,he.get,Effect.andThen,latest_append,Option.or_assoc]
  dup t k w := by
    rw [hf.dup,he.dup,Effect.andThen,List.mem_append]
    tauto

section Tables
variable {α : Type} {l : List α} {e f : Effect P} {g : α → Effect P} {t : Table} {d : DupTable}
    {ps : List (Change t.Key (t.Value P))}

theorem puts_andThen {qs : List (Change t.Key (t.Value P))} (he : e.puts t=ps) (hf : f.puts t=qs) :
    (e.andThen f).puts t=ps++qs := by
  simp only [Effect.andThen,he,hf]

theorem puts_andThen_right (he : e.puts t=[]) (hf : f.puts t=ps) : (e.andThen f).puts t=ps := by
  simp only [Effect.andThen,he,hf,List.nil_append]

theorem puts_andThen_left (he : e.puts t=ps) (hf : f.puts t=[]) : (e.andThen f).puts t=ps := by
  simp only [Effect.andThen,he,hf,List.append_nil]

theorem puts_ofList_none (h : ∀ x, (g x).puts t=[]) : (ofList l g).puts t=[] := by
  simp [ofList,h]

theorem puts_ofList_one {p : α → Change t.Key (t.Value P)} (h : ∀ x, (g x).puts t=[p x]) :
    (ofList l g).puts t=l.map p := by
  simp only [ofList,h,List.map_eq_flatMap]

theorem dups_andThen_none (he : e.dups d=[]) (hf : f.dups d=[]) : (e.andThen f).dups d=[] := by
  simp only [Effect.andThen,he,hf,List.append_nil]

theorem dups_ofList_none (h : ∀ x, (g x).dups d=[]) : (ofList l g).dups d=[] := by
  simp [ofList,h]

end Tables
end Effect

/-- From every state the program returns with the effect. -/
def HasEffect (m : TxM P Unit) (e : Effect P) : Prop :=
  ∀ s, Faulty.Ensures m s (fun _ s' => e.Holds s s')

theorem HasEffect.andThen {m : TxM P Unit} {g : Unit → TxM P Unit} {e f : Effect P}
    (hm : HasEffect m e) (hg : HasEffect (g ()) f) : HasEffect (m>>=g) (e.andThen f) := by
  intro s
  refine (hm s).bind ?_
  intro _ s' he
  exact (hg s').mono (fun _ _ hf => he.andThen hf)

/-- Programs made of puts, with their effect. -/
inductive Puts : TxM P Unit → Effect P → Prop where
  | put (t : Table) (k : t.Key) (v : t.Value P) : Puts (DbTx.put t k v) (Effect.put t k v)
  | putDup (t : DupTable) (k : t.Key) (v : Bytes) : Puts (DbTx.putDup t k v) (Effect.putDup t k v)
  | andThen {m : TxM P Unit} {g : Unit → TxM P Unit} {e f : Effect P} (hm : Puts m e)
      (hg : Puts (g ()) f) : Puts (m>>=g) (e.andThen f)
  | forM {α : Type} {f : α → TxM P Unit} {e : α → Effect P} (l : List α)
      (h : ∀ x, Puts (f x) (e x)) : Puts (l.forM f) (Effect.ofList l e)

theorem Puts.hasEffect {m : TxM P Unit} {e : Effect P} (h : Puts m e) : HasEffect m e := by
  induction h with
  | put t k v => exact fun s => DbTx.ensures_put (Effect.holds_put s t k v)
  | putDup t k v => exact fun s => DbTx.ensures_putDup (Effect.holds_putDup s t k v)
  | andThen hm hg ihm ihg => exact ihm.andThen ihg
  | forM l h ih =>
    induction l with
    | nil => exact fun s => Faulty.ensures_pure (Effect.holds_none s)
    | cons x xs hxs => exact HasEffect.andThen (g := fun _ => xs.forM _) (ih x) hxs

/-- The two states agree outside the listed tables. -/
structure Agree (S : List Table) (D : List DupTable) (s s' : Db P) : Prop where
  kv : ∀ t, t∉S → s'.kv t=s.kv t
  dup : ∀ t, t∉D → s'.dup t=s.dup t

theorem Agree.refl (S : List Table) (D : List DupTable) (s : Db P) : Agree S D s s :=
  ⟨fun _ _ => rfl,fun _ _ => rfl⟩

theorem Agree.trans {S : List Table} {D : List DupTable} {s'' : Db P} (h : Agree S D s s')
    (h' : Agree S D s' s'') : Agree S D s s'' :=
  ⟨fun t ht => (h'.kv t ht).trans (h.kv t ht),fun t ht => (h'.dup t ht).trans (h.dup t ht)⟩

theorem Agree.mono {S S' : List Table} {D D' : List DupTable} (h : Agree S D s s') (hS : S⊆S')
    (hD : D⊆D') : Agree S' D' s s' :=
  ⟨fun t ht => h.kv t (fun hm => ht (hS hm)),fun t ht => h.dup t (fun hm => ht (hD hm))⟩

theorem Agree.get {S : List Table} {D : List DupTable} (h : Agree S D s s') {t : Table} (ht : t∉S)
    (k : t.Key) : s'.get t k=s.get t k := by
  rw [Db.get,Db.get,h.kv t ht]

theorem Agree.hasDup {S : List Table} {D : List DupTable} (h : Agree S D s s') {t : DupTable}
    (ht : t∉D) (k : t.Key) (w : Bytes) : s'.HasDup t k w ↔ s.HasDup t k w := by
  rw [Db.HasDup,Db.HasDup,h.dup t ht]

/-- Whatever fails, only the listed tables can differ afterwards. -/
def OnlyWrites {α : Type} (S : List Table) (D : List DupTable) (m : TxM P α) : Prop :=
  ∀ s, Faulty.Preserves (Agree S D s) m

namespace OnlyWrites
variable {α β : Type} {S : List Table} {D : List DupTable} {m : TxM P α}

theorem read (f : Db P → Except ProviderError α) : OnlyWrites S D (DbTx.read f) :=
  fun _ => DbTx.preserves_read f

theorem pure (a : α) : OnlyWrites S D (Pure.pure a : TxM P α) := fun _ => Faulty.preserves_pure _ a

theorem put {t : Table} (ht : t∈S) (k : t.Key) (v : t.Value P) :
    OnlyWrites S D (DbTx.put t k v) := by
  intro s
  refine DbTx.preserves_put (fun r hr => ⟨fun t' ht' => ?_,hr.dup⟩)
  have hne : t'≠t := fun he => ht' (he ▸ ht)
  exact (Function.update_of_ne hne _ _).trans (hr.kv t' ht')

theorem putDup {t : DupTable} (ht : t∈D) (k : t.Key) (v : Bytes) :
    OnlyWrites S D (DbTx.putDup t k v : TxM P Unit) := by
  intro s
  refine (DbTx.preserves_read _).bind fun _ =>
    DbTx.preserves_write fun r hr => ⟨hr.kv,fun t' ht' => ?_⟩
  have hne : t'≠t := fun he => ht' (he ▸ ht)
  exact (Function.update_of_ne hne _ _).trans (hr.dup t' ht')

theorem deleteCurrent {t : DupTable} (ht : t∈D) (k : t.Key) (v : Bytes) :
    OnlyWrites S D (DbTx.deleteCurrent t k v : TxM P Unit) := by
  intro s
  refine DbTx.preserves_write (fun r hr => ⟨hr.kv,fun t' ht' => ?_⟩)
  have hne : t'≠t := fun he => ht' (he ▸ ht)
  exact (Function.update_of_ne hne _ _).trans (hr.dup t' ht')

theorem bind {f : α → TxM P β} (h : OnlyWrites S D m) (hf : ∀ a, OnlyWrites S D (f a)) :
    OnlyWrites S D (m>>=f) :=
  fun s => (h s).bind (fun a => hf a s)

theorem forM {f : α → TxM P Unit} (l : List α) (h : ∀ x, OnlyWrites S D (f x)) :
    OnlyWrites S D (l.forM f) :=
  fun s => Faulty.preserves_forM l (fun x _ => h x s)

theorem mono {S' : List Table} {D' : List DupTable} (h : OnlyWrites S D m) (hS : S⊆S') (hD : D⊆D') :
    OnlyWrites S' D' m := by
  intro s F r n hr
  have ha := h r F r n (Agree.refl S D r)
  refine ⟨fun t ht => ?_,fun t ht => ?_⟩
  · exact (ha.kv t (fun hm => ht (hS hm))).trans (hr.kv t ht)
  · exact (ha.dup t (fun hm => ht (hD hm))).trans (hr.dup t ht)

theorem frame (h : OnlyWrites S D m) {Q : α → Db P → Prop} (hq : Faulty.Ensures m s Q) :
    Faulty.Ensures m s (fun a s' => Q a s' ∧ Agree S D s s') :=
  hq.frame (h s) (Agree.refl S D s)

end OnlyWrites
end Katana
