import Katana.Base.Transition
import Katana.Service.ClassCache

/-! Concurrent calls of ClassCache::insert for one class hash, with native compilation on. A call
for a Sierra class spawns the native compilation and then writes its own entry; the compilation
writes to the same key when it ends. The two writes of a call come in either order. -/
namespace Katana.Service
open Transition
variable {P : Payloads} {C : ClassCompiler P}

/-- A write that a call, or the compilation that it spawned, is still to make. -/
structure CacheWrite (C : ClassCompiler P) where
  call : Nat
  entry : RunnableCompiledClass C

/-- What is cached under the hash, and the writes to come. -/
structure Insertions (C : ClassCompiler P) where
  cached : Option (RunnableCompiledClass C) := none
  writes : List (CacheWrite C) := []
  calls : Nat := 0

inductive InsertionEvent (C : ClassCompiler P) where
  | insert (c : P.ContractClass)
  | write (w : CacheWrite C)

namespace Insertions

/-- A class that does not compile panics in the call, before anything is spawned or written. -/
inductive Step (s : Insertions C) : InsertionEvent C → Insertions C → Prop where
  | insert {c : P.ContractClass} {x : C.CompiledClassV1} (hc : C.compile c=some (.inr x)) :
      Step s (.insert c) { s with
        writes := ⟨s.calls,.v1Native x⟩::⟨s.calls,.v1 x⟩::s.writes
        calls := s.calls+1 }
  | write {w : CacheWrite C} {rest : List (CacheWrite C)} (hw : s.writes.Perm (w::rest)) :
      Step s (.write w) { s with cached := some w.entry, writes := rest }

/-- A compilation writes after the call that spawned it. -/
def InOrder (s : Insertions C) (e : InsertionEvent C) : Prop :=
  ∀ call x y, e=.write ⟨call,.v1Native x⟩ → ⟨call,.v1 y⟩∉s.writes

/-- The entry is a compilation of an inserted class, for the VM or native. -/
def CompiledFrom (events : List (InsertionEvent C)) (entry : RunnableCompiledClass C) : Prop :=
  ∃ c x, .insert c∈events ∧ C.compile c=some (.inr x) ∧ (entry=.v1 x ∨ entry=.v1Native x)

/-- While a call is still to write its entry, so is its compilation, and a compilation is still
to write over a cached entry that is not native. -/
structure NativeToCome (s : Insertions C) : Prop where
  own : ∀ call x, ⟨call,.v1 x⟩∈s.writes → ∃ y, ⟨call,.v1Native y⟩∈s.writes
  cached : ∀ x, s.cached=some (.v1 x) → ∃ call y, ⟨call,.v1Native y⟩∈s.writes

variable {s t : Insertions C} {events : List (InsertionEvent C)} {e : InsertionEvent C}

theorem CompiledFrom.mono {entry : RunnableCompiledClass C} (h : CompiledFrom events entry) :
    CompiledFrom (events++[e]) entry := by
  obtain ⟨c,x,hm,h⟩ := h
  exact ⟨c,x,List.mem_append_left _ hm,h⟩

/-- What is cached or about to be was inserted, and after the first call there is something. -/
theorem inserted_run (h : Run Step ({} : Insertions C) events s) :
    (∀ entry, s.cached=some entry → CompiledFrom events entry) ∧
      (∀ w∈s.writes, CompiledFrom events w.entry) ∧ (events≠[] → s.cached≠none ∨ s.writes≠[]) := by
  induction h with
  | nil => simp
  | snoc _ hs ih =>
    obtain ⟨hcached,hwrites,_⟩ := ih
    cases hs with
    | insert hc =>
      refine ⟨fun entry hg => (hcached entry hg).mono,fun w hw => ?_,by simp⟩
      simp only [List.mem_cons] at hw
      obtain rfl | rfl | hw := hw
      · exact ⟨_,_,by simp,hc,Or.inr rfl⟩
      · exact ⟨_,_,by simp,hc,Or.inl rfl⟩
      · exact (hwrites w hw).mono
    | @write w rest hw =>
      refine ⟨fun entry hg => ?_,fun v hv => ?_,by simp⟩
      · cases hg
        exact (hwrites w (hw.mem_iff.mpr List.mem_cons_self)).mono
      · exact (hwrites v (hw.mem_iff.mpr (List.mem_cons_of_mem w hv))).mono

theorem NativeToCome.step (h : NativeToCome s) (hok : s.InOrder e) (hs : s.Step e t) :
    NativeToCome t := by
  cases hs with
  | @insert c y hc =>
    refine ⟨fun call x hw => ?_,fun x hg => ?_⟩
    · simp only [List.mem_cons] at hw
      obtain hw | hw | hw := hw
      · cases hw
      · cases hw
        exact ⟨y,List.mem_cons_self⟩
      · obtain ⟨z,hz⟩ := h.own call x hw
        exact ⟨z,by simp [hz]⟩
    · exact ⟨s.calls,y,List.mem_cons_self⟩
  | @write w rest hw =>
    -- only the write that is made is no longer to come
    have hkept : ∀ {v}, v∈s.writes → v≠w → v∈rest := fun hv hne =>
      (List.mem_cons.mp (hw.mem_iff.mp hv)).resolve_left hne
    refine ⟨fun call x hr => ?_,fun x hg => ?_⟩
    · have hold := hw.mem_iff.mpr (List.mem_cons_of_mem w hr)
      obtain ⟨y,hy⟩ := h.own call x hold
      exact ⟨y,hkept hy (by rintro rfl; exact hok call y x rfl hold)⟩
    · obtain ⟨call,entry⟩ := w
      cases hg
      obtain ⟨y,hy⟩ := h.own call x (hw.mem_iff.mpr List.mem_cons_self)
      exact ⟨call,y,hkept hy (by simp)⟩

end Insertions
open Insertions

/-- Every cached entry is a compilation of a class that was inserted. If every compilation writes
after its call, then once all writes are made the entry is native. -/
theorem native_if_in_order {s : Insertions C} {events : List (InsertionEvent C)}
    (h : Run Insertions.Step {} events s) :
    (∀ entry, s.cached=some entry → CompiledFrom events entry) ∧
    (Run (Restrict InOrder Insertions.Step) {} events s → s.writes=[] → events≠[] →
      ∃ x, s.cached=some (.v1Native x)) := by
  obtain ⟨hcached,-,hsome⟩ := inserted_run h
  refine ⟨hcached,fun hr hdone hne => ?_⟩
  have hcome : NativeToCome s := hr.invariant (I := NativeToCome)
    (fun s e t hs ht => hs.step ht.1 ht.2) ⟨by simp,by simp⟩
  obtain ⟨entry,hg⟩ := Option.ne_none_iff_exists'.mp ((hsome hne).resolve_right (by simp [hdone]))
  obtain ⟨c,x,-,-,rfl | rfl⟩ := hcached entry hg
  · obtain ⟨call,y,hy⟩ := hcome.cached x hg
    simp [hdone] at hy
  · exact ⟨x,hg⟩

/-- Two calls at once, each of which writes before its compilation does. -/
def twoInOrder : List (InsertionEvent unitCompiler) :=
  [.insert (),.insert (),.write ⟨1,.v1 ()⟩,.write ⟨0,.v1 ()⟩,.write ⟨1,.v1Native ()⟩,
    .write ⟨0,.v1Native ()⟩]

theorem native_after_two_calls : ∃ (s : Insertions unitCompiler) (x : Unit),
    Run Insertions.Step {} twoInOrder s ∧ s.cached=some (.v1Native x) := by
  obtain ⟨s,hr,hdone⟩ : ∃ s : Insertions unitCompiler,
      Run (Restrict InOrder Insertions.Step) {} twoInOrder s ∧ s.writes=[] := by
    refine ⟨_,.cons ⟨?_,.insert rfl⟩ <| .cons ⟨?_,.insert rfl⟩ <|
      .cons ⟨?_,.write (.swap _ _ _)⟩ <|
      .cons ⟨?_,.write (.trans (.cons _ (.swap _ _ _)) (.swap _ _ _))⟩ <|
      .cons ⟨?_,.write .rfl⟩ <| .single ⟨?_,.write .rfl⟩,rfl⟩ <;> simp [InOrder]
  obtain ⟨x,hx⟩ := (native_if_in_order hr.of_restrict).2 hr hdone (by simp [twoInOrder])
  exact ⟨s,x,hr.of_restrict,hx⟩

/-- The compilation ends before its call writes, and the entry of the call stays. -/
theorem call_overwrites_native : ∃ s : Insertions unitCompiler,
    Run Insertions.Step {} [.insert (),.write ⟨0,.v1Native ()⟩,.write ⟨0,.v1 ()⟩] s ∧
      s.writes=[] ∧ s.cached=some (.v1 ()) :=
  ⟨_,.cons (.insert rfl) (.cons (.write .rfl) (.single (.write .rfl))),rfl,rfl⟩

end Katana.Service
