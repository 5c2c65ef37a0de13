import Mathlib.Algebra.BigOperators.Group.List.Basic
import Mathlib.Algebra.Ring.Nat
import Mathlib.Algebra.Order.Group.Multiset
import Mathlib.Data.List.Induction

/-! Runs of a labelled step relation. A run whose steps all meet a condition is a run of
the relation restricted by the condition. -/

namespace Transition
variable {σ α : Type*} {s : σ}

inductive Run (step : σ → α → σ → Prop) : σ → List α → σ → Prop where
  | nil (s : σ) : Run step s [] s
  | snoc {s t u : σ} {a : α} {as : List α} (h : Run step s as t) (hs : step t a u) :
      Run step s (as++[a]) u

/-- The steps that meet a condition on the state before and the label. -/
def Restrict (ok : σ → α → Prop) (step : σ → α → σ → Prop) (s : σ) (a : α) (t : σ) : Prop :=
  ok s a ∧ step s a t

namespace Run
variable {step : σ → α → σ → Prop} {t : σ} {as : List α} {ok : σ → α → Prop} {I : σ → Prop}

theorem single {a : α} (h : step s a t) : Run step s [a] t := .snoc (.nil s) h

theorem append {u : σ} {bs : List α} (h : Run step s as t) (h' : Run step t bs u) :
    Run step s (as++bs) u := by
  induction h' with
  | nil => rwa [List.append_nil]
  | snoc _ hs ih =>
    rw [← List.append_assoc]
    exact .snoc ih hs

theorem cons {u : σ} {a : α} (h : step s a t) (h' : Run step t as u) : Run step s (a::as) u :=
  (single h).append h'

theorem split {u : σ} {bs : List α} (h : Run step s (as++bs) u) :
    ∃ t, Run step s as t ∧ Run step t bs u := by
  induction bs using List.reverseRecOn generalizing u with
  | nil =>
    rw [List.append_nil] at h
    exact ⟨u,h,.nil u⟩
  | append_singleton bs b ih =>
    rw [← List.append_assoc] at h
    generalize hl : as++bs++[b]=l at h
    cases h with
    | nil => simp at hl
    | snoc h hs =>
      obtain ⟨rfl,hb⟩ := List.append_inj' hl rfl
      obtain rfl := List.singleton_inj.mp hb
      obtain ⟨t,ht,hr⟩ := ih h
      exact ⟨t,ht,.snoc hr hs⟩

theorem of_foldlM {f : σ → α → Option σ} (h : as.foldlM f s=some t) :
    Run (fun s a t => f s a=some t) s as t := by
  induction as generalizing s with
  | nil =>
    obtain rfl : s=t := by simpa using h
    exact .nil s
  | cons a as ih =>
    rw [List.foldlM_cons] at h
    obtain ⟨u,hu,h⟩ := Option.bind_eq_some_iff.mp h
    exact cons hu (ih h)

theorem imp {step' : σ → α → σ → Prop} (hstep : ∀ s a t, step s a t → step' s a t)
    (h : Run step s as t) : Run step' s as t := by
  induction h with
  | nil => exact .nil _
  | snoc _ hs ih => exact .snoc ih (hstep _ _ _ hs)

theorem of_restrict (h : Run (Restrict ok step) s as t) : Run step s as t :=
  h.imp (fun _ _ _ hs => hs.2)

theorem exists_cons {P : σ → Prop} {a : α} (h : step s a t) (h' : ∃ u, Run step t as u ∧ P u) :
    ∃ u, Run step s (a::as) u ∧ P u := by
  obtain ⟨u,hr,hp⟩ := h'
  exact ⟨u,cons h hr,hp⟩

theorem invariant (hstep : ∀ s a t, I s → step s a t → I t) (h : Run step s as t) (hi : I s) :
    I t := by
  induction h with
  | nil => exact hi
  | snoc _ hs ih => exact hstep _ _ _ ih hs

theorem accumulate {μ : Type*} [AddCommMonoid μ] {total : σ → μ} {added : α → μ}
    (hstep : ∀ s a t, I s → step s a t → I t ∧ total t=total s+added a) (h : Run step s as t)
    (hi : I s) : I t ∧ total t=total s+(as.map added).sum := by
  induction h with
  | nil => simpa using hi
  | snoc _ hs ih =>
    obtain ⟨ht,hsum⟩ := hstep _ _ _ ih.1 hs
    refine ⟨ht,?_⟩
    rw [hsum,ih.2,List.map_append,List.sum_append,add_assoc]
    simp

/-- When a step loses nothing exactly if it meets a condition, the runs that keep all that
their labels add are those whose steps all meet the condition. -/
theorem balanced_iff {β : Type*} {total : σ → Multiset β} {added : α → Multiset β}
    {lost : σ → α → Multiset β} (hstep : ∀ s a t, step s a t → total t+lost s a=total s+added a)
    (hok : ∀ s a, lost s a=0 ↔ ok s a) (h : Run step s as t) :
    total t=total s+(as.map added).sum ↔ Run (Restrict ok step) s as t := by
  constructor
  · have hloss : ∃ l, total t+l=total s+(as.map added).sum ∧
        (l=0 → Run (Restrict ok step) s as t) := by
      induction h with
      | nil => exact ⟨0,by simp,fun _ => .nil _⟩
      | @snoc t u a as _ hs ih =>
        obtain ⟨l,hl,hr⟩ := ih
        refine ⟨lost t a+l,?_,?_⟩
        · rw [← add_assoc,hstep t a u hs,add_right_comm,hl,List.map_append,List.sum_append,
            add_assoc]
          simp
        · intro h
          have hl₀ : l=0 := Multiset.le_zero.mp (h ▸ Multiset.le_add_left l (lost t a))
          have ha : lost t a=0 := Multiset.le_zero.mp (h ▸ Multiset.le_add_right (lost t a) l)
          exact .snoc (hr hl₀) ⟨(hok t a).mp ha,hs⟩
    intro ht
    obtain ⟨l,hl,hr⟩ := hloss
    apply hr
    rw [← ht] at hl
    simpa using hl
  · intro hr
    have hsum : True ∧ total t=total s+(as.map added).sum := by
      apply hr.accumulate _ trivial
      intro s a t _ hs
      refine ⟨trivial,?_⟩
      rw [← hstep s a t hs.2,(hok s a).mpr hs.1,add_zero]
    exact hsum.2

/-- When exactly the steps short of a condition lead into a property that no step leaves,
the runs that stay out of it are those whose steps all meet the condition. -/
theorem avoids_iff {bad : σ → Prop} (hstep : ∀ s a t, I s → step s a t → I t)
    (hbad : ∀ s a t, I s → step s a t → (bad t ↔ bad s ∨ ¬ok s a)) (h : Run step s as t) (hi : I s)
    (hs : ¬bad s) : ¬bad t ↔ Run (Restrict ok step) s as t := by
  constructor
  · intro hb
    induction h with
    | nil => exact .nil _
    | snoc h h' ih =>
      rw [hbad _ _ _ (h.invariant hstep hi) h',not_or,not_not] at hb
      exact .snoc (ih hb.1) ⟨hb.2,h'⟩
  · intro hr
    have hinv : I t ∧ ¬bad t := by
      apply hr.invariant (I := fun s => I s ∧ ¬bad s) _ ⟨hi,hs⟩
      intro s a t h h'
      refine ⟨hstep s a t h.1 h'.2,?_⟩
      rw [hbad s a t h.1 h'.2,not_or,not_not]
      exact ⟨h.2,h'.1⟩
    exact hinv.2

theorem reaches {goal : σ → Prop} (rank : σ → Nat)
    (hstep : ∀ s, I s → ¬goal s → ∃ a t, step s a t ∧ I t ∧ rank t<rank s) (hi : I s) :
    ∃ as t, Run step s as t ∧ I t ∧ goal t := by
  induction hn : rank s using Nat.strongRecOn generalizing s with
  | ind n ih =>
    by_cases hg : goal s
    · exact ⟨[],s,.nil s,hi,hg⟩
    · obtain ⟨a,t,ha,ht,hr⟩ := hstep s hi hg
      obtain ⟨as,u,hu,hgoal⟩ := ih (rank t) (hn ▸ hr) ht rfl
      exact ⟨a::as,u,cons ha hu,hgoal⟩

/-- When every step short of a lasting goal uses up rank, a run that does not end in the
goal is no longer than its start and its labels allow. -/
theorem within (goal : σ → Prop) (rank : σ → Nat) (credit : α → Nat)
    (hinv : ∀ s a t, I s → step s a t → I t) (hlast : ∀ s a t, I s → step s a t → goal s → goal t)
    (hrank : ∀ s a t, I s → step s a t → ¬goal s → goal t ∨ rank t+1≤rank s+credit a)
    (h : Run step s as t) (hi : I s) : goal t ∨ rank t+as.length≤rank s+(as.map credit).sum := by
  induction h with
  | nil => exact Or.inr (by simp)
  | @snoc t u a as h hs ih =>
    have ht := h.invariant hinv hi
    by_cases hg : goal t
    · exact Or.inl (hlast t a u ht hs hg)
    · have hlen := ih.resolve_left hg
      refine (hrank t a u ht hs hg).imp_right ?_
      intro hr
      simp only [List.length_append,List.length_singleton,List.map_append,List.sum_append,
        List.map_cons,List.map_nil,List.sum_singleton]
      omega

end Run

section Fold
variable {step : σ → α → σ} {I P : σ → Prop} {ok : σ → α → Prop}

theorem foldl_invariant (hok : ∀ s a, I s → ok s a → I (step s a)) (hi : I s) (as : List α)
    (h : ∀ bs a, bs++[a]<+:as → ok (bs.foldl step s) a) : I (as.foldl step s) := by
  induction as using List.reverseRecOn with
  | nil => exact hi
  | append_singleton as a ih =>
    rw [List.foldl_append]
    refine hok _ _ (ih ?_) (h as a List.prefix_rfl)
    intro bs b hb
    exact h bs b (hb.trans (List.prefix_append as [a]))

/-- A property holds after every beginning of a list of calls exactly if every call meets
a condition, when that is so for one call from the states of an invariant. -/
theorem foldl_always_iff (hP : ∀ s, I s → P s) (hok : ∀ s a, I s → ok s a → I (step s a))
    (hback : ∀ s a, I s → P (step s a) → ok s a) (hi : I s) (as : List α) :
    (∀ bs, bs<+:as → P (bs.foldl step s)) ↔ ∀ bs a, bs++[a]<+:as → ok (bs.foldl step s) a := by
  constructor
  · intro h
    have hinv : ∀ bs, bs<+:as → I (bs.foldl step s) := by
      intro bs
      induction bs using List.reverseRecOn with
      | nil => exact fun _ => hi
      | append_singleton bs b ih =>
        intro hb
        have hbs := ih ((List.prefix_append bs [b]).trans hb)
        have hp := h _ hb
        rw [List.foldl_append] at hp ⊢
        exact hok _ _ hbs (hback _ _ hbs hp)
    intro bs a hb
    have hp := h _ hb
    rw [List.foldl_append] at hp
    exact hback _ _ (hinv bs ((List.prefix_append bs [a]).trans hb)) hp
  · intro h bs hb
    exact hP _ (foldl_invariant hok hi bs (fun cs c hc => h cs c (hc.trans hb)))

end Fold
end Transition
