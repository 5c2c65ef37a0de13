import Katana.Base.Faulty

/-! Computations that end early. What they leave behind is described for both ends, the result
and the error, since the state reached at an error is kept. -/

namespace Faulty
variable {ε σ α β : Type}

/-- Whatever fails, m started in s ends with a result in a state of Q, or with an error in a
state of E. -/
def Leaves (m : Faulty ε σ α) (s : σ) (Q : α → σ → Prop) (E : σ → Prop) : Prop :=
  ∀ F n, (∀ a s' n', m F s n=(.ok a,s',n') → Q a s') ∧
    ∀ e s' n', m F s n=(.error e,s',n') → E s'

variable {m : Faulty ε σ α} {f : α → Faulty ε σ β} {s : σ} {I E : σ → Prop} {Q : α → σ → Prop}

theorem Leaves.mono {Q' : α → σ → Prop} {E' : σ → Prop} (h : Leaves m s Q E)
    (hq : ∀ a s', Q a s' → Q' a s') (he : ∀ s', E s' → E' s') : Leaves m s Q' E' :=
  fun F n => ⟨fun a s' n' hr => hq a s' ((h F n).1 a s' n' hr),
    fun e s' n' hr => he s' ((h F n).2 e s' n' hr)⟩

theorem leaves_of (h : ∀ F n, match m F s n with
    | (.ok a,s',_) => Q a s'
    | (.error _,s',_) => E s') : Leaves m s Q E :=
  fun F n => ⟨fun a s' n' hr => by simpa only [hr] using h F n,
    fun e s' n' hr => by simpa only [hr] using h F n⟩

theorem leaves_pure {a : α} (h : Q a s) : Leaves (Pure.pure a : Faulty ε σ α) s Q E :=
  leaves_of (fun _ _ => h)

theorem leaves_op {g : σ → Except ε (α × σ)} (hE : E s) (h : ∀ a s', g s=.ok (a,s') → Q a s') :
    Leaves (op g) s Q E := by
  refine leaves_of (fun F n => ?_)
  unfold op
  cases F n with
  | some e => exact hE
  | none =>
    cases hg : g s with
    | ok r => exact h _ _ hg
    | error e => exact hE

theorem Leaves.bind {R : β → σ → Prop} (h : Leaves m s Q E)
    (hf : ∀ a s', Q a s' → Leaves (f a) s' R E) : Leaves (m>>=f) s R E := by
  intro F n
  rw [bind_apply]
  cases hr : m F s n with
  | mk r t =>
    cases r with
    | ok a => exact hf a t.1 ((h F n).1 a t.1 t.2 hr) F t.2
    | error e =>
      refine ⟨fun b s' n' h' => by simp at h',fun e' s' n' h' => ?_⟩
      simp only [Prod.mk.injEq] at h'
      obtain ⟨-,rfl,-⟩ := h'
      exact (h F n).2 e _ t.2 hr

theorem Preserves.leaves (h : Preserves I m) (hs : I s) : Leaves m s (fun _ => I) I := by
  intro F n
  have hm := h F s n hs
  exact ⟨fun a s' n' hr => by rwa [hr] at hm,fun e s' n' hr => by rwa [hr] at hm⟩

theorem Leaves.state (h : Leaves m s (fun _ => I) I) (F : Nat → Option ε) (n : Nat) :
    I (m F s n).2.1 := by
  cases hr : m F s n with
  | mk r t =>
    cases r with
    | ok a => exact (h F n).1 a t.1 t.2 hr
    | error e => exact (h F n).2 e t.1 t.2 hr

theorem leaves_forM {f : α → Faulty ε σ Unit} (J : List α → σ → Prop) (l : List α)
    (hstep : ∀ pre x post, l=pre++x::post → ∀ s, J pre s →
      Leaves (f x) s (fun _ s' => J (pre++[x]) s') E) (hs : J [] s) :
    Leaves (l.forM f) s (fun _ s' => J l s') E :=
  List.forM_rule (T := fun m s Q => Leaves m s (fun _ => Q) E) (fun _ _ h => leaves_pure h)
    (fun _ _ _ _ _ h hk => h.bind (fun _ => hk)) J l hstep hs

/-- A run that returns does not depend on faults that it did not meet. -/
def Quiet (m : Faulty ε σ α) : Prop :=
  ∀ F s n a s' n', m F s n=(.ok a,s',n') → m (fun _ => none) s n=(.ok a,s',n')

theorem quiet_pure (a : α) : Quiet (Pure.pure a : Faulty ε σ α) := fun _ _ _ _ _ _ h => h

theorem quiet_op (g : σ → Except ε (α × σ)) : Quiet (op g) := by
  intro F s n a s' n' h
  unfold op at h ⊢
  cases hF : F n with
  | some e => simp [hF] at h
  | none => simpa only [hF] using h

theorem Quiet.bind (h : Quiet m) (hf : ∀ a, Quiet (f a)) : Quiet (m>>=f) := by
  intro F s n b s' n' hr
  rw [bind_apply] at hr
  cases hm : m F s n with
  | mk r t =>
    rw [hm] at hr
    cases r with
    | ok a =>
      rw [bind_ok (h F s n a t.1 t.2 hm)]
      exact hf a F t.1 t.2 b s' n' hr
    | error e => simp at hr

theorem quiet_forM {f : α → Faulty ε σ Unit} (l : List α) (h : ∀ x, Quiet (f x)) :
    Quiet (l.forM f) := by
  induction l with
  | nil => exact quiet_pure _
  | cons x xs ih => exact (h x).bind (fun _ => ih)

theorem Quiet.ensured (h : Quiet m) (he : Ensures m s Q) {F : Nat → Option ε} {n n' : Nat} {a : α}
    {s' : σ} (hr : m F s n=(.ok a,s',n')) : Q a s' := by
  obtain ⟨b,t,k,hm,hq⟩ := he n
  rw [h F s n a s' n' hr] at hm
  cases hm
  exact hq

end Faulty

namespace EStateM
variable {ε σ α β : Type}

/-- m started in s ends with a result in a state of Q, or with an error in a state of E. -/
def Ends (m : EStateM ε σ α) (s : σ) (Q : α → σ → Prop) (E : σ → Prop) : Prop :=
  (∀ a t, m s=.ok a t → Q a t) ∧ ∀ e t, m s=.error e t → E t

variable {m : EStateM ε σ α} {s : σ} {E : σ → Prop} {Q : α → σ → Prop}

theorem Ends.mono {Q' : α → σ → Prop} {E' : σ → Prop} (h : Ends m s Q E)
    (hq : ∀ a t, Q a t → Q' a t) (he : ∀ t, E t → E' t) : Ends m s Q' E' :=
  ⟨fun a t hr => hq a t (h.1 a t hr),fun e t hr => he t (h.2 e t hr)⟩

theorem ends_ok {a : α} {t : σ} (h : m s=.ok a t) (hq : Q a t) : Ends m s Q E := by
  refine ⟨fun b u hr => ?_,fun e u hr => ?_⟩ <;> cases h.symm.trans hr
  exact hq

theorem ends_error {e : ε} {t : σ} (h : m s=.error e t) (he : E t) : Ends m s Q E := by
  refine ⟨fun b u hr => ?_,fun e' u hr => ?_⟩ <;> cases h.symm.trans hr
  exact he

theorem ends_pure {a : α} (h : Q a s) : Ends (Pure.pure a : EStateM ε σ α) s Q E := ends_ok rfl h

theorem Ends.bind {f : α → EStateM ε σ β} {R : β → σ → Prop} (h : Ends m s Q E)
    (hf : ∀ a t, Q a t → Ends (f a) t R E) : Ends (m>>=f) s R E := by
  cases hr : m s with
  | ok a t =>
    unfold Ends
    simp only [Bind.bind,EStateM.bind,hr]
    exact hf a t (h.1 a t hr)
  | error e t => exact ends_error (e := e) (by simp only [Bind.bind,EStateM.bind,hr]) (h.2 e t hr)

theorem ends_forM {f : α → EStateM ε σ Unit} (J : List α → σ → Prop) (l : List α)
    (hstep : ∀ pre x post, l=pre++x::post → ∀ s, J pre s →
      Ends (f x) s (fun _ t => J (pre++[x]) t) E) (hs : J [] s) :
    Ends (l.forM f) s (fun _ t => J l t) E :=
  List.forM_rule (T := fun m s Q => Ends m s (fun _ => Q) E) (fun _ _ h => ends_pure h)
    (fun _ _ _ _ _ h hk => h.bind (fun _ => hk)) J l hstep hs

theorem ends_mapM {f : α → EStateM ε σ β} {I : σ → Prop} {R : α → β → Prop} (l : List α)
    (hstep : ∀ x∈l, ∀ s, I s → Ends (f x) s (fun y t => R x y ∧ I t) I) (hs : I s) :
    Ends (l.mapM f) s (fun ys t => List.Forall₂ R l ys ∧ I t) I := by
  induction l generalizing s with
  | nil => exact ends_pure ⟨.nil,hs⟩
  | cons x xs ih =>
    rw [List.mapM_cons]
    refine (hstep x List.mem_cons_self s hs).bind ?_
    rintro y t ⟨hy,ht⟩
    refine (ih (fun z hz => hstep z (List.mem_cons_of_mem _ hz)) ht).bind ?_
    rintro ys u ⟨hys,hu⟩
    exact ends_pure ⟨.cons hy hys,hu⟩

end EStateM

namespace Except
variable {ε α β : Type}

theorem bound {x : Except ε α} {f : α → Except ε β} {b : β} (h : (x>>=f)=.ok b) :
    ∃ a, x=.ok a ∧ f a=.ok b := by
  cases x with
  | ok a => exact ⟨a,rfl,h⟩
  | error e => cases h

theorem forall₂_of_mapM {f : α → Except ε β} {l : List α} {ys : List β} (h : l.mapM f=.ok ys) :
    List.Forall₂ (fun x y => f x=.ok y) l ys := by
  induction l generalizing ys with
  | nil =>
    cases h
    exact .nil
  | cons x xs ih =>
    rw [List.mapM_cons] at h
    obtain ⟨y,hy,h⟩ := bound h
    obtain ⟨zs,hzs,h⟩ := bound h
    cases h
    exact .cons hy (ih hzs)

end Except
