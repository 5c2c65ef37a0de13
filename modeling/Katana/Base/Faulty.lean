import Mathlib.Tactic.Common

/-! Computations over a state whose n-th primitive operation can be made to
fail. A failure stops the computation and keeps the state reached so far;
nothing is rolled back here. -/

/-- The rule of loops. T says what a computation does from a state; it has to hold of the
computation that does nothing, and of one computation after another. -/
theorem List.forM_rule {M : Type → Type} [Monad M] {σ α : Type}
    {T : M PUnit → σ → (σ → Prop) → Prop} (hpure : ∀ s Q, Q s → T (Pure.pure ⟨⟩) s Q)
    (hbind : ∀ m k s Q R, T m s Q → (∀ s', Q s' → T k s' R) → T (m>>=fun _ => k) s R)
    {f : α → M PUnit} (I : List α → σ → Prop) (l : List α)
    (hstep : ∀ pre x post, l=pre++x::post → ∀ s, I pre s → T (f x) s (I (pre++[x]))) {s : σ}
    (hs : I [] s) : T (l.forM f) s (I l) := by
  suffices h : ∀ post pre s, l=pre++post → I pre s → T (post.forM f) s (I l) from h l [] s rfl hs
  intro post
  induction post with
  | nil =>
    intro pre s he hi
    rw [List.append_nil] at he
    exact hpure s _ (he ▸ hi)
  | cons x xs ih =>
    intro pre s he hi
    refine hbind _ _ s _ _ (hstep pre x xs he s hi) ?_
    intro s' hi'
    exact ih (pre++[x]) s' (by simp [he]) hi'

/-- F n = some e makes operation number n fail with e. -/
def Faulty (ε σ α : Type) := (Nat → Option ε) → σ → Nat → Except ε α × σ × Nat

namespace Faulty
variable {ε σ α β : Type} {m : Faulty ε σ α} {F : Nat → Option ε} {s s' : σ} {n : Nat} {a : α}
    {f : σ → Except ε (α × σ)} {Q : α → σ → Prop}

def pure (a : α) : Faulty ε σ α := fun _ s n => (.ok a,s,n)

def bind (m : Faulty ε σ α) (f : α → Faulty ε σ β) : Faulty ε σ β := fun F s n =>
  match m F s n with
  | (.ok a,s',n') => f a F s' n'
  | (.error e,s',n') => (.error e,s',n')

instance : Monad (Faulty ε σ) where
  pure := Faulty.pure
  bind := Faulty.bind

/-- One primitive operation. It may also fail on its own, without effect. -/
def op (f : σ → Except ε (α × σ)) : Faulty ε σ α := fun F s n =>
  match F n with
  | some e => (.error e,s,n+1)
  | none =>
    match f s with
    | .ok (a,s') => (.ok a,s',n+1)
    | .error e => (.error e,s,n+1)

theorem bind_apply (m : Faulty ε σ α) (f : α → Faulty ε σ β) (F : Nat → Option ε) (s : σ)
    (n : Nat) : (m>>=f) F s n=(match m F s n with
      | (.ok a,s',n') => f a F s' n'
      | (.error e,s',n') => (.error e,s',n')) := rfl

theorem bind_ok {n' : Nat} (h : m F s n=(.ok a,s',n')) (f : α → Faulty ε σ β) :
    (m>>=f) F s n=f a F s' n' := by
  rw [bind_apply,h]

theorem bind_error {n' : Nat} {e : ε} (h : m F s n=(.error e,s',n')) (f : α → Faulty ε σ β) :
    (m>>=f) F s n=(.error e,s',n') := by
  rw [bind_apply,h]

theorem bind_assoc {γ : Type} (m : Faulty ε σ α) (f : α → Faulty ε σ β) (g : β → Faulty ε σ γ) :
    (m>>=f)>>=g=m>>=fun a => f a>>=g := by
  funext F s n
  simp only [bind_apply]
  cases m F s n with
  | mk r t =>
    cases r with
    | ok a | error e => rfl

theorem op_fault {e : ε} (h : F n=some e) (s : σ) : op f F s n=(.error e,s,n+1) := by
  simp only [op,h]

theorem op_ok (h : F n=none) (hf : f s=.ok (a,s')) : op f F s n=(.ok a,s',n+1) := by
  simp only [op,h,hf]

/-- Without faults, m started in s returns, and the result and the final state
satisfy Q. -/
def Ensures (m : Faulty ε σ α) (s : σ) (Q : α → σ → Prop) : Prop :=
  ∀ n, ∃ a s' n', m (fun _ => none) s n=(.ok a,s',n') ∧ Q a s'

theorem ensures_pure (h : Q a s) : Ensures (Pure.pure a : Faulty ε σ α) s Q :=
  fun n => ⟨a,s,n,rfl,h⟩

theorem Ensures.mono {R : α → σ → Prop} (h : Ensures m s Q) (hqr : ∀ a s', Q a s' → R a s') :
    Ensures m s R := by
  intro n
  obtain ⟨a,s',n',hm,hq⟩ := h n
  exact ⟨a,s',n',hm,hqr a s' hq⟩

theorem Ensures.bind {f : α → Faulty ε σ β} {R : β → σ → Prop} (h : Ensures m s Q)
    (hf : ∀ a s', Q a s' → Ensures (f a) s' R) : Ensures (m>>=f) s R := by
  intro n
  obtain ⟨a,s',n',hm,hq⟩ := h n
  obtain ⟨b,s'',n'',hb,hr⟩ := hf a s' hq n'
  exact ⟨b,s'',n'',(bind_ok hm f).trans hb,hr⟩

theorem Ensures.and {R : α → σ → Prop} (hq : Ensures m s Q) (hr : Ensures m s R) :
    Ensures m s (fun a s' => Q a s' ∧ R a s') := by
  intro n
  obtain ⟨a,s',n',hm,h⟩ := hq n
  obtain ⟨b,t',k',hm',h'⟩ := hr n
  rw [hm] at hm'
  cases hm'
  exact ⟨a,s',n',hm,h,h'⟩

theorem ensures_op (hf : f s=.ok (a,s')) (h : Q a s') : Ensures (op f) s Q :=
  fun n => ⟨a,s',n+1,op_ok rfl hf,h⟩

theorem ensures_forM {f : α → Faulty ε σ Unit} (I : List α → σ → Prop) (l : List α)
    (hstep : ∀ pre x post, l=pre++x::post → ∀ s, I pre s →
      Ensures (f x) s (fun _ s' => I (pre++[x]) s')) (hs : I [] s) :
    Ensures (l.forM f) s (fun _ s' => I l s') :=
  List.forM_rule (T := fun m s Q => Ensures m s (fun _ => Q)) (fun _ _ h => ensures_pure h)
    (fun _ _ _ _ _ h hk => h.bind (fun _ => hk)) I l hstep hs

/-- Whatever fails, a state satisfying I is left in a state satisfying I. -/
def Preserves (I : σ → Prop) (m : Faulty ε σ α) : Prop :=
  ∀ F s n, I s → I (m F s n).2.1

theorem preserves_pure (I : σ → Prop) (a : α) : Preserves I (Pure.pure a : Faulty ε σ α) :=
  fun _ _ _ h => h

variable {I : σ → Prop}

theorem Preserves.bind {f : α → Faulty ε σ β} (h : Preserves I m) (hf : ∀ a, Preserves I (f a)) :
    Preserves I (m>>=f) := by
  intro F s n hs
  have hm := h F s n hs
  rw [bind_apply]
  cases hr : m F s n with
  | mk r t =>
    rw [hr] at hm
    cases r with
    | ok a => exact hf a F t.1 t.2 hm
    | error e => exact hm

theorem preserves_op (h : ∀ s a s', I s → f s=.ok (a,s') → I s') : Preserves I (op f) := by
  intro F s n hs
  unfold op
  cases F n with
  | some e => exact hs
  | none =>
    cases hf : f s with
    | ok r => exact h s r.1 r.2 hs hf
    | error e => exact hs

theorem Ensures.frame (h : Ensures m s Q) (hp : Preserves I m) (hs : I s) :
    Ensures m s (fun a s' => Q a s' ∧ I s') := by
  intro n
  obtain ⟨a,s',n',hm,hq⟩ := h n
  have hi := hp (fun _ => none) s n hs
  rw [hm] at hi
  exact ⟨a,s',n',hm,hq,hi⟩

theorem preserves_forM {f : α → Faulty ε σ Unit} (l : List α) (h : ∀ x∈l, Preserves I (f x)) :
    Preserves I (l.forM f) := by
  induction l with
  | nil => exact preserves_pure I _
  | cons x xs ih =>
    exact (h x (by simp)).bind (fun _ => ih (fun y hy => h y (List.mem_cons_of_mem x hy)))

theorem bind_pure (m : Faulty ε σ α) : (m>>=fun a => Pure.pure a)=m := by
  funext F s n
  rw [bind_apply]
  cases m F s n with
  | mk r t => cases r <;> rfl

instance : LawfulMonad (Faulty ε σ) :=
  LawfulMonad.mk' _ bind_pure (fun _ _ => rfl) bind_assoc

end Faulty

/-! Computations in which a failed operation can also panic. A panic is not an error of
the computation: whoever runs it sees the two apart. -/

abbrev Panicking (ε σ α : Type) := ExceptT String (Faulty ε σ) α

namespace Panicking
open Faulty
variable {ε σ α β : Type} {m : Panicking ε σ α} {f : α → Panicking ε σ β} {s : σ} {Q : α → σ → Prop}

def orPanic (message : String) (m : Faulty ε σ α) : Panicking ε σ α :=
  ExceptT.mk (fun F s n => match m F s n with
    | (.ok a,s',n') => (.ok (.ok a),s',n')
    | (.error _,s',n') => (.ok (.error message),s',n'))

/-- Without faults, m started in s returns without a panic, and the result and the final
state satisfy Q. -/
def Returns (m : Panicking ε σ α) (s : σ) (Q : α → σ → Prop) : Prop :=
  Ensures m.run s (fun r s' => ∃ a, r=.ok a ∧ Q a s')

theorem returns_pure {a : α} (h : Q a s) : Returns (Pure.pure a : Panicking ε σ α) s Q :=
  fun n => ⟨Except.ok a,s,n,rfl,a,rfl,h⟩

theorem Returns.mono {R : α → σ → Prop} (h : Returns m s Q) (hqr : ∀ a s', Q a s' → R a s') :
    Returns m s R := by
  refine Ensures.mono h ?_
  rintro r s' ⟨a,rfl,hq⟩
  exact ⟨a,rfl,hqr a s' hq⟩

theorem Returns.bind {R : β → σ → Prop} (h : Returns m s Q)
    (hf : ∀ a s', Q a s' → Returns (f a) s' R) : Returns (m>>=f) s R := by
  refine Ensures.bind (f := ExceptT.bindCont f) h ?_
  rintro r s' ⟨a,rfl,hq⟩
  exact hf a s' hq

theorem returns_orPanic {message : String} {m : Faulty ε σ α} (h : Ensures m s Q) :
    Returns (orPanic message m) s Q := by
  intro n
  obtain ⟨a,s',n',hm,hq⟩ := h n
  refine ⟨Except.ok a,s',n',?_,a,rfl,hq⟩
  simp only [orPanic,ExceptT.run,ExceptT.mk,hm]

theorem orPanic_then {message : String} {m : Faulty ε σ α} {g : α → Panicking ε σ β} {a : α}
    {s' : σ} {Q : β → σ → Prop} (h : Ensures m s (fun b t => b=a ∧ t=s')) (hg : Returns (g a) s' Q) :
    Returns (orPanic message m>>=g) s Q := by
  refine (returns_orPanic h).bind ?_
  rintro _ _ ⟨rfl,rfl⟩
  exact hg

theorem returns_lift {m : Faulty ε σ α} (h : Ensures m s Q) : Returns (ExceptT.lift m) s Q := by
  refine Ensures.bind (f := fun a => Pure.pure (Except.ok a)) h ?_
  intro a s' hq
  exact ensures_pure ⟨a,rfl,hq⟩

theorem returns_forM {f : α → Panicking ε σ Unit} (I : List α → σ → Prop) (l : List α)
    (hstep : ∀ pre x post, l=pre++x::post → ∀ s, I pre s →
      Returns (f x) s (fun _ s' => I (pre++[x]) s')) (hs : I [] s) :
    Returns (l.forM f) s (fun _ s' => I l s') :=
  List.forM_rule (T := fun m s Q => Returns m s (fun _ => Q)) (fun _ _ h => returns_pure h)
    (fun _ _ _ _ _ h hk => h.bind (fun _ => hk)) I l hstep hs

theorem returns_mapM {g : α → β} (l : List α)
    (h : ∀ x∈l, Returns (f x) s (fun b s' => b=g x ∧ s'=s)) :
    Returns (l.mapM f) s (fun bs s' => bs=l.map g ∧ s'=s) := by
  induction l with
  | nil => exact returns_pure ⟨rfl,rfl⟩
  | cons x xs ih =>
    rw [List.mapM_cons]
    refine (h x (by simp)).bind ?_
    rintro _ _ ⟨rfl,rfl⟩
    refine (ih (fun y hy => h y (List.mem_cons_of_mem x hy))).bind ?_
    rintro _ _ ⟨rfl,rfl⟩
    exact returns_pure ⟨rfl,rfl⟩

section Frames
variable {I : σ → Prop}

end Frames

/-- From every state m makes some number of operations: it returns if none of them fails, and
panics if one does. -/
def Counted (m : Panicking ε σ α) : Prop :=
  ∀ s, ∃ k a s', ∀ F n, ((∀ i<k, F (n+i)=none) → m.run F s n=(.ok (.ok a),s',n+k)) ∧
    ((∃ i<k, F (n+i)≠none) → ∃ message t, m.run F s n=(.ok (.error message),t))

theorem Counted.bind (h : Counted m) (hf : ∀ a, Counted (f a)) : Counted (m>>=f) := by
  intro s
  obtain ⟨k,a,s',hm⟩ := h s
  obtain ⟨k',b,s'',hb⟩ := hf a s'
  have hbind (F n) (hF : ∀ i<k, F (n+i)=none) : (m>>=f).run F s n=(f a).run F s' (n+k) :=
    Faulty.bind_ok (f := ExceptT.bindCont f) ((hm F n).1 hF)
  refine ⟨k+k',b,s'',fun F n => ⟨fun hF => ?_,?_⟩⟩
  · rw [hbind F n (fun i hi => hF i (by omega)),← Nat.add_assoc]
    exact (hb F (n+k)).1 (fun i hi => Nat.add_assoc n k i ▸ hF (k+i) (by omega))
  · rintro ⟨i,hi,hne⟩
    by_cases hF : ∀ i<k, F (n+i)=none
    · have hk : k ≤ i := Nat.le_of_not_lt (fun hlt => hne (hF i hlt))
      rw [hbind F n hF]
      exact (hb F (n+k)).2 ⟨i-k,by omega,by rwa [Nat.add_assoc,Nat.add_sub_cancel' hk]⟩
    · push Not at hF
      obtain ⟨message,t,hp⟩ := (hm F n).2 hF
      exact ⟨message,t,Faulty.bind_ok (f := ExceptT.bindCont f) hp⟩

end Panicking
