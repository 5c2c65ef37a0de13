import Katana.Base.Transition

/-! Requests that read a shared state piece by piece, while others change it between the reads. -/
namespace Reading
open Transition
variable {σ α ε ρ τ υ : Type}

/-- A request reads the state as often as it likes and then answers. -/
inductive Request (σ ρ : Type) where
  | answer (r : ρ)
  | read (next : σ → Request σ ρ)

variable {p : Request σ ρ} {g : ρ → ExceptT ε (Request σ) τ} {r : τ}

namespace Request

def bind (p : Request σ ρ) (f : ρ → Request σ τ) : Request σ τ :=
  match p with
  | .answer r => f r
  | .read next => .read fun s => (next s).bind f

instance : Monad (Request σ) where
  pure := .answer
  bind := bind

def get (f : σ → ρ) : Request σ ρ := .read fun s => .answer (f s)

/-- The answer when nothing happens between the reads. -/
def atOnce (s : σ) : Request σ ρ → ρ
  | .answer r => r
  | .read next => (next s).atOnce s

/-- The reads depend on a part of the state only. -/
def Through (f : σ → τ) : Request σ ρ → Prop
  | .answer _ => True
  | .read next => (∀ s t, f s=f t → next s=next t) ∧ ∀ s, (next s).Through f

theorem atOnce_bind (p : Request σ ρ) (g : ρ → Request σ τ) (s : σ) :
    (p.bind g).atOnce s=(g (p.atOnce s)).atOnce s := by
  induction p with
  | answer r => rfl
  | read next ih => exact ih s

theorem atOnce_bind_ok {p : ExceptT ε (Request σ) ρ} {s : σ} : (p>>=g).run.atOnce s=.ok r ↔
      ∃ m, p.run.atOnce s=.ok m ∧ (g m).run.atOnce s=.ok r := by
  have hbind := atOnce_bind p.run (fun m => ExceptT.bindCont g m) s
  refine (Eq.congr_left hbind).trans ?_
  cases p.run.atOnce s with
  | error e => exact ⟨nofun,nofun⟩
  | ok m =>
    constructor
    · intro h
      exact ⟨m,rfl,h⟩
    · rintro ⟨_,hm,h⟩
      cases hm
      exact h

section Through
variable {f : σ → υ}

theorem Through.get {g : σ → ρ} (h : ∀ s t, f s=f t → g s=g t) : (get g).Through f :=
  ⟨fun s t he => congrArg answer (h s t he),fun _ => trivial⟩

theorem Through.bind {g : ρ → Request σ τ} (hp : p.Through f) (hg : ∀ r, (g r).Through f) :
    (p.bind g).Through f := by
  induction p with
  | answer r => exact hg r
  | read next ih =>
    exact ⟨fun s t he => congrArg (Request.bind · g) (hp.1 s t he),fun s => ih s (hp.2 s)⟩

theorem Through.atOnce_eq (hp : p.Through f) {s t : σ} (he : f s=f t) : p.atOnce s=p.atOnce t := by
  induction p with
  | answer r => rfl
  | read next ih =>
    simp only [atOnce]
    rw [← hp.1 s t he]
    exact ih s (hp.2 s)

theorem Through.bindOk {p : ExceptT ε (Request σ) ρ} (hp : Through f p.run)
    (hg : ∀ r, Through f (g r).run) : Through f (p>>=g).run := by
  apply Through.bind hp
  rintro (e | r)
  · exact trivial
  · exact hg r

end Through
end Request

open Request

/-- The request is answered while the others take the steps of the list. -/
inductive Interleaved (step : σ → α → σ → Prop) : Request σ ρ → σ → List α → ρ → σ → Prop where
  | answer (r : ρ) (s : σ) : Interleaved step (.answer r) s [] r s
  | read {next : σ → Request σ ρ} {s t : σ} {as : List α} {r : ρ}
      (h : Interleaved step (next s) s as r t) : Interleaved step (.read next) s as r t
  | other {p : Request σ ρ} {s t u : σ} {a : α} {as : List α} {r : ρ} (hs : step s a u)
      (h : Interleaved step p u as r t) : Interleaved step p s (a::as) r t

namespace Interleaved
variable {step : σ → α → σ → Prop} {s t : σ} {as bs : List α} {m : ρ}

theorem alone (step : σ → α → σ → Prop) (p : Request σ ρ) (s : σ) :
    Interleaved step p s [] (p.atOnce s) s := by
  induction p with
  | answer r => exact .answer r s
  | read next ih => exact .read (ih s)

theorem run {r : ρ} (h : Interleaved step p s as r t) : Run step s as t := by
  induction h with
  | answer r s => exact .nil s
  | read _ ih => exact ih
  | other hs _ ih => exact .cons hs ih

theorem bind {g : ρ → Request σ τ} {u : σ} (hp : Interleaved step p s as m u)
    (hg : Interleaved step (g m) u bs r t) : Interleaved step (p.bind g) s (as++bs) r t := by
  induction hp with
  | answer m s => exact hg
  | read _ ih => exact .read (ih hg)
  | other hs _ ih => exact .other hs (ih hg)

theorem after {r : ρ} {u : σ} (h : Interleaved step p u bs r t) (hr : Run step s as u) :
    Interleaved step p s (as++bs) r t := by
  induction hr generalizing bs with
  | nil => exact h
  | snoc _ hs ih =>
    rw [List.append_assoc]
    exact ih (.other hs h)

theorem bind_ok {p : ExceptT ε (Request σ) ρ} {u : σ} (hp : Interleaved step p.run s as (.ok m) u)
    (hg : Interleaved step (g m).run u bs (.ok r) t) :
    Interleaved step (p>>=g).run s (as++bs) (.ok r) t := hp.bind hg

theorem between {p : ExceptT ε (Request σ) ρ} (hp : p.run.atOnce s=.ok m) (hr : Run step s as t)
    (hg : (g m).run.atOnce t=.ok r) : Interleaved step (p>>=g).run s as (.ok r) t := by
  have hfirst := alone step p.run s
  have hlast := (alone step (g m).run t).after hr
  rw [hp] at hfirst
  rw [hg,List.append_nil] at hlast
  exact hfirst.bind_ok hlast

theorem answer_eq {r : ρ} (h : Interleaved step (.answer m) s as r t) : r=m := by
  generalize hq : Request.answer m=q at h
  induction h with
  | answer r s => exact (Request.answer.inj hq).symm
  | read _ _ => cases hq
  | other _ _ ih => exact ih hq

theorem bind_cases {g : ρ → Request σ τ} (h : Interleaved step (p.bind g) s as r t) :
    ∃ bs cs m u, as=bs++cs ∧
      Interleaved step p s bs m u ∧ Interleaved step (g m) u cs r t := by
  generalize hq : p.bind g=q at h
  induction h generalizing p with
  | answer r s =>
    cases p with
    | answer m =>
      have hm : g m=.answer r := hq
      exact ⟨[],[],m,s,rfl,.answer m s,hm ▸ .answer r s⟩
    | read next => cases hq
  | @read next' s t as r h ih =>
    cases p with
    | answer m =>
      have hm : g m=.read next' := hq
      exact ⟨[],as,m,s,rfl,.answer m s,hm ▸ .read h⟩
    | read next =>
      obtain rfl : (fun s => (next s).bind g)=next' := Request.read.inj hq
      obtain ⟨bs,cs,m,u,he,hp,hg⟩ := ih rfl
      exact ⟨bs,cs,m,u,he,.read hp,hg⟩
  | @other q s t u a as r hs _ ih =>
    obtain ⟨bs,cs,m,v,rfl,hp,hg⟩ := ih hq
    exact ⟨a::bs,cs,m,v,rfl,.other hs hp,hg⟩

theorem bind_ok_cases {p : ExceptT ε (Request σ) ρ}
    (h : Interleaved step (p>>=g).run s as (.ok r) t) : ∃ bs cs m u, as=bs++cs ∧
      Interleaved step p.run s bs (.ok m) u ∧ Interleaved step (g m).run u cs (.ok r) t := by
  obtain ⟨bs,cs,m,u,he,hp,hg⟩ := bind_cases (p:=p.run) (g:=fun m => ExceptT.bindCont g m) h
  cases m with
  | error e => cases hg.answer_eq
  | ok m => exact ⟨bs,cs,m,u,he,hp,hg⟩

theorem get_cases {g : σ → ρ} {r : ρ} (h : Interleaved step (get g) s as r t) :
    ∃ bs cs u, as=bs++cs ∧ Run step s bs u ∧ Run step u cs t ∧ r=g u := by
  generalize hq : get g=q at h
  induction h with
  | answer r s => cases hq
  | @read next s t as r h ih =>
    obtain rfl : (fun s => Request.answer (g s))=next := Request.read.inj hq
    exact ⟨[],as,s,rfl,.nil s,h.run,h.answer_eq⟩
  | @other q s t u a as r hs _ ih =>
    obtain ⟨bs,cs,v,rfl,hb,hc,hv⟩ := ih hq
    exact ⟨a::bs,cs,v,rfl,.cons hs hb,hc,hv⟩

variable {f : σ → υ}

theorem run_keeps (hkeep : ∀ a∈as, ∀ s t, step s a t → f t=f s) (h : Run step s as t) :
    f t=f s := by
  induction h with
  | nil => rfl
  | @snoc t u a as _ hs ih =>
    rw [hkeep a (by simp) t u hs]
    exact ih fun b hb => hkeep b (List.mem_append_left _ hb)

/-- If the others keep what the request reads, it is answered as if all reads were one. -/
theorem eq_atOnce {r : ρ} (h : Interleaved step p s as r t) (hp : p.Through f)
    (hkeep : ∀ a∈as, ∀ s t, step s a t → f t=f s) : r=p.atOnce s := by
  induction h with
  | answer r s => rfl
  | read _ ih => exact ih (hp.2 _) hkeep
  | @other p s t u a as r hs _ ih =>
    rw [ih hp fun b hb => hkeep b (List.mem_cons_of_mem a hb)]
    exact hp.atOnce_eq (hkeep a (by simp) s u hs)

end Interleaved
end Reading
