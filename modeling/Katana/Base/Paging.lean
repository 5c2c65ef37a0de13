import Mathlib.Data.List.Basic

/-! Reading a list page by page. A page has some of the items and the token of the next page;
the reader asks again with the token it was given. The pages are filled by nested loops that
stop where the buffer is full. -/
namespace Paging
variable {ε τ α β γ : Type}

/-- One request: a token, or none at the start, to the items of a page and the next token. -/
abbrev Source (ε τ α : Type) := Option τ → Except ε (List α × Option τ)

/-- The pages of at most the given number of requests, and whether the tokens have ended. -/
def follow (page : Source ε τ α) : Nat → Option τ → Except ε (List (List α) × Bool)
  | 0, _ => .ok ([],false)
  | k+1, t =>
    match page t with
    | .error e => .error e
    | .ok (out,none) => .ok ([out],true)
    | .ok (out,some t') =>
      match follow page k (some t') with
      | .error e => .error e
      | .ok (outs,ended) => .ok (out::outs,ended)

section Follow
variable {page : Source ε τ α} {t u : Option τ} {outs outs' : List (List α)}
    {out items items' : List α}

def Ends (page : Source ε τ α) (t : Option τ) (outs : List (List α)) : Prop :=
  ∃ k, follow page k t=.ok (outs,true)

/-- After enough requests the pages hold exactly the items, and later pages add nothing. -/
def Delivers (page : Source ε τ α) (t : Option τ) (items : List α) : Prop :=
  ∃ n, ∀ k, n ≤ k → ∃ outs ended, follow page k t=.ok (outs,ended) ∧ outs.flatten=items

/-- Requests that are all answered with a token lead from one token to another. -/
inductive Leads (page : Source ε τ α) : Option τ → List (List α) → Option τ → Prop where
  | refl (t : Option τ) : Leads page t [] t
  | next {t u : Option τ} {t' : τ} {out : List α} {outs : List (List α)} :
    page t=.ok (out,some t') → Leads page (some t') outs u → Leads page t (out::outs) u

theorem follow_last (k : Nat) (h : page t=.ok (out,none)) :
    follow page (k+1) t=.ok ([out],true) := by
  simp only [follow,h]

theorem Leads.follow (h : Leads page t outs u) (k : Nat) {r : List (List α) × Bool}
    (hr : follow page k u=.ok r) : follow page (outs.length+k) t=.ok (outs++r.1,r.2) := by
  induction h with
  | refl t => simpa using hr
  | next hp _ ih =>
    have hlen : ∀ n : Nat, n+1+k=(n+k)+1 := fun n => by omega
    simp [hlen,Paging.follow,hp,ih hr]

theorem follow_cases {k : Nat} {ended : Bool} (h : follow page (k+1) t=.ok (outs,ended)) :
    (∃ out, page t=.ok (out,none) ∧ outs=[out]) ∨
    ∃ out t' outs', page t=.ok (out,some t') ∧ follow page k (some t')=.ok (outs',ended) ∧
      outs=out::outs' := by
  simp only [follow] at h
  cases hp : page t with
  | error e => simp [hp] at h
  | ok r =>
    obtain ⟨out,next⟩ := r
    cases next with
    | none =>
      simp only [hp,Except.ok.injEq,Prod.mk.injEq] at h
      exact Or.inl ⟨out,rfl,h.1.symm⟩
    | some t' =>
      simp only [hp] at h
      cases hf : follow page k (some t') with
      | error e => simp [hf] at h
      | ok r =>
        simp only [hf,Except.ok.injEq,Prod.mk.injEq] at h
        exact Or.inr ⟨out,t',r.1,rfl,by rw [hf,← h.2],h.1.symm⟩

theorem follow_mono {k j : Nat} (h : follow page k t=.ok (outs,true)) (hkj : k ≤ j) :
    follow page j t=.ok (outs,true) := by
  induction k generalizing t outs j with
  | zero => simp [follow] at h
  | succ k ih =>
    obtain ⟨j,rfl⟩ : ∃ i, j=i+1 := ⟨j-1,by omega⟩
    obtain ⟨out,hp,rfl⟩ | ⟨out,t',outs',hp,hf,rfl⟩ := follow_cases h
    · exact follow_last j hp
    · simp only [follow,hp,ih hf (Nat.le_of_succ_le_succ hkj)]

theorem Ends.unique (h : Ends page t outs) (h' : Ends page t outs') : outs=outs' := by
  obtain ⟨k,hk⟩ := h
  obtain ⟨j,hj⟩ := h'
  have hk' := follow_mono hk (Nat.le_max_left k j)
  rw [follow_mono hj (Nat.le_max_right k j)] at hk'
  simp only [Except.ok.injEq,Prod.mk.injEq,and_true] at hk'
  exact hk'.symm

theorem Delivers.unique (h : Delivers page t items) (h' : Delivers page t items') :
    items=items' := by
  obtain ⟨n,hn⟩ := h
  obtain ⟨n',hn'⟩ := h'
  obtain ⟨outs,ended,hf,rfl⟩ := hn (max n n') (Nat.le_max_left n n')
  obtain ⟨outs',ended',hf',rfl⟩ := hn' (max n n') (Nat.le_max_right n n')
  rw [hf] at hf'
  simp only [Except.ok.injEq,Prod.mk.injEq] at hf'
  rw [hf'.1]

section Failing
variable {e : ε} (h : page t=.error e)
include h

theorem follow_error (k : Nat) : follow page (k+1) t=.error e := by
  simp only [follow,h]

theorem not_ends_error : ¬Ends page t outs := by
  rintro ⟨k,hk⟩
  cases k with
  | zero => simp [follow] at hk
  | succ k =>
    rw [follow_error h] at hk
    cases hk

end Failing

theorem not_ends {I : Option τ → Prop} (hI : ∀ t, I t → ∀ out next, page t=.ok (out,next) →
    ∃ t', next=some t' ∧ I (some t')) (ht : I t) : ¬Ends page t outs := by
  intro h
  obtain ⟨k,hk⟩ := h
  induction k generalizing t outs with
  | zero => simp [follow] at hk
  | succ k ih =>
    obtain ⟨out,hp,_⟩ | ⟨out,t',outs',hp,hf,_⟩ := follow_cases hk
    · obtain ⟨_,hnone,_⟩ := hI t ht out none hp
      cases hnone
    · obtain ⟨_,he,ht'⟩ := hI t ht out (some t') hp
      rw [← he] at ht'
      exact ih ht' hf

variable (h : Leads page t outs u)
include h

theorem Leads.trans_ends (hu : Ends page u outs') : Ends page t (outs++outs') := by
  obtain ⟨k,hk⟩ := hu
  exact ⟨outs.length+k,h.follow k hk⟩

theorem Leads.ends (hlast : page u=.ok (out,none)) : Ends page t (outs++[out]) :=
  h.trans_ends ⟨1,follow_last 0 hlast⟩

end Follow

def restAfter (rest : Option τ → List α) : Option τ → List α
  | none => []
  | some t => rest (some t)

/-- Every page starts what is left at its token, keeps to the size and comes nearer to the
end. -/
structure Paginates (page : Source ε τ α) (size : Nat) (I : Option τ → Prop)
    (rest : Option τ → List α) (steps : Option τ → Nat) : Prop where
  answers : ∀ t, I t → ∃ out next, page t=.ok (out,next) ∧ out.length ≤ size ∧
    rest t=out++restAfter rest next ∧ ∀ t', next=some t' → I (some t') ∧ steps (some t')<steps t

section Paginates
variable {page : Source ε τ α} {size : Nat} {I : Option τ → Prop} {rest : Option τ → List α}
  {steps : Option τ → Nat} {t : Option τ}

theorem Paginates.leads (h : Paginates page size I rest steps) (ht : I t) :
    ∃ outs u, Leads page t outs u ∧ I u ∧ page u=.ok (rest u,none) ∧ outs.flatten++rest u=rest t ∧
      (∀ out∈outs, out.length ≤ size) ∧ (rest u).length ≤ size := by
  induction hn : steps t using Nat.strongRecOn generalizing t with
  | ind n ih =>
    obtain ⟨out,next,hp,hlen,hrest,hnext⟩ := h.answers t ht
    cases next with
    | none =>
      rw [restAfter,List.append_nil] at hrest
      subst hrest
      exact ⟨[],t,.refl t,ht,hp,rfl,by simp,hlen⟩
    | some t' =>
      obtain ⟨hI,hlt⟩ := hnext t' rfl
      obtain ⟨outs,u,hl,hu,hlast,hflat,hsizes,hsize⟩ := ih _ (hn ▸ hlt) hI rfl
      refine ⟨out::outs,u,.next hp hl,hu,hlast,?_,?_,hsize⟩
      · rw [hrest,restAfter,← hflat,List.flatten_cons,List.append_assoc]
      · simpa [hlen] using hsizes

theorem Paginates.ends (h : Paginates page size I rest steps) (ht : I t) :
    ∃ outs, Ends page t outs ∧ outs.flatten=rest t ∧ ∀ out∈outs, out.length ≤ size := by
  obtain ⟨outs,u,hl,_,hlast,hflat,hsizes,hsize⟩ := h.leads ht
  refine ⟨outs++[rest u],hl.ends hlast,by simpa using hflat,?_⟩
  simp only [List.forall_mem_append,List.forall_mem_singleton]
  exact ⟨hsizes,hsize⟩

theorem Leads.map {ε' τ' : Type} {page' : Source ε' τ' α} {u : Option τ} {outs : List (List α)}
    (f : τ → τ') (h : Paginates page size I rest steps) (ht : I t) (hl : Leads page t outs u)
    (hf : ∀ t out t', I t → page t=.ok (out,some t') → page' (t.map f)=.ok (out,some (f t'))) :
    Leads page' (t.map f) outs (u.map f) := by
  induction hl with
  | refl t => exact .refl _
  | @next t u t' out outs hp _ ih =>
    obtain ⟨_,_,hp',_,_,hnext⟩ := h.answers t ht
    rw [hp,Except.ok.injEq,Prod.mk.injEq] at hp'
    obtain ⟨rfl,rfl⟩ := hp'
    exact .next (hf t out t' ht hp) (ih (hnext t' rfl).1)

end Paginates

/-- A loop over sources that stops at the first position it is given. -/
def readAll (r : β → List α → Except ε (Option γ × List α)) :
    List β → List α → Except ε (Option γ × List α)
  | [], buffer => .ok (none,buffer)
  | x::xs, buffer =>
    match r x buffer with
    | .error e => .error e
    | .ok (some c,buffer) => .ok (some c,buffer)
    | .ok (none,buffer) => readAll r xs buffer

theorem readAll_append (r : β → List α → Except ε (Option γ × List α)) (xs ys : List β)
    (buffer : List α) : readAll r (xs++ys) buffer=
      match readAll r xs buffer with
      | .error e => .error e
      | .ok (some c,buffer) => .ok (some c,buffer)
      | .ok (none,buffer) => readAll r ys buffer := by
  induction xs generalizing buffer with
  | nil => rfl
  | cons x xs ih =>
    simp only [List.cons_append,readAll]
    cases r x buffer with
    | error e => rfl
    | ok q =>
      obtain ⟨c,out⟩ := q
      cases c with
      | some c => rfl
      | none => exact ih out

/-- A reader of a bounded buffer. It adds all it has to read, or fills the buffer and answers
a position that has the rest and what comes later. -/
def Continues (size : Nat) (rest : γ → List α) (V : γ → Prop)
    (r : List α → Except ε (Option γ × List α)) (own later : List α) : Prop :=
  ∀ buffer, buffer.length ≤ size →
    (r buffer=.ok (none,buffer++own) ∧ (buffer++own).length ≤ size) ∨
    ∃ c out, r buffer=.ok (some c,out) ∧ out.length=size ∧ V c ∧
      buffer++own++later=out++rest c

theorem Continues.readAll {size : Nat} {rest : γ → List α} {V : γ → Prop}
    {r : β → List α → Except ε (Option γ × List α)} {own : β → List α} (later : List α)
    (xs : List β) (h : ∀ pre x post, xs=pre++x::post →
      Continues size rest V (r x) (own x) (post.flatMap own++later)) :
    Continues size rest V (readAll r xs) (xs.flatMap own) later := by
  induction xs with
  | nil =>
    intro buffer hb
    exact Or.inl ⟨by simp [Paging.readAll],by simpa using hb⟩
  | cons x xs ih =>
    intro buffer hb
    have ih' := ih (fun pre y post he => h (x::pre) y post (by rw [he,List.cons_append]))
    obtain ⟨hr,hlen⟩ | ⟨c,out,hr,hlen,hV,he⟩ := h [] x xs rfl buffer hb
    · obtain ⟨hr',hlen'⟩ | ⟨c,out,hr',hlen',hV,he⟩ := ih' (buffer++own x) hlen
      · left
        rw [List.flatMap_cons,← List.append_assoc]
        exact ⟨by rw [Paging.readAll,hr]; exact hr',hlen'⟩
      · refine Or.inr ⟨c,out,by rw [Paging.readAll,hr]; exact hr',hlen',hV,?_⟩
        simpa using he
    · exact Or.inr ⟨c,out,by rw [Paging.readAll,hr],hlen,hV,by simpa using he⟩

theorem Continues.paginates {size : Nat} {I : Option γ → Prop} {rest : Option γ → List α}
    {r : Option γ → List α → Except ε (Option γ × List α)} (hsize : 1 ≤ size)
    (h : ∀ t, I t → Continues size (fun c => rest (some c)) (fun c => I (some c)) (r t) (rest t) []) :
    Paginates (fun t => (r t []).map Prod.swap) size I rest (fun t => (rest t).length) := by
  constructor
  intro t ht
  obtain ⟨hr,hlen⟩ | ⟨c,out,hr,hlen,hV,hout⟩ := h t ht [] (Nat.zero_le size)
  · refine ⟨_,none,by rw [hr]; rfl,hlen,?_,by simp⟩
    simp [restAfter]
  · rw [List.nil_append,List.append_nil] at hout
    refine ⟨out,some c,by rw [hr]; rfl,by omega,hout,?_⟩
    intro t' he
    cases he
    refine ⟨hV,?_⟩
    simp only [hout,List.length_append]
    omega

theorem Continues.imp {size : Nat} {rest : γ → List α} {V W : γ → Prop}
    {r : List α → Except ε (Option γ × List α)} {own later : List α} (hVW : ∀ c, V c → W c)
    (h : Continues size rest V r own later) : Continues size rest W r own later := by
  intro buffer hb
  obtain hr | ⟨c,out,hr,hlen,hV,hout⟩ := h buffer hb
  · exact Or.inl hr
  · exact Or.inr ⟨c,out,hr,hlen,hVW c hV,hout⟩

section Stitched
variable {δ ζ σ : Type}

def give (err : δ → ε) (g : γ → σ) : Except δ (Option γ × List α) → Except ε (List α × Option σ)
  | .error e => .error (err e)
  | .ok (c,out) => .ok (out,c.map g)

/-- A source that asks another source first and goes on with a reader, on the page of the other
source that has no token. -/
structure Stitched (page : Source ε σ α) (front : Source ζ τ α) (I : Option τ → Prop) (f : τ → σ)
    (r : Option γ → List α → Except δ (Option γ × List α)) (J : Option γ → Prop) (g : γ → σ)
    (err : δ → ε) : Prop where
  ahead : ∀ t out t', I t → front t=.ok (out,some t') → page (t.map f)=.ok (out,some (f t'))
  cross : ∀ t out, I t → front t=.ok (out,none) → page (t.map f)=give err g (r none out)
  behind : ∀ c, J (some c) → page (some (g c))=give err g (r (some c) [])

variable {page : Source ε σ α} {front : Source ζ τ α} {I : Option τ → Prop} {f : τ → σ}
  {r : Option γ → List α → Except δ (Option γ × List α)} {J : Option γ → Prop} {g : γ → σ}
  {err : δ → ε} {size : Nat} {rest : Option τ → List α} {steps : Option τ → Nat}

variable (h : Stitched page front I f r J g err)
include h

theorem Stitched.behind_page {c : γ} {out : List α} {next : Option γ} (hc : J (some c))
    (hr : (r (some c) []).map Prod.swap=.ok (out,next)) :
    page (some (g c))=.ok (out,next.map g) := by
  rw [h.behind c hc]
  cases hd : r (some c) [] with
  | error e => simp [hd,Except.map] at hr
  | ok q =>
    obtain ⟨next',out'⟩ := q
    simp only [hd,Except.map,Except.ok.injEq,Prod.swap_prod_mk,Prod.mk.injEq] at hr
    simp [give,hr.1,hr.2]

theorem Stitched.behind_ends {rest' : Option γ → List α} (hsize : 1 ≤ size)
    (hr : ∀ t, J t → Continues size (fun c => rest' (some c))
      (fun c => J (some c)) (r t) (rest' t) []) {c : γ} (hc : J (some c)) :
    ∃ outs, Ends page (some (g c)) outs ∧ outs.flatten=rest' (some c) ∧
      ∀ out∈outs, out.length ≤ size := by
  have hpages : Paginates (fun t => (r t []).map Prod.swap) size (fun t => ∃ c, t=some c ∧ J t)
      rest' (fun t => (rest' t).length) := by
    apply Continues.paginates hsize
    intro t ht
    obtain ⟨c,rfl,hc⟩ := ht
    exact (hr (some c) hc).imp (fun d hd => ⟨d,rfl,hd⟩)
  obtain ⟨outs,u,hl,hu,hlast,hflat,hsizes,hlen⟩ := hpages.leads ⟨c,rfl,hc⟩
  obtain ⟨d,rfl,hd⟩ := hu
  have hl' : Leads page (some (g c)) outs (some (g d)) := by
    refine Leads.map g hpages ⟨c,rfl,hc⟩ hl (fun t out t' ht hp => ?_)
    obtain ⟨d,rfl,hd⟩ := ht
    exact h.behind_page hd hp
  refine ⟨outs++[rest' (some d)],hl'.ends (h.behind_page hd hlast),by simpa using hflat,?_⟩
  simp only [List.forall_mem_append,List.forall_mem_singleton]
  exact ⟨hsizes,hlen⟩

theorem Stitched.ends (rest' : Option γ → List α)
    (hfront : Paginates front size I rest steps) (hI : I none) (hJ : J none) (hsize : 1 ≤ size)
    (hr : ∀ t, J t → Continues size (fun c => rest' (some c)) (fun c => J (some c)) (r t)
      (rest' t) []) :
    ∃ outs, Ends page none outs ∧ outs.flatten=rest none++rest' none ∧
      ∀ out∈outs, out.length ≤ size := by
  obtain ⟨outs,u,hl,hu,hlast,hflat,hsizes,hlen⟩ := hfront.leads hI
  have hbefore : Leads page none outs (u.map f) := Leads.map f hfront hI hl h.ahead
  have hcross : page (u.map f)=_ := h.cross u _ hu hlast
  obtain ⟨hr',hlen'⟩ | ⟨c,out,hr',hlen',hc,hout⟩ := hr none hJ (rest u) hlen
  · -- the page of the crossing is the last one
    rw [hr'] at hcross
    refine ⟨outs++[rest u++rest' none],hbefore.ends hcross,by simp [← hflat],?_⟩
    simp only [List.forall_mem_append,List.forall_mem_singleton]
    exact ⟨hsizes,hlen'⟩
  · rw [hr'] at hcross
    obtain ⟨outs',hends,hflat',hsizes'⟩ := h.behind_ends hsize hr hc
    have hlead : Leads page (u.map f) [out] (some (g c)) := .next hcross (.refl _)
    refine ⟨outs++([out]++outs'),hbefore.trans_ends (hlead.trans_ends hends),?_,?_⟩
    · rw [List.append_nil] at hout
      simp [hflat',← hout,← hflat]
    · simp only [List.forall_mem_append,List.forall_mem_singleton]
      exact ⟨hsizes,Nat.le_of_eq hlen',hsizes'⟩

theorem Stitched.not_ends (hfront : Paginates front size I rest steps) (hI : I none) (hJ : J none)
    (hr : ∀ t buffer, J t → buffer.length ≤ size → ∀ c out, r t buffer=.ok (c,out) →
      ∃ d, c=some d ∧ J (some d)) {outs : List (List α)} : ¬Ends page none outs := by
  -- an answer of the reader has a token behind the crossing
  have hgive : ∀ t buffer, J t → buffer.length ≤ size → ∀ out next,
      give err g (r t buffer)=.ok (out,next) → ∃ c, next=some (g c) ∧ J (some c) := by
    intro t buffer ht hb out next hg
    cases hq : r t buffer with
    | error e => simp [hq,give] at hg
    | ok q =>
      obtain ⟨c,out'⟩ := q
      obtain ⟨d,rfl,hd⟩ := hr t buffer ht hb c out' hq
      simp only [hq,give,Except.ok.injEq,Prod.mk.injEq] at hg
      exact ⟨d,hg.2.symm,hd⟩
  apply Paging.not_ends (I := fun t => (∃ u, t=u.map f ∧ I u) ∨ ∃ c, t=some (g c) ∧ J (some c))
  · intro t ht out next hp
    obtain ⟨u,rfl,hu⟩ | ⟨c,rfl,hc⟩ := ht
    · obtain ⟨out',next',hp',hlen,_,hnext⟩ := hfront.answers u hu
      cases next' with
      | some t' =>
        rw [h.ahead u out' t' hu hp',Except.ok.injEq,Prod.mk.injEq] at hp
        exact ⟨f t',hp.2.symm,.inl ⟨some t',rfl,(hnext t' rfl).1⟩⟩
      | none =>
        rw [h.cross u out' hu hp'] at hp
        obtain ⟨c,hc,hJc⟩ := hgive none out' hJ hlen out next hp
        exact ⟨g c,hc,.inr ⟨c,rfl,hJc⟩⟩
    · rw [h.behind c hc] at hp
      obtain ⟨d,hd,hJd⟩ := hgive (some c) [] hc (Nat.zero_le size) out next hp
      exact ⟨g d,hd,.inr ⟨d,rfl,hJd⟩⟩
  · exact .inl ⟨none,rfl,hI⟩

end Stitched

variable (xs : List (List α)) (i j : Nat)

/-- What is left of a list of lists at a place in it. -/
def dropAt : List α :=
  (xs.getD i []).drop j++(xs.drop (i+1)).flatten

/-- What comes before a place in a list of lists. -/
def takeAt : List α :=
  (xs.take i).flatten++(xs.getD i []).take j

theorem takeAt_append_dropAt : takeAt xs i j++dropAt xs i j=xs.flatten := by
  have hsplit : (xs.take i).flatten++(xs.drop i).flatten=xs.flatten := by
    rw [← List.flatten_append,List.take_append_drop]
  have hdrop : (xs.drop i).flatten=xs.getD i []++(xs.drop (i+1)).flatten := by
    by_cases hi : i<xs.length
    · rw [List.drop_eq_getElem_cons hi,List.flatten_cons]
      simp [hi]
    · have hi' : xs.drop i=[] ∧ xs.drop (i+1)=[] :=
        ⟨List.drop_eq_nil_of_le (by omega),List.drop_eq_nil_of_le (by omega)⟩
      simp [hi'.1,hi'.2,List.getElem?_eq_none (Nat.le_of_not_lt hi)]
  rw [← hsplit,hdrop,takeAt,dropAt,List.append_assoc,← List.append_assoc (List.take j _),
    List.take_append_drop]

@[simp] theorem dropAt_start : dropAt xs 0 0=xs.flatten := by
  cases xs with
  | nil => rfl
  | cons x xs => simp [dropAt]

variable {xs : List (List α)} {i : Nat} {xss : List (List (List α))}

theorem dropAt_behind (h : xs.length ≤ i) (j : Nat) : dropAt xs i j=[] := by
  have hdrop : xs.drop (i+1)=[] := List.drop_eq_nil_of_le (by omega)
  simp [dropAt,List.getElem?_eq_none h,hdrop]

theorem map_dropAt (f : α → β) (xs : List (List α)) (i j : Nat) :
    (dropAt xs i j).map f=dropAt (xs.map (List.map f)) i j := by
  simp only [dropAt,List.map_append,List.map_drop,List.map_flatten]
  congr 2
  cases hx : xs[i]? <;> simp [hx]

theorem dropAt_concat {j : Nat} (h : i<xs.length ∨ i=xs.length ∧ j=0) (x : List α) :
    dropAt (xs++[x]) i j=dropAt xs i j++x := by
  rcases h with h | ⟨rfl,rfl⟩
  · have hdrop : (xs++[x]).drop (i+1)=xs.drop (i+1)++[x] := List.drop_append_of_le_length h
    simp [dropAt,List.getElem?_append_left h,hdrop]
  · rw [dropAt_behind (Nat.le_refl _)]
    simp [dropAt]

/-- What is left of a sequence of lists of lists, from a place in one of them on. -/
def restAt (xss : List (List (List α))) (n i j : Nat) : List α :=
  dropAt (xss.getD n []) i j++((xss.drop (n+1)).map List.flatten).flatten

theorem restAt_concat {n : Nat} (h : n<xss.length) (i j : Nat) (xs : List (List α)) :
    restAt (xss++[xs]) n i j=restAt xss n i j++xs.flatten := by
  have hdrop : (xss++[xs]).drop (n+1)=xss.drop (n+1)++[xs] := List.drop_append_of_le_length h
  simp [restAt,List.getElem?_append_left h,hdrop]

theorem restAt_last (xss : List (List (List α))) (xs : List (List α)) (i j : Nat) :
    restAt (xss++[xs]) xss.length i j=dropAt xs i j := by
  simp [restAt]

theorem restAt_start {n : Nat} (h : n<xss.length) :
    restAt xss n 0 0=(xss.drop n).flatMap List.flatten := by
  rw [restAt,dropAt_start,List.drop_eq_getElem_cons h,List.flatMap_cons,List.flatMap_def]
  simp [h]

theorem restAt_grow {n j : Nat} (hn : n≤xss.length) (h : n=xss.length → i<xs.length ∨ i=xs.length ∧ j=0)
    (x : List α) : restAt (xss++[xs++[x]]) n i j=restAt (xss++[xs]) n i j++x := by
  rcases Nat.lt_or_eq_of_le hn with hlt | rfl
  · simp [restAt_concat hlt]
  · rw [restAt_last,restAt_last,dropAt_concat (h rfl)]

theorem drop_eq_map_range' (xs : List α) (d : α) (k : Nat) :
    xs.drop k=(List.range' k (xs.length-k)).map fun n => xs.getD n d := by
  apply List.ext_getElem
  · simp
  · intro i hi _
    have hlt : k+i<xs.length := by
      rw [List.length_drop] at hi
      omega
    simp [hlt]

theorem window_zipIdx (xs : List β) (k n : Nat) :
    (xs.zipIdx.drop k).take n=((xs.drop k).take n).zipIdx k := by
  apply List.ext_getElem?
  intro i
  simp only [List.getElem?_take,List.getElem?_drop,List.getElem?_zipIdx,Nat.zero_add]
  split <;> simp

theorem drop_zipIdx_split {xs : List β} {k : Nat} {x : β} {pre post : List (β × Nat)}
    (h : xs.zipIdx.drop k=pre++(x,i)::post) : xs[i]?=some x ∧ k ≤ i ∧ post=xs.zipIdx.drop (i+1) := by
  have hx : xs.zipIdx[k+pre.length]?=some (x,i) := by
    rw [← List.getElem?_drop,h]
    simp
  rw [List.getElem?_zipIdx,Option.map_eq_some_iff] at hx
  obtain ⟨y,hy,he⟩ := hx
  simp only [Nat.zero_add,Prod.mk.injEq] at he
  obtain ⟨rfl,rfl⟩ := he
  refine ⟨hy,by omega,?_⟩
  have hd := congrArg (List.drop (pre.length+1)) h
  rw [List.drop_drop,List.drop_append,List.drop_eq_nil_of_le (Nat.le_succ pre.length)] at hd
  simpa [Nat.add_assoc] using hd.symm

theorem flatMap_drop_zipIdx {f : β → List α} {g : β × Nat → List α} (xs : List β) (k : Nat)
    (h : ∀ x i, k ≤ i → g (x,i)=f x) :
    (xs.zipIdx.drop k).flatMap g=((xs.map f).drop k).flatten := by
  have hg : ∀ p∈xs.zipIdx.drop k, g p=f p.1 := by
    intro p hp
    obtain ⟨pre,post,he⟩ := List.append_of_mem hp
    exact h p.1 p.2 (drop_zipIdx_split he).2.1
  have hfst : (xs.zipIdx.drop k).map Prod.fst=xs.drop k := by
    rw [List.map_drop]
    simp
  rw [List.flatMap_def,List.map_congr_left hg,← List.map_drop,← hfst,List.map_map]
  rfl

end Paging
