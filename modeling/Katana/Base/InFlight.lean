import Mathlib.Data.List.Induction
import Mathlib.Data.List.Perm.Basic
import Mathlib.Logic.Function.Basic
import Mathlib.Tactic.Common

/-! Calls in flight that several callers wait for: a map from the key of a call to its
callers, and a vector of the calls, from which elements are removed by swapping. A loop over such a
vector takes its elements out, the last one first, and pushes back those it keeps. -/

/-- The last element takes the place of the removed one. -/
def swapRemove {α : Type} (l : List α) (n : Nat) : Option (α × List α) :=
  match l[n]?,l.getLast? with
  | some x,some last => some (x,(l.set n last).dropLast)
  | _,_ => none

variable {α : Type} {l : List α} {n : Nat}

theorem swapRemove_append (a b : List α) (x : α) :
    ∃ c, swapRemove (a++x::b) a.length=some (x,a++c) ∧ c.Perm b := by
  cases b using List.reverseRecOn with
  | nil => exact ⟨[],by simp [swapRemove],.nil⟩
  | append_singleton b y =>
    have hlast : (a++x::(b++[y])).getLast?=some y := by
      rw [show a++x::(b++[y])=(a++x::b)++[y] by simp,List.getLast?_concat]
    have hdrop : (a++y::(b++[y])).dropLast=a++y::b := by
      rw [show a++y::(b++[y])=(a++y::b)++[y] by simp,List.dropLast_concat]
    have hset : (a++x::(b++[y])).set a.length y=a++y::(b++[y]) := by simp
    exact ⟨y::b,by simp [swapRemove,hlast,hset,hdrop],(List.perm_append_singleton y b).symm⟩

theorem swapRemove_of_lt (h : n<l.length) :
    ∃ x rest, swapRemove l n=some (x,rest) ∧ l.Perm (x::rest) ∧
      l.take (n+1)=rest.take n++[x] ∧ n≤rest.length := by
  obtain ⟨a,x,b,rfl,rfl⟩ : ∃ a x b, l=a++x::b ∧ a.length=n :=
    ⟨l.take n,l[n],l.drop (n+1),by simp,by simp; omega⟩
  obtain ⟨c,hs,hp⟩ := swapRemove_append a b x
  refine ⟨x,a++c,hs,List.perm_middle.trans (.cons x (hp.symm.append_left a)),?_,by simp⟩
  rw [List.take_length_add_append,List.take_left]
  simp

variable {σ : Type} {pre post : List α} {x : α} {log : List (α × Option α)}
  (visit : α → σ → Option α × σ)

/-- for n in (0..l.len()).rev(): element n is taken out, visited, and pushed back if it is kept. -/
def retainSwap : Nat → List α → σ → Option (List α × σ)
  | 0,l,s => some (l,s)
  | n+1,l,s =>
    match swapRemove l n with
    | none => none
    | some (x,rest) => retainSwap n (rest++(visit x s).1.toList) (visit x s).2

/-- The elements are visited one after the other; each is logged with what is kept of it. -/
def visitAll : List α → σ → List (α × Option α) × σ
  | [],s => ([],s)
  | x::xs,s =>
    let later := visitAll xs (visit x s).2
    ((x,(visit x s).1)::later.1,later.2)

/-- The loop is still to visit what is before and visited once what is behind. What was kept of that
is there, and what is before is in its place. -/
structure Retaining (pre post l : List α) (log : List (α × Option α)) : Prop where
  kept : ∃ k, l=pre++k ∧ k.Perm (log.filterMap Prod.snd)
  visited : log.map Prod.fst=post.reverse

theorem Retaining.start (xs : List α) : Retaining xs [] xs [] := ⟨⟨[],by simp⟩,rfl⟩

theorem Retaining.step (h : Retaining (pre++[x]) post l log) :
    ∃ rest, swapRemove l pre.length=some (x,rest) ∧
      ∀ y, Retaining pre (x::post) (rest++y.toList) (log++[(x,y)]) := by
  obtain ⟨⟨k,rfl,hk⟩,hv⟩ := h
  obtain ⟨c,hs,hc⟩ := swapRemove_append pre k x
  refine ⟨pre++c,by rwa [List.append_assoc],fun y => ⟨⟨c++y.toList,List.append_assoc _ _ _,?_⟩,?_⟩⟩
  · have hlog : (log++[(x,y)]).filterMap Prod.snd=log.filterMap Prod.snd++y.toList := by
      cases y <;> simp
    rw [hlog]
    exact (hc.trans hk).append_right _
  · simp [hv]

/-- Every element was visited once, the last one first, and what was kept of them remains. -/
def Retained (xs : List α) (s : σ) (r : Option (List α × σ)) : Prop :=
  ∃ l, r=some (l,(visitAll visit xs.reverse s).2) ∧
    l.Perm ((visitAll visit xs.reverse s).1.filterMap Prod.snd)

theorem retainSwap_retaining (s : σ) (h : Retaining pre post l log) :
    ∃ l', retainSwap visit pre.length l s=some (l',(visitAll visit pre.reverse s).2) ∧
      Retaining [] (pre++post) l' (log++(visitAll visit pre.reverse s).1) := by
  induction pre using List.reverseRecOn generalizing post l log s with
  | nil => exact ⟨l,rfl,by simpa [visitAll] using h⟩
  | append_singleton pre x ih =>
    obtain ⟨rest,hs,hstep⟩ := h.step
    obtain ⟨l',hl,hr⟩ := ih (visit x s).2 (hstep (visit x s).1)
    exact ⟨l',by simpa [retainSwap,hs,visitAll] using hl,by simpa [visitAll] using hr⟩

theorem retainSwap_retained (xs : List α) (s : σ) :
    Retained visit xs s (retainSwap visit xs.length xs s) := by
  obtain ⟨_,hl,⟨_,rfl,hk⟩,-⟩ := retainSwap_retaining visit s (.start xs)
  exact ⟨_,hl,hk⟩

structure InFlight (κ γ σ : Type) where
  dedupMap : κ → Option (List σ) := fun _ => none
  pending : List (κ × γ) := []

namespace InFlight
variable {κ γ σ : Type} {f : InFlight κ γ σ} {pending : List (κ × γ)} {k : κ}

def waiting (f : InFlight κ γ σ) : List σ :=
  f.pending.flatMap (fun p => (f.dedupMap p.1).getD [])

/-- The keys of the map are those of the calls, each once, and every call has a caller. -/
structure Wf (f : InFlight κ γ σ) : Prop where
  nodup : (f.pending.map Prod.fst).Nodup
  keys : ∀ k, f.dedupMap k≠none ↔ k∈f.pending.map Prod.fst
  callers : ∀ k senders, f.dedupMap k=some senders → senders≠[]

theorem Wf.empty : Wf ({} : InFlight κ γ σ) := ⟨by simp,by simp,by simp⟩

theorem Wf.of_perm (h : f.Wf) (hp : f.pending.Perm pending) :
    Wf { f with pending := pending } where
  nodup := (hp.map Prod.fst).nodup_iff.mp h.nodup
  keys k := (h.keys k).trans (hp.map Prod.fst).mem_iff
  callers := h.callers

theorem waiting_perm (hp : f.pending.Perm pending) :
    f.waiting.Perm ({ f with pending := pending } : InFlight κ γ σ).waiting :=
  hp.flatMap_right _

theorem Wf.split (h : f.Wf) {senders : List σ} (hm : f.dedupMap k=some senders) :
    ∃ call rest, f.pending.Perm ((k,call)::rest) ∧ k∉rest.map Prod.fst := by
  have hk := (h.keys k).mp (by simp [hm])
  obtain ⟨⟨k',call⟩,hp,rfl⟩ := List.mem_map.mp hk
  obtain ⟨a,b,hab⟩ := List.append_of_mem hp
  have hperm : f.pending.Perm ((k',call)::(a++b)) := hab ▸ List.perm_middle
  have hnodup := (hperm.map Prod.fst).nodup_iff.mp h.nodup
  exact ⟨call,a++b,hperm,(List.nodup_cons.mp hnodup).1⟩

theorem Wf.mem_waiting (h : f.Wf) {x : σ} :
    x∈f.waiting ↔ ∃ k senders, f.dedupMap k=some senders ∧ x∈senders := by
  simp only [waiting,List.mem_flatMap]
  constructor
  · rintro ⟨p,hp,hx⟩
    cases hm : f.dedupMap p.1 with
    | none => simp [hm] at hx
    | some senders => exact ⟨p.1,senders,hm,by simpa [hm] using hx⟩
  · rintro ⟨k,senders,hm,hx⟩
    obtain ⟨p,hp,rfl⟩ := List.mem_map.mp ((h.keys k).mp (by simp [hm]))
    exact ⟨p,hp,by simpa [hm] using hx⟩

variable [DecidableEq κ]

/-- A caller joins the call under its key, or starts it. -/
def join (f : InFlight κ γ σ) (k : κ) (s : σ) (call : γ) : InFlight κ γ σ :=
  match f.dedupMap k with
  | none =>
    { dedupMap := Function.update f.dedupMap k (some [s])
      pending := f.pending++[(k,call)] }
  | some senders => { f with dedupMap := Function.update f.dedupMap k (some (senders++[s])) }

def finish (f : InFlight κ γ σ) (k : κ) (rest : List (κ × γ)) : InFlight κ γ σ :=
  { dedupMap := Function.update f.dedupMap k none
    pending := rest }

theorem length_join_le (f : InFlight κ γ σ) (k : κ) (s : σ) (call : γ) :
    (f.join k s call).pending.length≤f.pending.length+1 := by
  unfold join
  split <;> simp

theorem flatMap_update (hk : k∉pending.map Prod.fst) (m : κ → Option (List σ))
    (v : Option (List σ)) :
    pending.flatMap (fun p => (Function.update m k v p.1).getD [])=
      pending.flatMap (fun p => (m p.1).getD []) := by
  refine List.flatMap_congr ?_
  intro p hp
  have hne : p.1≠k := fun he => hk (he ▸ List.mem_map_of_mem hp)
  rw [Function.update_of_ne hne]

theorem callers_update {m : κ → Option (List σ)} (h : ∀ k senders, m k=some senders → senders≠[])
    {v : Option (List σ)} (hv : v≠some []) (k k' : κ) (senders : List σ)
    (hs : Function.update m k v k'=some senders) : senders≠[] := by
  by_cases hk : k'=k
  · subst hk
    rintro rfl
    exact hv (by simpa using hs)
  · rw [Function.update_of_ne hk] at hs
    exact h k' senders hs

theorem Wf.join (h : f.Wf) (k : κ) (s : σ) (call : γ) : (f.join k s call).Wf := by
  cases hm : f.dedupMap k with
  | none =>
    have hk : k∉f.pending.map Prod.fst := fun hk => (h.keys k).mpr hk hm
    simp only [InFlight.join,hm]
    refine ⟨?_,?_,callers_update h.callers (by simp) k⟩
    · rw [List.map_append]
      refine List.nodup_append.mpr ⟨h.nodup,by simp,?_⟩
      intro a ha b hb he
      simp only [List.map_cons,List.map_nil,List.mem_singleton] at hb
      exact hk (hb ▸ he ▸ ha)
    · intro k'
      by_cases hk' : k'=k
      · subst hk'
        simp
      · simp only [Function.update_of_ne hk',h.keys k']
        simp [hk']
  | some old =>
    simp only [InFlight.join,hm]
    refine ⟨h.nodup,?_,callers_update h.callers (by simp) k⟩
    intro k'
    by_cases hk' : k'=k
    · subst hk'
      have := (h.keys k').mp (by simp [hm])
      simpa using this
    · simp only [Function.update_of_ne hk']
      exact h.keys k'

theorem Wf.waiting_join (h : f.Wf) (k : κ) (s : σ) (call : γ) :
    (f.join k s call).waiting.Perm (s::f.waiting) := by
  cases hm : f.dedupMap k with
  | none =>
    have hk : k∉f.pending.map Prod.fst := fun hk => (h.keys k).mpr hk hm
    simp only [InFlight.join,hm,waiting,List.flatMap_append,flatMap_update hk,
      List.flatMap_singleton,Function.update_self,Option.getD_some]
    exact List.perm_append_comm
  | some old =>
    obtain ⟨call',rest,hperm,hk⟩ := h.split hm
    have hperm' : (f.join k s call).pending.Perm ((k,call')::rest) := by
      simpa only [InFlight.join,hm] using hperm
    have hnew := waiting_perm hperm'
    have hold := waiting_perm hperm
    simp only [InFlight.join,hm,waiting,List.flatMap_cons,Function.update_self,Option.getD_some,
      flatMap_update hk] at hnew hold ⊢
    refine hnew.trans (.trans ?_ (.cons s hold.symm))
    rw [List.append_assoc]
    exact List.perm_middle

theorem Wf.finish (h : f.Wf) {call : γ} {rest : List (κ × γ)} (hp : f.pending.Perm ((k,call)::rest)) :
    (f.finish k rest).Wf := by
  have hn := (hp.map Prod.fst).nodup_iff.mp h.nodup
  obtain ⟨hk,hrest⟩ := List.nodup_cons.mp hn
  refine ⟨hrest,?_,callers_update h.callers (by simp) k⟩
  intro k'
  by_cases hk' : k'=k
  · subst hk'
    simpa [InFlight.finish] using hk
  · have := (h.keys k').trans (hp.map Prod.fst).mem_iff
    simpa [InFlight.finish,Function.update_of_ne hk',hk'] using this

theorem Wf.waiting_finish (h : f.Wf) {call : γ} {rest : List (κ × γ)} {senders : List σ}
    (hp : f.pending.Perm ((k,call)::rest)) (hm : f.dedupMap k=some senders) :
    f.waiting.Perm (senders++(f.finish k rest).waiting) := by
  have hn := (hp.map Prod.fst).nodup_iff.mp h.nodup
  have hk := (List.nodup_cons.mp hn).1
  refine (waiting_perm hp).trans ?_
  simp only [waiting,InFlight.finish,List.flatMap_cons,hm,Option.getD_some,flatMap_update hk]
  exact .refl _

end InFlight
