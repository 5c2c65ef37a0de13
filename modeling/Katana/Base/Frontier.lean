import Katana.Base.Transition

/-! Workers in a fixed order over the numbers above their frontiers. A worker takes the numbers
from its frontier up to a last one that all workers before it have reached. -/
namespace Frontier
open Transition
variable {ι : Type*} [DecidableEq ι]

structure Work (ι : Type*) where
  worker : ι
  first : Nat
  last : Nat
  deriving DecidableEq, Repr

def Work.items (w : Work ι) : List Nat := List.range' w.first (w.last+1-w.first)

def itemsOf (i : ι) (log : List (Work ι)) : List Nat :=
  (log.filter (fun w => w.worker=i)).flatMap Work.items

def Ordered (workers : List ι) (f : ι → Nat) : Prop := workers.Pairwise (fun a b => f b ≤ f a)

structure Step (workers : List ι) (f : ι → Nat) (w : Work ι) (g : ι → Nat) : Prop where
  first : w.first=f w.worker+1
  ahead : f w.worker<w.last
  reached : ∃ pre post, workers=pre++w.worker::post ∧ ∀ a∈pre, w.last ≤ f a
  frontier : g=Function.update f w.worker w.last

variable {workers : List ι} {f g : ι → Nat} {w : Work ι} {log : List (Work ι)}

theorem itemsOf_snoc (i : ι) (log : List (Work ι)) (w : Work ι) :
    itemsOf i (log++[w])=itemsOf i log++(if w.worker=i then w.items else []) := by
  by_cases h : w.worker=i
  · simp [itemsOf,h]
  · simp [itemsOf,h]

theorem Step.items (h : Step workers f w g) :
    w.items=List.range' (f w.worker+1) (g w.worker-f w.worker) := by
  rw [Work.items,h.first,h.frontier,Function.update_self]
  congr 1
  omega

theorem Step.ordered (hn : workers.Nodup) (ho : Ordered workers f) (h : Step workers f w g) :
    Ordered workers g := by
  obtain ⟨pre,post,he,hr⟩ := h.reached
  have ha := h.ahead
  rw [h.frontier,Ordered,he]
  rw [he] at hn
  rw [Ordered,he] at ho
  rw [List.pairwise_append,List.pairwise_cons] at ho ⊢
  obtain ⟨hpre,⟨hw,hpost⟩,hcross⟩ := ho
  have hnpre : ∀ a∈pre, a≠w.worker := by
    intro a ha he
    exact (List.nodup_append.mp hn).2.2 a ha w.worker List.mem_cons_self he
  have hnpost : ∀ b∈post, b≠w.worker := by
    intro b hb he
    have hcons := (List.nodup_append.mp hn).2.1
    exact (List.nodup_cons.mp hcons).1 (he ▸ hb)
  refine ⟨?_,⟨?_,?_⟩,?_⟩
  · refine hpre.imp_of_mem (fun {a b} ha hb hab => ?_)
    rwa [Function.update_of_ne (hnpre a ha),Function.update_of_ne (hnpre b hb)]
  · intro b hb
    have hle := hw b hb
    rw [Function.update_self,Function.update_of_ne (hnpost b hb)]
    omega
  · refine hpost.imp_of_mem (fun {a b} ha hb hab => ?_)
    rwa [Function.update_of_ne (hnpost a ha),Function.update_of_ne (hnpost b hb)]
  · intro a ha b hb
    rw [Function.update_of_ne (hnpre a ha)]
    cases List.mem_cons.mp hb with
    | inl he =>
      rw [he,Function.update_self]
      exact hr a ha
    | inr hb =>
      rw [Function.update_of_ne (hnpost b hb)]
      exact hcross a ha b (List.mem_cons_of_mem _ hb)

theorem run_items (h : Run (Step workers) f log g) (i : ι) :
    f i ≤ g i ∧ itemsOf i log=List.range' (f i+1) (g i-f i) := by
  induction h with
  | nil => simp [itemsOf]
  | @snoc t g w log _ hs ih =>
    obtain ⟨hle,hitems⟩ := ih
    rw [itemsOf_snoc,hitems]
    by_cases hi : w.worker=i
    · subst hi
      have ha := hs.ahead
      rw [if_pos rfl,hs.items,hs.frontier,Function.update_self]
      refine ⟨by omega,?_⟩
      have hstart : t w.worker+1=f w.worker+1+1*(t w.worker-f w.worker) := by omega
      rw [hstart,List.range'_append]
      congr 1
      omega
    · rw [if_neg hi,hs.frontier,Function.update_of_ne (Ne.symm hi),List.append_nil]
      exact ⟨hle,rfl⟩

theorem run_ordered (hn : workers.Nodup) (ho : Ordered workers f)
    (h : Run (Step workers) f log g) : Ordered workers g :=
  h.invariant (I := Ordered workers) (fun _ _ _ ho hs => hs.ordered hn ho) ho

/-- What a worker has reached or taken at some moment of a run. -/
def Done (f : ι → Nat) (log : List (Work ι)) (i : ι) (n : Nat) : Prop := n ≤ f i ∨ n∈itemsOf i log

theorem run_done (h : Run (Step workers) f log g) (i : ι) (n : Nat) :
    Done f log i n ↔ n ≤ g i := by
  obtain ⟨hle,hitems⟩ := run_items h i
  rw [Done,hitems,List.mem_range'_1]
  omega

theorem run_behind (hn : workers.Nodup) (ho : Ordered workers f) (h : Run (Step workers) f log g)
    {early : List (Work ι)} (hp : early <+: log) :
    workers.Pairwise (fun a b => ∀ n, Done f early b n → Done f early a n) := by
  obtain ⟨late,rfl⟩ := hp
  obtain ⟨t,ht,-⟩ := h.split
  refine (run_ordered hn ho ht).imp (fun {a b} hab n hd => ?_)
  rw [run_done ht] at hd ⊢
  omega

end Frontier
