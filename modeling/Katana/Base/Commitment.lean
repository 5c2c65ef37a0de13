import Mathlib.Data.List.Basic

/-! Hashes of lists whose elements are values or hashes of lists themselves. When nothing that
is hashed for two of them collides, equal hashes mean equal lists, all the way down. -/
namespace Commitment
variable {ι α : Type}

/-- An element of a hashed list: a value, or a list that is replaced by its hash. -/
inductive Piece (α : Type) where
  | value (x : α)
  | list (xs : List α)
  deriving DecidableEq, Repr

def Piece.eval (hash : List α → α) : Piece α → α
  | .value x => x
  | .list xs => hash xs

def Piece.hashed : Piece α → Option (List α)
  | .value _ => none
  | .list xs => some xs

def Piece.isList : Piece α → Bool
  | .value _ => false
  | .list _ => true

/-- A list of pieces and the algorithm they are hashed with. -/
structure Preimage (ι α : Type) where
  algorithm : ι
  pieces : List (Piece α)
  deriving DecidableEq, Repr

namespace Preimage
variable (hash : ι → List α → α) (p q : Preimage ι α)

def values : List α := p.pieces.map (Piece.eval (hash p.algorithm))

def digest : α := hash p.algorithm (p.values hash)

/-- Everything that is hashed on the way to the digest. -/
def inputs : List (List α) := p.values hash::p.pieces.filterMap Piece.hashed

/-- Nothing that is hashed for the one collides with something that is hashed for the other. -/
def CollisionFree : Prop :=
  ∀ x∈p.inputs hash, ∀ y∈q.inputs hash, hash p.algorithm x=hash q.algorithm y →
    p.algorithm=q.algorithm ∧ x=y

instance [DecidableEq ι] [DecidableEq α] : Decidable (CollisionFree hash p q) :=
  inferInstanceAs (Decidable (∀ x∈p.inputs hash, ∀ y∈q.inputs hash,
    hash p.algorithm x=hash q.algorithm y → p.algorithm=q.algorithm ∧ x=y))

def shape : List Bool := p.pieces.map Piece.isList

variable {hash p q}

theorem values_eq (hc : CollisionFree hash p q) (h : p.digest hash=q.digest hash) :
    p.algorithm=q.algorithm ∧ p.values hash=q.values hash :=
  hc (p.values hash) (List.mem_cons_self) (q.values hash) (List.mem_cons_self) h

theorem piece_eq_of_eval_eq {f g : List α → α} {a b : Piece α} (hs : a.isList=b.isList)
    (hf : ∀ x∈a.hashed, ∀ y∈b.hashed, f x=g y → x=y) (hv : a.eval f=b.eval g) : a=b := by
  cases a with
  | value x =>
    cases b with
    | value y => exact congrArg Piece.value hv
    | list y => cases hs
  | list x =>
    cases b with
    | value y => cases hs
    | list y => exact congrArg Piece.list (hf x rfl y rfl hv)

theorem pieces_eq_of_values_eq {f g : List α → α} {xs ys : List (Piece α)}
    (hs : xs.map Piece.isList=ys.map Piece.isList)
    (hf : ∀ x∈xs.filterMap Piece.hashed, ∀ y∈ys.filterMap Piece.hashed, f x=g y → x=y)
    (hv : xs.map (Piece.eval f)=ys.map (Piece.eval g)) : xs=ys := by
  induction xs generalizing ys with
  | nil => exact (List.map_eq_nil_iff.mp hs.symm).symm
  | cons a xs ih =>
    cases ys with
    | nil => cases hs
    | cons b ys =>
      obtain ⟨hab,hs⟩ := List.cons.inj hs
      obtain ⟨hv',hv⟩ := List.cons.inj hv
      have hmem : ∀ {c : Piece α} {cs : List (Piece α)} {x : List α}, c.hashed=some x →
          c∈cs → x∈cs.filterMap Piece.hashed :=
        fun hx hc => List.mem_filterMap.mpr ⟨_,hc,hx⟩
      have htail : ∀ {c : Piece α} {cs : List (Piece α)} {x : List α},
          x∈cs.filterMap Piece.hashed → x∈(c::cs).filterMap Piece.hashed := by
        intro c cs x hx
        obtain ⟨d,hd,hxd⟩ := List.mem_filterMap.mp hx
        exact hmem hxd (List.mem_cons_of_mem c hd)
      rw [piece_eq_of_eval_eq hab
          (fun x hx y hy => hf x (hmem hx List.mem_cons_self) y (hmem hy List.mem_cons_self)) hv',
        ih hs (fun x hx y hy => hf x (htail hx) y (htail hy)) hv]

theorem pieces_eq (hc : CollisionFree hash p q) (hs : p.shape=q.shape)
    (h : p.digest hash=q.digest hash) : p.pieces=q.pieces := by
  obtain ⟨-,hv⟩ := values_eq hc h
  refine pieces_eq_of_values_eq hs ?_ hv
  intro x hx y hy hxy
  exact (hc x (List.mem_cons_of_mem _ hx) y (List.mem_cons_of_mem _ hy) hxy).2

end Preimage
end Commitment
