import Mathlib.Data.List.Basic
import Mathlib.Tactic.Common

/-! A buffer that holds the last elements of a sequence. -/
namespace Window
variable {α β : Type*} {capacity : Nat}

/-- The oldest element of a full buffer makes room for the new one. -/
def push (capacity : Nat) (buffer : List α) (x : α) : List α :=
  (if buffer.length=capacity then buffer.tail else buffer)++[x]

def last (capacity : Nat) (xs : List α) : List α := xs.drop (xs.length-capacity)

theorem length_push_le {buffer : List α} (h : buffer.length≤capacity) (hpos : 0<capacity) (x : α) :
    (push capacity buffer x).length≤capacity := by
  unfold push
  split
  · simp only [List.length_append,List.length_tail,List.length_singleton]
    omega
  · simp only [List.length_append,List.length_singleton]
    omega

theorem push_last (hpos : 0<capacity) (xs : List α) (x : α) :
    push capacity (last capacity xs) x=last capacity (xs++[x]) := by
  unfold push last
  simp only [List.length_drop,List.length_append,List.length_singleton]
  split
  · have hnext : xs.length+1-capacity=xs.length-capacity+1 := by omega
    rw [List.tail_drop,hnext,List.drop_append_of_le_length (by omega)]
  · have hroom : xs.length-capacity=0 := by omega
    have hnext : xs.length+1-capacity=0 := by omega
    rw [hroom,hnext,List.drop_zero,List.drop_zero]

theorem last_ne_nil (hpos : 0<capacity) {xs : List α} (h : xs≠[]) : last capacity xs≠[] := by
  have hlen := List.length_pos_of_ne_nil h
  refine List.ne_nil_of_length_pos ?_
  rw [last,List.length_drop]
  omega

end Window
