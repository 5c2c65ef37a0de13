import Katana.Db.Effect
import Katana.Db.HistoryIndex
import Katana.Db.Postcard
import Katana.Trie.Db

/-! Runs of trie operations against what the operations say: the live value of a key,
the entries waiting for the next snapshot, and the log of recorded entries. -/
namespace Katana
open ChangeLog
variable {P : Payloads}

inductive TrieOp where
  | insert (t : TrieTable) (k : TrieDatabaseKey) (v : Bytes)
  | remove (t : TrieTable) (k : TrieDatabaseKey)
  | snapshot (t : TrieTable) (block : Nat)
  deriving DecidableEq, Repr

/-- One call. A snapshot may take the cache in any order. -/
inductive TrieStep (C : Codecs) : TrieOp → TrieState P → TrieState P → Prop where
  | insert (t k v s) : TrieStep C (.insert t k v) s (s.insert t k v).2
  | remove (t k s) : TrieStep C (.remove t k) s (s.remove t k).2
  | snapshot (t block s entries) (h : entries.Perm (s.writeCache t).rows) :
      TrieStep C (.snapshot t block) s (s.snapshot C t block entries)

inductive TrieRun (C : Codecs) : TrieState P → List TrieOp → TrieState P → Prop where
  | nil (s) : TrieRun C s [] s
  | snoc {s s' s'' : TrieState P} {ops : List TrieOp} {op : TrieOp} (h : TrieRun C s ops s')
      (hs : TrieStep C op s' s'') : TrieRun C s (ops++[op]) s''

/-- A run that takes every cache in key order. -/
def TrieOp.run (C : Codecs) (s : TrieState P) : TrieOp → TrieState P
  | .insert t k v => (s.insert t k v).2
  | .remove t k => (s.remove t k).2
  | .snapshot t block => s.snapshot C t block (s.writeCache t).rows

def runOps (C : Codecs) (ops : List TrieOp) (s : TrieState P) : TrieState P :=
  ops.foldl (TrieOp.run C) s

theorem trieStep_run (C : Codecs) (s : TrieState P) (op : TrieOp) :
    TrieStep C op s (op.run C s) := by
  cases op with
  | insert t k v => exact .insert t k v s
  | remove t k => exact .remove t k s
  | snapshot t b => exact .snapshot t b s _ (List.Perm.refl _)

theorem trieRun_runOps (C : Codecs) (ops : List TrieOp) (s : TrieState P) :
    TrieRun C s ops (runOps C ops s) := by
  induction ops using List.reverseRecOn with
  | nil => exact .nil s
  | append_singleton ops op ih =>
    rw [runOps,List.foldl_append]
    exact .snoc ih (trieStep_run C _ op)

variable (t : TrieTable)

/-- The value of the last insertion of the key, whatever was removed since. -/
def lastInsert (k : TrieDatabaseKey) (ops : List TrieOp) : Option Bytes :=
  ops.reverse.findSome? (fun op => match op with
    | .insert t' k' v => if t'=t ∧ k'=k then some v else none
    | _ => none)

def liveValue (k : TrieDatabaseKey) (ops : List TrieOp) : Option Bytes :=
  (ops.reverse.findSome? (fun op => match op with
    | .insert t' k' v => if t'=t ∧ k'=k then some (some v) else none
    | .remove t' k' => if t'=t ∧ k'=k then some none else none
    | _ => none)).getD none

abbrev TrieLog := List (Change TrieDatabaseKey Bytes)

/-- The entries inserted since the last snapshot, and those recorded by the snapshots. -/
structure TrieView where
  pending : SortedMap TrieDatabaseKey Bytes := ∅
  log : TrieLog := []

def TrieView.step (view : TrieView) : TrieOp → TrieView
  | .insert t' k v => if t'=t then { view with pending := view.pending.put k v } else view
  | .remove _ _ => view
  | .snapshot t' b =>
    if t'=t then { log := view.log++changesAt b view.pending.rows } else view

def trieView (ops : List TrieOp) : TrieView := ops.foldl (TrieView.step t) {}

def snapshotBlocks (ops : List TrieOp) : List Nat :=
  ops.filterMap (fun op => match op with
    | .snapshot t' b => if t'=t then some b else none
    | _ => none)

section View
variable (t : TrieTable) (ops : List TrieOp)

@[simp] theorem trieView_concat (op : TrieOp) :
    trieView t (ops++[op])=(trieView t ops).step t op := by
  simp [trieView]

theorem lastInsert_concat (k : TrieDatabaseKey) (op : TrieOp) :
    lastInsert t k (ops++[op])=(match op with
      | .insert t' k' v => if t'=t ∧ k'=k then some v else lastInsert t k ops
      | _ => lastInsert t k ops) := by
  cases op with
  | insert t' k' v => by_cases h : t'=t ∧ k'=k <;> simp [lastInsert,h]
  | remove | snapshot => simp [lastInsert]

theorem liveValue_concat (k : TrieDatabaseKey) (op : TrieOp) :
    liveValue t k (ops++[op])=(match op with
      | .insert t' k' v => if t'=t ∧ k'=k then some v else liveValue t k ops
      | .remove t' k' => if t'=t ∧ k'=k then none else liveValue t k ops
      | .snapshot _ _ => liveValue t k ops) := by
  cases op with
  | insert t' k' v | remove t' k' => by_cases h : t'=t ∧ k'=k <;> simp [liveValue,h]
  | snapshot => simp [liveValue]

theorem snapshotBlocks_append (ops' : List TrieOp) :
    snapshotBlocks t (ops++ops')=snapshotBlocks t ops++snapshotBlocks t ops' := by
  simp [snapshotBlocks]

theorem view_lastInsert (k : TrieDatabaseKey) :
    ((trieView t ops).pending.get k).or (latest (trieView t ops).log k)=lastInsert t k ops := by
  induction ops using List.reverseRecOn with
  | nil => rfl
  | append_singleton ops op ih =>
    rw [trieView_concat,lastInsert_concat]
    cases op with
    | insert t' k' v =>
      by_cases ht : t'=t
      · by_cases hk : k'=k
        · simp [TrieView.step,ht,hk]
        · simpa [TrieView.step,ht,hk,SortedMap.get_put] using ih
      · simpa [TrieView.step,ht] using ih
    | remove => exact ih
    | snapshot t' b =>
      by_cases ht : t'=t
      · simpa [TrieView.step,ht,latest_append,latest_changesAt] using ih
      · simpa [TrieView.step,ht] using ih

theorem lastInsert_of_liveValue {k : TrieDatabaseKey} {v : Bytes}
    (h : liveValue t k ops=some v) : lastInsert t k ops=some v := by
  induction ops using List.reverseRecOn with
  | nil => cases h
  | append_singleton ops op ih =>
    rw [liveValue_concat] at h
    rw [lastInsert_concat]
    cases op with
    | insert t' k' v' =>
      by_cases hk : t'=t ∧ k'=k
      · simpa [hk] using h
      · simp only [hk,if_false] at h ⊢
        exact ih h
    | remove t' k' =>
      by_cases hk : t'=t ∧ k'=k
      · simp [hk] at h
      · simp only [hk,if_false] at h
        exact ih h
    | snapshot => exact ih h

theorem view_inserted :
    (∀ k v, (trieView t ops).pending.get k=some v → .insert t k v∈ops) ∧
    ∀ c∈(trieView t ops).log, .insert t c.key c.value∈ops := by
  induction ops using List.reverseRecOn with
  | nil => exact ⟨by simp [trieView],by simp [trieView]⟩
  | append_singleton ops op ih =>
    rw [trieView_concat]
    obtain ⟨hp,hl⟩ := ih
    cases op with
    | insert t' k' v' =>
      by_cases ht : t'=t
      · subst ht
        refine ⟨?_,fun c hc => List.mem_append_left _ (hl c (by simpa [TrieView.step] using hc))⟩
        intro k v hk
        simp only [TrieView.step,if_true,SortedMap.get_put] at hk
        by_cases he : k'=k
        · rw [if_pos he,Option.some.injEq] at hk
          simp [he,hk]
        · rw [if_neg he] at hk
          exact List.mem_append_left _ (hp k v hk)
      · simp only [TrieView.step,ht,if_false]
        exact ⟨fun k v h => List.mem_append_left _ (hp k v h),
          fun c h => List.mem_append_left _ (hl c h)⟩
    | remove =>
      exact ⟨fun k v h => List.mem_append_left _ (hp k v h),
        fun c h => List.mem_append_left _ (hl c h)⟩
    | snapshot t' b =>
      by_cases ht : t'=t
      · simp only [TrieView.step,ht,if_true,List.mem_append]
        refine ⟨by simp,?_⟩
        rintro c (hc | hc)
        · exact Or.inl (hl c hc)
        · exact Or.inl (hp _ _ ((SortedMap.get_eq_some _ _ _).mpr ((mem_changesAt _ _ _).mp hc).2))
      · simp only [TrieView.step,ht,if_false]
        exact ⟨fun k v h => List.mem_append_left _ (hp k v h),
          fun c h => List.mem_append_left _ (hl c h)⟩

theorem log_time {c : Change TrieDatabaseKey Bytes} (h : c∈(trieView t ops).log) :
    c.time∈snapshotBlocks t ops := by
  induction ops using List.reverseRecOn with
  | nil => cases h
  | append_singleton ops op ih =>
    rw [snapshotBlocks_append]
    rw [trieView_concat] at h
    cases op with
    | insert t' k v =>
      by_cases ht : t'=t <;> simp only [TrieView.step,ht,if_true,if_false] at h <;>
        exact List.mem_append_left _ (ih h)
    | remove => exact List.mem_append_left _ (ih h)
    | snapshot t' b =>
      by_cases ht : t'=t
      · simp only [TrieView.step,ht,if_true,List.mem_append] at h
        obtain h | h := h
        · exact List.mem_append_left _ (ih h)
        · simp [snapshotBlocks,ht,((mem_changesAt _ _ _).mp h).1]
      · simp only [TrieView.step,ht,if_false] at h
        exact List.mem_append_left _ (ih h)

theorem log_append (ops' : List TrieOp) :
    ∃ more, (trieView t (ops++ops')).log=(trieView t ops).log++more ∧
      ∀ c∈more, c.time∈snapshotBlocks t ops' := by
  induction ops' using List.reverseRecOn with
  | nil => exact ⟨[],by simp⟩
  | append_singleton ops' op ih =>
    obtain ⟨more,hlog,htime⟩ := ih
    have htime' : ∀ c∈more, c.time∈snapshotBlocks t (ops'++[op]) := by
      intro c hc
      rw [snapshotBlocks_append]
      exact List.mem_append_left _ (htime c hc)
    rw [← List.append_assoc,trieView_concat]
    cases op with
    | insert t' k v => exact ⟨more,by by_cases ht : t'=t <;> simp [TrieView.step,ht,hlog],htime'⟩
    | remove => exact ⟨more,hlog,htime'⟩
    | snapshot t' b =>
      by_cases ht : t'=t
      · refine ⟨more++changesAt b (trieView t (ops++ops')).pending.rows,
          by simp [TrieView.step,ht,hlog],?_⟩
        intro c hc
        obtain hc | hc := List.mem_append.mp hc
        · exact htime' c hc
        · simp [snapshotBlocks,ht,((mem_changesAt _ _ _).mp hc).1]
      · exact ⟨more,by simp [TrieView.step,ht,hlog],htime'⟩

end View

end Katana
