import Katana.Base.Frontier

/-! The syncing pipeline (sync/pipeline/src/lib.rs, the Stage trait of sync/stage). It runs the
stages in their order up to a chunk target, and again until the tip is reached. -/
namespace Katana.Sync
open Frontier Transition
variable {ε σ : Type}

structure StageExecutionInput where
  fromBlock : Nat
  toBlock : Nat
  deriving DecidableEq, Repr

/-- A provider that keeps a checkpoint for each stage id. -/
structure StageCheckpointProvider (ε σ : Type) where
  checkpoint : String → EStateM ε σ (Option Nat)
  setCheckpoint : String → Nat → EStateM ε σ Unit
  stored : σ → String → Option Nat
  checkpoint_ok : ∀ {id : String} {db db' : σ} {r : Option Nat}, checkpoint id db=.ok r db' →
    r=stored db id ∧ stored db'=stored db
  setCheckpoint_ok : ∀ {id : String} {n : Nat} {db db' : σ}, setCheckpoint id n db=.ok () db' →
    stored db'=Function.update (stored db) id (some n)

/-- A stage leaves the checkpoints to the pipeline. -/
structure Stage (provider : StageCheckpointProvider ε σ) where
  id : String
  execute : StageExecutionInput → EStateM ε σ Unit
  execute_ok : ∀ {input : StageExecutionInput} {db db' : σ}, execute input db=.ok () db' →
    provider.stored db'=provider.stored db

/-- One execution of a stage, with the chunk target of the loop at that time. -/
structure Execution where
  stage : String
  input : StageExecutionInput
  target : Nat
  deriving DecidableEq, Repr

def Execution.work (e : Execution) : Work String := ⟨e.stage,e.input.fromBlock,e.input.toBlock⟩

/-- The provider's state, with the chunk target of the loop and the executions so far. -/
structure State (σ : Type) where
  db : σ
  target : Nat := 0
  log : List Execution := []

/-- A stage is identified by its id. -/
structure Pipeline (ε σ : Type) where
  chunkSize : Nat
  provider : StageCheckpointProvider ε σ
  stages : List (Stage provider)
  nonempty : stages≠[]
  ids : (stages.map Stage.id).Nodup

def onDb {α : Type} (m : EStateM ε σ α) : EStateM ε (State σ) α := fun s =>
  match m s.db with
  | .ok a db => .ok a { s with db := db }
  | .error e db => .error e { s with db := db }

variable {provider : StageCheckpointProvider ε σ}

def Stage.run (stage : Stage provider) (input : StageExecutionInput) : EStateM ε (State σ) Unit := do
  modify (fun s => { s with log := s.log++[⟨stage.id,input,s.target⟩] })
  onDb (stage.execute input)

/-- A missing checkpoint counts as 0, and a checkpoint is inclusive. -/
def runOnceUntil (toBlock : Nat) : List (Stage provider) → EStateM ε (State σ) Nat
  | [] => return toBlock
  | stage::rest => do
    let checkpoint := (← onDb (provider.checkpoint stage.id)).getD 0
    if toBlock ≤ checkpoint then
      match rest with
      | [] => return checkpoint
      | _::_ => runOnceUntil toBlock rest
    else
      stage.run ⟨checkpoint+1,toBlock⟩
      onDb (provider.setCheckpoint stage.id toBlock)
      runOnceUntil toBlock rest

namespace Pipeline
variable (p : Pipeline ε σ)

/-- The inner loop for one tip. It returns the chunk tip it ends with, none if it takes more
than the given number of rounds. -/
def runUntilTip (tip : Nat) : Nat → Nat → EStateM ε (State σ) (Option Nat)
  | 0,_ => return none
  | fuel+1,currentChunkTip => do
    let toBlock := min currentChunkTip tip
    modify (fun s => { s with target := toBlock })
    let lastBlockProcessed ← runOnceUntil toBlock p.stages
    if tip ≤ lastBlockProcessed then
      return some currentChunkTip
    else
      runUntilTip tip fuel (min (lastBlockProcessed+p.chunkSize) tip)

/-- The outer loop over the values that the tip watcher shows. -/
def runTips (fuel : Nat) : List (Option Nat) → Nat → EStateM ε (State σ) (Option Nat)
  | [],currentChunkTip => return some currentChunkTip
  | none::tips,currentChunkTip => runTips fuel tips currentChunkTip
  | some tip::tips,currentChunkTip => do
    match ← p.runUntilTip tip fuel currentChunkTip with
    | none => return none
    | some currentChunkTip => runTips fuel tips currentChunkTip

def run (fuel : Nat) (tips : List (Option Nat)) : EStateM ε (State σ) (Option Nat) :=
  p.runTips fuel tips p.chunkSize

end Pipeline

variable {toBlock : Nat} {u : State σ} {es : List Execution}

section Pass
variable {α β : Type} {s t : State σ}

theorem bind_ran {m : EStateM ε (State σ) α} {f : α → EStateM ε (State σ) β} {b : β}
    (h : (m>>=f) s=.ok b t) : ∃ a u, m s=.ok a u ∧ f a u=.ok b t := by
  simp only [bind,EStateM.bind] at h
  cases hm : m s with
  | ok a u =>
    rw [hm] at h
    exact ⟨a,u,rfl,h⟩
  | error e u =>
    rw [hm] at h
    cases h

theorem onDb_ran {m : EStateM ε σ α} {a : α} (h : onDb m s=.ok a t) :
    ∃ db, m s.db=.ok a db ∧ t={ s with db := db } := by
  rw [onDb] at h
  cases hm : m s.db with
  | ok a' db =>
    rw [hm] at h
    cases h
    exact ⟨db,rfl,rfl⟩
  | error e db =>
    rw [hm] at h
    cases h

variable (provider) in
/-- The last block that a stage has done, by its checkpoint. -/
def State.frontier (s : State σ) (id : String) : Nat := (provider.stored s.db id).getD 0

variable {stage : Stage provider}

theorem Stage.run_ran {input : StageExecutionInput} (h : stage.run input s=.ok () t) :
    t.log=s.log++[⟨stage.id,input,s.target⟩] ∧ t.target=s.target ∧
      provider.stored t.db=provider.stored s.db := by
  obtain ⟨_,u,hu,h⟩ := bind_ran h
  cases hu
  obtain ⟨db,hdb,rfl⟩ := onDb_ran h
  exact ⟨rfl,rfl,stage.execute_ok hdb⟩

/-- What a pass over the rest of the stages does when the stages before it have reached the
target: each one that is behind executes up to the target. -/
structure Passed (provider : StageCheckpointProvider ε σ) (ids : List String) (toBlock : Nat)
    (rest : List (Stage provider)) (s t : State σ) (es : List Execution) : Prop where
  log : t.log=s.log++es
  target : t.target=s.target
  run : Run (Step ids) (s.frontier provider) (es.map Execution.work) (t.frontier provider)
  ends : ∀ e∈es, e.target=s.target ∧ e.input.toBlock=toBlock ∧ ∃ stage∈rest,
    e.input.fromBlock=s.frontier provider stage.id+1 ∧ s.frontier provider stage.id<toBlock
  reached : ∀ stage∈rest, t.frontier provider stage.id=max (s.frontier provider stage.id) toBlock
  others : ∀ id, id∉rest.map Stage.id → t.frontier provider id=s.frontier provider id

theorem Passed.nil (ids : List String) (toBlock : Nat) (s : State σ) :
    Passed provider ids toBlock [] s s [] where
  log := (List.append_nil _).symm
  target := rfl
  run := .nil _
  ends e he := by cases he
  reached stage hs := by cases hs
  others _ _ := rfl

variable {rest : List (Stage provider)}

theorem Passed.skip {ids : List String} (hfrontier : u.frontier provider=s.frontier provider)
    (hlog : u.log=s.log) (htarget : u.target=s.target)
    (hskip : toBlock ≤ s.frontier provider stage.id) (hid : stage.id∉rest.map Stage.id)
    (h : Passed provider ids toBlock rest u t es) :
    Passed provider ids toBlock (stage::rest) s t es where
  log := by rw [h.log,hlog]
  target := by rw [h.target,htarget]
  run := by
    rw [← hfrontier]
    exact h.run
  ends := by
    intro e he
    obtain ⟨ht,hto,st,hs,hfrom⟩ := h.ends e he
    rw [hfrontier] at hfrom
    exact ⟨ht.trans htarget,hto,st,List.mem_cons_of_mem _ hs,hfrom⟩
  reached := by
    intro st hs
    rw [← hfrontier]
    cases List.mem_cons.mp hs with
    | inl he =>
      rw [he,h.others _ hid,hfrontier]
      omega
    | inr hs => exact h.reached st hs
  others := by
    intro id hn
    rw [← hfrontier]
    exact h.others id (fun hm => hn (List.mem_cons_of_mem _ hm))

theorem Passed.execute {pre : List String}
    (hfrontier : u.frontier provider=Function.update (s.frontier provider) stage.id toBlock)
    (hlog : u.log=s.log++[⟨stage.id,⟨s.frontier provider stage.id+1,toBlock⟩,s.target⟩])
    (htarget : u.target=s.target) (hbehind : s.frontier provider stage.id<toBlock)
    (hpre : ∀ a∈pre, toBlock ≤ s.frontier provider a) (hid : stage.id∉rest.map Stage.id)
    (h : Passed provider (pre++(stage::rest).map Stage.id) toBlock rest u t es) :
    Passed provider (pre++(stage::rest).map Stage.id) toBlock (stage::rest) s t
      (⟨stage.id,⟨s.frontier provider stage.id+1,toBlock⟩,s.target⟩::es) where
  log := by
    rw [h.log,hlog,List.append_assoc]
    rfl
  target := by rw [h.target,htarget]
  run := Run.cons ⟨rfl,hbehind,⟨pre,rest.map Stage.id,rfl,hpre⟩,hfrontier⟩ h.run
  ends := by
    intro e he
    cases List.mem_cons.mp he with
    | inl he =>
      rw [he]
      exact ⟨rfl,rfl,stage,List.mem_cons_self,rfl,hbehind⟩
    | inr he =>
      obtain ⟨ht,hto,st,hs,hfrom⟩ := h.ends e he
      have hne : st.id≠stage.id := fun he => hid (he ▸ List.mem_map_of_mem hs)
      rw [hfrontier,Function.update_of_ne hne] at hfrom
      exact ⟨ht.trans htarget,hto,st,List.mem_cons_of_mem _ hs,hfrom⟩
  reached := by
    intro st hs
    cases List.mem_cons.mp hs with
    | inl he =>
      rw [he,h.others _ hid,hfrontier,Function.update_self]
      omega
    | inr hs =>
      have hne : st.id≠stage.id := fun he => hid (he ▸ List.mem_map_of_mem hs)
      rw [h.reached st hs,hfrontier,Function.update_of_ne hne]
  others := by
    intro id hn
    rw [List.map_cons,List.mem_cons,not_or] at hn
    rw [h.others id hn.2,hfrontier,Function.update_of_ne hn.1]

theorem runOnceUntil_ran {last : Nat} {pre : List String} (hn : (pre++rest.map Stage.id).Nodup)
    (hpre : ∀ a∈pre, toBlock ≤ s.frontier provider a) (h : runOnceUntil toBlock rest s=.ok last t) :
    (∃ es, Passed provider (pre++rest.map Stage.id) toBlock rest s t es) ∧
      ∀ stage, rest.getLast?=some stage → last=t.frontier provider stage.id := by
  induction rest generalizing pre s with
  | nil =>
    cases h
    exact ⟨⟨[],.nil _ _ _⟩,by simp⟩
  | cons stage rest ih =>
    have hnodup : pre++(stage::rest).map Stage.id=(pre++[stage.id])++rest.map Stage.id := by simp
    have hid : stage.id∉rest.map Stage.id :=
      (List.nodup_cons.mp (List.nodup_append.mp hn).2.1).1
    rw [runOnceUntil] at h
    obtain ⟨checkpoint,u,hu,h⟩ := bind_ran h
    obtain ⟨db,hdb,rfl⟩ := onDb_ran hu
    obtain ⟨hstored,hsame⟩ := provider.checkpoint_ok hdb
    have hu : State.frontier provider { s with db := db }=s.frontier provider := by
      funext id
      rw [State.frontier,State.frontier,hsame]
    have hcheckpoint : checkpoint.getD 0=s.frontier provider stage.id := by
      rw [hstored,State.frontier]
    simp only [hcheckpoint] at h
    by_cases hskip : toBlock ≤ s.frontier provider stage.id
    · rw [if_pos hskip] at h
      cases rest with
      | nil =>
        cases h
        refine ⟨⟨[],.skip hu rfl rfl hskip hid (.nil _ _ _)⟩,?_⟩
        intro st hs
        obtain rfl : stage=st := by simpa using hs
        rw [hu]
      | cons next rest =>
        rw [hnodup] at hn
        have hpre' : ∀ a∈pre++[stage.id], toBlock ≤ State.frontier provider { s with db := db } a := by
          intro a ha
          rw [hu]
          cases List.mem_append.mp ha with
          | inl ha => exact hpre a ha
          | inr ha =>
            rw [List.mem_singleton.mp ha]
            exact hskip
        obtain ⟨⟨es,hes⟩,hlast⟩ := ih hn hpre' h
        rw [← hnodup] at hes
        refine ⟨⟨es,hes.skip hu rfl rfl hskip hid⟩,?_⟩
        intro st hs
        rw [List.getLast?_cons_cons] at hs
        exact hlast st hs
    · rw [if_neg hskip] at h
      obtain ⟨_,v,hv,h⟩ := bind_ran h
      obtain ⟨hlog,htarget,hrun⟩ := Stage.run_ran hv
      obtain ⟨_,w,hw,h⟩ := bind_ran h
      obtain ⟨db',hset,rfl⟩ := onDb_ran hw
      have hfrontier : State.frontier provider { v with db := db' }=
          Function.update (s.frontier provider) stage.id toBlock := by
        funext id
        rw [State.frontier,provider.setCheckpoint_ok hset,hrun,hsame]
        by_cases he : id=stage.id
        · rw [he,Function.update_self,Function.update_self]
          rfl
        · rw [Function.update_of_ne he,Function.update_of_ne he,State.frontier]
      have hpre' : ∀ a∈pre++[stage.id], toBlock ≤ State.frontier provider { v with db := db' } a := by
        intro a ha
        rw [hfrontier]
        by_cases he : a=stage.id
        · rw [he,Function.update_self]
        · rw [Function.update_of_ne he]
          cases List.mem_append.mp ha with
          | inl ha => exact hpre a ha
          | inr ha => exact absurd (List.mem_singleton.mp ha) he
      have hn' := hn
      rw [hnodup] at hn'
      obtain ⟨⟨es,hes⟩,hlast⟩ := ih hn' hpre' h
      rw [← hnodup] at hes
      have hpassed := hes.execute hfrontier hlog htarget (Nat.not_le.mp hskip) hpre hid
      refine ⟨⟨_,hpassed⟩,?_⟩
      intro st hs
      cases rest with
      | nil =>
        obtain rfl : stage=st := by simpa using hs
        cases h
        rw [hfrontier,Function.update_self]
      | cons next rest =>
        rw [List.getLast?_cons_cons] at hs
        exact hlast st hs

end Pass

namespace Pipeline
variable (p : Pipeline ε σ)

def stageIds : List String := p.stages.map Stage.id

def lastStage : Stage p.provider := p.stages.getLast p.nonempty

/-- The executions of a part of a run: the ranges of a stage follow each other, none is longer
than a chunk, and each ends at the chunk target. -/
structure Runs (s t : State σ) (es : List Execution) : Prop where
  log : t.log=s.log++es
  run : Run (Step p.stageIds) (s.frontier p.provider) (es.map Execution.work)
    (t.frontier p.provider)
  ranges : ∀ e∈es, e.input.toBlock=e.target ∧ e.input.fromBlock ≤ e.input.toBlock ∧
    e.input.toBlock<e.input.fromBlock+p.chunkSize

variable {p} {s t : State σ}

theorem Runs.append {fs : List Execution} (h : p.Runs s t es) (h' : p.Runs t u fs) :
    p.Runs s u (es++fs) where
  log := by rw [h'.log,h.log,List.append_assoc]
  run := by
    rw [List.map_append]
    exact h.run.append h'.run
  ranges := by
    intro e he
    cases List.mem_append.mp he with
    | inl he => exact h.ranges e he
    | inr he => exact h'.ranges e he

theorem lastStage_mem : p.lastStage∈p.stages := List.getLast_mem p.nonempty

def largestTip (tips : List (Option Nat)) : Nat := tips.foldr (fun tip n => max (tip.getD 0) n) 0

section
variable (ho : Ordered p.stageIds (s.frontier p.provider))
include ho

theorem lastStage_behind {stage : Stage p.provider} (hs : stage∈p.stages) :
    s.frontier p.provider p.lastStage.id ≤ s.frontier p.provider stage.id := by
  have hmap : p.stageIds=p.stages.dropLast.map Stage.id++[p.lastStage.id] := by
    rw [stageIds,lastStage,← List.map_singleton,← List.map_append,List.dropLast_append_getLast]
  rw [Ordered,hmap,List.pairwise_append] at ho
  have hmem : stage.id∈p.stages.dropLast.map Stage.id++[p.lastStage.id] := by
    rw [← hmap]
    exact List.mem_map_of_mem hs
  cases List.mem_append.mp hmem with
  | inl hm => exact ho.2.2 _ hm _ (List.mem_singleton_self _)
  | inr hm => rw [List.mem_singleton.mp hm]

/-- One round of the inner loop. No stage executes more than a chunk when the target is at
most a chunk above the last stage. -/
theorem round_ran {last : Nat}
    (hto : toBlock ≤ s.frontier p.provider p.lastStage.id+p.chunkSize)
    (h : runOnceUntil toBlock p.stages { s with target := toBlock }=.ok last t) :
    (∃ es, p.Runs s t es) ∧ last=t.frontier p.provider p.lastStage.id ∧
      ∀ stage∈p.stages, t.frontier p.provider stage.id=max (s.frontier p.provider stage.id) toBlock := by
  have hids : ([]++p.stages.map Stage.id).Nodup := p.ids
  obtain ⟨⟨es,hes⟩,hlast⟩ := runOnceUntil_ran hids (by simp) h
  have hlast := hlast p.lastStage (List.getLast?_eq_some_getLast p.nonempty)
  refine ⟨⟨es,hes.log,hes.run,?_⟩,hlast,hes.reached⟩
  intro e he
  obtain ⟨ht,hend,stage,hs,hfrom,hbehind⟩ := hes.ends e he
  have hle := lastStage_behind ho hs
  rw [hend,ht,hfrom]
  refine ⟨rfl,hbehind,?_⟩
  change toBlock<s.frontier p.provider stage.id+1+p.chunkSize
  omega

/-- The inner loop takes every stage to the tip, in rounds that come closer to it. -/
theorem runUntilTip_ran {tip fuel chunkTip : Nat} {r : Option Nat} (hchunk : 1 ≤ p.chunkSize)
    (hto : chunkTip ≤ s.frontier p.provider p.lastStage.id+p.chunkSize)
    (h : p.runUntilTip tip fuel chunkTip s=.ok r t) :
    (∃ es, p.Runs s t es) ∧
      (r=none → fuel ≤ tip-s.frontier p.provider p.lastStage.id+
        if s.frontier p.provider p.lastStage.id<chunkTip then 0 else 1) ∧
      ∀ chunkTip', r=some chunkTip' →
        chunkTip' ≤ t.frontier p.provider p.lastStage.id+p.chunkSize ∧
        ∀ stage∈p.stages, t.frontier p.provider stage.id=max (s.frontier p.provider stage.id) tip := by
  induction fuel generalizing chunkTip s with
  | zero =>
    cases h
    exact ⟨⟨[],(List.append_nil _).symm,.nil _,by simp⟩,fun _ => Nat.zero_le _,by simp⟩
  | succ fuel ih =>
    rw [runUntilTip] at h
    obtain ⟨_,u,hu,h⟩ := bind_ran h
    cases hu
    obtain ⟨last,v,hv,h⟩ := bind_ran h
    obtain ⟨⟨es,hes⟩,hlast,hreached⟩ := round_ran ho (by omega) hv
    have hl := hreached p.lastStage lastStage_mem
    by_cases hdone : tip ≤ last
    · rw [if_pos hdone] at h
      cases h
      refine ⟨⟨es,hes⟩,by simp,?_⟩
      intro chunkTip' hc
      cases hc
      refine ⟨by omega,?_⟩
      intro stage hs
      have hle := lastStage_behind ho hs
      rw [hreached stage hs]
      omega
    · rw [if_neg hdone] at h
      have ho' : Ordered p.stageIds (v.frontier p.provider) := run_ordered p.ids ho hes.run
      obtain ⟨⟨fs,hfs⟩,hnone,hsome⟩ := ih ho' (by omega) h
      refine ⟨⟨es++fs,hes.append hfs⟩,?_,?_⟩
      · intro hr
        have hfuel := hnone hr
        rw [if_pos (by omega)] at hfuel
        split
        · omega
        · omega
      · intro chunkTip' hc
        obtain ⟨hle,hstages⟩ := hsome chunkTip' hc
        refine ⟨hle,?_⟩
        intro stage hs
        rw [hstages stage hs,hreached stage hs]
        omega

theorem runTips_ran {fuel chunkTip : Nat} {tips : List (Option Nat)} {r : Option Nat}
    (hchunk : 1 ≤ p.chunkSize) (hfuel : ∀ tip, some tip∈tips → tip+1<fuel)
    (hto : chunkTip ≤ s.frontier p.provider p.lastStage.id+p.chunkSize)
    (h : p.runTips fuel tips chunkTip s=.ok r t) :
    r≠none ∧ (∃ es, p.Runs s t es) ∧ ∀ stage∈p.stages,
      t.frontier p.provider stage.id=max (s.frontier p.provider stage.id) (largestTip tips) := by
  induction tips generalizing chunkTip s with
  | nil =>
    cases h
    refine ⟨by simp,⟨[],(List.append_nil _).symm,.nil _,by simp⟩,?_⟩
    intro stage _
    simp [largestTip]
  | cons tip tips ih =>
    have hrest : ∀ tip, some tip∈tips → tip+1<fuel :=
      fun tip ht => hfuel tip (List.mem_cons_of_mem _ ht)
    cases tip with
    | none =>
      obtain ⟨hr,hes,hstages⟩ := ih ho hrest hto h
      refine ⟨hr,hes,?_⟩
      intro stage hs
      rw [hstages stage hs]
      simp [largestTip]
    | some tip =>
      rw [runTips] at h
      obtain ⟨r',u,hu,h⟩ := bind_ran h
      obtain ⟨⟨es,hes⟩,hnone,hsome⟩ := runUntilTip_ran ho hchunk hto hu
      cases r' with
      | none =>
        have hlow := hnone rfl
        have hhigh := hfuel tip List.mem_cons_self
        split at hlow
        · omega
        · omega
      | some chunkTip' =>
        obtain ⟨hto',hreached⟩ := hsome chunkTip' rfl
        have ho' : Ordered p.stageIds (u.frontier p.provider) := run_ordered p.ids ho hes.run
        obtain ⟨hr,⟨fs,hfs⟩,hstages⟩ := ih ho' hrest hto' h
        refine ⟨hr,⟨es++fs,hes.append hfs⟩,?_⟩
        intro stage hs
        rw [hstages stage hs,hreached stage hs,max_assoc]
        rfl

end

variable (p) in
def executedBlocks (t : State σ) (stage : Stage p.provider) : List Nat :=
  itemsOf stage.id (t.log.map Execution.work)

variable (p) in
/-- What a run from the stored checkpoints does for the tips it has seen. -/
structure Resumes (db : σ) (tips : List (Option Nat)) (t : State σ) : Prop where
  executed : ∀ stage∈p.stages, p.executedBlocks t stage=
    List.range' ((p.provider.stored db stage.id).getD 0+1)
      (largestTip tips-(p.provider.stored db stage.id).getD 0)
  ranges : ∀ e∈t.log, e.input.toBlock=e.target ∧ e.input.fromBlock ≤ e.input.toBlock ∧
    e.input.toBlock<e.input.fromBlock+p.chunkSize
  behind : ∀ early, early <+: t.log → p.stages.Pairwise (fun a b => ∀ n,
    Done (fun id => (p.provider.stored db id).getD 0) (early.map Execution.work) b.id n →
    Done (fun id => (p.provider.stored db id).getD 0) (early.map Execution.work) a.id n)
  checkpoints : ∀ stage∈p.stages, (p.provider.stored t.db stage.id).getD 0=
    max ((p.provider.stored db stage.id).getD 0) (largestTip tips)

variable (p) in
/-- From checkpoints that do not increase along the stages, a run in which nothing fails comes
to the end of every inner loop and executes what the checkpoints are short of the tips. -/
theorem run_resumes (hchunk : 1 ≤ p.chunkSize) {db : σ}
    (ho : p.stages.Pairwise (fun a b => (p.provider.stored db b.id).getD 0 ≤
      (p.provider.stored db a.id).getD 0))
    {tips : List (Option Nat)} {fuel : Nat} (hfuel : ∀ tip, some tip∈tips → tip+1<fuel)
    {r : Option Nat} {t : State σ} (h : p.run fuel tips { db := db }=.ok r t) :
    r≠none ∧ p.Resumes db tips t := by
  have ho' : Ordered p.stageIds (State.frontier p.provider { db := db }) := by
    rw [Ordered,stageIds,List.pairwise_map]
    exact ho
  obtain ⟨hr,⟨es,hes⟩,hstages⟩ := runTips_ran ho' hchunk hfuel (Nat.le_add_left _ _) h
  have hlog : t.log=es := hes.log
  refine ⟨hr,?_,?_,?_,hstages⟩
  · intro stage hs
    rw [executedBlocks,hlog,(run_items hes.run stage.id).2,hstages stage hs]
    change List.range' ((p.provider.stored db stage.id).getD 0+1)
      (max ((p.provider.stored db stage.id).getD 0) (largestTip tips)-
        (p.provider.stored db stage.id).getD 0)=_
    congr 1
    omega
  · rw [hlog]
    exact hes.ranges
  · intro early hearly
    rw [hlog] at hearly
    have hb := run_behind p.ids ho' hes.run (hearly.map Execution.work)
    rw [List.pairwise_map] at hb
    exact hb

variable (p) in
/-- Every stage executed the blocks from genesis to the tip. -/
def CoversFromGenesis (tip : Nat) (t : State σ) : Prop :=
  ∀ stage∈p.stages, p.executedBlocks t stage=List.range (tip+1)

variable (p) in
/-- On a fresh database the stages start at block 1: a missing checkpoint is read as block 0,
which counts as executed. -/
theorem run_skips_genesis (hchunk : 1 ≤ p.chunkSize) {db : σ}
    (hfresh : ∀ stage∈p.stages, p.provider.stored db stage.id=none) {tip fuel : Nat}
    (hfuel : tip+1<fuel) {r : Option Nat} {t : State σ}
    (h : p.run fuel [some tip] { db := db }=.ok r t) :
    (∀ stage∈p.stages, p.executedBlocks t stage=List.range' 1 tip) ∧
      ¬p.CoversFromGenesis tip t := by
  have hzero : ∀ stage∈p.stages, (p.provider.stored db stage.id).getD 0=0 := by
    intro stage hs
    rw [hfresh stage hs]
    rfl
  have ho' : Ordered p.stageIds (State.frontier p.provider { db := db }) := by
    rw [Ordered,stageIds,List.pairwise_map]
    apply List.pairwise_of_forall_mem_list
    intro a ha b hb
    exact (hzero b hb).le.trans (Nat.zero_le _)
  obtain ⟨_,⟨es,hes⟩,hstages⟩ := runTips_ran ho' hchunk (by simpa using hfuel)
    (Nat.le_add_left _ _) h
  have hlog : t.log=es := hes.log
  have hexecuted : ∀ stage∈p.stages, p.executedBlocks t stage=List.range' 1 tip := by
    intro stage hs
    have hstart : State.frontier p.provider { db := db } stage.id=0 := hzero stage hs
    rw [executedBlocks,hlog,(run_items hes.run stage.id).2,hstages stage hs,hstart]
    simp [largestTip]
  refine ⟨hexecuted,fun hcover => ?_⟩
  have hlen := congrArg List.length
    ((hexecuted _ lastStage_mem).symm.trans (hcover _ lastStage_mem))
  simp at hlen

end Pipeline

section Samples

def memoryProvider : StageCheckpointProvider String (String → Option Nat) where
  checkpoint id db := .ok (db id) db
  setCheckpoint id n db := .ok () (Function.update db id (some n))
  stored db := db
  checkpoint_ok h := by
    cases h
    exact ⟨rfl,rfl⟩
  setCheckpoint_ok h := by
    cases h
    rfl

def mockStage (id : String) : Stage memoryProvider where
  id := id
  execute _ db := .ok () db
  execute_ok h := by
    cases h
    rfl

def mockPipeline (chunkSize : Nat) : Pipeline String (String → Option Nat) where
  chunkSize := chunkSize
  provider := memoryProvider
  stages := [mockStage "Blocks",mockStage "Classes"]
  nonempty := by simp
  ids := by decide

/-- The first stage is ahead, and the tips go up, down and up again. -/
def aheadDb : String → Option Nat := fun id => if id="Blocks" then some 7 else some 3

def mockRun (chunkSize fuel : Nat) (tips : List (Option Nat)) (db : String → Option Nat) :
    EStateM.Result String (State (String → Option Nat)) (Option Nat) :=
  (mockPipeline chunkSize).run fuel tips { db := db }

def returned {α β : Type} : EStateM.Result ε α β → Option β
  | .ok b _ => some b
  | .error _ _ => none

def leaves {α β : Type} : EStateM.Result ε α β → α
  | .ok _ a => a
  | .error _ a => a

theorem ran_of_returned {α β : Type} {r : EStateM.Result ε α β} {b : β} (h : returned r=some b) :
    r=.ok b (leaves r) := by
  cases r with
  | ok b' a =>
    cases h
    rfl
  | error e a => cases h

theorem resumed_after_tips :
    (leaves (mockRun 4 14 [none,some 9,some 2,some 12] aheadDb)).log.map Execution.work=
      [⟨"Classes",4,4⟩,⟨"Blocks",8,8⟩,⟨"Classes",5,8⟩,⟨"Blocks",9,9⟩,⟨"Classes",9,9⟩,
        ⟨"Blocks",10,12⟩,⟨"Classes",10,12⟩] ∧
    (mockPipeline 4).Resumes aheadDb [none,some 9,some 2,some 12]
      (leaves (mockRun 4 14 [none,some 9,some 2,some 12] aheadDb)) := by
  refine ⟨by decide +kernel,?_⟩
  have hran : returned (mockRun 4 14 [none,some 9,some 2,some 12] aheadDb)=some (some 12) := by
    decide +kernel
  have hfuel : ∀ tip, some tip∈[none,some 9,some 2,some 12] → tip+1<14 := by simp
  exact ((mockPipeline 4).run_resumes (by decide) (by decide) hfuel (ran_of_returned hran)).2

theorem genesis_skipped_in_chunks :
    (leaves (mockRun 4 11 [some 9] (fun _ => none))).log.map Execution.work=
      [⟨"Blocks",1,4⟩,⟨"Classes",1,4⟩,⟨"Blocks",5,8⟩,⟨"Classes",5,8⟩,⟨"Blocks",9,9⟩,
        ⟨"Classes",9,9⟩] ∧
    (∀ stage∈(mockPipeline 4).stages, (mockPipeline 4).executedBlocks
      (leaves (mockRun 4 11 [some 9] (fun _ => none))) stage=List.range' 1 9) ∧
    ¬(mockPipeline 4).CoversFromGenesis 9 (leaves (mockRun 4 11 [some 9] (fun _ => none))) := by
  have hran : returned (mockRun 4 11 [some 9] (fun _ => none))=some (some 9) := by decide +kernel
  exact ⟨by decide +kernel,(mockPipeline 4).run_skips_genesis (by decide) (fun _ _ => rfl)
    (by decide) (ran_of_returned hran)⟩

/-- A fresh pipeline at tip 5 executes the blocks 1 to 5 in every stage, and not block 0. -/
theorem genesis_not_executed :
    returned (mockRun 10 7 [some 5] (fun _ => none))=some (some 10) ∧
    (leaves (mockRun 10 7 [some 5] (fun _ => none))).log.map Execution.work=
      [⟨"Blocks",1,5⟩,⟨"Classes",1,5⟩] ∧
    ¬(mockPipeline 10).CoversFromGenesis 5 (leaves (mockRun 10 7 [some 5] (fun _ => none))) := by
  refine ⟨by decide +kernel,by decide +kernel,fun h => ?_⟩
  have hblocks := h (mockStage "Blocks") List.mem_cons_self
  revert hblocks
  decide +kernel

end Samples
end Katana.Sync
