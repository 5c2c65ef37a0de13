import Katana.Base.Overflow
import Katana.Core.Chain

/-! The timestamps of new blocks: update_block_env of core/backend/mod.rs, and the two calls of
rpc/dev.rs that move the next timestamp. None is the panic of an overflow in a build with overflow
checks. -/
namespace Katana
open Overflow

/-- An i64 and a u64; no timestamp is set while the second is zero. -/
structure BlockContextGenerator where
  blockTimestampOffset : BitVec 64 := 0
  nextBlockStartTime : BitVec 64 := 0
  deriving DecidableEq, Repr

inductive DevApiError where
  | pendingTransactions
  deriving DecidableEq, Repr

namespace BlockContextGenerator

/-- The timestamp of an environment, under the lock of the generator. -/
def timestamp (build : Build) (currentTimestampSecs : BitVec 64) (g : BlockContextGenerator) :
    Option (BitVec 64 × BlockContextGenerator) :=
  if g.nextBlockStartTime=0 then do
    let timestamp ← signedAdd build currentTimestampSecs g.blockTimestampOffset
    return (timestamp,g)
  else do
    let offset ← signedSub build g.nextBlockStartTime currentTimestampSecs
    return (g.nextBlockStartTime,⟨offset,0⟩)

def updateBlockEnv (build : Build) (now : BitVec 64) (l1GasPrices l1DataGasPrices : GasPrice)
    (g : BlockContextGenerator) (env : BlockEnv) : Option (BlockEnv × BlockContextGenerator) := do
  let (timestamp,g) ← g.timestamp build now
  return (Katana.updateBlockEnv ⟨timestamp.toNat,l1GasPrices,l1DataGasPrices⟩ env,g)

def setNextBlockTimestamp (hasPendingTransactions : Bool) (timestamp : BitVec 64)
    (g : BlockContextGenerator) : Except DevApiError BlockContextGenerator :=
  if hasPendingTransactions then .error .pendingTransactions
  else .ok { g with nextBlockStartTime := timestamp }

def increaseNextBlockTimestamp (build : Build) (hasPendingTransactions : Bool) (offset : BitVec 64)
    (g : BlockContextGenerator) : Option (Except DevApiError BlockContextGenerator) :=
  if hasPendingTransactions then some (.error .pendingTransactions)
  else (signedAdd build g.blockTimestampOffset offset).map
    fun offset => .ok { g with blockTimestampOffset := offset }

section Specs
variable {build : Build} {g g' : BlockContextGenerator}

theorem timestamp_cases {now timestamp : BitVec 64}
    (h : g.timestamp build now=some (timestamp,g')) :
    (g.nextBlockStartTime=0 ∧ timestamp=now+g.blockTimestampOffset ∧ g'=g) ∨
    (g.nextBlockStartTime≠0 ∧ timestamp=g.nextBlockStartTime ∧
      g'=⟨g.nextBlockStartTime-now,0⟩) := by
  unfold BlockContextGenerator.timestamp at h
  by_cases hn : g.nextBlockStartTime=0
  · rw [if_pos hn] at h
    obtain ⟨sum,hadd,hsum⟩ := Option.bind_eq_some_iff.mp h
    cases hsum
    exact Or.inl ⟨hn,signedAdd_eq_some hadd,rfl⟩
  · rw [if_neg hn] at h
    obtain ⟨offset,hsub,hoffset⟩ := Option.bind_eq_some_iff.mp h
    cases hoffset
    exact Or.inr ⟨hn,rfl,by rw [signedSub_eq_some hsub]⟩

theorem increaseNextBlockTimestamp_ok {pending : Bool} {offset : BitVec 64}
    (h : g.increaseNextBlockTimestamp build pending offset=some (.ok g')) :
    g'={ g with blockTimestampOffset := g.blockTimestampOffset+offset } := by
  unfold increaseNextBlockTimestamp at h
  cases pending with
  | true => cases h
  | false =>
    obtain ⟨sum,hadd,hsum⟩ := Option.map_eq_some_iff.mp h
    cases hsum
    rw [signedAdd_eq_some hadd]

end Specs
end BlockContextGenerator

/-- A call that returned Ok, or an environment for a block at a time of the clock. -/
inductive TimeOp where
  | set (timestamp : BitVec 64)
  | increase (offset : BitVec 64)
  | produce (now : BitVec 64)
  deriving DecidableEq, Repr

/-- The generator and the timestamps that it gave. -/
structure Production where
  generator : BlockContextGenerator := {}
  timestamps : List (BitVec 64) := []
  deriving DecidableEq, Repr

namespace Production

def step (build : Build) (p : Production) : TimeOp → Option Production
  | .set timestamp => do
    let g ← (p.generator.setNextBlockTimestamp false timestamp).toOption
    return ⟨g,p.timestamps⟩
  | .increase offset => do
    let r ← p.generator.increaseNextBlockTimestamp build false offset
    let g ← r.toOption
    return ⟨g,p.timestamps⟩
  | .produce now => do
    let (timestamp,g) ← p.generator.timestamp build now
    return ⟨g,p.timestamps++[timestamp]⟩

def run (build : Build) (ops : List TimeOp) : Option Production := ops.foldlM (step build) {}

end Production

/-- The timestamps as exact numbers: the one that is set with the increases since, while one is
set, and the offset. -/
structure Timeline where
  next : Option (Nat × Nat) := none
  offset : Int := 0
  timestamps : List Int := []
  deriving DecidableEq, Repr

namespace Timeline

def step (s : Timeline) : TimeOp → Timeline
  | .set timestamp => { s with next := some (timestamp.toNat,0) }
  | .increase offset =>
    match s.next with
    | some (timestamp,increases) => { s with next := some (timestamp,increases+offset.toNat) }
    | none => { s with offset := s.offset+offset.toNat }
  | .produce now =>
    match s.next with
    | some (timestamp,increases) =>
      { next := none
        offset := timestamp+increases-now.toNat
        timestamps := s.timestamps++[(timestamp+increases : Int)] }
    | none => { s with timestamps := s.timestamps++[now.toNat+s.offset] }

def run (ops : List TimeOp) : Timeline := ops.foldl step {}

/-- Zero is not set, and nothing is added to a timestamp that is set. -/
def Regular (s : Timeline) : TimeOp → Prop
  | .set timestamp => timestamp≠0
  | .increase offset => s.next=none ∨ offset=0
  | .produce _ => True

def RegularFrom (s : Timeline) : List TimeOp → Prop
  | [] => True
  | op::ops => s.Regular op ∧ (s.step op).RegularFrom ops

/-- The generator follows the exact numbers modulo 2^64. -/
structure Tracked (s : Timeline) (p : Production) : Prop where
  offset : p.generator.blockTimestampOffset=BitVec.ofInt 64 s.offset
  unset : s.next=none → p.generator.nextBlockStartTime=0
  set : ∀ timestamp increases, s.next=some (timestamp,increases) →
    increases=0 ∧ p.generator.nextBlockStartTime≠0 ∧
      p.generator.nextBlockStartTime.toNat=timestamp
  timestamps : p.timestamps=s.timestamps.map (BitVec.ofInt 64)

namespace Tracked
variable {build : Build} {s : Timeline} {p p' : Production}

theorem initial : Tracked {} {} where
  offset := rfl
  unset _ := rfl
  set := nofun
  timestamps := rfl

theorem step_set (h : s.Tracked p) {timestamp : BitVec 64} (ht : timestamp≠0)
    (hs : p.step build (.set timestamp)=some p') : (s.step (.set timestamp)).Tracked p' := by
  obtain rfl : ⟨{ p.generator with nextBlockStartTime := timestamp },p.timestamps⟩=p' :=
    Option.some.inj hs
  refine ⟨h.offset,nofun,?_,h.timestamps⟩
  rintro _ _ ⟨⟩
  exact ⟨rfl,ht,rfl⟩

theorem step_increase (h : s.Tracked p) {offset : BitVec 64} (ho : s.next=none ∨ offset=0)
    (hs : p.step build (.increase offset)=some p') : (s.step (.increase offset)).Tracked p' := by
  obtain ⟨r,hr,hs⟩ := Option.bind_eq_some_iff.mp hs
  cases r with
  | error e => cases hs
  | ok g =>
    obtain rfl : ⟨g,p.timestamps⟩=p' := Option.some.inj hs
    obtain rfl := BlockContextGenerator.increaseNextBlockTimestamp_ok hr
    cases hn : s.next with
    | none =>
      simp only [Timeline.step,hn]
      refine ⟨?_,fun _ => h.unset hn,nofun,h.timestamps⟩
      rw [BitVec.ofInt_add,ofInt_toNat,← h.offset]
    | some next =>
      obtain rfl : offset=0 := ho.resolve_left (by simp [hn])
      simp only [Timeline.step,hn]
      refine ⟨(BitVec.add_zero _).trans h.offset,nofun,?_,h.timestamps⟩
      rintro _ _ ⟨⟩
      exact h.set _ _ hn

theorem step_produce (h : s.Tracked p) {now : BitVec 64}
    (hs : p.step build (.produce now)=some p') : (s.step (.produce now)).Tracked p' := by
  obtain ⟨⟨timestamp,g⟩,hg,hs⟩ := Option.bind_eq_some_iff.mp hs
  obtain rfl : ⟨g,p.timestamps++[timestamp]⟩=p' := Option.some.inj hs
  cases hn : s.next with
  | none =>
    obtain ⟨_,rfl,rfl⟩ | ⟨hne,_⟩ := BlockContextGenerator.timestamp_cases hg
    · simp only [Timeline.step,hn]
      refine ⟨h.offset,fun _ => h.unset hn,nofun,?_⟩
      rw [List.map_append,h.timestamps,List.map_singleton,BitVec.ofInt_add,ofInt_toNat,h.offset]
    · exact absurd (h.unset hn) hne
  | some next =>
    obtain ⟨timestamp,increases⟩ := next
    obtain ⟨rfl,hne,rfl⟩ := h.set _ _ hn
    obtain ⟨hzero,_⟩ | ⟨_,rfl,rfl⟩ := BlockContextGenerator.timestamp_cases hg
    · exact absurd hzero hne
    · simp only [Timeline.step,hn,Nat.cast_zero,add_zero]
      refine ⟨?_,fun _ => rfl,nofun,?_⟩
      · rw [ofInt_sub,ofInt_toNat,ofInt_toNat]
      · rw [List.map_append,h.timestamps,List.map_singleton,ofInt_toNat]

theorem step (h : s.Tracked p) {op : TimeOp} (hr : s.Regular op)
    (hs : p.step build op=some p') : (s.step op).Tracked p' := by
  cases op with
  | set timestamp => exact h.step_set hr hs
  | increase offset => exact h.step_increase hr hs
  | produce now => exact h.step_produce hs

theorem run (h : s.Tracked p) {ops : List TimeOp} (hr : s.RegularFrom ops)
    (hs : ops.foldlM (Production.step build) p=some p') : (ops.foldl Timeline.step s).Tracked p' := by
  induction ops generalizing s p with
  | nil =>
    obtain rfl : p=p' := Option.some.inj hs
    exact h
  | cons op ops ih =>
    rw [List.foldlM_cons] at hs
    obtain ⟨q,hq,hs⟩ := Option.bind_eq_some_iff.mp hs
    exact ih (h.step hr.1 hq) hr.2 hs

end Tracked
end Timeline

theorem Production.run_wrapping (ops : List TimeOp) (p : Production) :
    ∃ p', ops.foldlM (Production.step .wrapping) p=some p' := by
  induction ops generalizing p with
  | nil => exact ⟨p,rfl⟩
  | cons op ops ih =>
    have hstep : ∃ q, p.step .wrapping op=some q := by
      cases op with
      | set timestamp => exact ⟨_,rfl⟩
      | increase offset =>
        simp [Production.step,BlockContextGenerator.increaseNextBlockTimestamp,signedAdd,
          signedResult_wrapping,Except.toOption]
      | produce now =>
        simp only [Production.step,BlockContextGenerator.timestamp,signedAdd,signedSub,
          signedResult_wrapping]
        split <;> exact ⟨_,rfl⟩
    obtain ⟨q,hq⟩ := hstep
    obtain ⟨p',hp⟩ := ih q
    exact ⟨p',by rw [List.foldlM_cons,hq]; exact hp⟩

/-- Calls that do not set zero and do not add to a timestamp that is set give the exact
timestamps, when these are numbers of 64 bits. -/
theorem timestamps_exact {ops : List TimeOp} (hr : ({} : Timeline).RegularFrom ops)
    (hfits : ∀ t∈(Timeline.run ops).timestamps, 0≤t ∧ t<2^64) :
    (∃ p, Production.run .wrapping ops=some p) ∧
    ∀ build p, Production.run build ops=some p →
      p.timestamps.map (fun t => (t.toNat : Int))=(Timeline.run ops).timestamps := by
  refine ⟨Production.run_wrapping ops {},fun build p hp => ?_⟩
  have h : (Timeline.run ops).Tracked p := Timeline.Tracked.initial.run hr hp
  rw [h.timestamps,List.map_map]
  calc
    (Timeline.run ops).timestamps.map ((fun t : BitVec 64 => (t.toNat : Int)) ∘ BitVec.ofInt 64)
        = (Timeline.run ops).timestamps.map id :=
          List.map_congr_left fun t ht => toNat_ofInt_of_fits (hfits t ht).1 (hfits t ht).2
    _ = (Timeline.run ops).timestamps := List.map_id _

def regularOps : List TimeOp :=
  [.increase 10,.produce 100,.set 1000,.produce 105,.increase 7,.produce 110]

theorem regular_timestamps : (Timeline.run regularOps).timestamps=[110,1000,1012] ∧
    ∀ build p, Production.run build regularOps=some p →
      p.timestamps.map (fun t => (t.toNat : Int))=[110,1000,1012] := by
  have hr : ({} : Timeline).RegularFrom regularOps := by
    simp [regularOps,Timeline.RegularFrom,Timeline.Regular,Timeline.step]
  exact ⟨by decide,(timestamps_exact hr (by decide)).2⟩

/-- An increase of a timestamp that is set is lost, zero is not set, and a timestamp of 2^63
stops a build with overflow checks. -/
theorem increase_lost :
    (∀ build, Production.run build [.set 1000,.increase 500,.produce 100,.produce 110]=
      some ⟨⟨900,0⟩,[1000,1010]⟩) ∧
    (Timeline.run [.set 1000,.increase 500,.produce 100,.produce 110]).timestamps=[1500,1510] ∧
    (∀ build, Production.run build [.set 0,.produce 100]=some ⟨{},[100]⟩) ∧
    (Timeline.run [.set 0,.produce 100]).timestamps=[0] ∧
    Production.run .checked [.set (BitVec.ofNat 64 (2^63)),.produce 100]=none ∧
    (Timeline.run [.set (BitVec.ofNat 64 (2^63)),.produce 100]).timestamps=[2^63] := by
  refine ⟨?_,by decide,?_,by decide,by decide,by decide⟩
  · intro build
    cases build <;> decide
  · intro build
    cases build <;> decide

end Katana
