import Katana.Core.BlockHash

/-! The registry of block hashes. Contract 0x1 keeps the hash of a block under its number,
from the tenth block after it on. -/
namespace Katana
open ChangeLog
variable {P : Payloads}

def StateUpdates.registrySlot (u : StateUpdates) (k : Felt) : Option Felt :=
  (u.storageUpdates.get 1).bind (fun m => m.get k)

namespace Backend
variable {K : Backend P} {G : GenesisClasses P}
  {execute : Rollup.ChainSpec P → Except String (ExecutionOutput K)} {spec : ChainSpec P}
  {pre blocks : List (BlockInput P)} {b c : BlockInput P} {steps : List (MiningStep K)}
  {db : Db P} {n : Nat}

def genesisSlot (G : GenesisClasses P)
    (execute : Rollup.ChainSpec P → Except String (ExecutionOutput K)) (spec : ChainSpec P)
    (k : Felt) : Option Felt :=
  match spec with
  | .dev cs =>
    match cs.stateUpdates G with
    | .ok states => states.stateUpdates.registrySlot k
    | .error _ => none
  | .rollup cs =>
    match execute cs with
    | .ok output => output.states.stateUpdates.registrySlot k
    | .error _ => none

theorem IsGenesis.slot (h : K.IsGenesis G execute b spec) (k : Felt) :
    b.updates.registrySlot k=genesisSlot G execute spec k := by
  cases spec with
  | dev cs => simp only [genesisSlot,h.2.2.2,BlockInput.updates]
  | rollup cs =>
    obtain ⟨_,_,output,ho,hs⟩ := h
    simp only [genesisSlot,ho,BlockInput.updates,hs]

theorem registered_slot {u : StateUpdates} (hu : ∀ k, u.registrySlot k=none) (db : Db P) (n : Nat)
    (k : Felt) : (registered db u n).registrySlot k=
      if storedBlockHashBuffer≤n ∧ Felt.ofNat (n-storedBlockHashBuffer)=k then
        some ((db.get .blockHashes (n-storedBlockHashBuffer)).getD 0)
      else none := by
  unfold registered
  by_cases hn : storedBlockHashBuffer≤n
  · have hold : ((u.storageUpdates.get 1).getD ∅).get k=none := by
      have huk := hu k
      unfold StateUpdates.registrySlot at huk
      cases hm : u.storageUpdates.get 1 with
      | none => rfl
      | some m => simpa [hm] using huk
    simp [hn,StateUpdates.registrySlot,StateUpdates.withBlockHash,SortedMap.get_put,hold]
  · simp [hn,hu]

/-- The registry after the blocks, the last of which is b. -/
structure Registry (slot : Felt → Option Felt) (blocks : List (BlockInput P))
    (b : BlockInput P) : Prop where
  dense : ∀ k≤b.number, ∃ c∈blocks, c.number=k
  old : ∀ c∈blocks, c.number+storedBlockHashBuffer≤b.number →
    lastStorageWrite blocks 1 (Felt.ofNat c.number)=some c.hash
  young : ∀ k<2^64, b.number<k+storedBlockHashBuffer →
    lastStorageWrite blocks 1 (Felt.ofNat k)=slot (Felt.ofNat k)

theorem Registry.genesis (h : K.IsGenesis G execute b spec) (hz : spec.number=0) :
    Registry (genesisSlot G execute spec) [b] b where
  dense k hk := by
    have hb : b.number=0 := h.number.trans hz
    exact ⟨b,by simp,by omega⟩
  old c hc hle := by
    rw [List.mem_singleton.mp hc] at hle
    simp [storedBlockHashBuffer] at hle
  young k _ _ := by
    have hlast : lastStorageWrite [b] 1 (Felt.ofNat k)=b.updates.registrySlot (Felt.ofNat k) := by
      simp [lastStorageWrite,StateUpdates.registrySlot]
    rw [hlast,h.slot]

theorem Registry.mined {slot : Felt → Option Felt} (h : Registry slot (pre++[b]) b)
    (hinc : Increasing (pre++[b])) (hn : c.number=b.number+1) (hlt : c.number<2^64)
    {u : StateUpdates} (hu : ∀ k, u.registrySlot k=none)
    (hc : c.updates=registered (K.chain (pre++[b])) u c.number) :
    Registry slot (pre++[b]++[c]) c := by
  have hlast : ∀ k, lastStorageWrite (pre++[b]++[c]) 1 k=
      (if storedBlockHashBuffer≤c.number ∧ Felt.ofNat (c.number-storedBlockHashBuffer)=k then
        some (((K.chain (pre++[b])).get .blockHashes (c.number-storedBlockHashBuffer)).getD 0)
      else none).or (lastStorageWrite (pre++[b]) 1 k) := by
    intro k
    rw [lastStorageWrite_concat,← registered_slot hu,← hc]
    rfl
  have hother : ∀ k<2^64, k+storedBlockHashBuffer≠c.number →
      lastStorageWrite (pre++[b]++[c]) 1 (Felt.ofNat k)=
        lastStorageWrite (pre++[b]) 1 (Felt.ofNat k) := by
    intro k hk hne
    have hslot : ¬(storedBlockHashBuffer≤c.number ∧
        Felt.ofNat (c.number-storedBlockHashBuffer)=Felt.ofNat k) := by
      rintro ⟨hle,he⟩
      have hinj := ofNat_inj (by omega) (by omega) he
      omega
    rw [hlast,if_neg hslot,Option.none_or]
  refine ⟨?_,?_,?_⟩
  · intro k hk
    by_cases hkc : k=c.number
    · exact ⟨c,by simp,hkc.symm⟩
    · obtain ⟨d,hd,hdk⟩ := h.dense k (by omega)
      exact ⟨d,List.mem_append_left _ hd,hdk⟩
  · intro d hd hle
    rcases List.mem_append.mp hd with hd | hd
    · by_cases hdc : d.number+storedBlockHashBuffer=c.number
      · have hsub : c.number-storedBlockHashBuffer=d.number := by omega
        rw [hlast,hsub,chain_hash hinc hd,if_pos ⟨by omega,rfl⟩]
        rfl
      · rw [hother d.number (by omega) hdc]
        exact h.old d hd (by omega)
    · rw [List.mem_singleton.mp hd] at hle
      simp [storedBlockHashBuffer] at hle
  · intro k hk hle
    rw [hother k hk (by omega)]
    exact h.young k hk (by omega)

section Law
variable {post : List (BlockInput P)}

end Law

section
variable (h : K.runChain G execute spec steps Db.empty=.ok () db) (hz : spec.number=0)
  (hlt : steps.length<2^64)
  (hsteps : ∀ step∈steps, ∀ k, step.output.states.stateUpdates.registrySlot k=none)
include h hz hlt hsteps

end

end Backend
end Katana
