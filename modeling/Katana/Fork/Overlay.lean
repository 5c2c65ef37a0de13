import Katana.Base.Transition
import Katana.Fork.System

/-! The latest state of a forked chain as an overlay: the last local write, else the value
of the fork block, with one ContractStorage entry for a key. It is one at every moment
of a run exactly if no fetched value is stored after a local block wrote its item, and
every local block finds the record of a contract it changes in part. -/
namespace Katana.Fork
open DbTx
variable {P : Payloads}

def OneEntry (C : Codecs) (db : Db P) : Prop :=
  ∀ a w w' e e', db.HasDup .contractStorage a w → db.HasDup .contractStorage a w' →
    StorageEntry.decompress C w=.ok e → StorageEntry.decompress C w'=.ok e' → e.key=e'.key → w=w'

/-- A latest() provider opened now answers as the overlay. -/
def Overlaid (C : Codecs) (fork : ForkBlock P) (s : ForkState P) : Prop :=
  (∀ a k, Answers C fork (.latest s.db) s.blocks a k) ∧ OneEntry C s.db

/-- The blocks wrote nothing else where the fetched value goes. -/
def CacheWrite.Unwritten (blocks : List (BlockInput P)) : CacheWrite P → Prop
  | .contractInfo a e =>
    (∀ m, lastNonceUpdate blocks a=some m → m=e.nonce) ∧
      ∀ c, lastDeployedClass blocks a=some c → c=e.classHash
  | .contractStorage a e => ∀ v, lastStorageWrite blocks a e.key=some v → v=e.value
  | .classes _ _ | .compiledClassHashes _ _ => True

theorem CacheWrite.unwritten_nil (w : CacheWrite P) : w.Unwritten [] := by
  cases w <;> simp [Unwritten,lastStorageWrite,lastNonceUpdate,lastDeployedClass]

/-- Nothing of the record of the contract is left to a default that differs from the
value of the fork block. -/
def Completes (fork : ForkBlock P) (b : BlockInput P) (a : Felt) : Prop :=
  (b.updates.nonceUpdates.get a≠none →
    b.updates.deployedContracts.get a≠none ∨ fork.classHash a=some 0) ∧
  (b.updates.deployedContracts.get a≠none →
    b.updates.nonceUpdates.get a≠none ∨ fork.nonce a=some 0)

/-- The condition on one event: a fetched value is stored only where the local blocks wrote
nothing else; a block that changes a contract without a local record sets the whole
record. -/
def KeepsOverlay (fork : ForkBlock P) (s : ForkState P) : ForkEvent P → Prop
  | .store write env =>
    ∀ w, s.fetched[write]?=some w → Commits env → w.Unwritten s.blocks
  | .insert b => ∀ a, s.db.get .contractInfo a=none → Completes fork b a
  | _ => True

/-- What the record of a contract says after the blocks. -/
def Recorded (fork : ForkBlock P) (blocks : List (BlockInput P)) (a : Felt) :
    Option GenericContractInfo → Prop
  | none => lastNonceUpdate blocks a=none ∧ lastDeployedClass blocks a=none
  | some info =>
    (lastNonceUpdate blocks a).or (fork.nonce a)=some info.nonce ∧
      (lastDeployedClass blocks a).or (fork.classHash a)=some info.classHash

/-- The tables of the latest state: what the blocks wrote and, where they wrote nothing,
some of the values of the fork block. -/
structure OverlayRep (C : Codecs) (fork : ForkBlock P) (blocks : List (BlockInput P))
    (db : Db P) : Prop where
  storage : ∃ cached : ContractStorageKey → Option Felt,
    (∀ x v, cached x=some v → fork.storage x.contractAddress x.key=some v) ∧
    HoldsStorage C
      (fun x => (lastStorageWrite blocks x.contractAddress x.key).or (cached x)) db
  info : ∀ a, Recorded fork blocks a (db.get .contractInfo a)

variable {C : Codecs} {fork : ForkBlock P} {blocks : List (BlockInput P)} {db : Db P}
    {s : ForkState P} {b : BlockInput P}

theorem OverlayRep.empty (C : Codecs) (fork : ForkBlock P) :
    OverlayRep C fork [] (Db.empty : Db P) where
  storage := ⟨fun _ => none,by simp,by simp [HoldsStorage,lastStorageWrite]⟩
  info _ := ⟨rfl,rfl⟩

theorem Recorded.answers {a : Felt} {info : Option GenericContractInfo}
    (h : Recorded fork blocks a info) :
    (info.map (fun i => i.nonce)).or (fork.nonce a)=
        (lastNonceUpdate blocks a).or (fork.nonce a) ∧
      (info.map (fun i => i.classHash)).or (fork.classHash a)=
        (lastDeployedClass blocks a).or (fork.classHash a) := by
  cases info with
  | none => simp [h.1,h.2]
  | some i => exact ⟨h.1.symm,h.2.symm⟩

theorem OverlayRep.answers (h : OverlayRep C fork blocks db) (a k : Felt) :
    Answers C fork (.latest db) blocks a k where
  storage db' := by
    obtain ⟨cached,hc,hs⟩ := h.storage
    rw [latest_storage fork _ hs]
    cases lastStorageWrite blocks a k with
    | some v => simp
    | none =>
      cases hv : cached ⟨a,k⟩ with
      | some v => simp [hc _ v hv]
      | none => simp
  nonce db' := by rw [latest_nonce,(h.info a).answers.1]
  classHash db' := by rw [latest_class,(h.info a).answers.2]

theorem HoldsStorage.oneEntry {value : ContractStorageKey → Option Felt}
    (h : HoldsStorage C value db) : OneEntry C db := by
  intro a w w' e e' hw hw' he he' hk
  obtain ⟨k,v,hv,rfl⟩ := (h a w).mp hw
  obtain ⟨k',v',hv',rfl⟩ := (h a w').mp hw'
  rw [StorageEntry.decompress_compress] at he he'
  cases he
  cases he'
  obtain rfl : k=k' := hk
  rw [hv] at hv'
  cases hv'
  rfl

theorem OverlayRep.overlaid (h : OverlayRep C fork s.blocks s.db) : Overlaid C fork s := by
  obtain ⟨cached,_,hs⟩ := h.storage
  exact ⟨h.answers,HoldsStorage.oneEntry hs⟩

theorem OverlayRep.apply (h : OverlayRep C fork blocks db) {w : CacheWrite P} (hw : w.Of fork)
    (hu : w.Unwritten blocks) : OverlayRep C fork blocks (w.apply C db) := by
  obtain ⟨cached,hc,hs⟩ := h.storage
  cases w with
  | contractInfo a e =>
    refine ⟨⟨cached,hc,hs⟩,?_⟩
    intro a'
    rw [CacheWrite.apply,Db.get_put]
    by_cases ha : a=a'
    · subst ha
      have hi : fork.info a=some e := hw
      rw [if_pos rfl]
      constructor
      · cases hl : lastNonceUpdate blocks a with
        | none => simp [ForkBlock.nonce,hi]
        | some m => simp [hu.1 m hl]
      · cases hl : lastDeployedClass blocks a with
        | none => simp [ForkBlock.classHash,hi]
        | some c => simp [hu.2 c hl]
    · rw [if_neg ha]
      exact h.info a'
  | contractStorage a e =>
    have hf : fork.storage a e.key=some e.value := hw
    refine ⟨⟨Function.update cached ⟨a,e.key⟩ (some e.value),?_,?_⟩,h.info⟩
    · intro x v hx
      by_cases hxa : x=⟨a,e.key⟩
      · subst hxa
        rw [Function.update_self] at hx
        rw [hf,hx]
      · rw [Function.update_of_ne hxa] at hx
        exact hc x v hx
    · have hput := hs.putDup (a := a) (k := e.key) (v := e.value) (by
        cases hl : lastStorageWrite blocks a e.key with
        | some v => exact Or.inr (by simp [hu v hl])
        | none =>
          cases hv : cached ⟨a,e.key⟩ with
          | none => exact Or.inl (by simp)
          | some v =>
            have := hc _ v hv
            rw [hf] at this
            exact Or.inr (by simp [this]))
      refine hput.of_eq ?_
      intro x
      by_cases hxa : x=⟨a,e.key⟩
      · subst hxa
        rw [Function.update_self,Function.update_self]
        cases hl : lastStorageWrite blocks a e.key with
        | some v => simp [hu v hl]
        | none => simp
      · rw [Function.update_of_ne hxa,Function.update_of_ne hxa]
  | classes hash class' | compiledClassHashes hash compiled => exact ⟨⟨cached,hc,hs⟩,h.info⟩

/-- A record that was right is right after a block if and only if the block left nothing to
a wrong default. -/
theorem recorded_after_iff {a : Felt} {info : Option GenericContractInfo}
    (h : Recorded fork blocks a info) :
    Recorded fork (blocks++[b]) a (GenericContractInfo.after info
      (b.updates.deployedContracts.get a) (b.updates.nonceUpdates.get a)) ↔
      (info=none → Completes fork b a) := by
  unfold Completes
  cases hc : b.updates.deployedContracts.get a <;> cases hn : b.updates.nonceUpdates.get a <;>
    cases info <;>
    simp_all [Recorded,GenericContractInfo.after,GenericContractInfo.withClass,
      GenericContractInfo.withNonce,lastNonceUpdate_concat,lastDeployedClass_concat]

theorem insert_current {cached : ContractStorageKey → Option Felt} (hs : HoldsStorage C
      (fun x => (lastStorageWrite blocks x.contractAddress x.key).or (cached x)) db) :
    HoldsStorage C
      (fun x => (lastStorageWrite (blocks++[b]) x.contractAddress x.key).or (cached x))
      (insertBlockWithStatesAndReceipts C {} b db).2 ∧
    ∀ a, (insertBlockWithStatesAndReceipts C {} b db).2.get .contractInfo a=
      GenericContractInfo.after (db.get .contractInfo a) (b.updates.deployedContracts.get a)
        (b.updates.nonceUpdates.get a) := by
  obtain ⟨db',hr,hh,hi⟩ := insert_ensures ((insertBlockTx_holds (b := b) hs).and
    (insertBlockTx_info hs.decodes))
  rw [hr]
  refine ⟨hh.of_eq ?_,hi⟩
  intro x
  rw [latest_storageChanges,lastStorageWrite_concat,Option.or_assoc]

theorem OverlayRep.insert (h : OverlayRep C fork blocks db)
    (hb : ∀ a, db.get .contractInfo a=none → Completes fork b a) :
    OverlayRep C fork (blocks++[b]) (insertBlockWithStatesAndReceipts C {} b db).2 := by
  obtain ⟨cached,hc,hs⟩ := h.storage
  obtain ⟨hs',hi⟩ := insert_current (b := b) hs
  refine ⟨⟨cached,hc,hs'⟩,?_⟩
  intro a
  rw [hi a]
  exact (recorded_after_iff (h.info a)).mpr (hb a)

structure OverlayInv (C : Codecs) (fork : ForkBlock P) (s : ForkState P) : Prop where
  tables : OverlayRep C fork s.blocks s.db
  fetched : ∀ w∈s.fetched, w.Of fork

theorem overlayInv_step {e : ForkEvent P} (h : OverlayInv C fork s) (hk : KeepsOverlay fork s e) :
    OverlayInv C fork (s.step C fork e) := by
  obtain ⟨hcar,hcase⟩ := step_cases C fork s e
  refine ⟨?_,fun w hw => (hcar.fetched w hw).elim (h.fetched w) id⟩
  obtain ⟨w,write,env,rfl,hw,hc,hdb,hb⟩ | ⟨b,rfl,hdb,hb,_⟩ | ⟨_,_,hdb,hb⟩ := hcase
  · rw [hdb,hb]
    exact h.tables.apply (h.fetched w (List.mem_of_getElem? hw)) (hk w hw hc)
  · rw [hdb,hb]
    exact h.tables.insert hk
  · rw [hdb,hb]
    exact h.tables

/-- A value stored where a block wrote another one shows in a read, or as a second entry. -/
theorem OverlayRep.unwritten (h : OverlayRep C fork blocks db) {w : CacheWrite P}
    (ha : ∀ a k, Answers C fork (.latest (w.apply C db)) blocks a k)
    (ho : OneEntry C (w.apply C db)) : w.Unwritten blocks := by
  cases w with
  | contractInfo a e =>
    have hn := (ha a 0).nonce db
    have hcl := (ha a 0).classHash db
    rw [latest_nonce] at hn
    rw [latest_class] at hcl
    simp only [CacheWrite.apply,Db.get_put_self,Option.map_some,Option.some_or,Except.ok.injEq]
      at hn hcl
    refine ⟨?_,?_⟩
    · intro m hm
      rw [hm] at hn
      exact (Option.some.inj hn).symm
    · intro c hc
      rw [hc] at hcl
      exact (Option.some.inj hcl).symm
  | contractStorage a e =>
    intro v hv
    obtain ⟨cached,_,hs⟩ := h.storage
    have hold : db.HasDup .contractStorage a (StorageEntry.compress C ⟨e.key,v⟩) :=
      (hs a _).mpr ⟨e.key,v,by simp [hv],rfl⟩
    have heq := ho a _ _ ⟨e.key,v⟩ e ((Db.hasDup_putDup _ _ _ _ _ _).mpr (Or.inr hold))
      ((Db.hasDup_putDup _ _ _ _ _ _).mpr (Or.inl ⟨rfl,rfl⟩))
      (StorageEntry.decompress_compress C _) (StorageEntry.decompress_compress C _) rfl
    exact (compressEntry_inj C (by simp) heq).2
  | classes hash class' | compiledClassHashes hash compiled => trivial

theorem OverlayRep.completes (h : OverlayRep C fork blocks db) (ha : ∀ a k, Answers C fork
      (.latest (insertBlockWithStatesAndReceipts C {} b db).2) (blocks++[b]) a k) (a : Felt)
    (hn : db.get .contractInfo a=none) : Completes fork b a := by
  obtain ⟨cached,_,hs⟩ := h.storage
  have hi := (insert_current (b := b) hs).2 a
  have hnonce := (ha a 0).nonce db
  have hclass := (ha a 0).classHash db
  have hrec := h.info a
  rw [hn] at hi hrec
  obtain ⟨hln,hlc⟩ := hrec
  rw [latest_nonce,hi,lastNonceUpdate_concat,hln] at hnonce
  rw [latest_class,hi,lastDeployedClass_concat,hlc] at hclass
  unfold Completes
  cases hc : b.updates.deployedContracts.get a <;> cases hm : b.updates.nonceUpdates.get a <;>
    simp_all [GenericContractInfo.after,GenericContractInfo.withClass,
      GenericContractInfo.withNonce]

theorem keepsOverlay_of_overlaid {e : ForkEvent P} (h : OverlayInv C fork s)
    (ho : Overlaid C fork (s.step C fork e)) : KeepsOverlay fork s e := by
  obtain ⟨w,write,env,rfl,hw,hc,hdb,hb⟩ | ⟨b,rfl,hdb,hb,_⟩ | ⟨hst,hin,_,_⟩ :=
    (step_cases C fork s e).2
  · rw [Overlaid,hdb,hb] at ho
    intro w' hw' _
    obtain rfl : w=w' := Option.some.inj (hw.symm.trans hw')
    exact h.tables.unwritten ho.1 ho.2
  · rw [Overlaid,hdb,hb] at ho
    exact h.tables.completes ho.1
  · cases e with
    | store write env => exact fun w hw hc => absurd hc (hst write env rfl w hw)
    | insert b => exact absurd rfl (hin b)
    | _ => trivial

theorem overlayInv_start (C : Codecs) (fork : ForkBlock P) :
    OverlayInv C fork ({} : ForkState P) :=
  ⟨OverlayRep.empty C fork,by simp⟩

/-- At every moment of a run a latest() provider opened then answers the last local write,
else the value of the fork block, with one entry for a key, exactly if every event keeps
the condition. -/
theorem overlay_iff (C : Codecs) (fork : ForkBlock P) (events : List (ForkEvent P)) :
    (∀ pre, pre<+:events → Overlaid C fork (run C fork pre)) ↔
      ∀ pre e, pre++[e]<+:events → KeepsOverlay fork (run C fork pre) e :=
  Transition.foldl_always_iff (I := OverlayInv C fork) (P := Overlaid C fork)
    (fun _ h => h.tables.overlaid) (fun _ _ h hk => overlayInv_step h hk)
    (fun _ _ h ho => keepsOverlay_of_overlaid h ho) (overlayInv_start C fork) events

def forkedSlot : ForkBlock unitPayloads where
  info a := if a=1 then some { nonce := 1, classHash := 2 } else none
  storage a k := if a=1 ∧ k=7 then some 5 else none
  «class» _ := none
  compiledClassHash _ := none

/-- A provider misses the slot, a block writes it, and only then the fetched value is
stored. -/
def staleRead : List (ForkEvent unitPayloads) :=
  [.openLatest,.read 0 (.storage 1 7) (fun _ => none) {} {},
   .insert (stateBlock 0 100 { storageUpdates := SortedMap.put 1 (SortedMap.put 7 9 ∅) ∅ }),
   .store 0 {}]

/-- The slot answers the value of the fork block again, and has two entries. -/
theorem stale_read_undoes_block :
    ¬Overlaid starknetCodecs forkedSlot (run starknetCodecs forkedSlot staleRead) ∧
    lastStorageWrite (run starknetCodecs forkedSlot staleRead).blocks 1 7=some 9 ∧
    (storage starknetCodecs forkedSlot.up {} {} 1 7
      (.latest (run starknetCodecs forkedSlot staleRead).db) Db.empty).1=.ok (some 5) ∧
    ((run starknetCodecs forkedSlot staleRead).db.dups .contractStorage 1).length=2 := by
  have hread : (storage starknetCodecs forkedSlot.up {} {} 1 7
      (.latest (run starknetCodecs forkedSlot staleRead).db) Db.empty).1=.ok (some 5) := by
    decide +kernel
  refine ⟨?_,by decide +kernel,hread,by decide +kernel⟩
  intro h
  have hright := (h.1 1 7).storage Db.empty
  rw [hread] at hright
  exact absurd hright (by decide +kernel)

end Katana.Fork
