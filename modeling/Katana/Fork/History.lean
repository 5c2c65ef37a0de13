import Katana.Fork.Overlay

/-! The state of a past local block on a forked chain: the last local write up to the
block, else the value of the fork block. Reads through the change lists give it for
normalised addresses; the number of the tip is answered from the tables of the latest
state, opened some time after the number was looked up. -/
namespace Katana.Fork
open ChangeLog DbTx
variable {P : Payloads}

/-- Every local block, asked for now or looked up earlier, is answered as written. -/
structure HistoryRight (C : Codecs) (fork : ForkBlock P) (s : ForkState P) : Prop where
  blocks : ∀ pre b post id, s.blocks=pre++b::post → Names id b post →
    ∃ r, resolve s.db id=.ok (some r) ∧ ∀ a k, Answers C fork (r.open s.db) (pre++[b]) a k
  requests : ∀ r∈s.requests, ∀ a k,
    Answers C fork (r.open s.db) (upToBlock s.blocks r.block) a k

/-- The block writes to the contract only what the fork block has. -/
structure ForkValues (fork : ForkBlock P) (b : BlockInput P) (a : Felt) : Prop where
  storage : ∀ k v, (b.updates.storageUpdates.get a).bind (fun m => m.get k)=some v →
    fork.storage a k=some v
  nonce : ∀ m, b.updates.nonceUpdates.get a=some m → fork.nonce a=some m
  classHash : ∀ c, b.updates.deployedContracts.get a=some c → fork.classHash a=some c

/-- Two lists of blocks over the fork block give every item the same value. -/
structure SameOverlay (fork : ForkBlock P) (blocks blocks' : List (BlockInput P)) : Prop where
  storage : ∀ a k, (lastStorageWrite blocks a k).or (fork.storage a k)=
    (lastStorageWrite blocks' a k).or (fork.storage a k)
  nonce : ∀ a, (lastNonceUpdate blocks a).or (fork.nonce a)=
    (lastNonceUpdate blocks' a).or (fork.nonce a)
  classHash : ∀ a, (lastDeployedClass blocks a).or (fork.classHash a)=
    (lastDeployedClass blocks' a).or (fork.classHash a)

/-- The condition on one event: that of the overlay; a block writes to an address that is
not normalised only what the fork block has; and a block that comes between the two
halves of a historical() call for the tip changes no value. -/
def KeepsHistory (C : Codecs) (fork : ForkBlock P) (s : ForkState P) (e : ForkEvent P) : Prop :=
  KeepsOverlay fork s e ∧ ∀ b, e=.insert b →
    (∀ a, C.normalizeAddress a≠a → ForkValues fork b a) ∧
    ((∃ r∈s.requests, r.tip=true) → SameOverlay fork (s.blocks++[b]) s.blocks)

/-- The tables that a fetched value never goes to. -/
structure HistoryTables (C : Codecs) (blocks : List (BlockInput P)) (db : Db P) : Prop where
  storage : StorageIndexed C (storageLog blocks) db
  contracts : ContractIndexed C (classLog blocks) (nonceLog blocks) db
  numbers : NumberTables blocks db

variable {C : Codecs} {fork : ForkBlock P} {blocks : List (BlockInput P)} {db : Db P}
    {r : BlockRequest} {a : Felt} {s : ForkState P} {e : ForkEvent P}

theorem HistoryTables.empty (C : Codecs) : HistoryTables C [] (Db.empty : Db P) where
  storage := (StorageRep.empty C).indexed
  contracts := (ContractRep.empty C).indexed
  numbers := ⟨fun _ => rfl,fun _ => rfl⟩

theorem HistoryTables.apply (h : HistoryTables C blocks db) (w : CacheWrite P) :
    HistoryTables C blocks (w.apply C db) := by
  cases w <;>
    refine ⟨h.storage.of_same ?_ ?_,h.contracts.of_same ?_ ?_ ?_,⟨?_,?_⟩⟩ <;>
    simp [CacheWrite.apply,h.numbers.hashes,h.numbers.numbers]

theorem HistoryTables.insert (h : HistoryTables C blocks db) (hd : StorageDecodes C db)
    {b : BlockInput P} (hinc : Increasing (blocks++[b])) :
    HistoryTables C (blocks++[b]) (insertBlockWithStatesAndReceipts C {} b db).2 := by
  obtain ⟨db',hr,⟨hs,hc⟩,hi,_⟩ := insert_ensures
    ((insertBlockTx_logs hd h.storage h.contracts hinc).and (insertBlockTx_inserted hd))
  rw [hr]
  exact ⟨hs,hc,h.numbers.insert hi⟩

section Resolve
variable {pre post : List (BlockInput P)} {b : BlockInput P} {id : BlockHashOrNumber}

/-- An id of a local block is found; its number is asked of the latest state if it is the
tip. -/
theorem HistoryTables.resolve_of_names (h : HistoryTables C (pre++b::post) db)
    (hinc : Increasing (pre++b::post)) (hid : Names id b post) :
    (LatestRoute id b post ∧ resolve db id=.ok (some ⟨b.number,true⟩)) ∨
      (¬LatestRoute id b post ∧ resolve db id=.ok (some ⟨b.number,false⟩)) := by
  obtain ⟨hr,hl⟩ | ⟨hr,rfl,tip,hl,hlt⟩ | ⟨hr,rfl,hn⟩ := h.numbers.of_names hinc hid
  · refine Or.inl ⟨hr,?_⟩
    rw [hr.1]
    simp [resolve,hl]
  · exact Or.inr ⟨hr,by simp [resolve,hl,hlt]⟩
  · exact Or.inr ⟨hr,by simp only [resolve,blockNumberByHash,hn]⟩

theorem HistoryTables.tip_of_resolve (h : HistoryTables C blocks db) (hinc : Increasing blocks)
    (hr : resolve db id=.ok (some r)) (ht : r.tip=true) :
    ∃ pre b, blocks=pre++[b] ∧ r.block=b.number := by
  cases id with
  | hash hash =>
    simp only [resolve,blockNumberByHash] at hr
    cases hn : db.get .blockNumbers hash <;> simp only [hn,Except.ok.injEq,Option.some.injEq] at hr
    · cases hr
    · subst hr
      cases ht
  | num n =>
    cases blocks using List.reverseRecOn with
    | nil =>
      have hlast : latestNumber db=.error .missingLatestBlockNumber := by
        cases hl : db.last .blockHashes with
        | none => simp only [latestNumber,hl]
        | some q =>
          have := (SortedMap.last_eq_some _ _ _).mp hl
          have hq := (h.numbers.hashes q.1).symm.trans this.1
          simp at hq
      simp only [resolve,hlast] at hr
      cases hr
    | append_singleton pre b =>
      refine ⟨pre,b,rfl,?_⟩
      simp only [resolve,h.numbers.latestNumber hinc] at hr
      split at hr
      · cases hr
        cases ht
      · split at hr
        · cases hr
        · cases hr
          simp only
          omega

end Resolve

section Writes

theorem last_or {f : BlockInput P → Option Felt} {o : Option Felt}
    (h : ∀ b∈blocks, ∀ v, f b=some v → o=some v) : (blocks.reverse.findSome? f).or o=o := by
  cases hl : blocks.reverse.findSome? f with
  | none => rfl
  | some v =>
    obtain ⟨b,hb,hv⟩ := List.exists_of_findSome?_eq_some hl
    rw [h b (List.mem_reverse.mp hb) v hv,Option.some_or]

theorem or_fork_of_forkValues (h : ∀ b∈blocks, ForkValues fork b a) :
    (∀ k, (lastStorageWrite blocks a k).or (fork.storage a k)=fork.storage a k) ∧
    (lastNonceUpdate blocks a).or (fork.nonce a)=fork.nonce a ∧
    (lastDeployedClass blocks a).or (fork.classHash a)=fork.classHash a :=
  ⟨fun k => last_or (fun b hb => (h b hb).storage k),last_or (fun b hb => (h b hb).nonce),
    last_or (fun b hb => (h b hb).classHash)⟩

theorem ite_or {p : Prop} [Decidable p] {o o' : Option Felt} (h : ¬p → o.or o'=o') :
    (if p then o else none).or o'=o.or o' := by
  by_cases hp : p
  · rw [if_pos hp]
  · rw [if_neg hp,h hp,Option.none_or]

end Writes

/-- What the change lists answer: the logs for a normalised address, else the fork block. -/
theorem HistoryTables.reads (h : HistoryTables C blocks db) (n : Nat) (a k : Felt) (db' : Db P) :
    (Fork.storage C fork.up {} {} a k (.historical db n) db').1=
      .ok ((if C.normalizeAddress a=a then lastStorageWrite (upToBlock blocks n) a k
        else none).or (fork.storage a k)) ∧
    (nonce C fork.up {} a (.historical db n) db').1=
      .ok ((if C.normalizeAddress a=a then lastNonceUpdate (upToBlock blocks n) a
        else none).or (fork.nonce a)) ∧
    (classHashOfContract C fork.up {} a (.historical db n) db').1=
      .ok ((if C.normalizeAddress a=a then lastDeployedClass (upToBlock blocks n) a
        else none).or (fork.classHash a)) := by
  have hs : asOf (storageLog blocks) n ⟨a,k⟩=lastStorageWrite (upToBlock blocks n) a k :=
    (asOf_flatMap blocks (fun _ _ hx => (mem_storageChanges.mp hx).1) n _).trans
      (latest_storageLog _ a k)
  have hn : asOf (nonceLog blocks) n a=lastNonceUpdate (upToBlock blocks n) a :=
    (asOf_flatMap blocks (fun _ _ hx => ((mem_changesAt _ _ _).mp hx).1) n _).trans
      (latest_nonceLog _ a)
  have hc : asOf (classLog blocks) n a=lastDeployedClass (upToBlock blocks n) a :=
    (asOf_flatMap blocks (fun _ _ hx => ((mem_changesAt _ _ _).mp hx).1) n _).trans
      (latest_classLog _ a)
  rw [historical_storage fork _ h.storage,historical_nonce fork _ h.contracts,
    historical_class fork _ h.contracts,hs,hn,hc]
  exact ⟨rfl,rfl,rfl⟩

theorem HistoryTables.answers (h : HistoryTables C blocks db)
    (hf : ∀ b∈blocks, ∀ a, C.normalizeAddress a≠a → ForkValues fork b a) (n : Nat) (a k : Felt) :
    Answers C fork (.historical db n) (upToBlock blocks n) a k := by
  have hfork : C.normalizeAddress a≠a → ∀ b∈upToBlock blocks n, ForkValues fork b a :=
    fun hna b hb => hf b (List.mem_of_mem_filter hb) a hna
  refine ⟨fun db' => ?_,fun db' => ?_,fun db' => ?_⟩
  · rw [(h.reads n a k db').1,ite_or (fun hna => (or_fork_of_forkValues (hfork hna)).1 k)]
  · rw [(h.reads n a k db').2.1,ite_or (fun hna => (or_fork_of_forkValues (hfork hna)).2.1)]
  · rw [(h.reads n a k db').2.2,ite_or (fun hna => (or_fork_of_forkValues (hfork hna)).2.2)]

/-- Answers of the last block through the change lists need its writes to the other
addresses to be values of the fork block. -/
theorem HistoryTables.forkValues {b : BlockInput P} (h : HistoryTables C (blocks++[b]) db) {n : Nat}
    (ha : ∀ k, Answers C fork (.historical db n) (blocks++[b]) a k) (hna : C.normalizeAddress a≠a) :
    ForkValues fork b a := by
  refine ⟨?_,?_,?_⟩
  · intro k v hv
    have hr := (ha k).storage db
    rw [(h.reads n a k db).1,if_neg hna,lastStorageWrite_concat,hv] at hr
    simpa using hr
  · intro m hm
    have hr := (ha 0).nonce db
    rw [(h.reads n a 0 db).2.1,if_neg hna,lastNonceUpdate_concat,hm] at hr
    simpa using hr
  · intro c hc
    have hr := (ha 0).classHash db
    rw [(h.reads n a 0 db).2.2,if_neg hna,lastDeployedClass_concat,hc] at hr
    simpa using hr

namespace SameOverlay
variable {blocks' blocks'' : List (BlockInput P)}

theorem refl (fork : ForkBlock P) (blocks : List (BlockInput P)) : SameOverlay fork blocks blocks :=
  ⟨fun _ _ => rfl,fun _ => rfl,fun _ => rfl⟩

theorem symm (h : SameOverlay fork blocks blocks') : SameOverlay fork blocks' blocks :=
  ⟨fun a k => (h.storage a k).symm,fun a => (h.nonce a).symm,fun a => (h.classHash a).symm⟩

theorem trans (h : SameOverlay fork blocks blocks') (h' : SameOverlay fork blocks' blocks'') :
    SameOverlay fork blocks blocks'' :=
  ⟨fun a k => (h.storage a k).trans (h'.storage a k),fun a => (h.nonce a).trans (h'.nonce a),
    fun a => (h.classHash a).trans (h'.classHash a)⟩

theorem answers {p : StateProvider P} {k : Felt} (h : SameOverlay fork blocks blocks')
    (ha : Answers C fork p blocks a k) : Answers C fork p blocks' a k :=
  ⟨fun db => by rw [ha.storage,h.storage],fun db => by rw [ha.nonce,h.nonce],
    fun db => by rw [ha.classHash,h.classHash]⟩

theorem of_answers {p : StateProvider P} (ha : ∀ a k, Answers C fork p blocks a k)
    (ha' : ∀ a k, Answers C fork p blocks' a k) : SameOverlay fork blocks blocks' where
  storage a k :=
    Except.ok.inj (((ha a k).storage Db.empty).symm.trans ((ha' a k).storage Db.empty))
  nonce a := Except.ok.inj (((ha a 0).nonce Db.empty).symm.trans ((ha' a 0).nonce Db.empty))
  classHash a :=
    Except.ok.inj (((ha a 0).classHash Db.empty).symm.trans ((ha' a 0).classHash Db.empty))

end SameOverlay

structure HistoryInv (C : Codecs) (fork : ForkBlock P) (s : ForkState P) : Prop where
  overlay : OverlayInv C fork s
  tables : HistoryTables C s.blocks s.db
  plain : ∀ b∈s.blocks, ∀ a, C.normalizeAddress a≠a → ForkValues fork b a
  tips : ∀ r∈s.requests, r.tip=true → (∃ c∈s.blocks, c.number=r.block) ∧
    SameOverlay fork s.blocks (upToBlock s.blocks r.block)

theorem BlockRequest.open_tip (h : r.tip=true) (db : Db P) : r.open db=.latest db := by
  simp [BlockRequest.open,h]

theorem HistoryInv.right (h : HistoryInv C fork s) (hinc : Increasing s.blocks) :
    HistoryRight C fork s where
  blocks pre b post id hs hid := by
    have htab := h.tables
    have hover := h.overlay.tables.answers
    have hplain := h.plain
    rw [hs] at htab hinc hover hplain
    obtain ⟨hroute,hr⟩ | ⟨_,hr⟩ := htab.resolve_of_names hinc hid
    · refine ⟨_,hr,?_⟩
      rw [hroute.2] at hover
      exact hover
    · refine ⟨_,hr,?_⟩
      have ha := htab.answers hplain b.number
      rw [hinc.upToBlock_eq] at ha
      exact ha
  requests r hr a k := by
    cases ht : r.tip with
    | true =>
      rw [BlockRequest.open_tip ht]
      exact (h.tips r hr ht).2.answers (h.overlay.tables.answers a k)
    | false =>
      simp only [BlockRequest.open,ht,Bool.false_eq_true,if_false]
      exact h.tables.answers h.plain r.block a k

theorem upToBlock_concat {b c : BlockInput P} (hinc : Increasing (blocks++[b])) (hc : c∈blocks)
    {n : Nat} (hn : c.number=n) : upToBlock (blocks++[b]) n=upToBlock blocks n := by
  have hlt : ¬b.number≤n := by
    have := ((increasing_concat _ _).mp hinc).2 c hc
    omega
  simp [upToBlock,hlt]

section
variable (h : HistoryInv C fork s) (hinc : Increasing (s.step C fork e).blocks)
include h hinc

theorem HistoryInv.tables_step :
    HistoryTables C (s.step C fork e).blocks (s.step C fork e).db := by
  obtain ⟨w,_,_,rfl,_,_,hdb,hb⟩ | ⟨b,rfl,hdb,hb,_⟩ | ⟨_,_,hdb,hb⟩ := (step_cases C fork s e).2
  · rw [hdb,hb]
    exact h.tables.apply w
  · rw [hb] at hinc
    rw [hdb,hb]
    obtain ⟨cached,_,hs⟩ := h.overlay.tables.storage
    exact h.tables.insert hs.decodes hinc
  · rw [hdb,hb]
    exact h.tables

theorem HistoryInv.tips_step
    (hk : KeepsHistory C fork s e) :
    ∀ r∈(s.step C fork e).requests, r.tip=true →
      (∃ c∈(s.step C fork e).blocks, c.number=r.block) ∧
      SameOverlay fork (s.step C fork e).blocks
        (upToBlock (s.step C fork e).blocks r.block) := by
  intro r hr ht
  obtain ⟨hcar,hcase⟩ := step_cases C fork s e
  have hsame : Increasing s.blocks → (∃ c∈s.blocks, c.number=r.block) ∧
      SameOverlay fork s.blocks (upToBlock s.blocks r.block) := by
    intro hs
    obtain hold | ⟨id,hid⟩ := hcar.requests r hr
    · exact h.tips r hold ht
    · obtain ⟨pre,b,hb,hn⟩ := h.tables.tip_of_resolve hs hid ht
      rw [hb] at hs ⊢
      have hup : upToBlock (pre++[b]) b.number=pre++[b] := Increasing.upToBlock_eq hs
      rw [hn,hup]
      exact ⟨⟨b,by simp,rfl⟩,SameOverlay.refl fork _⟩
  obtain ⟨w,_,_,rfl,_,_,hdb,hb⟩ | ⟨b,rfl,hdb,hb,hreq⟩ | ⟨_,_,hdb,hb⟩ := hcase
  · rw [hb] at hinc ⊢
    exact hsame hinc
  · rw [hb] at hinc ⊢
    rw [hreq] at hr
    obtain ⟨⟨c,hc,hn⟩,hover⟩ := h.tips r hr ht
    rw [upToBlock_concat hinc hc hn]
    exact ⟨⟨c,List.mem_append_left _ hc,hn⟩,((hk.2 b rfl).2 ⟨r,hr,ht⟩).trans hover⟩
  · rw [hb] at hinc ⊢
    exact hsame hinc

theorem HistoryInv.step
    (hk : KeepsHistory C fork s e) : HistoryInv C fork (s.step C fork e) := by
  refine ⟨overlayInv_step h.overlay hk.1,h.tables_step hinc,?_,h.tips_step hinc hk⟩
  obtain ⟨w,_,_,rfl,_,_,_,hb⟩ | ⟨b,rfl,_,hb,_⟩ | ⟨_,_,_,hb⟩ := (step_cases C fork s e).2
  · rw [hb]
    exact h.plain
  · rw [hb]
    intro c hc
    rcases List.mem_append.mp hc with hc | hc
    · exact h.plain c hc
    · rw [List.mem_singleton.mp hc]
      exact (hk.2 b rfl).1
  · rw [hb]
    exact h.plain

end

theorem HistoryRight.tip {pre : List (BlockInput P)} {b : BlockInput P} (h : HistoryRight C fork s)
    (ht : HistoryTables C s.blocks s.db) (hinc : Increasing s.blocks) (hs : s.blocks=pre++[b])
    (a k : Felt) : Answers C fork (.latest s.db) s.blocks a k ∧
      Answers C fork (.historical s.db b.number) s.blocks a k := by
  have hnum : Names (.num b.number) b [] := Or.inl rfl
  have hhash : Names (.hash b.hash) b [] := Or.inr ⟨rfl,by simp⟩
  obtain ⟨r,hr,ha⟩ := h.blocks pre b [] _ hs hnum
  obtain ⟨r',hr',ha'⟩ := h.blocks pre b [] _ hs hhash
  rw [hs] at ht hinc ⊢
  rw [((ht.resolve_of_names hinc hnum).resolve_right (fun hno => hno.1 ⟨rfl,rfl⟩)).2] at hr
  rw [((ht.resolve_of_names hinc hhash).resolve_left (fun hroute => nomatch hroute.1.1)).2] at hr'
  cases hr
  cases hr'
  exact ⟨ha a k,ha' a k⟩

theorem HistoryInv.keeps (h : HistoryInv C fork s) (hinc : Increasing (s.step C fork e).blocks)
    (hr : HistoryRight C fork (s.step C fork e)) (ho : OneEntry C (s.step C fork e).db) :
    KeepsHistory C fork s e := by
  have htab := h.tables_step hinc
  obtain ⟨w,write,env,rfl,hw,hc,hdb,hb⟩ | ⟨b,rfl,hdb,hb,hreq⟩ | ⟨hst,hin,_,_⟩ :=
    (step_cases C fork s e).2
  · refine ⟨?_,fun _ he => by cases he⟩
    intro w' hw' _
    obtain rfl : w=w' := Option.some.inj (hw.symm.trans hw')
    cases hbl : s.blocks using List.reverseRecOn with
    | nil => exact w.unwritten_nil
    | append_singleton pre b =>
      have ha := fun a k => (hr.tip htab hinc (hb.trans hbl) a k).1
      rw [hdb] at ho ha
      rw [hb] at ha
      rw [← hbl]
      exact h.overlay.tables.unwritten ha ho
  · have ha := fun a k => (hr.tip htab hinc hb a k).1
    have hhash := fun a k => (hr.tip htab hinc hb a k).2
    have hlater := hr.requests
    rw [hb] at ha hhash htab hinc
    refine ⟨?_,?_⟩
    · rw [hdb] at ha
      exact h.overlay.tables.completes ha
    · rintro b' ⟨⟩
      refine ⟨fun a hna => htab.forkValues (hhash a) hna,?_⟩
      rintro ⟨r,hrm,ht⟩
      obtain ⟨⟨c,hc,hn⟩,hover⟩ := h.tips r hrm ht
      have hra := hlater r (hreq ▸ hrm)
      rw [BlockRequest.open_tip ht,hb,upToBlock_concat hinc hc hn] at hra
      exact (SameOverlay.of_answers ha hra).trans hover.symm
  · refine ⟨?_,fun b he => absurd he (hin b)⟩
    cases e with
    | store write env => exact fun w hw hc => absurd hc (hst write env rfl w hw)
    | insert b => exact absurd rfl (hin b)
    | _ => trivial

variable (C : Codecs) (fork : ForkBlock P)

theorem step_blocks_grow (s : ForkState P) (e : ForkEvent P) :
    s.blocks<+:(s.step C fork e).blocks := by
  obtain ⟨_,_,_,_,_,_,_,hb⟩ | ⟨b,_,_,hb,_⟩ | ⟨_,_,_,hb⟩ := (step_cases C fork s e).2
  · exact ⟨[],by rw [hb,List.append_nil]⟩
  · rw [hb]
    exact List.prefix_append _ _
  · exact ⟨[],by rw [hb,List.append_nil]⟩

variable (events : List (ForkEvent P))

theorem run_concat (e : ForkEvent P) : run C fork (events++[e])=(run C fork events).step C fork e := by
  simp [run]

theorem run_blocks_grow {pre events : List (ForkEvent P)}
    (h : pre<+:events) : (run C fork pre).blocks<+:(run C fork events).blocks := by
  obtain ⟨rest,rfl⟩ := h
  induction rest using List.reverseRecOn with
  | nil => simp
  | append_singleton rest e ih =>
    rw [← List.append_assoc,run_concat]
    exact ih.trans (step_blocks_grow C fork _ e)

theorem history_always : (∀ pre, pre<+:events → Increasing (run C fork pre).blocks →
        HistoryRight C fork (run C fork pre) ∧ OneEntry C (run C fork pre).db) ↔
      ∀ pre e, pre++[e]<+:events → Increasing ((run C fork pre).step C fork e).blocks →
        KeepsHistory C fork (run C fork pre) e := by
  have hback : ∀ (s : ForkState P) e, Increasing (s.step C fork e).blocks → Increasing s.blocks :=
    fun s e h => h.of_prefix (step_blocks_grow C fork s e)
  refine @Transition.foldl_always_iff (ForkState P) (ForkEvent P) {} (ForkState.step C fork)
    (fun s => Increasing s.blocks → HistoryInv C fork s)
    (fun s => Increasing s.blocks → HistoryRight C fork s ∧ OneEntry C s.db)
    (fun s e => Increasing (s.step C fork e).blocks → KeepsHistory C fork s e)
    ?_ ?_ ?_ ?_ events
  · intro s h hs
    exact ⟨(h hs).right hs,(h hs).overlay.tables.overlaid.2⟩
  · intro s e h hk hs
    exact (h (hback s e hs)).step hs (hk hs)
  · intro s e h hp hs
    exact (h (hback s e hs)).keeps hs (hp hs).1 (hp hs).2
  · intro _
    exact ⟨overlayInv_start C fork,HistoryTables.empty C,by simp,by simp⟩

/-- On a chain with increasing block numbers, at every moment every local block is answered
as written, with one entry for a key, exactly if every event keeps the condition; and a
read through a historical provider changes nothing at all. -/
theorem history_iff (hinc : Increasing (run C fork events).blocks) : ((∀ pre, pre<+:events →
        HistoryRight C fork (run C fork pre) ∧ OneEntry C (run C fork pre).db) ↔
      ∀ pre e, pre++[e]<+:events → KeepsHistory C fork (run C fork pre) e) ∧
    ∀ (s : ForkState P) provider item down env env' snapshot n,
      s.providers[provider]?=some (.historical snapshot n) →
        s.step C fork (.read provider item down env env')=s := by
  refine ⟨?_,?_⟩
  · have hall : ∀ pre, pre<+:events → Increasing (run C fork pre).blocks :=
      fun pre hp => hinc.of_prefix (run_blocks_grow C fork hp)
    have hiff := history_always C fork events
    constructor
    · intro h pre e hp
      refine hiff.mp (fun pre' hp' _ => h pre' hp') pre e hp ?_
      rw [← run_concat]
      exact hall _ hp
    · intro h pre hp
      exact hiff.mpr (fun pre' e hp' _ => h pre' e hp') pre hp (hall pre hp)
  · intro s provider item down env env' snapshot n hp
    simp only [ForkState.step,hp,readDb_eq]

/-- The slot is fetched and stored before a block writes it. -/
def cachedRead : List (ForkEvent unitPayloads) :=
  [.openLatest,.read 0 (.storage 1 7) (fun _ => none) {} {},.store 0 {},.insert accountBlock]

theorem accountBlock_touches (h : a≠1) :
    accountBlock.updates.storageUpdates.get a=none ∧
    accountBlock.updates.nonceUpdates.get a=none ∧
    accountBlock.updates.deployedContracts.get a=none :=
  ⟨SortedMap.get_put_ne (Ne.symm h) _ _,SortedMap.get_put_ne (Ne.symm h) _ _,
    SortedMap.get_put_ne (Ne.symm h) _ _⟩

theorem history_of_cached_slot :
    HistoryRight starknetCodecs forkedSlot (run starknetCodecs forkedSlot cachedRead) := by
  have hkeep : ∀ pre e, pre++[e]<+:cachedRead →
      KeepsHistory starknetCodecs forkedSlot (run starknetCodecs forkedSlot pre) e := by
    rintro pre e ⟨rest,hrest⟩
    rcases pre with _ | ⟨p₀,_ | ⟨p₁,_ | ⟨p₂,_ | ⟨p₃,pre⟩⟩⟩⟩ <;>
      simp only [cachedRead,List.cons_append,List.nil_append,List.cons.injEq] at hrest
    · obtain ⟨rfl,_⟩ := hrest
      exact ⟨trivial,by simp⟩
    · obtain ⟨rfl,rfl,_⟩ := hrest
      exact ⟨trivial,by simp⟩
    · obtain ⟨rfl,rfl,rfl,_⟩ := hrest
      refine ⟨?_,by simp⟩
      intro w _ _
      exact CacheWrite.unwritten_nil w
    · obtain ⟨rfl,rfl,rfl,rfl,_⟩ := hrest
      refine ⟨?_,?_⟩
      · intro a _
        by_cases ha : a=1
        · subst ha
          exact ⟨fun _ => Or.inl (by decide),fun _ => Or.inl (by decide)⟩
        · have ht := accountBlock_touches ha
          simp [Completes,ht]
      · rintro b ⟨⟩
        refine ⟨?_,fun ⟨r,hr,_⟩ => absurd hr (List.not_mem_nil (a := r))⟩
        intro a hna
        have ha : a≠1 := by
          rintro rfl
          exact hna (by decide)
        have ht := accountBlock_touches ha
        exact ⟨by simp [ht],by simp [ht],by simp [ht]⟩
    · simp at hrest
  exact (((history_iff starknetCodecs forkedSlot cachedRead (by decide +kernel)).1.mpr hkeep)
    cachedRead List.prefix_rfl).1

/-- After the stale read the number of the tip answers the value of the fork block. -/
theorem stale_read_changes_tip :
    ¬HistoryRight starknetCodecs forkedSlot (run starknetCodecs forkedSlot staleRead) ∧
    resolve (run starknetCodecs forkedSlot staleRead).db (.num 0)=.ok (some ⟨0,true⟩) ∧
    lastStorageWrite (run starknetCodecs forkedSlot staleRead).blocks 1 7=some 9 ∧
    (storage starknetCodecs forkedSlot.up {} {} 1 7
      (BlockRequest.open ⟨0,true⟩ (run starknetCodecs forkedSlot staleRead).db) Db.empty).1=
        .ok (some 5) := by
  have hres : resolve (run starknetCodecs forkedSlot staleRead).db (.num 0)=
      .ok (some ⟨0,true⟩) := by decide +kernel
  have hread : (storage starknetCodecs forkedSlot.up {} {} 1 7
      (BlockRequest.open ⟨0,true⟩ (run starknetCodecs forkedSlot staleRead).db) Db.empty).1=
        .ok (some 5) := by decide +kernel
  refine ⟨?_,hres,by decide +kernel,hread⟩
  intro h
  obtain ⟨r,hr,ha⟩ := h.blocks [] _ [] (.num 0) rfl (Or.inl rfl)
  obtain rfl := Option.some.inj (Except.ok.inj (hres.symm.trans hr))
  have hright := (ha 1 7).storage Db.empty
  rw [hread] at hright
  exact absurd hright (by decide +kernel)

end Katana.Fork
