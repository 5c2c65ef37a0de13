import Katana.Core.Genesis
import Katana.Core.StateRoot
import Katana.Provider.History

/-! Chains: the genesis and the blocks mined after it. Every block is opened from the header
of the latest one. -/
namespace Katana
open Service (BlockProductionError)
variable {P : Payloads}

/-- The clock and the gas oracle when a block is opened. -/
structure BlockContext where
  timestamp : Nat
  l1GasPrices : GasPrice
  l1DataGasPrices : GasPrice
  deriving DecidableEq, Repr

def updateBlockEnv (c : BlockContext) (env : BlockEnv) : BlockEnv :=
  { env with
    number := (env.number+1)%2^64
    timestamp := c.timestamp
    l1GasPrices := c.l1GasPrices
    l1DataGasPrices := c.l1DataGasPrices }

def ChainSpec.number : ChainSpec P → Nat
  | .dev cs => cs.genesis.number
  | .rollup cs => cs.genesis.number

structure MiningStep (K : Backend P) where
  context : BlockContext
  output : ExecutionOutput K

def BlockInput.header (b : BlockInput P) : Header := b.block.block.header

def Header.blockEnv (h : Header) : BlockEnv :=
  ⟨h.number,h.timestamp,h.l2GasPrices,h.l1GasPrices,h.l1DataGasPrices,h.sequencerAddress⟩

theorem blockEnvAt_num {db : Db P} {n : Nat} {h : Header}
    (hget : db.get .headers n=some (VersionedHeader.ofHeader h)) :
    blockEnvAt db (.num n)=.ok (some h.blockEnv) := by
  have hheader : Katana.header db (.num n)=.ok (some h) := by
    simp only [Katana.header,blockNumberById,hget,okOr,bind,Except.bind]
    rfl
  simp only [blockEnvAt,hheader,bind,Except.bind]
  rfl

namespace Backend
variable (K : Backend P)

/-- A block is opened on the latest one, filled and mined. -/
def mineNext (step : MiningStep K) : CallM P BlockProductionError MinedBlockOutcome := do
  let latestNum ← mapErr .provider (fallible none latestNumber)
  let blockEnv ← mapErr .provider (fallible none (fun db => blockEnvAt db (.num latestNum)))
  match blockEnv with
  | none => throw (.panic "called Option::unwrap() on a None value")
  | some env => K.doMineBlock {} (updateBlockEnv step.context env) step.output

/-- The genesis, then the blocks, nothing failing. -/
def runChain (G : GenesisClasses P)
    (execute : Rollup.ChainSpec P → Except String (ExecutionOutput K)) (spec : ChainSpec P)
    (steps : List (MiningStep K)) : CallM P GenesisError Unit := do
  K.initGenesis G execute {} spec
  steps.forM (fun step => do
    let _ ← mapErr .production (K.mineNext step)
    return ())

/-- The header has the root of the tries that the block leaves. -/
def Commits (blocks : List (BlockInput P)) (b : BlockInput P) : Prop :=
  ∃ classRoot contractRoot,
    K.extend b (K.chain blocks)=.ok (classRoot,contractRoot) (K.chain (blocks++[b])) ∧
      b.header.stateRoot=K.stateRoot contractRoot classRoot

/-- The block is sealed over its header and linked to the block before it. -/
structure Follows (last b : BlockInput P) : Prop where
  number : b.number=last.number+1
  parent : b.header.parentHash=last.hash
  hash : b.hash=b.header.computeHash K.hashes

variable (G : GenesisClasses P)
  (execute : Rollup.ChainSpec P → Except String (ExecutionOutput K))

/-- The block that the specification makes. The dev genesis is sealed under the root of the
specification and stored under the root of its tries. -/
def IsGenesis (b : BlockInput P) : ChainSpec P → Prop
  | .dev cs => b.number=cs.genesis.number ∧ b.hash=cs.header.computeHash K.hashes ∧
      b.header={ cs.header with stateRoot := b.header.stateRoot } ∧
      cs.stateUpdates G=.ok b.states
  | .rollup cs => b.number=cs.genesis.number ∧ b.hash=b.header.computeHash K.hashes ∧
      ∃ output, execute cs=.ok output ∧ b.states=output.states

inductive Reached (spec : ChainSpec P) : List (BlockInput P) → Prop where
  | genesis {b : BlockInput P} (h : K.IsGenesis G execute b spec) (hc : K.Commits [] b) :
      Reached spec [b]
  | mined {pre : List (BlockInput P)} {last b : BlockInput P} (h : Reached spec (pre++[last]))
      (hf : K.Follows last b) (hc : K.Commits (pre++[last]) b) : Reached spec (pre++[last]++[b])

variable {K} {t : Tries} {db : Db P} {b : BlockInput P}

def registered (db : Db P) (u : StateUpdates) (number : Nat) : StateUpdates :=
  if storedBlockHashBuffer≤number then
    u.withBlockHash (number-storedBlockHashBuffer)
      ((db.get .blockHashes (number-storedBlockHashBuffer)).getD 0)
  else u

theorem updateBlockHashRegistryContract_ok (u : StateUpdates) (number : Nat) :
    updateBlockHashRegistryContract none u number db=.ok (registered db u number) db := by
  unfold updateBlockHashRegistryContract registered
  split <;> rfl

theorem Ready.commit_ok {ε : Type} (h : K.Ready t db) (b : UncommittedBlock P) :
    (K.commit (K.provider {} {}) b : CallM P ε _) db=
      .ok (K.sealBlock b (K.stateRoot
        ((K.tries .contracts).root
          (t.after K.hashes K.tries (db.get .contractInfo) b.stateUpdates).contracts)
        ((K.tries .classes).root
          (t.after K.hashes K.tries (db.get .contractInfo) b.stateUpdates).classes)))
        (updateTries K.hashes K.tries K.codecs b.header.number b.stateUpdates t db) := by
  obtain ⟨db₁,h₁,h₂⟩ := h.trieInserts b.header.number b.stateUpdates
  simp only [commit,computeNewStateRoot,bind,EStateM.bind,expect_ok h₁,expect_ok h₂]
  rfl

theorem Ready.commits {blocks : List (BlockInput P)} (h : K.Ready t (K.chain blocks))
    (hroot : b.header.stateRoot=K.stateRoot
      ((K.tries .contracts).root (K.triesAfter b t (K.chain blocks)).contracts)
      ((K.tries .classes).root (K.triesAfter b t (K.chain blocks)).classes)) :
    K.Commits blocks b :=
  ⟨_,_,h.extend_ok (h.chain_insert b),hroot⟩

section Mine
variable {blocks : List (BlockInput P)} {parent : Felt}

theorem doMineBlock_ok (K : Backend P) (hp : latestHash (K.chain blocks)=.ok parent)
    (blockEnv : BlockEnv) (output : ExecutionOutput K) :
    ∃ b outcome, K.doMineBlock {} blockEnv output (K.chain blocks)=
        .ok outcome (K.chain (blocks++[b])) ∧
      b.number=blockEnv.number ∧
      b.updates=registered (K.chain blocks) output.states.stateUpdates b.number ∧
      b.header.parentHash=parent ∧ b.hash=b.header.computeHash K.hashes ∧
      K.Commits blocks b ∧ outcome.blockNumber=b.number ∧ b.header.blockEnv=blockEnv := by
  obtain ⟨t,ht⟩ := chain_ready K blocks
  let u := registered (K.chain blocks) output.states.stateUpdates blockEnv.number
  let ub := { K.uncommitted (partialHeader blockEnv parent) output with stateUpdates := u }
  let t' := t.after K.hashes K.tries ((K.chain blocks).get .contractInfo) u
  let block := K.sealBlock ub (K.stateRoot ((K.tries .contracts).root t'.contracts)
    ((K.tries .classes).root t'.classes))
  let b := K.blockInput block .acceptedOnL2 u output
  have hcommit : K.commitBlock {} (K.uncommitted (partialHeader blockEnv parent) output)
      (K.chain blocks)=.ok (block,u) (K.withTries b t (K.chain blocks)) := by
    exact (bind_ok (mapErr_ok (updateBlockHashRegistryContract_ok _ _) _) _).trans
      (bind_ok (ht.commit_ok ub) _)
  have hproduce : K.produceBlock {} blockEnv output (K.chain blocks)=
      .ok b (K.withTries b t (K.chain blocks)) := by
    unfold produceBlock
    rw [bind_ok (mapErr_ok (fallible_ok hp) _),bind_ok hcommit]
    rfl
  refine ⟨b,⟨b.number,b.body.map (fun tx => tx.hash),output.stats⟩,?_,rfl,rfl,rfl,rfl,
    ht.commits rfl,rfl,rfl⟩
  unfold doMineBlock
  rw [bind_ok hproduce,bind_ok (storeBlock_ok (ht.chain_insert b))]
  rfl

end Mine

/-- The headers after the blocks: the last block of a number counts. -/
def HeaderTable (blocks : List (BlockInput P)) (db : Db P) : Prop :=
  ∀ n, db.get .headers n=(blocks.reverse.find? (fun b => decide (b.number=n))).map
    (fun b => VersionedHeader.ofHeader b.header)

theorem chain_tables (K : Backend P) (blocks : List (BlockInput P)) :
    NumberTables blocks (K.chain blocks) ∧ HeaderTable blocks (K.chain blocks) := by
  induction blocks using List.reverseRecOn with
  | nil => exact ⟨⟨fun _ => rfl,fun _ => rfl⟩,fun _ => rfl⟩
  | append_singleton blocks b ih =>
    obtain ⟨t,ht⟩ := chain_ready K blocks
    have hins := (insert_spec (ht.chain_insert b) (insertBlockTx_inserted ht.withTries_decodes)).1
    have hsame : ∀ {t' : Table}, t'∉trieTables → ∀ k,
        (K.withTries b t (K.chain blocks)).get t' k=(K.chain blocks).get t' k :=
      fun hm k => withTries_agree.get hm k
    have hnum : NumberTables blocks (K.withTries b t (K.chain blocks)) :=
      ⟨fun n => (hsame (by decide) n).trans (ih.1.hashes n),
        fun h => (hsame (by decide) h).trans (ih.1.numbers h)⟩
    refine ⟨hnum.insert hins,fun n => ?_⟩
    rw [hins.get _ (by decide),hsame (by decide),ih.2 n]
    by_cases hn : b.number=n <;> simp [insertPuts,ChangeLog.latest,hn,BlockInput.header]

theorem stateRep_of_agree {C : Codecs} {blocks : List (BlockInput P)} {db db' : Db P}
    (h : StateRep C blocks db) (ha : Agree trieTables trieHistories db db') :
    StateRep C blocks db' := by
  have hs : StorageIndexed C (storageLog blocks) db' :=
    h.storage.indexed.of_agree ha (by decide) (by decide)
  have hc : ContractIndexed C (classLog blocks) (nonceLog blocks) db' :=
    h.contracts.indexed.of_agree ha (by decide) (by decide) (by decide)
  exact ⟨⟨hs,h.storage.holds.of_agree ha (by decide)⟩,
    ⟨hc.classIndex,hc.nonceIndex,fun a => (ha.get (by decide) a).trans (h.contracts.info a)⟩⟩

theorem chain_rep (K : Backend P) {blocks : List (BlockInput P)} (h : Increasing blocks) :
    StateRep K.codecs blocks (K.chain blocks) := by
  induction blocks using List.reverseRecOn with
  | nil => exact ⟨StorageRep.empty _,ContractRep.empty _⟩
  | append_singleton blocks b ih =>
    obtain ⟨t,ht⟩ := chain_ready K blocks
    have hrep : StateRep K.codecs blocks (K.withTries b t (K.chain blocks)) :=
      stateRep_of_agree (ih ((increasing_concat blocks b).mp h).1) withTries_agree
    exact insert_spec (ht.chain_insert b) (hrep.insert h)

section Reached
variable {G : GenesisClasses P} {execute : Rollup.ChainSpec P → Except String (ExecutionOutput K)}
    {pre : List (BlockInput P)} {last : BlockInput P}
  {spec : ChainSpec P} {blocks : List (BlockInput P)}

theorem Reached.increasing (h : K.Reached G execute spec blocks) : Increasing blocks := by
  induction h with
  | genesis => simp [Increasing]
  | @mined pre last b _ hf _ ih =>
    refine (increasing_concat _ _).mpr ⟨ih,?_⟩
    intro c hc
    have hle : c.number≤last.number := Increasing.le_of_mem ih hc
    rw [hf.number]
    omega

theorem Reached.commits (h : K.Reached G execute spec blocks) {post : List (BlockInput P)}
    (hb : blocks=pre++b::post) : K.Commits pre b := by
  induction h generalizing post with
  | genesis _ hc =>
    cases pre with
    | nil =>
      cases hb
      exact hc
    | cons c rest => simp at hb
  | @mined pre' last c _ _ hc ih =>
    cases post using List.reverseRecOn with
    | nil =>
      obtain ⟨rfl,hcb⟩ := List.append_inj' hb rfl
      cases hcb
      exact hc
    | append_singleton post d =>
      have hsplit : pre++b::(post++[d])=(pre++b::post)++[d] := by simp
      obtain ⟨hpre,_⟩ := List.append_inj' (hb.trans hsplit) rfl
      exact ih hpre

theorem find_of_mem (hinc : Increasing blocks) (hb : b∈blocks) :
    blocks.reverse.find? (fun c => decide (c.number=b.number))=some b := by
  obtain ⟨pre,post,rfl⟩ := List.append_of_mem hb
  have hnone : post.reverse.find? (fun c => decide (c.number=b.number))=none := by
    refine List.find?_eq_none.mpr (fun c hc => ?_)
    have hlt := hinc.lt_of_mem (List.mem_reverse.mp hc)
    simp only [decide_eq_true_eq]
    omega
  simp [List.find?_append,hnone]

theorem chain_hash (hinc : Increasing blocks) (hb : b∈blocks) :
    (K.chain blocks).get .blockHashes b.number=some b.hash := by
  rw [(chain_tables K blocks).1.hashes,find_of_mem hinc hb]
  rfl

theorem chain_header (hinc : Increasing blocks) (hb : b∈blocks) :
    (K.chain blocks).get .headers b.number=some (VersionedHeader.ofHeader b.header) := by
  rw [(chain_tables K blocks).2,find_of_mem hinc hb]
  rfl

theorem mem_of_hash {n : Nat} {hash : Felt} (h : (K.chain blocks).get .blockHashes n=some hash) :
    ∃ b∈blocks, b.number=n ∧ b.hash=hash := by
  rw [(chain_tables K blocks).1.hashes] at h
  obtain ⟨b,hb,rfl⟩ := Option.map_eq_some_iff.mp h
  exact ⟨b,List.mem_reverse.mp (List.mem_of_find?_eq_some hb),by simpa using List.find?_some hb,rfl⟩

theorem mem_of_header {n : Nat} {h : VersionedHeader}
    (hn : (K.chain blocks).get .headers n=some h) :
    ∃ b∈blocks, b.number=n ∧ h=VersionedHeader.ofHeader b.header := by
  rw [(chain_tables K blocks).2] at hn
  obtain ⟨b,hb,rfl⟩ := Option.map_eq_some_iff.mp hn
  exact ⟨b,List.mem_reverse.mp (List.mem_of_find?_eq_some hb),by simpa using List.find?_some hb,rfl⟩

theorem chain_latestHash (hinc : Increasing (pre++[last])) :
    latestNumber (K.chain (pre++[last]))=.ok last.number ∧
      latestHash (K.chain (pre++[last]))=.ok last.hash := by
  have hlatest := (chain_tables K (pre++[last])).1.latestNumber hinc
  refine ⟨hlatest,?_⟩
  simp only [latestHash,hlatest,blockHashByNum,chain_hash (K := K) hinc (b := last) (by simp),okOr,
    bind,Except.bind]

def pinned (db : Db P) (b : BlockInput P) (post : List (BlockInput P)) : StateProvider P :=
  match post with
  | [] => .latest db
  | _::_ => .historical db b.number

theorem historical_chain {post : List (BlockInput P)} (hinc : Increasing (pre++b::post)) :
    historical (K.chain (pre++b::post)) (.num b.number)=
      .ok (some (pinned (K.chain (pre++b::post)) b post)) := by
  have hnames : Names (.num b.number) b post := Or.inl rfl
  rcases (chain_tables K (pre++b::post)).1.of_names hinc hnames with
    ⟨hr,hn⟩ | ⟨hr,_,tip,hn,hlt⟩ | ⟨_,he,_⟩
  · obtain rfl : post=[] := hr.2
    simp [historical,hn,pinned]
  · cases post with
    | nil => exact absurd ⟨rfl,rfl⟩ hr
    | cons c rest => simp [historical,hn,hlt,pinned]
  · cases he

theorem chain_blockEnv (hinc : Increasing blocks) (hb : b∈blocks) :
    ∃ env, blockEnvAt (K.chain blocks) (.num b.number)=.ok (some env) ∧ env.number=b.number :=
  ⟨b.header.blockEnv,blockEnvAt_num (chain_header hinc hb),rfl⟩

theorem Reached.exists_last (h : K.Reached G execute spec blocks) :
    ∃ pre last, blocks=pre++[last] := by
  cases h with
  | genesis => exact ⟨[],_,rfl⟩
  | mined => exact ⟨_,_,rfl⟩

theorem IsGenesis.number (h : K.IsGenesis G execute b spec) : b.number=spec.number := by
  cases spec with
  | dev cs | rollup cs => exact h.1

theorem Reached.last_number (h : K.Reached G execute spec (pre++[last])) :
    last.number=spec.number+pre.length := by
  generalize hblocks : pre++[last]=blocks at h
  induction h generalizing pre last with
  | genesis hg =>
    obtain ⟨rfl,hb⟩ := List.append_inj' (hblocks.trans (List.nil_append _).symm) rfl
    cases hb
    exact hg.number
  | mined _ hf _ ih =>
    obtain ⟨rfl,hb⟩ := List.append_inj' hblocks rfl
    cases hb
    rw [hf.number,ih rfl,List.length_append]
    rfl

theorem mineNext_ok (hinc : Increasing (pre++[last])) (hlt : last.number+1<2^64)
    (step : MiningStep K) :
    ∃ b outcome, K.mineNext step (K.chain (pre++[last]))=
        .ok outcome (K.chain (pre++[last]++[b])) ∧
      K.Follows last b ∧ K.Commits (pre++[last]) b ∧
      b.updates=registered (K.chain (pre++[last])) step.output.states.stateUpdates b.number := by
  obtain ⟨hnum,hhash⟩ := chain_latestHash (K := K) hinc
  obtain ⟨env,henv,hn⟩ := chain_blockEnv (K := K) hinc (b := last) (by simp)
  obtain ⟨b,outcome,hmine,hb,hupdates,hparent,hsealed,hcommits,-⟩ :=
    doMineBlock_ok K hhash (updateBlockEnv step.context env) step.output
  refine ⟨b,outcome,?_,⟨?_,hparent,hsealed⟩,hcommits,hupdates⟩
  · unfold Backend.mineNext
    rw [bind_ok (mapErr_ok (fallible_ok hnum) _),bind_ok (mapErr_ok (fallible_ok henv) _)]
    exact hmine
  · rw [hb,updateBlockEnv,hn,Nat.mod_eq_of_lt hlt]

theorem Reached.mineNext (h : K.Reached G execute spec blocks)
    (hlt : spec.number+blocks.length<2^64) (step : MiningStep K) :
    ∃ b outcome, K.mineNext step (K.chain blocks)=.ok outcome (K.chain (blocks++[b])) ∧
      K.Reached G execute spec (blocks++[b]) ∧ b.number<2^64 ∧
      b.updates=registered (K.chain blocks) step.output.states.stateUpdates b.number := by
  obtain ⟨pre,last,rfl⟩ := h.exists_last
  have hlast : last.number+1<2^64 := by
    rw [h.last_number]
    simpa [Nat.add_assoc] using hlt
  obtain ⟨b,outcome,hmine,hfollows,hcommits,hupdates⟩ := mineNext_ok h.increasing hlast step
  exact ⟨b,outcome,hmine,.mined h hfollows hcommits,hfollows.number ▸ hlast,hupdates⟩

end Reached

section Genesis
variable {G : GenesisClasses P} {execute : Rollup.ChainSpec P → Except String (ExecutionOutput K)}
  {spec : ChainSpec P}

theorem createDevGenesis_ok (cs : Dev.ChainSpec P) {states : StateUpdatesWithClasses P}
    (h : cs.stateUpdates G=.ok states) (blocks : List (BlockInput P)) :
    ∃ b, K.createDevGenesis {} cs states (K.chain blocks)=.ok () (K.chain (blocks++[b])) ∧
      K.IsGenesis G execute b (.dev cs) ∧ K.Commits blocks b := by
  obtain ⟨t,ht⟩ := chain_ready K blocks
  let t' := t.after K.hashes K.tries ((K.chain blocks).get .contractInfo) states.stateUpdates
  let root := K.stateRoot ((K.tries .contracts).root t'.contracts)
    ((K.tries .classes).root t'.classes)
  let b : BlockInput P := ⟨⟨⟨cs.header.computeHash K.hashes,{ cs.header with stateRoot := root },[]⟩,
    .acceptedOnL1⟩,states,[],[]⟩
  refine ⟨b,?_,⟨rfl,rfl,rfl,h⟩,ht.commits rfl⟩
  obtain ⟨db₁,h₁,h₂⟩ := ht.trieInserts b.number b.updates
  exact (bind_ok (mapErr_ok h₁ _) _).trans ((bind_ok (mapErr_ok h₂ _) _).trans
    (storeBlock_ok (ht.chain_insert b)))

theorem blockHash_read {db : Db P} {n : Nat} {hash : Option Felt}
    (h : db.get .blockHashes n=hash) {ε : Type} (f : ProviderError → ε) :
    mapErr f (fallible none (fun db => blockHashByNum db n)) db=.ok hash db := by
  subst h
  rfl

theorem initDevGenesis_ok {cs : Dev.ChainSpec P} {states : StateUpdatesWithClasses P}
    (h : cs.stateUpdates G=.ok states) {db : Db P}
    (hn : db.get .blockHashes cs.genesis.number=none) :
    K.initDevGenesis G {} cs db=K.createDevGenesis {} cs states db := by
  unfold initDevGenesis
  rw [bind_ok (blockHash_read hn _)]
  simp only [h]

theorem initDevGenesis_panics {cs : Dev.ChainSpec P} {message : String}
    (h : cs.stateUpdates G=.error message) {db : Db P}
    (hn : db.get .blockHashes cs.genesis.number=none) :
    K.initDevGenesis G {} cs db=.error (.panic message) db := by
  unfold initDevGenesis
  rw [bind_ok (blockHash_read hn _)]
  simp only [h]
  rfl

theorem createRollupGenesis_ok (cs : Rollup.ChainSpec P) {output : ExecutionOutput K}
    (h : execute cs=.ok output) :
    ∃ b, K.initRollupGenesis execute {} cs Db.empty=.ok () (K.chain [b]) ∧
      K.IsGenesis G execute b (.rollup cs) ∧ K.Commits [] b := by
  have ht : K.Ready {} (K.chain []) := Ready.empty
  let ub := K.uncommitted cs.header output
  let t' := Tries.after K.hashes K.tries ((K.chain []).get .contractInfo) ub.stateUpdates {}
  let block := K.sealBlock ub (K.stateRoot ((K.tries .contracts).root t'.contracts)
    ((K.tries .classes).root t'.classes))
  let b := K.blockInput block .acceptedOnL2 output.states.stateUpdates output
  refine ⟨b,?_,⟨rfl,rfl,output,h,rfl⟩,ht.commits rfl⟩
  unfold initRollupGenesis
  simp only [h]
  exact (bind_ok (ht.commit_ok ub) _).trans (storeBlock_ok (ht.chain_insert b))

theorem initGenesis_reached {db : Db P} (h : K.initGenesis G execute {} spec Db.empty=.ok () db) :
    ∃ b, db=K.chain [b] ∧ K.Reached G execute spec [b] := by
  cases spec with
  | dev cs =>
    rw [initGenesis] at h
    cases hs : cs.stateUpdates G with
    | error message =>
      rw [initDevGenesis_panics hs rfl] at h
      cases h
    | ok states =>
      obtain ⟨b,hb,hg,hc⟩ := createDevGenesis_ok (K := K) cs hs []
      have he : K.initDevGenesis G {} cs Db.empty=.ok () (K.chain [b]) :=
        (initDevGenesis_ok hs rfl).trans hb
      rw [he,EStateM.Result.ok.injEq] at h
      exact ⟨b,h.2.symm,.genesis hg hc⟩
  | rollup cs =>
    cases ho : execute cs with
    | error message =>
      rw [initGenesis,initRollupGenesis,ho] at h
      cases h
    | ok output =>
      obtain ⟨b,hb,hg,hc⟩ := createRollupGenesis_ok (K := K) (G := G) cs ho
      rw [initGenesis,hb,EStateM.Result.ok.injEq] at h
      exact ⟨b,h.2.symm,.genesis hg hc⟩

theorem runChain_rule {I : List (BlockInput P) → Prop}
    (h : K.initGenesis G execute {} spec Db.empty=.ok () (K.chain [b]))
    (hb : K.Reached G execute spec [b]) (hI : I [b]) (steps : List (MiningStep K))
    (hlt : spec.number+steps.length<2^64)
    (hstep : ∀ step∈steps, ∀ blocks c, K.Reached G execute spec blocks →
      K.Reached G execute spec (blocks++[c]) → c.number<2^64 → I blocks →
      c.updates=registered (K.chain blocks) step.output.states.stateUpdates c.number →
      I (blocks++[c])) :
    ∃ blocks, K.runChain G execute spec steps Db.empty=.ok () (K.chain blocks) ∧
      K.Reached G execute spec blocks ∧ I blocks := by
  have hsteps : ∀ steps' : List (MiningStep K), steps'⊆steps → ∀ blocks : List (BlockInput P),
      K.Reached G execute spec blocks → spec.number+blocks.length+steps'.length≤2^64 → I blocks →
      ∃ blocks',
        (steps'.forM (fun step => do
          let _ ← mapErr .production (K.mineNext step)
          return ()) : CallM P GenesisError Unit) (K.chain blocks)=.ok () (K.chain blocks') ∧
        K.Reached G execute spec blocks' ∧ I blocks' := by
    intro steps'
    induction steps' with
    | nil => exact fun _ blocks hb _ hI => ⟨blocks,rfl,hb,hI⟩
    | cons step steps' ih =>
      intro hsub blocks hb hle hI
      rw [List.length_cons] at hle
      obtain ⟨c,outcome,hmine,hb',hc,hupdates⟩ := hb.mineNext (by omega) step
      obtain ⟨blocks',hrest,hb''⟩ := ih (fun s hs => hsub (List.mem_cons_of_mem step hs)) _ hb'
        (by rw [List.length_append,List.length_singleton]; omega)
        (hstep step (hsub (by simp)) blocks c hb hb' hc hI hupdates)
      refine ⟨blocks',?_,hb''⟩
      have hone : (do
          let _ ← mapErr .production (K.mineNext step)
          return () : CallM P GenesisError Unit) (K.chain blocks)=.ok () (K.chain (blocks++[c])) :=
        bind_ok (mapErr_ok hmine _) _
      exact (bind_ok hone _).trans hrest
  obtain ⟨blocks,hrun,hblocks⟩ := hsteps steps (fun _ hs => hs) [b] hb
    (by rw [List.length_singleton]; omega) hI
  exact ⟨blocks,(bind_ok h _).trans hrun,hblocks⟩

theorem runChain_reached {db : Db P} (h : K.initGenesis G execute {} spec Db.empty=.ok () db)
    {steps : List (MiningStep K)} (hlt : spec.number+steps.length<2^64) :
    ∃ blocks, K.runChain G execute spec steps Db.empty=.ok () (K.chain blocks) ∧
      K.Reached G execute spec blocks := by
  obtain ⟨b,rfl,hb⟩ := initGenesis_reached h
  obtain ⟨blocks,hrun,hblocks,_⟩ := runChain_rule (I := fun _ => True) h hb trivial steps hlt
    (fun _ _ _ _ _ _ _ _ _ => trivial)
  exact ⟨blocks,hrun,hblocks⟩

end Genesis
end Backend
end Katana
