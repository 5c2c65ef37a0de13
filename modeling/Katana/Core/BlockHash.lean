import Katana.Core.Chain

/-! What the stored hashes identify: the header of every block, and the genesis that a
database was initialised with. -/
namespace Katana
variable {P : Payloads}

namespace Backend
variable {K : Backend P} {G : GenesisClasses P}
  {execute : Rollup.ChainSpec P → Except String (ExecutionOutput K)} {spec : ChainSpec P}
  {blocks : List (BlockInput P)} {steps : List (MiningStep K)} {db : Db P}

theorem chain_of_run (h : K.runChain G execute spec steps Db.empty=.ok () db)
    (hlt : spec.number+steps.length<2^64) :
    ∃ blocks, db=K.chain blocks ∧ K.Reached G execute spec blocks := by
  obtain ⟨_,_,hgenesis,_⟩ := bind_eq_ok h
  obtain ⟨blocks,hrun,hblocks⟩ := runChain_reached hgenesis hlt
  rw [h,EStateM.Result.ok.injEq] at hrun
  exact ⟨blocks,hrun.2,hblocks⟩

section Headers

/-- Every stored hash is the hash of the stored header, and the parent hash of the next. -/
structure HashesIdentify (K : Backend P) (db : Db P) : Prop where
  header : ∀ n hash, db.get .blockHashes n=some hash →
    ∃ h, db.get .headers n=some h ∧ hash=h.toHeader.computeHash K.hashes
  parent : ∀ n hash h, db.get .blockHashes n=some hash → db.get .headers (n+1)=some h →
    h.toHeader.parentHash=hash

def genesisRoot (K : Backend P) (u : StateUpdates) : Felt :=
  let t := Tries.after K.hashes K.tries (fun _ => none) u {}
  K.stateRoot ((K.tries .contracts).root t.contracts) ((K.tries .classes).root t.classes)

/-- The hash of the genesis is that of the header it is stored with. -/
def GenesisSealed (K : Backend P) (G : GenesisClasses P) : ChainSpec P → Prop
  | .dev cs => ∀ states, cs.stateUpdates G=.ok states →
      cs.header.computeHash K.hashes=
        { cs.header with stateRoot := K.genesisRoot states.stateUpdates }.computeHash K.hashes
  | .rollup _ => True

theorem Commits.genesisRoot {b : BlockInput P} (h : K.Commits [] b) :
    b.header.stateRoot=K.genesisRoot b.updates := by
  obtain ⟨classRoot,contractRoot,he,hroot⟩ := h
  have ht : K.Ready {} (K.chain []) := Ready.empty
  rw [ht.extend_ok (ht.chain_insert b),EStateM.Result.ok.injEq,Prod.mk.injEq] at he
  rw [hroot,← he.1.1,← he.1.2]
  rfl

theorem Reached.head (h : K.Reached G execute spec blocks) :
    ∃ g rest, blocks=g::rest ∧ K.IsGenesis G execute g spec ∧ K.Commits [] g ∧
      ∀ b∈rest, b.hash=b.header.computeHash K.hashes := by
  induction h with
  | genesis hg hc => exact ⟨_,[],rfl,hg,hc,by simp⟩
  | @mined pre last b _ hf _ ih =>
    obtain ⟨g,rest,hb,hg,hc,hrest⟩ := ih
    refine ⟨g,rest++[b],by rw [hb]; rfl,hg,hc,?_⟩
    intro c hc
    rcases List.mem_append.mp hc with hc | hc
    · exact hrest c hc
    · rw [List.mem_singleton.mp hc]
      exact hf.hash

theorem Reached.parents (h : K.Reached G execute spec blocks) {c d : BlockInput P}
    (hc : c∈blocks) (hd : d∈blocks) (hn : d.number=c.number+1) : d.header.parentHash=c.hash := by
  induction h with
  | genesis =>
    rw [List.mem_singleton.mp hc,List.mem_singleton.mp hd] at hn
    omega
  | @mined pre last b h hf _ ih =>
    have hle : ∀ x∈pre++[last], x.number≤last.number :=
      fun x hx => Increasing.le_of_mem h.increasing hx
    rcases List.mem_append.mp hc with hc' | hc
    · rcases List.mem_append.mp hd with hd | hd
      · exact ih hc' hd
      · rw [List.mem_singleton.mp hd] at hn ⊢
        have hlast : c.number=last.number := by
          have := hf.number
          omega
        have hfind := find_of_mem h.increasing hc'
        rw [hlast,find_of_mem h.increasing (b := last) (by simp)] at hfind
        rw [hf.parent,Option.some.inj hfind]
    · rw [List.mem_singleton.mp hc] at hn
      have hdle : d.number≤b.number := by
        rcases List.mem_append.mp hd with hd | hd
        · have := hle d hd
          have := hf.number
          omega
        · rw [List.mem_singleton.mp hd]
      omega

theorem genesisSealed_iff {g : BlockInput P} (hg : K.IsGenesis G execute g spec)
    (hc : K.Commits [] g) :
    g.hash=g.header.computeHash K.hashes ↔ K.GenesisSealed G spec := by
  cases spec with
  | rollup cs => exact iff_of_true hg.2.1 trivial
  | dev cs =>
    obtain ⟨_,hhash,hheader,hstates⟩ := hg
    rw [hhash,hheader,hc.genesisRoot]
    constructor
    · intro h states hs
      rw [hstates] at hs
      cases hs
      exact h
    · intro h
      exact h g.states hstates

/-- The hashes of a chain identify its headers exactly when the genesis is sealed over the
header that it is stored with. -/
theorem hashes_identify_iff (h : K.runChain G execute spec steps Db.empty=.ok () db)
    (hlt : spec.number+steps.length<2^64) :
    K.HashesIdentify db ↔ K.GenesisSealed G spec := by
  obtain ⟨blocks,rfl,hblocks⟩ := chain_of_run h hlt
  obtain ⟨g,rest,hsplit,hg,hc,hrest⟩ := hblocks.head
  have hinc := hblocks.increasing
  have hmem : g∈blocks := by simp [hsplit]
  rw [← genesisSealed_iff hg hc]
  constructor
  · intro hid
    obtain ⟨header,hheader,hhash⟩ := hid.header g.number g.hash (chain_hash hinc hmem)
    rw [chain_header hinc hmem] at hheader
    cases hheader
    exact hhash
  · intro hsealed
    refine ⟨?_,?_⟩
    · intro n hash hn
      obtain ⟨b,hb,rfl,rfl⟩ := mem_of_hash hn
      refine ⟨_,chain_header hinc hb,?_⟩
      rw [hsplit] at hb
      rcases List.mem_cons.mp hb with rfl | hb
      · exact hsealed
      · exact hrest b hb
    · intro n hash header hn hheader
      obtain ⟨c,hc,rfl,rfl⟩ := mem_of_hash hn
      obtain ⟨d,hd,hdn,rfl⟩ := mem_of_header hheader
      exact hblocks.parents hc hd hdn

def plainClasses : GenesisClasses unitPayloads where
  isLegacy _ := true
  casmHash _ := none
  legacyErc20Class := ()
  legacyUdcClass := ()
  feeTokenBalanceBaseStorageAddress a := a

def noRollup (_ : Rollup.ChainSpec unitPayloads) : Except String (ExecutionOutput plainBackend) :=
  .error "no rollup"

/-- Nothing is allocated, and the state root is left at zero. -/
def emptySpec : Dev.ChainSpec unitPayloads := ⟨{}⟩

def emptyStates : StateUpdatesWithClasses unitPayloads :=
  Dev.addDefaultUdc plainClasses (Dev.addDefaultFeeTokens plainClasses ⟨{},∅⟩ emptySpec.genesis)

/-- The specification that names the root of its own tries. -/
def rootedSpec : Dev.ChainSpec unitPayloads :=
  ⟨{ emptySpec.genesis with stateRoot := plainBackend.genesisRoot emptyStates.stateUpdates }⟩

def emptyStep : MiningStep plainBackend where
  context := ⟨7,⟨1,1⟩,⟨1,1⟩⟩
  output := { states := ⟨{},∅⟩ }

section
variable {cs : Dev.ChainSpec unitPayloads} {states : StateUpdatesWithClasses unitPayloads}
  (h : cs.stateUpdates plainClasses=.ok states)
include h

theorem plainGenesis : ∃ b, plainBackend.initGenesis plainClasses noRollup {} (.dev cs) Db.empty=
        .ok () (plainBackend.chain [b]) ∧
      plainBackend.IsGenesis plainClasses noRollup b (.dev cs) ∧ plainBackend.Commits [] b := by
  have hcreate : ∃ b, plainBackend.createDevGenesis {} cs states (plainBackend.chain [])=
      .ok () (plainBackend.chain [b]) ∧ plainBackend.IsGenesis plainClasses noRollup b (.dev cs) ∧
      plainBackend.Commits [] b := createDevGenesis_ok cs h []
  obtain ⟨b,hb,hg⟩ := hcreate
  exact ⟨b,(initDevGenesis_ok h rfl).trans hb,hg⟩

theorem plainRun (steps : List (MiningStep plainBackend))
    (hlt : cs.genesis.number+steps.length<2^64) :
    ∃ blocks, plainBackend.runChain plainClasses noRollup (.dev cs) steps Db.empty=
        .ok () (plainBackend.chain blocks) ∧
      plainBackend.Reached plainClasses noRollup (.dev cs) blocks := by
  obtain ⟨b,hinit,_⟩ := plainGenesis h
  exact runChain_reached hinit hlt

end

/-- Any chain can be mined on and keeps its blocks. -/
theorem mineNext_appends (h : K.runChain G execute spec steps Db.empty=.ok () db)
    (hlt : spec.number+steps.length<2^64) (step : MiningStep K) :
    ∃ tip, latestNumber db=.ok tip ∧ (tip+1<2^64 → ∃ outcome db',
      K.mineNext step db=.ok outcome db' ∧ latestNumber db'=.ok (tip+1) ∧ ∀ n≠tip+1,
        db'.get .blockHashes n=db.get .blockHashes n ∧ db'.get .headers n=db.get .headers n) := by
  obtain ⟨_,rfl,hr⟩ := chain_of_run h hlt
  obtain ⟨_,_,rfl⟩ := hr.exists_last
  refine ⟨_,(chain_latestHash hr.increasing).1,fun htip => ?_⟩
  obtain ⟨_,_,hmine,hf,hc,-⟩ := mineNext_ok hr.increasing htip step
  have hnew := (chain_latestHash (K := K) (hr.mined hf hc).increasing).1
  rw [hf.number] at hnew
  refine ⟨_,_,hmine,hnew,fun n hn => ?_⟩
  simp [(chain_tables K _).1.hashes,(chain_tables K _).2 _,hf.number,hn.symm]

theorem genesis_mined_on : ∃ db out db', latestNumber db=.ok 0 ∧
    plainBackend.mineNext emptyStep db=.ok out db' ∧ latestNumber db'=.ok 1 ∧
    ∀ n≠1, db'.get .blockHashes n=db.get .blockHashes n ∧
      db'.get .headers n=db.get .headers n := by
  have hstates : emptySpec.stateUpdates plainClasses=.ok emptyStates := rfl
  obtain ⟨b,hinit,hg,_⟩ := plainGenesis hstates
  have hrun : plainBackend.runChain plainClasses noRollup (.dev emptySpec) [] Db.empty=
      .ok () (plainBackend.chain [b]) := bind_ok hinit _
  obtain ⟨tip,htip,hmine⟩ := mineNext_appends hrun (by decide) emptyStep
  have hinc : Increasing ([]++[b]) := by simp [Increasing]
  have hb : latestNumber (plainBackend.chain [b])=.ok b.number := (chain_latestHash hinc).1
  obtain rfl : b.number=tip := Except.ok.inj (hb.symm.trans htip)
  have hzero : b.number=0 := hg.1
  rw [hzero] at htip hmine
  obtain ⟨out,db',hmined⟩ := hmine (by decide)
  exact ⟨_,out,db',htip,hmined⟩

theorem hashes_identify_rooted :
    ∃ db, plainBackend.runChain plainClasses noRollup (.dev rootedSpec) [emptyStep] Db.empty=
        .ok () db ∧ plainBackend.HashesIdentify db := by
  have hstates : rootedSpec.stateUpdates plainClasses=.ok emptyStates := rfl
  obtain ⟨blocks,hrun,_⟩ := plainRun hstates [emptyStep] (by decide)
  refine ⟨_,hrun,(hashes_identify_iff hrun (by decide)).mpr ?_⟩
  intro states hs
  rw [hstates] at hs
  cases hs
  rfl

/-- The dev genesis is stored under the hash of a header with state root zero. -/
theorem hash_of_other_header :
    ∃ db hash header, plainBackend.runChain plainClasses noRollup (.dev emptySpec) [] Db.empty=
        .ok () db ∧
      db.get .blockHashes 0=some hash ∧ db.get .headers 0=some header ∧
      hash≠header.toHeader.computeHash plainBackend.hashes := by
  have hstates : emptySpec.stateUpdates plainClasses=.ok emptyStates := rfl
  obtain ⟨blocks,hrun,hblocks⟩ := plainRun hstates [] (by decide)
  obtain ⟨g,rest,hsplit,⟨hn,hhash,hheader,hg⟩,hc,_⟩ := hblocks.head
  have hmem : g∈blocks := by simp [hsplit]
  have hstored := chain_hash (K := plainBackend) hblocks.increasing hmem
  have hstored' := chain_header (K := plainBackend) hblocks.increasing hmem
  rw [hn] at hstored hstored'
  refine ⟨_,_,_,hrun,hstored,hstored',?_⟩
  rw [hstates,Except.ok.injEq] at hg
  have hroot : g.header.stateRoot=plainBackend.genesisRoot emptyStates.stateUpdates := by
    rw [hc.genesisRoot,BlockInput.updates,← hg]
  change g.hash≠g.header.computeHash plainBackend.hashes
  rw [hhash,hheader,hroot]
  decide +kernel

end Headers

section Check
variable {S S' : Dev.ChainSpec P}

/-- The fields have the values of their types, u64 and u128. -/
structure InRange (g : Genesis P) : Prop where
  number : g.number<2^64
  timestamp : g.timestamp<2^64
  eth : g.gasPrices.eth<2^128
  strk : g.gasPrices.strk<2^128

/-- The two specifications write the same header, up to its root, and the same state. -/
structure SameGenesis (G : GenesisClasses P) (S S' : Dev.ChainSpec P) : Prop where
  header : S'.header=S.header
  states : S'.stateUpdates G=S.stateUpdates G

/-- What init_genesis asks of a specification: the hash that is stored under its number, or
classes that compile if there is none. -/
def Admits (K : Backend P) (G : GenesisClasses P) (db : Db P) (cs : Dev.ChainSpec P) : Prop :=
  match db.get .blockHashes cs.genesis.number with
  | some hash => hash=cs.header.computeHash K.hashes
  | none => ∃ states, cs.stateUpdates G=.ok states

theorem initDevGenesis_stored {cs : Dev.ChainSpec P} {hash : Felt}
    (h : db.get .blockHashes cs.genesis.number=some hash) :
    K.initDevGenesis G {} cs db=if hash=cs.header.computeHash K.hashes then .ok () db
      else .error (.err (.hashMismatch (cs.header.computeHash K.hashes) hash)) db := by
  unfold initDevGenesis
  rw [bind_ok (blockHash_read h _)]
  by_cases he : hash=cs.header.computeHash K.hashes
  · have hne : ¬hash≠cs.block.header.computeHash K.hashes := not_not.mpr he
    simp only [if_neg hne,if_pos he]
    rfl
  · have hne : hash≠cs.block.header.computeHash K.hashes := he
    simp only [if_pos hne,if_neg he]
    rfl

theorem initDevGenesis_admits (cs : Dev.ChainSpec P) (blocks : List (BlockInput P)) :
    (∃ db', K.initDevGenesis G {} cs (K.chain blocks)=.ok () db') ↔
      K.Admits G (K.chain blocks) cs := by
  unfold Admits
  cases hn : (K.chain blocks).get .blockHashes cs.genesis.number with
  | some hash =>
    rw [initDevGenesis_stored hn]
    by_cases he : hash=cs.header.computeHash K.hashes <;> simp [he]
  | none =>
    cases hs : cs.stateUpdates G with
    | error message => simp [initDevGenesis_panics hs hn]
    | ok states =>
      have hcreate : ∃ b, K.createDevGenesis {} cs states (K.chain blocks)=
          .ok () (K.chain (blocks++[b])) ∧ K.IsGenesis G (fun _ => .error "") b (.dev cs) ∧
          K.Commits blocks b := createDevGenesis_ok cs hs blocks
      obtain ⟨b,hb,_⟩ := hcreate
      rw [initDevGenesis_ok hs hn,hb]
      simp

theorem Reached.genesisHash (h : K.Reached G execute (.dev S) blocks) :
    (K.chain blocks).get .blockHashes S.genesis.number=some (S.header.computeHash K.hashes) := by
  obtain ⟨g,rest,hsplit,⟨hn,hhash,_⟩,_⟩ := h.head
  have hstored := chain_hash (K := K) h.increasing (b := g) (by simp [hsplit])
  rwa [hn,hhash] at hstored

theorem ofNat_inj {x y : Nat} (hx : x<2^128) (hy : y<2^128) (h : Felt.ofNat x=Felt.ofNat y) :
    x=y := by
  have hprime : 2^128<feltPrime := by decide
  have hv := congrArg Fin.val h
  simp only [Felt.ofNat,Fin.val_ofNat] at hv
  rwa [Nat.mod_eq_of_lt (hx.trans hprime),Nat.mod_eq_of_lt (hy.trans hprime)] at hv

theorem header_eq_of_hashed (hS : InRange S.genesis) (hS' : InRange S'.genesis)
    (h : S'.header.hashed=S.header.hashed) : S'.header=S.header := by
  have hlt : (2:Nat)^64<2^128 := by decide
  simp only [Header.hashed,Dev.ChainSpec.header,List.cons.injEq,true_and,and_true] at h
  obtain ⟨hnumber,hroot,hsequencer,htime,heth,hstrk,_,_,hparent⟩ := h
  have hnumber := ofNat_inj (hS'.number.trans hlt) (hS.number.trans hlt) hnumber
  have htime := ofNat_inj (hS'.timestamp.trans hlt) (hS.timestamp.trans hlt) htime
  have heth := ofNat_inj hS'.eth hS.eth heth
  have hstrk := ofNat_inj hS'.strk hS.strk hstrk
  have hgas : S'.genesis.gasPrices=S.genesis.gasPrices := by
    cases hg : S'.genesis.gasPrices
    cases hg' : S.genesis.gasPrices
    simp_all
  simp only [Dev.ChainSpec.header,hnumber,hroot,hsequencer,htime,hgas,hparent]

/-- The specification of the database is accepted. Another one is accepted wrongly exactly
if it has the same header and another state, or if nothing is stored under its number. -/
theorem genesis_check_iff
    (h : K.runChain G execute (.dev S) steps Db.empty=.ok () db)
    (hlt : (ChainSpec.dev S).number+steps.length<2^64) (hS : InRange S.genesis) (hS' : InRange S'.genesis)
    (hfree : S'.header.computeHash K.hashes=S.header.computeHash K.hashes →
      S'.header.hashed=S.header.hashed) :
    K.initGenesis G execute {} (.dev S) db=.ok () db ∧
    (((∃ db', K.initGenesis G execute {} (.dev S') db=.ok () db') → SameGenesis G S S') ↔
      (S'.genesis.number=S.genesis.number ∧ (S'.header≠S.header ∨ SameGenesis G S S')) ∨
      (S'.genesis.number≠S.genesis.number ∧ ¬K.Admits G db S')) := by
  obtain ⟨blocks,rfl,hblocks⟩ := chain_of_run h hlt
  have hstored := hblocks.genesisHash
  have haccept : (∃ db', K.initGenesis G execute {} (.dev S') (K.chain blocks)=.ok () db') ↔
      K.Admits G (K.chain blocks) S' := initDevGenesis_admits S' blocks
  refine ⟨(initDevGenesis_stored hstored).trans (if_pos rfl),?_⟩
  rw [haccept]
  by_cases hnum : S'.genesis.number=S.genesis.number
  · have hadmits : K.Admits G (K.chain blocks) S' ↔ S'.header=S.header := by
      simp only [Admits,hnum,hstored]
      exact ⟨fun he => header_eq_of_hashed hS hS' (hfree he.symm),fun he => by rw [he]⟩
    rw [hadmits]
    simp only [hnum,true_and,ne_eq,not_true_eq_false,false_and,or_false]
    exact imp_iff_not_or
  · have hne : ¬SameGenesis G S S' := fun hs => hnum (congrArg (fun h => h.number) hs.header)
    simp [hnum,hne]

def fundedSpec : Dev.ChainSpec unitPayloads :=
  ⟨{ allocations := SortedMap.put 5 (.contract { balance := some 1 }) ∅ }⟩

/-- The contracts with an entry of storage in the genesis. -/
def storages (cs : Dev.ChainSpec unitPayloads) : List Felt :=
  match cs.stateUpdates plainClasses with
  | .ok states => states.stateUpdates.storageUpdates.rows.map Prod.fst
  | .error _ => []

def laterSpec : Dev.ChainSpec unitPayloads := ⟨{ timestamp := 1 }⟩

theorem genesis_check_later :
    ∃ db, plainBackend.runChain plainClasses noRollup (.dev emptySpec) [] Db.empty=.ok () db ∧
      plainBackend.initGenesis plainClasses noRollup {} (.dev emptySpec) db=.ok () db ∧
      ((∃ db', plainBackend.initGenesis plainClasses noRollup {} (.dev laterSpec) db=.ok () db') →
        SameGenesis plainClasses emptySpec laterSpec) := by
  have hstates : emptySpec.stateUpdates plainClasses=.ok emptyStates := rfl
  obtain ⟨blocks,hrun,_⟩ := plainRun hstates [] (by decide)
  have hfree : laterSpec.header.computeHash plainBackend.hashes≠
      emptySpec.header.computeHash plainBackend.hashes := by decide +kernel
  have hlater : InRange laterSpec.genesis := ⟨by decide,by decide,by decide,by decide⟩
  have hcheck := genesis_check_iff hrun (by decide) ⟨by decide,by decide,by decide,by decide⟩ hlater
    (fun he => absurd he hfree)
  exact ⟨_,hrun,hcheck.1,hcheck.2.mpr (Or.inl ⟨rfl,Or.inl (by decide)⟩)⟩

/-- The balance is not part of the hash that is compared. -/
theorem genesis_check_funded :
    ∃ db, plainBackend.runChain plainClasses noRollup (.dev emptySpec) [] Db.empty=.ok () db ∧
      plainBackend.initGenesis plainClasses noRollup {} (.dev fundedSpec) db=.ok () db ∧
      ¬SameGenesis plainClasses emptySpec fundedSpec := by
  have hstates : emptySpec.stateUpdates plainClasses=.ok emptyStates := rfl
  obtain ⟨blocks,hrun,hblocks⟩ := plainRun hstates [] (by decide)
  have hheader : fundedSpec.header=emptySpec.header := rfl
  have hstored : (plainBackend.chain blocks).get .blockHashes fundedSpec.genesis.number=
      some (fundedSpec.header.computeHash plainBackend.hashes) := by
    rw [hheader]
    exact hblocks.genesisHash
  have hinit : plainBackend.initDevGenesis plainClasses {} fundedSpec (plainBackend.chain blocks)=
      .ok () (plainBackend.chain blocks) := by rw [initDevGenesis_stored hstored,if_pos rfl]
  refine ⟨_,hrun,hinit,fun hs => ?_⟩
  have hother : storages fundedSpec≠storages emptySpec := by decide +kernel
  exact hother (by unfold storages; rw [hs.states])

end Check
end Backend
end Katana
