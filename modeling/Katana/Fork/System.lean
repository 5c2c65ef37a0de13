import Katana.Fork.State
import Katana.Provider.History

/-! A forked chain over time. State providers are opened and keep their snapshot; a read
through a latest provider that misses fetches the value of the fork block, and its write
transaction comes at any later time; historical() looks the block up in one transaction
and opens the provider in another; local blocks are inserted in between. -/
namespace Katana.Fork
open DbTx
variable {P : Payloads}

inductive StateItem where
  | nonce (address : Felt)
  | classHash (address : Felt)
  | storage (address key : Felt)
  | «class» (hash : Felt)
  | compiledClassHash (hash : Felt)
  deriving DecidableEq, Repr

def writeOf {α : Type} (r : Except ProviderError (Fetched P α)) : Option (CacheWrite P) :=
  match r with
  | .ok fetched => fetched.write?
  | .error _ => none

variable (C : Codecs)

/-- The write a read of the latest state is left with. -/
def LatestStateProvider.fetch (backend : BackendClient P) (snapshot : Db P) :
    StateItem → Option (CacheWrite P)
  | .nonce address => writeOf (nonce C backend snapshot address)
  | .classHash address => writeOf (classHashOfContract C backend snapshot address)
  | .storage address key => writeOf (storage C backend snapshot address key)
  | .class hash => writeOf («class» backend snapshot hash)
  | .compiledClassHash hash => writeOf (compiledClassHashOfClassHash backend snapshot hash)

def HistoricalStateProvider.readDb (backend : BackendClient P) (env env' : TxEnv)
    (snapshot : Db P) (block : Nat) (item : StateItem) (db : Db P) : Db P :=
  match item with
  | .nonce address => (nonce C backend env snapshot block address db).2
  | .classHash address => (classHashOfContract C backend env snapshot block address db).2
  | .storage address key => (storage C backend env env' snapshot block address key db).2
  | .class hash => («class» backend env snapshot block hash db).2
  | .compiledClassHash hash =>
    (compiledClassHashOfClassHash backend env snapshot block hash db).2

/-- A block that historical() has looked up; the tip is answered by latest(). -/
structure BlockRequest where
  block : Nat
  tip : Bool
  deriving DecidableEq, Repr

def resolve (db : Db P) : BlockHashOrNumber → Except ProviderError (Option BlockRequest)
  | .hash hash =>
    match blockNumberByHash db hash with
    | .error e => .error e
    | .ok none => .ok none
    | .ok (some num) => .ok (some ⟨num,false⟩)
  | .num num =>
    match latestNumber db with
    | .error e => .error e
    | .ok latest =>
      if num<latest then .ok (some ⟨num,false⟩)
      else if latest<num then .ok none
      else .ok (some ⟨num,true⟩)

/-- The second half: the provider gets its snapshot. -/
def BlockRequest.open (r : BlockRequest) (db : Db P) : StateProvider P :=
  if r.tip then .latest db else .historical db r.block

structure ForkState (P : Payloads) where
  db : Db P := Db.empty
  blocks : List (BlockInput P) := []
  requests : List BlockRequest := []
  providers : List (StateProvider P) := []
  fetched : List (CacheWrite P) := []

inductive ForkEvent (P : Payloads) where
  | openLatest
  | requestHistorical (id : BlockHashOrNumber)
  | openHistorical (request : Nat)
  | read (provider : Nat) (item : StateItem)
      (down : BackendRequestIdentifier → Option BackendClientError) (env env' : TxEnv)
  | store (write : Nat) (env : TxEnv)
  | insert (b : BlockInput P)

variable (fork : ForkBlock P)

def ForkState.step (s : ForkState P) : ForkEvent P → ForkState P
  | .openLatest => { s with providers := s.providers++[.latest s.db] }
  | .requestHistorical id =>
    match resolve s.db id with
    | .ok (some r) => { s with requests := s.requests++[r] }
    | _ => s
  | .openHistorical request =>
    match s.requests[request]? with
    | some r =>
      { s with
        requests := s.requests.eraseIdx request
        providers := s.providers++[r.open s.db] }
    | none => s
  | .read provider item down env env' =>
    match s.providers[provider]? with
    | some (.latest snapshot) =>
      { s with
        fetched := s.fetched++
          (LatestStateProvider.fetch C (fork.client down) snapshot item).toList }
    | some (.historical snapshot block) =>
      { s with
        db := HistoricalStateProvider.readDb C (fork.client down) env env' snapshot block item
          s.db }
    | none => s
  | .store write env =>
    match s.fetched[write]? with
    | some w =>
      { s with
        db := (update env (w.put C) s.db).2
        fetched := s.fetched.eraseIdx write }
    | none => s
  | .insert b =>
    { s with
      db := (insertBlockWithStatesAndReceipts C {} b s.db).2
      blocks := s.blocks++[b] }

def run (events : List (ForkEvent P)) : ForkState P :=
  events.foldl (ForkState.step C fork) {}

/-- The provider answers for the address and the key the last value that the blocks
wrote, else the value of the fork block. -/
structure Answers (C : Codecs) (fork : ForkBlock P) (p : StateProvider P)
    (blocks : List (BlockInput P)) (a k : Felt) : Prop where
  storage : ∀ db, (storage C fork.up {} {} a k p db).1=
    .ok ((lastStorageWrite blocks a k).or (fork.storage a k))
  nonce : ∀ db, (nonce C fork.up {} a p db).1=
    .ok ((lastNonceUpdate blocks a).or (fork.nonce a))
  classHash : ∀ db, (classHashOfContract C fork.up {} a p db).1=
    .ok ((lastDeployedClass blocks a).or (fork.classHash a))

def CacheWrite.Of : CacheWrite P → Prop
  | .contractInfo a e => fork.info a=some e
  | .contractStorage a e => fork.storage a e.key=some e.value
  | .classes _ _ | .compiledClassHashes _ _ => True

theorem writeOf_fetchMissing {α : Type} {found remote : Except ProviderError (Option α)}
    {write : α → Except ProviderError (CacheWrite P)} {w : CacheWrite P}
    (h : writeOf (fetchMissing found remote write)=some w) :
    ∃ v, remote=.ok (some v) ∧ write v=.ok w := by
  unfold fetchMissing at h
  split at h
  · cases h
  · cases h
  · split at h
    · cases h
    · cases h
    · next v =>
      split at h
      · cases h
      · next w' hw =>
        obtain rfl : w'=w := by simpa [writeOf,Fetched.write?] using h
        exact ⟨v,rfl,hw⟩

theorem serve_some {α : Type} {down : Option BackendClientError} {value : Option α} {v : α}
    (h : ofBackend (ForkBlock.serve down value)=.ok (some v)) : value=some v := by
  cases down <;> simp_all [ForkBlock.serve,ofBackend]

theorem fetch_of {C : Codecs} {fork : ForkBlock P} {snapshot : Db P}
    {down : BackendRequestIdentifier → Option BackendClientError} {item : StateItem}
    {w : CacheWrite P}
    (h : LatestStateProvider.fetch C (fork.client down) snapshot item=some w) : w.Of fork := by
  cases item with
  | nonce a =>
    obtain ⟨v,hv,hw⟩ := writeOf_fetchMissing h
    have hn : fork.nonce a=some v := serve_some hv
    split at hw
    · cases hw
    · cases hw
    · next c hc =>
      have hcl : fork.classHash a=some c := serve_some hc
      obtain ⟨i,hi,rfl⟩ := Option.map_eq_some_iff.mp hn
      simp only [ForkBlock.classHash,hi,Option.map_some,Option.some.injEq] at hcl
      cases hw
      simp [CacheWrite.Of,hi,← hcl]
  | classHash a =>
    obtain ⟨v,hv,hw⟩ := writeOf_fetchMissing h
    have hc : fork.classHash a=some v := serve_some hv
    split at hw
    · cases hw
    · cases hw
    · next m hm =>
      have hn : fork.nonce a=some m := serve_some hm
      obtain ⟨i,hi,rfl⟩ := Option.map_eq_some_iff.mp hc
      simp only [ForkBlock.nonce,hi,Option.map_some,Option.some.injEq] at hn
      cases hw
      simp [CacheWrite.Of,hi,← hn]
  | storage a k =>
    obtain ⟨v,hv,hw⟩ := writeOf_fetchMissing h
    cases hw
    exact serve_some hv
  | «class» hash | compiledClassHash hash =>
    obtain ⟨v,_,hw⟩ := writeOf_fetchMissing h
    cases hw
    trivial

theorem readDb_eq (backend : BackendClient P) (env env' : TxEnv) (snapshot : Db P)
    (block : Nat) (item : StateItem) (db : Db P) :
    HistoricalStateProvider.readDb C backend env env' snapshot block item db=db := by
  cases item <;> exact readThrough_db _ _ _ _

/-- The fetched values and the requests that are new after an event. -/
structure Carries (fork : ForkBlock P) (s t : ForkState P) : Prop where
  fetched : ∀ w∈t.fetched, w∈s.fetched ∨ w.Of fork
  requests : ∀ r∈t.requests, r∈s.requests ∨ ∃ id, resolve s.db id=.ok (some r)

/-- The database only changes when a fetched value is stored and when a block is
inserted. -/
theorem step_cases (s : ForkState P) (e : ForkEvent P) : Carries fork s (s.step C fork e) ∧
    ((∃ w write env, e=.store write env ∧ s.fetched[write]?=some w ∧ Commits env ∧
        (s.step C fork e).db=w.apply C s.db ∧ (s.step C fork e).blocks=s.blocks) ∨
      (∃ b, e=.insert b ∧ (s.step C fork e).db=(insertBlockWithStatesAndReceipts C {} b s.db).2 ∧
        (s.step C fork e).blocks=s.blocks++[b] ∧ (s.step C fork e).requests=s.requests) ∨
      ((∀ write env, e=.store write env → ∀ w, s.fetched[write]?=some w → ¬Commits env) ∧
        (∀ b, e≠.insert b) ∧ (s.step C fork e).db=s.db ∧ (s.step C fork e).blocks=s.blocks)) := by
  cases e with
  | openLatest =>
    exact ⟨⟨fun _ => Or.inl,fun _ => Or.inl⟩,Or.inr (Or.inr ⟨by simp,by simp,rfl,rfl⟩)⟩
  | requestHistorical id =>
    simp only [ForkState.step]
    split
    · next r hr =>
      refine ⟨⟨fun _ => Or.inl,?_⟩,Or.inr (Or.inr ⟨by simp,by simp,rfl,rfl⟩)⟩
      intro r' hr'
      rcases List.mem_append.mp hr' with h | h
      · exact Or.inl h
      · exact Or.inr ⟨id,by rw [hr,List.mem_singleton.mp h]⟩
    · exact ⟨⟨fun _ => Or.inl,fun _ => Or.inl⟩,Or.inr (Or.inr ⟨by simp,by simp,rfl,rfl⟩)⟩
  | openHistorical request =>
    simp only [ForkState.step]
    split
    · exact ⟨⟨fun _ => Or.inl,fun _ hr => Or.inl (List.mem_of_mem_eraseIdx hr)⟩,
        Or.inr (Or.inr ⟨by simp,by simp,rfl,rfl⟩)⟩
    · exact ⟨⟨fun _ => Or.inl,fun _ => Or.inl⟩,Or.inr (Or.inr ⟨by simp,by simp,rfl,rfl⟩)⟩
  | read provider item down env env' =>
    simp only [ForkState.step]
    split
    · refine ⟨⟨?_,fun _ => Or.inl⟩,Or.inr (Or.inr ⟨by simp,by simp,rfl,rfl⟩)⟩
      intro w hw
      rcases List.mem_append.mp hw with hw | hw
      · exact Or.inl hw
      · exact Or.inr (fetch_of (Option.mem_toList.mp hw))
    · exact ⟨⟨fun _ => Or.inl,fun _ => Or.inl⟩,
        Or.inr (Or.inr ⟨by simp,by simp,readDb_eq _ _ _ _ _ _ _ _,rfl⟩)⟩
    · exact ⟨⟨fun _ => Or.inl,fun _ => Or.inl⟩,Or.inr (Or.inr ⟨by simp,by simp,rfl,rfl⟩)⟩
  | store write env =>
    simp only [ForkState.step]
    split
    · next w hw =>
      refine ⟨⟨fun _ hw' => Or.inl (List.mem_of_mem_eraseIdx hw'),fun _ => Or.inl⟩,?_⟩
      by_cases hc : Commits env
      · exact Or.inl ⟨w,write,env,rfl,hw,hc,by simp only [CacheWrite.update_put,if_pos hc],rfl⟩
      · refine Or.inr (Or.inr ⟨?_,by simp,by simp only [CacheWrite.update_put,if_neg hc],rfl⟩)
        intro write' env' he _ _
        cases he
        exact hc
    · next hw =>
      refine ⟨⟨fun _ => Or.inl,fun _ => Or.inl⟩,Or.inr (Or.inr ⟨?_,by simp,rfl,rfl⟩)⟩
      intro write' env' he w hw'
      cases he
      rw [hw] at hw'
      cases hw'
  | insert b =>
    exact ⟨⟨fun _ => Or.inl,fun _ => Or.inl⟩,Or.inr (Or.inl ⟨b,rfl,rfl,rfl,rfl⟩)⟩

end Katana.Fork
