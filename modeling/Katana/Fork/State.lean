import Katana.Provider.State

/-! The state providers of providers/fork/state.rs. What the local tables do not have is
asked of the fork backend. The latest provider then writes the answer to the local tables
in a write transaction of its own; the historical provider puts it into a transaction
that is dropped. -/
namespace Katana.Fork
open ChangeLog DbTx
variable {P : Payloads} {α : Type}

/-- What the calls of a backend client return. -/
structure BackendClient (P : Payloads) where
  getNonce : Felt → Except BackendClientError (Option Felt)
  getStorage : Felt → Felt → Except BackendClientError (Option Felt)
  getClassHashAt : Felt → Except BackendClientError (Option Felt)
  getClassAt : Felt → Except BackendClientError (Option P.ContractClass)
  getCompiledClassHash : Felt → Except BackendClientError (Option Felt)

inductive BackendRequestIdentifier where
  | nonce (address : Felt)
  | «class» (hash : Felt)
  | classHash (address : Felt)
  | storage (address key : Felt)
  deriving DecidableEq, Repr

/-- The state of the forked network at the block all requests are pinned to. -/
structure ForkBlock (P : Payloads) where
  info : Felt → Option GenericContractInfo
  storage : Felt → Felt → Option Felt
  «class» : Felt → Option P.ContractClass
  compiledClassHash : Felt → Option Felt

namespace ForkBlock

variable (f : ForkBlock P)

def nonce (a : Felt) : Option Felt := (f.info a).map (fun info => info.nonce)

def classHash (a : Felt) : Option Felt :=
  (f.info a).map (fun info => info.classHash)

def serve (down : Option BackendClientError) (value : Option α) :
    Except BackendClientError (Option α) :=
  match down with
  | some e => .error e
  | none => .ok value

/-- A client of the block; a request that is down fails. -/
def client (down : BackendRequestIdentifier → Option BackendClientError) : BackendClient P where
  getNonce a := serve (down (.nonce a)) (f.nonce a)
  getStorage a k := serve (down (.storage a k)) (f.storage a k)
  getClassHashAt a := serve (down (.classHash a)) (f.classHash a)
  getClassAt h := serve (down (.class h)) (f.class h)
  getCompiledClassHash h := serve (down (.class h)) (f.compiledClassHash h)

def up : BackendClient P := f.client (fun _ => none)

end ForkBlock

def ofBackend (r : Except BackendClientError α) : Except ProviderError α :=
  match r with
  | .ok v => .ok v
  | .error e => .error (.forkedBackend1 e)

/-! Reads through latest(). -/

/-- The row a read of the latest state puts into the local tables. -/
inductive CacheWrite (P : Payloads) where
  | contractInfo (address : Felt) (entry : GenericContractInfo)
  | contractStorage (address : Felt) (entry : StorageEntry)
  | classes (hash : Felt) (class' : P.ContractClass)
  | compiledClassHashes (hash compiledHash : Felt)

def CacheWrite.put (C : Codecs) : CacheWrite P → TxM P Unit
  | .contractInfo address entry => DbTx.put .contractInfo address entry
  | .contractStorage address entry => putDup .contractStorage address (entry.compress C)
  | .classes hash class' => DbTx.put .classes hash class'
  | .compiledClassHashes hash compiledHash => DbTx.put .compiledClassHashes hash compiledHash

inductive Fetched (P : Payloads) (α : Type) where
  | done (answer : Option α)
  | store (write : CacheWrite P) (answer : α)

def Fetched.write? : Fetched P α → Option (CacheWrite P)
  | .done _ => none
  | .store write _ => some write

def fetchMissing (found remote : Except ProviderError (Option α))
    (write : α → Except ProviderError (CacheWrite P)) : Except ProviderError (Fetched P α) :=
  match found with
  | .error e => .error e
  | .ok (some v) => .ok (.done (some v))
  | .ok none =>
    match remote with
    | .error e => .error e
    | .ok none => .ok (.done none)
    | .ok (some v) =>
      match write v with
      | .error e => .error e
      | .ok w => .ok (.store w v)

namespace LatestStateProvider
variable (C : Codecs) (backend : BackendClient P) (snapshot : Db P)

def nonce (address : Felt) : Except ProviderError (Fetched P Felt) :=
  fetchMissing ((StateProvider.latest snapshot).nonce C address)
    (ofBackend (backend.getNonce address))
    (fun nonce =>
      match ofBackend (backend.getClassHashAt address) with
      | .error e => .error e
      | .ok none => .error (.missingContractClassHash address)
      | .ok (some classHash) => .ok (.contractInfo address { nonce := nonce, classHash := classHash }))

def classHashOfContract (address : Felt) : Except ProviderError (Fetched P Felt) :=
  fetchMissing ((StateProvider.latest snapshot).classHashOfContract C address)
    (ofBackend (backend.getClassHashAt address))
    (fun classHash =>
      match ofBackend (backend.getNonce address) with
      | .error e => .error e
      | .ok none => .error (.missingContractNonce address)
      | .ok (some nonce) => .ok (.contractInfo address { classHash := classHash, nonce := nonce }))

def storage (address key : Felt) : Except ProviderError (Fetched P Felt) :=
  fetchMissing ((StateProvider.latest snapshot).storage C address key)
    (ofBackend (backend.getStorage address key))
    (fun value => .ok (.contractStorage address ⟨key,value⟩))

def «class» (hash : Felt) : Except ProviderError (Fetched P P.ContractClass) :=
  fetchMissing ((StateProvider.latest snapshot).class hash)
    (ofBackend (backend.getClassAt hash)) (fun class' => .ok (.classes hash class'))

def compiledClassHashOfClassHash (hash : Felt) : Except ProviderError (Fetched P Felt) :=
  fetchMissing ((StateProvider.latest snapshot).compiledClassHashOfClassHash hash)
    (ofBackend (backend.getCompiledClassHash hash))
    (fun compiledHash => .ok (.compiledClassHashes hash compiledHash))

end LatestStateProvider

/-- The rest of a read: the write transaction on the database of that moment. -/
def finishRead (C : Codecs) (env : TxEnv) (r : Except ProviderError (Fetched P α)) (db : Db P) :
    Except ProviderError (Option α) × Db P :=
  match r with
  | .error e => (.error e,db)
  | .ok (.done v) => (.ok v,db)
  | .ok (.store w v) =>
    match update env (w.put C) db with
    | (.error e,db') => (.error (.database e),db')
    | (.ok (.error f),db') => (.error f.error,db')
    | (.ok (.ok ()),db') => (.ok (some v),db')

/-! Reads through historical(). -/

/-- A write transaction that is dropped without a commit. -/
def putDropped (env : TxEnv) (f : TxM P Unit) (db : Db P) : Except ProviderError Unit × Db P :=
  match env.begin with
  | some e => (.error (.database e),db)
  | none =>
    match f env.faults db 0 with
    | (.ok (),_,_) => (.ok (),db)
    | (.error f,_,_) => (.error f.error,db)

/-- The dropped transactions of one read, one after the other. -/
def putsDropped : List (TxEnv × TxM P Unit) → Db P → Except ProviderError Unit × Db P
  | [],db => (.ok (),db)
  | (env,f)::rest,db =>
    match putDropped env f db with
    | (.error e,db') => (.error e,db')
    | (.ok (),db') => putsDropped rest db'

def readThrough (found remote : Except ProviderError (Option α))
    (puts : α → List (TxEnv × TxM P Unit)) (db : Db P) : Except ProviderError (Option α) × Db P :=
  match found with
  | .error e => (.error e,db)
  | .ok (some v) => (.ok (some v),db)
  | .ok none =>
    match remote with
    | .error e => (.error e,db)
    | .ok none => (.ok none,db)
    | .ok (some v) =>
      match putsDropped (puts v) db with
      | (.error e,db') => (.error e,db')
      | (.ok (),db') => (.ok (some v),db')

namespace HistoricalStateProvider
variable (C : Codecs) (backend : BackendClient P) (env env' : TxEnv) (snapshot : Db P)
  (block : Nat)

def nonce (address : Felt) : Db P → Except ProviderError (Option Felt) × Db P :=
  readThrough ((StateProvider.historical snapshot block).nonce C address)
    (ofBackend (backend.getNonce address))
    (fun nonce => [(env,putDup .nonceChangeHistory block
      (ContractNonceChange.compress C ⟨address,nonce⟩))])

def classHashOfContract (address : Felt) : Db P → Except ProviderError (Option Felt) × Db P :=
  readThrough ((StateProvider.historical snapshot block).classHashOfContract C address)
    (ofBackend (backend.getClassHashAt address))
    (fun classHash => [(env,putDup .classChangeHistory block
      (ContractClassChange.compress C ⟨address,classHash⟩))])

/-- The change list and the history row go into two transactions. -/
def storage (address key : Felt) : Db P → Except ProviderError (Option Felt) × Db P :=
  readThrough ((StateProvider.historical snapshot block).storage C address key)
    (ofBackend (backend.getStorage address key))
    (fun value =>
      [(env,DbTx.put .storageChangeSet (toLex (address,key))
        (BlockList.extend (snapshot.get .storageChangeSet (toLex (address,key))) block)),
       (env',putDup .storageChangeHistory block
        (ContractStorageEntry.compress C ⟨⟨address,key⟩,value⟩))])

def «class» (hash : Felt) : Db P → Except ProviderError (Option P.ContractClass) × Db P :=
  readThrough ((StateProvider.historical snapshot block).class hash)
    (ofBackend (backend.getClassAt hash))
    (fun class' => [(env,DbTx.put .classes hash class')])

def compiledClassHashOfClassHash (hash : Felt) :
    Db P → Except ProviderError (Option Felt) × Db P :=
  readThrough ((StateProvider.historical snapshot block).compiledClassHashOfClassHash hash)
    (ofBackend (backend.getCompiledClassHash hash))
    (fun compiledHash => [(env,DbTx.put .compiledClassHashes hash compiledHash)])

end HistoricalStateProvider

/-! A whole read through a provider of either kind. -/

def nonce (C : Codecs) (backend : BackendClient P) (env : TxEnv) (address : Felt) :
    StateProvider P → Db P → Except ProviderError (Option Felt) × Db P
  | .latest snapshot => finishRead C env (LatestStateProvider.nonce C backend snapshot address)
  | .historical snapshot block =>
    HistoricalStateProvider.nonce C backend env snapshot block address

def classHashOfContract (C : Codecs) (backend : BackendClient P) (env : TxEnv) (address : Felt) :
    StateProvider P → Db P → Except ProviderError (Option Felt) × Db P
  | .latest snapshot =>
    finishRead C env (LatestStateProvider.classHashOfContract C backend snapshot address)
  | .historical snapshot block =>
    HistoricalStateProvider.classHashOfContract C backend env snapshot block address

def storage (C : Codecs) (backend : BackendClient P) (env env' : TxEnv) (address key : Felt) :
    StateProvider P → Db P → Except ProviderError (Option Felt) × Db P
  | .latest snapshot =>
    finishRead C env (LatestStateProvider.storage C backend snapshot address key)
  | .historical snapshot block =>
    HistoricalStateProvider.storage C backend env env' snapshot block address key

section Reads
variable {C : Codecs} {snapshot : Db P}

def CacheWrite.apply (C : Codecs) : CacheWrite P → Db P → Db P
  | .contractInfo address entry => Db.put .contractInfo address entry
  | .contractStorage address entry => Db.putDup .contractStorage address (entry.compress C)
  | .classes hash class' => Db.put .classes hash class'
  | .compiledClassHashes hash compiledHash => Db.put .compiledClassHashes hash compiledHash

/-- Nothing fails in the write transaction of a read. -/
def Commits (env : TxEnv) : Prop :=
  env.begin=none ∧ env.commit=none ∧ env.faults 0=none ∧ env.faults 1=none

instance (env : TxEnv) : Decidable (Commits env) := by
  unfold Commits
  infer_instance

theorem compress_then_write (env : TxEnv) (f : Db P → Db P) (db : Db P) :
    (update env (compress>>=fun _ => write f) db).2=if Commits env then f db else db := by
  obtain ⟨_ | e,_ | e',F⟩ := env
  · cases h₀ : F 0 with
    | some e =>
      simp [update,Commits,h₀,Faulty.bind_apply,compress,read_fault _ h₀]
    | none =>
      have hcomp : compress F db 0=(.ok (),db,1) := read_ok h₀ rfl
      have hbind := Faulty.bind_ok hcomp (fun _ => write f)
      cases h₁ : F 1 with
      | some e =>
        have hw : write f F db 1=(.error e,db,2) := Faulty.op_fault h₁ db
        simp [update,Commits,h₁,hbind,hw]
      | none =>
        have hw : write f F db 1=(.ok (),f db,2) := Faulty.op_ok h₁ rfl
        simp [update,Commits,h₀,h₁,hbind,hw]
  all_goals simp [update,Commits]

theorem CacheWrite.update_put (C : Codecs) (env : TxEnv) (w : CacheWrite P) (db : Db P) :
    (update env (w.put C) db).2=if Commits env then w.apply C db else db := by
  cases w <;> exact compress_then_write env _ db

/-- Without failures the read returns what was found, else what the fork block has. -/
theorem finishRead_fetchMissing {found remote : Except ProviderError (Option α)}
    {write : α → Except ProviderError (CacheWrite P)} {r f : Option α} (hr : found=.ok r)
    (hf : remote=.ok f) (hw : ∀ v, f=some v → ∃ w, write v=.ok w) (db : Db P) :
    (finishRead C {} (fetchMissing found remote write) db).1=.ok (r.or f) := by
  subst hr hf
  cases r with
  | some v => rfl
  | none =>
    cases f with
    | none => rfl
    | some v =>
      obtain ⟨w,hw⟩ := hw v rfl
      simp only [fetchMissing,hw,finishRead]
      cases w <;> rfl

variable (fork : ForkBlock P) (db : Db P)

theorem latest_nonce (snapshot : Db P) (a : Felt) :
    (nonce C fork.up {} a (.latest snapshot) db).1=
      .ok (((snapshot.get .contractInfo a).map (fun info => info.nonce)).or (fork.nonce a)) := by
  refine finishRead_fetchMissing rfl rfl ?_ db
  intro v hv
  obtain ⟨info,hi,_⟩ := Option.map_eq_some_iff.mp hv
  simp [ForkBlock.up,ForkBlock.client,ForkBlock.serve,ForkBlock.classHash,ofBackend,hi]

theorem latest_class (snapshot : Db P) (a : Felt) :
    (classHashOfContract C fork.up {} a (.latest snapshot) db).1=
      .ok (((snapshot.get .contractInfo a).map (fun info => info.classHash)).or
        (fork.classHash a)) := by
  refine finishRead_fetchMissing rfl rfl ?_ db
  intro v hv
  obtain ⟨info,hi,_⟩ := Option.map_eq_some_iff.mp hv
  simp [ForkBlock.up,ForkBlock.client,ForkBlock.serve,ForkBlock.nonce,ofBackend,hi]

theorem latest_storage {value : ContractStorageKey → Option Felt}
    (h : HoldsStorage C value snapshot) (a k : Felt) :
    (storage C fork.up {} {} a k (.latest snapshot) db).1=
      .ok ((value ⟨a,k⟩).or (fork.storage a k)) :=
  finishRead_fetchMissing (Katana.latest_storage h a k) rfl (fun _ _ => ⟨_,rfl⟩) db

theorem putsDropped_db (l : List (TxEnv × TxM P Unit)) (db : Db P) :
    (putsDropped l db).2=db := by
  induction l with
  | nil => rfl
  | cons r rest ih =>
    have hd : (putDropped r.1 r.2 db).2=db := by
      unfold putDropped
      split
      · rfl
      · split <;> rfl
    unfold putsDropped
    split
    · next he =>
      rw [he] at hd
      exact hd
    · next db' he =>
      rw [he] at hd
      obtain rfl : db'=db := hd
      exact ih

theorem readThrough_db (found remote : Except ProviderError (Option α))
    (puts : α → List (TxEnv × TxM P Unit)) (db : Db P) :
    (readThrough found remote puts db).2=db := by
  unfold readThrough
  split
  · rfl
  · rfl
  · split
    · rfl
    · rfl
    · next v =>
      have h := putsDropped_db (puts v) db
      split
      · next he => rw [he] at h; exact h
      · next he => rw [he] at h; exact h

/-- Dropped or not, the puts of a read of a past block do not fail by themselves. -/
theorem readThrough_answer {found remote : Except ProviderError (Option α)} {r f : Option α}
    (hr : found=.ok r) (hf : remote=.ok f) {puts : α → List (TxEnv × TxM P Unit)} {db : Db P}
    (hp : ∀ v, (putsDropped (puts v) db).1=.ok ()) :
    (readThrough found remote puts db).1=.ok (r.or f) := by
  subst hr hf
  cases r with
  | some v => rfl
  | none =>
    cases f with
    | none => rfl
    | some v =>
      have h := hp v
      simp only [readThrough]
      split
      · next he => rw [he] at h; cases h
      · rfl

theorem historical_nonce {classes nonces : FeltLog}
    (h : ContractIndexed C classes nonces snapshot) (n : Nat) (a : Felt) :
    (nonce C fork.up {} a (.historical snapshot n) db).1=
      .ok ((if C.normalizeAddress a=a then asOf nonces n a else none).or (fork.nonce a)) :=
  readThrough_answer (Katana.historical_nonce h n a) rfl (fun _ => rfl)

theorem historical_class {classes nonces : FeltLog}
    (h : ContractIndexed C classes nonces snapshot) (n : Nat) (a : Felt) :
    (classHashOfContract C fork.up {} a (.historical snapshot n) db).1=
      .ok ((if C.normalizeAddress a=a then asOf classes n a else none).or (fork.classHash a)) :=
  readThrough_answer (Katana.historical_class h n a) rfl (fun _ => rfl)

theorem historical_storage {log : StorageLog} (h : StorageIndexed C log snapshot) (n : Nat)
    (a k : Felt) :
    (storage C fork.up {} {} a k (.historical snapshot n) db).1=
      .ok ((if C.normalizeAddress a=a then asOf log n ⟨a,k⟩ else none).or (fork.storage a k)) :=
  readThrough_answer (Katana.historical_storage h n a k) rfl (fun _ => rfl)

end Reads
end Katana.Fork
