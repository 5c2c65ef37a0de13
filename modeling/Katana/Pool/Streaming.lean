import Katana.Pool.Order

/-! Streams of pending transactions (pending.rs, subscription.rs and the two locks of pool.rs of the
pool crate). A transaction is inserted in the set and announced to the subscribers in two steps; a
stream subscribes and reads the set in two steps. -/
namespace Katana.TransactionPool
variable {T P : Type} (O : Type) [PoolOrd O T P]

/-- The transactions taken out of the channel, in the order of the pool, and those in it. -/
structure Subscription (T P : Type) where
  txs : List (PendingTx T P) := []
  channel : List (PendingTx T P) := []

def Subscription.pollNext (s : Subscription T P) : Option (PendingTx T P) × Subscription T P :=
  match s.txs with
  | t::ts => (some t,{ s with txs := ts })
  | [] =>
    match insertAll O s.channel with
    | t::ts => (some t,⟨ts,[]⟩)
    | [] => (none,s)

/-- There is no iterator over all until the set is read. The last two fields record what the stream
returned, and what was announced to it or about to be announced when it read the set. -/
structure PendingTransactions (T P : Type) where
  all : Option (List (PendingTx T P)) := none
  subscription : Subscription T P := {}
  yielded : List (PendingTx T P) := []
  repeated : List (PendingTx T P) := []

namespace PendingTransactions

def pollNext (s : PendingTransactions T P) :
    Option (PendingTx T P) × PendingTransactions T P :=
  match s.all with
  | none => (none,s)
  | some (t::ts) => (some t,{ s with all := some ts, yielded := s.yielded++[t] })
  | some [] =>
    match s.subscription.pollNext O with
    | (some t,sub) => (some t,{ s with subscription := sub, yielded := s.yielded++[t] })
    | (none,sub) => (none,{ s with subscription := sub })

/-- The unbounded channel takes every transaction. -/
def receive (tx : PendingTx T P) (s : PendingTransactions T P) : PendingTransactions T P :=
  { s with subscription := { s.subscription with channel := s.subscription.channel++[tx] } }

def left (s : PendingTransactions T P) : List (PendingTx T P) :=
  s.all.getD []++s.subscription.txs++s.subscription.channel

end PendingTransactions

/-- The pool with its streams; adding are the transactions of the calls that are between their
insertion and their notification. -/
structure Streaming (T P : Type) where
  transactions : List (PendingTx T P) := []
  adding : List (PendingTx T P) := []
  streams : List (PendingTransactions T P) := []

inductive StreamOp (T P : Type) where
  | insert (tx : PendingTx T P)
  | notify (call : Nat)
  | subscribe
  | snapshot (stream : Nat)
  | poll (stream : Nat)

namespace Streaming

def snapshotOf (s : Streaming T P) (st : PendingTransactions T P) : PendingTransactions T P :=
  match st.all with
  | none => { st with all := some s.transactions, repeated := st.subscription.channel++s.adding }
  | some _ => st

def step (s : Streaming T P) : StreamOp T P → Streaming T P
  | .insert tx =>
    { s with transactions := insertPending O tx s.transactions, adding := s.adding++[tx] }
  | .notify call =>
    match s.adding[call]? with
    | none => s
    | some tx =>
      { s with adding := s.adding.eraseIdx call, streams := s.streams.map (·.receive tx) }
  | .subscribe => { s with streams := s.streams++[{}] }
  | .snapshot stream => { s with streams := s.streams.modify stream s.snapshotOf }
  | .poll stream => { s with streams := s.streams.modify stream fun st => (st.pollNext O).2 }

def run (ops : List (StreamOp T P)) : Streaming T P := ops.foldl (step O) {}

/-- What a stream returned and will return is what the pool accepted, and once more what it got in
both ways. -/
structure Accounted (s : Streaming T P) (st : PendingTransactions T P) : Prop where
  opening : st.all=none → st.subscription.txs=[] ∧ st.yielded=[]
  counted : st.all≠none → (st.yielded++st.left++s.adding).Perm (s.transactions++st.repeated)

end Streaming

section
variable {O} {s : Streaming T P} {st : PendingTransactions T P}

theorem Subscription.pollNext_cases (sub : Subscription T P) :
    (sub.txs=[] ∧ sub.channel=[] ∧ sub.pollNext O=(none,sub)) ∨
    ∃ t sub', sub.pollNext O=(some t,sub') ∧
      (t::(sub'.txs++sub'.channel)).Perm (sub.txs++sub.channel) := by
  unfold pollNext
  cases htxs : sub.txs with
  | cons t ts => exact Or.inr ⟨t,_,rfl,List.Perm.refl _⟩
  | nil =>
    have hperm := insertAll_perm (O:=O) sub.channel
    cases hall : insertAll O sub.channel with
    | nil =>
      rw [hall] at hperm
      exact Or.inl ⟨rfl,List.nil_perm.mp hperm,rfl⟩
    | cons t ts =>
      rw [hall] at hperm
      exact Or.inr ⟨t,_,rfl,by simpa using hperm⟩

namespace PendingTransactions

theorem pollNext_cases (hall : st.all≠none) :
    (st.left=[] ∧ st.pollNext O=(none,st)) ∨
    ∃ t st', st.pollNext O=(some t,st') ∧ st'.all≠none ∧ st'.repeated=st.repeated ∧
      st'.yielded=st.yielded++[t] ∧ (t::st'.left).Perm st.left := by
  obtain ⟨all,sub,yielded,repeated⟩ := st
  unfold pollNext left
  cases all with
  | none => exact absurd rfl hall
  | some rest =>
    cases rest with
    | cons t ts => exact Or.inr ⟨t,_,rfl,by simp,rfl,rfl,by simp⟩
    | nil =>
      obtain ⟨htxs,hchannel,hpoll⟩ | ⟨t,sub',hpoll,hperm⟩ := sub.pollNext_cases (O:=O)
      · exact Or.inl ⟨by simp [htxs,hchannel],by simp only [hpoll]⟩
      · refine Or.inr ⟨t,⟨some [],sub',yielded++[t],repeated⟩,by simp only [hpoll],?_⟩
        exact ⟨by simp,rfl,rfl,by simpa using hperm⟩

theorem left_receive (tx : PendingTx T P) : (st.receive tx).left=st.left++[tx] := by
  simp [left,receive]

end PendingTransactions

namespace Streaming

variable {call stream : Nat} {streams : List (PendingTransactions T P)}
    {repeated : List (PendingTx T P)}

theorem Accounted.receive {tx : PendingTx T P} (htx : s.adding[call]?=some tx)
    (h : s.Accounted st) :
    Accounted { s with adding := s.adding.eraseIdx call, streams } (st.receive tx) where
  opening hall := h.opening hall
  counted hall := by
    obtain ⟨hlt,rfl⟩ := List.getElem?_eq_some_iff.mp htx
    have hperm := (List.getElem_cons_eraseIdx_perm hlt).append_left (st.yielded++st.left)
    refine List.Perm.trans ?_ (hperm.trans (h.counted hall))
    rw [PendingTransactions.left_receive]
    simp [PendingTransactions.receive]

theorem Accounted.poll (h : s.Accounted st) : Accounted { s with streams } (st.pollNext O).2 := by
  cases hall : st.all with
  | none =>
    have hsame : (st.pollNext O).2=st := by simp [PendingTransactions.pollNext,hall]
    rw [hsame]
    exact ⟨h.opening,h.counted⟩
  | some rest =>
    have hne : st.all≠none := by simp [hall]
    obtain ⟨-,hpoll⟩ | ⟨t,st',hpoll,hall',hrep,hyielded,hperm⟩ :=
      PendingTransactions.pollNext_cases (O:=O) hne
    · rw [hpoll]
      exact ⟨h.opening,h.counted⟩
    · rw [hpoll]
      refine ⟨fun hnone => absurd hnone hall',fun _ => ?_⟩
      rw [hrep,hyielded]
      refine List.Perm.trans ?_ (h.counted hne)
      simpa using ((hperm.append_right s.adding).append_left st.yielded)

theorem Accounted.snapshot (h : s.Accounted st) :
    Accounted { s with streams } (s.snapshotOf st) := by
  unfold snapshotOf
  cases hall : st.all with
  | some rest => exact ⟨h.opening,h.counted⟩
  | none =>
    obtain ⟨htxs,hyielded⟩ := h.opening hall
    refine ⟨fun hnone => by simp at hnone,fun _ => ?_⟩
    simp [PendingTransactions.left,htxs,hyielded]

theorem step_notify_none (h : s.adding[call]?=none) : s.step O (.notify call)=s := by
  simp only [step,h]

theorem step_notify_some {tx : PendingTx T P} (h : s.adding[call]?=some tx) :
    s.step O (.notify call)=
      { s with adding := s.adding.eraseIdx call, streams := s.streams.map (·.receive tx) } := by
  simp only [step,h]

theorem mem_modify {α : Type*} {l : List α} {i : Nat} {f : α → α} {x : α} (h : x∈l.modify i f) :
    x∈l ∨ ∃ y∈l, f y=x := by
  obtain ⟨j,hj⟩ := List.mem_iff_getElem?.mp h
  rw [List.getElem?_modify] at hj
  obtain ⟨y,hy,hx⟩ := Option.map_eq_some_iff.mp hj
  by_cases hi : i=j
  · exact Or.inr ⟨y,List.mem_of_getElem? hy,by simpa [hi] using hx⟩
  · left
    rw [if_neg hi] at hx
    exact hx ▸ List.mem_of_getElem? hy

theorem Accounted.step (h : ∀ st∈s.streams, s.Accounted st) (op : StreamOp T P) :
    ∀ st∈(s.step O op).streams, (s.step O op).Accounted st := by
  cases op with
  | insert tx =>
    intro st hst
    refine ⟨(h st hst).opening,fun hall => ?_⟩
    have hset := (insertPending_perm (O:=O) tx s.transactions).append_right st.repeated
    have hold := ((h st hst).counted hall).append_right [tx]
    refine List.Perm.trans ?_ (List.Perm.trans hold (List.Perm.trans ?_ hset.symm))
    · simp [Streaming.step]
    · exact List.perm_append_singleton tx (s.transactions++st.repeated)
  | notify call =>
    cases htx : s.adding[call]? with
    | none =>
      rw [step_notify_none htx]
      exact h
    | some tx =>
      rw [step_notify_some htx]
      intro st hst
      obtain ⟨st₀,hst₀,rfl⟩ := List.mem_map.mp hst
      exact (h st₀ hst₀).receive htx
  | subscribe =>
    intro st hst
    rcases List.mem_append.mp hst with hst | hst
    · exact ⟨(h st hst).opening,(h st hst).counted⟩
    · obtain rfl := List.mem_singleton.mp hst
      exact ⟨fun _ => ⟨rfl,rfl⟩,fun hall => absurd rfl hall⟩
  | snapshot i =>
    intro st hst
    obtain hst | ⟨st₀,hst₀,rfl⟩ := mem_modify hst
    · exact ⟨(h st hst).opening,(h st hst).counted⟩
    · exact (h st₀ hst₀).snapshot
  | poll i =>
    intro st hst
    obtain hst | ⟨st₀,hst₀,rfl⟩ := mem_modify hst
    · exact ⟨(h st hst).opening,(h st hst).counted⟩
    · exact (h st₀ hst₀).poll

theorem accounted_run (ops : List (StreamOp T P)) :
    ∀ st∈(run O ops).streams, (run O ops).Accounted st := by
  induction ops using List.reverseRecOn with
  | nil => simp [run]
  | append_singleton ops op ih =>
    rw [run,List.foldl_append]
    exact Accounted.step ih op

/-- The calls in progress return and one stream is polled; no call begins. -/
def Settling (stream : Nat) : StreamOp T P → Prop
  | .notify _ => True
  | .poll i => i=stream
  | _ => False

/-- Nothing is being added and the stream waits. -/
def Exhausted (O : Type) [PoolOrd O T P] (s : Streaming T P) (stream : Nat) : Prop :=
  s.adding=[] ∧ ∃ st, s.streams[stream]?=some st ∧ st.all≠none ∧ (st.pollNext O).1=none

/-- The stream comes to an end of what was accepted, and has then returned every transaction as
often as it was accepted. -/
def ExactlyOnce (O : Type) [PoolOrd O T P] (ops : List (StreamOp T P)) (stream : Nat) : Prop :=
  (∃ more, (∀ op∈more, Settling stream op) ∧ Exhausted O (run O (ops++more)) stream) ∧
  ∀ more st, (∀ op∈more, Settling stream op) → Exhausted O (run O (ops++more)) stream →
    (run O (ops++more)).streams[stream]?=some st →
    st.yielded.Perm (run O (ops++more)).transactions

/-- A stream that was made, with what it gets in both ways. -/
def Made (s : Streaming T P) (stream : Nat) (repeated : List (PendingTx T P)) : Prop :=
  ∃ st, s.streams[stream]?=some st ∧ st.all≠none ∧ st.repeated=repeated

theorem Made.settling (h : s.Made stream repeated) {op : StreamOp T P} (hop : Settling stream op) :
    (s.step O op).Made stream repeated := by
  obtain ⟨st,hst,hall,hrep⟩ := h
  cases op with
  | insert tx | subscribe | snapshot i => exact hop.elim
  | notify call =>
    cases htx : s.adding[call]? with
    | none =>
      rw [step_notify_none htx]
      exact ⟨st,hst,hall,hrep⟩
    | some tx =>
      rw [step_notify_some htx]
      exact ⟨st.receive tx,by simp [hst],hall,hrep⟩
  | poll i =>
    obtain rfl : i=stream := hop
    refine ⟨(st.pollNext O).2,by simp [step,hst],?_⟩
    obtain ⟨-,hpoll⟩ | ⟨t,st',hpoll,hall',hrep',-,-⟩ :=
      PendingTransactions.pollNext_cases (O:=O) hall
    · rw [hpoll]
      exact ⟨hall,hrep⟩
    · rw [hpoll]
      exact ⟨hall',hrep'.trans hrep⟩

theorem Made.settled {ops : List (StreamOp T P)} (h : (run O ops).Made stream repeated)
    {more : List (StreamOp T P)} (hmore : ∀ op∈more, Settling stream op) :
    (run O (ops++more)).Made stream repeated := by
  induction more using List.reverseRecOn with
  | nil => rwa [List.append_nil]
  | append_singleton more op ih =>
    rw [←List.append_assoc,run,List.foldl_append]
    exact (ih fun o ho => hmore o (by simp [ho])).settling (hmore op (by simp))

theorem exists_exhausted (n : Nat) (hs : ∃ st, s.streams[stream]?=some st ∧
      st.all≠none ∧ 2*s.adding.length+st.left.length=n) :
    ∃ more : List (StreamOp T P), (∀ op∈more, Settling stream op) ∧
      Exhausted O (more.foldl (step O) s) stream := by
  induction n using Nat.strong_induction_on generalizing s with
  | _ n ih =>
    obtain ⟨st,hst,hall,rfl⟩ := hs
    cases hadding : s.adding with
    | cons tx adding =>
      have htx : s.adding[0]?=some tx := by simp [hadding]
      have hlt : 2*adding.length+(st.left++[tx]).length<2*s.adding.length+st.left.length := by
        simp [hadding]
        omega
      obtain ⟨more,hmore,hex⟩ := ih _ hlt (s:=s.step O (.notify 0)) (by
        rw [step_notify_some htx]
        refine ⟨st.receive tx,by simp [hst],hall,?_⟩
        rw [PendingTransactions.left_receive]
        simp [hadding])
      exact ⟨.notify 0::more,by simpa [Settling] using hmore,hex⟩
    | nil =>
      obtain ⟨-,hpoll⟩ | ⟨t,st',hpoll,hall',-,-,hperm⟩ :=
        PendingTransactions.pollNext_cases (O:=O) hall
      · exact ⟨[],by simp,hadding,st,hst,hall,by rw [hpoll]⟩
      · have hlen := hperm.length_eq
        have hlt : 2*s.adding.length+st'.left.length<2*s.adding.length+st.left.length := by
          simp at hlen
          omega
        obtain ⟨more,hmore,hex⟩ := ih _ hlt (s:=s.step O (.poll stream))
          ⟨st',by simp [step,hst,hpoll],hall',rfl⟩
        exact ⟨.poll stream::more,by simpa [Settling] using hmore,hex⟩

theorem Made.yielded_perm {ops : List (StreamOp T P)} (h : (run O ops).Made stream repeated)
    (hex : Exhausted O (run O ops) stream) (hst : (run O ops).streams[stream]?=some st) :
    st.yielded.Perm ((run O ops).transactions++repeated) := by
  obtain ⟨hadding,st₁,hst₁,hall,hwait⟩ := hex
  obtain ⟨st₂,hst₂,-,rfl⟩ := h
  obtain rfl := Option.some.inj (hst₁.symm.trans hst)
  obtain rfl := Option.some.inj (hst₂.symm.trans hst)
  have hcount := (accounted_run ops st₂ (List.mem_of_getElem? hst)).counted hall
  obtain ⟨hleft,-⟩ | ⟨t,st',hpoll,-⟩ := PendingTransactions.pollNext_cases (O:=O) hall
  · simpa [hleft,hadding] using hcount
  · rw [hpoll] at hwait
    cases hwait

/-- Whatever the interleaving, a stream loses no transaction; it returns none twice exactly if no
transaction was announced or about to be announced to it when it read the set. -/
theorem stream_exactly_once_iff (ops : List (StreamOp T P)) (stream : Nat)
    (st : PendingTransactions T P) (hst : (run O ops).streams[stream]?=some st)
    (hmade : st.all≠none) :
    (ExactlyOnce O ops stream ↔ st.repeated=[]) ∧
    ∀ more st', (∀ op∈more, Settling stream op) → Exhausted O (run O (ops++more)) stream →
      (run O (ops++more)).streams[stream]?=some st' →
      ∀ tx∈(run O (ops++more)).transactions, tx∈st'.yielded := by
  have hm : (run O ops).Made stream st.repeated := ⟨st,hst,hmade,rfl⟩
  obtain ⟨more,hmore,hex⟩ := exists_exhausted (O:=O) _ ⟨st,hst,hmade,rfl⟩
  rw [run,←List.foldl_append] at hex
  refine ⟨⟨fun h => ?_,fun hnone => ⟨⟨more,hmore,hex⟩,?_⟩⟩,?_⟩
  · obtain ⟨-,st',hst',-,-⟩ := id hex
    have honce := (h.2 more st' hmore hex hst').length_eq
    have hcount := ((hm.settled hmore).yielded_perm hex hst').length_eq
    rw [honce,List.length_append] at hcount
    exact List.length_eq_zero_iff.mp (by omega)
  · intro more' st' hmore' hex' hst'
    simpa [hnone] using (hm.settled hmore').yielded_perm hex' hst'
  · intro more' st' hmore' hex' hst' tx htx
    exact ((hm.settled hmore').yielded_perm hex' hst').mem_iff.mpr (List.mem_append_left _ htx)

end Streaming
end

/-- The first transaction is announced before the stream is made, the second one after the stream
read the set. -/
theorem announced_around_snapshot_returned_once :
    let tx (nonce : Felt) : PendingTx Unit Nat := ⟨⟨1,nonce⟩,(),nonce.val⟩
    let ops : List (StreamOp Unit Nat) :=
      [.insert (tx 0),.notify 0,.subscribe,.snapshot 0,.insert (tx 1),.notify 0]
    (∃ st, (Streaming.run FiFo ops).streams[0]?=some st ∧ st.all≠none ∧ st.repeated=[]) ∧
      Streaming.ExactlyOnce FiFo ops 0 := by
  intro tx ops
  have hst : (Streaming.run FiFo ops).streams[0]?=
      some (({ all := some [tx 0] } : PendingTransactions Unit Nat).receive (tx 1)) := rfl
  have hmade : (({ all := some [tx 0] } : PendingTransactions Unit Nat).receive (tx 1)).all≠none :=
    nofun
  exact ⟨⟨_,hst,hmade,rfl⟩,(Streaming.stream_exactly_once_iff ops 0 _ hst hmade).1.mpr rfl⟩

/-- The transaction is in the set when the stream reads it and is announced after that. -/
theorem announced_after_snapshot_returned_twice :
    let tx : PendingTx Unit Nat := ⟨⟨1,0⟩,(),0⟩
    let ops : List (StreamOp Unit Nat) :=
      [.subscribe,.insert tx,.snapshot 0,.notify 0,.poll 0,.poll 0]
    (Streaming.run FiFo ops).streams.map PendingTransactions.yielded=[[tx,tx]] ∧
      (Streaming.run FiFo ops).transactions=[tx] ∧ ¬Streaming.ExactlyOnce FiFo ops 0 := by
  intro tx ops
  have hst : (Streaming.run FiFo (ops++[])).streams[0]?=some ⟨some [],{},[tx,tx],[tx]⟩ := rfl
  refine ⟨rfl,rfl,?_⟩
  intro h
  have hperm := h.2 [] _ (by simp) ⟨rfl,_,hst,by simp,rfl⟩ hst
  exact absurd hperm.length_eq (by decide)

end Katana.TransactionPool
