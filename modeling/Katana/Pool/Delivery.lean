import Katana.Pool.Nonces
import Katana.Pool.Streaming

/-! The way of a transaction from add_transaction to the block producer (pool.rs, subscription.rs
and tx.rs of the pool crate, TransactionMiner in core/service/mod.rs). The calls take their steps
independently: the validation, the priority, the insertion in the set and the notification. -/
namespace Katana.TransactionPool
open Transition
variable {T V O P : Type}

/-- A pool with the miner that polls it. Accepted are the ids of all transactions judged valid,
validated, prioritised and adding those of the calls before their next step. -/
structure Delivery (T V O P : Type) where
  validator : V
  ordering : O
  accepted : List TxId := []
  validated : List (TxId × T) := []
  prioritised : List (PendingTx T P) := []
  transactions : List (PendingTx T P) := []
  adding : List (PendingTx T P) := []
  pendingTxs : PendingTransactions T P := { all := some [] }
  /-- The transactions of the poll that is going on, and the batches of the earlier ones. -/
  batch : List (PendingTx T P) := []
  queued : List (List (PendingTx T P)) := []

inductive DeliveryOp (T V : Type) where
  | validate (tx : T)
  | update (validator : V)
  | priority (call : Nat)
  | insert (call : Nat)
  | notify (call : Nat)
  | poll

namespace Delivery

variable (s : Delivery T V O P)

/-- What the block producer gets, in the order it gets it. -/
def received : List (PendingTx T P) := s.queued.flatten++s.batch

/-- The transactions of the calls that have made their notification. -/
def announced : List (PendingTx T P) := s.pendingTxs.yielded++s.pendingTxs.left

/-- Before a transaction come all accepted ones of its sender with smaller nonces. -/
def InNonceOrder : Prop :=
  ∀ before tx after, s.received=before++tx::after → ∀ id : TxId, id.sender=tx.id.sender →
    id.nonce<tx.id.nonce → s.accepted.count id≤(before.map PendingTx.id).count id

def places : List TxId :=
  s.validated.map Prod.fst++s.prioritised.map PendingTx.id++s.adding.map PendingTx.id++
    s.announced.map PendingTx.id

def Ascending (ids : List TxId) : Prop :=
  ids.Pairwise fun a b => a.sender=b.sender → a.nonce<b.nonce

structure Inv (s : Delivery T V O P) : Prop where
  all : s.pendingTxs.all=some []
  delivered : s.received=s.pendingTxs.yielded
  accepted : Ascending s.accepted
  placed : s.places.Perm s.accepted
  ascending : Ascending (s.announced.map PendingTx.id)
  closed : ∀ tx∈s.announced, ∀ id∈s.accepted, id.sender=tx.id.sender → id.nonce<tx.id.nonce →
    id∈s.announced.map PendingTx.id

theorem Ascending.nodup {ids : List TxId} (h : Ascending ids) : ids.Nodup := by
  refine List.Pairwise.imp ?_ h
  rintro a b hlt rfl
  exact lt_irrefl _ (hlt rfl)

theorem Inv.initial (validator : V) (ordering : O) :
    Inv ({ validator, ordering } : Delivery T V O P) := by
  refine ⟨rfl,rfl,List.Pairwise.nil,List.Perm.refl _,List.Pairwise.nil,?_⟩
  intro tx htx
  cases htx

theorem Inv.inNonceOrder {s : Delivery T V O P} (h : s.Inv) : s.InNonceOrder := by
  intro before tx after hsplit id hsender hlt
  by_cases hid : id∈s.accepted
  swap
  · rw [List.count_eq_zero.mpr hid]
    exact Nat.zero_le _
  have hann : s.announced=before++tx::(after++s.pendingTxs.left) := by
    rw [announced,←h.delivered,hsplit,List.append_assoc,List.cons_append]
  have hmem := h.closed tx (by simp [hann]) id hid hsender hlt
  have hasc := h.ascending
  rw [hann,List.map_append,List.map_cons,List.mem_append,List.mem_cons] at hmem
  rw [hann,List.map_append,List.map_cons,Ascending,List.pairwise_append,List.pairwise_cons] at hasc
  rcases hmem with hbefore | rfl | hafter
  · rw [List.count_eq_one_of_mem h.accepted.nodup hid]
    exact List.count_pos_iff.mpr hbefore
  · exact absurd hlt (lt_irrefl _)
  · exact absurd (hasc.2.1.1 id hafter hsender.symm) (not_lt.mpr hlt.le)

theorem Inv.above_announced {s : Delivery T V O P} (h : s.Inv) {tx : PendingTx T P}
    (htx : tx∈s.adding) :
    ∀ t∈s.announced, t.id.sender=tx.id.sender → t.id.nonce<tx.id.nonce := by
  intro t ht hsender
  have hnodup : s.places.Nodup := h.placed.nodup_iff.mpr h.accepted.nodup
  have hnot : tx.id∉s.announced.map PendingTx.id := by
    intro hmem
    refine (List.nodup_append.mp hnodup).2.2 tx.id ?_ tx.id hmem rfl
    exact List.mem_append_right _ (List.mem_map_of_mem htx)
  have hacc : tx.id∈s.accepted := by
    refine h.placed.mem_iff.mp (List.mem_append_left _ (List.mem_append_right _ ?_))
    exact List.mem_map_of_mem htx
  rcases lt_trichotomy t.id.nonce tx.id.nonce with hlt | heq | hgt
  · exact hlt
  · have hid : t.id=tx.id := by
      cases ht' : t.id
      cases htx' : tx.id
      simp_all
    exact absurd (hid ▸ List.mem_map_of_mem ht) hnot
  · exact absurd (h.closed t ht tx.id hacc hsender.symm hgt) hnot

theorem Inv.poll_some {s : Delivery T V O P} (h : s.Inv) {t : PendingTx T P}
    {st : PendingTransactions T P}
    (hall : st.all=some []) (hyielded : st.yielded=s.pendingTxs.yielded++[t])
    (hperm : (st.yielded++st.left).Perm s.announced)
    (hasc : Ascending ((st.yielded++st.left).map PendingTx.id)) :
    Inv { s with pendingTxs := st, batch := s.batch++[t] } := by
  have hids := hperm.map PendingTx.id
  refine ⟨hall,?_,h.accepted,?_,hasc,?_⟩
  · rw [hyielded,←h.delivered]
    simp [received]
  · exact (hids.append_left _).trans h.placed
  · intro tx htx id hid hsender hlt
    exact hids.mem_iff.mpr (h.closed tx (hperm.mem_iff.mp htx) id hid hsender hlt)

variable [PoolOrd O T P]

theorem pollNext_drained {st : PendingTransactions T P} (hall : st.all=some []) :
    (st.pollNext O).1=none ∧ (st.pollNext O).2=st ∨
    ∃ t, (st.pollNext O).1=some t ∧ (st.pollNext O).2.all=some [] ∧
      (st.pollNext O).2.yielded=st.yielded++[t] ∧
      (t::(st.pollNext O).2.left=st.left ∨ st.subscription.txs=[] ∧
        t::(st.pollNext O).2.left=insertAll O st.subscription.channel) := by
  obtain ⟨all,⟨txs,channel⟩,yielded,repeated⟩ := st
  obtain rfl : all=some [] := hall
  cases txs with
  | cons t ts => exact Or.inr ⟨t,rfl,rfl,rfl,Or.inl rfl⟩
  | nil =>
    cases hc : insertAll O channel with
    | nil => simp [PendingTransactions.pollNext,Subscription.pollNext,hc]
    | cons t ts =>
      simp [PendingTransactions.pollNext,Subscription.pollNext,hc,PendingTransactions.left]

theorem ascending_insertAll [Std.TransCmp (PoolOrd.cmp O T)] {yielded channel : List (PendingTx T P)}
    (hc : Compatible O channel) (h : Ascending ((yielded++channel).map PendingTx.id)) :
    Ascending ((yielded++insertAll O channel).map PendingTx.id) := by
  rw [List.map_append] at h ⊢
  obtain ⟨hyielded,hchannel,hcross⟩ := List.pairwise_append.mp h
  have hids : (channel.map PendingTx.id).Nodup := Ascending.nodup hchannel
  have hlawful : Lawful O channel := hc.lawful hids
  have hmem {t : PendingTx T P} : t∈insertAll O channel ↔ t∈channel :=
    (insertAll_perm channel).mem_iff
  refine List.pairwise_append.mpr ⟨hyielded,?_,?_⟩
  · rw [List.pairwise_map]
    refine (hlawful.insertAll hids).imp_of_mem ?_
    intro a b ha hb hlt hsender
    exact (hlawful.nonce a (hmem.mp ha) b (hmem.mp hb) hsender).mp hlt
  · intro a ha b hb
    exact hcross a ha b (((insertAll_perm channel).map PendingTx.id).mem_iff.mp hb)

variable [PoolTransaction T] [Validator V T]

def step (s : Delivery T V O P) : DeliveryOp T V → Delivery T V O P
  | .validate tx =>
    match PoolTransaction.nonce tx,Validator.validate s.validator tx with
    | some nonce,(some (.ok (.valid tx')),v) =>
      let id : TxId := ⟨PoolTransaction.sender tx,nonce⟩
      { s with
        validator := v, accepted := s.accepted++[id], validated := s.validated++[(id,tx')] }
    | some _,(_,v) => { s with validator := v }
    | none,_ => s
  | .update validator => { s with validator }
  | .priority call =>
    match s.validated[call]? with
    | none => s
    | some (id,tx) =>
      let (priority,ordering) := PoolOrd.priority s.ordering tx
      { s with
        ordering
        validated := s.validated.eraseIdx call
        prioritised := s.prioritised++[⟨id,tx,priority⟩] }
  | .insert call =>
    match s.prioritised[call]? with
    | none => s
    | some tx =>
      { s with
        prioritised := s.prioritised.eraseIdx call
        transactions := insertPending O tx s.transactions
        adding := s.adding++[tx] }
  | .notify call =>
    match s.adding[call]? with
    | none => s
    | some tx =>
      { s with
        adding := s.adding.eraseIdx call
        pendingTxs := s.pendingTxs.receive tx }
  -- a poll of the miner asks the stream until it has nothing
  | .poll =>
    match s.pendingTxs.pollNext O with
    | (some tx,pendingTxs) => { s with pendingTxs, batch := s.batch++[tx] }
    | (none,pendingTxs) =>
      { s with
        pendingTxs
        batch := []
        queued := if s.batch.isEmpty then s.queued else s.queued++[s.batch] }

/-- The nonces of a sender are accepted in order and announced in order, and what a poll takes out
of the channel has priorities that are compatible with the nonces. -/
def InTurn (s : Delivery T V O P) : DeliveryOp T V → Prop
  | .validate tx => ∀ nonce tx', PoolTransaction.nonce tx=some nonce →
    (Validator.validate s.validator tx).1=some (.ok (.valid tx')) →
    ∀ id∈s.accepted, id.sender=PoolTransaction.sender tx → id.nonce<nonce
  | .notify call => ∀ tx, s.adding[call]?=some tx → ∀ id∈s.accepted, id.sender=tx.id.sender →
    id.nonce<tx.id.nonce → id∈s.announced.map PendingTx.id
  | .poll => s.pendingTxs.subscription.txs=[] → Compatible O s.pendingTxs.subscription.channel
  | _ => True

section Steps
variable {s : Delivery T V O P}

theorem erase_perm {α : Type*} {l : List α} {i : Nat} {x : α} (h : l[i]?=some x) :
    l.Perm (l.eraseIdx i++[x]) := by
  obtain ⟨hlt,rfl⟩ := List.getElem?_eq_some_iff.mp h
  exact (List.getElem_cons_eraseIdx_perm hlt).symm.trans (List.perm_append_singleton _ _).symm

theorem step_validate_cases (s : Delivery T V O P) (tx : T) :
    (∃ nonce tx' v, PoolTransaction.nonce tx=some nonce ∧
      (Validator.validate s.validator tx).1=some (.ok (.valid tx')) ∧
      s.step (.validate tx)={ s with
        validator := v
        accepted := s.accepted++[⟨PoolTransaction.sender tx,nonce⟩]
        validated := s.validated++[(⟨PoolTransaction.sender tx,nonce⟩,tx')] }) ∨
    ∃ v, s.step (.validate tx)={ s with validator := v } := by
  unfold step
  dsimp only
  split
  · rename_i nonce tx' v hn hv
    exact Or.inl ⟨nonce,tx',v,hn,by rw [hv],rfl⟩
  · exact Or.inr ⟨_,rfl⟩
  · exact Or.inr ⟨_,rfl⟩

theorem Inv.validate (h : s.Inv) {tx : T} (ht : s.InTurn (.validate tx)) :
    (s.step (.validate tx)).Inv := by
  obtain ⟨nonce,tx',v,hn,hv,hs⟩ | ⟨v,hs⟩ := s.step_validate_cases tx
  · rw [hs]
    have hlast := ht nonce tx' hn hv
    refine ⟨h.all,h.delivered,?_,?_,h.ascending,?_⟩
    · refine List.pairwise_append.mpr ⟨h.accepted,List.pairwise_singleton _ _,?_⟩
      intro a ha b hb hsender
      obtain rfl := List.mem_singleton.mp hb
      exact hlast a ha hsender
    · refine List.perm_iff_count.mpr fun id => ?_
      have hcount := h.placed.count_eq id
      simp only [places,announced,List.count_append,List.map_append,List.map_cons,List.map_nil]
        at hcount ⊢
      omega
    · intro t ht' id hid hsender hlt
      rcases List.mem_append.mp hid with hid | hid
      · exact h.closed t ht' id hid hsender hlt
      · obtain rfl := List.mem_singleton.mp hid
        have hmem := h.placed.mem_iff.mp (List.mem_append_right _ (List.mem_map_of_mem ht'))
        exact absurd (hlast t.id hmem hsender.symm) (not_lt.mpr hlt.le)
  · rw [hs]
    exact ⟨h.all,h.delivered,h.accepted,h.placed,h.ascending,h.closed⟩

theorem Inv.priority (h : s.Inv) (call : Nat) : (s.step (.priority call)).Inv := by
  cases hc : s.validated[call]? with
  | none =>
    simp only [Delivery.step,hc]
    exact h
  | some v =>
    obtain ⟨id,tx⟩ := v
    simp only [Delivery.step,hc]
    refine ⟨h.all,h.delivered,h.accepted,?_,h.ascending,h.closed⟩
    refine List.perm_iff_count.mpr fun i => ?_
    have hcount := h.placed.count_eq i
    have hmoved := ((erase_perm hc).map Prod.fst).count_eq i
    simp only [places,announced,List.count_append,List.map_append,List.map_cons,List.map_nil]
      at hcount hmoved ⊢
    omega

theorem Inv.insert (h : s.Inv) (call : Nat) : (s.step (.insert call)).Inv := by
  cases hc : s.prioritised[call]? with
  | none =>
    simp only [Delivery.step,hc]
    exact h
  | some tx =>
    simp only [Delivery.step,hc]
    refine ⟨h.all,h.delivered,h.accepted,?_,h.ascending,h.closed⟩
    refine List.perm_iff_count.mpr fun i => ?_
    have hcount := h.placed.count_eq i
    have hmoved := ((erase_perm hc).map PendingTx.id).count_eq i
    simp only [places,announced,List.count_append,List.map_append,List.map_cons,List.map_nil]
      at hcount hmoved ⊢
    omega

theorem Inv.notify (h : s.Inv) {call : Nat} (ht : s.InTurn (.notify call)) :
    (s.step (.notify call)).Inv := by
  cases hc : s.adding[call]? with
  | none =>
    simp only [Delivery.step,hc]
    exact h
  | some tx =>
    simp only [Delivery.step,hc]
    have hann : (s.pendingTxs.receive tx).yielded++(s.pendingTxs.receive tx).left=
        s.announced++[tx] := by
      rw [PendingTransactions.left_receive,←List.append_assoc]
      rfl
    refine ⟨h.all,h.delivered,h.accepted,?_,?_,?_⟩
    · refine List.perm_iff_count.mpr fun i => ?_
      have hcount := h.placed.count_eq i
      have hmoved := ((erase_perm hc).map PendingTx.id).count_eq i
      simp only [places,announced,hann] at hcount ⊢
      simp only [List.count_append,List.map_append,List.map_cons,List.map_nil] at hcount hmoved ⊢
      omega
    · rw [announced,hann,List.map_append]
      refine List.pairwise_append.mpr ⟨h.ascending,List.pairwise_singleton _ _,?_⟩
      intro a ha b hb hsender
      obtain rfl := List.mem_singleton.mp hb
      obtain ⟨t,ht',rfl⟩ := List.mem_map.mp ha
      exact h.above_announced (List.mem_of_getElem? hc) t ht' hsender
    · rw [announced,hann,List.map_append]
      intro t ht' id hid hsender hlt
      refine List.mem_append_left _ ?_
      rcases List.mem_append.mp ht' with ht' | ht'
      · exact h.closed t ht' id hid hsender hlt
      · obtain rfl := List.mem_singleton.mp ht'
        exact ht t hc id hid hsender hlt

theorem Inv.poll [Std.TransCmp (PoolOrd.cmp O T)] (h : s.Inv) (ht : s.InTurn .poll) :
    (s.step .poll).Inv := by
  have hpair : s.pendingTxs.pollNext O=
      ((s.pendingTxs.pollNext O).1,(s.pendingTxs.pollNext O).2) := rfl
  obtain ⟨hnone,hsame⟩ | ⟨t,hsome,hall,hyielded,hleft⟩ := pollNext_drained (O:=O) h.all
  · simp only [Delivery.step]
    rw [hpair,hnone,hsame]
    refine ⟨h.all,?_,h.accepted,h.placed,h.ascending,h.closed⟩
    rw [←h.delivered]
    cases hb : s.batch <;> simp [received,hb]
  · simp only [Delivery.step]
    rw [hpair,hsome]
    have hann : (s.pendingTxs.pollNext O).2.yielded++(s.pendingTxs.pollNext O).2.left=
        s.pendingTxs.yielded++t::(s.pendingTxs.pollNext O).2.left := by
      simp [hyielded]
    rcases hleft with hleft | ⟨htxs,hleft⟩
    · rw [hleft] at hann
      exact h.poll_some hall hyielded (by rw [hann]; exact List.Perm.refl _)
        (by rw [hann]; exact h.ascending)
    · rw [hleft] at hann
      have hchannel : s.pendingTxs.left=s.pendingTxs.subscription.channel := by
        simp [PendingTransactions.left,h.all,htxs]
      refine h.poll_some hall hyielded ?_ ?_
      · rw [hann,announced,hchannel]
        exact (insertAll_perm _).append_left _
      · rw [hann]
        refine ascending_insertAll (ht htxs) ?_
        rw [←hchannel]
        exact h.ascending

theorem Inv.step [Std.TransCmp (PoolOrd.cmp O T)] (h : s.Inv) {op : DeliveryOp T V}
    (ht : s.InTurn op) : (s.step op).Inv := by
  cases op with
  | validate tx => exact h.validate ht
  | update validator => exact ⟨h.all,h.delivered,h.accepted,h.placed,h.ascending,h.closed⟩
  | priority call => exact h.priority call
  | insert call => exact h.insert call
  | notify call => exact h.notify ht
  | poll => exact h.poll ht

end Steps
end Delivery

/-- When the nonces of every sender are accepted and announced in order, with priorities that are
compatible with them, the block producer gets them in order. -/
theorem delivered_in_nonce_order [PoolOrd O T P] [PoolTransaction T] [Validator V T]
    [Std.TransCmp (PoolOrd.cmp O T)] (validator : V) (ordering : O) (ops : List (DeliveryOp T V))
    (s : Delivery T V O P)
    (h : Run (Restrict Delivery.InTurn fun s op t => s.step op=t) { validator, ordering } ops s) :
    s.InNonceOrder := by
  refine Delivery.Inv.inNonceOrder (h.invariant ?_ (.initial validator ordering))
  rintro s op t hi ⟨ht,rfl⟩
  exact hi.step ht

instance (T : Type) : Std.TransCmp (PoolOrd.cmp FiFo T) :=
  inferInstanceAs (Std.TransCmp (compare : Nat → Nat → Ordering))

def deliveryZero : Delivery (ExecutableTxWithHash Unit) (TxValidator relaxedVm) FiFo Nat where
  validator := { cfgEnv := (), blockEnv := (), executionFlags := {}, state := zeroNonces }
  ordering := {}

def inTurnOps : List (DeliveryOp (ExecutableTxWithHash Unit) (TxValidator relaxedVm)) := [
  .validate (invokeV3 0 1 100),.priority 0,.insert 0,.notify 0,
  .validate (invokeV3 1 1 101),.priority 0,.insert 0,.poll,.notify 0,.poll,.poll]

theorem compatible_singleton (tx : PendingTx T P) [PoolOrd O T P] : Compatible O [tx] := by
  constructor <;> simp +contextual

theorem inTurnOps_run : Run (Restrict Delivery.InTurn fun s op t => s.step op=t) deliveryZero
    inTurnOps (inTurnOps.foldl Delivery.step deliveryZero) := by
  refine .cons ⟨nofun,rfl⟩ <| .cons ⟨trivial,rfl⟩ <|
    .cons ⟨trivial,rfl⟩ <| .cons ⟨?_,rfl⟩ <| .cons ⟨?_,rfl⟩ <| .cons ⟨trivial,rfl⟩ <|
    .cons ⟨trivial,rfl⟩ <| .cons ⟨fun _ => compatible_singleton _,rfl⟩ <| .cons ⟨?_,rfl⟩ <|
    .cons ⟨fun _ => compatible_singleton _,rfl⟩ <| .cons ⟨fun _ => ⟨nofun,nofun⟩,rfl⟩ <| .nil _
  · intro tx htx id hid _ hlt
    cases htx
    obtain rfl := List.mem_singleton.mp hid
    exact absurd hlt (lt_irrefl _)
  · intro nonce tx' hn _ id hid _
    cases hn
    obtain rfl := List.mem_singleton.mp hid
    decide
  · intro tx htx id hid _ hlt
    cases htx
    rcases List.mem_cons.mp hid with rfl | hid
    · exact List.mem_singleton.mpr rfl
    · obtain rfl := List.mem_singleton.mp hid
      exact absurd hlt (lt_irrefl _)

theorem calls_in_turn_delivered :
    (inTurnOps.foldl Delivery.step deliveryZero).queued.map (·.map PendingTx.id)=
      [[⟨1,0⟩,⟨1,1⟩]] ∧
    (inTurnOps.foldl Delivery.step deliveryZero).InNonceOrder :=
  ⟨rfl,delivered_in_nonce_order deliveryZero.validator deliveryZero.ordering inTurnOps _
    inTurnOps_run⟩

/-- The second call is announced and polled before the first one. -/
def overtakingOps : List (DeliveryOp (ExecutableTxWithHash Unit) (TxValidator relaxedVm)) := [
  .validate (invokeV3 0 1 100),.validate (invokeV3 1 1 101),.priority 0,.priority 0,.insert 0,
  .insert 0,.notify 1,.poll,.poll,.notify 0,.poll,.poll]

/-- All calls are announced before the poll, but the later nonce got the first priority. -/
def cyclicOps : List (DeliveryOp (ExecutableTxWithHash Unit) (TxValidator relaxedVm)) := [
  .validate (invokeV3 0 1 100),.validate (invokeV3 1 1 101),.validate (invokeV3 0 2 102),
  .priority 1,.priority 1,.priority 0,.insert 0,.insert 0,.insert 0,
  .notify 1,.notify 1,.notify 0,.poll,.poll,.poll,.poll]

/-- One call after the other, the last one with a nonce that was used before. -/
def reusedOps : List (DeliveryOp (ExecutableTxWithHash Unit) (TxValidator relaxedVm)) := [
  .validate (invokeV3 0 1 100),.priority 0,.insert 0,.notify 0,.poll,.poll,
  .validate (invokeV3 1 1 101),.priority 0,.insert 0,.notify 0,.poll,.poll,
  .validate (invokeV3 0 1 102),.priority 0,.insert 0,.notify 0,.poll,.poll]

theorem later_nonce_delivered_first :
    ((overtakingOps.foldl Delivery.step deliveryZero).queued.map (·.map PendingTx.id)=
      [[⟨1,1⟩],[⟨1,0⟩]] ∧
      ¬(overtakingOps.foldl Delivery.step deliveryZero).InNonceOrder) ∧
    ((cyclicOps.foldl Delivery.step deliveryZero).queued.map (·.map PendingTx.id)=
      [[⟨1,1⟩,⟨2,0⟩,⟨1,0⟩]] ∧
      ¬(cyclicOps.foldl Delivery.step deliveryZero).InNonceOrder) ∧
    ((reusedOps.foldl Delivery.step deliveryZero).queued.map (·.map PendingTx.id)=
      [[⟨1,0⟩],[⟨1,1⟩],[⟨1,0⟩]] ∧
      ¬(reusedOps.foldl Delivery.step deliveryZero).InNonceOrder) := by
  refine ⟨⟨rfl,fun h => ?_⟩,⟨rfl,fun h => ?_⟩,⟨rfl,fun h => ?_⟩⟩
  · exact absurd (h [] _ _ rfl ⟨1,0⟩ rfl (by decide)) (by decide)
  · exact absurd (h [] _ _ rfl ⟨1,0⟩ rfl (by decide)) (by decide)
  · exact absurd (h [_] _ _ rfl ⟨1,0⟩ rfl (by decide)) (by decide)

end Katana.TransactionPool
