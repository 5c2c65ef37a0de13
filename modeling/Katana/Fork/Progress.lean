import Katana.Fork.Protocol

/-! The fork backend answers every request. A request that waits is served within two
rounds of the loop, so the steps until its answer are bounded, but for the requests that
come in meanwhile and for the polls at which its own call had not returned. -/
namespace Katana.Fork.Serving
variable {Class : Type} {s t : Serving Class} {req : BackendRequest}

theorem Inv.received_nodup (h : s.Inv) : (s.received.map BackendRequest.sender).Nodup := by
  have hn := (h.sent.map BackendRequest.sender).nodup_iff.mp h.senders
  rw [List.map_append] at hn
  exact hn.of_append_left

theorem Inv.eq_of_sender (h : s.Inv) {r : BackendRequest} (hr : r∈s.received)
    (hreq : req∈s.received) (he : r.sender=req.sender) : r=req :=
  List.inj_on_of_nodup_map h.received_nodup hr hreq he

theorem Inv.queued_iff (h : s.Inv) (hreq : req∈s.received) :
    req∈s.backend.queuedRequests ↔
      req.sender∈s.backend.queuedRequests.map BackendRequest.sender := by
  refine ⟨List.mem_map_of_mem,?_⟩
  intro hm
  obtain ⟨r,hr,he⟩ := List.mem_map.mp hm
  exact h.eq_of_sender (h.queued r hr) hreq he ▸ hr

theorem Inv.waiting_iff (h : s.Inv) (hreq : req∈s.received) :
    s.Waiting req ↔ req.sender∈s.backend.requests.waiting := by
  rw [h.wf.mem_waiting]
  constructor
  · rintro ⟨senders,hm,hx⟩
    exact ⟨_,senders,hm,hx⟩
  · rintro ⟨id,senders,hm,hx⟩
    obtain ⟨r,hr,he,rfl⟩ := h.waits id senders hm _ hx
    obtain rfl := h.eq_of_sender hr hreq he
    exact ⟨senders,hm,hx⟩

theorem Inv.sound (h : s.Inv) : s.Sound where
  place := by
    intro req hreq
    have hmem := h.places.mem_iff.mp (List.mem_map_of_mem hreq)
    have hn := h.places.nodup_iff.mp h.received_nodup
    rw [List.nodup_append,List.nodup_append] at hn
    obtain ⟨⟨_,_,hqw⟩,_,ha⟩ := hn
    rw [List.mem_append,List.mem_append] at hmem
    rw [h.queued_iff hreq,h.waiting_iff hreq]
    unfold Answered
    rcases hmem with (hm | hm) | hm
    · exact Or.inl ⟨hm,fun hw => hqw _ hm _ hw rfl,
        fun hx => ha _ (List.mem_append_left _ hm) _ hx rfl⟩
    · exact Or.inr (Or.inl ⟨fun hq => hqw _ hq _ hm rfl,hm,
        fun hx => ha _ (List.mem_append_right _ hm) _ hx rfl⟩)
    · exact Or.inr (Or.inr ⟨fun hq => ha _ (List.mem_append_left _ hq) _ hm rfl,
        fun hw => ha _ (List.mem_append_right _ hw) _ hm rfl,hm⟩)
  keys := h.wf.keys
  inFlight := h.wf.nodup
  once := (List.nodup_append.mp (h.places.nodup_iff.mp h.received_nodup)).2.1
  own := h.own
  expected := by
    intro a ha req hreq hs text m
    obtain ⟨r,hr,hs',res,hres,_⟩ := h.own a ha
    obtain rfl := h.eq_of_sender hr hreq (hs'.trans hs.symm)
    rw [hres]
    exact receive_own text r _ res m
  calm := h.calm

theorem Inv.waiting_of_not (h : s.Inv) (hs : req∈s.sent) (hi : req∉s.backend.incoming)
    (hq : req∉s.backend.queuedRequests) (ha : ¬s.Answered req) :
    req∈s.received ∧ s.Waiting req := by
  have hr : req∈s.received :=
    (List.mem_append.mp (h.sent.mem_iff.mp hs)).resolve_right hi
  refine ⟨hr,?_⟩
  rcases h.sound.place req hr with hp | hp | hp
  · exact absurd hp.1 hq
  · exact hp.2.1
  · exact absurd hp.2.2 ha

section
variable (s : Serving Class)

/-- The next future to be polled is the one for the id. -/
def PollsFor (id : BackendRequestIdentifier) : Prop :=
  ∃ n fut, s.point=.pending (n+1) ∧ s.backend.requests.pending[n]?=some (id,fut)

theorem Polls.pollsFor {n : Nat} {futKey : BackendRequestIdentifier}
    {rest : List (BackendRequestIdentifier × RpcCall)} (h : s.Polls n futKey rest) :
    s.PollsFor futKey := by
  refine ⟨n,futKey.call s.backend.block,h.point,?_⟩
  have hn : (rest.take n).length=n := by simp [h.bound]
  rw [← List.getElem?_take_of_lt (Nat.lt_succ_self n),h.take,
    List.getElem?_append_right (by omega),hn]
  simp

/-- Steps that one round of the loop takes at most. -/
def span : Nat :=
  2*(s.backend.incoming.length+s.backend.queuedRequests.length)+
    s.backend.requests.pending.length+6

def left : Nat :=
  match s.point with
  | .yielded => 2*s.backend.queuedRequests.length+s.backend.incoming.length+
      s.backend.requests.pending.length+5
  | .queue => 2*s.backend.queuedRequests.length+s.backend.incoming.length+
      s.backend.requests.pending.length+4
  | .incoming => s.backend.incoming.length+s.backend.requests.pending.length+3
  | .pending n => n+2
  | .check => 1
  | _ => 0

/-- Rounds to come after this one before the call of the request is polled. -/
def rounds (req : BackendRequest) : Nat :=
  if req∈s.backend.incoming then
    match s.point with
    | .yielded | .queue | .incoming => 1
    | _ => 2
  else if req∈s.backend.queuedRequests then
    match s.point with
    | .yielded | .queue => 0
    | _ => 1
  else
    match s.point with
    | .yielded | .queue | .incoming => 0
    | .pending n =>
      if req.identifier∈(s.backend.requests.pending.take n).map Prod.fst then 0 else 1
    | _ => 1

def rank (req : BackendRequest) : Nat := s.span*s.rounds req+s.left

theorem rounds_le (req : BackendRequest) : s.rounds req≤2 := by
  unfold rounds
  split
  · split <;> omega
  · split
    · split <;> omega
    · split
      all_goals try omega
      split <;> omega

end

theorem rank_lt (hspan : t.span≤ s.span) (hrounds : t.rounds req≤ s.rounds req)
    (hleft : t.left<s.left) : t.rank req<s.rank req :=
  Nat.add_lt_add_of_le_of_lt (Nat.mul_le_mul hspan hrounds) hleft

theorem rank_lt_of_round (hspan : t.span=s.span) (hrounds : s.rounds req=t.rounds req+1)
    (hleft : t.left<s.span+s.left) : t.rank req<s.rank req := by
  simp only [rank,hspan,hrounds,Nat.mul_succ]
  omega

theorem rank_le_of_send (hspan : t.span=s.span+2) (hrounds : t.rounds req=s.rounds req)
    (hleft : t.left≤ s.left+1) : t.rank req+1≤ s.rank req+7 := by
  have := s.rounds_le req
  simp only [rank,hspan,hrounds,Nat.add_mul]
  omega

def credit : Action Class → Nat
  | .send _ => 7
  | _ => 0

theorem Goes.closer (h : s.Inv) (hs : req∈s.sent) (ha : ¬s.Answered req) {a : Action Class}
    {point : PollPoint} (hg : s.Goes a point) :
    ({ s with point := point } : Serving Class).rank req<s.rank req := by
  cases hg with
  | poll hp | check hp =>
    refine rank_lt le_rfl ?_ ?_
    · simp [rounds,hp]
    · simp [left,hp]
  | receive hp hq =>
    refine rank_lt le_rfl ?_ ?_
    · simp [rounds,hp,hq]
    · simp [left,hp,hq]
  | resolve hp hi hc => exact absurd (h.closed hc req hs) ha
  | pollAll hp hi hc =>
    refine rank_lt le_rfl ?_ ?_
    · by_cases hq : req∈s.backend.queuedRequests
      · simp [rounds,hp,hi,hq]
      · obtain ⟨_,senders,hm,_⟩ := h.waiting_of_not hs (by simp [hi]) hq ha
        have hk := (h.wf.keys req.identifier).mp (by simp [hm])
        simp [rounds,hp,hi,hq,-List.mem_map,hk]
    · simp [left,hp,hi]
  | yield hp hq =>
    refine rank_lt_of_round rfl ?_ ?_
    · simp only [rounds,hp,hq]
      split <;> rfl
    · simp only [left,span,hp,hq,List.length_nil]
      omega
  | again hp hq =>
    refine rank_lt_of_round rfl ?_ ?_
    · simp only [rounds,hp]
      split
      · rfl
      · split <;> rfl
    · simp only [left,span,hp]
      omega

theorem Polls.mem_take {n : Nat} {futKey id : BackendRequestIdentifier}
    {rest : List (BackendRequestIdentifier × RpcCall)} (h : s.Polls n futKey rest)
    (hne : id≠futKey) :
    id∈(s.backend.requests.pending.take (n+1)).map Prod.fst ↔ id∈(rest.take n).map Prod.fst := by
  rw [h.take,List.map_append,List.mem_append]
  simp [hne]

theorem Moves.closer (h : s.Inv) (hs : req∈s.sent) (ha : ¬s.Answered req) {a : Action Class}
    (hm : s.Moves a t) (hready : a=.notReady → ¬s.PollsFor req.identifier) :
    t.Answered req ∨ t.rank req+1≤ s.rank req+credit a := by
  cases hm with
  | send hc hn =>
    right
    next r =>
    have hne : req≠r := fun he => hn (he ▸ List.mem_map_of_mem hs)
    refine rank_le_of_send ?_ ?_ ?_
    · simp only [span,List.length_append,List.length_singleton]
      omega
    · simp [rounds,hne]
    · simp only [left,List.length_append,List.length_singleton]
      split <;> omega
  | close hall => exact absurd (hall req hs) ha
  | goto hg =>
    right
    have := hg.closer h hs ha
    omega
  | handle hp hq =>
    right
    next r rest =>
    have hlen := s.backend.requests.length_join_le r.identifier r.sender
      (r.identifier.call s.backend.block)
    rw [Backend.handleRequests_eq]
    refine rank_lt ?_ ?_ ?_
    · simp only [span,Backend.dedupRequest,hq,List.length_cons]
      omega
    · simp [rounds,Backend.dedupRequest,hp,hq]
    · simp only [left,Backend.dedupRequest,hp,hq,List.length_cons]
      omega
  | receive hp hi =>
    right
    next r rest =>
    refine rank_lt ?_ ?_ ?_
    · simp only [span,hi,List.length_cons,List.length_append,List.length_nil]
      omega
    · simp only [rounds,hp,hi]
      by_cases hr : req=r <;> by_cases hrest : req∈rest <;> simp [hr,hrest]
    · simp [left,hp,hi]
  | requeue hp =>
    right
    next n futKey rest =>
    have hlen := hp.perm.length_eq
    have hne : req.identifier≠futKey := by
      rintro rfl
      exact hready rfl hp.pollsFor
    have htake := hp.mem_take hne
    refine rank_lt ?_ ?_ ?_
    · simp only [span,hlen,List.length_append,List.length_cons,List.length_nil]
      omega
    · simp only [rounds,hp.point,htake,List.take_append_of_le_length hp.bound,le_refl]
    · simp [left,hp.point]
  | deliver hp hsd res =>
    next n futKey rest senders =>
    have hlen := hp.perm.length_eq
    have hspan : ({ s with
        point := .pending n
        backend := { s.backend with requests := s.backend.requests.finish futKey rest } } :
          Serving Class).span≤ s.span := by
      simp only [span,InFlight.finish,hlen,List.length_cons]
      omega
    by_cases hi : req∈s.backend.incoming
    · exact Or.inr (rank_lt hspan (by simp [rounds,hp.point,hi]) (by simp [left,hp.point]))
    by_cases hq : req∈s.backend.queuedRequests
    · exact Or.inr (rank_lt hspan (by simp [rounds,hp.point,hi,hq]) (by simp [left,hp.point]))
    obtain ⟨_,senders',hm',hx⟩ := h.waiting_of_not hs hi hq ha
    by_cases hid : req.identifier=futKey
    · left
      rw [hid,hsd] at hm'
      cases hm'
      simp only [Answered,List.map_append,List.map_map,List.mem_append]
      exact Or.inr (by simpa using hx)
    · right
      refine rank_lt hspan ?_ (by simp [left,hp.point])
      by_cases hk : req.identifier∈(rest.take n).map Prod.fst
      all_goals simp only [rounds,hp.point,InFlight.finish,hi,hq,hp.mem_take hid,hk,if_true,
        if_false,le_refl]

theorem Moves.keeps {a : Action Class} (hm : s.Moves a t) (hs : req∈s.sent) :
    req∈t.sent ∧ (s.Answered req → t.Answered req) := by
  cases hm with
  | send => exact ⟨List.mem_append_left _ hs,id⟩
  | deliver =>
    refine ⟨hs,?_⟩
    simp only [Answered,List.map_append,List.mem_append]
    exact Or.inl
  | close | goto | handle | receive | requeue => exact ⟨hs,id⟩

/-- The steps of a backend whose calls return as rpc says. -/
def Returns (rpc : ∀ call : RpcCall, Except StarknetProviderError (call.Value Class)) :
    Action Class → Prop
  | .poll | .advance => True
  | .ready call res => res=rpc call
  | _ => False

/-- A request cannot be stuck, and its answer comes within a bound. -/
structure Live (s : Serving Class) : Prop where
  enabled : ∀ rpc, ¬s.AllAnswered → ∃ a t, Returns rpc a ∧ s.step a=some t
  served : ∀ req∈s.sent, ∃ bound, ∀ as t,
    Transition.Run (Transition.Restrict
      (fun s a => a=.notReady → ¬s.PollsFor req.identifier)
      (fun s a t => s.step a=some t)) s as t →
    bound+(as.map credit).sum<as.length → t.Answered req

theorem Inv.enabled (h : s.Inv)
    (rpc : ∀ call : RpcCall, Except StarknetProviderError (call.Value Class))
    (ha : ¬s.AllAnswered) : ∃ a t, Returns rpc a ∧ s.step a=some t := by
  cases hp : s.point with
  | yielded => exact ⟨.poll,_,trivial,by simp only [Serving.step,hp]; rfl⟩
  | queue =>
    cases hq : s.backend.queuedRequests with
    | nil | cons => exact ⟨.advance,_,trivial,by simp only [Serving.step,advance,hp,hq]; rfl⟩
  | incoming =>
    have hc : s.closed=false := by
      by_contra hc
      exact ha (h.closed (by simpa using hc))
    cases hi : s.backend.incoming with
    | nil => exact ⟨.advance,_,trivial,by simp only [Serving.step,advance,hp,hi,hc]; rfl⟩
    | cons => exact ⟨.advance,_,trivial,by simp only [Serving.step,advance,hp,hi]; rfl⟩
  | pending n =>
    cases n with
    | zero => exact ⟨.advance,_,trivial,by simp only [Serving.step,advance,hp]; rfl⟩
    | succ n =>
      obtain ⟨futKey,rest,senders,hsw,_,hm⟩ := h.polls hp
      exact ⟨.ready (futKey.call s.backend.block) (rpc _),_,rfl,
        by simp only [Serving.step,pollFuture,hp,hsw,if_true,hm]; rfl⟩
  | check =>
    by_cases hq : s.backend.queuedRequests=[]
    · exact ⟨.advance,_,trivial,by simp only [Serving.step,advance,hp,hq,if_true]; rfl⟩
    · exact ⟨.advance,_,trivial,by simp only [Serving.step,advance,hp,if_neg hq]; rfl⟩
  | resolved => exact absurd (h.closed (h.resolved hp)) ha
  | panicked m => exact absurd hp (h.calm m)

theorem Inv.live (h : s.Inv) : s.Live where
  enabled := h.enabled
  served := by
    intro req hs
    refine ⟨s.rank req,?_⟩
    intro as t hrun hlen
    have hwithin : t.Answered req ∨
        t.rank req+as.length≤ s.rank req+(as.map credit).sum := by
      refine hrun.within (I := fun s => s.Inv ∧ req∈s.sent) (fun s => s.Answered req)
        (fun s => s.rank req) credit ?_ ?_ ?_ ⟨h,hs⟩
      · rintro s a t ⟨hi,hm⟩ ⟨_,hstep⟩
        exact ⟨hi.step hstep,((hi.moves hstep).keeps hm).1⟩
      · rintro s a t ⟨hi,hm⟩ ⟨_,hstep⟩
        exact ((hi.moves hstep).keeps hm).2
      · rintro s a t ⟨hi,hm⟩ ⟨hok,hstep⟩ ha
        exact (hi.moves hstep).closer hi hm ha hok
    refine hwithin.resolve_right ?_
    omega

/-- After any run from the start, with requests sent and calls returned in any order, the
protocol holds, and the requests not answered yet will be. -/
theorem backend_serves (block : BlockHashOrNumber) {actions : List (Action Class)}
    {t : Serving Class}
    (h : Transition.Run (fun s a t => s.step a=some t) (new block) actions t) :
    t.Sound ∧ t.Live := by
  have hinv : t.Inv := h.invariant (fun _ _ _ hi hs => hi.step hs) (new_inv block)
  exact ⟨hinv.sound,hinv.live⟩

/-- Two requests for one nonce share a call that is not ready at first; a third comes while
it is in flight. -/
def sharedNonceRun : List (Action Unit) :=
  [.send (.nonce 1 0),.send (.nonce 1 1),.poll,.advance,.advance,.advance,.advance,.advance,
    .advance,.advance,.advance,.advance,.advance,.notReady,.send (.storage 1 2 2),.advance,
    .advance,.poll,.advance,.advance,.advance,.ready (.getNonce (.num 0) 1) (.ok 5)]

theorem sharedNonceRun_serves : ∃ t : Serving Unit,
    Transition.Run (fun s a t => s.step a=some t) (new (.num 0)) sharedNonceRun t ∧
    (t.Sound ∧ t.Live) ∧ t.answered.map Prod.fst=[0,1] ∧ t.completed.length=1 ∧
    t.backend.queuedRequests=[.storage 1 2 2] := by
  obtain ⟨t,ht,hanswered⟩ : ∃ t, sharedNonceRun.foldlM step (new (.num 0))=some t ∧
      t.answered.map Prod.fst=[0,1] ∧ t.completed.length=1 ∧
      t.backend.queuedRequests=[.storage 1 2 2] := ⟨_,rfl,rfl,rfl,rfl⟩
  exact ⟨t,.of_foldlM ht,backend_serves _ (.of_foldlM ht),hanswered⟩

end Katana.Fork.Serving
