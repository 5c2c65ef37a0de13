import Katana.Fork.Backend

/-! What holds of the fork backend at every moment: every received request is queued,
waits under its own id or was answered, once; there is one call in flight for an id; and
if the calls return, every request is answered. -/
namespace Katana.Fork
variable {Class : Type}

def BackendRequest.identifier : BackendRequest → BackendRequestIdentifier
  | .nonce payload _ => .nonce payload
  | .class payload _ => .class payload
  | .classHash payload _ => .classHash payload
  | .storage addr key _ => .storage addr key

def BackendRequestIdentifier.call (block : BlockHashOrNumber) : BackendRequestIdentifier → RpcCall
  | .nonce address => .getNonce block address
  | .class hash => .getClass block hash
  | .classHash address => .getClassHashAt block address
  | .storage address key => .getStorageAt address key block

theorem Backend.handleRequests_eq (b : Backend) (req : BackendRequest) :
    b.handleRequests req=
      b.dedupRequest req.identifier req.sender (req.identifier.call b.block) := by
  cases req <;> rfl

theorem receive_own (text : BackendResponse Class → String) (req : BackendRequest)
    (block : BlockHashOrNumber)
    (res : Except StarknetProviderError ((req.identifier.call block).Value Class)) (m : String) :
    req.receive text ((req.identifier.call block).response res)≠.error (.unexpectedResponse m) := by
  have hnot : ∀ {α : Type} (r : Except BackendError α),
      handleNotFoundErr r≠.error (.unexpectedResponse m) := by
    intro α r
    unfold handleNotFoundErr
    split <;> simp
  cases req <;> exact hnot _

namespace Serving

variable (s : Serving Class) (req : BackendRequest)

/-- The request waits in the sender list of its own id. -/
def Waiting : Prop :=
  ∃ senders, s.backend.requests.dedupMap req.identifier=some senders ∧ req.sender∈senders

def Answered : Prop :=
  req.sender∈s.answered.map Prod.fst

/-- The response is that of a completed call for the data of the request. -/
def OwnAnswer (response : BackendResponse Class) : Prop :=
  ∃ res, response=(req.identifier.call s.backend.block).response res ∧
    (req.identifier.call s.backend.block,response)∈s.completed

/-- The protocol at one moment. -/
structure Sound (s : Serving Class) : Prop where
  place : ∀ req∈s.received,
    (req∈s.backend.queuedRequests ∧ ¬s.Waiting req ∧ ¬s.Answered req) ∨
    (req∉s.backend.queuedRequests ∧ s.Waiting req ∧ ¬s.Answered req) ∨
    (req∉s.backend.queuedRequests ∧ ¬s.Waiting req ∧ s.Answered req)
  keys : ∀ id, s.backend.requests.dedupMap id≠none ↔
    id∈s.backend.requests.pending.map Prod.fst
  inFlight : (s.backend.requests.pending.map Prod.fst).Nodup
  once : (s.answered.map Prod.fst).Nodup
  own : ∀ a∈s.answered, ∃ req∈s.received, req.sender=a.1 ∧ s.OwnAnswer req a.2
  expected : ∀ a∈s.answered, ∀ req∈s.received, req.sender=a.1 → ∀ text m,
    req.receive text a.2≠.error (.unexpectedResponse m)
  calm : ∀ m, s.point≠.panicked m

structure Inv (s : Serving Class) : Prop where
  wf : s.backend.requests.Wf
  calls : ∀ p∈s.backend.requests.pending, p.2=p.1.call s.backend.block
  sent : s.sent.Perm (s.received++s.backend.incoming)
  senders : (s.sent.map BackendRequest.sender).Nodup
  places : (s.received.map BackendRequest.sender).Perm
    (s.backend.queuedRequests.map BackendRequest.sender++s.backend.requests.waiting++
      s.answered.map Prod.fst)
  queued : ∀ req∈s.backend.queuedRequests, req∈s.received
  waits : ∀ id senders, s.backend.requests.dedupMap id=some senders → ∀ x∈senders,
    ∃ req∈s.received, req.sender=x ∧ req.identifier=id
  own : ∀ a∈s.answered, ∃ req∈s.received, req.sender=a.1 ∧ s.OwnAnswer req a.2
  index : ∀ n, s.point=.pending n → n≤ s.backend.requests.pending.length
  calm : ∀ m, s.point≠.panicked m
  closed : s.closed=true → s.AllAnswered
  resolved : s.point=.resolved → s.closed=true

theorem new_inv (block : BlockHashOrNumber) : Inv (new block : Serving Class) where
  wf := InFlight.Wf.empty
  calls := by simp [new]
  sent := by simp [new]
  senders := by simp [new]
  places := by simp [new,InFlight.waiting]
  queued := by simp [new]
  waits := by simp [new]
  own := by simp [new]
  index := by simp [new]
  calm := by simp [new]
  closed := by simp [new]
  resolved := by simp [new]

/-- Where the loop goes when it handles no request and polls no future. -/
inductive Goes (s : Serving Class) : Action Class → PollPoint → Prop where
  | poll (hp : s.point=.yielded) : Goes s .poll .queue
  | receive (hp : s.point=.queue) (hq : s.backend.queuedRequests=[]) : Goes s .advance .incoming
  | resolve (hp : s.point=.incoming) (hi : s.backend.incoming=[]) (hc : s.closed=true) :
      Goes s .advance .resolved
  | pollAll (hp : s.point=.incoming) (hi : s.backend.incoming=[]) (hc : s.closed=false) :
      Goes s .advance (.pending s.backend.requests.pending.length)
  | check (hp : s.point=.pending 0) : Goes s .advance .check
  | yield (hp : s.point=.check) (hq : s.backend.queuedRequests=[]) : Goes s .advance .yielded
  | again (hp : s.point=.check) (hq : s.backend.queuedRequests≠[]) : Goes s .advance .queue

/-- The future at index n is the one polled, for the id futKey. -/
structure Polls (s : Serving Class) (n : Nat) (futKey : BackendRequestIdentifier)
    (rest : List (BackendRequestIdentifier × RpcCall)) : Prop where
  point : s.point=.pending (n+1)
  perm : s.backend.requests.pending.Perm ((futKey,futKey.call s.backend.block)::rest)
  take : s.backend.requests.pending.take (n+1)=
    rest.take n++[(futKey,futKey.call s.backend.block)]
  bound : n≤rest.length

/-- All that a step can do to a backend in good order. -/
inductive Moves (s : Serving Class) : Action Class → Serving Class → Prop where
  | send {req : BackendRequest} (hc : s.closed=false)
      (hn : req.sender∉s.sent.map BackendRequest.sender) :
      Moves s (.send req)
        { s with
          backend := { s.backend with incoming := s.backend.incoming++[req] }
          sent := s.sent++[req] }
  | close (h : s.AllAnswered) : Moves s .close { s with closed := true }
  | goto {a : Action Class} {point : PollPoint} (h : Goes s a point) :
      Moves s a { s with point := point }
  | handle {req : BackendRequest} {rest : List BackendRequest} (hp : s.point=.queue)
      (hq : s.backend.queuedRequests=req::rest) :
      Moves s .advance
        { s with backend := { s.backend with queuedRequests := rest }.handleRequests req }
  | receive {req : BackendRequest} {rest : List BackendRequest} (hp : s.point=.incoming)
      (hi : s.backend.incoming=req::rest) :
      Moves s .advance
        { s with
          backend :=
            { s.backend with
              incoming := rest
              queuedRequests := s.backend.queuedRequests++[req] }
          received := s.received++[req] }
  | requeue {n : Nat} {futKey : BackendRequestIdentifier}
      {rest : List (BackendRequestIdentifier × RpcCall)} (h : s.Polls n futKey rest) :
      Moves s .notReady
        { s with
          point := .pending n
          backend :=
            { s.backend with
              requests :=
                { s.backend.requests with
                  pending := rest++[(futKey,futKey.call s.backend.block)] } } }
  | deliver {n : Nat} {futKey : BackendRequestIdentifier}
      {rest : List (BackendRequestIdentifier × RpcCall)} {senders : List Nat}
      (h : s.Polls n futKey rest) (hm : s.backend.requests.dedupMap futKey=some senders)
      (res : Except StarknetProviderError ((futKey.call s.backend.block).Value Class)) :
      Moves s (.ready (futKey.call s.backend.block) res)
        { s with
          point := .pending n
          backend := { s.backend with requests := s.backend.requests.finish futKey rest }
          answered := s.answered++
            senders.map (fun sender => (sender,(futKey.call s.backend.block).response res))
          completed := s.completed++
            [(futKey.call s.backend.block,(futKey.call s.backend.block).response res)] }

section Steps
variable {s t : Serving Class} {req : BackendRequest} {a : Action Class}

theorem Inv.handle (h : s.Inv) {rest : List BackendRequest}
    (hq : s.backend.queuedRequests=req::rest) :
    Inv { s with backend := { s.backend with queuedRequests := rest }.handleRequests req } := by
  have hreq : req∈s.received := h.queued req (by simp [hq])
  have hw := h.wf.waiting_join req.identifier req.sender (req.identifier.call s.backend.block)
  rw [Backend.handleRequests_eq]
  simp only [Backend.dedupRequest]
  refine ⟨h.wf.join _ _ _,?_,h.sent,h.senders,?_,?_,?_,h.own,?_,h.calm,h.closed,h.resolved⟩
  · intro p hp
    simp only [InFlight.join] at hp
    split at hp
    · rcases List.mem_append.mp hp with hp | hp
      · exact h.calls p hp
      · rw [List.mem_singleton.mp hp]
    · exact h.calls p hp
  · refine h.places.trans ?_
    rw [hq,List.perm_iff_count]
    intro x
    have := hw.count_eq x
    simp only [List.map_cons,List.count_append,List.count_cons] at this ⊢
    omega
  · intro r hr
    exact h.queued r (by simp [hq,hr])
  · intro id senders hs x hx
    simp only [InFlight.join] at hs
    by_cases hid : id=req.identifier
    · subst hid
      split at hs
      · simp only [Function.update_self,Option.some.injEq] at hs
        rw [← hs,List.mem_singleton] at hx
        exact ⟨req,hreq,hx.symm,rfl⟩
      · next old hold =>
        simp only [Function.update_self,Option.some.injEq] at hs
        rw [← hs,List.mem_append,List.mem_singleton] at hx
        rcases hx with hx | hx
        · exact h.waits _ old hold x hx
        · exact ⟨req,hreq,hx.symm,rfl⟩
    · split at hs
      · simp only [Function.update_of_ne hid] at hs
        exact h.waits id senders hs x hx
      · simp only [Function.update_of_ne hid] at hs
        exact h.waits id senders hs x hx
  · intro n hn
    have := h.index n hn
    simp only [InFlight.join]
    split
    · simp only [List.length_append]
      omega
    · exact this

/-- The polled future is there, and so are its callers: neither panic is reached. -/
theorem Inv.polls (h : s.Inv) {n : Nat} (hp : s.point=.pending (n+1)) :
    ∃ futKey rest senders,
      swapRemove s.backend.requests.pending n=
        some ((futKey,futKey.call s.backend.block),rest) ∧
      s.Polls n futKey rest ∧ s.backend.requests.dedupMap futKey=some senders := by
  have hlt : n<s.backend.requests.pending.length := h.index (n+1) hp
  obtain ⟨⟨futKey,fut⟩,rest,hsw,hperm,htake,hbound⟩ := swapRemove_of_lt hlt
  have hmem : (futKey,fut)∈s.backend.requests.pending := hperm.mem_iff.mpr (by simp)
  obtain rfl : fut=futKey.call s.backend.block := h.calls _ hmem
  obtain ⟨senders,hm⟩ := Option.ne_none_iff_exists'.mp
    ((h.wf.keys futKey).mpr (List.mem_map_of_mem hmem))
  exact ⟨futKey,rest,senders,hsw,⟨hp,hperm,htake,hbound⟩,hm⟩

theorem moves_of_advance (ha : s.advance=some t) : s.Moves .advance t := by
  unfold Serving.advance at ha
  split at ha
  · next hp =>
    split at ha
    · next req rest hq =>
      cases ha
      exact .handle hp hq
    · next hq =>
      cases ha
      exact .goto (.receive hp hq)
  · next hp =>
    split at ha
    · next req rest hi =>
      cases ha
      exact .receive hp hi
    · next hi =>
      split at ha
      · next hc =>
        cases ha
        exact .goto (.resolve hp hi hc)
      · next hc =>
        cases ha
        exact .goto (.pollAll hp hi (by simpa using hc))
  · next hp =>
    cases ha
    exact .goto (.check hp)
  · next hp =>
    split at ha
    · next hq =>
      cases ha
      exact .goto (.yield hp hq)
    · next hq =>
      cases ha
      exact .goto (.again hp hq)
  · cases ha

theorem Inv.moves (h : s.Inv) (hs : s.step a=some t) : s.Moves a t := by
  cases a with
  | send req =>
    simp only [Serving.step] at hs
    split at hs
    · next hok =>
      cases hs
      exact .send hok.1 hok.2
    · cases hs
  | close =>
    simp only [Serving.step] at hs
    split at hs
    · next hall =>
      cases hs
      exact .close hall
    · cases hs
  | poll =>
    simp only [Serving.step] at hs
    split at hs
    · next hp =>
      cases hs
      exact .goto (.poll hp)
    · cases hs
  | advance => exact moves_of_advance hs
  | notReady =>
    simp only [Serving.step] at hs
    split at hs
    · next n hp =>
      obtain ⟨futKey,rest,senders,hsw,hpoll,_⟩ := h.polls hp
      simp only [pollFuture,hsw] at hs
      cases hs
      exact .requeue hpoll
    · cases hs
  | ready call res =>
    simp only [Serving.step] at hs
    split at hs
    · next n hp =>
      obtain ⟨futKey,rest,senders,hsw,hpoll,hm⟩ := h.polls hp
      simp only [pollFuture,hsw] at hs
      split at hs
      · next hc =>
        subst hc
        simp only [hm] at hs
        cases hs
        exact .deliver hpoll hm res
      · cases hs
    · cases hs

theorem Inv.goto (h : s.Inv) {point : PollPoint}
    (hn : ∀ n, point=.pending n → n≤ s.backend.requests.pending.length)
    (hp : ∀ m, point≠.panicked m) (hr : point=.resolved → s.closed=true) :
    Inv { s with point := point } :=
  ⟨h.wf,h.calls,h.sent,h.senders,h.places,h.queued,h.waits,h.own,hn,hp,h.closed,hr⟩

theorem Goes.inv (h : s.Inv) {point : PollPoint} (hg : s.Goes a point) :
    Inv { s with point := point } := by
  cases hg with
  | resolve _ _ hc => exact h.goto (by simp) (by simp) (fun _ => hc)
  | pollAll =>
    refine h.goto ?_ (by simp) (by simp)
    rintro n ⟨⟩
    exact le_rfl
  | poll | receive | check | yield | again => exact h.goto (by simp) (by simp) (by simp)

theorem Inv.of_send (h : s.Inv) (hm : s.Moves (.send req) t) : t.Inv := by
  cases hm with
  | goto hg => cases hg
  | send hc hn =>
    refine ⟨h.wf,h.calls,?_,?_,h.places,h.queued,h.waits,h.own,h.index,h.calm,?_,h.resolved⟩
    · rw [← List.append_assoc]
      exact h.sent.append_right _
    · rw [List.map_append]
      refine List.nodup_append.mpr ⟨h.senders,by simp,?_⟩
      intro x hx y hy he
      simp only [List.map_cons,List.map_nil,List.mem_singleton] at hy
      exact hn (hy ▸ he ▸ hx)
    · intro hcl
      rw [hc] at hcl
      cases hcl

theorem Inv.of_advance (h : s.Inv) (hm : s.Moves .advance t) : t.Inv := by
  cases hm with
  | goto hg => exact hg.inv h
  | handle _ hq => exact h.handle hq
  | receive _ hi =>
    refine ⟨h.wf,h.calls,?_,h.senders,?_,?_,?_,?_,h.index,h.calm,h.closed,h.resolved⟩
    · refine h.sent.trans ?_
      rw [hi]
      simp
    · rw [List.perm_iff_count]
      intro x
      have := h.places.count_eq x
      simp only [List.map_append,List.count_append] at this ⊢
      omega
    · intro r hr
      rcases List.mem_append.mp hr with hr | hr
      · exact List.mem_append_left _ (h.queued r hr)
      · exact List.mem_append_right _ hr
    · intro id senders hs x hx
      obtain ⟨r,hr,hrest⟩ := h.waits id senders hs x hx
      exact ⟨r,List.mem_append_left _ hr,hrest⟩
    · intro a ha
      obtain ⟨r,hr,hrest⟩ := h.own a ha
      exact ⟨r,List.mem_append_left _ hr,hrest⟩

theorem Inv.of_notReady (h : s.Inv) (hm : s.Moves .notReady t) : t.Inv := by
  cases hm with
  | goto hg => cases hg
  | @requeue n futKey rest hp =>
    have hperm' : s.backend.requests.pending.Perm
        (rest++[(futKey,futKey.call s.backend.block)]) :=
      hp.perm.trans (List.perm_append_singleton _ _).symm
    refine ⟨h.wf.of_perm hperm',?_,h.sent,h.senders,?_,h.queued,h.waits,h.own,?_,by simp,h.closed,
      by simp⟩
    · intro q hq
      exact h.calls q (hperm'.mem_iff.mpr hq)
    · exact h.places.trans ((InFlight.waiting_perm hperm').append_left _ |>.append_right _)
    · rintro m ⟨⟩
      have := hp.bound
      simp only [List.length_append]
      omega

theorem Inv.of_ready {call : RpcCall} {res : Except StarknetProviderError (call.Value Class)}
    (h : s.Inv) (hm : s.Moves (.ready call res) t) : t.Inv := by
  cases hm with
  | goto hg => cases hg
  | @deliver n futKey rest senders hp hm =>
    have hw := h.wf.waiting_finish hp.perm hm
    refine ⟨h.wf.finish hp.perm,?_,h.sent,h.senders,?_,h.queued,?_,?_,?_,by simp,?_,by simp⟩
    · intro q hq
      exact h.calls q (hp.perm.mem_iff.mpr (List.mem_cons_of_mem _ hq))
    · rw [List.perm_iff_count]
      intro x
      have := h.places.count_eq x
      have := hw.count_eq x
      simp only [List.map_append,List.map_map,List.count_append,Function.comp_def,List.map_id'] at *
      omega
    · intro id senders' hs x hx
      by_cases hid : id=futKey
      · subst hid
        simp [InFlight.finish] at hs
      · simp only [InFlight.finish,Function.update_of_ne hid] at hs
        exact h.waits id senders' hs x hx
    · intro a ha
      rcases List.mem_append.mp ha with ha | ha
      · obtain ⟨r,hr,hs,res',hres,hcomp⟩ := h.own a ha
        exact ⟨r,hr,hs,res',hres,List.mem_append_left _ hcomp⟩
      · obtain ⟨x,hx,rfl⟩ := List.mem_map.mp ha
        obtain ⟨r,hr,hs,rfl⟩ := h.waits futKey senders hm x hx
        exact ⟨r,hr,hs,_,rfl,List.mem_append_right _ (by simp)⟩
    · rintro m ⟨⟩
      exact hp.bound
    · intro hcl req hreq
      have := h.closed hcl req hreq
      simp only [List.map_append,List.mem_append]
      exact Or.inl this

theorem Inv.step (h : s.Inv) (hs : s.step a=some t) : t.Inv := by
  have hm := h.moves hs
  cases a with
  | send => exact h.of_send hm
  | close =>
    cases hm with
    | goto hg => cases hg
    | close hall =>
      exact ⟨h.wf,h.calls,h.sent,h.senders,h.places,h.queued,h.waits,h.own,h.index,h.calm,
        fun _ => hall,fun _ => rfl⟩
  | poll =>
    cases hm with
    | goto hg => exact hg.inv h
  | advance => exact h.of_advance hm
  | notReady => exact h.of_notReady hm
  | ready => exact h.of_ready hm

end Steps
end Serving
end Katana.Fork
