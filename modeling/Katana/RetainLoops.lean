import Katana.Fork.Backend

/-! Loops that retain elements of a vector in place (Backend::poll of the fork crate,
notify_listener and notify_subscribers of pool.rs). Each index is taken out by swap_remove, from the
last one down, and its element is pushed back if it is kept. -/
namespace Katana.Pool
variable {Sender Tx W : Type}

/-- What try_send of a bounded channel answers. -/
inductive TrySend where
  | ok
  | full
  | disconnected
  deriving DecidableEq, Repr

/-- A listener whose channel is full stays. -/
def notifyOne (trySend : Sender → Felt → W → TrySend × Sender × W) (hash : Felt) (listenerTx : Sender)
    (w : W) : Option Sender × W :=
  match trySend listenerTx hash w with
  | (.ok,listenerTx,w) | (.full,listenerTx,w) => (some listenerTx,w)
  | (.disconnected,_,w) => (none,w)

def notifyListener (trySend : Sender → Felt → W → TrySend × Sender × W) (hash : Felt)
    (listener : List Sender) : W → Option (List Sender × W) :=
  retainSwap (notifyOne trySend hash) listener.length listener

def sendOne (send : Sender → Tx → W → Bool × W) (tx : Tx) (sender : Sender) (w : W) :
    Option Sender × W :=
  match send sender tx w with
  | (true,w) => (some sender,w)
  | (false,w) => (none,w)

def notifySubscribers (send : Sender → Tx → W → Bool × W) (tx : Tx) (subscribers : List Sender) :
    W → Option (List Sender × W) :=
  retainSwap (sendOne send tx) subscribers.length subscribers

end Katana.Pool

namespace Katana.Fork.Serving
variable {Class : Type} {s t : Serving Class}

abbrev Pending := BackendRequestIdentifier × RpcCall

/-- The future that the loop takes out at this point. -/
def taken (s : Serving Class) : List Pending :=
  match s.point with
  | .pending (n+1) => (swapRemove s.backend.requests.pending n).toList.map Prod.fst
  | _ => []

/-- The futures that a step polls, each with what is kept of it. -/
def polled (s : Serving Class) : Action Class → List (Pending × Option Pending)
  | .notReady => s.taken.map (fun fut => (fut,some fut))
  | .ready _ _ => s.taken.map (fun fut => (fut,none))
  | _ => []

/-- Steps that do not leave the loop over the pending requests. Requests come in between them. -/
inductive Looping (s : Serving Class) : List (Pending × Option Pending) → Serving Class → Prop where
  | start : Looping s [] s
  | step {log : List (Pending × Option Pending)} {t u : Serving Class} {a : Action Class} {n : Nat}
      (h : Looping s log t) (hs : t.step a=some u) (hp : u.point=.pending n) :
      Looping s (log++t.polled a) u

/-- The loop over the requests is where its log says. -/
def LoopsOver (xs : List Pending) (log : List (Pending × Option Pending)) (s : Serving Class) :
    Prop :=
  ∃ pre post, xs=pre++post ∧ s.point=.pending pre.length ∧
    Retaining pre post s.backend.requests.pending log

theorem LoopsOver.poll {xs : List Pending} {log : List (Pending × Option Pending)} {n m : Nat}
    {outcome : Option (RpcCall × BackendResponse Class)} (h : s.LoopsOver xs log)
    (hn : s.point=.pending (n+1)) (hs : s.pollFuture n outcome=some t) (ht : t.point=.pending m) :
    t.LoopsOver xs
      (log++s.taken.map (fun fut => (fut,if outcome.isSome then none else some fut))) := by
  obtain ⟨pre,post,rfl,hp,h⟩ := h
  cases pre using List.reverseRecOn with
  | nil => cases hn.symm.trans hp
  | append_singleton pre fut =>
    obtain rfl : n=pre.length := by simpa [hn] using hp
    obtain ⟨rest,hsw,hstep⟩ := h.step
    simp only [pollFuture,hsw] at hs
    simp only [taken,hn,hsw,Option.toList,List.map_cons,List.map_nil]
    refine ⟨pre,fut::post,by simp,?_⟩
    cases outcome with
    | none =>
      cases hs
      exact ⟨rfl,hstep (some fut)⟩
    | some result =>
      simp only at hs
      split at hs
      · split at hs <;> cases hs
        · cases ht
        · exact ⟨rfl,by simpa [InFlight.finish] using hstep none⟩
      · cases hs

theorem LoopsOver.step {xs : List Pending} {log : List (Pending × Option Pending)} {a : Action Class}
    {m : Nat} (h : s.LoopsOver xs log) (hs : s.step a=some t) (ht : t.point=.pending m) :
    t.LoopsOver xs (log++s.polled a) := by
  obtain ⟨n,hn⟩ : ∃ n, s.point=.pending n := by
    obtain ⟨pre,-,-,hp,-⟩ := h
    exact ⟨_,hp⟩
  cases a with
  | send req | close =>
    simp only [Serving.step] at hs
    split at hs <;> cases hs
    simpa [polled,LoopsOver] using h
  | poll => simp [Serving.step,hn] at hs
  | advance =>
    cases n with
    | zero =>
      simp only [Serving.step,advance,hn] at hs
      cases hs
      cases ht
    | succ n => simp [Serving.step,advance,hn] at hs
  | notReady | ready =>
    cases n with
    | zero => simp [Serving.step,hn] at hs
    | succ n =>
      simp only [Serving.step,hn] at hs
      exact h.poll hn hs ht

/-- The loop starts with the requests that are in flight by then. -/
theorem Looping.loopsOver {s₀ : Serving Class} {m : Nat} {log : List (Pending × Option Pending)}
    (hp : s₀.point=.incoming) (hs : s₀.step .advance=some s) (hm : s.point=.pending m)
    (h : s.Looping log t) : t.LoopsOver s.backend.requests.pending log := by
  induction h with
  | start =>
    refine ⟨_,[],by simp,?_,.start _⟩
    simp only [Serving.step,advance,hp] at hs
    split at hs
    · cases hs
      cases hm
    · split at hs <;> cases hs
      · cases hm
      · rfl
  | step _ hstep ht ih => exact ih.step hstep ht

end Katana.Fork.Serving

namespace Katana
open Fork

/-- The loops of notify_listener and notify_subscribers, and the one of Backend::poll wherever it
is, in whichever round it was entered. -/
theorem retain_loops_exact {Sender Tx W Class : Type} :
    (∀ (trySend : Sender → Felt → W → Pool.TrySend × Sender × W) hash listener w,
      Retained (Pool.notifyOne trySend hash) listener w
        (Pool.notifyListener trySend hash listener w)) ∧
    (∀ (send : Sender → Tx → W → Bool × W) tx subscribers w,
      Retained (Pool.sendOne send tx) subscribers w
        (Pool.notifySubscribers send tx subscribers w)) ∧
    ∀ (s₀ s t : Serving Class) m log, s₀.point=.incoming → s₀.step .advance=some s →
      s.point=.pending m → s.Looping log t → t.LoopsOver s.backend.requests.pending log :=
  ⟨fun _ _ listener w => retainSwap_retained _ listener w,
    fun _ _ subscribers w => retainSwap_retained _ subscribers w,
    fun _ _ _ _ _ hp hs hm h => h.loopsOver hp hs hm⟩

/-- The request of a nonce that is in flight. -/
def nonceInFlight (address : Felt) : BackendRequestIdentifier × RpcCall :=
  (.nonce address,.getNonce (.num 0) address)

def threeInFlight : Serving Unit where
  backend := {
    block := .num 0
    requests := {
      pending := [nonceInFlight 1,nonceInFlight 2,nonceInFlight 3]
      dedupMap := fun _ => some [0] } }
  point := .incoming

/-- The second of three requests is ready; the others stay, the last one in its place. -/
theorem retained_in_flight : ∃ (t : Serving Unit) (log : List _),
    t.backend.requests.pending=[nonceInFlight 3,nonceInFlight 1] ∧
    log=[(nonceInFlight 3,some (nonceInFlight 3)),(nonceInFlight 2,none),
      (nonceInFlight 1,some (nonceInFlight 1))] ∧
    t.LoopsOver [nonceInFlight 1,nonceInFlight 2,nonceInFlight 3] log := by
  have h₁ := Serving.Looping.step (s := { threeInFlight with point := .pending 3 })
    (a := .notReady) (n := 2) .start rfl rfl
  have h₂ := h₁.step (a := .ready (.getNonce (.num 0) 2) (.ok (7 : Felt))) (n := 1) rfl rfl
  have h₃ := h₂.step (a := .notReady) (n := 0) rfl rfl
  exact ⟨_,_,rfl,rfl,(@retain_loops_exact Unit Unit Unit Unit).2.2
    threeInFlight _ _ 3 _ rfl rfl rfl h₃⟩

end Katana
