import Katana.Base.InFlight
import Katana.Base.Transition
import Katana.Fork.State

/-! The fork backend of storage/fork/src/lib.rs: requests come in over a channel, are
queued, and become RPC calls, one for all requests of the same data. Backend::poll is one
loop over the queue, the channel and the calls in flight; requests arrive and calls
complete between any two of its steps. -/
namespace Katana.Fork

/-- A request with the sender half of its oneshot channel. -/
inductive BackendRequest where
  | nonce (payload : Felt) (sender : Nat)
  | «class» (payload : Felt) (sender : Nat)
  | classHash (payload : Felt) (sender : Nat)
  | storage (addr key : Felt) (sender : Nat)
  deriving DecidableEq, Repr

def BackendRequest.sender : BackendRequest → Nat
  | .nonce _ sender | .class _ sender | .classHash _ sender | .storage _ _ sender => sender

/-- The call that a request future makes. -/
inductive RpcCall where
  | getNonce (block : BlockHashOrNumber) (address : Felt)
  | getStorageAt (address key : Felt) (block : BlockHashOrNumber)
  | getClassHashAt (block : BlockHashOrNumber) (address : Felt)
  | getClass (block : BlockHashOrNumber) (hash : Felt)
  deriving DecidableEq, Repr

variable {Class : Type}

@[reducible] def RpcCall.Value (Class : Type) : RpcCall → Type
  | .getClass _ _ => Class
  | .getNonce _ _ | .getStorageAt _ _ _ | .getClassHashAt _ _ => Felt

inductive BackendResponse (Class : Type) where
  | nonce (res : Except BackendError Felt)
  | storage (res : Except BackendError Felt)
  | classHashAt (res : Except BackendError Felt)
  | classAt (res : Except BackendError Class)

/-- The response of the future when the call returned. -/
def RpcCall.response (call : RpcCall)
    (res : Except StarknetProviderError (call.Value Class)) : BackendResponse Class :=
  match call,res with
  | .getNonce _ _,res => .nonce (res.mapError .starknetProvider)
  | .getStorageAt _ _ _,res => .storage (res.mapError .starknetProvider)
  | .getClassHashAt _ _,res => .classHashAt (res.mapError .starknetProvider)
  | .getClass _ _,res => .classAt (res.mapError .starknetProvider)

/-- The value of a response without its kind. -/
inductive RpcValue (Class : Type) where
  | felt (v : Felt)
  | «class» (c : Class)

/-- A contract or class that was not found is no error. -/
def handleNotFoundErr {α : Type} (result : Except BackendError α) :
    Except BackendClientError (Option α) :=
  match result with
  | .ok value => .ok (some value)
  | .error (.starknetProvider .contractNotFound) => .ok none
  | .error (.starknetProvider .classHashNotFound) => .ok none
  | .error e => .error (.backendError e)

/-- What the client makes of the response to its request; text prints a response. -/
def BackendRequest.receive (text : BackendResponse Class → String) (req : BackendRequest)
    (response : BackendResponse Class) : Except BackendClientError (Option (RpcValue Class)) :=
  match req,response with
  | .nonce _ _,.nonce res => handleNotFoundErr (res.map .felt)
  | .storage _ _ _,.storage res => handleNotFoundErr (res.map .felt)
  | .classHash _ _,.classHashAt res => handleNotFoundErr (res.map .felt)
  | .class _ _,.classAt res => handleNotFoundErr (res.map .class)
  | _,response => .error (.unexpectedResponse (text response))

structure Backend where
  block : BlockHashOrNumber
  /-- request_dedup_map and pending_requests. -/
  requests : InFlight BackendRequestIdentifier RpcCall Nat := {}
  queuedRequests : List BackendRequest := []
  incoming : List BackendRequest := []

namespace Backend

def dedupRequest (b : Backend) (reqKey : BackendRequestIdentifier) (sender : Nat)
    (rpcCall : RpcCall) : Backend :=
  { b with requests := b.requests.join reqKey sender rpcCall }

def handleRequests (b : Backend) : BackendRequest → Backend
  | .nonce payload sender => b.dedupRequest (.nonce payload) sender (.getNonce b.block payload)
  | .storage addr key sender =>
    b.dedupRequest (.storage addr key) sender (.getStorageAt addr key b.block)
  | .classHash payload sender =>
    b.dedupRequest (.classHash payload) sender (.getClassHashAt b.block payload)
  | .class payload sender => b.dedupRequest (.class payload) sender (.getClass b.block payload)

end Backend

/-- Where the loop of poll is. In pending n, the futures n-1, ..., 0 are still to poll. -/
inductive PollPoint where
  | yielded
  | queue
  | incoming
  | pending (n : Nat)
  | check
  | resolved
  | panicked (message : String)
  deriving DecidableEq, Repr

/-- A backend at work, with what was sent, received, answered and completed so far. -/
structure Serving (Class : Type) where
  backend : Backend
  point : PollPoint := .yielded
  closed : Bool := false
  sent : List BackendRequest := []
  received : List BackendRequest := []
  answered : List (Nat × BackendResponse Class) := []
  completed : List (RpcCall × BackendResponse Class) := []

inductive Action (Class : Type) where
  /-- A client sends a request over the channel. -/
  | send (req : BackendRequest)
  | close
  | poll
  | advance
  | notReady
  /-- The polled future is ready: its call returned. -/
  | ready (call : RpcCall) (res : Except StarknetProviderError (call.Value Class))

namespace Serving

variable (s : Serving Class)

/-- A call of a client borrows it until the answer came, so the channel is only closed
when every request was answered. -/
def AllAnswered : Prop :=
  ∀ req∈s.sent, req.sender∈s.answered.map Prod.fst

instance : Decidable s.AllAnswered :=
  inferInstanceAs (Decidable (∀ req∈s.sent, req.sender∈s.answered.map Prod.fst))

/-- One step of the loop that needs nothing from outside. -/
def advance : Option (Serving Class) :=
  match s.point with
  | .queue =>
    match s.backend.queuedRequests with
    | req::rest =>
      some { s with backend := { s.backend with queuedRequests := rest }.handleRequests req }
    | [] => some { s with point := .incoming }
  | .incoming =>
    match s.backend.incoming with
    | req::rest =>
      some
        { s with
          backend :=
            { s.backend with
              incoming := rest
              queuedRequests := s.backend.queuedRequests++[req] }
          received := s.received++[req] }
    | [] =>
      if s.closed then some { s with point := .resolved }
      else some { s with point := .pending s.backend.requests.pending.length }
  | .pending 0 => some { s with point := .check }
  | .check =>
    if s.backend.queuedRequests=[] then some { s with point := .yielded }
    else some { s with point := .queue }
  | _ => none

/-- The future at index n is polled; its call returned with a response, or not yet. -/
def pollFuture (n : Nat)
    (outcome : Option (RpcCall × BackendResponse Class)) : Option (Serving Class) :=
  match swapRemove s.backend.requests.pending n with
  | none => some { s with point := .panicked "swap_remove index out of bounds" }
  | some ((futKey,fut),rest) =>
    match outcome with
    | none =>
      some
        { s with
          point := .pending n
          backend :=
            { s.backend with
              requests := { s.backend.requests with pending := rest++[(futKey,fut)] } } }
    | some (call,res) =>
      if call=fut then
        match s.backend.requests.dedupMap futKey with
        | none => some { s with point := .panicked "failed to get sender vector" }
        | some senderVec =>
          some
            { s with
              point := .pending n
              backend := { s.backend with requests := s.backend.requests.finish futKey rest }
              answered := s.answered++senderVec.map (fun sender => (sender,res))
              completed := s.completed++[(fut,res)] }
      else none

def step : Action Class → Option (Serving Class)
  | .send req =>
    if s.closed=false ∧ req.sender∉s.sent.map BackendRequest.sender then
      some
        { s with
          backend := { s.backend with incoming := s.backend.incoming++[req] }
          sent := s.sent++[req] }
    else none
  | .close => if s.AllAnswered then some { s with closed := true } else none
  | .poll => if s.point=.yielded then some { s with point := .queue } else none
  | .advance => s.advance
  | .notReady =>
    match s.point with
    | .pending (n+1) => s.pollFuture n none
    | _ => none
  | .ready call res =>
    match s.point with
    | .pending (n+1) => s.pollFuture n (some (call,call.response res))
    | _ => none

def new (block : BlockHashOrNumber) : Serving Class := { backend := { block := block } }

end Serving
end Katana.Fork
