import Kymux.Lib.Machine
import Kymux.Types.Av

namespace Kymux.Control

inductive ControlMsg
  | registerEndpoint (endpointId : UInt16)
  | endpointRegistered (endpointId : UInt16)
  | ready (endpointId : UInt16)
deriving DecidableEq

/-- The sender of a oneshot channel is known by the place of the notifier that has its
receiver. -/
inductive PendingReady
  | awaitingLocal
  | awaitingRemote (notifier : ℕ)
deriving DecidableEq

/-- A `ReadyNotifier`: whether `ready` was called, whether something was sent on its oneshot
channel, and whether it was dropped. -/
structure Notifier where
  endpointId : UInt16
  called : Bool
  notified : Bool
  dropped : Bool
deriving DecidableEq

/-- Where a call of `register_*_endpoint` is: it has an id, and a notifier for it; its
`register_endpoint` has its place in `pending_register_ack`, has passed on the message, and
has been acknowledged. -/
inductive Phase
  | hasId
  | hasNotifier
  | pending
  | waiting
  | registered
  | failed (e : ProtocolError)
deriving DecidableEq

structure Call where
  endpointId : UInt16
  phase : Phase
deriving DecidableEq

/-- One side of a connection. Its messages are in the queue of the control task, where all
but the first `queueSize` of them are still with their sender, and then on the stream. -/
structure Peer where
  nextEndpointIndex : UInt16
  calls : List Call
  notifiers : List Notifier
  pendingRegisterAck : UInt16 → Option ℕ
  pendingConnect : Finset UInt16
  pendingReady : UInt16 → Option PendingReady
  queue : List ControlMsg
  stream : List ControlMsg

def queueSize : ℕ := 8

namespace Peer

def start (initiator : UInt16) : Peer where
  nextEndpointIndex := initiator
  calls := []
  notifiers := []
  pendingRegisterAck _ := none
  pendingConnect := ∅
  pendingReady _ := none
  queue := []
  stream := []

def path (p : Peer) : List ControlMsg := p.stream ++ p.queue

def send (p : Peer) (msg : ControlMsg) : Peer := { p with queue := p.queue ++ [msg] }

def setPhase (p : Peer) (call : ℕ) (phase : Phase) : Peer :=
  match p.calls[call]? with
  | none => p
  | some c => { p with calls := p.calls.set call { c with phase } }

def getEndpointId (p : Peer) : Peer :=
  { p with
    nextEndpointIndex := p.nextEndpointIndex + 2
    calls := p.calls ++ [⟨p.nextEndpointIndex, .hasId⟩] }

def registerReadyNotifier (p : Peer) (endpointId : UInt16) : Except ProtocolError Unit × Peer :=
  match p.pendingReady endpointId with
  | some (.awaitingRemote _) =>
    (.error ⟨"Endpoint already registered for ready notifications: " ++ hex endpointId⟩, p)
  | some .awaitingLocal =>
    (.ok (), { p with
      pendingReady := Function.update p.pendingReady endpointId none
      notifiers := p.notifiers ++ [⟨endpointId, false, true, false⟩] })
  | none =>
    (.ok (), { p with
      pendingReady := Function.update p.pendingReady endpointId
        (some (.awaitingRemote p.notifiers.length))
      notifiers := p.notifiers ++ [⟨endpointId, false, false, false⟩] })

/-- The first half of `register_endpoint`, under the lock. -/
def registerEndpoint (p : Peer) (call : ℕ) (endpointId : UInt16) : Peer :=
  match p.pendingRegisterAck endpointId with
  | some _ => p.setPhase call (.failed ⟨"Endpoint already pending: " ++ hex endpointId⟩)
  | none =>
    { p.setPhase call .pending with
      pendingRegisterAck := Function.update p.pendingRegisterAck endpointId (some call) }

def notify (p : Peer) (notifier : ℕ) : Except Fault Unit × Peer :=
  match p.notifiers[notifier]? with
  | none => (.error (.err ⟨"Ready sender error"⟩), p)
  | some x =>
    if x.dropped then (.error (.err ⟨"Ready sender error"⟩), p)
    else (.ok (), { p with notifiers := p.notifiers.set notifier { x with notified := true } })

def handleMsg (p : Peer) : ControlMsg → Except Fault Unit × Peer
  | .registerEndpoint endpointId =>
    if endpointId ∈ p.pendingConnect then
      (.error (.err ⟨"Endpoint already registered: " ++ hex endpointId⟩), p)
    else
      (.ok (), { p with pendingConnect := insert endpointId p.pendingConnect }.send
        (.endpointRegistered endpointId))
  | .endpointRegistered endpointId =>
    match p.pendingRegisterAck endpointId with
    | some call =>
      (.ok (), { p.setPhase call .registered with
        pendingRegisterAck := Function.update p.pendingRegisterAck endpointId none })
    | none =>
      (.error (.err ⟨"Received unexpected registration ack for endpoint " ++ hex endpointId⟩), p)
  | .ready endpointId =>
    let removed := Function.update p.pendingReady endpointId none
    match p.pendingReady endpointId with
    | some (.awaitingRemote notifier) => { p with pendingReady := removed }.notify notifier
    | some .awaitingLocal =>
      (.error (.err ⟨"Received multiple ready notifications for endpoint " ++ hex endpointId⟩),
        { p with pendingReady := removed })
    | none =>
      let inserted :=
        { p with pendingReady := Function.update removed endpointId (some .awaitingLocal) }
      match removed endpointId with
      | none => (.ok (), inserted)
      | some _ => (.error (.panic "old.is_none()"), inserted)

def blocked (p : Peer) : Bool :=
  (p.queue.drop queueSize).any (fun | .endpointRegistered _ => true | _ => false)

end Peer

/-- What one side does. A call or a notifier is known by its place. -/
inductive Action
  | getEndpointId
  | callNotifier (call : ℕ)
  | callRegister (call : ℕ)
  | callSend (call : ℕ)
  | connect (endpointId : UInt16)
  | ready (notifier : ℕ)
  | drop (notifier : ℕ)
  | transmit
  | receive
deriving DecidableEq

namespace Peer

def advance (p : Peer) (call : ℕ) (phase : Phase) (f : UInt16 → Peer) : Option Peer :=
  match p.calls[call]? with
  | none => none
  | some c => if c.phase = phase then some (f c.endpointId) else none

def callNotifier (p : Peer) (call : ℕ) (endpointId : UInt16) : Peer :=
  match p.registerReadyNotifier endpointId with
  | (.ok (), p) => p.setPhase call .hasNotifier
  | (.error e, p) => p.setPhase call (.failed e)

/-- `ReadyNotifier::ready`, up to where it awaits its oneshot channel. -/
def ready (p : Peer) (notifier : ℕ) : Option Peer :=
  match p.notifiers[notifier]? with
  | none => none
  | some x =>
    if x.called ∨ x.dropped then none
    else some ({ p with notifiers := p.notifiers.set notifier { x with called := true } }.send
      (.ready x.endpointId))

def drop (p : Peer) (notifier : ℕ) : Option Peer :=
  match p.notifiers[notifier]? with
  | none => none
  | some x =>
    if x.dropped then none
    else some { p with notifiers := p.notifiers.set notifier { x with dropped := true } }

/-- `send_msgs` -/
def transmit (p : Peer) : Option Peer :=
  match p.queue with
  | [] => none
  | msg :: queue => some { p with queue, stream := p.stream ++ [msg] }

/-- A turn of `recv_msgs`: an error is not fatal. -/
def receive (p q : Peer) : Option (Peer × Peer) :=
  match q.stream with
  | [] => none
  | msg :: stream => if p.blocked then none else some ((p.handleMsg msg).2, { q with stream })

def act (p q : Peer) : Action → Option (Peer × Peer)
  | .getEndpointId => some (p.getEndpointId, q)
  | .callNotifier call => (p.advance call .hasId (p.callNotifier call)).map (·, q)
  | .callRegister call => (p.advance call .hasNotifier (p.registerEndpoint call)).map (·, q)
  | .callSend call =>
    (p.advance call .pending (fun endpointId ↦
      (p.setPhase call .waiting).send (.registerEndpoint endpointId))).map (·, q)
  | .connect endpointId => some ((p.registerReadyNotifier endpointId).2, q)
  | .ready notifier => (p.ready notifier).map (·, q)
  | .drop notifier => (p.drop notifier).map (·, q)
  | .transmit => p.transmit.map (·, q)
  | .receive => p.receive q

end Peer

inductive Side
  | server
  | client
deriving DecidableEq

structure System where
  server : Peer
  client : Peer

namespace System

def initiatorServer : UInt16 := 0

def initiatorClient : UInt16 := 1

def start : System := ⟨.start initiatorServer, .start initiatorClient⟩

def step (s : System) : Side × Action → Option System
  | (.server, a) => (s.server.act s.client a).map (fun (p, q) ↦ ⟨p, q⟩)
  | (.client, a) => (s.client.act s.server a).map (fun (p, q) ↦ ⟨q, p⟩)

end System

end Kymux.Control
