import Kymux.Control
import Kymux.Router

namespace Kymux

open BigEndian

namespace Connection

/-- What goes with a notifier of the same place: the call of `register_*_endpoint` that made
it, where `connect_*_endpoint` did not, and its channel, once the router has registered it. -/
structure Endpoint where
  call : Option ℕ
  channel : Option ℕ
deriving DecidableEq

end Connection

structure Connection where
  control : Control.Peer
  router : Router
  endpoints : List Connection.Endpoint
  wire : Kind → List Bytes

namespace Connection

def new (initiator : UInt16) : Connection where
  control := .start initiator
  router := .start
  endpoints := []
  wire _ := []

/-- `write_endpoint_id`, and `write_datagram_header_` -/
def writeEndpointId (endpointId : UInt16) : Bytes := encode 2 endpointId.toNat

def Endpoint.of : Control.Action → Endpoint
  | .callNotifier call => ⟨some call, none⟩
  | _ => ⟨none, none⟩

def holds (p : Connection) (notifier : ℕ) : Bool :=
  match p.endpoints[notifier]? with
  | some ⟨_, some channel⟩ => p.router.channels[channel]?.any (·.registered)
  | _ => false

def permits (p : Connection) : Control.Action → Bool
  | .ready notifier => p.holds notifier
  | _ => true

def actControl (p q : Connection) (a : Control.Action) : Option (Connection × Connection) :=
  if p.permits a then
    (p.control.act q.control a).map fun (control, control') ↦
      ({ p with
        control
        endpoints :=
          if control.notifiers.length = p.control.notifiers.length then p.endpoints
          else p.endpoints ++ [.of a] },
        { q with control := control' })
  else none

/-- Whether a call that has its notifier goes on with the router: `register_*_endpoint` waits
for the acknowledgement. -/
def proceeds (p : Connection) (endpoint : Endpoint) : Bool :=
  endpoint.channel.isNone &&
    match endpoint.call with
    | none => true
    | some call => p.control.calls[call]?.any (·.phase = .registered)

/-- The call registers its channel. Where that fails, its notifier is dropped. -/
def register (p : Connection) (notifier : ℕ) : Option Connection :=
  match p.control.notifiers[notifier]?, p.endpoints[notifier]? with
  | some x, some endpoint =>
    if !x.dropped && p.proceeds endpoint then
      match p.router.register x.endpointId with
      | .error _ => (p.control.drop notifier).map (fun control ↦ { p with control })
      | .ok router =>
        some { p with
          router
          endpoints := p.endpoints.set notifier
            { endpoint with channel := p.router.channels.length } }
    else none
  | _, _ => none

/-- Once `ready` has returned, the protocol of an endpoint opens streams and sends datagrams on
its channel. -/
def send (p : Connection) (notifier : ℕ) (kind : Kind) (payload : Bytes) : Option Connection :=
  match p.control.notifiers[notifier]? with
  | none => none
  | some x =>
    if x.called && x.notified && !x.dropped && p.holds notifier then
      some { p with
        wire := Function.update p.wire kind
          (p.wire kind ++ [writeEndpointId x.endpointId ++ payload]) }
    else none

/-- What was sent gets to the router of the other side. A stream that is reset is cut off. -/
def arrive (p q : Connection) (kind : Kind) (number cut : ℕ) : Option (Connection × Connection) :=
  match (q.wire kind)[number]? with
  | none => none
  | some bytes =>
    let bytes := if kind = .datagram then bytes else bytes.take cut
    some ({ p with router := p.router.arrive kind bytes },
      { q with wire := Function.update q.wire kind ((q.wire kind).eraseIdx number) })

inductive Action
  | control (a : Control.Action)
  | register (notifier : ℕ)
  | send (notifier : ℕ) (kind : Kind) (payload : Bytes)
  | arrive (kind : Kind) (number cut : ℕ)
  | lose (number : ℕ)
  | close (channel : ℕ) (kind : Kind)
  | remove (channel : ℕ)
  | recv (channel : ℕ) (kind : Kind)
  | data (kind : Kind) (number : ℕ)
  | accept (kind : Kind)
  | lookup (kind : Kind)
  | deliver (kind : Kind)
deriving DecidableEq

def actRouter (p q : Connection) (a : Router.Action) : Option (Connection × Connection) :=
  (p.router.step a).map (fun router ↦ ({ p with router }, q))

/-- A step of the first side, with the other one. A datagram may be lost. -/
def act (p q : Connection) : Action → Option (Connection × Connection)
  | .control a => p.actControl q a
  | .register notifier => (p.register notifier).map (·, q)
  | .send notifier kind payload => (p.send notifier kind payload).map (·, q)
  | .arrive kind number cut => p.arrive q kind number cut
  | .lose number =>
    some ({ p with
      wire := Function.update p.wire .datagram ((p.wire .datagram).eraseIdx number) }, q)
  | .close channel kind => p.actRouter q (.close channel kind)
  | .remove channel => p.actRouter q (.remove channel)
  | .recv channel kind => p.actRouter q (.recv channel kind)
  | .data kind number => p.actRouter q (.data kind number)
  | .accept kind => p.actRouter q (.accept kind)
  | .lookup kind => p.actRouter q (.lookup kind)
  | .deliver kind => p.actRouter q (.send kind)

structure System where
  server : Connection
  client : Connection

namespace System

open Control (Side)

def start : System := ⟨.new Control.System.initiatorServer, .new Control.System.initiatorClient⟩

def side (s : System) : Side → Connection
  | .server => s.server
  | .client => s.client

def step (s : System) : Side × Action → Option System
  | (.server, a) => (s.server.act s.client a).map (fun (p, q) ↦ ⟨p, q⟩)
  | (.client, a) => (s.client.act s.server a).map (fun (p, q) ↦ ⟨q, p⟩)

end System

end Connection

end Kymux
