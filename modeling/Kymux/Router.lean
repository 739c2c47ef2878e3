import Kymux.Lib.Machine
import Kymux.Types.Av

namespace Kymux

open BigEndian

inductive Kind
  | uni
  | bi
  | datagram
deriving DecidableEq

namespace Router

/-- The streams and datagrams handed to a channel are known by the order of their arrival.
The first `received` of each kind were taken out of it. -/
structure Channel where
  endpointId : UInt16
  /-- its receivers that were not dropped -/
  alive : Kind → Bool
  /-- its `KyChannelDropper` was not dropped -/
  registered : Bool
  handed : Kind → List ℕ
  received : Kind → ℕ

/-- A stream, as far as it can ever be read, or a datagram, and the channel that was alive under
its endpoint id when it arrived. -/
structure Arrival where
  bytes : Bytes
  /-- the first two bytes, or the end before them, have come -/
  readable : Bool
  endpoint : Option ℕ

/-- Where the loop of one kind is: it accepts, it reads the endpoint id of what it accepted, it
sends that into a channel, or it has returned. -/
inductive Loop
  | idle
  | reading
  | sending (number channel : ℕ)
  | stopped (e : ProtocolError)
deriving DecidableEq

/-- The first two bytes; a shorter stream cannot be read, a shorter datagram is dropped. -/
def readEndpointId (bytes : Bytes) : Option UInt16 :=
  if 2 ≤ bytes.length then some (UInt16.ofNat (decode (bytes.take 2))) else none

/-- What the loops of the router do differently: where an unknown id leads, and the error
for a closed channel. -/
structure Handler where
  unknown : UInt16 → Loop
  closed : ProtocolError

def acceptChannelsUni : Handler where
  unknown endpointId := .stopped ⟨"accept_uni: unknown channel id: " ++ toString endpointId.toNat⟩
  closed := ⟨"accept_uni: channel closed: SendError \x7b .. \x7d"⟩

def acceptChannelsBi : Handler where
  unknown endpointId := .stopped ⟨"accept_bi: unknown channel id: " ++ toString endpointId.toNat⟩
  closed := ⟨"accept_bi: channel closed: SendError \x7b .. \x7d"⟩

/-- Datagrams may be delivered once their endpoint has been removed. -/
def recvChannelsDatagrams : Handler where
  unknown _ := .idle
  closed := ⟨"recv_datagram: channel closed: SendError \x7b .. \x7d"⟩

end Router

namespace Kind

def handler : Kind → Router.Handler
  | .uni => Router.acceptChannelsUni
  | .bi => Router.acceptChannelsBi
  | .datagram => Router.recvChannelsDatagrams

def capacity : Kind → ℕ
  | .uni => 8
  | .bi => 8
  | .datagram => 16

end Kind

/-- The channels are in the order of their registration. What was `accepted` has been read; a loop
that is reading reads the next one. -/
structure Router where
  clients : UInt16 → Option ℕ
  channels : List Router.Channel
  arrived : Kind → List Router.Arrival
  accepted : Kind → ℕ
  loops : Kind → Router.Loop

namespace Router

def start : Router where
  clients _ := none
  channels := []
  arrived _ := []
  accepted _ := 0
  loops _ := .idle

def Channel.new (endpointId : UInt16) : Channel where
  endpointId := endpointId
  alive _ := true
  registered := true
  handed _ := []
  received _ := 0

def Channel.full (c : Channel) (kind : Kind) : Bool :=
  kind.capacity ≤ (c.handed kind).length - c.received kind

def register (s : Router) (endpointId : UInt16) : Except ProtocolError Router :=
  match s.clients endpointId with
  | some _ => .error ⟨"endpoint already registered: " ++ hex endpointId⟩
  | none =>
    .ok { s with
      clients := Function.update s.clients endpointId (some s.channels.length)
      channels := s.channels ++ [.new endpointId] }

/-- `KyChannelDropper::drop` -/
def drop (s : Router) (endpointId : UInt16) : Except Fault Router :=
  match s.clients endpointId with
  | none => .error (.panic "ret.is_some()")
  | some _ => .ok { s with clients := Function.update s.clients endpointId none }

def alive (s : Router) (kind : Kind) (channel : ℕ) : Bool :=
  s.channels[channel]?.any (·.alive kind)

def arrive (s : Router) (kind : Kind) (bytes : Bytes) : Router :=
  let endpoint := ((readEndpointId bytes).bind s.clients).filter (s.alive kind)
  let arrival := ⟨bytes, kind = .datagram, endpoint⟩
  { s with arrived := Function.update s.arrived kind (s.arrived kind ++ [arrival]) }

/-- What the endpoint id of a stream is read from comes, or its end. -/
def data (s : Router) (kind : Kind) (number : ℕ) : Router :=
  let arrived := (s.arrived kind).modify number (fun arrival ↦ { arrival with readable := true })
  { s with arrived := Function.update s.arrived kind arrived }

def accept (s : Router) (kind : Kind) : Option Router :=
  match s.loops kind, (s.arrived kind)[s.accepted kind]? with
  | .idle, some _ => some { s with loops := Function.update s.loops kind .reading }
  | _, _ => none

def found (s : Router) (kind : Kind) (bytes : Bytes) : Loop :=
  match readEndpointId bytes with
  | none => .idle
  | some endpointId =>
    match s.clients endpointId with
    | some channel => .sending (s.accepted kind) channel
    | none => kind.handler.unknown endpointId

/-- `read_endpoint_id` completes, which waits for the first bytes of a stream, and the client is
looked up, under the lock. -/
def lookup (s : Router) (kind : Kind) : Option Router :=
  match s.loops kind, (s.arrived kind)[s.accepted kind]? with
  | .reading, some arrival =>
    if arrival.readable then
      some { s with
        accepted := Function.update s.accepted kind (s.accepted kind + 1)
        loops := Function.update s.loops kind (s.found kind arrival.bytes) }
    else none
  | _, _ => none

/-- The send into the channel completes. It waits while the channel is full. -/
def send (s : Router) (kind : Kind) : Option Router :=
  match s.loops kind with
  | .sending number channel =>
    match s.channels[channel]? with
    | none => none
    | some c =>
      if c.alive kind then
        if c.full kind then none
        else
          let handed := Function.update c.handed kind (c.handed kind ++ [number])
          some { s with
            channels := s.channels.set channel { c with handed }
            loops := Function.update s.loops kind .idle }
      else
        some { s with loops := Function.update s.loops kind (.stopped kind.handler.closed) }
  | _ => none

/-- A channel is dropped in four steps: its receivers, and then its dropper. -/
inductive Action
  | register (endpointId : UInt16)
  | close (channel : ℕ) (kind : Kind)
  | remove (channel : ℕ)
  | recv (channel : ℕ) (kind : Kind)
  | arrive (kind : Kind) (bytes : Bytes)
  | data (kind : Kind) (number : ℕ)
  | accept (kind : Kind)
  | lookup (kind : Kind)
  | send (kind : Kind)
deriving DecidableEq

def Channel.close (kind : Kind) (c : Channel) : Option Channel :=
  if c.alive kind then some { c with alive := Function.update c.alive kind false } else none

def Channel.remove (c : Channel) : Option Channel :=
  if !c.alive .uni && !c.alive .bi && !c.alive .datagram && c.registered then
    some { c with registered := false }
  else none

def Channel.recv (kind : Kind) (c : Channel) : Option Channel :=
  if c.alive kind && decide (c.received kind < (c.handed kind).length) then
    some { c with received := Function.update c.received kind (c.received kind + 1) }
  else none

def modify (s : Router) (channel : ℕ) (f : Channel → Option Channel) : Option Router :=
  match s.channels[channel]? with
  | none => none
  | some c => (f c).map (fun c' ↦ { s with channels := s.channels.set channel c' })

def remove (s : Router) (channel : ℕ) : Option Router :=
  match s.channels[channel]? with
  | none => none
  | some c =>
    match s.drop c.endpointId with
    | .error _ => none
    | .ok s => s.modify channel Channel.remove

def step (s : Router) : Action → Option Router
  | .register endpointId =>
    match s.register endpointId with
    | .error _ => some s
    | .ok s => some s
  | .close channel kind => s.modify channel (Channel.close kind)
  | .remove channel => s.remove channel
  | .recv channel kind => s.modify channel (Channel.recv kind)
  | .arrive kind bytes => some (s.arrive kind bytes)
  | .data kind number => some (s.data kind number)
  | .accept kind => s.accept kind
  | .lookup kind => s.lookup kind
  | .send kind => s.send kind

end Router

end Kymux
