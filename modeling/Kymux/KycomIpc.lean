import Kymux.Kycom
import Kymux.Lib.BigEndian

namespace Kymux.Kycom

open BigEndian

/-- What the server has done with a stream: `handle_stream` reads the endpoint id, passes the
stream to `listen`, and `ready` of a channel that was given it writes a byte. -/
inductive ServerEnd
  | reading (got : Bytes)
  | queued
  | listened
  | ready (channel : ℕ)
deriving DecidableEq

/-- A TCP stream that a client opened for the address of an endpoint. The client has yet to
write the last bytes of the id. What the two ends send once they are ready, and what they have
read of it, is kept. An end that fails or is dropped takes no more steps. -/
structure TcpStream where
  endpointId : UInt16
  idLeft : Bytes
  clientReady : Bool
  clientSent : Bytes
  clientReceived : Bytes
  toServer : Bytes
  toClient : Bytes
  server : ServerEnd
  serverSent : Bytes
  serverReceived : Bytes
deriving DecidableEq

namespace TcpStream

/-- `Channel::connect` and the start of `ready` on the client. -/
def connect (endpointId : UInt16) : TcpStream where
  endpointId
  idLeft := encode 2 endpointId.toNat
  clientReady := false
  clientSent := []
  clientReceived := []
  toServer := []
  toClient := []
  server := .reading []
  serverSent := []
  serverReceived := []

def writeId (x : TcpStream) (n : ℕ) : Option TcpStream :=
  if x.idLeft = [] then none
  else some { x with idLeft := x.idLeft.drop n, toServer := x.toServer ++ x.idLeft.take n }

def readReady (x : TcpStream) : Option TcpStream :=
  if x.idLeft = [] ∧ x.clientReady = false then
    match x.toClient with
    | [] => none
    | _ :: rest => some { x with clientReady := true, toClient := rest }
  else none

def clientSend (x : TcpStream) (bytes : Bytes) : Option TcpStream :=
  if x.clientReady then
    some { x with clientSent := x.clientSent ++ bytes, toServer := x.toServer ++ bytes }
  else none

def clientRecv (x : TcpStream) (n : ℕ) : Option TcpStream :=
  if x.clientReady then
    some { x with
      clientReceived := x.clientReceived ++ x.toClient.take n
      toClient := x.toClient.drop n }
  else none

def readId (x : TcpStream) (n : ℕ) : Option TcpStream :=
  match x.server with
  | .reading got =>
    let n := min n (2 - got.length)
    some { x with server := .reading (got ++ x.toServer.take n), toServer := x.toServer.drop n }
  | _ => none

def isReady (x : TcpStream) : Bool :=
  match x.server with
  | .ready _ => true
  | _ => false

def serverSend (x : TcpStream) (bytes : Bytes) : Option TcpStream :=
  if x.isReady then
    some { x with serverSent := x.serverSent ++ bytes, toClient := x.toClient ++ bytes }
  else none

def serverRecv (x : TcpStream) (n : ℕ) : Option TcpStream :=
  if x.isReady then
    some { x with
      serverReceived := x.serverReceived ++ x.toServer.take n
      toServer := x.toServer.drop n }
  else none

end TcpStream

/-- The server, the channel from `handle_stream` to `listen`, and the streams of all clients. -/
structure Ipc where
  kycom : KyCom
  queue : List (ℕ × UInt16)
  streams : List TcpStream
  panicked : Bool

inductive IpcAction
  | registerChannel
  | stop
  | drop (channel : ℕ)
  | connect (endpointId : UInt16)
  | writeId (stream n : ℕ)
  | readReady (stream : ℕ)
  | clientSend (stream : ℕ) (bytes : Bytes)
  | clientRecv (stream n : ℕ)
  | readId (stream n : ℕ)
  | handled (stream : ℕ)
  | listen
  | serverReady (channel : ℕ)
  | serverSend (stream : ℕ) (bytes : Bytes)
  | serverRecv (stream n : ℕ)

namespace Ipc

def new : Ipc := ⟨.new, [], [], false⟩

def queueSize : ℕ := 16

def kycomStep (s : Ipc) (a : Action) : Option Ipc :=
  (s.kycom.step a).map (fun kycom ↦ { s with kycom })

def streamStep (s : Ipc) (stream : ℕ) (f : TcpStream → Option TcpStream) : Option Ipc :=
  (s.streams[stream]?.bind f).map (fun x ↦ { s with streams := s.streams.set stream x })

/-- `handle_stream` has read the id, and sends it with the stream. -/
def handled (s : Ipc) (stream : ℕ) : Option Ipc :=
  match s.streams[stream]? with
  | none => none
  | some x =>
    match x.server with
    | .reading got =>
      if got.length = 2 ∧ s.queue.length < queueSize then
        some { s with
          queue := s.queue ++ [(stream, UInt16.ofNat (decode got))]
          streams := s.streams.set stream { x with server := .queued } }
      else none
    | _ => none

def listen (s : Ipc) : Option Ipc :=
  match s.queue with
  | [] => none
  | (stream, endpointId) :: queue =>
    match s.streams[stream]? with
    | none => none
    | some x =>
      (s.kycom.step (.accept ⟨endpointId, stream⟩)).map (fun kycom ↦
        { s with kycom, queue, streams := s.streams.set stream { x with server := .listened } })

/-- `Channel::ready` on the server, once the channel was given a stream. -/
def serverReady (s : Ipc) (channel : ℕ) : Option Ipc :=
  match s.kycom.channels[channel]? with
  | none => none
  | some c =>
    match c.dropped, c.results with
    | false, [.ok connection] =>
      if connection.endpointId = c.endpointId then
        match s.streams[connection.number]? with
        | none => none
        | some x =>
          if x.server = .listened then
            let x := { x with server := .ready channel, toClient := x.toClient ++ [0] }
            some { s with streams := s.streams.set connection.number x }
          else none
      else some { s with panicked := true }
    | _, _ => none

def step (s : Ipc) : IpcAction → Option Ipc
  | .registerChannel => s.kycomStep .registerChannel
  | .stop => s.kycomStep .stop
  | .drop channel => s.kycomStep (.drop channel)
  | .connect endpointId => some { s with streams := s.streams ++ [.connect endpointId] }
  | .writeId stream n => s.streamStep stream (·.writeId n)
  | .readReady stream => s.streamStep stream TcpStream.readReady
  | .clientSend stream bytes => s.streamStep stream (·.clientSend bytes)
  | .clientRecv stream n => s.streamStep stream (·.clientRecv n)
  | .readId stream n => s.streamStep stream (·.readId n)
  | .handled stream => s.handled stream
  | .listen => s.listen
  | .serverReady channel => s.serverReady channel
  | .serverSend stream bytes => s.streamStep stream (·.serverSend bytes)
  | .serverRecv stream n => s.streamStep stream (·.serverRecv n)

end Ipc

end Kymux.Kycom
