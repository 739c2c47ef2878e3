import Kymux.Lib.Machine
import Kymux.Types.Av

namespace Kymux.GopStream

open BigEndian Av

def unwrap {α : Type} : Option α → Except Fault α
  | some a => .ok a
  | none => .error (.panic "called `Option::unwrap()` on a `None` value")

/-- The send driver, with what it has written on its streams in the order they were opened.
The current stream is the last one. -/
structure Sender where
  streams : List Bytes
  gopId : UInt32
  codecGen : UInt32
  codecPacket : Option CodecPacket
  configGen : UInt32
  configPacket : Option MediaPacket
deriving DecidableEq

namespace Sender

def start : Sender where
  streams := []
  gopId := 0
  codecGen := 0
  codecPacket := none
  configGen := 0
  configPacket := none

def newStream (s : Sender) : Except Fault Sender := do
  let ids := encode 4 s.gopId.toNat ++ encode 4 s.codecGen.toNat ++ encode 4 s.configGen.toNat
  let codecPacket ← unwrap s.codecPacket
  let configPacket ← unwrap s.configPacket
  let header ← configPacket.header.serialize
  let buf := ids ++ (codecPacket.header.serialize ++ (header ++ configPacket.payload))
  return { s with gopId := s.gopId + 1, streams := s.streams ++ [buf] }

/-- Without a stream there was no keyframe yet: the packet is dropped. -/
def write (s : Sender) (packet : MediaPacket) : Except Fault Sender :=
  match s.streams.getLast? with
  | none => .ok s
  | some stream => do
    let header ← packet.header.serialize
    return { s with streams := s.streams.dropLast ++ [stream ++ (header ++ packet.payload)] }

def send (s : Sender) : AVPacket → Except Fault Sender
  | .codec packet => .ok { s with codecGen := s.codecGen + 1, codecPacket := some packet }
  | .media packet =>
    if packet.header.isConfig then
      .ok { s with configGen := s.configGen + 1, configPacket := some packet }
    else do
      let s ← if packet.header.isKey then s.newStream else .ok s
      s.write packet
  | .hole _ => .error (.panic "Unexpected input hole packet")

def sendAll (s : Sender) : List AVPacket → Except Fault Sender
  | [] => .ok s
  | packet :: packets => do
    let s ← s.send packet
    s.sendAll packets

end Sender

structure Gop where
  id : UInt32
  codecGen : UInt32
  configGen : UInt32
deriving DecidableEq

inductive RecvMsg
  | newStream (recv : Bytes)
  | streamIds (recv : Bytes) (gop : Gop)
  | newPacket (packet : AVPacket) (gopId : UInt32)
deriving DecidableEq

structure Returned where
  packet : AVPacket
  gop : Gop
deriving DecidableEq

/-- A `read_packets` task, with what is still to be read of its stream, if it has not ended. A
task that was cancelled may go on for a while. -/
structure Reader where
  recv : Option Bytes
  gopId : UInt32
deriving DecidableEq

structure Receiver where
  accepted : List ℕ
  queue : List RecvMsg
  gop : Option Gop
  lastCodecGen : UInt32
  lastConfigGen : UInt32
  idReaders : List Bytes
  packetReaders : List Reader
  returned : List Returned
deriving DecidableEq

def queueSize : ℕ := 16

def readStreamIds (recv : Bytes) : Except Fault RecvMsg := do
  let (ids, recv) ← readExact 12 recv
  return .streamIds recv {
    id := UInt32.ofNat (decode (ids.take 4))
    codecGen := UInt32.ofNat (decode ((ids.drop 4).take 4))
    configGen := UInt32.ofNat (decode (ids.drop 8)) }

namespace Receiver

def start : Receiver where
  accepted := []
  queue := []
  gop := none
  lastCodecGen := 0
  lastConfigGen := 0
  idReaders := []
  packetReaders := []
  returned := []

/-- One turn of `recv`: it returns, or goes on with the next message. -/
def handle (r : Receiver) : RecvMsg → Except Fault (Option Returned × Receiver)
  | .newStream recv => .ok (none, { r with idReaders := r.idReaders ++ [recv] })
  | .streamIds recv gop =>
    let isNewer := match r.gop with
      | some prev => decide (prev.id < gop.id)
      | none => true
    if isNewer then
      .ok (none, { r with
        gop := some gop
        packetReaders := r.packetReaders ++ [⟨some recv, gop.id⟩] })
    else .ok (none, r)
  | .newPacket packet gopId => do
    let gop ← unwrap r.gop
    if gopId = gop.id then
      match packet with
      | .codec _ =>
        if gop.codecGen = r.lastCodecGen then .ok (none, r)
        else .ok (some ⟨packet, gop⟩, { r with lastCodecGen := gop.codecGen })
      | .media media =>
        if media.header.isConfig then
          if gop.configGen = r.lastConfigGen then .ok (none, r)
          else .ok (some ⟨packet, gop⟩, { r with lastConfigGen := gop.configGen })
        else .ok (some ⟨packet, gop⟩, r)
      | .hole _ => .error (.panic "Unexpected input hole packet")
    else .ok (none, r)

def recv (r : Receiver) : Option Receiver :=
  match r.queue with
  | [] => none
  | msg :: queue =>
    match { r with queue }.handle msg with
    | .error _ => none
    | .ok (none, r) => some r
    | .ok (some returned, r) => some { r with returned := r.returned ++ [returned] }

def push (r : Receiver) (msg : RecvMsg) : Option Receiver :=
  if r.queue.length < queueSize then some { r with queue := r.queue ++ [msg] } else none

def accept (r : Receiver) (number : ℕ) (stream : Bytes) : Option Receiver :=
  if number ∈ r.accepted then none
  else { r with accepted := r.accepted ++ [number] }.push (.newStream stream)

def readIds (r : Receiver) (task : ℕ) : Option Receiver :=
  match r.idReaders[task]? with
  | none => none
  | some recv =>
    match readStreamIds recv with
    | .error _ => some { r with idReaders := r.idReaders.eraseIdx task }
    | .ok msg => { r with idReaders := r.idReaders.eraseIdx task }.push msg

def readPacket (r : Receiver) (task : ℕ) : Option Receiver :=
  match r.packetReaders[task]? with
  | some ⟨some recv, gopId⟩ =>
    match AVPacket.read recv with
    | .ok (some packet, recv) =>
      { r with packetReaders := r.packetReaders.set task ⟨some recv, gopId⟩ }.push
        (.newPacket packet gopId)
    | _ => some { r with packetReaders := r.packetReaders.set task ⟨none, gopId⟩ }
  | _ => none

def endPackets (r : Receiver) (task : ℕ) : Option Receiver :=
  match r.packetReaders[task]? with
  | some reader => some { r with packetReaders := r.packetReaders.set task ⟨none, reader.gopId⟩ }
  | none => none

end Receiver

/-- Streams arrive in any order. A task ends where its stream is cut off or reset, or where it
was cancelled. -/
inductive Action
  | accept (stream : ℕ)
  | recv
  | readIds (task : ℕ)
  | readPacket (task : ℕ)
  | endIds (task : ℕ)
  | endPackets (task : ℕ)
deriving DecidableEq

def step (streams : List Bytes) (r : Receiver) : Action → Option Receiver
  | .accept number => streams[number]?.bind (r.accept number)
  | .recv => r.recv
  | .readIds task => r.readIds task
  | .readPacket task => r.readPacket task
  | .endIds task => some { r with idReaders := r.idReaders.eraseIdx task }
  | .endPackets task => r.endPackets task

end Kymux.GopStream
