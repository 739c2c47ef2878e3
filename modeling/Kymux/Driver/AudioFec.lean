import Kymux.Fec
import Kymux.Driver.PendingSteps
import Kymux.Driver.Process

namespace Kymux.AudioFec

open Av Driver EventLoop Fec

def maxBuffering : ℕ := 10000000

structure Parts (rq : RaptorQ) where
  decoder : ObjectDecoder rq
  assembled : Option BigEndian.Bytes

namespace Parts

variable {rq : RaptorQ}

def new (oti : Oti) : Except Fault (Parts rq) := do
  let decoder ← ObjectDecoder.new oti maxAudioPayload
  return ⟨decoder, none⟩

def addPacket (s : Parts rq) (x : Symbol) : Except Fault (Parts rq) := do
  let (assembled, decoder) ← s.decoder.decode x.oti x.payloadId x.data
  return ⟨decoder, assembled⟩

def isComplete (s : Parts rq) : Bool := s.assembled.isSome

def assemble (s : Parts rq) : Except Fault (Oti × AVPacket) :=
  match s.assembled with
  | none => .error (invalid "incomplete audio object")
  | some data => do
    let packet ← mediaPacket data
    return (s.decoder.oti, packet)

end Parts

abbrev PendingGroup (rq : RaptorQ) := Pending Oti (Parts rq)

namespace PendingGroup

variable {rq : RaptorQ}

def checkCapacity (p : PendingGroup rq) (additional : ℕ) : Except Fault Unit :=
  let objects := p.segments.length + p.datagrams.length
  let bytes := (p.segments.map (fun s ↦ reservation s.parts.decoder.oti)).sum +
    (p.datagrams.map (fun d ↦ reservation d.object)).sum
  match p.configPacket with
  | .ready ⟨.media media, _⟩ =>
    checkPending (objects + 1) (bytes + media.payload.length) additional maxAudioPayload
  | _ => checkPending objects bytes additional maxAudioPayload

/-! As for video, the arithmetic is a parameter. -/

def insertStreamPacketWith (checkCapacity : PendingGroup rq → ℕ → Except Fault Unit)
    (p : PendingGroup rq) (kypacketSeq : ℕ) (packet : AVPacket) :
    Except Fault Unit × PendingGroup rq :=
  match packet with
  | .media media =>
    if ¬ media.header.isConfig ∨ ¬ p.configPacket.isNone then
      (.error (invalid "invalid or duplicate audio config"), p)
    else
      match checkCapacity p media.payload.length with
      | .error e => (.error e, p)
      | .ok () => (.ok (), p.setConfig ⟨packet, kypacketSeq⟩)
  | _ => (.error (invalid "expected audio config"), p)

def insertStreamPacket (p : PendingGroup rq) (kypacketSeq : ℕ) (packet : AVPacket) :
    Except Fault Unit × PendingGroup rq :=
  insertStreamPacketWith checkCapacity p kypacketSeq packet

def reassembly (rq : RaptorQ) : Reassembly Oti (Parts rq) Symbol where
  new p x _ := do
    validateOti x.oti maxAudioPayload
    checkCapacity p (reservation x.oti)
    Parts.new x.oti
  addPacket := Parts.addPacket
  isComplete := Parts.isComplete
  assemble := Parts.assemble
  again oti x :=
    if oti ≠ x.oti then .error (invalid "OTI changed for completed audio object") else .ok ()

end PendingGroup

abbrev State (rq : RaptorQ) := AudioState (PendingGroup rq)

abbrev Msg := Except ProtocolError (AudioRecvMsg Symbol)

namespace State

variable {rq : RaptorQ}

/-- The reading of the clock is that of `assemble`. -/
def selectWith
    (insertStreamPacket : PendingGroup rq → ℕ → AVPacket → Except Fault Unit × PendingGroup rq)
    (R : Reassembly Oti (Parts rq) Symbol) (s : State rq) :
    Input Msg ℕ → Except Fault (State rq × Bool)
  | .timer => .ok (s, s.deadline.isSome)
  | .message (.error e) _ => .error (.err e)
  | .message (.ok msg) assembled =>
    s.receive (invalid "zero audio frame size")
      (fun p kypacketSeq packet ↦ done (insertStreamPacket p kypacketSeq packet))
      (fun p kypacketSeq x ↦ done (p.insertDatagram R kypacketSeq x 0 assembled)) msg

def select (s : State rq) (input : Input Msg ℕ) : Except Fault (State rq × Bool) :=
  s.selectWith PendingGroup.insertStreamPacket (PendingGroup.reassembly rq) input

def drain (s : State rq) (now : ℕ) : Except Fault (State rq × Bool) :=
  match s.pendingGroup.takeNextPacket maxBuffering s.nextKypacketSeq now with
  | .error e => .error e
  | .ok (.none, pendingGroup) => .ok ({ s with pendingGroup, deadline := none }, false)
  | .ok (.deadline instant, pendingGroup) =>
    .ok ({ s with pendingGroup, deadline := some instant }, false)
  | .ok (.packet kypacketSeq packet, pendingGroup) =>
    match { s with pendingGroup }.forward (invalid "audio before codec") kypacketSeq packet with
    | .error e => .error e
    | .ok s => .ok (s, true)

end State

theorem forward_pendingGroup {P : Type} {s s' : AudioState P} {noFrameSize : Fault}
    {kypacketSeq : ℕ} {packet : AVPacket} (h : s.forward noFrameSize kypacketSeq packet = .ok s') :
    s'.pendingGroup = s.pendingGroup := by
  unfold AudioState.forward at h
  split at h
  · cases h
  · cases h; rfl

def process (rq : RaptorQ) : Loop (State rq) (Input Msg ℕ) ℕ Fault where
  select := State.select
  inner := State.drain
  rank s := s.pendingGroup.deliverable
  rank_lt s t s' h := by
    unfold State.drain at h
    split at h
    · cases h
    · cases h
    · cases h
    · next htake =>
      split at h
      · cases h
      · next hfwd =>
        cases h
        rw [forward_pendingGroup hfwd]
        exact Pending.deliverable_takeNextPacket htake

end Kymux.AudioFec
