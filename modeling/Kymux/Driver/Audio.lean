import Kymux.Driver.Plain
import Kymux.Driver.Process

namespace Kymux.Audio

open Av Driver EventLoop Plain

def maxBuffering : ℕ := 10000000

abbrev PendingGroup := Pending Unit Parts

def PendingGroup.insertStreamPacket (p : PendingGroup) (kypacketSeq : ℕ) (packet : AVPacket) :
    Except Fault Unit × PendingGroup :=
  if ¬ p.configPacket.isNone then (.error (.panic "self.config_packet.is_none()"), p)
  else (.ok (), p.setConfig ⟨packet, kypacketSeq⟩)

abbrev State := AudioState PendingGroup

namespace State

def select (s : State) : Input (AudioRecvMsg Chunk) ℕ → Except Fault (State × Bool)
  | .timer => .ok (s, s.deadline.isSome)
  | .message msg assembled =>
    s.receive (.panic "frame_size.unwrap() > 0")
      (fun p kypacketSeq packet ↦ done (PendingGroup.insertStreamPacket p kypacketSeq packet))
      (fun p kypacketSeq x ↦ done (p.insertDatagram reassembly kypacketSeq x 0 assembled)) msg

def take (s : State) (now : ℕ) : Except Fault (State × Bool) :=
  match s.pendingGroup.takeNextPacket maxBuffering s.nextKypacketSeq now with
  | .error e => .error e
  | .ok (.none, pendingGroup) => .ok ({ s with pendingGroup, deadline := none }, false)
  | .ok (.deadline instant, pendingGroup) =>
    .ok ({ s with pendingGroup, deadline := some instant }, false)
  | .ok (.packet kypacketSeq packet, pendingGroup) =>
    match { s with pendingGroup, deadline := none }.forward (.panic "frame_size.is_some()")
      kypacketSeq packet with
    | .error e => .error e
    | .ok s => .ok (s, false)

end State

theorem take_once {s s' : State} {now : ℕ} (h : s.take now = .ok (s', true)) : False := by
  unfold State.take at h
  split at h
  · cases h
  · cases h
  · cases h
  · split at h <;> cases h

def process : Loop State (Input (AudioRecvMsg Chunk) ℕ) ℕ Fault where
  select := State.select
  inner := State.take
  rank _ := 0
  rank_lt _ _ _ h := (take_once h).elim

end Kymux.Audio
