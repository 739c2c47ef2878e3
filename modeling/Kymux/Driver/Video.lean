import Kymux.Driver.Groups
import Kymux.Driver.Plain
import Kymux.Driver.Process

namespace Kymux.Video

open Av Driver EventLoop Plain

def maxBuffering : ℕ := 50000000

abbrev PendingGroups := Groups Unit Parts

namespace PendingGroups

/-- The plain driver bounds the number of groups by nothing. -/
def room (_ : ℕ) : Except Fault Unit := .ok ()

def insertStreamPacket (gs : PendingGroups) (groupSeq kypacketSeq : ℕ) (packet : AVPacket) :
    Except Fault Unit × PendingGroups :=
  match gs.preparePendingGroup room groupSeq with
  | (.error e, gs) => (.error e, gs)
  | (.ok index, gs) =>
    match gs[index]? with
    | none => (.error (.panic "index out of bounds"), gs)
    | some g =>
      if ¬ g.configPacket.isNone then
        (.error (.panic "pending_group.config_packet.is_none()"), gs)
      else (.ok (), gs.set index ⟨g.setConfig ⟨packet, kypacketSeq⟩, g.groupSeq⟩)

def insertDatagram (gs : PendingGroups) (groupSeq kypacketSeq : ℕ) (x : Chunk) (assembled : ℕ) :
    Except Fault Unit × PendingGroups :=
  match gs.preparePendingGroup room groupSeq with
  | (.error e, gs) => (.error e, gs)
  | (.ok index, gs) =>
    match gs[index]? with
    | none => (.error (.panic "index out of bounds"), gs)
    | some g =>
      let (r, p) := g.insertDatagram reassembly kypacketSeq x 0 assembled
      (r, gs.set index ⟨p, g.groupSeq⟩)

end PendingGroups

abbrev State := VideoState PendingGroups

namespace State

/-- The reading of the clock is that of `assemble`. -/
def select (s : State) : Input (RecvMsg Chunk) ℕ → Except Fault (State × Bool)
  | .timer => .ok (s, s.deadline.isSome)
  | .message msg assembled =>
    s.receive (fun gs groupSeq kypacketSeq packet ↦
        done (PendingGroups.insertStreamPacket gs groupSeq kypacketSeq packet))
      (fun gs groupSeq kypacketSeq x ↦
        done (PendingGroups.insertDatagram gs groupSeq kypacketSeq x assembled)) msg

/-- One packet at most is sent before the loop waits again. -/
def take (s : State) (now : ℕ) : Except Fault (State × Bool) :=
  match s.pendingGroups.takeNextPacket maxBuffering s.nextKypacketSeq now with
  | .error e => .error e
  | .ok (.none, pendingGroups) => .ok ({ s with pendingGroups, deadline := none }, false)
  | .ok (.deadline instant, pendingGroups) =>
    .ok ({ s with pendingGroups, deadline := some instant }, false)
  | .ok (.packet kypacketSeq packet, pendingGroups) =>
    .ok ({ s with pendingGroups, deadline := none }.forward kypacketSeq packet, false)

end State

theorem take_once {s s' : State} {now : ℕ} (h : s.take now = .ok (s', true)) : False := by
  unfold State.take at h
  split at h <;> cases h

def process : Loop State (Input (RecvMsg Chunk) ℕ) ℕ Fault where
  select := State.select
  inner := State.take
  rank _ := 0
  rank_lt _ _ _ h := (take_once h).elim

end Kymux.Video
