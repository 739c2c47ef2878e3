import Kymux.Driver.Process
import Kymux.Driver.VideoFecValid

namespace Kymux.VideoFec

open Av Driver EventLoop Fec Timed

abbrev State (rq : RaptorQ) := VideoState (PendingGroups rq)

/-- The readers pass their errors on through the queue of messages. -/
abbrev Msg := Except ProtocolError (RecvMsg Symbol)

def addFec (stats : ProtocolStats) (fecStats : VideoFecStats) : ProtocolStats :=
  if fecStats.sourceSymbols ≠ 0 then
    { stats with
      videoFecSourceSymbols := some (stats.videoFecSourceSymbols.getD 0 + fecStats.sourceSymbols)
      videoFecSourceSymbolsMissing :=
        some (stats.videoFecSourceSymbolsMissing.getD 0 + fecStats.missingSourceSymbols)
      videoFecSourceSymbolsUnrecovered :=
        some (stats.videoFecSourceSymbolsUnrecovered.getD 0 + fecStats.unrecoveredSourceSymbols) }
  else stats

theorem addFec_droppedPackets (stats : ProtocolStats) (fecStats : VideoFecStats) :
    (addFec stats fecStats).droppedPackets = stats.droppedPackets := by
  unfold addFec
  split_ifs <;> rfl

namespace State

variable {rq : RaptorQ}

def selectWith
    (insertStreamPacket : PendingGroups rq → ℕ → ℕ → AVPacket → Clock →
      Except Fault Unit × PendingGroups rq)
    (insertDatagram : PendingGroups rq → ℕ → ℕ → Symbol → Clock →
      Except Fault Unit × PendingGroups rq)
    (s : State rq) : Input Msg Clock → Except Fault (State rq × Bool)
  | .timer => .ok (s, s.deadline.isSome)
  | .message (.error e) _ => .error (.err e)
  | .message (.ok msg) clock =>
    s.receive (fun gs groupSeq kypacketSeq packet ↦
        done (insertStreamPacket gs groupSeq kypacketSeq packet clock))
      (fun gs groupSeq kypacketSeq x ↦ done (insertDatagram gs groupSeq kypacketSeq x clock)) msg

def select (s : State rq) (input : Input Msg Clock) : Except Fault (State rq × Bool) :=
  s.selectWith PendingGroups.insertStreamPacket PendingGroups.insertDatagram input

def deliver (s : State rq) (kypacketSeq : ℕ) (packet : AVPacket) (fecStats : VideoFecStats)
    (pendingGroups : PendingGroups rq) : State rq :=
  { s with
    pendingGroups, protocolStats := addFec s.protocolStats fecStats }.forward kypacketSeq packet

def drainWith
    (takeNextPacket : PendingGroups rq → ℕ → ℕ → Except Fault (Action × PendingGroups rq))
    (s : State rq) (now : ℕ) : Except Fault (State rq × Bool) :=
  match takeNextPacket s.pendingGroups s.nextKypacketSeq now with
  | .error e => .error e
  | .ok (.none, pendingGroups) => .ok ({ s with pendingGroups, deadline := none }, false)
  | .ok (.deadline instant, pendingGroups) =>
    .ok ({ s with pendingGroups, deadline := some instant }, false)
  | .ok (.packet kypacketSeq packet fecStats, pendingGroups) =>
    .ok (s.deliver kypacketSeq packet fecStats pendingGroups, true)

def drain (s : State rq) (now : ℕ) : Except Fault (State rq × Bool) :=
  s.drainWith PendingGroups.takeNextPacket now

end State

section

variable {rq : RaptorQ} {discardedFecStats : List (Group rq) → Except Fault VideoFecStats}
  {takenStats : Taken VideoObject (Parts rq) → Except Fault VideoFecStats}

theorem PendingGroups.deliverable_takeNextPacketWith {s s' : PendingGroups rq}
    {next now kypacketSeq : ℕ} {packet : AVPacket} {fecStats : VideoFecStats}
    (h : s.takeNextPacketWith discardedFecStats takenStats next now =
      .ok (.packet kypacketSeq packet fecStats, s')) :
    s'.pendingGroups.total Pending.deliverable < s.pendingGroups.total Pending.deliverable := by
  unfold takeNextPacketWith at h
  split at h
  · cases h
  · cases h
  · next ref _ =>
    cases href : s.pendingGroups.takeRef ref with
    | error e => simp [href, bind, Except.bind] at h
    | ok out =>
      simp only [href, bind, Except.bind] at h
      split at h
      · cases h
      · split at h
        · cases h
        · cases h
          exact Groups.deliverable_takeRef href

theorem State.deliverable_drainWith {s s' : State rq} {now : ℕ}
    (h : s.drainWith (PendingGroups.takeNextPacketWith discardedFecStats takenStats) now =
      .ok (s', true)) :
    s'.pendingGroups.pendingGroups.total Pending.deliverable <
      s.pendingGroups.pendingGroups.total Pending.deliverable := by
  unfold drainWith at h
  split at h
  · cases h
  · cases h
  · cases h
  · next htake =>
    cases h
    exact PendingGroups.deliverable_takeNextPacketWith htake

end

def process (rq : RaptorQ) : Loop (State rq) (Input Msg Clock) ℕ Fault where
  select := State.select
  inner := State.drain
  rank s := s.pendingGroups.pendingGroups.total Pending.deliverable
  rank_lt _ _ _ := State.deliverable_drainWith

end Kymux.VideoFec
