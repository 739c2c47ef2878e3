import Kymux.Driver.Receiver
import Kymux.Driver.VideoFecRun
import Kymux.FecOrderly

namespace Kymux.VideoFec.Checked

open Av BigEndian Driver EventLoop Fec
open Kymux.Checked (each)
open Fec.Checked (add slice sum usizeBits)

variable {rq : RaptorQ}

def newParts (oti : Oti) (created : ℕ) : Except Fault (Parts rq) := do
  let decoder ← Fec.Checked.newDecoder oti maxVideoPayload
  return ⟨decoder, none, created⟩

def addPacket (u : Parts rq) (x : Symbol) : Except Fault (Parts rq) := do
  let (assembled, decoder) ← Fec.Checked.decode u.decoder maxVideoPayload x.oti x.payloadId x.data
  return { u with decoder, assembled }

def fecStats (u : Parts rq) : Except Fault VideoFecStats := do
  let sourceSymbols ← Fec.Checked.divCeil u.decoder.oti.transferLength.toNat
    u.decoder.oti.symbolSize.toNat
  let missing := sourceSymbols - u.decoder.receivedSources
  return ⟨sourceSymbols, missing, if u.isComplete then 0 else missing⟩

def assemble (u : Parts rq) : Except Fault (VideoObject × AVPacket) := do
  let stats ← fecStats u
  match u.assembled with
  | none => .error (invalid "incomplete video object")
  | some data => do
    let packet ← Fec.Checked.mediaPacket data
    return (⟨u.decoder.oti, stats⟩, packet)

def reassembly (rq : RaptorQ) : Reassembly VideoObject (Parts rq) Symbol where
  new _ x created := newParts x.oti created
  addPacket := addPacket
  isComplete := Parts.isComplete
  assemble := assemble
  again := (VideoFec.reassembly rq).again

def charged (segments datagrams : List Oti) (configPacket : ConfigPacket) :
    Except Fault (ℕ × ℕ) := do
  let objects ← add usizeBits segments.length datagrams.length
  let reservations ← each Fec.Checked.reservation segments
  let segments ← sum reservations
  let reservations ← each Fec.Checked.reservation datagrams
  let datagrams ← sum reservations
  let bytes ← add usizeBits segments datagrams
  match configPacket with
  | .ready ⟨.media media, _⟩ => do
    let objects ← add usizeBits objects 1
    let bytes ← add usizeBits bytes media.payload.length
    return (objects, bytes)
  | _ => return (objects, bytes)

def usage (g : Queue rq) : Except Fault (ℕ × ℕ) :=
  charged (g.segments.map (fun s ↦ s.parts.decoder.oti)) (g.datagrams.map (fun d ↦ d.object.oti))
    g.configPacket

def checkCapacity (s : PendingGroups rq) (additional : ℕ) : Except Fault Unit := do
  let usages ← each (fun g : Group rq ↦ usage g.toPending) s.pendingGroups
  let objects ← sum (usages.map Prod.fst)
  let bytes ← sum (usages.map Prod.snd)
  Fec.Checked.checkPending objects bytes additional maxVideoPayload

def removeFront (p : Queue rq) (isDatagram : Bool) : Except Fault (VideoFecStats × Queue rq) :=
  PendingGroups.removeFrontWith fecStats p isDatagram

def retireOldestMedia (s : PendingGroups rq) (now : ℕ) : Except Fault (Bool × PendingGroups rq) :=
  s.retireOldestMediaWith removeFront now

def admitLoop (additional now n : ℕ) (s : PendingGroups rq) :
    Option (Except Fault Unit × PendingGroups rq) :=
  PendingGroups.admitLoopWith (fun s ↦ checkCapacity s additional)
    (fun s ↦ retireOldestMedia s now) n s

def admitObject (s : PendingGroups rq) (additional now : ℕ) :
    Except Fault Unit × PendingGroups rq :=
  (admitLoop additional now (s.mediaCount + 1) s).getD (.error (.panic "unreachable"), s)

def insertStreamPacket (s : PendingGroups rq) (groupSeq kypacketSeq : ℕ) (packet : AVPacket)
    (clock : Clock) : Except Fault Unit × PendingGroups rq :=
  s.insertStreamPacketWith admitObject groupSeq kypacketSeq packet clock

def storeDatagram (s : PendingGroups rq) (groupSeq kypacketSeq : ℕ) (x : Symbol) (clock : Clock) :
    Except Fault Unit × PendingGroups rq :=
  s.storeDatagramWith (reassembly rq) groupSeq kypacketSeq x clock

def insertDatagram (s : PendingGroups rq) (groupSeq kypacketSeq : ℕ) (x : Symbol)
    (clock : Clock) : Except Fault Unit × PendingGroups rq :=
  s.insertDatagramWith Fec.Checked.validateOti Fec.Checked.reservation admitObject storeDatagram
    groupSeq kypacketSeq x clock

def discardedFecStats (g : Queue rq) : Except Fault VideoFecStats := do
  let stats ← each (fun s : DatagramSegments (Parts rq) ↦ fecStats s.parts) g.segments
  return (g.datagrams.map (fun d ↦ d.object.fecStats)).sum + stats.sum

def takenStats : Taken VideoObject (Parts rq) → Except Fault VideoFecStats
  | .config _ => .ok 0
  | .datagram d expired => do
    let stats ← each (fun s : DatagramSegments (Parts rq) ↦ fecStats s.parts) expired
    return stats.sum + d.object.fecStats

def takeNextPacket (s : PendingGroups rq) (next now : ℕ) :
    Except Fault (Action × PendingGroups rq) :=
  s.takeNextPacketWith
    (fun drained ↦ do
      let discarded ← each (fun g : Group rq ↦ discardedFecStats g.toPending) drained
      return discarded.sum)
    takenStats next now

def process (rq : RaptorQ) : Loop (State rq) (Input Msg Clock) ℕ Fault where
  select := State.selectWith insertStreamPacket insertDatagram
  inner := State.drainWith takeNextPacket
  rank s := s.pendingGroups.pendingGroups.total Pending.deliverable
  rank_lt _ _ _ := State.deliverable_drainWith

def parse (datagram : Bytes) : Except Fault (DatagramMsg Symbol) := do
  let (data, oti, payloadId) ← Fec.Checked.parseDatagram datagram datagramHeaderSize maxVideoPayload
  let rawKypacketSeq ← slice datagram 2 6
  let rawGroupSeq ← slice datagram 6 10
  return ⟨⟨oti, payloadId, data⟩, readU32 rawKypacketSeq, readU32 rawGroupSeq⟩

def receiver (rq : RaptorQ) : Loop (Bytes × State rq) (Arrival Bytes Clock) ℕ Fault :=
  Driver.receiver (process rq) (fecReaders recvStreamPacket parse .stream .datagram)

end Kymux.VideoFec.Checked
