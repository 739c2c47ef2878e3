import Kymux.RaptorQ
import Kymux.Types.AvFormat

namespace Kymux.Driver

open Av BigEndian

inductive Op
  | writeAll (record : Bytes)
  | flush
  | sendDatagram (datagram : Bytes)
deriving DecidableEq

/-- What a call to `send` finds: the endpoint, the size of datagrams, and which of the
operations it awaits fails, if one does. -/
structure Env where
  endpointId : UInt16
  maxDatagramSize : Option ℕ
  failAt : Option ℕ
deriving DecidableEq

def ioError : Fault := .err ⟨"connection lost"⟩

/-- Awaits the operations in turn, up to the first that fails, and returns those that were
done. A write that fails may leave a part of a record behind, which is not a record. -/
def perform (failAt : Option ℕ) : ℕ → List (Except Fault Op) → Except Fault Unit × List Op
  | _, [] => (.ok (), [])
  | _, .error e :: _ => (.error e, [])
  | n, .ok op :: ops =>
    if failAt = some n then (.error ioError, [])
    else ((perform failAt (n + 1) ops).1, op :: (perform failAt (n + 1) ops).2)

structure Sender where
  kypacketSeq : UInt32
  groupSeq : UInt32
deriving DecidableEq

def Sender.start : Sender := ⟨0, 0⟩

/-- In which the senders differ: the numbers that they write, whether they number groups,
and the datagrams of a media packet. -/
structure SendDriver where
  codecSeqs : Bytes
  seqs : Sender → Bytes
  nextGroup : Sender → Sender
  datagrams : Sender → MediaPacket → Env → List (Except Fault Op)

namespace SendDriver

variable (D : SendDriver)

def configOps (s : Sender) (packet : MediaPacket) : List (Except Fault Op) :=
  match packet.header.serialize with
  | .error e => [.error e]
  | .ok header => [.ok (.writeAll (D.seqs s ++ header ++ packet.payload)), .ok .flush]

def sendMedia (s : Sender) (packet : MediaPacket) (env : Env) :
    Except Fault Unit × Sender × List Op :=
  let s := if packet.header.isConfig then D.nextGroup s else s
  let ops := if packet.header.isConfig then D.configOps s packet else D.datagrams s packet env
  match perform env.failAt 0 ops with
  | (.ok (), out) => (.ok (), { s with kypacketSeq := s.kypacketSeq + 1 }, out)
  | (.error e, out) => (.error e, s, out)

def send (s : Sender) (packet : AVPacket) (env : Env) : Except Fault Unit × Sender × List Op :=
  match packet with
  | .codec packet =>
    let (r, out) := perform env.failAt 0
      [.ok (.writeAll (D.codecSeqs ++ packet.header.serialize)), .ok .flush]
    (r, s, out)
  | .media packet => D.sendMedia s packet env
  | .hole _ => (.error (.panic "Unexpected input hole packet"), s, [])

end SendDriver

/-- The pieces of at most `size` bytes of a packet, in at most as many turns as the first
argument. -/
def chunks (size : ℕ) : ℕ → Bytes → List Bytes
  | 0, _ => []
  | n + 1, data => if data = [] then [] else data.take size :: chunks size n (data.drop size)

def datagramNumberAndEnd (datagramNumber : ℕ) (isEnd : Bool) : UInt32 :=
  UInt32.ofNat datagramNumber ||| if isEnd then (1 : UInt32) <<< 31 else 0

/-- The `send_datagrams` of the plain drivers. -/
def plainDatagrams (headerSize : ℕ) (seqs : Bytes) (packet : MediaPacket) (env : Env) :
    List (Except Fault Op) :=
  match env.maxDatagramSize with
  | none => [.error (.err ⟨"Datagram not supported"⟩)]
  | some maxDatagramSize =>
    if ¬ headerSize < maxDatagramSize then
      [.error (.panic "max_datagram_size > DATAGRAM_HEADER_SIZE")]
    else
      match packet.header.serialize with
      | .error e => [.error e]
      | .ok header =>
        let data := header ++ packet.payload
        let parts := chunks (maxDatagramSize - headerSize) data.length data
        parts.mapIdx (fun number part ↦
          if part.length < 2 ^ 16 then
            .ok (.sendDatagram (encode 2 env.endpointId.toNat ++ seqs ++
              encode 4 (datagramNumberAndEnd number (number + 1 = parts.length)).toNat ++ part))
          else .error (.panic "payload_size < 1 << 16"))

/-- The nearest number of 24 bits and an exponent, ties to even: a whole number as `f32`. -/
def roundF32 (m : ℕ) : ℕ :=
  let e := m.size - 24
  let q := m / 2 ^ e
  let r := m % 2 ^ e
  if 2 * r > 2 ^ e ∨ 2 * r = 2 ^ e ∧ q % 2 = 1 then (q + 1) * 2 ^ e else q * 2 ^ e

/-- `((source_symbols as f32 * 0.3).ceil() as u32).max(2)`, where `0.3` as `f32` is
`10066330 / 2 ^ 25`. -/
def repairSymbols (sourceSymbols : ℕ) : ℕ :=
  max 2 (min (divCeil (roundF32 (roundF32 sourceSymbols * 10066330)) (2 ^ 25)) (2 ^ 32 - 1))

/-- The `send_datagrams` of the drivers with forward error correction. -/
def fecDatagrams (rq : RaptorQ) (headerSize : ℕ) (seqs : Bytes) (packet : MediaPacket) (env : Env) :
    List (Except Fault Op) :=
  match env.maxDatagramSize with
  | none => [.error (.err ⟨"Datagram not supported"⟩)]
  | some maxDatagramSize =>
    if ¬ headerSize < maxDatagramSize then
      [.error (.panic "max_datagram_size > DATAGRAM_HEADER_SIZE")]
    else if ¬ maxDatagramSize < 0x10000 then [.error (.panic "max_datagram_size < 0x10000")]
    else
      match packet.header.serialize with
      | .error e => [.error e]
      | .ok header =>
        let data := header ++ packet.payload
        let maxPayloadSize := UInt16.ofNat (maxDatagramSize - headerSize)
        let oti := rq.config data maxPayloadSize
        if oti.symbolSize = 0 then [.error (.panic "attempt to divide by zero")]
        else
          let repair := repairSymbols (divCeil data.length oti.symbolSize.toNat)
          (rq.encodedPackets data maxPayloadSize repair).map (fun p ↦
            .ok (.sendDatagram (encode 2 env.endpointId.toNat ++ seqs ++ oti.serialize ++
              p.payloadId.serialize ++ p.data)))

def videoSeqs (s : Sender) : Bytes := encode 4 s.kypacketSeq.toNat ++ encode 4 s.groupSeq.toNat

def audioSeqs (s : Sender) : Bytes := encode 4 s.kypacketSeq.toNat

def nextVideoGroup (s : Sender) : Sender := { s with groupSeq := s.groupSeq + 1 }

end Kymux.Driver

namespace Kymux

open Driver

def Video.datagramHeaderSize : ℕ := 14

def Audio.datagramHeaderSize : ℕ := 10

def VideoFec.datagramHeaderSize : ℕ := 26

def AudioFec.datagramHeaderSize : ℕ := 22

def Video.sendDriver : SendDriver where
  codecSeqs := BigEndian.encode 8 0
  seqs := videoSeqs
  nextGroup := nextVideoGroup
  datagrams s := plainDatagrams Video.datagramHeaderSize (videoSeqs s)

def Audio.sendDriver : SendDriver where
  codecSeqs := BigEndian.encode 4 0
  seqs := audioSeqs
  nextGroup := id
  datagrams s := plainDatagrams Audio.datagramHeaderSize (audioSeqs s)

def VideoFec.sendDriver (rq : RaptorQ) : SendDriver where
  codecSeqs := BigEndian.encode 8 0
  seqs := videoSeqs
  nextGroup := nextVideoGroup
  datagrams s := fecDatagrams rq VideoFec.datagramHeaderSize (videoSeqs s)

def AudioFec.sendDriver (rq : RaptorQ) : SendDriver where
  codecSeqs := BigEndian.encode 4 0
  seqs := audioSeqs
  nextGroup := id
  datagrams s := fecDatagrams rq AudioFec.datagramHeaderSize (audioSeqs s)

end Kymux
