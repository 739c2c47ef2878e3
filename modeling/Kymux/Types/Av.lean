import Kymux.Lib.BigEndian

namespace Kymux

open BigEndian

/-- The text of an error that a driver returns. -/
structure ProtocolError where
  message : String
deriving DecidableEq

/-- How a call ends without a result: with the `Err` it returns, or with a panic. -/
inductive Fault
  | err (e : ProtocolError)
  | panic (message : String)
deriving DecidableEq

theorem bind_ok {α β : Type} {x : Except Fault α} {f : α → Except Fault β} {b : β}
    (h : x >>= f = .ok b) : ∃ a, x = .ok a ∧ f a = .ok b := by
  cases x with
  | error e => cases h
  | ok a => exact ⟨a, rfl, h⟩

/-- An endpoint id in an error: `{endpoint_id:X}`. -/
def hex (endpointId : UInt16) : String :=
  String.ofList ((Nat.toDigits 16 endpointId.toNat).map Char.toUpper)

def assert (c : Bool) (message : String) : Except Fault Unit :=
  if c then .ok () else .error (.panic message)

/-- `AsyncReadExt::read_exact` on a stream that ends after these bytes. -/
def readExact (n : ℕ) (stream : Bytes) : Except Fault (Bytes × Bytes) :=
  if n ≤ stream.length then .ok (stream.take n, stream.drop n)
  else .error (.err ⟨"early eof"⟩)

theorem readExact_append {n : ℕ} {a : Bytes} (h : a.length = n) (b : Bytes) :
    readExact n (a ++ b) = .ok (a, b) := by
  subst h
  rw [readExact, if_pos (by simp), List.take_left, List.drop_left]

namespace Av

def serializedSize : ℕ := 12

structure CodecPacketHeader where
  codec : UInt32
  rotation : UInt8
  frameSize : UInt16
deriving DecidableEq

structure CodecPacket where
  header : CodecPacketHeader
deriving DecidableEq

structure MediaPacketHeader where
  isConfig : Bool
  isKey : Bool
  pts : UInt64
  size : UInt32
deriving DecidableEq

structure MediaPacket where
  header : MediaPacketHeader
  payload : Bytes
deriving DecidableEq

structure HolePacketHeader where
  missingAudioSamples : UInt32
deriving DecidableEq

structure HolePacket where
  header : HolePacketHeader
deriving DecidableEq

inductive AVPacket
  | codec (packet : CodecPacket)
  | media (packet : MediaPacket)
  | hole (packet : HolePacket)
deriving DecidableEq

def AVPacket.isConfig : AVPacket → Bool
  | .media packet => packet.header.isConfig
  | _ => false

def AVPacket.isCodec : AVPacket → Bool
  | .codec _ => true
  | _ => false

def CodecPacketHeader.serialize (h : CodecPacketHeader) : Bytes :=
  encode 4 h.codec.toNat ++ [h.rotation] ++ encode 2 h.frameSize.toNat ++ List.replicate 5 0

def CodecPacketHeader.deserialize (buf : Bytes) : Except Fault CodecPacketHeader := do
  assert (buf.length == serializedSize) "buf.len() == AVPacketHeader::SERIALIZED_SIZE"
  assert (buf.getD 0 0 &&& 0x80 == 0) "buf[0] & 0x80 == 0"
  return {
    codec := UInt32.ofNat (decode (buf.take 4))
    rotation := buf.getD 4 0
    frameSize := UInt16.ofNat (decode ((buf.drop 5).take 2)) }

def mediaFlag : UInt64 := (1 : UInt64) <<< 63

def configFlag : UInt64 := (1 : UInt64) <<< 62

def keyFlag : UInt64 := (1 : UInt64) <<< 61

def MediaPacketHeader.ptsAndFlags (h : MediaPacketHeader) : UInt64 :=
  h.pts ||| mediaFlag ||| (if h.isConfig then configFlag else 0) |||
  (if h.isKey then keyFlag else 0)

def MediaPacketHeader.serialize (h : MediaPacketHeader) : Except Fault Bytes := do
  assert (h.pts &&& ~~~0x1FFFFFFFFFFFFFFF == 0) "self.pts & !0x1F_FF_FF_FF_FF_FF_FF_FF == 0"
  return encode 8 h.ptsAndFlags.toNat ++ encode 4 h.size.toNat

def MediaPacketHeader.deserialize (buf : Bytes) : Except Fault MediaPacketHeader := do
  assert (buf.length == serializedSize) "buf.len() == AVPacketHeader::SERIALIZED_SIZE"
  assert (buf.getD 0 0 &&& 0x80 != 0) "buf[0] & 0x80 != 0"
  let ptsAndFlags := UInt64.ofNat (decode (buf.take 8))
  return {
    isConfig := ptsAndFlags &&& configFlag != 0
    isKey := ptsAndFlags &&& keyFlag != 0
    pts := ptsAndFlags &&& (keyFlag - 1)
    size := UInt32.ofNat (decode (buf.drop 8)) }

def HolePacketHeader.serialize (h : HolePacketHeader) : Bytes :=
  List.replicate 4 0 ++ encode 4 h.missingAudioSamples.toNat ++ List.replicate 4 0

def HolePacketHeader.deserialize (buf : Bytes) : Except Fault HolePacketHeader := do
  assert (buf.length == serializedSize) "buf.len() == AVPacketHeader::SERIALIZED_SIZE"
  assert (buf.take 4 == List.replicate 4 0)
    "buf[0] == 0 && buf[1] == 0 && buf[2] == 0 && buf[3] == 0"
  let missingAudioSamples := UInt32.ofNat (decode ((buf.drop 4).take 4))
  assert (0 < missingAudioSamples) "missing_audio_samples > 0"
  return ⟨missingAudioSamples⟩

inductive AVPacketHeader
  | codec (header : CodecPacketHeader)
  | media (header : MediaPacketHeader)
  | hole (header : HolePacketHeader)

def AVPacketHeader.deserialize (buf : Bytes) : Except Fault AVPacketHeader := do
  assert (buf.length == serializedSize) "buf.len() == AVPacketHeader::SERIALIZED_SIZE"
  if buf.getD 0 0 &&& 0x80 != 0 then return .media (← MediaPacketHeader.deserialize buf)
  else if buf.take 4 == List.replicate 4 0 then return .hole (← HolePacketHeader.deserialize buf)
  else return .codec (← CodecPacketHeader.deserialize buf)

/-- `AVPacket::read`: a stream that ends inside a header counts as ended. -/
def AVPacket.read (reader : Bytes) : Except Fault (Option AVPacket × Bytes) :=
  match readExact serializedSize reader with
  | .error _ => .ok (none, [])
  | .ok (raw, reader) => do
    match ← AVPacketHeader.deserialize raw with
    | .media header =>
      let (payload, reader) ← readExact header.size.toNat reader
      return (some (.media ⟨header, payload⟩), reader)
    | .codec header => return (some (.codec ⟨header⟩), reader)
    | .hole header => return (some (.hole ⟨header⟩), reader)

end Av

end Kymux
