import Kymux.Driver.Send
import Kymux.FecChecked
import Kymux.Lib.Interleave
import Kymux.Partition

namespace Kymux.SourceFirst

open Av BigEndian Driver Interleave
open Fec.Checked (slice)
open Kymux.Checked (each)

def divideByZero : Fault := .panic "attempt to divide by zero"

/-- `raptorq::partition`, with the division that panics. -/
def tryPartition (i j : ℕ) : Except Fault (ℕ × ℕ × ℕ × ℕ) :=
  if j = 0 then .error divideByZero else .ok (partition i j)

def offsets : ℕ → List ℕ → List (ℕ × ℕ)
  | _, [] => []
  | start, size :: sizes => (start, start + size) :: offsets (start + size) sizes

/-- `raptorq::calculate_block_offsets`: the long blocks come first. -/
def calculateBlockOffsets (oti : Oti) : Except Fault (List (ℕ × ℕ)) := do
  let symbolSize := oti.symbolSize.toNat
  let kt ← Fec.Checked.divCeil oti.transferLength.toNat symbolSize
  let (kl, ks, zl, zs) ← tryPartition kt oti.sourceBlocks.toNat
  return offsets 0 (List.replicate zl (kl * symbolSize) ++ List.replicate zs (ks * symbolSize))

/-- `Vec::resize` with zeros. -/
def resize (n : ℕ) (bytes : Bytes) : Bytes := bytes.take n ++ List.replicate (n - bytes.length) 0

/-- The next bytes of the block go to the symbols, `width` to each. -/
def extendSymbols (padded : Bytes) (width : ℕ) : List Bytes → ℕ → Except Fault (List Bytes × ℕ)
  | [], offset => .ok ([], offset)
  | symbol :: symbols, offset => do
    let subsymbol ← slice padded offset (offset + width)
    let (symbols, offset) ← extendSymbols padded width symbols (offset + width)
    return ((symbol ++ subsymbol) :: symbols, offset)

def extendSubBlocks (padded : Bytes) : List ℕ → List Bytes → ℕ → Except Fault (List Bytes × ℕ)
  | [], symbols, offset => .ok (symbols, offset)
  | width :: widths, symbols, offset => do
    let (symbols, offset) ← extendSymbols padded width symbols offset
    extendSubBlocks padded widths symbols offset

/-- `PayloadId::new` takes an id of 24 bits. -/
def newPayloadId (blockId index : ℕ) : Except Fault PayloadId :=
  if index < 16777216 then .ok ⟨UInt8.ofNat blockId, BitVec.ofNat 24 index⟩
  else .error (.panic "assertion failed: encoding_symbol_id < 16777216")

/-- A turn of the loop of `source_packets`. -/
def blockPackets (data : Bytes) (oti : Oti) (blockId start stop : ℕ) :
    Except Fault (List EncodingPacket) := do
  let part ← slice data start (min stop data.length)
  let padded := resize (stop - start) part
  let symbolCount := padded.length / oti.symbolSize.toNat
  let alignment := oti.symbolAlignment.toNat
  if alignment = 0 then .error divideByZero
  else do
    let (large, small, largeCount, smallCount) ←
      tryPartition (oti.symbolSize.toNat / alignment) oti.subBlocks.toNat
    let width (subBlock : ℕ) := (if subBlock < largeCount then large else small) * alignment
    let widths := (List.range (largeCount + smallCount)).map width
    let (symbols, offset) ← extendSubBlocks padded widths (List.replicate symbolCount []) 0
    if offset ≠ padded.length then .error (.panic "assertion failed: offset == padded.len()")
    else each (fun (symbol, index) ↦ (newPayloadId blockId index).map (⟨·, symbol⟩)) symbols.zipIdx

def sourcePackets (data : Bytes) (oti : Oti) : Except Fault (List EncodingPacket) := do
  if data.length ≠ oti.transferLength.toNat then
    .error (.panic "assertion failed: data.len() as u64 == oti.transfer_length()")
  else do
    let _ ← Fec.Checked.divCeil data.length oti.symbolSize.toNat
    let blocks ← calculateBlockOffsets oti
    let packets ← each (fun ((start, stop), blockId) ↦ blockPackets data oti blockId start stop)
      blocks.zipIdx
    return packets.flatten

/-- The code of the `raptorq` crate that only the source-first sender calls. -/
structure Encoders where
  /-- `ObjectTransmissionInformation::with_defaults(transfer_length, max_packet_size)` -/
  withDefaults : ℕ → UInt16 → Oti
  /-- `Encoder::new(data, config).get_block_encoders()[block].repair_packets(0, packets)` -/
  repairPackets : Bytes → Oti → ℕ → ℕ → List EncodingPacket

/-- `send_fec_packet` -/
def fecPacket (env : Env) (seqs : Bytes) (oti : Oti) (packet : EncodingPacket) : Except Fault Op :=
  .ok (.sendDatagram (encode 2 env.endpointId.toNat ++ seqs ++ oti.serialize ++
    packet.payloadId.serialize ++ packet.data))

def sendSourceFirst (E : Encoders) (data : Bytes) (maxPayloadSize : UInt16) (env : Env)
    (seqs : Bytes) : List (Except Fault Op) :=
  let config := E.withDefaults data.length maxPayloadSize
  match sourcePackets data config with
  | .error e => [.error e]
  | .ok sources =>
    let repairs := repairSymbols sources.length
    sources.map (fecPacket env seqs config) ++
      (List.range config.sourceBlocks.toNat).flatMap (fun block ↦
        (E.repairPackets data config block repairs).map (fecPacket env seqs config))

/-- `send_datagrams` where the feature `source-first-fec` is built in. -/
def sourceFirstDatagrams (E : Encoders) (headerSize : ℕ) (seqs : Bytes) (packet : MediaPacket)
    (env : Env) : List (Except Fault Op) :=
  match env.maxDatagramSize with
  | none => [.error (.err ⟨"Datagram not supported"⟩)]
  | some maxDatagramSize =>
    if ¬ headerSize < maxDatagramSize then
      [.error (.panic "max_datagram_size > DATAGRAM_HEADER_SIZE")]
    else if ¬ maxDatagramSize < 0x10000 then [.error (.panic "max_datagram_size < 0x10000")]
    else
      match packet.header.serialize with
      | .error e => [.error e]
      | .ok header =>
        sendSourceFirst E (header ++ packet.payload)
        (UInt16.ofNat (maxDatagramSize - headerSize)) env seqs

end Kymux.SourceFirst
