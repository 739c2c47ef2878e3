import Kymux.Driver.Pending

namespace Kymux.Plain

open Av BigEndian Driver

structure Chunk where
  datagramNumber : ℕ
  isEnd : Bool
  data : Bytes
deriving DecidableEq

structure Parts where
  totalSegments : Option ℕ
  segments : List (Option Bytes)
  segmentsCount : ℕ
  totalSegmentBytes : ℕ
deriving DecidableEq

namespace Parts

def new : Parts := ⟨none, [], 0, 0⟩

def isComplete (s : Parts) : Bool := s.totalSegments = some s.segmentsCount

/-- `Vec::resize` -/
def resize (segments : List (Option Bytes)) (n : ℕ) : List (Option Bytes) :=
  segments ++ List.replicate (n - segments.length) none

def setSegment (s : Parts) (x : Chunk) : Except Fault Parts :=
  let index := x.datagramNumber
  let segments := if index ≥ s.segments.length then resize s.segments (index + 1) else s.segments
  match segments[index]? with
  | none => .error (.panic "index out of bounds")
  | some (some _) => .ok { s with segments }
  | some none =>
    if x.isEnd ∧ s.totalSegments.isSome then .error (.panic "self.total_segments.is_none()")
    else
      .ok {
        totalSegments := if x.isEnd then some (index + 1) else s.totalSegments
        segments := segments.set index (some x.data)
        segmentsCount := s.segmentsCount + 1
        totalSegmentBytes := s.totalSegmentBytes + x.data.length }

def concatSegments : List (Option Bytes) → Except Fault Bytes
  | [] => .ok []
  | none :: _ => .error (.panic "Unexpected None segment")
  | some segment :: rest => do
    let bytes ← concatSegments rest
    return segment ++ bytes

def mergeSegments (segments : List (Option Bytes)) (totalSegmentBytes : ℕ) :
    Except Fault Bytes := do
  let bytes ← concatSegments segments
  assert (bytes.length == totalSegmentBytes) "bytes.len() == total_segment_bytes"
  return bytes

def assemble (s : Parts) : Except Fault (Unit × AVPacket) := do
  assert s.isComplete "self.is_complete()"
  let data ← mergeSegments s.segments s.totalSegmentBytes
  assert (serializedSize ≤ data.length) "range end index out of range for slice"
  let header ← MediaPacketHeader.deserialize (data.take serializedSize)
  return ((), .media ⟨header, data.drop serializedSize⟩)

end Parts

def reassembly : Reassembly Unit Parts Chunk where
  new _ _ _ := .ok Parts.new
  addPacket := Parts.setSegment
  isComplete := Parts.isComplete
  assemble := Parts.assemble
  again _ _ := .ok ()

end Kymux.Plain
