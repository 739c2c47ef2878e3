import Kymux.Lib.BigEndian

namespace Kymux

open BigEndian

structure Oti where
  transferLength : BitVec 40
  symbolSize : UInt16
  sourceBlocks : UInt8
  subBlocks : UInt16
  symbolAlignment : UInt8
deriving DecidableEq

structure PayloadId where
  sourceBlockNumber : UInt8
  encodingSymbolId : BitVec 24
deriving DecidableEq

abbrev SymbolKey := UInt8 × BitVec 24

def PayloadId.key (id : PayloadId) : SymbolKey := (id.sourceBlockNumber, id.encodingSymbolId)

structure EncodingPacket where
  payloadId : PayloadId
  data : Bytes
deriving DecidableEq

/-- The sixth byte is reserved: written as zero, ignored when read. -/
def Oti.serialize (oti : Oti) : Bytes :=
  encode 5 oti.transferLength.toNat ++ [0] ++ encode 2 oti.symbolSize.toNat ++
    [oti.sourceBlocks] ++ encode 2 oti.subBlocks.toNat ++ [oti.symbolAlignment]

def Oti.deserialize (raw : Bytes) : Oti where
  transferLength := BitVec.ofNat 40 (decode (raw.take 5))
  symbolSize := UInt16.ofNat (decode ((raw.drop 6).take 2))
  sourceBlocks := raw.getD 8 0
  subBlocks := UInt16.ofNat (decode ((raw.drop 9).take 2))
  symbolAlignment := raw.getD 11 0

def PayloadId.serialize (id : PayloadId) : Bytes :=
  id.sourceBlockNumber :: encode 3 id.encodingSymbolId.toNat

def PayloadId.deserialize (raw : Bytes) : PayloadId where
  sourceBlockNumber := raw.getD 0 0
  encodingSymbolId := BitVec.ofNat 24 (decode (raw.drop 1))

def divCeil (a b : ℕ) : ℕ := (a + b - 1) / b

/-- `raptorq::partition`: `i` things in `j` parts, as large parts, small parts, and how
many of each. -/
def partition (i j : ℕ) : ℕ × ℕ × ℕ × ℕ :=
  (divCeil i j, i / j, i - i / j * j, j - (i - i / j * j))

/-- The code of the `raptorq` crate that the drivers call. -/
structure RaptorQ where
  Decoder : Type
  newDecoder : Oti → Decoder
  decode : Decoder → EncodingPacket → Decoder × Option Bytes
  /-- `Encoder::with_defaults(data, mtu).get_config()` -/
  config : Bytes → UInt16 → Oti
  /-- `Encoder::with_defaults(data, mtu).get_encoded_packets(repair)` -/
  encodedPackets : Bytes → UInt16 → ℕ → List EncodingPacket

namespace RaptorQ

variable (rq : RaptorQ)

def feed (d : rq.Decoder) (packets : List EncodingPacket) : rq.Decoder :=
  packets.foldl (fun d p ↦ (rq.decode d p).1) d

/-- Symbols of one object decode to nothing or to exactly that object. -/
def Genuine : Prop :=
  ∀ data mtu repair packets p,
    (∀ q ∈ packets ++ [p], q ∈ rq.encodedPackets data mtu repair) →
    ∀ out, (rq.decode (rq.feed (rq.newDecoder (rq.config data mtu)) packets) p).2 = some out →
      out = data

/-- Symbols with these keys are enough for an object: once the decoder was given them, with whatever
other symbols of the object and in whatever order, it yields the object. -/
structure Enough (data : Bytes) (mtu : UInt16) (repair : ℕ) (keys : Set SymbolKey) : Prop where
  nonempty : keys.Nonempty
  yields : ∀ packets p, (∀ q ∈ packets ++ [p], q ∈ rq.encodedPackets data mtu repair) →
    ((packets ++ [p]).map (fun q ↦ q.payloadId.key)).Nodup →
    (∀ key ∈ keys, key ∈ (packets ++ [p]).map (fun q ↦ q.payloadId.key)) →
    (rq.decode (rq.feed (rq.newDecoder (rq.config data mtu)) packets) p).2 = some data

/-- `with_defaults` for an object of one symbol. Symbols are aligned to 8 bytes, below an mtu of 64
to one. -/
def oneSymbolOti (length : ℕ) (mtu : UInt16) : Oti :=
  if mtu < 64 then ⟨BitVec.ofNat 40 length, mtu, 1, 1, 1⟩
  else ⟨BitVec.ofNat 40 length, mtu - mtu % 8, 1, 1, 8⟩

/-- A code for objects of one symbol, which repeats the object, padded to the size of a symbol.
The repair symbols of the real code are other multiples of it. -/
def oneSymbol : RaptorQ where
  Decoder := Oti
  newDecoder := id
  decode oti p := (oti, some (p.data.take oti.transferLength.toNat))
  config data mtu := oneSymbolOti data.length mtu
  encodedPackets data mtu repair :=
    let symbolSize := (oneSymbolOti data.length mtu).symbolSize.toNat
    if data.length ≤ symbolSize then
      (List.range (1 + repair)).map (fun i ↦
        ⟨⟨0, BitVec.ofNat 24 i⟩, data ++ List.replicate (symbolSize - data.length) 0⟩)
    else []

theorem transferLength_oneSymbolOti (length : ℕ) (mtu : UInt16) :
    (oneSymbolOti length mtu).transferLength = BitVec.ofNat 40 length := by
  unfold oneSymbolOti
  split_ifs <;> rfl

variable {rq}

theorem feed_snoc (d : rq.Decoder) (packets : List EncodingPacket) (p : EncodingPacket) :
    rq.feed d (packets ++ [p]) = (rq.decode (rq.feed d packets) p).1 := by
  simp [feed]

end RaptorQ

theorem Oti.length_serialize (oti : Oti) : oti.serialize.length = 12 := by
  simp [serialize]

theorem Oti.reserved_serialize (oti : Oti) : oti.serialize.getD 5 0 = 0 := rfl

theorem Oti.deserialize_serialize (oti : Oti) : deserialize oti.serialize = oti := by
  have h₁ : BitVec.ofNat 40 (BigEndian.decode (oti.serialize.take 5)) = oti.transferLength := by
    have ht : oti.serialize.take 5 = encode 5 oti.transferLength.toNat := rfl
    rw [ht, decode_encode_of_lt (by have := oti.transferLength.isLt; omega), BitVec.ofNat_toNat,
      BitVec.setWidth_eq]
  have h₂ : UInt16.ofNat (BigEndian.decode ((oti.serialize.drop 6).take 2)) = oti.symbolSize := by
    have ht : (oti.serialize.drop 6).take 2 = encode 2 oti.symbolSize.toNat := rfl
    rw [ht, decode_encode_of_lt (by have := oti.symbolSize.toNat_lt; omega), UInt16.ofNat_toNat]
  have h₃ : UInt16.ofNat (BigEndian.decode ((oti.serialize.drop 9).take 2)) = oti.subBlocks := by
    have ht : (oti.serialize.drop 9).take 2 = encode 2 oti.subBlocks.toNat := rfl
    rw [ht, decode_encode_of_lt (by have := oti.subBlocks.toNat_lt; omega), UInt16.ofNat_toNat]
  have h₄ : oti.serialize.getD 8 0 = oti.sourceBlocks := rfl
  have h₅ : oti.serialize.getD 11 0 = oti.symbolAlignment := rfl
  unfold deserialize
  rw [h₁, h₂, h₃, h₄, h₅]

theorem PayloadId.length_serialize (id : PayloadId) : id.serialize.length = 4 := by
  simp [serialize]

theorem PayloadId.deserialize_serialize (id : PayloadId) : deserialize id.serialize = id := by
  have h₁ : BitVec.ofNat 24 (BigEndian.decode (id.serialize.drop 1)) = id.encodingSymbolId := by
    have ht : id.serialize.drop 1 = encode 3 id.encodingSymbolId.toNat := rfl
    rw [ht, decode_encode_of_lt (by have := id.encodingSymbolId.isLt; omega), BitVec.ofNat_toNat,
      BitVec.setWidth_eq]
  have h₂ : id.serialize.getD 0 0 = id.sourceBlockNumber := rfl
  unfold deserialize
  rw [h₁, h₂]

end Kymux
