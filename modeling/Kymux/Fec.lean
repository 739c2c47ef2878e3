import Kymux.RaptorQ
import Kymux.Types.AvFormat

namespace Kymux.Fec

open Av BigEndian

def maxVideoPayload : ℕ := 64 * 1024 * 1024 + 16

def maxAudioPayload : ℕ := 64 * 1024

def maxPendingObjects : ℕ := 128

def maxPendingGroups : ℕ := 32

def maxSourceSymbols : ℕ := 131072

def maxBlockSymbols : ℕ := 56403

def mediaHeader : ℕ := serializedSize

def maxConfigPayload : ℕ := 1024 * 1024

def invalid (reason : String) : Fault := .err ⟨s!"Invalid FEC media: {reason}"⟩

def validateOti (oti : Oti) (maxPayload : ℕ) : Except Fault Unit :=
  let length := oti.transferLength.toNat
  let symbol := oti.symbolSize.toNat
  let blocks := oti.sourceBlocks.toNat
  let alignment := oti.symbolAlignment.toNat
  let subBlocks := oti.subBlocks.toNat
  if ¬ (mediaHeader ≤ length ∧ length ≤ maxPayload + mediaHeader) then
    .error (invalid "object length outside media limit")
  else if symbol = 0 ∨ blocks = 0 ∨ alignment = 0 ∨ subBlocks = 0 then
    .error (invalid "zero RaptorQ partition parameter")
  else if symbol % alignment ≠ 0 ∨ subBlocks > symbol / alignment then
    .error (invalid "invalid symbol alignment or sub-block partition")
  else
    let symbols := divCeil length symbol
    if symbols > maxSourceSymbols ∨ blocks > symbols ∨ divCeil symbols blocks > maxBlockSymbols then
      .error (invalid "source-symbol partition exceeds decoder bounds")
    else .ok ()

def sourceSymbols (oti : Oti) : ℕ := divCeil oti.transferLength.toNat oti.symbolSize.toNat

def sourceSymbolsForBlock (oti : Oti) (block : UInt8) : ℕ :=
  let symbols := sourceSymbols oti % 2 ^ 32
  let (large, small, largeBlocks, _) := partition symbols oti.sourceBlocks.toNat
  if block.toNat < largeBlocks then large else small

def validateSymbol (oti : Oti) (id : PayloadId) (size : ℕ) : Except Fault Unit :=
  if id.sourceBlockNumber.toNat ≥ oti.sourceBlocks.toNat then
    .error (invalid "source block outside object")
  else if size ≠ oti.symbolSize.toNat then
    .error (invalid "symbol length does not match OTI")
  else .ok ()

def parseDatagram (datagram : Bytes) (headerSize maxPayload : ℕ) :
    Except Fault (Bytes × Oti × PayloadId) := do
  if datagram.length < headerSize then
    throw (invalid "truncated datagram header")
  let offset := headerSize - 16
  let rawOti := (datagram.drop offset).take 12
  if rawOti.getD 5 0 ≠ 0 then
    throw (invalid "nonzero reserved OTI field")
  let oti := Oti.deserialize rawOti
  validateOti oti maxPayload
  let id := PayloadId.deserialize ((datagram.drop (offset + 12)).take 4)
  validateSymbol oti id (datagram.length - headerSize)
  return (datagram.drop headerSize, oti, id)

def reservation (oti : Oti) : ℕ :=
  let symbols := sourceSymbols oti
  3 * symbols * oti.symbolSize.toNat + 128 * symbols + 4096 * oti.sourceBlocks.toNat

def pendingLimit (maxPayload : ℕ) : ℕ :=
  if maxPayload = maxVideoPayload then 256 * 1024 * 1024 else 8 * 1024 * 1024

def budgetExceeded (objects bytes additional limit : ℕ) : Fault :=
  invalid (s!"pending receive budget exceeded (objects {objects}/{maxPendingObjects}, " ++
    s!"bytes {bytes}+{additional}/{limit})")

def checkPending (objects bytes additional maxPayload : ℕ) : Except Fault Unit :=
  let limit := pendingLimit maxPayload
  if objects ≥ maxPendingObjects ∨ additional > limit ∨ bytes > limit - additional then
    .error (budgetExceeded objects bytes additional limit)
  else .ok ()

def isSource (oti : Oti) (key : SymbolKey) : Prop :=
  key.2.toNat < sourceSymbolsForBlock oti key.1

instance (oti : Oti) : DecidablePred (isSource oti) := fun _ ↦ Nat.decLt _ _

def sourcesAmong (oti : Oti) (received : Finset SymbolKey) : ℕ :=
  (received.filter (isSource oti)).card

theorem sourcesAmong_insert {oti : Oti} {received : Finset SymbolKey} {key : SymbolKey}
    (h : key ∉ received) :
    sourcesAmong oti (insert key received) =
      sourcesAmong oti received + (if isSource oti key then 1 else 0) := by
  unfold sourcesAmong
  rw [Finset.filter_insert]
  split_ifs
  · rw [Finset.card_insert_of_notMem (by simp [h])]
  · rfl

def blockCount (block : UInt8) (received : Finset SymbolKey) : ℕ :=
  (received.filter (fun key ↦ key.1 = block)).card

theorem tallied_insert {received : Finset SymbolKey} {perBlock : List ℕ} {key : SymbolKey}
    {count : ℕ} (hk : key ∉ received) (hcount : perBlock[key.1.toNat]? = some count)
    (h : ∀ b c, perBlock[UInt8.toNat b]? = some c → c = blockCount b received)
    (b : UInt8) (c : ℕ) (hb : (perBlock.set key.1.toNat (count + 1))[b.toNat]? = some c) :
    c = blockCount b (insert key received) := by
  unfold blockCount
  rw [Finset.filter_insert]
  by_cases hkb : key.1 = b
  · subst hkb
    rw [if_pos rfl, Finset.card_insert_of_notMem (by simp [hk])]
    have hlt : key.1.toNat < perBlock.length := (List.getElem?_eq_some_iff.mp hcount).1
    rw [List.getElem?_set_self hlt] at hb
    have := h _ _ hcount
    simp only [Option.some.injEq] at hb
    rw [← hb, this, blockCount]
  · rw [if_neg hkb]
    have hne : key.1.toNat ≠ b.toNat := fun he ↦ hkb (UInt8.toNat_inj.mp he)
    rw [List.getElem?_set_ne hne] at hb
    exact h b c hb

/-- The decoder of one object. It has a counter of distinct symbols for every source
block, and counts the source symbols it has received. -/
structure ObjectDecoder (rq : RaptorQ) where
  oti : Oti
  decoder : rq.Decoder
  received : Finset SymbolKey
  perBlock : List ℕ
  receivedSources : ℕ
  blocks : perBlock.length = oti.sourceBlocks.toNat
  counted : receivedSources = sourcesAmong oti received
  tallied : ∀ b c, perBlock[UInt8.toNat b]? = some c → c = blockCount b received

namespace ObjectDecoder

variable {rq : RaptorQ}

def new (oti : Oti) (maxPayload : ℕ) : Except Fault (ObjectDecoder rq) := do
  validateOti oti maxPayload
  return {
    oti
    decoder := rq.newDecoder oti
    received := ∅
    perBlock := List.replicate oti.sourceBlocks.toNat 0
    receivedSources := 0
    blocks := List.length_replicate
    counted := rfl
    tallied := fun _ _ h ↦ (List.eq_of_mem_replicate (List.mem_of_getElem? h)).trans rfl }

/-- A call that fails leaves the decoder as it was. -/
def decode (d : ObjectDecoder rq) (oti : Oti) (id : PayloadId) (data : Bytes) :
    Except Fault (Option Bytes × ObjectDecoder rq) :=
  if oti ≠ d.oti then .error (invalid "OTI changed within one object")
  else
    match validateSymbol oti id data.length with
    | .error e => .error e
    | .ok () =>
      if hk : id.key ∈ d.received then .ok (none, d)
      else
        let sources := sourceSymbolsForBlock d.oti id.sourceBlockNumber
        match hc : d.perBlock[id.sourceBlockNumber.toNat]? with
        | none => .error (.panic "index out of bounds")
        | some count =>
          if count ≥ 2 * sources + 32 then
            .error (invalid "too many distinct symbols for one source block")
          else
            let (decoder, out) := rq.decode d.decoder ⟨id, data⟩
            .ok (out, {
              oti := d.oti
              decoder
              received := insert id.key d.received
              perBlock := d.perBlock.set id.sourceBlockNumber.toNat (count + 1)
              receivedSources := d.receivedSources + (if isSource d.oti id.key then 1 else 0)
              blocks := by rw [List.length_set, d.blocks]
              counted := by rw [sourcesAmong_insert hk, d.counted]
              tallied := tallied_insert hk hc d.tallied })

variable {d d' : ObjectDecoder rq} {oti : Oti} {id : PayloadId} {data : Bytes}
  {out : Option Bytes}

/-- A decoder is only made for parameters that pass the checks, and has received nothing. -/
theorem new_ok {maxPayload : ℕ} (h : new oti maxPayload = .ok d) :
    validateOti oti maxPayload = .ok () ∧ d.oti = oti ∧ d.received = ∅ ∧
    d.decoder = rq.newDecoder oti := by
  obtain ⟨_, hv, hd⟩ := bind_ok h
  cases hd
  exact ⟨hv, rfl, rfl, rfl⟩

/-- What a call that succeeds does: nothing for a symbol already received, and otherwise
one step of the decoder with it. -/
theorem decode_ok (h : d.decode oti id data = .ok (out, d')) :
    oti = d.oti ∧ d'.oti = d.oti ∧
      (id.key ∈ d.received ∧ out = none ∧ d' = d ∨
        id.key ∉ d.received ∧
          d'.received = insert id.key d.received ∧
          rq.decode d.decoder ⟨id, data⟩ = (d'.decoder, out)) := by
  unfold decode at h
  split at h
  · cases h
  · next hoti =>
    rw [not_not] at hoti
    refine ⟨hoti, ?_⟩
    split at h
    · cases h
    · split at h
      · next hk => cases h; exact ⟨rfl, .inl ⟨hk, rfl, rfl⟩⟩
      · next hk =>
        dsimp only at h
        split at h
        · cases h
        · split at h
          · cases h
          · cases h; exact ⟨rfl, .inr ⟨hk, rfl, rfl⟩⟩

end ObjectDecoder

theorem validateSymbol_ok_iff {oti : Oti} {id : PayloadId} {size : ℕ} :
    validateSymbol oti id size = .ok () ↔
      id.sourceBlockNumber.toNat < oti.sourceBlocks.toNat ∧ size = oti.symbolSize.toNat := by
  unfold validateSymbol
  split_ifs <;> simp <;> omega

theorem checkPending_ok_iff {objects bytes additional maxPayload : ℕ} :
    checkPending objects bytes additional maxPayload = .ok () ↔
      objects < maxPendingObjects ∧ bytes + additional ≤ pendingLimit maxPayload := by
  simp only [checkPending]
  split_ifs <;> simp <;> omega

structure Symbol where
  oti : Oti
  payloadId : PayloadId
  data : Bytes

def mediaPacket (data : Bytes) : Except Fault AVPacket := do
  if data.length < mediaHeader ∨ data.getD 0 0 &&& 0x80 = 0 then
    throw (invalid "reconstructed object is not a complete media packet")
  let header ← MediaPacketHeader.deserialize (data.take mediaHeader)
  if header.isConfig ∨ header.size.toNat ≠ data.length - mediaHeader then
    throw (invalid "reconstructed media type or length mismatch")
  return .media ⟨header, data.drop mediaHeader⟩

/-- The object of a media packet is read back, when the header tells its length. -/
theorem mediaPacket_serialized {packet : MediaPacket} {header : Bytes}
    (hs : packet.header.serialize = .ok header) (hconfig : packet.header.isConfig = false) :
    mediaPacket (header ++ packet.payload) =
      if packet.header.size.toNat = packet.payload.length then .ok (.media packet)
      else .error (invalid "reconstructed media type or length mismatch") := by
  have hlen : header.length = mediaHeader := MediaPacketHeader.length_of_serialize hs
  have hbit := MediaPacketHeader.high_bit_of_serialize hs packet.payload
  rw [bne_iff_ne] at hbit
  simp only [mediaPacket, List.length_append, hlen, hbit, List.take_left' hlen,
    List.drop_left' hlen, MediaPacketHeader.deserialize_serialize hs, hconfig, bind, Except.bind,
    pure, Except.pure, throw, throwThe, MonadExceptOf.throw, Nat.add_sub_cancel_left,
    Nat.not_lt.mpr (Nat.le_add_right _ _), Bool.false_eq_true, false_or, if_false]
  by_cases hsize : packet.header.size.toNat = packet.payload.length
  · rw [if_neg (not_not.mpr hsize), if_pos hsize]
  · rw [if_pos hsize, if_neg hsize]

def readStreamPacket (stream : Bytes) (maxPayload : ℕ) : Except Fault (AVPacket × Bytes) := do
  let (raw, stream) ← readExact mediaHeader stream
  if raw.getD 0 0 &&& 0x80 = 0 then
    if raw.take 4 = List.replicate 4 0 then
      throw (invalid "unexpected hole record from sender")
    let header ← CodecPacketHeader.deserialize raw
    return (.codec ⟨header⟩, stream)
  let header ← MediaPacketHeader.deserialize raw
  if ¬ header.isConfig ∨ header.size.toNat > min maxPayload maxConfigPayload then
    throw (invalid "invalid reliable config type or length")
  let (payload, stream) ← readExact header.size.toNat stream
  return (.media ⟨header, payload⟩, stream)

end Kymux.Fec
