import Kymux.Fec
import Kymux.Lib.Checked

namespace Kymux.Fec.Checked

open Av BigEndian

/-- The bits of a `usize` on the smallest target. -/
def usizeBits : ℕ := 32

def add (w a b : ℕ) : Except Fault ℕ :=
  Kymux.Checked.fits w (.panic "attempt to add with overflow") (a + b)

def mul (w a b : ℕ) : Except Fault ℕ :=
  Kymux.Checked.fits w (.panic "attempt to multiply with overflow") (a * b)

def sub (a b : ℕ) : Except Fault ℕ :=
  Kymux.Checked.sub (.panic "attempt to subtract with overflow") a b

def sum (xs : List ℕ) : Except Fault ℕ :=
  Kymux.Checked.sum usizeBits (.panic "attempt to add with overflow") 0 xs

def slice (bytes : Bytes) (i j : ℕ) : Except Fault Bytes :=
  Kymux.Checked.slice (.panic "range end index out of range for slice") bytes i j

def index (bytes : Bytes) (i : ℕ) : Except Fault UInt8 :=
  match bytes[i]? with
  | none => .error (.panic "index out of bounds")
  | some byte => .ok byte

def div (a b : ℕ) : Except Fault ℕ :=
  if b = 0 then .error (.panic "attempt to divide by zero") else .ok (a / b)

def rem (a b : ℕ) : Except Fault ℕ :=
  if b = 0 then .error (.panic "attempt to calculate the remainder with a divisor of zero")
  else .ok (a % b)

def divCeil (a b : ℕ) : Except Fault ℕ :=
  if b = 0 then .error (.panic "attempt to divide by zero") else .ok (Kymux.divCeil a b)

def validateOti (oti : Oti) (maxPayload : ℕ) : Except Fault Unit := do
  let length := oti.transferLength.toNat
  let symbol := oti.symbolSize.toNat
  let blocks := oti.sourceBlocks.toNat
  let alignment := oti.symbolAlignment.toNat
  let subBlocks := oti.subBlocks.toNat
  let longest ← add usizeBits maxPayload mediaHeader
  if ¬ (mediaHeader ≤ length ∧ length ≤ longest) then
    .error (invalid "object length outside media limit")
  else if symbol = 0 ∨ blocks = 0 ∨ alignment = 0 ∨ subBlocks = 0 then
    .error (invalid "zero RaptorQ partition parameter")
  else do
    let rest ← rem symbol alignment
    let units ← div symbol alignment
    if rest ≠ 0 ∨ subBlocks > units then
      .error (invalid "invalid symbol alignment or sub-block partition")
    else do
      let symbols ← divCeil length symbol
      let perBlock ← divCeil symbols blocks
      if symbols > maxSourceSymbols ∨ blocks > symbols ∨ perBlock > maxBlockSymbols then
        .error (invalid "source-symbol partition exceeds decoder bounds")
      else .ok ()

def sourceSymbolsForBlock (oti : Oti) (block : UInt8) : Except Fault ℕ := do
  let symbols ← divCeil oti.transferLength.toNat oti.symbolSize.toNat
  if oti.sourceBlocks.toNat = 0 then .error (.panic "attempt to divide by zero")
  else
    let (large, small, largeBlocks, _) := partition (symbols % 2 ^ 32) oti.sourceBlocks.toNat
    return if block.toNat < largeBlocks then large else small

def parseDatagram (datagram : Bytes) (headerSize maxPayload : ℕ) :
    Except Fault (Bytes × Oti × PayloadId) :=
  if datagram.length < headerSize then .error (invalid "truncated datagram header")
  else do
    let offset ← sub headerSize 16
    let rawOti ← slice datagram offset (offset + 12)
    let reserved ← index rawOti 5
    if reserved ≠ 0 then .error (invalid "nonzero reserved OTI field")
    else do
      let oti := Oti.deserialize rawOti
      validateOti oti maxPayload
      let rawId ← slice datagram (offset + 12) headerSize
      let id := PayloadId.deserialize rawId
      let size ← sub datagram.length headerSize
      validateSymbol oti id size
      let data ← slice datagram headerSize datagram.length
      return (data, oti, id)

def reservation (oti : Oti) : Except Fault ℕ := do
  let symbols ← divCeil oti.transferLength.toNat oti.symbolSize.toNat
  let symbols := symbols % 2 ^ usizeBits
  let copies ← mul usizeBits 3 symbols
  let buffers ← mul usizeBits copies oti.symbolSize.toNat
  let perSymbol ← mul usizeBits 128 symbols
  let perBlock ← mul usizeBits 4096 oti.sourceBlocks.toNat
  let total ← add usizeBits buffers perSymbol
  add usizeBits total perBlock

def checkPending (objects bytes additional maxPayload : ℕ) : Except Fault Unit :=
  let limit := pendingLimit maxPayload
  let exceeded := budgetExceeded objects bytes additional limit
  if objects ≥ maxPendingObjects ∨ additional > limit then .error exceeded
  else do
    let left ← sub limit additional
    if bytes > left then .error exceeded else .ok ()

/-- The decoder of `raptorq` is only known not to panic on parameters and symbols that
pass the checks. -/
def withinDomain (oti : Oti) (maxPayload : ℕ) (id : PayloadId) (size : ℕ) : Except Fault Unit :=
  match Fec.validateOti oti maxPayload, validateSymbol oti id size with
  | .ok (), .ok () => .ok ()
  | _, _ => .error (.panic "raptorq")

section Decoder

variable {rq : RaptorQ}

def newDecoder (oti : Oti) (maxPayload : ℕ) : Except Fault (ObjectDecoder rq) := do
  validateOti oti maxPayload
  ObjectDecoder.new oti maxPayload

/-- The checks of `decode` in their order, and then its update. -/
def decode (d : ObjectDecoder rq) (maxPayload : ℕ) (oti : Oti) (id : PayloadId) (data : Bytes) :
    Except Fault (Option Bytes × ObjectDecoder rq) :=
  if oti ≠ d.oti then .error (invalid "OTI changed within one object")
  else
    match validateSymbol oti id data.length with
    | .error e => .error e
    | .ok () =>
      if id.key ∈ d.received then .ok (none, d)
      else do
        let sources ← sourceSymbolsForBlock oti id.sourceBlockNumber
        match d.perBlock[id.sourceBlockNumber.toNat]? with
        | none => .error (.panic "index out of bounds")
        | some count =>
          let most ← mul 32 2 sources
          let most ← add 32 most 32
          if count ≥ most then .error (invalid "too many distinct symbols for one source block")
          else do
            let _ ← add 32 count 1
            let _ ← add 64 d.receivedSources 1
            withinDomain d.oti maxPayload id data.length
            d.decode oti id data

end Decoder

def mediaPacket (data : Bytes) : Except Fault AVPacket :=
  if data.length < mediaHeader then
    .error (invalid "reconstructed object is not a complete media packet")
  else do
    let first ← index data 0
    if first &&& 0x80 = 0 then
      .error (invalid "reconstructed object is not a complete media packet")
    else do
      let raw ← slice data 0 mediaHeader
      let header ← MediaPacketHeader.deserialize raw
      let size ← sub data.length mediaHeader
      if header.isConfig ∨ header.size.toNat ≠ size then
        .error (invalid "reconstructed media type or length mismatch")
      else do
        let payload ← slice data mediaHeader data.length
        return .media ⟨header, payload⟩

section Accepted

variable {oti : Oti} {maxPayload : ℕ}

structure Accepted (oti : Oti) (maxPayload : ℕ) : Prop where
  length : oti.transferLength.toNat ≤ maxPayload + mediaHeader
  symbol : 0 < oti.symbolSize.toNat
  blocks : 0 < oti.sourceBlocks.toNat
  symbols : sourceSymbols oti ≤ maxSourceSymbols
  perBlock : Kymux.divCeil (sourceSymbols oti) oti.sourceBlocks.toNat ≤ maxBlockSymbols

theorem accepted_of_ok (h : Fec.validateOti oti maxPayload = .ok ()) : Accepted oti maxPayload := by
  simp only [Fec.validateOti] at h
  split_ifs at h with hlength hzero halign hsymbols
  rw [not_or, not_or, not_lt, not_lt, not_lt] at hsymbols
  refine ⟨hlength.2, ?_, ?_, hsymbols.1, hsymbols.2.2⟩ <;> omega

theorem validateOti_eq (h : maxPayload + mediaHeader < 2 ^ usizeBits) :
    validateOti oti maxPayload = Fec.validateOti oti maxPayload := by
  simp only [validateOti, Fec.validateOti, add, Kymux.Checked.fits_ok h, bind, Except.bind]
  congr 1
  by_cases hzero : oti.symbolSize.toNat = 0 ∨ oti.sourceBlocks.toNat = 0 ∨
      oti.symbolAlignment.toNat = 0 ∨ oti.subBlocks.toNat = 0
  · rw [if_pos hzero, if_pos hzero]
  · have hs : oti.symbolSize.toNat ≠ 0 := by omega
    have hb : oti.sourceBlocks.toNat ≠ 0 := by omega
    have ha : oti.symbolAlignment.toNat ≠ 0 := by omega
    rw [if_neg hzero, if_neg hzero]
    simp only [rem, div, divCeil, if_neg hs, if_neg hb, if_neg ha]

theorem divCeil_mul_le (a : ℕ) {b : ℕ} (hb : 0 < b) : Kymux.divCeil a b * b ≤ a + b := by
  unfold Kymux.divCeil
  have := Nat.div_mul_le_self (a + b - 1) b
  omega

theorem sourceSymbolsForBlock_eq (h : Accepted oti maxPayload) (block : UInt8) :
    sourceSymbolsForBlock oti block = .ok (Fec.sourceSymbolsForBlock oti block) := by
  simp only [sourceSymbolsForBlock, divCeil, if_neg h.symbol.ne', if_neg h.blocks.ne', bind,
    Except.bind, pure, Except.pure, Fec.sourceSymbolsForBlock, sourceSymbols]
  rfl

theorem sourceSymbolsForBlock_le (h : Accepted oti maxPayload) (block : UInt8) :
    Fec.sourceSymbolsForBlock oti block ≤ maxBlockSymbols := by
  have hfit : sourceSymbols oti < 2 ^ 32 := lt_of_le_of_lt h.symbols (by decide)
  have hsmall : sourceSymbols oti / oti.sourceBlocks.toNat ≤
      Kymux.divCeil (sourceSymbols oti) oti.sourceBlocks.toNat :=
    Nat.div_le_div_right (by have := h.blocks; omega)
  simp only [Fec.sourceSymbolsForBlock, partition, Nat.mod_eq_of_lt hfit]
  split_ifs
  · exact h.perBlock
  · exact hsmall.trans h.perBlock

theorem reservation_eq (h : Accepted oti maxPayload) (hmax : maxPayload ≤ maxVideoPayload) :
    reservation oti = .ok (Fec.reservation oti) := by
  have hsymbols := h.symbols
  have hlength := h.length
  have hbuffers := divCeil_mul_le oti.transferLength.toNat h.symbol
  have hsize := oti.symbolSize.toNat_lt
  have hblocks := oti.sourceBlocks.toNat_lt
  rw [← sourceSymbols] at hbuffers
  have hproduct : 3 * sourceSymbols oti * oti.symbolSize.toNat =
      3 * (sourceSymbols oti * oti.symbolSize.toNat) := Nat.mul_assoc _ _ _
  simp only [maxSourceSymbols, maxVideoPayload, mediaHeader, serializedSize]
    at hsymbols hlength hmax
  have hfit : sourceSymbols oti % 2 ^ usizeBits = sourceSymbols oti :=
    Nat.mod_eq_of_lt (by simp only [usizeBits]; omega)
  simp only [reservation, divCeil, if_neg h.symbol.ne', bind, Except.bind]
  rw [← sourceSymbols, hfit]
  simp only [mul, add]
  rw [Kymux.Checked.fits_ok (by simp only [usizeBits]; omega)]
  dsimp only
  rw [Kymux.Checked.fits_ok (by rw [hproduct]; simp only [usizeBits]; omega)]
  dsimp only
  rw [Kymux.Checked.fits_ok (by simp only [usizeBits]; omega)]
  dsimp only
  rw [Kymux.Checked.fits_ok (by simp only [usizeBits]; omega)]
  dsimp only
  rw [Kymux.Checked.fits_ok (by rw [hproduct]; simp only [usizeBits]; omega)]
  dsimp only
  rw [Kymux.Checked.fits_ok (by rw [hproduct]; simp only [usizeBits]; omega)]
  rfl

end Accepted

theorem checkPending_eq (objects bytes additional maxPayload : ℕ) :
    checkPending objects bytes additional maxPayload =
      Fec.checkPending objects bytes additional maxPayload := by
  simp only [checkPending, Fec.checkPending]
  by_cases hfirst : objects ≥ maxPendingObjects ∨ additional > pendingLimit maxPayload
  · rw [if_pos hfirst, if_pos (by tauto)]
  · rw [if_neg hfirst, sub, Kymux.Checked.sub_ok (by omega)]
    simp only [bind, Except.bind]
    by_cases hbytes : bytes > pendingLimit maxPayload - additional
    · rw [if_pos hbytes, if_pos (by tauto)]
    · rw [if_neg hbytes, if_neg (by tauto)]

section Decoder

variable {rq : RaptorQ} {d : ObjectDecoder rq} {oti : Oti} {id : PayloadId} {data : Bytes}
  {maxPayload : ℕ}

theorem newDecoder_eq (h : maxPayload + mediaHeader < 2 ^ usizeBits) :
    newDecoder oti maxPayload =
      (ObjectDecoder.new oti maxPayload : Except Fault (ObjectDecoder rq)) := by
  rw [newDecoder, validateOti_eq h, ObjectDecoder.new]
  cases Fec.validateOti oti maxPayload <;> rfl

theorem card_le_of_lt {A B : ℕ} (keys : Finset SymbolKey)
    (h : ∀ key ∈ keys, key.1.toNat < A ∧ key.2.toNat < B) : keys.card ≤ A * B := by
  have hmaps : ∀ key ∈ keys, (key.1.toNat, key.2.toNat) ∈ Finset.range A ×ˢ Finset.range B := by
    intro key hkey
    simpa using h key hkey
  have hinj : Set.InjOn (fun key : SymbolKey ↦ (key.1.toNat, key.2.toNat)) keys := by
    rintro ⟨b, i⟩ _ ⟨b', i'⟩ _ he
    obtain ⟨hb, hi⟩ := Prod.mk.inj he
    exact Prod.ext (UInt8.toNat_inj.mp hb) (BitVec.eq_of_toNat_eq hi)
  have hcard := Finset.card_le_card_of_injOn _ hmaps hinj
  rwa [Finset.card_product, Finset.card_range, Finset.card_range] at hcard

theorem card_received_le (received : Finset SymbolKey) : received.card ≤ 2 ^ 8 * 2 ^ 24 :=
  card_le_of_lt received (fun key _ ↦ ⟨key.1.toNat_lt, key.2.isLt⟩)

theorem perBlock_get (d : ObjectDecoder rq)
    (hid : id.sourceBlockNumber.toNat < d.oti.sourceBlocks.toNat) :
    ∃ count, d.perBlock[id.sourceBlockNumber.toNat]? = some count :=
  ⟨_, List.getElem?_eq_getElem (by rw [d.blocks]; exact hid)⟩

theorem decode_eq (h : Fec.validateOti d.oti maxPayload = .ok ()) :
    decode d maxPayload oti id data = d.decode oti id data := by
  unfold decode
  by_cases hoti : oti ≠ d.oti
  · rw [if_pos hoti, ObjectDecoder.decode, if_pos hoti]
  rw [if_neg hoti]
  rw [not_not] at hoti
  subst hoti
  cases hv : validateSymbol d.oti id data.length with
  | error e => simp [ObjectDecoder.decode, hv]
  | ok _ =>
    dsimp only
    by_cases hk : id.key ∈ d.received
    · simp [ObjectDecoder.decode, hv, hk]
    · have ha := accepted_of_ok h
      obtain ⟨count, hcount⟩ := perBlock_get d (validateSymbol_ok_iff.mp hv).1
      have hsources := sourceSymbolsForBlock_le ha id.sourceBlockNumber
      have hreceived := (Finset.card_filter_le d.received (isSource d.oti)).trans
        (card_received_le d.received)
      rw [← sourcesAmong, ← d.counted] at hreceived
      simp only [maxBlockSymbols] at hsources
      rw [if_neg hk, sourceSymbolsForBlock_eq ha, hcount]
      simp only [bind, Except.bind, mul, add]
      rw [Kymux.Checked.fits_ok (by omega)]
      dsimp only
      rw [Kymux.Checked.fits_ok (by omega)]
      dsimp only
      by_cases hmost : count ≥ 2 * Fec.sourceSymbolsForBlock d.oti id.sourceBlockNumber + 32
      · rw [if_pos hmost]
        unfold ObjectDecoder.decode
        simp only [ne_eq, not_true_eq_false, if_false, hv, hk, dite_false]
        split
        · next hnone => rw [hcount] at hnone; cases hnone
        · next c hsome =>
          rw [hcount, Option.some.injEq] at hsome
          subst hsome
          rw [if_pos hmost]
      · rw [if_neg hmost, Kymux.Checked.fits_ok (by omega)]
        dsimp only
        rw [Kymux.Checked.fits_ok (by omega)]
        simp [withinDomain, h, hv]

end Decoder

theorem mediaPacket_eq (data : Bytes) : mediaPacket data = Fec.mediaPacket data := by
  unfold mediaPacket Fec.mediaPacket
  by_cases hlen : data.length < mediaHeader
  · rw [if_pos hlen, if_pos (.inl hlen)]
    rfl
  · have hpos : 0 < data.length := by
      simp only [mediaHeader, serializedSize] at hlen
      omega
    have hfirst : index data 0 = .ok (data.getD 0 0) := by
      rw [index, List.getElem?_eq_getElem hpos, List.getD_eq_getElem _ _ hpos]
    have hraw : slice data 0 mediaHeader = .ok (data.take mediaHeader) := by
      rw [slice, Kymux.Checked.slice_ok (Nat.zero_le _) (not_lt.mp hlen)]
      simp
    have hpayload : slice data mediaHeader data.length = .ok (data.drop mediaHeader) := by
      rw [slice, Kymux.Checked.slice_ok (not_lt.mp hlen) le_rfl, ← List.length_drop,
        List.take_length]
    rw [if_neg hlen, hfirst, hraw, hpayload, sub, Kymux.Checked.sub_ok (not_lt.mp hlen)]
    simp only [bind, Except.bind, hlen, false_or]
    split_ifs with hbit
    · rfl
    · rfl

theorem parseDatagram_eq (datagram : Bytes) {headerSize maxPayload : ℕ} (hsize : 16 ≤ headerSize)
    (hmax : maxPayload + mediaHeader < 2 ^ usizeBits) :
    parseDatagram datagram headerSize maxPayload =
      Fec.parseDatagram datagram headerSize maxPayload := by
  unfold parseDatagram Fec.parseDatagram
  by_cases hlen : datagram.length < headerSize
  · rw [if_pos hlen, if_pos hlen]
    rfl
  rw [not_lt] at hlen
  have hraw : slice datagram (headerSize - 16) (headerSize - 16 + 12) =
      .ok ((datagram.drop (headerSize - 16)).take 12) := by
    rw [slice, Kymux.Checked.slice_ok (by omega) (by omega), Nat.add_sub_cancel_left]
  have hid : slice datagram (headerSize - 16 + 12) headerSize =
      .ok ((datagram.drop (headerSize - 16 + 12)).take 4) := by
    rw [slice, Kymux.Checked.slice_ok (by omega) hlen]
    congr 2
    omega
  have hdata : slice datagram headerSize datagram.length = .ok (datagram.drop headerSize) := by
    rw [slice, Kymux.Checked.slice_ok hlen le_rfl, ← List.length_drop, List.take_length]
  have hreserved : index ((datagram.drop (headerSize - 16)).take 12) 5 =
      .ok (((datagram.drop (headerSize - 16)).take 12).getD 5 0) := by
    have hfive : 5 < ((datagram.drop (headerSize - 16)).take 12).length := by
      rw [List.length_take, List.length_drop]
      omega
    rw [index, List.getElem?_eq_getElem hfive, List.getD_eq_getElem _ _ hfive]
  have hoffset : sub headerSize 16 = .ok (headerSize - 16) := Kymux.Checked.sub_ok hsize
  have hrest : sub datagram.length headerSize = .ok (datagram.length - headerSize) :=
    Kymux.Checked.sub_ok hlen
  rw [if_neg (not_lt.mpr hlen), if_neg (not_lt.mpr hlen)]
  simp only [hoffset, hraw, hreserved, hid, hdata, hrest, validateOti_eq hmax, bind, Except.bind]
  split_ifs
  · rfl
  · rfl

theorem length_of_parseDatagram {datagram : Bytes} {headerSize maxPayload : ℕ}
    {out : Bytes × Oti × PayloadId}
    (h : Fec.parseDatagram datagram headerSize maxPayload = .ok out) :
    headerSize ≤ datagram.length := by
  by_contra hlen
  rw [Fec.parseDatagram, if_pos (not_le.mp hlen)] at h
  cases h

end Kymux.Fec.Checked
