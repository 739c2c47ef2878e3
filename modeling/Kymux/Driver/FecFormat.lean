import Kymux.Driver.Receiver
import Kymux.Driver.SendSeq

namespace Kymux

open BigEndian

theorem encode_word {n w : ℕ} {bytes : Bytes} (hlen : bytes.length = n) (hw : 256 ^ n = 2 ^ w) :
    encode n (decode bytes % 2 ^ w) = bytes := by
  subst hlen
  rw [← hw, encode_mod, encode_decode]

/-- The bytes of an OTI are those it was read from, if their reserved byte is zero. -/
theorem Oti.serialize_deserialize {raw : Bytes} (hlen : raw.length = 12)
    (hzero : raw.getD 5 0 = 0) :
    (deserialize raw).serialize = raw := by
  obtain ⟨b₀, b₁, b₂, b₃, b₄, b₅, b₆, b₇, b₈, b₉, b₁₀, b₁₁, rfl⟩ :
      ∃ b₀ b₁ b₂ b₃ b₄ b₅ b₆ b₇ b₈ b₉ b₁₀ b₁₁,
      raw = [b₀, b₁, b₂, b₃, b₄, b₅, b₆, b₇, b₈, b₉, b₁₀, b₁₁] := by
    match raw, hlen with
    | [b₀, b₁, b₂, b₃, b₄, b₅, b₆, b₇, b₈, b₉, b₁₀, b₁₁], _ =>
      exact ⟨b₀, b₁, b₂, b₃, b₄, b₅, b₆, b₇, b₈, b₉, b₁₀, b₁₁, rfl⟩
  have hlength : encode 5 (BitVec.ofNat 40 (BigEndian.decode [b₀, b₁, b₂, b₃, b₄])).toNat =
      [b₀, b₁, b₂, b₃, b₄] := by
    rw [BitVec.toNat_ofNat]
    exact encode_word rfl (by norm_num)
  have hsize : encode 2 (UInt16.ofNat (BigEndian.decode [b₆, b₇])).toNat = [b₆, b₇] := by
    rw [UInt16.toNat_ofNat']
    exact encode_word rfl (by norm_num)
  have hsub : encode 2 (UInt16.ofNat (BigEndian.decode [b₉, b₁₀])).toNat = [b₉, b₁₀] := by
    rw [UInt16.toNat_ofNat']
    exact encode_word rfl (by norm_num)
  have hreserved : b₅ = 0 := hzero
  change encode 5 (BitVec.ofNat 40 (BigEndian.decode [b₀, b₁, b₂, b₃, b₄])).toNat ++ [0] ++
    encode 2 (UInt16.ofNat (BigEndian.decode [b₆, b₇])).toNat ++ [b₈] ++
    encode 2 (UInt16.ofNat (BigEndian.decode [b₉, b₁₀])).toNat ++ [b₁₁] = _
  rw [hlength, hsize, hsub, hreserved]
  rfl

theorem PayloadId.serialize_deserialize {raw : Bytes} (hlen : raw.length = 4) :
    (deserialize raw).serialize = raw := by
  match raw, hlen with
  | [b₀, b₁, b₂, b₃], _ =>
    have hesi : encode 3 (BitVec.ofNat 24 (BigEndian.decode [b₁, b₂, b₃])).toNat =
        [b₁, b₂, b₃] := by
      rw [BitVec.toNat_ofNat]
      exact encode_word rfl (by norm_num)
    change b₀ :: encode 3 (BitVec.ofNat 24 (BigEndian.decode [b₁, b₂, b₃])).toNat = _
    rw [hesi]

namespace Fec

structure Symbol.Valid (x : Symbol) (maxPayload : ℕ) : Prop where
  oti : validateOti x.oti maxPayload = .ok ()
  block : x.payloadId.sourceBlockNumber < x.oti.sourceBlocks
  size : x.data.length = x.oti.symbolSize.toNat

theorem parseDatagram_ok {headerSize maxPayload : ℕ} {datagram : Bytes} {x : Symbol} :
    parseDatagram datagram headerSize maxPayload = .ok (x.data, x.oti, x.payloadId) ↔
      headerSize ≤ datagram.length ∧ ((datagram.drop (headerSize - 16)).take 12).getD 5 0 = 0 ∧
      x.oti = Oti.deserialize ((datagram.drop (headerSize - 16)).take 12) ∧
      validateOti x.oti maxPayload = .ok () ∧
      x.payloadId = PayloadId.deserialize ((datagram.drop (headerSize - 16 + 12)).take 4) ∧
      validateSymbol x.oti x.payloadId (datagram.length - headerSize) = .ok () ∧
      x.data = datagram.drop headerSize := by
  unfold parseDatagram
  by_cases hlen : datagram.length < headerSize
  · rw [if_pos hlen]
    exact ⟨nofun, fun h ↦ absurd h.1 (not_le.mpr hlen)⟩
  by_cases hzero : ((datagram.drop (headerSize - 16)).take 12).getD 5 0 = 0
  swap
  · rw [if_neg hlen]
    dsimp only [bind, Except.bind, pure, Except.pure]
    rw [if_pos hzero]
    exact ⟨nofun, fun h ↦ absurd h.2.1 hzero⟩
  rw [if_neg hlen]
  dsimp only [bind, Except.bind, pure, Except.pure]
  rw [if_neg (not_not.mpr hzero)]
  generalize Oti.deserialize ((datagram.drop (headerSize - 16)).take 12) = oti
  generalize PayloadId.deserialize ((datagram.drop (headerSize - 16 + 12)).take 4) = id
  constructor
  · intro h
    cases hoti : validateOti oti maxPayload with
    | error e => rw [hoti] at h; cases h
    | ok _ =>
      rw [hoti] at h
      dsimp only at h
      cases hsymbol : validateSymbol oti id (datagram.length - headerSize) with
      | error e => rw [hsymbol] at h; cases h
      | ok _ =>
        rw [hsymbol] at h
        simp only [Except.ok.injEq, Prod.mk.injEq] at h
        obtain ⟨hdata, rfl, rfl⟩ := h
        exact ⟨not_lt.mp hlen, hzero, rfl, hoti, rfl, hsymbol, hdata.symm⟩
  · rintro ⟨-, -, rfl, hoti, rfl, hsymbol, hdata⟩
    rw [hoti, hsymbol, hdata]

def Symbol.layout (x : Symbol) : Bytes := x.oti.serialize ++ x.payloadId.serialize ++ x.data

theorem Symbol.layout_inj {x y : Symbol} (h : x.layout = y.layout) : x = y := by
  obtain ⟨hhead, hdata⟩ :=
    List.append_inj h (by simp [Oti.length_serialize, PayloadId.length_serialize])
  obtain ⟨hoti, hid⟩ := List.append_inj hhead (by simp [Oti.length_serialize])
  have hoti' : x.oti = y.oti := by
    rw [← x.oti.deserialize_serialize, hoti, y.oti.deserialize_serialize]
  have hid' : x.payloadId = y.payloadId := by
    rw [← x.payloadId.deserialize_serialize, hid, y.payloadId.deserialize_serialize]
  obtain ⟨_, _, _⟩ := x
  cases hoti'
  cases hid'
  cases hdata
  rfl

theorem parseDatagram_layout (header : Bytes) {maxPayload : ℕ} {x : Symbol}
    (hx : x.Valid maxPayload) :
    parseDatagram (header ++ x.layout) (header.length + 16) maxPayload =
      .ok (x.data, x.oti, x.payloadId) := by
  have hoti := x.oti.length_serialize
  have hid := x.payloadId.length_serialize
  have hraw : ((header ++ x.layout).drop header.length).take 12 = x.oti.serialize := by
    rw [List.drop_left, Symbol.layout, List.append_assoc, List.take_left' hoti]
  have hrawId :
      ((header ++ x.layout).drop (header.length + 12)).take 4 = x.payloadId.serialize := by
    rw [← List.drop_drop, List.drop_left, Symbol.layout, List.append_assoc, List.drop_left' hoti,
      List.take_left' hid]
  have hdata : (header ++ x.layout).drop (header.length + 16) = x.data := by
    rw [← List.drop_drop, List.drop_left, Symbol.layout]
    exact List.drop_left' (by rw [List.length_append, hoti, hid])
  have hlen : (header ++ x.layout).length = header.length + 16 + x.data.length := by
    simp only [Symbol.layout, List.length_append, hoti, hid]
    omega
  rw [parseDatagram_ok, Nat.add_sub_cancel, hraw, hrawId, hdata, hlen, Nat.add_sub_cancel_left,
    Oti.deserialize_serialize, PayloadId.deserialize_serialize, validateSymbol_ok_iff]
  exact ⟨by omega, x.oti.reserved_serialize, rfl, hx.oti, rfl, ⟨hx.block, hx.size⟩, rfl⟩

theorem layout_of_parseDatagram {headerSize maxPayload : ℕ} (hsize : 16 ≤ headerSize)
    {datagram : Bytes} {x : Symbol}
    (h : parseDatagram datagram headerSize maxPayload = .ok (x.data, x.oti, x.payloadId)) :
    x.Valid maxPayload ∧ datagram = datagram.take (headerSize - 16) ++ x.layout := by
  obtain ⟨hlen, hzero, hoti, hvalid, hid, hsymbol, hdata⟩ := parseDatagram_ok.mp h
  obtain ⟨hblock, hsymbolSize⟩ := validateSymbol_ok_iff.mp hsymbol
  refine ⟨⟨hvalid, hblock, ?_⟩, ?_⟩
  · rw [hdata, List.length_drop, hsymbolSize]
  have hraw : x.oti.serialize = (datagram.drop (headerSize - 16)).take 12 := by
    rw [hoti]
    apply Oti.serialize_deserialize _ hzero
    rw [List.length_take, List.length_drop]
    omega
  have hrawId : x.payloadId.serialize = (datagram.drop (headerSize - 16 + 12)).take 4 := by
    rw [hid]
    apply PayloadId.serialize_deserialize
    rw [List.length_take, List.length_drop]
    omega
  have hend : datagram.drop headerSize = ((datagram.drop (headerSize - 16)).drop 12).drop 4 := by
    rw [List.drop_drop, List.drop_drop]
    congr 1
    omega
  rw [Symbol.layout, hraw, hrawId, hdata, hend, ← List.drop_drop, List.append_assoc,
    List.take_append_drop, List.take_append_drop, List.take_append_drop]

end Fec

namespace Driver

open Fec

def fecDatagram (endpointId : UInt16) (seqs : Bytes) (x : Symbol) : Bytes :=
  encode 2 endpointId.toNat ++ seqs ++ x.layout

theorem readU32_encode (x : UInt32) : readU32 (encode 4 x.toNat) = x := by
  rw [readU32, decode_encode_of_lt (by have := x.toNat_lt; omega), UInt32.ofNat_toNat]

theorem encode_readU32 {bytes : Bytes} (h : bytes.length = 4) :
    encode 4 (readU32 bytes).toNat = bytes := by
  rw [readU32, UInt32.toNat_ofNat']
  exact encode_word h (by norm_num)

theorem first_word (endpointId : UInt16) (k : UInt32) (rest : Bytes) :
    readU32 (((encode 2 endpointId.toNat ++ (encode 4 k.toNat ++ rest)).drop 2).take 4) = k := by
  rw [List.drop_left' (length_encode 2 _), List.take_left' (length_encode 4 _), readU32_encode]

theorem second_word (endpointId : UInt16) (k g : UInt32) (rest : Bytes) :
    readU32 (((encode 2 endpointId.toNat ++
      (encode 4 k.toNat ++ (encode 4 g.toNat ++ rest))).drop 6).take 4) = g := by
  rw [show 6 = 2 + 4 from rfl, ← List.drop_drop, List.drop_left' (length_encode 2 _),
    List.drop_left' (length_encode 4 _), List.take_left' (length_encode 4 _), readU32_encode]

theorem videoSeqs_inj {s s' : Sender} (h : videoSeqs s = videoSeqs s') : s = s' := by
  obtain ⟨hk, hg⟩ := List.append_inj h (by simp)
  obtain ⟨k, g⟩ := s
  obtain ⟨k', g'⟩ := s'
  rw [Sender.mk.injEq, ← readU32_encode k, ← readU32_encode g]
  exact ⟨(congrArg readU32 hk).trans (readU32_encode k'),
    (congrArg readU32 hg).trans (readU32_encode g')⟩

theorem take_word {bytes : Bytes} {n : ℕ} (h : n + 4 ≤ bytes.length) :
    bytes.take (n + 4) = bytes.take n ++ encode 4 (readU32 ((bytes.drop n).take 4)).toNat := by
  rw [encode_readU32 (by rw [List.length_take, List.length_drop]; omega), ← List.take_add]

end Driver

open Driver Fec

namespace VideoFec

/-- A datagram of the sender is read as what it was made of. -/
theorem parse_fecDatagram (endpointId : UInt16) {msg : DatagramMsg Symbol}
    (h : msg.content.Valid maxVideoPayload) :
    parse (fecDatagram endpointId (videoSeqs ⟨msg.rawKypacketSeq, msg.rawGroupSeq⟩) msg.content) =
      .ok msg := by
  have hparse := parseDatagram_layout
    (encode 2 endpointId.toNat ++ videoSeqs ⟨msg.rawKypacketSeq, msg.rawGroupSeq⟩) h
  have hsize : (encode 2 endpointId.toNat ++
      videoSeqs ⟨msg.rawKypacketSeq, msg.rawGroupSeq⟩).length + 16 = datagramHeaderSize := by
    simp [videoSeqs, datagramHeaderSize]
  rw [hsize] at hparse
  rw [parse, fecDatagram, hparse]
  simp only [videoSeqs, List.append_assoc, first_word, second_word]
  rfl

/-- What is read is what the bytes behind the endpoint id are made of. -/
theorem fecDatagram_of_parse {datagram : Bytes} {msg : DatagramMsg Symbol}
    (h : parse datagram = .ok msg) :
    msg.content.Valid maxVideoPayload ∧
      datagram = datagram.take 2 ++ videoSeqs ⟨msg.rawKypacketSeq, msg.rawGroupSeq⟩ ++
        msg.content.layout := by
  unfold parse at h
  cases hparse : parseDatagram datagram datagramHeaderSize maxVideoPayload with
  | error e => rw [hparse] at h; cases h
  | ok out =>
    obtain ⟨data, oti, id⟩ := out
    rw [hparse] at h
    cases h
    obtain ⟨hvalid, hlayout⟩ := layout_of_parseDatagram (x := ⟨oti, id, data⟩) (by decide) hparse
    have hlen : 26 ≤ datagram.length := (parseDatagram_ok (x := ⟨oti, id, data⟩).mp hparse).1
    refine ⟨hvalid, ?_⟩
    rw [videoSeqs, ← List.append_assoc, ← take_word (by omega), ← take_word (by omega)]
    exact hlayout

/-- A datagram of the sender is read as a symbol of the packet, with the numbers of the sender. -/
theorem symbol_of_datagram {rq : RaptorQ} {s : Sender} {packet : Av.MediaPacket} {env : Env}
    {datagram : Bytes} {msg : DatagramMsg Symbol}
    (h : .ok (.sendDatagram datagram) ∈ (sendDriver rq).datagrams s packet env)
    (hparse : parse datagram = .ok msg) :
    ∃ maxDatagramSize header, env.maxDatagramSize = some maxDatagramSize ∧
      packet.header.serialize = .ok header ∧ (⟨msg.rawKypacketSeq, msg.rawGroupSeq⟩ : Sender) = s ∧
      let data := header ++ packet.payload
      let mtu := UInt16.ofNat (maxDatagramSize - datagramHeaderSize)
      msg.content.oti = rq.config data mtu ∧
        ⟨msg.content.payloadId, msg.content.data⟩ ∈ rq.encodedPackets data mtu
          (repairSymbols (divCeil data.length (rq.config data mtu).symbolSize.toNat)) := by
  obtain ⟨maxDatagramSize, header, p, hmax, -, -, hs, hp, hop⟩ := mem_fecDatagrams h
  obtain ⟨-, hlayout⟩ := fecDatagram_of_parse hparse
  have hbytes : datagram = encode 2 env.endpointId.toNat ++ videoSeqs s ++
      Symbol.layout ⟨rq.config (header ++ packet.payload)
        (UInt16.ofNat (maxDatagramSize - datagramHeaderSize)), p.payloadId, p.data⟩ := by
    rw [Op.sendDatagram.inj hop, Symbol.layout]
    simp only [List.append_assoc]
  have hlen : (datagram.take 2).length = 2 := by
    rw [hbytes]
    rfl
  obtain ⟨hhead, hcontent⟩ := List.append_inj (hbytes.symm.trans hlayout)
    (by simp [hlen, videoSeqs])
  obtain ⟨-, hseqs⟩ := List.append_inj hhead (by simp [hlen])
  refine ⟨maxDatagramSize, header, hmax, hs, (videoSeqs_inj hseqs).symm, ?_⟩
  rw [← Symbol.layout_inj hcontent]
  exact ⟨rfl, hp⟩

end VideoFec

namespace AudioFec

theorem parse_fecDatagram (endpointId : UInt16) {msg : AudioDatagramMsg Symbol}
    (h : msg.content.Valid maxAudioPayload) :
    parse (fecDatagram endpointId (audioSeqs ⟨msg.rawKypacketSeq, 0⟩) msg.content) = .ok msg := by
  have hparse := parseDatagram_layout
    (encode 2 endpointId.toNat ++ audioSeqs ⟨msg.rawKypacketSeq, 0⟩) h
  have hsize : (encode 2 endpointId.toNat ++ audioSeqs ⟨msg.rawKypacketSeq, 0⟩).length + 16 =
      datagramHeaderSize := by
    simp [audioSeqs, datagramHeaderSize]
  rw [hsize] at hparse
  rw [parse, fecDatagram, hparse]
  simp only [audioSeqs, List.append_assoc, first_word]
  rfl

theorem fecDatagram_of_parse {datagram : Bytes} {msg : AudioDatagramMsg Symbol}
    (h : parse datagram = .ok msg) :
    msg.content.Valid maxAudioPayload ∧
      datagram = datagram.take 2 ++ audioSeqs ⟨msg.rawKypacketSeq, 0⟩ ++ msg.content.layout := by
  unfold parse at h
  cases hparse : parseDatagram datagram datagramHeaderSize maxAudioPayload with
  | error e => rw [hparse] at h; cases h
  | ok out =>
    obtain ⟨data, oti, id⟩ := out
    rw [hparse] at h
    cases h
    obtain ⟨hvalid, hlayout⟩ := layout_of_parseDatagram (x := ⟨oti, id, data⟩) (by decide) hparse
    have hlen : 22 ≤ datagram.length := (parseDatagram_ok (x := ⟨oti, id, data⟩).mp hparse).1
    refine ⟨hvalid, ?_⟩
    rw [audioSeqs, ← take_word (by omega)]
    exact hlayout

end AudioFec

/-- The datagrams that a receiver reads are exactly those that a sender can lay out from
fields that are valid, and it reads the fields they were laid out from. -/
theorem fecDatagram_exact :
    (∀ (endpointId : UInt16) (msg : DatagramMsg Symbol), msg.content.Valid maxVideoPayload →
      VideoFec.parse (fecDatagram endpointId
        (videoSeqs ⟨msg.rawKypacketSeq, msg.rawGroupSeq⟩) msg.content) = .ok msg) ∧
    (∀ (datagram : Bytes) (msg : DatagramMsg Symbol), VideoFec.parse datagram = .ok msg →
      msg.content.Valid maxVideoPayload ∧
        datagram = datagram.take 2 ++ videoSeqs ⟨msg.rawKypacketSeq, msg.rawGroupSeq⟩ ++
          msg.content.layout) ∧
    (∀ (endpointId : UInt16) (msg : AudioDatagramMsg Symbol), msg.content.Valid maxAudioPayload →
      AudioFec.parse (fecDatagram endpointId
        (audioSeqs ⟨msg.rawKypacketSeq, 0⟩) msg.content) = .ok msg) ∧
    (∀ (datagram : Bytes) (msg : AudioDatagramMsg Symbol), AudioFec.parse datagram = .ok msg →
      msg.content.Valid maxAudioPayload ∧
        datagram = datagram.take 2 ++ audioSeqs ⟨msg.rawKypacketSeq, 0⟩ ++ msg.content.layout) :=
  ⟨fun endpointId _ h ↦ VideoFec.parse_fecDatagram endpointId h,
    fun _ _ h ↦ VideoFec.fecDatagram_of_parse h,
    fun endpointId _ h ↦ AudioFec.parse_fecDatagram endpointId h,
    fun _ _ h ↦ AudioFec.fecDatagram_of_parse h⟩

theorem fecDatagram_exact_repair :
    VideoFec.parse (fecDatagram 7 (videoSeqs ⟨3, 2⟩)
      ⟨⟨12, 8, 2, 1, 8⟩, ⟨1, 5⟩, List.replicate 8 0xff⟩) =
        .ok ⟨⟨⟨12, 8, 2, 1, 8⟩, ⟨1, 5⟩, List.replicate 8 0xff⟩, 3, 2⟩ :=
  fecDatagram_exact.1 7 ⟨⟨⟨12, 8, 2, 1, 8⟩, ⟨1, 5⟩, List.replicate 8 0xff⟩, 3, 2⟩
    ⟨by decide, by decide, rfl⟩

end Kymux
