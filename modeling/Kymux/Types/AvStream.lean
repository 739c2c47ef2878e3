import Kymux.Lib.Framing
import Kymux.Types.AvFormat

namespace Kymux.Av

open BigEndian Framing

theorem assert_bind {α : Type} {c : Bool} {m : String} {f : Unit → Except Fault α} {a : α}
    (h : (assert c m >>= f) = .ok a) : c = true ∧ f () = .ok a := by
  cases c with
  | false => cases h
  | true => exact ⟨rfl, h⟩

theorem length_of_readExact {n : ℕ} {stream : Bytes} {out : Bytes × Bytes}
    (h : readExact n stream = .ok out) : out.1.length = n := by
  unfold readExact at h
  split_ifs at h with hn
  obtain rfl := Except.ok.inj h
  rw [List.length_take, Nat.min_eq_left hn]

theorem assert_true {c : Bool} (m : String) (h : c = true) : assert c m = .ok () := if_pos h

namespace HolePacketHeader

variable {h : HolePacketHeader}

theorem length_serialize (h : HolePacketHeader) : h.serialize.length = serializedSize := by
  simp [serialize, serializedSize]

theorem take_four (h : HolePacketHeader) : h.serialize.take 4 = List.replicate 4 0 := by
  rw [serialize, List.append_assoc]
  exact List.take_left' List.length_replicate

theorem deserialize_serialize (hm : 0 < h.missingAudioSamples) :
    deserialize h.serialize = .ok h := by
  have hlen := length_serialize h
  have hfour : (h.serialize.take 4 == List.replicate 4 0) = true := by
    rw [take_four]
    exact beq_self_eq_true _
  have hmissing : UInt32.ofNat (decode ((h.serialize.drop 4).take 4)) = h.missingAudioSamples := by
    rw [serialize, List.append_assoc, List.drop_left' List.length_replicate,
      List.take_left' (length_encode _ _),
      decode_encode_of_lt (by have := h.missingAudioSamples.toNat_lt; omega), UInt32.ofNat_toNat]
  unfold deserialize
  -- The number is a variable from here on, so that no comparison of words is evaluated.
  generalize UInt32.ofNat (decode ((h.serialize.drop 4).take 4)) = missing at hmissing ⊢
  subst hmissing
  rw [assert_true _ (beq_iff_eq.mpr hlen), assert_true _ hfour]
  dsimp only [bind, Except.bind]
  rw [assert_true _ (decide_eq_true hm)]
  rfl

theorem positive_of_deserialize {raw : Bytes} (hd : deserialize raw = .ok h) :
    0 < h.missingAudioSamples := by
  unfold deserialize at hd
  generalize UInt32.ofNat (decode ((raw.drop 4).take 4)) = missing at hd
  obtain ⟨-, hd⟩ := assert_bind hd
  obtain ⟨-, hd⟩ := assert_bind hd
  obtain ⟨hm, hd⟩ := assert_bind hd
  obtain rfl := Except.ok.inj hd
  exact of_decide_eq_true hm

end HolePacketHeader

namespace CodecPacketHeader

theorem tagged_of_deserialize {raw : Bytes} {h : CodecPacketHeader} (hd : deserialize raw = .ok h)
    (hfour : raw.take 4 ≠ List.replicate 4 0) : h.Tagged := by
  unfold deserialize at hd
  obtain ⟨hlen, hd⟩ := assert_bind hd
  obtain ⟨hbit, hd⟩ := assert_bind hd
  obtain rfl := Except.ok.inj hd
  match raw, hlen with
  | b :: bs, hlen =>
    have hthree : (bs.take 3).length = 3 := by
      simp only [List.length_cons, serializedSize, beq_iff_eq] at hlen
      rw [List.length_take]
      omega
    have hb : b.toNat < 128 := by
      have hhigh := high_bit_iff b
      rw [bne, show (b &&& 0x80 == 0) = true from hbit] at hhigh
      simpa using hhigh
    have hrest := decode_lt (bs.take 3)
    rw [hthree] at hrest
    have hdecode : decode ((b :: bs).take 4) = b.toNat * 256 ^ 3 + decode (bs.take 3) := by
      rw [List.take_succ_cons, decode, hthree]
    have hcodec : (UInt32.ofNat (decode ((b :: bs).take 4))).toNat = decode ((b :: bs).take 4) := by
      rw [UInt32.toNat_ofNat', Nat.mod_eq_of_lt (by omega)]
    unfold Tagged
    dsimp only
    rw [hcodec]
    refine ⟨Nat.pos_of_ne_zero fun hzero ↦ hfour ?_, by omega⟩
    apply decode_inj
    · rw [List.take_succ_cons, List.length_cons, hthree]
      rfl
    · rw [hzero]
      decide

end CodecPacketHeader

theorem MediaPacketHeader.pts_of_deserialize {raw : Bytes} {h : MediaPacketHeader}
    (hd : deserialize raw = .ok h) : h.pts.toNat < 2 ^ 61 := by
  unfold deserialize at hd
  obtain ⟨-, hd⟩ := assert_bind hd
  obtain ⟨-, hd⟩ := assert_bind hd
  obtain rfl := Except.ok.inj hd
  rw [UInt64.toNat_and,
    show (keyFlag - 1).toNat = 2 ^ 61 - 1 by decide, Nat.and_two_pow_sub_one_eq_mod]
  exact Nat.mod_lt _ (by norm_num)

/-- The flags and the time stamp are all that a word of a media packet tells. -/
theorem flags_add_pts {word : UInt64} (hhigh : 2 ^ 63 ≤ word.toNat) :
    2 ^ 63 + (if word &&& configFlag != 0 then 2 ^ 62 else 0) +
      (if word &&& keyFlag != 0 then 2 ^ 61 else 0) +
        (word &&& (keyFlag - 1)).toNat = word.toNat := by
  have hlt := word.toNat_lt
  rw [UInt64.toNat_and, show (keyFlag - 1).toNat = 2 ^ 61 - 1 by decide,
    Nat.and_two_pow_sub_one_eq_mod, flag_set_iff _ 62 _ (by decide),
    flag_set_iff _ 61 _ (by decide), Nat.testBit_eq_decide_div_mod_eq,
    Nat.testBit_eq_decide_div_mod_eq]
  simp only [decide_eq_true_iff]
  split_ifs <;> omega

theorem le_decode_of_high_bit {raw : Bytes} (hlen : raw.length = serializedSize)
    (hbit : (raw.getD 0 0 &&& 0x80 != 0) = true) : 2 ^ 63 ≤ decode (raw.take 8) := by
  match raw, hlen with
  | b :: bs, hlen =>
    have hb : (b &&& 0x80 != 0) = true := hbit
    have hseven : (bs.take 7).length = 7 := by
      rw [List.length_cons, serializedSize] at hlen
      rw [List.length_take]
      omega
    rw [high_bit_iff, decide_eq_true_iff] at hb
    rw [List.take_succ_cons, decode, hseven]
    omega

theorem MediaPacketHeader.deserialize_of_high_bit {raw : Bytes} (hlen : raw.length = serializedSize)
    (hbit : (raw.getD 0 0 &&& 0x80 != 0) = true) : ∃ h, deserialize raw = .ok h := by
  unfold deserialize
  rw [assert_true _ (beq_iff_eq.mpr hlen), assert_true _ hbit]
  exact ⟨_, rfl⟩

/-- What can be read as the header of a media packet is what that header is written as. -/
theorem MediaPacketHeader.serialize_of_deserialize {raw : Bytes} {h : MediaPacketHeader}
    (hd : deserialize raw = .ok h) : h.serialize = .ok raw := by
  have hpts := pts_of_deserialize hd
  unfold deserialize at hd
  obtain ⟨hlen, hd⟩ := assert_bind hd
  obtain ⟨hbit, hd⟩ := assert_bind hd
  obtain rfl := Except.ok.inj hd
  have hlen : raw.length = 12 := beq_iff_eq.mp hlen
  have htake : encode 8 (decode (raw.take 8)) = raw.take 8 := by
    have hbytes := encode_decode (raw.take 8)
    rw [List.length_take, hlen] at hbytes
    exact hbytes
  have hdrop : encode 4 (decode (raw.drop 8)) = raw.drop 8 := by
    have hbytes := encode_decode (raw.drop 8)
    rw [List.length_drop, hlen] at hbytes
    exact hbytes
  have hword : (UInt64.ofNat (decode (raw.take 8))).toNat = decode (raw.take 8) := by
    have hlt := decode_lt (raw.take 8)
    rw [List.length_take, hlen] at hlt
    exact UInt64.toNat_ofNat_of_lt' hlt
  have hsize : (UInt32.ofNat (decode (raw.drop 8))).toNat = decode (raw.drop 8) := by
    have hlt := decode_lt (raw.drop 8)
    rw [List.length_drop, hlen] at hlt
    exact UInt32.toNat_ofNat_of_lt' hlt
  have hhigh := le_decode_of_high_bit hlen hbit
  rw [← hword] at hhigh
  refine serialize_ok_iff.mpr ⟨hpts, ?_⟩
  rw [ptsAndFlags_toNat hpts, flags_add_pts hhigh, hword, hsize, htake, hdrop,
    List.take_append_drop]

namespace AVPacket

def WellFormed : AVPacket → Prop
  | .codec packet => packet.header.Tagged
  | .media packet =>
    packet.header.pts.toNat < 2 ^ 61 ∧ packet.header.size.toNat = packet.payload.length
  | .hole packet => 0 < packet.header.missingAudioSamples

def write : AVPacket → Bytes → Except Fault Unit × Bytes
  | .codec packet, writer => (.ok (), writer ++ packet.header.serialize)
  | .media packet, writer =>
    match packet.header.serialize with
    | .error e => (.error e, writer)
    | .ok header => (.ok (), writer ++ header ++ packet.payload)
  | .hole packet, writer => (.ok (), writer ++ packet.header.serialize)

/-- `read` on a stream of which nothing is left after an error. -/
def readFrom (reader : Bytes) : Except Fault (Option AVPacket) × Bytes :=
  match read reader with
  | .error e => (.error e, [])
  | .ok (packet, reader) => (.ok packet, reader)

def frame (packet : AVPacket) : Bytes := (packet.write []).2

variable {packet : AVPacket} {packets : List AVPacket}

section Header

variable {raw reader left : Bytes}

theorem deserialize_codec {header : CodecPacketHeader} (hlen : raw.length = serializedSize)
    (hbit : (raw.getD 0 0 &&& 0x80 != 0) = false)
    (hfour : (raw.take 4 == List.replicate 4 0) = false)
    (hd : CodecPacketHeader.deserialize raw = .ok header) :
    AVPacketHeader.deserialize raw = .ok (.codec header) := by
  unfold AVPacketHeader.deserialize
  rw [assert_true _ (beq_iff_eq.mpr hlen), hbit, hfour, hd]
  rfl

theorem deserialize_media {header : MediaPacketHeader} (hlen : raw.length = serializedSize)
    (hbit : (raw.getD 0 0 &&& 0x80 != 0) = true)
    (hd : MediaPacketHeader.deserialize raw = .ok header) :
    AVPacketHeader.deserialize raw = .ok (.media header) := by
  unfold AVPacketHeader.deserialize
  rw [assert_true _ (beq_iff_eq.mpr hlen), hbit, hd]
  rfl

theorem deserialize_hole {header : HolePacketHeader} (hlen : raw.length = serializedSize)
    (hbit : (raw.getD 0 0 &&& 0x80 != 0) = false)
    (hfour : (raw.take 4 == List.replicate 4 0) = true)
    (hd : HolePacketHeader.deserialize raw = .ok header) :
    AVPacketHeader.deserialize raw = .ok (.hole header) := by
  unfold AVPacketHeader.deserialize
  rw [assert_true _ (beq_iff_eq.mpr hlen), hbit, hfour, hd]
  rfl

/-- What `read` does behind the header. -/
def readBehind (left : Bytes) : AVPacketHeader → Except Fault (Option AVPacket × Bytes)
  | .codec header => .ok (some (.codec ⟨header⟩), left)
  | .hole header => .ok (some (.hole ⟨header⟩), left)
  | .media header =>
    match readExact header.size.toNat left with
    | .error e => .error e
    | .ok (payload, rest) => .ok (some (.media ⟨header, payload⟩), rest)

theorem read_eq {header : AVPacketHeader} (hraw : readExact serializedSize reader = .ok (raw, left))
    (hd : AVPacketHeader.deserialize raw = .ok header) : read reader = readBehind left header := by
  rw [read, hraw]
  simp only [hd, bind, Except.bind, pure, Except.pure]
  cases header with
  | codec header => rfl
  | hole header => rfl
  | media header =>
    dsimp only [readBehind]
    cases readExact header.size.toNat left <;> rfl

theorem deserialize_ok {header : AVPacketHeader} (h : AVPacketHeader.deserialize raw = .ok header) :
    (∃ media, header = .media media ∧ MediaPacketHeader.deserialize raw = .ok media) ∨
    (∃ hole, header = .hole hole ∧ HolePacketHeader.deserialize raw = .ok hole) ∨
    ∃ codec, header = .codec codec ∧ CodecPacketHeader.deserialize raw = .ok codec ∧
      raw.take 4 ≠ List.replicate 4 0 := by
  unfold AVPacketHeader.deserialize at h
  obtain ⟨-, h⟩ := assert_bind h
  split at h
  · cases hd : MediaPacketHeader.deserialize raw with
    | error e => rw [hd] at h; cases h
    | ok media => rw [hd] at h; cases h; exact .inl ⟨media, rfl, rfl⟩
  · split at h
    · cases hd : HolePacketHeader.deserialize raw with
      | error e => rw [hd] at h; cases h
      | ok hole => rw [hd] at h; cases h; exact .inr (.inl ⟨hole, rfl, rfl⟩)
    · next hfour =>
      cases hd : CodecPacketHeader.deserialize raw with
      | error e => rw [hd] at h; cases h
      | ok codec =>
        rw [hd] at h
        cases h
        exact .inr (.inr ⟨codec, rfl, rfl, fun heq ↦ hfour (beq_iff_eq.mpr heq)⟩)

end Header

theorem read_codec {packet : CodecPacket} (h : packet.header.Tagged) (rest : Bytes) :
    read (packet.header.serialize ++ rest) = .ok (some (.codec packet), rest) := by
  have hlen : packet.header.serialize.length = serializedSize := packet.header.length_serialize
  have hbit := CodecPacketHeader.high_bit_of_tagged h []
  rw [List.append_nil] at hbit
  exact read_eq (readExact_append hlen rest) (deserialize_codec hlen hbit
    (CodecPacketHeader.take_four_ne_zero h) (CodecPacketHeader.deserialize_serialize h))

theorem read_media {packet : MediaPacket} {header : Bytes}
    (hs : packet.header.serialize = .ok header)
    (h : packet.header.size.toNat = packet.payload.length) (rest : Bytes) :
    read (header ++ packet.payload ++ rest) = .ok (some (.media packet), rest) := by
  have hlen : header.length = serializedSize := MediaPacketHeader.length_of_serialize hs
  have hbit := MediaPacketHeader.high_bit_of_serialize hs []
  rw [List.append_nil] at hbit
  rw [List.append_assoc, read_eq (readExact_append hlen _)
    (deserialize_media hlen hbit (MediaPacketHeader.deserialize_serialize hs)), readBehind,
    readExact_append h.symm]

theorem read_hole {packet : HolePacket} (h : 0 < packet.header.missingAudioSamples) (rest : Bytes) :
    read (packet.header.serialize ++ rest) = .ok (some (.hole packet), rest) := by
  have hlen : packet.header.serialize.length = serializedSize := packet.header.length_serialize
  have hbit : (packet.header.serialize.getD 0 0 &&& 0x80 != 0) = false := by
    rw [show packet.header.serialize.getD 0 0 = 0 from rfl]
    decide
  have hfour : (packet.header.serialize.take 4 == List.replicate 4 0) = true := by
    rw [packet.header.take_four]
    exact beq_self_eq_true _
  exact read_eq (readExact_append hlen rest)
    (deserialize_hole hlen hbit hfour (HolePacketHeader.deserialize_serialize h))

theorem write_ok (h : packet.WellFormed) (writer : Bytes) :
    packet.write writer = (.ok (), writer ++ packet.frame) := by
  cases packet with
  | codec packet => rfl
  | hole packet => rfl
  | media packet =>
    have hs := MediaPacketHeader.serialize_ok_iff.mpr ⟨h.1, rfl⟩
    rw [frame, write, write, hs]
    dsimp only
    rw [List.nil_append, List.append_assoc]

theorem readFrom_frame (h : packet.WellFormed) (reader rest : Bytes)
    (hr : reader = packet.frame ++ rest) :
    (readFrom reader).1 = .ok (some packet) ∧ (readFrom reader).2 = rest := by
  have hread : read (packet.frame ++ rest) = .ok (some packet, rest) := by
    cases packet with
    | codec packet => exact read_codec h rest
    | hole packet => exact read_hole h rest
    | media packet =>
      have hs := MediaPacketHeader.serialize_ok_iff.mpr ⟨h.1, rfl⟩
      rw [frame, write, hs]
      exact read_media hs h.2 rest
  rw [hr, readFrom, hread]
  exact ⟨rfl, rfl⟩

theorem wellFormed_of_read {reader rest : Bytes} (h : read reader = .ok (some packet, rest)) :
    packet.WellFormed := by
  cases hraw : readExact serializedSize reader with
  | error e => rw [read, hraw] at h; cases h
  | ok out =>
    obtain ⟨raw, left⟩ := out
    cases hd : AVPacketHeader.deserialize raw with
    | error e => rw [read, hraw] at h; simp only [hd, bind, Except.bind] at h; cases h
    | ok header =>
      rw [read_eq hraw hd] at h
      rcases deserialize_ok hd with ⟨media, rfl, hmedia⟩ | ⟨hole, rfl, hhole⟩
        | ⟨codec, rfl, hcodec, hfour⟩
      · rw [readBehind] at h
        cases hpayload : readExact media.size.toNat left with
        | error e => rw [hpayload] at h; cases h
        | ok out =>
          rw [hpayload] at h
          cases h
          exact ⟨MediaPacketHeader.pts_of_deserialize hmedia, (length_of_readExact hpayload).symm⟩
      · cases h
        exact HolePacketHeader.positive_of_deserialize hhole
      · cases h
        exact CodecPacketHeader.tagged_of_deserialize hcodec hfour

/-- Writing and reading packets gives them back exactly where they are well formed. -/
theorem write_read :
    (∀ packets : List AVPacket, (∀ packet ∈ packets, packet.WellFormed) →
      ∃ bytes, writes write packets [] = (.ok (), bytes) ∧ Reads readFrom bytes packets (.ok ())) ∧
    ∀ (packet : AVPacket) (bytes : Bytes), packet.write [] = (.ok (), bytes) → ¬ packet.WellFormed →
      ∀ rest, (readFrom (bytes ++ rest)).1 ≠ .ok (some packet) := by
  refine ⟨fun packets h ↦ ⟨_, writes_frames (fun packet hp ↦ write_ok (h packet hp)) [], ?_⟩,
    fun packet bytes _ hp rest hread ↦ hp ?_⟩
  · apply Reads.frames id frame []
    · exact fun packet hp ↦ readFrom_frame (h packet hp)
    · rintro _ rfl
      exact .ended rfl
    · simp
  · unfold readFrom at hread
    cases h : read (bytes ++ rest) with
    | error e => rw [h] at hread; cases hread
    | ok out =>
      rw [h] at hread
      obtain ⟨p, left⟩ := out
      cases hread
      exact wellFormed_of_read h

/-- One packet of each kind. -/
theorem write_read_kinds : ∃ bytes,
    writes write
      [.codec ⟨⟨0x68323634, 0, 0⟩⟩, .media ⟨⟨false, true, 7, 2⟩, [1, 2]⟩, .hole ⟨⟨480⟩⟩] [] =
      (.ok (), bytes) ∧
    Reads readFrom bytes
      [.codec ⟨⟨0x68323634, 0, 0⟩⟩, .media ⟨⟨false, true, 7, 2⟩, [1, 2]⟩, .hole ⟨⟨480⟩⟩]
        (.ok ()) := by
  apply write_read.1
  intro packet hp
  simp only [List.mem_cons, List.not_mem_nil, or_false] at hp
  rcases hp with rfl | rfl | rfl
  · exact ⟨by decide, by decide⟩
  · exact ⟨by decide, by decide⟩
  · exact (by decide : (0 : UInt32) < 480)

end AVPacket

end Kymux.Av
