import Kymux.Driver.SendSeq
import Kymux.Fec
import Kymux.Types.AvStream

namespace Kymux.Fec

open Av BigEndian Driver

section Object

def IsObject (data : Bytes) (packet : MediaPacket) : Prop :=
  ∃ header, packet.header.serialize = .ok header ∧ data = header ++ packet.payload

theorem IsObject.unique {data : Bytes} {packet packet' : MediaPacket} (h : IsObject data packet)
    (h' : IsObject data packet') : packet = packet' := by
  obtain ⟨header, hs, rfl⟩ := h
  obtain ⟨header', hs', heq⟩ := h'
  have hlen : header.length = header'.length :=
    (MediaPacketHeader.length_of_serialize hs).trans
    (MediaPacketHeader.length_of_serialize hs').symm
  obtain ⟨rfl, hpayload⟩ := List.append_inj heq hlen
  have hheader := MediaPacketHeader.deserialize_serialize hs'
  rw [MediaPacketHeader.deserialize_serialize hs] at hheader
  obtain ⟨header, payload⟩ := packet
  obtain ⟨header', payload'⟩ := packet'
  obtain rfl : header = header' := Except.ok.inj hheader
  obtain rfl : payload = payload' := hpayload
  rfl

structure IsMedia (packet : MediaPacket) : Prop where
  isConfig : packet.header.isConfig = false
  pts : packet.header.pts.toNat < 2 ^ 61
  size : packet.header.size.toNat = packet.payload.length

theorem mediaPacket_of_object {data : Bytes} {packet : MediaPacket} (h : IsObject data packet)
    (hmedia : IsMedia packet) : mediaPacket data = .ok (.media packet) := by
  obtain ⟨header, hs, rfl⟩ := h
  rw [mediaPacket_serialized hs hmedia.isConfig, if_pos hmedia.size]

theorem mediaPacket_cases (data : Bytes) :
    (∃ e, mediaPacket data = .error (.err e)) ∨
      ∃ packet, mediaPacket data = .ok (.media packet) ∧ IsObject data packet ∧ IsMedia packet := by
  simp only [mediaPacket, bind, Except.bind, pure, Except.pure]
  by_cases hshort : data.length < mediaHeader ∨ data.getD 0 0 &&& 0x80 = 0
  · rw [if_pos hshort]
    exact .inl ⟨_, rfl⟩
  rw [if_neg hshort]
  push Not at hshort
  have hlen : (data.take mediaHeader).length = serializedSize := by
    rw [List.length_take]
    exact Nat.min_eq_left hshort.1
  have hbit : ((data.take mediaHeader).getD 0 0 &&& 0x80 != 0) = true := by
    cases data with
    | nil => exact absurd hshort.1 (by decide)
    | cons b bs => exact bne_iff_ne.mpr hshort.2
  obtain ⟨header, hd⟩ := MediaPacketHeader.deserialize_of_high_bit hlen hbit
  rw [hd]
  by_cases hbad : header.isConfig = true ∨ header.size.toNat ≠ data.length - mediaHeader
  · simp only [if_pos hbad]
    exact .inl ⟨_, rfl⟩
  · simp only [if_neg hbad]
    push Not at hbad
    have hs := MediaPacketHeader.serialize_of_deserialize hd
    refine .inr ⟨_, rfl, ⟨_, hs, ?_⟩, ?_, (MediaPacketHeader.serialize_ok_iff.mp hs).1, ?_⟩
    · exact (List.take_append_drop _ _).symm
    · simpa using hbad.1
    · rw [List.length_drop]
      exact hbad.2

/-- The receivers take an object for the packet that it was made of, and nothing else for one. -/
theorem mediaPacket_inverts :
    (∀ data packet, mediaPacket data = .ok packet ↔
      ∃ media, packet = .media media ∧ IsMedia media ∧ IsObject data media) ∧
    (∀ data, (∃ packet, mediaPacket data = .ok packet) ∨ ∃ e, mediaPacket data = .error (.err e)) ∧
    (∀ rq headerSize seqs media env op, IsMedia media →
      .ok op ∈ fecDatagrams rq headerSize seqs media env →
      ∃ data mtu repair, IsObject data media ∧ mediaPacket data = .ok (.media media) ∧
        ∃ p ∈ rq.encodedPackets data mtu repair,
        op = .sendDatagram (encode 2 env.endpointId.toNat ++ seqs ++
          (rq.config data mtu).serialize ++ p.payloadId.serialize ++ p.data)) ∧
    ∀ data media media', IsObject data media → IsObject data media' → media = media' := by
  refine ⟨?_, ?_, ?_, fun data media media' h h' ↦ h.unique h'⟩
  · intro data packet
    constructor
    · intro h
      obtain ⟨e, he⟩ | ⟨media, hm, hobject, hmedia⟩ := mediaPacket_cases data
      · rw [he] at h
        cases h
      · obtain rfl := Except.ok.inj (hm.symm.trans h)
        exact ⟨media, rfl, hmedia, hobject⟩
    · rintro ⟨media, rfl, hmedia, hobject⟩
      exact mediaPacket_of_object hobject hmedia
  · intro data
    obtain ⟨e, he⟩ | ⟨media, hm, -⟩ := mediaPacket_cases data
    · exact .inr ⟨e, he⟩
    · exact .inl ⟨_, hm⟩
  · intro rq headerSize seqs media env op hmedia hop
    obtain ⟨maxDatagramSize, header, p, -, -, -, hs, hp, hdatagram⟩ := mem_fecDatagrams hop
    have hobject : IsObject (header ++ media.payload) media := ⟨header, hs, rfl⟩
    exact ⟨_, _, _, hobject, mediaPacket_of_object hobject hmedia, p, hp, hdatagram⟩

/-- A key frame of two bytes. -/
theorem mediaPacket_inverts_key :
    mediaPacket ([0xa0, 0, 0, 0, 0, 0, 0, 9] ++ [0, 0, 0, 2] ++ [7, 8]) =
      .ok (.media ⟨⟨false, true, 9, 2⟩, [7, 8]⟩) :=
  (mediaPacket_inverts.1 _ _).mpr ⟨_, rfl, ⟨rfl, by decide, rfl⟩, _, rfl, rfl⟩

end Object

section Stream

variable {stream raw left : Bytes} {maxPayload : ℕ}

/-- `read_exact`, with what is left of the stream. When it fails it has read all of it. -/
def readExactFrom (n : ℕ) (stream : Bytes) : Except Fault Bytes × Bytes :=
  match readExact n stream with
  | .error e => (.error e, [])
  | .ok (bytes, left) => (.ok bytes, left)

/-- `read_stream_packet`, with what is left of the stream however it ends. -/
def readStreamPacketFrom (stream : Bytes) (maxPayload : ℕ) : Except Fault AVPacket × Bytes :=
  match readExactFrom mediaHeader stream with
  | (.error e, left) => (.error e, left)
  | (.ok raw, left) =>
    if raw.getD 0 0 &&& 0x80 = 0 then
      if raw.take 4 = List.replicate 4 0 then
        (.error (invalid "unexpected hole record from sender"), left)
      else ((CodecPacketHeader.deserialize raw).map (fun header ↦ .codec ⟨header⟩), left)
    else
      match MediaPacketHeader.deserialize raw with
      | .error e => (.error e, left)
      | .ok header =>
        if ¬ header.isConfig ∨ header.size.toNat > min maxPayload maxConfigPayload then
          (.error (invalid "invalid reliable config type or length"), left)
        else
          match readExactFrom header.size.toNat left with
          | (.error e, left) => (.error e, left)
          | (.ok payload, left) => (.ok (.media ⟨header, payload⟩), left)

def IsCompanion (maxPayload : ℕ) : AVPacket → Prop
  | .codec _ => True
  | .media packet => packet.header.isConfig = true ∧
      packet.header.size.toNat ≤ min maxPayload maxConfigPayload
  | .hole _ => False

theorem header_cases (hlen : raw.length = serializedSize) :
    (raw.getD 0 0 &&& 0x80 = 0 ∧ raw.take 4 = List.replicate 4 0 ∧
      ∀ header, AVPacketHeader.deserialize raw = .ok header → ∃ hole, header = .hole hole) ∨
    (raw.getD 0 0 &&& 0x80 = 0 ∧ raw.take 4 ≠ List.replicate 4 0 ∧
      ∃ header, CodecPacketHeader.deserialize raw = .ok header ∧
        AVPacketHeader.deserialize raw = .ok (.codec header)) ∨
    (raw.getD 0 0 &&& 0x80 ≠ 0 ∧ ∃ header, MediaPacketHeader.deserialize raw = .ok header ∧
      AVPacketHeader.deserialize raw = .ok (.media header)) := by
  have hassert :
    assert (raw.length == serializedSize) "buf.len() == AVPacketHeader::SERIALIZED_SIZE" =
      .ok () := assert_true _ (beq_iff_eq.mpr hlen)
  by_cases hbit : raw.getD 0 0 &&& 0x80 = 0
  · have hbit' : (raw.getD 0 0 &&& 0x80 != 0) = false := by simpa using hbit
    by_cases hfour : raw.take 4 = List.replicate 4 0
    · refine .inl ⟨hbit, hfour, fun header hd ↦ ?_⟩
      rw [AVPacketHeader.deserialize, hassert, hbit', beq_iff_eq.mpr hfour] at hd
      cases hhole : HolePacketHeader.deserialize raw with
      | error e =>
        rw [hhole] at hd
        cases hd
      | ok hole =>
        rw [hhole] at hd
        cases hd
        exact ⟨hole, rfl⟩
    · have hd : ∃ header, CodecPacketHeader.deserialize raw = .ok header := by
        rw [CodecPacketHeader.deserialize, hassert, assert_true _ (beq_iff_eq.mpr hbit)]
        exact ⟨_, rfl⟩
      obtain ⟨header, hd⟩ := hd
      exact .inr (.inl ⟨hbit, hfour, header, hd,
        AVPacket.deserialize_codec hlen hbit' (beq_eq_false_iff_ne.mpr hfour) hd⟩)
  · have hbit' := bne_iff_ne.mpr hbit
    obtain ⟨header, hd⟩ := MediaPacketHeader.deserialize_of_high_bit hlen hbit'
    exact .inr (.inr ⟨hbit, header, hd, AVPacket.deserialize_media hlen hbit' hd⟩)

/-- All that `read_stream_packet` can do, beside what `AVPacket::read` does on the same stream. -/
theorem readStreamPacketFrom_cases (stream : Bytes) (maxPayload : ℕ) :
    (∃ packet left, readStreamPacketFrom stream maxPayload = (.ok packet, left) ∧
      AVPacket.read stream = .ok (some packet, left) ∧ IsCompanion maxPayload packet) ∨
    ((∃ e, (readStreamPacketFrom stream maxPayload).1 = .error (.err e)) ∧
      ∀ packet left, AVPacket.read stream = .ok (some packet, left) →
      ¬ IsCompanion maxPayload packet) := by
  cases hraw : readExact mediaHeader stream with
  | error e =>
    have hread : AVPacket.read stream = .ok (none, []) := by
      rw [AVPacket.read, show readExact serializedSize stream = .error e from hraw]
    refine .inr ⟨⟨⟨"early eof"⟩, ?_⟩, fun packet left h ↦ ?_⟩
    · rw [readStreamPacketFrom, readExactFrom, hraw]
      unfold readExact at hraw
      split_ifs at hraw
      cases hraw
      rfl
    · rw [hread] at h
      cases h
  | ok out =>
    obtain ⟨raw, left⟩ := out
    have hlen : raw.length = serializedSize := length_of_readExact hraw
    simp only [readStreamPacketFrom, readExactFrom, hraw]
    obtain ⟨hbit, hfour, hhole⟩ | ⟨hbit, hfour, header, hd, hav⟩ | ⟨hbit, header, hd, hav⟩ :=
      header_cases hlen
    · rw [if_pos hbit, if_pos hfour]
      refine .inr ⟨⟨_, rfl⟩, fun packet rest h ↦ ?_⟩
      cases hav : AVPacketHeader.deserialize raw with
      | error e =>
        rw [AVPacket.read, show readExact serializedSize stream = .ok (raw, left) from hraw] at h
        simp only [hav, bind, Except.bind] at h
        cases h
      | ok header =>
        obtain ⟨hole, rfl⟩ := hhole header hav
        rw [AVPacket.read_eq hraw hav] at h
        cases h
        exact id
    · rw [if_pos hbit, if_neg hfour, hd]
      exact .inl ⟨_, left, rfl, AVPacket.read_eq hraw hav, trivial⟩
    · rw [if_neg hbit, hd, AVPacket.read_eq hraw hav, AVPacket.readBehind]
      by_cases hbad : ¬ header.isConfig ∨ header.size.toNat > min maxPayload maxConfigPayload
      · simp only [if_pos hbad]
        refine .inr ⟨⟨_, rfl⟩, fun packet rest h ↦ ?_⟩
        cases hpayload : readExact header.size.toNat left with
        | error e =>
          rw [hpayload] at h
          cases h
        | ok out =>
          rw [hpayload] at h
          cases h
          rintro ⟨hconfig, hsize⟩
          exact hbad.elim (fun h ↦ h hconfig) (fun h ↦ (not_le.mpr h) hsize)
      · simp only [if_neg hbad]
        push Not at hbad
        cases hpayload : readExact header.size.toNat left with
        | error e =>
          unfold readExact at hpayload
          split_ifs at hpayload
          cases hpayload
          exact .inr ⟨⟨_, rfl⟩, fun _ _ h ↦ by cases h⟩
        | ok out => exact .inl ⟨_, out.2, rfl, rfl, hbad⟩

/-- The reader of the drivers accepts what the plain reader reads as a packet that belongs on their
stream, and refuses the rest; a config that does not belong there before it reads its payload. -/
theorem readStreamPacket_refines (stream : Bytes) (maxPayload : ℕ) :
    (∀ packet left, readStreamPacketFrom stream maxPayload = (.ok packet, left) ↔
      AVPacket.read stream = .ok (some packet, left) ∧ IsCompanion maxPayload packet) ∧
    ((∃ packet, (readStreamPacketFrom stream maxPayload).1 = .ok packet) ∨
      ∃ e, (readStreamPacketFrom stream maxPayload).1 = .error (.err e)) ∧
    ∀ raw left header, readExact mediaHeader stream = .ok (raw, left) →
      MediaPacketHeader.deserialize raw = .ok header →
      (header.isConfig = false ∨ min maxPayload maxConfigPayload < header.size.toNat) →
      (readStreamPacketFrom stream maxPayload).2 = left ∧ left = stream.drop mediaHeader := by
  refine ⟨fun packet left ↦ ?_, ?_, fun raw left header hraw hd hbad ↦ ?_⟩
  · obtain ⟨packet', left', hfrom, hread, hcompanion⟩ | ⟨⟨e, he⟩, hnot⟩ :=
      readStreamPacketFrom_cases stream maxPayload
    · rw [hfrom, hread]
      constructor
      · intro h
        cases h
        exact ⟨rfl, hcompanion⟩
      · rintro ⟨h, -⟩
        cases h
        rfl
    · constructor
      · intro h
        rw [h] at he
        cases he
      · rintro ⟨h, hcompanion⟩
        exact absurd hcompanion (hnot packet left h)
  · obtain ⟨packet, left, hfrom, -⟩ | ⟨herr, -⟩ := readStreamPacketFrom_cases stream maxPayload
    · exact .inl ⟨packet, by rw [hfrom]⟩
    · exact .inr herr
  · have hbit : raw.getD 0 0 &&& 0x80 ≠ 0 := by
      have hs := MediaPacketHeader.serialize_of_deserialize hd
      have hhigh := MediaPacketHeader.high_bit_of_serialize hs []
      rwa [List.append_nil, bne_iff_ne] at hhigh
    have hbad' : ¬ header.isConfig ∨ header.size.toNat > min maxPayload maxConfigPayload := by
      simpa using hbad
    refine ⟨?_, ?_⟩
    · simp only [readStreamPacketFrom, readExactFrom, hraw, if_neg hbit, hd, if_pos hbad']
    · unfold readExact at hraw
      split_ifs at hraw
      cases hraw
      rfl

/-- A config of two MiB is refused with its payload still on the stream. -/
theorem readStreamPacket_refines_oversize :
    (readStreamPacketFrom ([0xc0, 0, 0, 0, 0, 0, 0, 0, 0, 0x20, 0, 0] ++ [7, 8])
      maxVideoPayload).2 =
      [7, 8] :=
  ((readStreamPacket_refines _ _).2.2 [0xc0, 0, 0, 0, 0, 0, 0, 0, 0, 0x20, 0, 0] [7, 8]
    ⟨true, false, 0, 2097152⟩ rfl (by decide) (.inr (by decide))).1

end Stream

end Kymux.Fec
