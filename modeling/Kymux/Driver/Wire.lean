import Kymux.Driver.Receiver
import Kymux.Driver.Sent

namespace Kymux.RaptorQ

theorem feed_oneSymbol (oti : Oti) (packets : List EncodingPacket) :
    oneSymbol.feed oti packets = oti := by
  induction packets with
  | nil => rfl
  | cons p packets ih => exact ih

theorem oneSymbol_genuine : oneSymbol.Genuine := by
  intro data mtu repair packets p hp out hout
  have hmem := hp p (by simp)
  have hlt : (oneSymbolOti data.length mtu).symbolSize.toNat < 2 ^ 40 :=
    (UInt16.toNat_lt _).trans (by decide)
  rw [show oneSymbol.newDecoder (oneSymbol.config data mtu) = oneSymbol.config data mtu from rfl,
    feed_oneSymbol] at hout
  simp only [oneSymbol] at hmem hout
  split_ifs at hmem with hlen
  · obtain ⟨i, -, rfl⟩ := List.mem_map.mp hmem
    rw [transferLength_oneSymbolOti, BitVec.toNat_ofNat, Nat.mod_eq_of_lt (hlen.trans_lt hlt),
      List.take_left] at hout
    exact (Option.some.inj hout).symm
  · cases hmem

end Kymux.RaptorQ

namespace Kymux.Driver

open BigEndian

def Op.record : Op → Option Bytes
  | .writeAll record => some record
  | _ => none

def Outcome.records (o : Outcome) : List Bytes := o.out.filterMap Op.record

def written (outcomes : List Outcome) : Bytes := (outcomes.flatMap Outcome.records).flatten

def Op.datagram : Op → Option Bytes
  | .sendDatagram datagram => some datagram
  | _ => none

def Outcome.datagrams (o : Outcome) : List Bytes := o.out.filterMap Op.datagram

def sentDatagrams (outcomes : List Outcome) : List Bytes := outcomes.flatMap Outcome.datagrams

/-- A datagram that arrives is one that was sent; it may be late, and come often or never. -/
def Arrival.Sent {κ : Type} (outcomes : List Outcome) : Arrival Bytes κ → Prop
  | .datagram bytes _ => bytes ∈ sentDatagrams outcomes
  | _ => True

instance {κ : Type} (outcomes : List Outcome) : (a : Arrival Bytes κ) → Decidable (a.Sent outcomes)
  | .datagram bytes _ => inferInstanceAs (Decidable (bytes ∈ sentDatagrams outcomes))
  | .record _ | .timer => .isTrue trivial

section

variable {D : SendDriver} {s : Sender} {calls : List Call} {c : Call} {o : Outcome}

def SendDriver.ops (D : SendDriver) (s : Sender) (c : Call) : List (Except Fault Op) :=
  match c.packet with
  | .codec packet => [.ok (.writeAll (D.codecSeqs ++ packet.header.serialize)), .ok .flush]
  | .media packet => D.mediaOps s packet c.env
  | .hole _ => []

theorem out_of_ok (h : (D.sendOne s c).result = .ok ()) :
    (D.sendOne s c).out.map .ok = D.ops s c := by
  obtain ⟨packet, env⟩ := c
  cases packet with
  | codec packet =>
    have hdone : (perform env.failAt 0
        [.ok (.writeAll (D.codecSeqs ++ packet.header.serialize)), .ok .flush]).1 = .ok () := h
    exact perform_ok hdone
  | media packet =>
    obtain ⟨hresult, hout⟩ := D.sendMedia_perform s packet env
    have hdone := perform_ok (hresult.symm.trans h)
    rw [← hout] at hdone
    exact hdone
  | hole packet => cases h

theorem out_of_codec {packet : Av.CodecPacket} {env : Env}
    (h : (D.sendOne s ⟨.codec packet, env⟩).result = .ok ()) :
    (D.sendOne s ⟨.codec packet, env⟩).out =
      [.writeAll (D.codecSeqs ++ packet.header.serialize), .flush] := by
  refine (List.map_injective_iff.mpr fun a b hab ↦ Except.ok.inj hab) ((out_of_ok h).trans ?_)
  rfl

theorem out_of_config {packet : Av.MediaPacket} {env : Env}
    (h : (D.sendOne s ⟨.media packet, env⟩).result = .ok ()) (hc : packet.header.isConfig = true) :
    ∃ header, packet.header.serialize = .ok header ∧ (D.sendOne s ⟨.media packet, env⟩).out =
      [.writeAll (D.seqs (D.nextGroup s) ++ header ++ packet.payload), .flush] := by
  have hout := out_of_ok h
  simp only [SendDriver.ops, SendDriver.mediaOps, hc, if_true, SendDriver.configOps] at hout
  cases hs : packet.header.serialize with
  | error e =>
    rw [hs] at hout
    cases hops : (D.sendOne s ⟨.media packet, env⟩).out <;> simp [hops] at hout
  | ok header =>
    rw [hs] at hout
    exact ⟨header, rfl, (List.map_injective_iff.mpr fun a b hab ↦ Except.ok.inj hab) hout⟩

theorem send_codec (D : SendDriver) (s : Sender) (packet : Av.CodecPacket) (env : Env) :
    (D.send s (.codec packet) env).2.1 = s := rfl

theorem advances_of_ok (hc : isCodec c.packet = false) (h : (D.sendOne s c).result = .ok ()) :
    (D.sendOne s c).advances = true := by
  rw [Outcome.advances, h]
  simpa [SendDriver.sendOne, Except.isOk, Except.toBool] using hc

theorem sendAll_cons_ok (h : ∀ o ∈ D.sendAll s (c :: calls), o.result = .ok ()) :
    (D.sendOne s c).result = .ok () ∧
      D.sendAll s (c :: calls) = D.sendOne s c ::
      D.sendAll (D.send s c.packet c.env).2.1 calls := by
  have hfirst : (D.sendOne s c).result = .ok () := h _ (by simp [SendDriver.sendAll])
  refine ⟨hfirst, ?_⟩
  rw [SendDriver.sendAll, Outcome.panics, hfirst]
  simp

/-- Media packets write nothing to the stream, and number their datagrams one after another. -/
theorem sentDatagrams_media (hD : D.Numbered)
    (hdatagrams : ∀ s packet env op, .ok op ∈ D.datagrams s packet env → op.record = none)
    (hmedia : ∀ c ∈ calls, isCodec c.packet = false ∧ c.packet.isConfig = false)
    (hok : ∀ o ∈ D.sendAll s calls, o.result = .ok ()) {n : ℕ}
    (hs : s.kypacketSeq = UInt32.ofNat n) (hn : n + calls.length ≤ 2 ^ 32) :
    (D.sendAll s calls).flatMap Outcome.records = [] ∧
      ∀ bytes ∈ sentDatagrams (D.sendAll s calls),
        ∃ k, n ≤ k ∧ k < n + calls.length ∧ decode ((bytes.drop 2).take 4) = k := by
  induction calls generalizing s n with
  | nil => exact ⟨rfl, by simp [sentDatagrams, SendDriver.sendAll]⟩
  | cons c cs ih =>
    obtain ⟨hc, hconfig⟩ := hmedia c (by simp)
    obtain ⟨hfirst, hall⟩ := sendAll_cons_ok hok
    rw [List.length_cons] at hn
    have hnext : (D.send s c.packet c.env).2.1.kypacketSeq = UInt32.ofNat (n + 1) := by
      rw [hD.kypacketSeq_send, advances_of_ok hc hfirst, hs, UInt32.ofNat_add]
      rfl
    rw [hall] at hok ⊢
    obtain ⟨hrecords, hsent⟩ := ih (fun d hd ↦ hmedia d (by simp [hd]))
      (fun o ho ↦ hok o (List.mem_cons_of_mem _ ho)) hnext (by omega)
    have hout := out_of_ok hfirst
    refine ⟨?_, ?_⟩
    · rw [List.flatMap_cons, hrecords, List.append_nil, Outcome.records, List.filterMap_eq_nil_iff]
      intro op hop
      have hmem : Except.ok op ∈ D.ops s c := hout ▸ List.mem_map_of_mem hop
      obtain ⟨packet, env⟩ := c
      cases packet with
      | codec packet => cases hc
      | hole packet => cases hmem
      | media packet =>
        simp only [SendDriver.ops, SendDriver.mediaOps,
          show packet.header.isConfig = false from hconfig, Bool.false_eq_true, if_false] at hmem
        exact hdatagrams _ _ _ _ hmem
    · intro bytes hbytes
      rw [sentDatagrams, List.flatMap_cons, List.mem_append] at hbytes
      rcases hbytes with hbytes | hbytes
      · obtain ⟨op, hop, hdat⟩ := List.mem_filterMap.mp hbytes
        cases op with
        | writeAll | flush => cases hdat
        | sendDatagram datagram =>
          cases hdat
          have hk := hD.carries hc hop _ rfl
          rw [hs, UInt32.toNat_ofNat', Nat.mod_eq_of_lt (by omega)] at hk
          exact ⟨n, le_rfl, by simp, hk⟩
      · obtain ⟨k, hle, hlt, hk⟩ := hsent bytes hbytes
        exact ⟨k, by omega, by rw [List.length_cons]; omega, hk⟩

end

/-- The sender of a media packet knows the size of a datagram and has made a header. -/
theorem coded_of_fecDatagrams {rq : RaptorQ} {headerSize : ℕ} {seqs : Bytes}
    {packet : Av.MediaPacket} {env : Env} {ops : List Op}
    (h : ops.map .ok = fecDatagrams rq headerSize seqs packet env) :
    ∃ maxDatagramSize header, env.maxDatagramSize = some maxDatagramSize ∧
      packet.header.serialize = .ok header := by
  have herror : ∀ e : Fault, ops.map Except.ok ≠ [Except.error e] := by
    intro e heq
    have hmem : Except.error e ∈ ops.map Except.ok := by simp [heq]
    obtain ⟨_, -, habsurd⟩ := List.mem_map.mp hmem
    cases habsurd
  unfold fecDatagrams at h
  split at h
  · exact absurd h (herror _)
  next maxDatagramSize hmax =>
  split at h
  · exact absurd h (herror _)
  split at h
  · exact absurd h (herror _)
  split at h
  · exact absurd h (herror _)
  next header hs => exact ⟨maxDatagramSize, header, hmax, hs⟩

theorem record_fecDatagrams {rq : RaptorQ} {headerSize : ℕ} {seqs : Bytes} {packet : Av.MediaPacket}
    {env : Env} {op : Op} (h : .ok op ∈ fecDatagrams rq headerSize seqs packet env) :
    op.record = none := by
  obtain ⟨_, _, _, -, -, -, -, -, rfl⟩ := mem_fecDatagrams h
  rfl

end Kymux.Driver

namespace Kymux

open Av BigEndian

namespace Fec

/-- A config whose header tells its length is read back as itself, unless it is too long. -/
theorem readStreamPacket_config {media : MediaPacket} {header : Bytes}
    (hs : media.header.serialize = .ok header) (hconfig : media.header.isConfig = true)
    (hsize : media.header.size.toNat = media.payload.length) (rest : Bytes) (maxPayload : ℕ) :
    readStreamPacket (header ++ (media.payload ++ rest)) maxPayload =
      if media.payload.length ≤ min maxPayload maxConfigPayload then .ok (.media media, rest)
      else .error (invalid "invalid reliable config type or length") := by
  have hlen : header.length = mediaHeader := MediaPacketHeader.length_of_serialize hs
  have hbit := MediaPacketHeader.high_bit_of_serialize hs []
  rw [List.append_nil, bne_iff_ne] at hbit
  simp only [readStreamPacket, readExact_append hlen, bind, Except.bind, hbit, if_false,
    MediaPacketHeader.deserialize_serialize hs, hconfig, not_true_eq_false, false_or, hsize,
    readExact_append rfl, pure, Except.pure, throw, throwThe, MonadExceptOf.throw]
  by_cases hle : media.payload.length ≤ min maxPayload maxConfigPayload
  · rw [if_neg (not_lt.mpr hle), if_pos hle]
  · rw [if_pos (not_le.mp hle), if_neg hle]

/-- A codec header is read back as itself or, if its value has the bit of a media header, as
the header of an empty packet. -/
theorem readStreamPacket_codec {header : CodecPacketHeader} {rest rest' : Bytes} {maxPayload : ℕ}
    {packet : AVPacket}
    (h : readStreamPacket (header.serialize ++ rest) maxPayload = .ok (packet, rest')) :
    rest' = rest ∧ (packet = .codec ⟨header⟩ ∨ ∃ media, packet = .media media) := by
  have hlen : header.serialize.length = mediaHeader := CodecPacketHeader.length_serialize header
  have hbyte : header.serialize.getD 0 0 = UInt8.ofNat (header.codec.toNat / 256 ^ 3) := rfl
  simp only [readStreamPacket, readExact_append hlen, bind, Except.bind] at h
  by_cases hbit : header.serialize.getD 0 0 &&& 0x80 = 0
  · rw [if_pos hbit] at h
    by_cases hzero : header.serialize.take 4 = List.replicate 4 0
    · rw [if_pos hzero] at h
      cases h
    · have htagged : header.Tagged := by
        refine ⟨Nat.pos_of_ne_zero fun hc ↦ hzero ?_, ?_⟩
        · rw [CodecPacketHeader.take_four, hc]
          decide
        · have hhigh := high_bit_iff (header.serialize.getD 0 0)
          rw [hbit, hbyte, UInt8.toNat_ofNat'] at hhigh
          have hlt := header.codec.toNat_lt
          simp only [bne_self_eq_false, false_eq_decide_iff, not_le] at hhigh
          omega
      simp only [if_neg hzero, CodecPacketHeader.deserialize_serialize htagged, pure,
        Except.pure] at h
      cases h
      exact ⟨rfl, .inl rfl⟩
  · rw [if_neg hbit] at h
    cases hd : MediaPacketHeader.deserialize header.serialize with
    | error e => rw [hd] at h; cases h
    | ok media =>
      have hsize : media.size.toNat = 0 := by
        have hdrop : header.serialize.drop 8 = List.replicate 4 0 := rfl
        unfold MediaPacketHeader.deserialize assert at hd
        split at hd
        · split at hd
          · cases hd
            rw [hdrop]
            rfl
          · cases hd
        · cases hd
      simp only [hd, hsize] at h
      split at h
      · cases h
      · cases h
        exact ⟨rfl, .inr ⟨_, rfl⟩⟩

end Fec

end Kymux
