import Kymux.Driver.VideoHonest

namespace Kymux.Driver

open Av BigEndian

variable {calls : List Call} {i : ℕ}

/-- A datagram of audio is one of video without the number of the group: a packet is cut as for
datagrams of video that are longer by that number. -/
def Call.widened (c : Call) : Call :=
  { c with env := { c.env with maxDatagramSize := c.env.maxDatagramSize.map (· + 4) } }

namespace SendDriver

/-- The senders of audio number the packets, and have no groups. -/
structure IsAudio (D : SendDriver) : Prop where
  codecSeqs : D.codecSeqs = encode 4 0
  seqs : D.seqs = audioSeqs
  nextGroup : D.nextGroup = id
  numbered : D.Numbered
  datagrams : ∀ s packet env op, .ok op ∈ D.datagrams s packet env → ∃ bytes,
    op = .sendDatagram bytes

namespace IsAudio

variable {D : SendDriver} {s : Sender}

theorem send_next (hD : D.IsAudio) {c : Call} (hc : isCodec c.packet = false)
    (hok : (D.send s c.packet c.env).1 = .ok ()) :
    (D.send s c.packet c.env).2.1 = { s with kypacketSeq := s.kypacketSeq + 1 } := by
  obtain ⟨packet, env⟩ := c
  cases packet with
  | codec packet => cases hc
  | hole packet => simp [send] at hok
  | media packet =>
    simp only [send, sendMedia] at hok ⊢
    split at hok
    · simp only [hD.nextGroup, id_eq, ite_self]
    · cases hok

/-- As long as all succeeds, each call finds the number that its place gives. -/
theorem sendAll_get (hD : D.IsAudio) (hmedia : ∀ c ∈ calls, isCodec c.packet = false)
    (hok : ∀ o ∈ D.sendAll s calls, o.result = .ok ()) (i : ℕ) :
    (D.sendAll s calls)[i]? =
      calls[i]?.map (D.sendOne { s with kypacketSeq := s.kypacketSeq + UInt32.ofNat i }) := by
  induction calls generalizing s i with
  | nil => simp [sendAll]
  | cons c cs ih =>
    obtain ⟨hfirst, hall⟩ := sendAll_cons_ok hok
    rw [hall] at hok ⊢
    cases i with
    | zero => simp
    | succ i =>
      rw [List.getElem?_cons_succ, List.getElem?_cons_succ,
        ih (fun d hd ↦ hmedia d (by simp [hd])) (fun o ho ↦ hok o (List.mem_cons_of_mem _ ho)) i,
        hD.send_next (hmedia c (by simp)) hfirst]
      simp only [UInt32.ofNat_add, UInt32.add_assoc, UInt32.add_comm (UInt32.ofNat i)]
      rfl

theorem mem_datagrams (hD : D.IsAudio) (hmedia : ∀ c ∈ calls, isCodec c.packet = false)
    (hok : ∀ o ∈ D.sendAll .start calls, o.result = .ok ()) {o : Outcome} {bytes : Bytes}
    (ho : (D.sendAll .start calls)[i]? = some o) (hbytes : bytes ∈ o.datagrams) :
    ∃ media env, calls[i]? = some ⟨.media media, env⟩ ∧ media.header.isConfig = false ∧
      .ok (.sendDatagram bytes) ∈ D.datagrams ⟨UInt32.ofNat i, 0⟩ media env := by
  have hresult := hok o (List.mem_of_getElem? ho)
  rw [hD.sendAll_get hmedia hok i] at ho
  obtain ⟨⟨packet, env⟩, hcall, rfl⟩ := Option.map_eq_some_iff.mp ho
  have hout := out_of_ok hresult
  obtain ⟨op, hop, hdatagram⟩ := List.mem_filterMap.mp hbytes
  have hmem : Except.ok op ∈ _ := hout ▸ List.mem_map_of_mem hop
  cases op with
  | writeAll | flush => cases hdatagram
  | sendDatagram datagram =>
    cases hdatagram
    cases packet with
    | codec packet => cases hmedia _ (List.mem_of_getElem? hcall)
    | hole packet => cases hmem
    | media media =>
      refine ⟨media, env, hcall, ?_⟩
      cases hc : media.header.isConfig with
      | true =>
        simp only [ops, mediaOps, hc, if_true, configOps] at hmem
        split at hmem <;> simp at hmem
      | false =>
        simp only [ops, mediaOps, hc, Bool.false_eq_true, if_false] at hmem
        refine ⟨rfl, ?_⟩
        simpa [Sender.start] using hmem

end IsAudio

end SendDriver

end Kymux.Driver

namespace Kymux.Audio

open Av BigEndian Driver Governed Plain

variable {calls : List Call} {i : ℕ} {s : Sender} {codec : CodecPacket} {config : MediaPacket}

theorem isAudio_sendDriver : sendDriver.IsAudio where
  codecSeqs := rfl
  seqs := rfl
  nextGroup := rfl
  numbered := DatagramSender.audio.numbered .oneSymbol
  datagrams s packet env op h := by
    obtain ⟨_, _, _, _, -, -, -, -, -, rfl⟩ := mem_plainDatagrams h
    exact ⟨_, rfl⟩

/-- A datagram of the packet at a place is read as a chunk of it with the number of the place. -/
theorem parse_datagram (hmedia : ∀ c ∈ calls, isCodec c.packet = false)
    (hok : ∀ o ∈ sendDriver.sendAll .start calls, o.result = .ok ()) {o : Outcome} {bytes : Bytes}
    (ho : (sendDriver.sendAll .start calls)[i]? = some o) (hbytes : bytes ∈ o.datagrams)
    (hshort : ∀ c : Coding (calls.map Call.widened) i, c.pieces.length < 2 ^ 31) :
    ∃ x, Video.OfPacket (calls.map Call.widened) i x ∧ parse bytes = .ok ⟨x, UInt32.ofNat i⟩ := by
  obtain ⟨media, env, hcall, hc, hmem⟩ := isAudio_sendDriver.mem_datagrams hmedia hok ho hbytes
  obtain ⟨maxDatagramSize, header, number, part, hmax, hsize, hs, hpart, -, hop⟩ :=
    mem_plainDatagrams hmem
  let c : Coding (calls.map Call.widened) i :=
    ⟨media, Call.widened ⟨.media media, env⟩ |>.env, maxDatagramSize + 4, header,
      by rw [List.getElem?_map, hcall]; rfl, by simp [Call.widened, hmax], hs, hc⟩
  have hpieces : c.pieces = chunks (maxDatagramSize - datagramHeaderSize)
    (header ++ media.payload).length
      (header ++ media.payload) := by
    have hsizes :
      c.maxDatagramSize - Video.datagramHeaderSize = maxDatagramSize - datagramHeaderSize :=
      Nat.add_sub_add_right maxDatagramSize 4 10
    rw [Coding.pieces, hsizes]
    rfl
  rw [← hpieces] at hpart hop
  have hnumber : number < c.pieces.length := (List.getElem?_eq_some_iff.mp hpart).1
  refine ⟨⟨number, decide (number + 1 = c.pieces.length), part⟩,
    ⟨c, Nat.add_lt_add_right hsize 4, hpart, decide_eq_true_iff⟩, ?_⟩
  have hbytes' : bytes = encode 2 env.endpointId.toNat ++ (encode 4 (UInt32.ofNat i).toNat ++
      (encode 4 (datagramNumberAndEnd number (number + 1 = c.pieces.length)).toNat ++ part)) := by
    rw [Op.sendDatagram.inj hop, audioSeqs]
    simp only [List.append_assoc]
  have hlen : datagramHeaderSize ≤ bytes.length := by
    rw [hbytes']
    simp [datagramHeaderSize]
    omega
  have hchunk := parseChunk_encode (hnumber.trans (hshort c))
    (decide (number + 1 = c.pieces.length)) part
  have hdrop : bytes.drop 6 =
      encode 4 (datagramNumberAndEnd number (number + 1 = c.pieces.length)).toNat ++ part := by
    rw [hbytes', show 6 = 2 + 4 from rfl, ← List.drop_drop, List.drop_left' (length_encode 2 _),
      List.drop_left' (length_encode 4 _)]
  simp only [parse, assert, hlen, decide_true, if_true, bind, Except.bind, pure, Except.pure, hdrop,
    hchunk]
  rw [hbytes', first_word]

variable {media : List Call} {env₀ env₁ : Env}

def codecRecord (codec : CodecPacket) : Bytes := encode 4 0 ++ codec.header.serialize

def configRecord (header : Bytes) (config : MediaPacket) : Bytes :=
  encode 4 0 ++ header ++ config.payload

end Kymux.Audio
