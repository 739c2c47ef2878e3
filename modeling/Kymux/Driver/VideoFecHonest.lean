import Kymux.Driver.HonestArrivals
import Kymux.Driver.VideoFecTrace
import Kymux.FecObject

namespace Kymux.Driver.Coding

variable {calls : List Call} {i : ℕ}

def mtu (c : Coding calls i) : UInt16 :=
  UInt16.ofNat (c.maxDatagramSize - VideoFec.datagramHeaderSize)

def oti (rq : RaptorQ) (c : Coding calls i) : Oti := rq.config c.data c.mtu

def symbols (rq : RaptorQ) (c : Coding calls i) : List EncodingPacket :=
  rq.encodedPackets c.data c.mtu (repairSymbols (divCeil c.data.length (c.oti rq).symbolSize.toNat))

/-- What is put together from all of a packet is the packet, if its header tells its length. -/
theorem mediaPacket (c : Coding calls i) :
    Fec.mediaPacket c.data =
      if c.media.header.size.toNat = c.media.payload.length then .ok (.media c.media)
      else .error (Fec.invalid "reconstructed media type or length mismatch") :=
  Fec.mediaPacket_serialized c.serialized c.isMedia

end Kymux.Driver.Coding

namespace Kymux.VideoFec

open Av BigEndian Driver EventLoop Fec Governed

variable {rq : RaptorQ} {calls : List Call} {i : ℕ}

def OfPacket (rq : RaptorQ) (calls : List Call) (i : ℕ) (x : Symbol) : Prop :=
  ∃ c : Coding calls i, x.oti = c.oti rq ∧ x.packet ∈ c.symbols rq

def genuine (rq : RaptorQ) (calls : List Call) (i : ℕ) (parts : Parts rq) : Prop :=
  ∃ (c : Coding calls i) (symbols : List EncodingPacket), parts.decoder.oti = c.oti rq ∧
    (∀ q ∈ symbols, q ∈ c.symbols rq) ∧
    parts.decoder.decoder = rq.feed (rq.newDecoder (c.oti rq)) symbols

theorem genuine_new {x : Symbol} {created : ℕ} {parts : Parts rq} (hx : OfPacket rq calls i x)
    (h : Parts.new x.oti created = .ok parts) : genuine rq calls i parts := by
  obtain ⟨c, hoti, -⟩ := hx
  obtain ⟨-, hnew, -, hdecoder⟩ := ObjectDecoder.new_ok (Parts.new_ok h).1
  exact ⟨c, [], hnew.trans hoti, by simp, by rw [hdecoder, hoti]; rfl⟩

/-- A symbol of the packet may complete it, and nothing else comes out. -/
theorem genuine_addPacket (hrq : rq.Genuine) {x : Symbol} {parts parts' : Parts rq}
    (hx : OfPacket rq calls i x) (hparts : genuine rq calls i parts)
    (h : parts.addPacket x = .ok parts') :
    genuine rq calls i parts' ∧ ∃ c : Coding calls i, ∀ out, parts'.assembled = some out →
    out = c.data := by
  obtain ⟨c, symbols, hoti, hsymbols, hfed⟩ := hparts
  obtain ⟨c', -, hmem⟩ := hx
  obtain rfl := c.unique c'
  obtain ⟨-, hsame, ⟨-, hout, hd⟩ | ⟨-, -, hdecode⟩⟩ :=
    ObjectDecoder.decode_ok (Parts.addPacket_ok h).1
  · refine ⟨⟨c, symbols, hsame.trans hoti, hsymbols, hd ▸ hfed⟩, c, fun out hsome ↦ ?_⟩
    rw [hout] at hsome
    cases hsome
  · have hall : ∀ q ∈ symbols ++ [x.packet], q ∈ c.symbols rq := by
      simpa [or_imp, forall_and] using And.intro hsymbols hmem
    rw [hfed] at hdecode
    refine ⟨⟨c, symbols ++ [x.packet], hsame.trans hoti, hall, ?_⟩, c, fun out hsome ↦ ?_⟩
    · rw [RaptorQ.feed_snoc]
      exact (congrArg Prod.fst hdecode).symm
    · exact hrq c.data c.mtu _ symbols x.packet hall out ((congrArg Prod.snd hdecode).trans hsome)

/-- Symbols of the packet at a place go together with those that wait there. -/
theorem honest_admits (hrq : rq.Genuine) {x : Symbol} {next : ℕ} {is : List ℕ}
    (hx : OfPacket rq calls i x) (hge : next ≤ i) :
    PendingGroups.Admits (honest (packets calls) (genuine rq calls) next is)
      (groupOf (packets calls) i) i x := by
  have hplaced : Placed (packets calls) false (groupOf (packets calls) i) i := by
    obtain ⟨c, -⟩ := hx
    exact c.placed
  have hparts : ∀ parts : Parts rq,
    (honest (α := VideoObject) (packets calls) (genuine rq calls) next
      is).segments (groupOf (packets calls) i) ⟨i, parts⟩ ∨
        (∃ created, Parts.new x.oti created = .ok parts) → genuine rq calls i parts := by
    rintro parts (⟨-, hparts, -⟩ | ⟨created, hnew⟩)
    · exact hparts
    · exact genuine_new hx hnew
  constructor
  · intro parts parts' h hadd _
    exact ⟨hplaced, (genuine_addPacket hrq hx (hparts parts h) hadd).1, hge⟩
  · intro parts parts' object packet assembled h hadd _ hasm
    obtain ⟨-, c, hout⟩ := genuine_addPacket hrq hx (hparts parts h) hadd
    obtain ⟨-, data, hdata, hmedia⟩ := Parts.assemble_ok hasm
    rw [hout data hdata, c.mediaPacket] at hmedia
    split_ifs at hmedia
    cases hmedia
    exact ⟨hplaced, c.get, hge⟩

theorem isVideo_sendDriver (rq : RaptorQ) : (sendDriver rq).IsVideo where
  seqs := rfl
  nextGroup := rfl
  datagrams s packet env op h := by
    obtain ⟨_, _, _, -, -, -, -, -, rfl⟩ := mem_fecDatagrams h
    exact ⟨_, rfl⟩

theorem coding_of_media (h : Succeeds (sendDriver rq) calls) (hi : i < (packets calls).length)
    (hc : configAt AVPacket.isConfig (packets calls) i = false) : Nonempty (Coding calls i) := by
  have hlt : i < ((sendDriver rq).sendAll .start calls).length := by
    rw [h.length (isVideo_sendDriver rq)]
    simpa [packets] using hi
  obtain ⟨media, env, hcall, hpacket, hout⟩ :=
    h.sent (isVideo_sendDriver rq) (List.getElem?_eq_getElem hlt)
  rw [configAt, hpacket, Option.any_some] at hc
  have hmedia : media.header.isConfig = false := hc
  rw [hmedia, if_neg (by decide)] at hout
  obtain ⟨maxDatagramSize, header, hmax, hs⟩ := coded_of_fecDatagrams hout
  exact ⟨⟨media, env, maxDatagramSize, header, hcall, hmax, hs, hmedia⟩⟩

/-- A record of the stream is read back as its config, unless that is too long. -/
theorem recvStreamPacket_recordOf (h : Succeeds (sendDriver rq) calls)
    (hsized : Sized (packets calls)) (hc : configAt AVPacket.isConfig (packets calls) i = true)
    (rest : Bytes) :
    ∃ media, (packets calls)[i]? = some (.media media) ∧ media.header.isConfig = true ∧
      recvStreamPacket (recordOf (packets calls) i ++ rest) =
        if media.payload.length ≤ min maxVideoPayload maxConfigPayload then
          .ok (⟨.media media, UInt32.ofNat i, UInt32.ofNat (groupOf (packets calls) i)⟩, rest)
        else .error (invalid "invalid reliable config type or length") := by
  obtain ⟨media, header, hpacket, hconfig, hs, hrecord⟩ :=
    h.recordOf_config (isVideo_sendDriver rq) hc
  have hsize := hsized media (List.mem_of_getElem? hpacket) hconfig
  have hseqs : (videoSeqs (senderOf (packets calls) i)).length = 8 := rfl
  refine ⟨media, hpacket, hconfig, ?_⟩
  have hwords : readU32 ((videoSeqs (senderOf (packets calls) i)).take 4) = UInt32.ofNat i ∧
      readU32 ((videoSeqs (senderOf (packets calls) i)).drop 4) =
        UInt32.ofNat (groupOf (packets calls) i) :=
    ⟨readU32_encode _, readU32_encode _⟩
  rw [hrecord, List.append_assoc, List.append_assoc]
  simp only [recvStreamPacket, readExact_append hseqs, bind, Except.bind,
    readStreamPacket_config hs hconfig hsize, hwords]
  split_ifs <;> rfl

theorem recvStreamPacket_record (h : Succeeds (sendDriver rq) calls)
    (hsized : Sized (packets calls)) (hc : configAt AVPacket.isConfig (packets calls) i = true)
    {rest : Bytes} {out : StreamMsg × Bytes}
    (hr : recvStreamPacket (recordOf (packets calls) i ++ rest) = .ok out) :
    ∃ packet, (packets calls)[i]? = some packet ∧ packet.isConfig = true ∧
      out = (⟨packet, UInt32.ofNat i, UInt32.ofNat (groupOf (packets calls) i)⟩, rest) := by
  obtain ⟨media, hpacket, hconfig, hread⟩ := recvStreamPacket_recordOf h hsized hc rest
  rw [hread] at hr
  split_ifs at hr
  cases hr
  exact ⟨.media media, hpacket, hconfig, rfl⟩

/-- A datagram of the packet at a place is read as a symbol of it with the numbers of the place. -/
theorem parse_datagram (h : Succeeds (sendDriver rq) calls) {o : Outcome} {bytes : Bytes}
    {msg : DatagramMsg Symbol} (ho : ((sendDriver rq).sendAll .start calls)[i]? = some o)
    (hbytes : bytes ∈ o.datagrams) (hparse : parse bytes = .ok msg) :
    msg.rawKypacketSeq = UInt32.ofNat i ∧
    msg.rawGroupSeq = UInt32.ofNat (groupOf (packets calls) i) ∧
      OfPacket rq calls i msg.content := by
  obtain ⟨media, env, hcall, hc, hmem⟩ := h.datagram (isVideo_sendDriver rq) ho hbytes
  obtain ⟨maxDatagramSize, header, hmax, hs, hseqs, hoti, hsymbol⟩ := symbol_of_datagram hmem hparse
  obtain ⟨hk, hg⟩ := Sender.mk.inj hseqs
  exact ⟨hk, hg, ⟨media, env, maxDatagramSize, header, hcall, hmax, hs, hc⟩, hoti, hsymbol⟩

end Kymux.VideoFec
