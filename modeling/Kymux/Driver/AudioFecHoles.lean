import Kymux.Driver.AudioFecOrder

namespace Kymux.AudioFec

open Av BigEndian Driver EventLoop Fec Timed

variable {rq : RaptorQ} {s s' : State rq} {stats : ProtocolStats} {tr fs : List Forwarded} {now : ℕ}
  {codec : CodecPacket} {outcomes : List Outcome} {stream rest configRecord : Bytes}

def Forwarded.gap (f : Forwarded) : ℕ := f.kypacketSeq - f.expected

def Forwarded.toClient (frameSize : UInt16) (f : Forwarded) : List AVPacket :=
  (if f.expected < f.kypacketSeq then
    [.hole ⟨⟨AudioState.missingAudioSamples f.gap frameSize⟩⟩] else []) ++ [f.packet]

def isHole : AVPacket → Bool
  | .hole _ => true
  | _ => false

def holeSamples : AVPacket → Option ℕ
  | .hole packet => some packet.header.missingAudioSamples.toNat
  | _ => none

theorem missingAudioSamples_toNat (missing : ℕ) (frameSize : UInt16) :
    (AudioState.missingAudioSamples missing frameSize).toNat =
      min (frameSize.toNat * missing) (2 ^ 32 - 1) := by
  rw [AudioState.missingAudioSamples, UInt32.toNat_ofNat', Nat.mul_comm missing]
  omega

theorem deserialize_hole {header : HolePacketHeader} (h : 1 ≤ header.missingAudioSamples.toNat) :
    HolePacketHeader.deserialize header.serialize = .ok header := by
  have htake : header.serialize.take 4 = List.replicate 4 0 := rfl
  have hsamples : (header.serialize.drop 4).take 4 = encode 4 header.missingAudioSamples.toNat :=
    rfl
  have hvalue : UInt32.ofNat (decode ((header.serialize.drop 4).take 4)) =
      header.missingAudioSamples := by
    rw [hsamples, decode_encode_seq, UInt32.ofNat_toNat]
  have hlen : header.serialize.length = serializedSize := by
    simp [HolePacketHeader.serialize, serializedSize]
  have hpos : 0 < header.missingAudioSamples := UInt32.lt_iff_toNat_lt.mpr h
  unfold HolePacketHeader.deserialize assert
  rw [if_pos (by simp [hlen]), htake, if_pos (by simp), hvalue]
  simp only [bind, Except.bind, pure, Except.pure, hpos, decide_true, if_true]

section Client

variable {frameSize : UInt16}

theorem isChain_client (hmedia : ∀ f ∈ tr, isMedia f.packet = true) :
    (tr.flatMap (Forwarded.toClient frameSize)).IsChain
      (fun a b ↦ isHole a → isHole b = false) := by
  induction tr with
  | nil => exact .nil
  | cons f tr ih =>
    have hf : isHole f.packet = false := by
      have := hmedia f (by simp)
      cases hp : f.packet <;> simp_all [isHole]
    have htail := ih (fun g hg ↦ hmedia g (by simp [hg]))
    have hpacket : ([f.packet] ++ tr.flatMap (Forwarded.toClient frameSize)).IsChain
        (fun a b ↦ isHole a → isHole b = false) :=
      htail.cons (fun b _ ha ↦ by rw [hf] at ha; cases ha)
    rw [List.flatMap_cons, Forwarded.toClient, List.append_assoc]
    split_ifs
    · refine hpacket.cons (fun b hb _ ↦ ?_)
      obtain rfl : f.packet = b := by simpa using hb
      exact hf
    · exact hpacket

theorem sum_holeSamples (hmedia : ∀ f ∈ tr, isMedia f.packet = true)
    (hfits : ∀ f ∈ tr, frameSize.toNat * f.gap < 2 ^ 32) :
    ((tr.flatMap (Forwarded.toClient frameSize)).filterMap holeSamples).sum =
      frameSize.toNat * (tr.map Forwarded.gap).sum := by
  induction tr with
  | nil => simp
  | cons f tr ih =>
    have hf : [f.packet].filterMap holeSamples = [] := by
      have := hmedia f (by simp)
      cases hp : f.packet <;> simp_all [holeSamples]
    have htail := ih (fun g hg ↦ hmedia g (by simp [hg])) (fun g hg ↦ hfits g (by simp [hg]))
    have hfit := hfits f (by simp)
    rw [List.flatMap_cons, List.filterMap_append, List.sum_append, htail, List.map_cons,
      List.sum_cons, Nat.mul_add, Forwarded.toClient, List.filterMap_append, hf, List.append_nil]
    split_ifs with hgt
    · simp only [List.filterMap_cons, holeSamples, List.filterMap_nil, List.sum_singleton,
        missingAudioSamples_toNat]
      omega
    · simp [Forwarded.gap, Nat.sub_eq_zero_of_le (not_lt.mp hgt)]

end Client

theorem number_of_lt {P : Type} {s : AudioState P} (raw : UInt32)
    (hs : s.kypacketSequencer.newestSeq < 2 ^ 31) (hraw : raw.toNat < 2 ^ 31) :
    (s.number raw).kypacketSeq = raw.toNat ∧
      (s.number raw).kypacketSequencer.newestSeq < 2 ^ 31 :=
  Sequencer.seq_of_lt (by decide) hs hraw

/-- What the receiver gets to see of a sender that sends a codec packet, a config and then
media packets. -/
structure Announced (codec : CodecPacket) (outcomes : List Outcome) (configRecord : Bytes) :
    Prop where
  written : written outcomes = encode 4 0 ++ (codec.header.serialize ++ configRecord)
  config : ∀ msg rest, recvStreamPacket configRecord = .ok (msg, rest) →
    rest = [] ∧ msg.packet.isCodec = false ∧ msg.rawKypacketSeq = 0
  datagrams : ∀ bytes ∈ sentDatagrams outcomes, ∃ k, 1 ≤ k ∧ k < 2 ^ 31 ∧
    decode ((bytes.drop 2).take 4) = k

theorem recvStreamPacket_append {stream : Bytes} :
    recvStreamPacket (encode 4 0 ++ stream) =
      (readStreamPacket stream maxAudioPayload).map (fun r ↦ (⟨r.1, 0⟩, r.2)) := by
  simp only [recvStreamPacket, readExact_append (length_encode 4 0), bind, Except.bind]
  cases readStreamPacket stream maxAudioPayload with
  | error e => rfl
  | ok r => rfl

theorem announced {config : MediaPacket} {env₀ env₁ : Env} {media : List Call}
    (houtcomes : outcomes = (sendDriver rq).sendAll .start
      (⟨.codec codec, env₀⟩ :: ⟨.media config, env₁⟩ :: media))
    (hconfig : config.header.isConfig = true)
    (hsize : config.header.size.toNat = config.payload.length)
    (hmedia : ∀ c ∈ media, isCodec c.packet = false ∧ c.packet.isConfig = false)
    (hlen : media.length + 2 < 2 ^ 31) (hok : ∀ o ∈ outcomes, o.result = .ok ()) :
    ∃ configRecord, Announced codec outcomes configRecord := by
  have hD : (sendDriver rq).Numbered := DatagramSender.audioFec.numbered rq
  subst houtcomes
  obtain ⟨hfirst, hall⟩ := sendAll_cons_ok hok
  rw [send_codec] at hall
  rw [hall] at hok
  obtain ⟨hsecond, hall'⟩ := sendAll_cons_ok (fun o ho ↦ hok o (List.mem_cons_of_mem _ ho))
  rw [hall'] at hok hall
  have hseq := hD.kypacketSeq_send .start ⟨.media config, env₁⟩
  rw [advances_of_ok rfl hsecond] at hseq
  obtain ⟨hrecords, hdatagrams⟩ := sentDatagrams_media (n := 1) hD
    (fun _ _ _ _ ↦ record_fecDatagrams) hmedia
    (fun o ho ↦ hok o (List.mem_cons_of_mem _ (List.mem_cons_of_mem _ ho))) hseq (by omega)
  obtain ⟨header, hheader, hconfigOut⟩ := out_of_config hsecond hconfig
  have hcodecOut := out_of_codec hfirst
  refine ⟨encode 4 0 ++ (header ++ (config.payload ++ [])), ?_, ?_, ?_⟩
  · rw [hall, written, List.flatMap_cons, List.flatMap_cons, hrecords]
    simp only [Outcome.records, hcodecOut, hconfigOut, List.filterMap_cons, List.filterMap_nil,
      Op.record, List.flatten_append, List.flatten_cons, List.flatten_nil, List.append_nil,
      List.append_assoc]
    rfl
  · intro msg rest hread
    rw [recvStreamPacket_append, readStreamPacket_config hheader hconfig hsize] at hread
    split at hread
    · cases hread
      exact ⟨rfl, rfl, rfl⟩
    · cases hread
  · intro bytes hbytes
    rw [hall, sentDatagrams, List.flatMap_cons, List.flatMap_cons, Outcome.datagrams,
      Outcome.datagrams, hcodecOut, hconfigOut] at hbytes
    obtain ⟨k, hle, hlt, hk⟩ := hdatagrams bytes hbytes
    exact ⟨k, hle, by omega, hk⟩

theorem parse_ok {bytes : Bytes} {msg : AudioDatagramMsg Symbol} (h : parse bytes = .ok msg) :
    msg.rawKypacketSeq = readU32 ((bytes.drop 2).take 4) := by
  unfold parse at h
  cases hp : parseDatagram bytes datagramHeaderSize maxAudioPayload with
  | error e => rw [hp] at h; cases h
  | ok out => rw [hp] at h; cases h; rfl

structure Accounted (codec : CodecPacket) (configRecord : Bytes) (stats : ProtocolStats)
    (stream : Bytes) (s : State rq) (tr : List Forwarded) : Prop where
  inOrder : InOrder s tr
  stream : stream = encode 4 0 ++ (codec.header.serialize ++ configRecord) ∧ s.frameSize = none ∨
    stream = configRecord ∨ stream = []
  newest : s.kypacketSequencer.newestSeq < 2 ^ 31
  ready : ∀ c, s.pendingGroup.configPacket = .ready c → c.kypacketSeq = 0
  positive : ∀ d ∈ s.pendingGroup.datagrams, 1 ≤ d.kypacketSeq
  client : s.frameSize = none ∧ tr = [] ∧ s.txClient = [] ∨
    s.frameSize = some codec.header.frameSize ∧ codec.header.frameSize ≠ 0 ∧
      s.txClient = .codec codec :: tr.flatMap (Forwarded.toClient codec.header.frameSize)
  dropped : s.protocolStats.droppedPackets.getD 0 =
    stats.droppedPackets.getD 0 + (tr.map Forwarded.gap).sum
  covered : tr.length + (tr.map Forwarded.gap).sum = s.nextKypacketSeq

namespace Accounted

theorem start (hA : Announced codec outcomes configRecord) :
    Accounted codec configRecord stats (written outcomes) (.start .new stats : State rq) [] where
  inOrder := .start
  stream := .inl ⟨hA.written, rfl⟩
  newest := Nat.two_pow_pos 31
  ready _ hc := by cases hc
  positive := by simp [AudioState.start, Pending.new]
  client := .inl ⟨rfl, rfl, rfl⟩
  dropped := rfl
  covered := rfl

theorem stream_selected {msg : AudioStreamMsg} {clock : ℕ} {b : Bool}
    (h : Accounted codec configRecord stats stream s tr)
    (hc : msg.packet.isCodec = false) (hraw : msg.rawKypacketSeq = 0)
    (hrest : rest = configRecord ∨ rest = [])
    (hsel : State.Selected s (.message (.ok (.stream msg)) clock) s' b) :
    Accounted codec configRecord stats rest s' tr := by
  have hin := h.inOrder.selected hsel
  cases hsel with
  | codec => cases hc
  | lateStream _ hn _ =>
    obtain ⟨-, hnewest⟩ := number_of_lt msg.rawKypacketSeq h.newest (by rw [hraw]; decide)
    rw [← hn] at hnewest
    exact ⟨hin, .inr hrest, hnewest, h.ready, h.positive, h.client, h.dropped, h.covered⟩
  | stream _ hn _ hstep =>
    obtain ⟨hseq, hnewest⟩ := number_of_lt msg.rawKypacketSeq h.newest
      (by rw [hraw]; decide)
    rw [← hn] at hseq hnewest
    cases hstep with
    | stored =>
      refine ⟨hin, .inr hrest, hnewest, ?_, h.positive, h.client, h.dropped, h.covered⟩
      intro c hready
      cases hready
      exact hseq.trans (by rw [hraw]; rfl)

theorem arrived {a : Arrival Bytes ℕ} (hA : Announced codec outcomes configRecord)
    (h : Accounted codec configRecord stats stream s tr) (hsent : a.Sent outcomes)
    (ha : Arrived stream s a rest s') : Accounted codec configRecord stats rest s' tr := by
  cases ha with
  | timer => exact h
  | record hread hsel =>
    rcases h.stream with ⟨hfull, hframe⟩ | hconfig | hend
    · rw [hfull, recvStreamPacket_append] at hread
      obtain ⟨⟨packet, left⟩, hpacket, hout⟩ := ok_of_map hread
      cases hout
      obtain ⟨rfl, rfl | ⟨media, rfl⟩⟩ := readStreamPacket_codec hpacket
      · have hin := h.inOrder.selected hsel
        obtain ⟨-, rfl, htx⟩ := h.client.resolve_right (fun hr ↦ by simp [hframe] at hr)
        cases hsel with
        | codec hne =>
          refine ⟨hin, .inr (.inl rfl), h.newest, h.ready, h.positive, .inr ⟨rfl, hne, ?_⟩,
            h.dropped, h.covered⟩
          rw [htx]
          rfl
        | lateStream hc | stream hc => cases hc
      · exact h.stream_selected rfl rfl (.inl rfl) hsel
    · rw [hconfig] at hread
      obtain ⟨rfl, hc, hraw⟩ := hA.config _ _ hread
      exact h.stream_selected hc hraw (.inr rfl) hsel
    · rw [hend] at hread
      cases hread
  | @datagram msg bytes _ _ _ hparse hsel =>
    obtain ⟨k, hpos, hlt, hk⟩ := hA.datagrams bytes hsent
    have hraw : msg.rawKypacketSeq.toNat = k := by
      rw [parse_ok hparse, readU32, hk, UInt32.toNat_ofNat']
      omega
    have hin := h.inOrder.selected hsel
    obtain ⟨hseq, hnewest⟩ := number_of_lt msg.rawKypacketSeq h.newest (by omega)
    cases hsel with
    | lateDatagram hn _ =>
      rw [← hn] at hnewest
      exact ⟨hin, h.stream, hnewest, h.ready, h.positive, h.client, h.dropped, h.covered⟩
    | datagram hn _ hins =>
      rw [← hn] at hnewest hseq
      refine ⟨hin, h.stream, hnewest, ?_, ?_, h.client, h.dropped, h.covered⟩
      · intro c hc
        exact h.ready c (hins.configPacket_eq ▸ hc)
      · intro d hd
        rcases hins.datagrams_subset d hd with hd | hd
        · exact h.positive d hd
        · omega

theorem forwards (hv : PendingGroup.Valid s.pendingGroup)
    (h : Accounted codec configRecord stats stream s tr) (hstep : State.Forwards s now fs s') :
    Accounted codec configRecord stats stream s' (tr ++ fs) := by
  -- The config has the number `0`, and no datagram does.
  have hbehind : ∀ f ∈ fs, f.Behind := by
    cases hstep with
    | idle => simp
    | packet hpoll htook hfwd =>
      intro f hf hconfig k hk
      obtain rfl := List.mem_singleton.mp hf
      obtain ⟨d, hd, rfl⟩ := List.mem_map.mp hk
      cases htook with
      | config hc =>
        rw [show (Taken.config _).kypacketSeq = 0 from h.ready _ hc]
        exact h.positive d hd
      | datagram => cases hconfig
  have hin := h.inOrder.forwards hv hstep hbehind
  cases hstep with
  | idle =>
    rw [List.append_nil] at hin ⊢
    exact ⟨hin, h.stream, h.newest, h.ready, h.positive, h.client, h.dropped, h.covered⟩
  | @packet c taken p _ hpoll htook hfwd =>
    have hge : s.nextKypacketSeq ≤ taken.kypacketSeq :=
      hin.expected _ (List.mem_append_right _ (List.mem_singleton_self _))
    have hready : ∀ c, p.configPacket = .ready c → c.kypacketSeq = 0 := by
      cases htook with
      | config => intro c hc; cases hc
      | datagram => exact h.ready
    have hpositive : ∀ d ∈ p.datagrams, 1 ≤ d.kypacketSeq := by
      cases htook with
      | config => exact h.positive
      | datagram _ hd => exact fun d hdm ↦ h.positive d (by simp [hd, hdm])
    have hcovered := h.covered
    unfold AudioState.forward at hfwd
    split at hfwd
    · cases hfwd
    next frameSize hframe =>
    cases hfwd
    obtain ⟨hsome, hne, htx⟩ := h.client.resolve_left (fun hl ↦ by
      rw [show s.frameSize = some frameSize from hframe] at hl; cases hl.1)
    obtain rfl : frameSize = codec.header.frameSize := Option.some.inj (hframe.symm.trans hsome)
    refine ⟨hin, h.stream, h.newest, hready, hpositive, .inr ⟨hsome, hne, ?_⟩, ?_, ?_⟩
    · dsimp only
      rw [htx, List.flatMap_append, List.flatMap_singleton, Forwarded.toClient, List.append_assoc,
        List.cons_append]
      rfl
    · simp only [List.map_append, List.map_cons, List.map_nil, List.sum_append, List.sum_singleton,
        Forwarded.gap]
      split_ifs with hgt
      · rw [ProtocolStats.addDropped, Option.getD_some, h.dropped, Nat.add_assoc]
      · rw [h.dropped]
        omega
    · simp only [List.map_append, List.map_cons, List.map_nil, List.sum_append, List.sum_singleton,
        List.length_append, List.length_singleton, Forwarded.gap]
      omega

end Accounted

/-- Every number below the next expected one was sent to the client or is covered by the one
hole that precedes the next packet, which counts the samples of the packets missing there. -/
theorem holes_accounted (rq : RaptorQ) (stats : ProtocolStats) (codec : CodecPacket)
    (config : MediaPacket) (env₀ env₁ : Env) (media : List Call) (outcomes : List Outcome)
    (houtcomes : outcomes = (sendDriver rq).sendAll .start
      (⟨.codec codec, env₀⟩ :: ⟨.media config, env₁⟩ :: media))
    (hconfig : config.header.isConfig = true)
    (hsize : config.header.size.toNat = config.payload.length)
    (hmedia : ∀ c ∈ media, isCodec c.packet = false ∧ c.packet.isConfig = false)
    (hlen : media.length + 2 < 2 ^ 31) (hok : ∀ o ∈ outcomes, o.result = .ok ())
    (es : List (Event (Arrival Bytes ℕ) ℕ)) (hsent : ∀ e ∈ es, e.input.Sent outcomes)
    (stream : Bytes) (s : State rq) (tr : List Forwarded)
    (h : (traced rq).At ((written outcomes, .start .new stats), []) es ((stream, s), tr)) :
    (s.txClient.filter isMedia).length + s.protocolStats.droppedPackets.getD 0 =
      s.nextKypacketSeq + stats.droppedPackets.getD 0 ∧
    (s.txClient = [] ∧ tr = [] ∨ s.txClient = .codec codec :: tr.flatMap (fun f ↦
      (if f.expected < f.kypacketSeq then [.hole ⟨⟨AudioState.missingAudioSamples
        (f.kypacketSeq - f.expected) codec.header.frameSize⟩⟩] else []) ++ [f.packet])) ∧
    s.txClient.IsChain (fun a b ↦ isHole a → isHole b = false) ∧
    (∀ f ∈ tr, f.expected < f.kypacketSeq → ∀ samples, samples = AudioState.missingAudioSamples
      (f.kypacketSeq - f.expected) codec.header.frameSize →
      samples.toNat = min (codec.header.frameSize.toNat * (f.kypacketSeq - f.expected))
      (2 ^ 32 - 1) ∧
      1 ≤ samples.toNat ∧
      HolePacketHeader.deserialize (HolePacketHeader.serialize ⟨samples⟩) = .ok ⟨samples⟩) ∧
    ((∀ f ∈ tr, codec.header.frameSize.toNat * (f.kypacketSeq - f.expected) < 2 ^ 32) →
      (s.txClient.filterMap holeSamples).sum +
        codec.header.frameSize.toNat * stats.droppedPackets.getD 0 =
      codec.header.frameSize.toNat * s.protocolStats.droppedPackets.getD 0) := by
  obtain ⟨configRecord, hA⟩ := announced houtcomes hconfig hsize hmedia hlen hok
  have hacc : Accounted codec configRecord stats stream s tr := by
    refine traced_induction (P := fun es stream s tr ↦ (∀ e ∈ es, e.input.Sent outcomes) →
      Accounted codec configRecord stats stream s tr) ?_ ?_ ?_ h hsent
    · exact fun _ ↦ .start hA
    · exact fun pre e _ _ _ _ _ _ hP ha hs ↦ (hP (fun e he ↦ hs e (by simp [he]))).arrived hA
        (hs e (by simp)) ha
    · exact fun _ _ _ _ _ _ _ hv hP hstep hs ↦ (hP hs).forwards hv hstep
  have hpackets : ∀ f ∈ tr, isMedia f.packet = true := by
    intro f hf
    have hmem : f.packet ∈ s.txClient.filter isMedia :=
      hacc.inOrder.client ▸ List.mem_map_of_mem hf
    exact (List.mem_filter.mp hmem).2
  refine ⟨?_, ?_, ?_, ?_, ?_⟩
  · rw [hacc.inOrder.client, List.length_map, hacc.dropped, ← hacc.covered]
    omega
  · exact hacc.client.imp (fun hc ↦ ⟨hc.2.2, hc.2.1⟩) (fun hc ↦ hc.2.2)
  · rcases hacc.client with ⟨-, -, htx⟩ | ⟨-, -, htx⟩
    · rw [htx]
      exact .nil
    · rw [htx]
      exact (isChain_client hpackets).cons (fun b _ hhole ↦ by cases hhole)
  · rintro f hf hgt samples rfl
    obtain ⟨-, hne, -⟩ := hacc.client.resolve_left (fun hc ↦ by simp [hc.2.1] at hf)
    have hpos : 1 ≤ codec.header.frameSize.toNat * (f.kypacketSeq - f.expected) :=
      Nat.mul_pos (Nat.pos_of_ne_zero fun h0 ↦ hne (UInt16.toNat_inj.mp h0)) (by omega)
    have hsamples := missingAudioSamples_toNat (f.kypacketSeq - f.expected) codec.header.frameSize
    have hle : 1 ≤ (AudioState.missingAudioSamples (f.kypacketSeq - f.expected)
        codec.header.frameSize).toNat := by omega
    exact ⟨hsamples, hle, deserialize_hole hle⟩
  · intro hfits
    rw [hacc.dropped, Nat.mul_add]
    rcases hacc.client with ⟨-, rfl, htx⟩ | ⟨-, -, htx⟩
    · simp [htx]
    · rw [htx, List.filterMap_cons_none rfl, sum_holeSamples hpackets hfits, Nat.add_comm]

section Small

open VideoFec (noStats smallConfig smallMedia)

def lossyArrivals (records : ℕ) (outcomes : List Outcome) : List (Event (Arrival Bytes ℕ) ℕ) :=
  List.replicate records ⟨.record 0, fun _ ↦ 0⟩ ++
    [⟨.datagram ((sentDatagrams outcomes).getLastD []) 0, fun _ ↦ 0⟩,
      ⟨.timer, fun _ ↦ maxBuffering⟩]

theorem holes_accounted_one_missing : ∃ stream s tr,
    (traced .oneSymbol).At
    ((written (smallOutcomes [smallCodec, smallConfig, smallMedia, smallMedia]),
      .start .new noStats), [])
      (lossyArrivals 2 (smallOutcomes [smallCodec, smallConfig, smallMedia, smallMedia]))
      ((stream, s), tr) ∧
    tr.map (fun f ↦ (f.kypacketSeq, f.expected)) = [(0, 0), (2, 1)] ∧
    s.txClient.filterMap holeSamples = [960] ∧
    (s.txClient.filter isMedia).length + s.protocolStats.droppedPackets.getD 0 =
      s.nextKypacketSeq + 0 := by
  obtain ⟨⟨⟨stream, s⟩, tr⟩, hrun, hout⟩ := ok_of_map (show ((traced .oneSymbol).run
    ((written (smallOutcomes [smallCodec, smallConfig, smallMedia, smallMedia]),
      .start .new noStats), [])
    (lossyArrivals 2 (smallOutcomes [smallCodec, smallConfig, smallMedia, smallMedia]))).map
      (fun w ↦ (w.2.map (fun f ↦ (f.kypacketSeq, f.expected)),
        w.1.2.txClient.filterMap holeSamples)) =
      .ok ([(0, 0), (2, 1)], [960]) by decide +kernel)
  simp only [Prod.mk.injEq] at hout
  refine ⟨stream, s, tr, .inl hrun, hout.1, hout.2, ?_⟩
  exact (holes_accounted .oneSymbol noStats ⟨⟨1, 0, 960⟩⟩ ⟨⟨true, false, 0, 0⟩, []⟩ _ _
    ([smallMedia, smallMedia].map (⟨·, 7, some 38, none⟩)) _ rfl rfl rfl (by decide) (by decide)
    (by decide +kernel) _ (by decide +kernel) _ _ _ (.inl hrun)).1

/-- The header of this config says that it is empty. What follows is read as a codec packet. -/
def shortConfig : AVPacket :=
  .media ⟨⟨true, false, 0, 0⟩, encode 4 0 ++ CodecPacketHeader.serialize ⟨1, 0, 480⟩⟩

/-- The hole in the place of one packet is not as long as the frames of the codec packet that
was sent. -/
theorem hole_of_other_codec : ∃ outcomes es stream s tr,
    outcomes = smallOutcomes [smallCodec, shortConfig, smallMedia, smallMedia] ∧
    (∀ o ∈ outcomes, o.result.isOk) ∧ (∀ e ∈ es, e.input.Sent outcomes) ∧
    (traced .oneSymbol).At ((written outcomes, .start .new noStats), []) es ((stream, s), tr) ∧
    tr.map (fun f ↦ (f.kypacketSeq, f.expected)) = [(0, 0), (2, 1)] ∧
    s.txClient.filterMap holeSamples = [480] := by
  obtain ⟨⟨⟨stream, s⟩, tr⟩, hrun, hout⟩ := ok_of_map (show ((traced .oneSymbol).run
    ((written (smallOutcomes [smallCodec, shortConfig, smallMedia, smallMedia]),
      .start .new noStats), [])
    (lossyArrivals 3 (smallOutcomes [smallCodec, shortConfig, smallMedia, smallMedia]))).map
      (fun w ↦ (w.2.map (fun f ↦ (f.kypacketSeq, f.expected)),
        w.1.2.txClient.filterMap holeSamples)) =
      .ok ([(0, 0), (2, 1)], [480]) by decide +kernel)
  simp only [Prod.mk.injEq] at hout
  exact ⟨_, lossyArrivals 3 _, stream, s, tr, rfl, by decide +kernel, by decide +kernel, .inl hrun,
    hout.1, hout.2⟩

end Small

end Kymux.AudioFec
