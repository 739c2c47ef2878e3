import Kymux.Driver.AudioFecRun
import Kymux.Driver.Quiescent
import Kymux.Driver.VideoFecOrderly

namespace Kymux.AudioFec.Checked

open Av BigEndian Driver EventLoop Fec
open Fec.Checked (slice Orderly accepted_of_ok)
open VideoFec.Checked (charged charged_eq orderly_inserted slice_ok)

variable {rq : RaptorQ}

def newParts (oti : Oti) : Except Fault (Parts rq) := do
  let decoder ← Fec.Checked.newDecoder oti maxAudioPayload
  return ⟨decoder, none⟩

def addPacket (u : Parts rq) (x : Symbol) : Except Fault (Parts rq) := do
  let (assembled, decoder) ← Fec.Checked.decode u.decoder maxAudioPayload x.oti x.payloadId x.data
  return ⟨decoder, assembled⟩

def assemble (u : Parts rq) : Except Fault (Oti × AVPacket) :=
  match u.assembled with
  | none => .error (invalid "incomplete audio object")
  | some data => do
    let packet ← Fec.Checked.mediaPacket data
    return (u.decoder.oti, packet)

def checkCapacity (p : PendingGroup rq) (additional : ℕ) : Except Fault Unit := do
  let (objects, bytes) ← charged (p.segments.map (fun s ↦ s.parts.decoder.oti))
    (p.datagrams.map (fun d ↦ d.object)) p.configPacket
  Fec.Checked.checkPending objects bytes additional maxAudioPayload

def insertStreamPacket (p : PendingGroup rq) (kypacketSeq : ℕ) (packet : AVPacket) :
    Except Fault Unit × PendingGroup rq :=
  PendingGroup.insertStreamPacketWith checkCapacity p kypacketSeq packet

def reassembly (rq : RaptorQ) : Reassembly Oti (Parts rq) Symbol where
  new p x _ := do
    Fec.Checked.validateOti x.oti maxAudioPayload
    let additional ← Fec.Checked.reservation x.oti
    checkCapacity p additional
    newParts x.oti
  addPacket := addPacket
  isComplete := Parts.isComplete
  assemble := assemble
  again := (PendingGroup.reassembly rq).again

def process (rq : RaptorQ) : Loop (State rq) (Input Msg ℕ) ℕ Fault :=
  { AudioFec.process rq with select := State.selectWith insertStreamPacket (reassembly rq) }

def parse (datagram : Bytes) : Except Fault (AudioDatagramMsg Symbol) := do
  let (data, oti, payloadId) ← Fec.Checked.parseDatagram datagram datagramHeaderSize maxAudioPayload
  let rawKypacketSeq ← slice datagram 2 6
  return ⟨⟨oti, payloadId, data⟩, readU32 rawKypacketSeq⟩

def receiver (rq : RaptorQ) : Loop (Bytes × State rq) (Arrival Bytes ℕ) ℕ Fault :=
  Driver.receiver (process rq) (fecReaders recvStreamPacket parse .stream .datagram)

section Equal

variable {p p' : PendingGroup rq} {u : Parts rq} {x : Symbol} {kypacketSeq created assembled : ℕ}

def accepted (rq : RaptorQ) : Law Oti (Parts rq) where
  ready _ _ := True
  sent _ := True
  segments _ u := validateOti u.parts.decoder.oti maxAudioPayload = .ok ()
  datagram _ d := validateOti d.object maxAudioPayload = .ok ()

structure Fit (p : PendingGroup rq) : Prop where
  valid : PendingGroup.Valid p
  accepted : p.Obeys (accepted rq) 0

theorem maxAudioPayload_fits :
    maxAudioPayload + mediaHeader < 2 ^ Fec.Checked.usizeBits := by decide

theorem newParts_eq (oti : Oti) : newParts oti = (Parts.new oti : Except _ (Parts rq)) := by
  rw [newParts, Fec.Checked.newDecoder_eq maxAudioPayload_fits]
  rfl

theorem addPacket_eq (h : validateOti u.decoder.oti maxAudioPayload = .ok ()) (x : Symbol) :
    addPacket u x = u.addPacket x := by
  rw [addPacket, Fec.Checked.decode_eq h]
  rfl

theorem assemble_eq (u : Parts rq) : assemble u = u.assemble := by
  unfold assemble Parts.assemble
  cases u.assembled with
  | none => rfl
  | some data => simp only [Fec.Checked.mediaPacket_eq]

theorem checkCapacity_usage (p : PendingGroup rq) (additional : ℕ) :
    PendingGroup.checkCapacity p additional =
      checkPending (PendingGroup.usage p).1 (PendingGroup.usage p).2 additional
      maxAudioPayload := by
  unfold PendingGroup.checkCapacity PendingGroup.usage Pending.weight VideoFec.Queue.configUsage
  rw [VideoFec.Queue.sum_charge, VideoFec.Queue.sum_charge]
  split <;> simp_all

theorem checkCapacity_eq (h : Fit p) (additional : ℕ) :
    checkCapacity p additional = PendingGroup.checkCapacity p additional := by
  have husage : PendingGroup.usage p = ((p.segments.map (fun s ↦ s.parts.decoder.oti)).length +
      (p.datagrams.map (fun d ↦ d.object)).length + (VideoFec.Queue.configUsage p.configPacket).1,
      ((p.segments.map (fun s ↦ s.parts.decoder.oti)).map reservation).sum +
        ((p.datagrams.map (fun d ↦ d.object)).map reservation).sum +
          (VideoFec.Queue.configUsage p.configPacket).2) := by
    rw [PendingGroup.usage, Pending.weight, VideoFec.Queue.sum_charge, VideoFec.Queue.sum_charge]
    simp [Prod.ext_iff, Function.comp_def]
  have hheld := PendingGroup.usage_eq h.valid.config
  have hobjects : (PendingGroup.usage p).1 < 2 ^ Fec.Checked.usizeBits := by
    rw [hheld]
    exact lt_of_le_of_lt h.valid.objects (by decide)
  have hbytes : (PendingGroup.usage p).2 < 2 ^ Fec.Checked.usizeBits := by
    rw [hheld]
    exact lt_of_le_of_lt h.valid.bytes (by decide)
  rw [husage] at hobjects hbytes
  rw [checkCapacity_usage, husage, checkCapacity,
    charged_eq (show maxAudioPayload ≤ maxVideoPayload by decide) ?_ ?_ hobjects hbytes]
  · simp only [bind, Except.bind, Fec.Checked.checkPending_eq]
  · intro oti hoti
    obtain ⟨s, hs, rfl⟩ := List.mem_map.mp hoti
    exact accepted_of_ok (h.accepted.segments s hs)
  · intro oti hoti
    obtain ⟨d, hd, rfl⟩ := List.mem_map.mp hoti
    exact accepted_of_ok (h.accepted.datagrams d hd)

theorem insertStreamPacket_eq (h : Fit p) (kypacketSeq : ℕ) (packet : AVPacket) :
    insertStreamPacket p kypacketSeq packet =
      PendingGroup.insertStreamPacket p kypacketSeq packet := by
  unfold insertStreamPacket PendingGroup.insertStreamPacket PendingGroup.insertStreamPacketWith
  cases packet with
  | codec packet | hole packet => rfl
  | media media =>
    dsimp only
    rewrite [checkCapacity_eq h]
    rfl

theorem new_eq (h : Fit p) : (reassembly rq).new p x created =
    (PendingGroup.reassembly rq).new p x created := by
  simp only [reassembly, PendingGroup.reassembly, Fec.Checked.validateOti_eq maxAudioPayload_fits]
  cases hv : validateOti x.oti maxAudioPayload with
  | error e => rfl
  | ok _ =>
    have hreserve := Fec.Checked.reservation_eq (accepted_of_ok hv)
      (show maxAudioPayload ≤ maxVideoPayload by decide)
    simp only [bind, Except.bind, hreserve, checkCapacity_eq h, newParts_eq]

theorem parts_of_new (h : Parts.new x.oti = .ok u) :
    validateOti u.decoder.oti maxAudioPayload = .ok () := by
  obtain ⟨hv, hoti, -⟩ := ObjectDecoder.new_ok (Parts.new_ok h).1
  rw [hoti]
  exact hv

theorem insertDatagram_eq (h : Fit p) (kypacketSeq : ℕ) (x : Symbol) (created assembled : ℕ) :
    p.insertDatagram (reassembly rq) kypacketSeq x created assembled =
      p.insertDatagram (PendingGroup.reassembly rq) kypacketSeq x created assembled := by
  refine Pending.insertDatagram_congr h.valid.ordered _ _ _ _ (new_eq h) rfl rfl ?_
  intro parts hparts
  refine ⟨addPacket_eq ?_ x, fun parts' _ ↦ assemble_eq parts'⟩
  rcases hparts with hmem | hnew
  · exact h.accepted.segments _ hmem
  · exact parts_of_new (PendingGroup.reassembly_new_ok hnew).2

theorem Fit.new : Fit (Pending.new : PendingGroup rq) := ⟨PendingGroup.Valid.new, Pending.Obeys.new⟩

theorem Fit.inserted (h : Fit p)
    (hins : Pending.Inserted (PendingGroup.reassembly rq) p kypacketSeq x
    created assembled (.ok ()) p') : Fit p' := by
  have hkeep : ∀ parts parts' : Parts rq,
    p.Before (Checked.accepted rq) (PendingGroup.reassembly rq) 0
      kypacketSeq x created parts → parts.addPacket x = .ok parts' →
      validateOti parts'.decoder.oti maxAudioPayload = .ok () := by
    intro parts parts' hparts hadd
    rw [Parts.addPacket_oti hadd]
    rcases hparts with ⟨-, hseg⟩ | ⟨-, hnew⟩
    · exact hseg
    · exact parts_of_new (PendingGroup.reassembly_new_ok hnew).2
  refine ⟨h.valid.inserted hins, h.accepted.inserted h.valid.ordered hins rfl (fun _ ↦ id) id
    (fun _ _ ↦ id) (fun _ ↦ id) ?_ ?_⟩
  · exact fun parts parts' hparts hadd _ _ ↦ hkeep parts parts' hparts hadd
  · intro parts parts' object packet hparts hadd _ hasm _
    obtain ⟨rfl, -⟩ := Parts.assemble_ok hasm
    exact hkeep parts parts' hparts hadd

end Equal

section Run

variable {s s' : State rq} {input : Input Msg ℕ} {b : Bool} {now : ℕ}

theorem Fit.selected (h : Fit s.pendingGroup) (hsel : s.select input = .ok (s', b)) :
    Fit s'.pendingGroup := by
  have hv := State.valid_selected h.valid hsel
  cases State.select_selected h.valid.ordered hsel with
  | timer | codec | lateStream | lateDatagram => exact h
  | stream _ _ _ hstep =>
    refine ⟨hv, ?_⟩
    cases hstep with
    | stored _ _ _ _ => exact h.accepted.setConfig trivial
  | datagram _ _ hins => exact h.inserted hins

theorem Fit.drained (h : Fit s.pendingGroup) (hdrain : s.drain now = .ok (s', b)) :
    Fit s'.pendingGroup := by
  have hv := State.valid_drained h.valid hdrain
  cases State.drain_drained h.valid.ordered hdrain with
  | none | deadline => exact h
  | packet _ htook hfwd =>
    refine ⟨hv, ?_⟩
    rw [forward_pendingGroup hfwd]
    exact h.accepted.took htook (fun _ ↦ trivial)

theorem select_eq (h : Fit s.pendingGroup) (input : Input Msg ℕ) :
    s.selectWith insertStreamPacket (reassembly rq) input = s.select input := by
  cases input with
  | timer => rfl
  | message msg clock =>
    cases msg with
    | error e => rfl
    | ok msg =>
      cases msg <;> simp only [State.select, State.selectWith, AudioState.receive,
        AudioState.receiveStream, AudioState.receiveDatagram, insertStreamPacket_eq h,
        insertDatagram_eq h]

theorem orderly_new (p : PendingGroup rq) (x : Symbol) (created : ℕ) :
    Orderly ((PendingGroup.reassembly rq).new p x created) := by
  refine Orderly.bind (Fec.Checked.orderly_validateOti _ _)
    (fun _ _ ↦ Orderly.bind ?_ (fun _ _ ↦ ?_))
  · rw [checkCapacity_usage]
    exact Fec.Checked.orderly_checkPending _ _ _ _
  · refine Orderly.bind (Orderly.bind (Fec.Checked.orderly_validateOti _ _) ?_) ?_
    · exact fun _ _ ↦ .ok _
    · exact fun _ _ ↦ .ok _

theorem orderly_assemble (u : Parts rq) : Orderly u.assemble := by
  unfold Parts.assemble
  split
  · exact .invalid
  · exact Orderly.bind (Fec.Checked.orderly_mediaPacket _) (fun _ _ ↦ .ok _)

theorem orderly_select (h : Fit s.pendingGroup) (input : Input Msg ℕ) :
    Orderly (s.select input) := by
  cases input with
  | timer => exact .ok _
  | message msg clock =>
    cases msg with
    | error e => exact .err
    | ok msg =>
      intro m hpanic
      rcases AudioState.receive_error hpanic with he | ⟨k, packet, he⟩ | ⟨k, x, he⟩
      · cases he
      · have hstep := PendingGroup.insertStreamPacket_step s.pendingGroup k packet
        rw [done_error he] at hstep
        cases hstep
      · refine orderly_inserted (Pending.insertDatagram_inserted (PendingGroup.reassembly rq)
          h.valid.ordered k x 0 clock) (orderly_new _ _ _) ?_ orderly_assemble ?_ m (done_error he)
        · exact fun parts ↦ Orderly.bind (Fec.Checked.orderly_decode _ _ _ _) (fun _ _ ↦ .ok _)
        · intro object
          unfold PendingGroup.reassembly
          dsimp only
          split_ifs <;> simp

end Run

theorem parse_eq : parse = AudioFec.parse := by
  funext datagram
  unfold parse AudioFec.parse
  rw [Fec.Checked.parseDatagram_eq datagram (by decide) maxAudioPayload_fits]
  cases hp : parseDatagram datagram datagramHeaderSize maxAudioPayload with
  | error e => rfl
  | ok out =>
    have hlen := Fec.Checked.length_of_parseDatagram hp
    simp only [datagramHeaderSize] at hlen
    simp only [bind, Except.bind]
    rw [slice_ok (by decide) (by omega)]

theorem receiver_run_eq (rq : RaptorQ) (stats : ProtocolStats) (stream : Bytes)
    (es : List (Event (Arrival Bytes ℕ) ℕ)) :
    (receiver rq).run (stream, .start .new stats) es =
      (AudioFec.receiver rq).run (stream, .start .new stats) es := by
  unfold receiver AudioFec.receiver
  rw [parse_eq]
  refine receiver_run_congr (P := fun s ↦ Fit s.pendingGroup) (fun _ ↦ rfl) ?_ ?_ Fit.new
  · exact fun s i h ↦ ⟨select_eq h i, fun s' b ↦ h.selected⟩
  · exact fun s t h ↦ ⟨rfl, fun s' b ↦ h.drained⟩

theorem orderly_receiver (rq : RaptorQ) (stats : ProtocolStats) (stream : Bytes)
    (es : List (Event (Arrival Bytes ℕ) ℕ)) :
    Orderly ((AudioFec.receiver rq).run (stream, .start .new stats) es) := by
  intro m hpanic
  refine receiver_run_error (P := fun s ↦ Fit s.pendingGroup) (Q := fun e ↦ ∀ m, e ≠ .panic m)
    ?_ ?_ ?_ ?_ hpanic Fit.new m rfl
  · rintro bytes e he m rfl
    obtain ⟨m', -, hread⟩ := fecReaders_stream_error he
    refine Orderly.bind (Fec.Checked.orderly_readExact _ _) (fun _ _ ↦ ?_) m' hread
    exact Orderly.bind (Fec.Checked.orderly_readStreamPacket _ _) (fun _ _ ↦ .ok _)
  · rintro datagram e he m rfl
    obtain ⟨m', -, hread⟩ := fecReaders_datagram_error he
    exact Orderly.bind (Fec.Checked.orderly_parseDatagram _ _ _) (fun _ _ ↦ .ok _) m' hread
  · refine fun s i h ↦ ⟨?_, fun s' b ↦ h.selected⟩
    rintro e he m rfl
    exact orderly_select h i m he
  · refine fun s t h ↦ ⟨?_, fun s' b ↦ h.drained⟩
    rintro e he m rfl
    cases State.drain_error he

end Kymux.AudioFec.Checked

namespace Kymux

open BigEndian Driver EventLoop

/-- Whatever bytes a peer sends to a receiver with forward error correction, and whatever
the clock reads, nothing panics when arithmetic, slices and indices are checked; the run
is that of the receiver, and goes on or ends with an error. -/
theorem fec_receivers_never_panic (rq : RaptorQ) (stats : ProtocolStats) (stream : Bytes) :
    (∀ es, (VideoFec.Checked.receiver rq).run (stream, .start .new stats) es =
        (VideoFec.receiver rq).run (stream, .start .new stats) es ∧
      ∀ m, (VideoFec.Checked.receiver rq).run (stream, .start .new stats) es ≠ .error (.panic m)) ∧
    ∀ es, (AudioFec.Checked.receiver rq).run (stream, .start .new stats) es =
        (AudioFec.receiver rq).run (stream, .start .new stats) es ∧
      ∀ m, (AudioFec.Checked.receiver rq).run (stream, .start .new stats) es ≠
      .error (.panic m) := by
  refine ⟨fun es ↦ ?_, fun es ↦ ?_⟩
  · rw [VideoFec.Checked.receiver_run_eq]
    exact ⟨rfl, VideoFec.Checked.orderly_receiver rq stats stream es⟩
  · rw [AudioFec.Checked.receiver_run_eq]
    exact ⟨rfl, AudioFec.Checked.orderly_receiver rq stats stream es⟩

end Kymux
