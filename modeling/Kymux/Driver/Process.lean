import Kymux.Lib.EventLoop
import Kymux.Seq
import Kymux.Types.Av

namespace Kymux.Driver

open Av

structure ProtocolStats where
  droppedPackets : Option ℕ
  videoFecSourceSymbols : Option ℕ
  videoFecSourceSymbolsMissing : Option ℕ
  videoFecSourceSymbolsUnrecovered : Option ℕ
deriving DecidableEq

def ProtocolStats.addDropped (stats : ProtocolStats) (missing : ℕ) : ProtocolStats :=
  { stats with droppedPackets := some (stats.droppedPackets.getD 0 + missing) }

/-- What the select point of a process loop waits for: a message, with the readings of the
clock taken while it is handled, or the deadline. -/
inductive Input (μ κ : Type)
  | message (msg : μ) (clock : κ)
  | timer

/-- The `?` after an insertion: the loop returns with the error, and the state is gone. -/
def done {σ : Type} : Except Fault Unit × σ → Except Fault σ
  | (.ok (), s) => .ok s
  | (.error e, _) => .error e

theorem done_error {σ : Type} {out : Except Fault Unit × σ} {e : Fault} (h : done out = .error e) :
    out.1 = .error e := by
  obtain ⟨r, s⟩ := out
  cases r with
  | error e' => cases h; rfl
  | ok u => cases h

structure StreamMsg where
  packet : AVPacket
  rawKypacketSeq : UInt32
  rawGroupSeq : UInt32

structure DatagramMsg (ι : Type) where
  content : ι
  rawKypacketSeq : UInt32
  rawGroupSeq : UInt32

inductive RecvMsg (ι : Type)
  | stream (msg : StreamMsg)
  | datagram (msg : DatagramMsg ι)

/-- The variables of the process loop of a video driver, and the packets that it has sent
to the client so far. -/
structure VideoState (G : Type) where
  groupSequencer : Sequencer 32
  kypacketSequencer : Sequencer 32
  pendingGroups : G
  nextKypacketSeq : ℕ
  deadline : Option ℕ
  protocolStats : ProtocolStats
  txClient : List AVPacket

namespace VideoState

variable {G ι : Type}

def start (pendingGroups : G) (protocolStats : ProtocolStats) : VideoState G where
  groupSequencer := .new
  kypacketSequencer := .new
  pendingGroups
  nextKypacketSeq := 0
  deadline := none
  protocolStats
  txClient := []

structure Numbers where
  kypacketSeq : ℕ
  groupSeq : ℕ
  kypacketSequencer : Sequencer 32
  groupSequencer : Sequencer 32

def numbers (s : VideoState G) (rawKypacketSeq rawGroupSeq : UInt32) : Numbers where
  kypacketSeq := (s.kypacketSequencer.seq rawKypacketSeq.toBitVec).1
  groupSeq := (s.groupSequencer.seq rawGroupSeq.toBitVec).1
  kypacketSequencer := (s.kypacketSequencer.seq rawKypacketSeq.toBitVec).2
  groupSequencer := (s.groupSequencer.seq rawGroupSeq.toBitVec).2

def advance (s : VideoState G) (n : Numbers) : VideoState G :=
  { s with kypacketSequencer := n.kypacketSequencer, groupSequencer := n.groupSequencer }

def store (s : VideoState G) (pendingGroups : G) : VideoState G := { s with pendingGroups }

@[simp] theorem advance_pendingGroups (s : VideoState G) (n : Numbers) :
    (s.advance n).pendingGroups = s.pendingGroups := rfl

@[simp] theorem advance_nextKypacketSeq (s : VideoState G) (n : Numbers) :
    (s.advance n).nextKypacketSeq = s.nextKypacketSeq := rfl

@[simp] theorem advance_deadline (s : VideoState G) (n : Numbers) :
    (s.advance n).deadline = s.deadline := rfl

@[simp] theorem advance_protocolStats (s : VideoState G) (n : Numbers) :
    (s.advance n).protocolStats = s.protocolStats := rfl

@[simp] theorem advance_txClient (s : VideoState G) (n : Numbers) :
    (s.advance n).txClient = s.txClient := rfl

@[simp] theorem store_pendingGroups (s : VideoState G) (g : G) :
    (s.store g).pendingGroups = g := rfl

@[simp] theorem store_nextKypacketSeq (s : VideoState G) (g : G) :
    (s.store g).nextKypacketSeq = s.nextKypacketSeq := rfl

@[simp] theorem store_deadline (s : VideoState G) (g : G) : (s.store g).deadline = s.deadline := rfl

@[simp] theorem store_protocolStats (s : VideoState G) (g : G) :
    (s.store g).protocolStats = s.protocolStats := rfl

@[simp] theorem store_txClient (s : VideoState G) (g : G) : (s.store g).txClient = s.txClient := rfl

variable (insertStreamPacket : G → ℕ → ℕ → AVPacket → Except Fault G)
  (insertDatagram : G → ℕ → ℕ → ι → Except Fault G)

def receiveStream (s : VideoState G) (packet : AVPacket) (n : Numbers) :
    Except Fault (VideoState G × Bool) :=
  if n.kypacketSeq ≥ s.nextKypacketSeq then
    match insertStreamPacket s.pendingGroups n.groupSeq n.kypacketSeq packet with
    | .error e => .error e
    | .ok pendingGroups => .ok ((s.advance n).store pendingGroups, true)
  else .ok (s.advance n, true)

def receiveDatagram (s : VideoState G) (content : ι) (n : Numbers) :
    Except Fault (VideoState G × Bool) :=
  if n.kypacketSeq < s.nextKypacketSeq then .ok (s.advance n, false)
  else
    match insertDatagram s.pendingGroups n.groupSeq n.kypacketSeq content with
    | .error e => .error e
    | .ok pendingGroups => .ok ((s.advance n).store pendingGroups, true)

/-- How a message is handled, up to the insertion that belongs to the driver. The flag is
`false` where the loop continues without looking for packets to send. -/
def receive (s : VideoState G) : RecvMsg ι → Except Fault (VideoState G × Bool)
  | .stream msg =>
    if msg.packet.isCodec then .ok ({ s with txClient := s.txClient ++ [msg.packet] }, false)
    else s.receiveStream insertStreamPacket msg.packet
      (s.numbers msg.rawKypacketSeq msg.rawGroupSeq)
  | .datagram msg =>
    s.receiveDatagram insertDatagram msg.content (s.numbers msg.rawKypacketSeq msg.rawGroupSeq)

def forward (s : VideoState G) (kypacketSeq : ℕ) (packet : AVPacket) : VideoState G :=
  { s with
    protocolStats :=
      if kypacketSeq > s.nextKypacketSeq then
        s.protocolStats.addDropped (kypacketSeq - s.nextKypacketSeq)
      else s.protocolStats
    nextKypacketSeq := kypacketSeq + 1
    txClient := s.txClient ++ [packet] }

inductive Received (s : VideoState G) : RecvMsg ι → VideoState G → Bool → Prop
  | codec {msg : StreamMsg} (hc : msg.packet.isCodec = true) :
    Received s (.stream msg) { s with txClient := s.txClient ++ [msg.packet] } false
  | lateStream {msg : StreamMsg} {n} (hc : msg.packet.isCodec = false)
    (hn : n = s.numbers msg.rawKypacketSeq msg.rawGroupSeq)
    (hlt : n.kypacketSeq < s.nextKypacketSeq) :
    Received s (.stream msg) (s.advance n) true
  | stream {msg : StreamMsg} {n pendingGroups} (hc : msg.packet.isCodec = false)
    (hn : n = s.numbers msg.rawKypacketSeq msg.rawGroupSeq)
    (hge : s.nextKypacketSeq ≤ n.kypacketSeq)
    (hins : insertStreamPacket s.pendingGroups n.groupSeq n.kypacketSeq msg.packet =
      .ok pendingGroups) :
    Received s (.stream msg) ((s.advance n).store pendingGroups) true
  | lateDatagram {msg : DatagramMsg ι} {n}
    (hn : n = s.numbers msg.rawKypacketSeq msg.rawGroupSeq)
    (hlt : n.kypacketSeq < s.nextKypacketSeq) :
    Received s (.datagram msg) (s.advance n) false
  | datagram {msg : DatagramMsg ι} {n pendingGroups}
    (hn : n = s.numbers msg.rawKypacketSeq msg.rawGroupSeq)
    (hge : s.nextKypacketSeq ≤ n.kypacketSeq)
    (hins : insertDatagram s.pendingGroups n.groupSeq n.kypacketSeq msg.content =
      .ok pendingGroups) :
    Received s (.datagram msg) ((s.advance n).store pendingGroups) true

variable {insertStreamPacket insertDatagram} {s s' : VideoState G} {msg : RecvMsg ι} {b : Bool}

theorem receive_received (h : s.receive insertStreamPacket insertDatagram msg = .ok (s', b)) :
    Received insertStreamPacket insertDatagram s msg s' b := by
  cases msg with
  | stream msg =>
    simp only [receive] at h
    split at h
    · next hc => cases h; exact .codec hc
    · next hc =>
      rw [Bool.not_eq_true] at hc
      generalize hn : s.numbers msg.rawKypacketSeq msg.rawGroupSeq = n at h
      unfold receiveStream at h
      split at h
      · next hge =>
        split at h
        · cases h
        · next hins => cases h; exact .stream hc hn.symm hge hins
      · next hlt => cases h; exact .lateStream hc hn.symm (not_le.mp hlt)
  | datagram msg =>
    simp only [receive] at h
    generalize hn : s.numbers msg.rawKypacketSeq msg.rawGroupSeq = n at h
    unfold receiveDatagram at h
    split at h
    · next hlt => cases h; exact .lateDatagram hn.symm hlt
    · next hge =>
      split at h
      · cases h
      · next hins => cases h; exact .datagram hn.symm (not_lt.mp hge) hins

theorem receive_error {e : Fault} (h : s.receive insertStreamPacket insertDatagram msg = .error e) :
    (∃ groupSeq kypacketSeq packet,
      insertStreamPacket s.pendingGroups groupSeq kypacketSeq packet = .error e) ∨
    ∃ groupSeq kypacketSeq content,
      insertDatagram s.pendingGroups groupSeq kypacketSeq content = .error e := by
  cases msg with
  | stream msg =>
    simp only [receive] at h
    split at h
    · cases h
    · unfold receiveStream at h
      split at h
      · split at h
        · next hins => cases h; exact .inl ⟨_, _, _, hins⟩
        · cases h
      · cases h
  | datagram msg =>
    simp only [receive, receiveDatagram] at h
    split at h
    · cases h
    · split at h
      · next hins => cases h; exact .inr ⟨_, _, _, hins⟩
      · cases h

/-- A message after which the loop continues at once leaves all that is pending as it was. -/
theorem receive_skips (h : s.receive insertStreamPacket insertDatagram msg = .ok (s', false)) :
    s'.pendingGroups = s.pendingGroups ∧ s'.nextKypacketSeq = s.nextKypacketSeq ∧
      s'.deadline = s.deadline := by
  cases receive_received h with
  | codec _ => exact ⟨rfl, rfl, rfl⟩
  | lateDatagram _ _ => simp

end VideoState

structure AudioStreamMsg where
  packet : AVPacket
  rawKypacketSeq : UInt32

structure AudioDatagramMsg (ι : Type) where
  content : ι
  rawKypacketSeq : UInt32

inductive AudioRecvMsg (ι : Type)
  | stream (msg : AudioStreamMsg)
  | datagram (msg : AudioDatagramMsg ι)

/-- The variables of the process loop of an audio driver, and the packets that it has sent
to the client so far. -/
structure AudioState (P : Type) where
  kypacketSequencer : Sequencer 32
  pendingGroup : P
  nextKypacketSeq : ℕ
  deadline : Option ℕ
  frameSize : Option UInt16
  protocolStats : ProtocolStats
  txClient : List AVPacket

namespace AudioState

variable {P ι : Type}

def start (pendingGroup : P) (protocolStats : ProtocolStats) : AudioState P where
  kypacketSequencer := .new
  pendingGroup
  nextKypacketSeq := 0
  deadline := none
  frameSize := none
  protocolStats
  txClient := []

variable (zeroFrameSize noFrameSize : Fault)
  (insertStreamPacket : P → ℕ → AVPacket → Except Fault P)
  (insertDatagram : P → ℕ → ι → Except Fault P)

def receiveCodec (s : AudioState P) (packet : CodecPacket) : Except Fault (AudioState P × Bool) :=
  if packet.header.frameSize = 0 then .error zeroFrameSize
  else
    .ok ({ s with
      frameSize := some packet.header.frameSize
      txClient := s.txClient ++ [.codec packet] }, false)

structure Number where
  kypacketSeq : ℕ
  kypacketSequencer : Sequencer 32

def number (s : AudioState P) (rawKypacketSeq : UInt32) : Number where
  kypacketSeq := (s.kypacketSequencer.seq rawKypacketSeq.toBitVec).1
  kypacketSequencer := (s.kypacketSequencer.seq rawKypacketSeq.toBitVec).2

def advance (s : AudioState P) (n : Number) : AudioState P :=
  { s with kypacketSequencer := n.kypacketSequencer }

def store (s : AudioState P) (pendingGroup : P) : AudioState P := { s with pendingGroup }

def receiveStream (s : AudioState P) (packet : AVPacket) (n : Number) :
    Except Fault (AudioState P × Bool) :=
  if n.kypacketSeq ≥ s.nextKypacketSeq then
    match insertStreamPacket s.pendingGroup n.kypacketSeq packet with
    | .error e => .error e
    | .ok pendingGroup => .ok ((s.advance n).store pendingGroup, true)
  else .ok (s.advance n, true)

def receiveDatagram (s : AudioState P) (content : ι) (n : Number) :
    Except Fault (AudioState P × Bool) :=
  if n.kypacketSeq < s.nextKypacketSeq then .ok (s.advance n, false)
  else
    match insertDatagram s.pendingGroup n.kypacketSeq content with
    | .error e => .error e
    | .ok pendingGroup => .ok ((s.advance n).store pendingGroup, true)

def receive (s : AudioState P) : AudioRecvMsg ι → Except Fault (AudioState P × Bool)
  | .stream msg =>
    match msg.packet with
    | .codec packet => s.receiveCodec zeroFrameSize packet
    | packet => s.receiveStream insertStreamPacket packet (s.number msg.rawKypacketSeq)
  | .datagram msg => s.receiveDatagram insertDatagram msg.content (s.number msg.rawKypacketSeq)

def missingAudioSamples (missingPackets : ℕ) (frameSize : UInt16) : UInt32 :=
  UInt32.ofNat (min (missingPackets * frameSize.toNat) (2 ^ 32 - 1))

def forward (s : AudioState P) (kypacketSeq : ℕ) (packet : AVPacket) :
    Except Fault (AudioState P) :=
  match s.frameSize with
  | none => .error noFrameSize
  | some frameSize =>
    let missing := kypacketSeq - s.nextKypacketSeq
    .ok { s with
      protocolStats :=
        if kypacketSeq > s.nextKypacketSeq then s.protocolStats.addDropped missing
        else s.protocolStats
      nextKypacketSeq := kypacketSeq + 1
      txClient := s.txClient ++
        (if kypacketSeq > s.nextKypacketSeq then [.hole ⟨⟨missingAudioSamples missing frameSize⟩⟩]
        else []) ++ [packet] }

variable {zeroFrameSize insertStreamPacket insertDatagram} {s s' : AudioState P}
  {msg : AudioRecvMsg ι}

theorem receiveCodec_skips {packet : CodecPacket} {b : Bool}
    (h : s.receiveCodec zeroFrameSize packet = .ok (s', b)) :
    s'.pendingGroup = s.pendingGroup ∧ s'.nextKypacketSeq = s.nextKypacketSeq ∧
      s'.deadline = s.deadline := by
  unfold receiveCodec at h
  split at h
  · cases h
  · cases h; exact ⟨rfl, rfl, rfl⟩

theorem receiveStream_looks {packet : AVPacket} {n : Number} {b : Bool}
    (h : s.receiveStream insertStreamPacket packet n = .ok (s', b)) : b = true := by
  unfold receiveStream at h
  split at h
  · split at h <;> cases h; rfl
  · cases h; rfl

theorem receiveDatagram_skips {content : ι} {n : Number}
    (h : s.receiveDatagram insertDatagram content n = .ok (s', false)) :
    s'.pendingGroup = s.pendingGroup ∧ s'.nextKypacketSeq = s.nextKypacketSeq ∧
      s'.deadline = s.deadline := by
  unfold receiveDatagram at h
  split at h
  · cases h; exact ⟨rfl, rfl, rfl⟩
  · split at h <;> cases h

theorem receive_error {e : Fault}
    (h : s.receive zeroFrameSize insertStreamPacket insertDatagram msg = .error e) :
    e = zeroFrameSize ∨
    (∃ kypacketSeq packet, insertStreamPacket s.pendingGroup kypacketSeq packet = .error e) ∨
    ∃ kypacketSeq content, insertDatagram s.pendingGroup kypacketSeq content = .error e := by
  cases msg with
  | stream msg =>
    simp only [receive] at h
    split at h
    · unfold receiveCodec at h
      split at h
      · cases h; exact .inl rfl
      · cases h
    · unfold receiveStream at h
      split at h
      · split at h
        · next hins => cases h; exact .inr (.inl ⟨_, _, hins⟩)
        · cases h
      · cases h
  | datagram msg =>
    simp only [receive, receiveDatagram] at h
    split at h
    · cases h
    · split at h
      · next hins => cases h; exact .inr (.inr ⟨_, _, hins⟩)
      · cases h

/-- A message after which the loop continues at once leaves all that is pending as it was. -/
theorem receive_skips (h : s.receive zeroFrameSize insertStreamPacket insertDatagram msg =
    .ok (s', false)) :
    s'.pendingGroup = s.pendingGroup ∧ s'.nextKypacketSeq = s.nextKypacketSeq ∧
      s'.deadline = s.deadline := by
  cases msg with
  | stream msg =>
    simp only [receive] at h
    split at h
    · exact receiveCodec_skips h
    · exact absurd (receiveStream_looks h) (by decide)
  | datagram msg => exact receiveDatagram_skips h

end AudioState

end Kymux.Driver
