import Kymux.Driver.Audio
import Kymux.Driver.AudioFec
import Kymux.Driver.Send
import Kymux.Driver.Video
import Kymux.Driver.VideoFecProcess

namespace Kymux.Driver

open Av BigEndian EventLoop

/-- What reaches a receiver, in the order in which its process loop handles it: the next
record of the stream, a datagram, or the deadline. -/
inductive Arrival (δ κ : Type)
  | record (clock : κ)
  | datagram (datagram : δ) (clock : κ)
  | timer

/-- The two tasks that read for a process loop, by what one turn of each passes on. A task
that ends without a message passes on `none` from then on. -/
structure Readers (δ μ : Type) where
  recvStreamPacket : Bytes → Except Fault (Option μ × Bytes)
  recvDatagram : δ → Except Fault (Option μ)

section

variable {σ δ μ κ τ : Type}

def receiveMessage (L : Loop σ (Input μ κ) τ Fault) (stream : Bytes) (s : σ) (clock : κ) :
    Option μ → Except Fault ((Bytes × σ) × Bool)
  | none => .ok ((stream, s), false)
  | some msg => (L.select s (.message msg clock)).map (fun r ↦ ((stream, r.1), r.2))

/-- A process loop behind its readers. The state has the bytes of the stream that are not
read yet. -/
def receiver (L : Loop σ (Input μ κ) τ Fault) (R : Readers δ μ) :
    Loop (Bytes × σ) (Arrival δ κ) τ Fault where
  select s
    | .record clock =>
      match R.recvStreamPacket s.1 with
      | .error e => .error e
      | .ok (msg, stream) => receiveMessage L stream s.2 clock msg
    | .datagram datagram clock =>
      match R.recvDatagram datagram with
      | .error e => .error e
      | .ok msg => receiveMessage L s.1 s.2 clock msg
    | .timer => (L.select s.2 .timer).map (fun r ↦ ((s.1, r.1), r.2))
  inner s t := (L.inner s.2 t).map (fun r ↦ ((s.1, r.1), r.2))
  rank s := L.rank s.2
  rank_lt s t s' h := by
    obtain ⟨⟨s₁, b⟩, hi, hs⟩ := ok_of_map h
    cases hs
    exact L.rank_lt _ _ _ hi

variable {L L' : Loop σ (Input μ κ) τ Fault} {R : Readers δ μ} {P : σ → Prop} {Q : Fault → Prop}
  {stream : Bytes} {s : σ} {es : List (Event (Arrival δ κ) τ)}

theorem map_error {α β : Type} {r : Except Fault α} {f : α → β} {e : Fault}
    (h : r.map f = .error e) : r = .error e := by
  cases r with
  | error e' => cases h; rfl
  | ok a => cases h

/-- All that the handling of an arrival can do: nothing, or what the process loop does with
an input. -/
theorem receiver_select {x : Bytes × σ} {a : Arrival δ κ} {r : Except Fault ((Bytes × σ) × Bool)}
    (h : (receiver L R).select x a = r) :
    (∃ e, r = .error e ∧ ((∃ bytes, R.recvStreamPacket bytes = .error e) ∨
      ∃ datagram, R.recvDatagram datagram = .error e)) ∨
    (∃ stream, r = .ok ((stream, x.2), false)) ∨
    ∃ stream input, r = (L.select x.2 input).map (fun r ↦ ((stream, r.1), r.2)) := by
  obtain ⟨stream, s⟩ := x
  subst h
  cases a with
  | timer => exact .inr (.inr ⟨stream, .timer, rfl⟩)
  | record clock =>
    simp only [receiver]
    cases hr : R.recvStreamPacket stream with
    | error e => exact .inl ⟨e, rfl, .inl ⟨stream, hr⟩⟩
    | ok out =>
      obtain ⟨msg, rest⟩ := out
      cases msg with
      | none => exact .inr (.inl ⟨rest, rfl⟩)
      | some msg => exact .inr (.inr ⟨rest, .message msg clock, rfl⟩)
  | datagram datagram clock =>
    simp only [receiver]
    cases hr : R.recvDatagram datagram with
    | error e => exact .inl ⟨e, rfl, .inr ⟨datagram, hr⟩⟩
    | ok msg =>
      cases msg with
      | none => exact .inr (.inl ⟨stream, rfl⟩)
      | some msg => exact .inr (.inr ⟨stream, .message msg clock, rfl⟩)

theorem receiver_keeps (hselect : ∀ s i s' b, P s → L.select s i = .ok (s', b) → P s')
    {x x' : Bytes × σ} {a : Arrival δ κ} {b : Bool} (hx : P x.2)
    (h : (receiver L R).select x a = .ok (x', b)) : P x'.2 := by
  rcases receiver_select h with ⟨e, he, -⟩ | ⟨stream, he⟩ | ⟨stream, input, he⟩
  · cases he
  · cases he
    exact hx
  · obtain ⟨⟨s', b'⟩, hsel, hout⟩ := ok_of_map he.symm
    cases hout
    exact hselect _ _ _ _ hx hsel

theorem receiver_inner {x x' : Bytes × σ} {t : τ} {b : Bool}
    (h : (receiver L R).inner x t = .ok (x', b)) :
    x'.1 = x.1 ∧ L.inner x.2 t = .ok (x'.2, b) := by
  obtain ⟨⟨s', b'⟩, hinner, hout⟩ := ok_of_map h
  cases hout
  exact ⟨rfl, hinner⟩

theorem receiver_run_congr (hrank : ∀ s, L'.rank s = L.rank s)
    (hselect : ∀ s i, P s → L'.select s i = L.select s i ∧
      ∀ s' b, L.select s i = .ok (s', b) → P s')
    (hinner : ∀ s t, P s → L'.inner s t = L.inner s t ∧
      ∀ s' b, L.inner s t = .ok (s', b) → P s') (hs : P s) :
    (receiver L' R).run (stream, s) es = (receiver L R).run (stream, s) es := by
  refine run_congr (P := fun x ↦ P x.2) (fun x ↦ hrank x.2) ?_ ?_ hs
  · intro x a hx
    refine ⟨?_, fun x' b h ↦ receiver_keeps (fun s i s' b hP ↦ (hselect s i hP).2 s' b) hx h⟩
    cases a with
    | timer => simp only [receiver, (hselect x.2 .timer hx).1]
    | record clock =>
      simp only [receiver]
      split
      · rfl
      · next msg _ _ => cases msg <;> simp only [receiveMessage, (hselect x.2 _ hx).1]
    | datagram datagram clock =>
      simp only [receiver]
      split
      · rfl
      · next msg _ => cases msg <;> simp only [receiveMessage, (hselect x.2 _ hx).1]
  · intro x t hx
    refine ⟨by simp only [receiver, (hinner x.2 t hx).1], fun x' b h ↦ ?_⟩
    exact (hinner x.2 t hx).2 _ _ (receiver_inner h).2

theorem receiver_run_error (hstream : ∀ bytes e, R.recvStreamPacket bytes = .error e → Q e)
    (hdatagram : ∀ datagram e, R.recvDatagram datagram = .error e → Q e)
    (hselect : ∀ s i, P s → (∀ e, L.select s i = .error e → Q e) ∧
      ∀ s' b, L.select s i = .ok (s', b) → P s')
    (hinner : ∀ s t, P s → (∀ e, L.inner s t = .error e → Q e) ∧
      ∀ s' b, L.inner s t = .ok (s', b) → P s')
    {e : Fault} (h : (receiver L R).run (stream, s) es = .error e) (hs : P s) : Q e := by
  refine run_error (P := fun x ↦ P x.2) ?_ ?_ h hs
  · intro x a hx
    refine ⟨fun e he ↦ ?_,
      fun x' b h ↦ receiver_keeps (fun s i s' b hP ↦ (hselect s i hP).2 s' b) hx h⟩
    rcases receiver_select he with ⟨e', he', hread⟩ | ⟨stream, he'⟩ | ⟨stream, input, he'⟩
    · cases he'
      rcases hread with ⟨bytes, hread⟩ | ⟨datagram, hread⟩
      · exact hstream bytes _ hread
      · exact hdatagram datagram _ hread
    · cases he'
    · exact (hselect x.2 input hx).1 e (map_error he'.symm)
  · intro x t hx
    refine ⟨fun e he ↦ (hinner x.2 t hx).1 e (map_error he), fun x' b h ↦ ?_⟩
    exact (hinner x.2 t hx).2 _ _ (receiver_inner h).2

end

def readU32 (bytes : Bytes) : UInt32 := UInt32.ofNat (decode bytes)

section

variable {A B μ : Type} (recvStreamPacket : Bytes → Except Fault (A × Bytes))
  (parse : Bytes → Except Fault B) (stream : A → μ) (datagram : B → μ)

/-- The tasks of a driver with forward error correction: an error goes to the process loop
as a message. -/
def fecReaders : Readers Bytes (Except ProtocolError μ) where
  recvStreamPacket bytes :=
    match recvStreamPacket bytes with
    | .error (.panic m) => .error (.panic m)
    | .error (.err e) => .ok (some (.error e), bytes)
    | .ok (msg, rest) => .ok (some (.ok (stream msg)), rest)
  recvDatagram bytes :=
    match parse bytes with
    | .error (.panic m) => .error (.panic m)
    | .error (.err e) => .ok (some (.error e))
    | .ok msg => .ok (some (.ok (datagram msg)))

section

variable {recvStreamPacket parse stream datagram} {e : Fault}

theorem fecReaders_stream_error {bytes : Bytes}
    (h : (fecReaders recvStreamPacket parse stream datagram).recvStreamPacket bytes = .error e) :
    ∃ m, e = .panic m ∧ recvStreamPacket bytes = .error (.panic m) := by
  simp only [fecReaders] at h
  split at h
  · next hr => cases h; exact ⟨_, rfl, hr⟩
  · cases h
  · cases h

theorem fecReaders_datagram_error {bytes : Bytes}
    (h : (fecReaders recvStreamPacket parse stream datagram).recvDatagram bytes = .error e) :
    ∃ m, e = .panic m ∧ parse bytes = .error (.panic m) := by
  simp only [fecReaders] at h
  split at h
  · next hr => cases h; exact ⟨_, rfl, hr⟩
  · cases h
  · cases h

theorem fecReceiver_record {σ κ τ : Type} {L : Loop σ (Input (Except ProtocolError μ) κ) τ Fault}
    {bytes rest : Bytes} {s s' : σ} {clock : κ} {b : Bool} {msg : A}
    (hread : recvStreamPacket bytes = .ok (msg, rest))
    (hsel : L.select s (.message (.ok (stream msg)) clock) = .ok (s', b)) :
    (receiver L (fecReaders recvStreamPacket parse stream datagram)).select (bytes, s)
      (.record clock) = .ok ((rest, s'), b) := by
  simp only [receiver, fecReaders, hread, receiveMessage, hsel, Except.map]

theorem fecReceiver_datagram {σ κ τ : Type} {L : Loop σ (Input (Except ProtocolError μ) κ) τ Fault}
    {bytes d : Bytes} {s s' : σ} {clock : κ} {b : Bool} {msg : B} (hparse : parse d = .ok msg)
    (hsel : L.select s (.message (.ok (datagram msg)) clock) = .ok (s', b)) :
    (receiver L (fecReaders recvStreamPacket parse stream datagram)).select (bytes, s)
      (.datagram d clock) = .ok ((bytes, s'), b) := by
  simp only [receiver, fecReaders, hparse, receiveMessage, hsel, Except.map]

/-- What an arrival that is handled without an error was, for a process loop that returns the
errors it gets. -/
theorem fecReceiver_select {σ κ τ : Type} {L : Loop σ (Input (Except ProtocolError μ) κ) τ Fault}
    (hL : ∀ s e clock, L.select s (.message (.error e) clock) = .error (.err e))
    {bytes rest : Bytes} {s s' : σ} {a : Arrival Bytes κ} {b : Bool}
    (h : (receiver L (fecReaders recvStreamPacket parse stream datagram)).select (bytes, s) a =
      .ok ((rest, s'), b)) :
    match a with
    | .record clock => ∃ msg, recvStreamPacket bytes = .ok (msg, rest) ∧
        L.select s (.message (.ok (stream msg)) clock) = .ok (s', b)
    | .datagram d clock => rest = bytes ∧ ∃ msg, parse d = .ok msg ∧
        L.select s (.message (.ok (datagram msg)) clock) = .ok (s', b)
    | .timer => rest = bytes ∧ L.select s .timer = .ok (s', b) := by
  cases a with
  | timer =>
    obtain ⟨r, hsel, hout⟩ := ok_of_map h
    cases hout
    exact ⟨rfl, hsel⟩
  | record clock =>
    simp only [receiver, fecReaders] at h
    cases hread : recvStreamPacket bytes with
    | error e => cases e <;> simp only [hread, receiveMessage, hL] at h <;> cases h
    | ok out =>
      obtain ⟨msg, left⟩ := out
      simp only [hread] at h
      obtain ⟨r, hsel, hout⟩ := ok_of_map h
      cases hout
      exact ⟨msg, rfl, hsel⟩
  | datagram d clock =>
    simp only [receiver, fecReaders] at h
    cases hparse : parse d with
    | error e => cases e <;> simp only [hparse, receiveMessage, hL] at h <;> cases h
    | ok msg =>
      simp only [hparse] at h
      obtain ⟨r, hsel, hout⟩ := ok_of_map h
      cases hout
      exact ⟨rfl, msg, hparse, hsel⟩

end

/-- The tasks of a plain driver: an error ends the task and goes nowhere. -/
def plainReaders : Readers Bytes μ where
  recvStreamPacket bytes :=
    match recvStreamPacket bytes with
    | .error (.panic m) => .error (.panic m)
    | .error (.err _) => .ok (none, bytes)
    | .ok (msg, rest) => .ok (some (stream msg), rest)
  recvDatagram bytes :=
    match parse bytes with
    | .error (.panic m) => .error (.panic m)
    | .error (.err _) => .ok none
    | .ok msg => .ok (some (datagram msg))

section

variable {recvStreamPacket parse stream datagram} {σ κ τ : Type} {L : Loop σ (Input μ κ) τ Fault}
  {bytes rest : Bytes} {s s' : σ} {clock : κ} {b : Bool}

theorem plainReceiver_record {msg : A} (hread : recvStreamPacket bytes = .ok (msg, rest))
    (hsel : L.select s (.message (stream msg) clock) = .ok (s', b)) :
    (receiver L (plainReaders recvStreamPacket parse stream datagram)).select (bytes, s)
      (.record clock) = .ok ((rest, s'), b) := by
  simp only [receiver, plainReaders, hread, receiveMessage, hsel, Except.map]

theorem plainReceiver_datagram {d : Bytes} {msg : B} (hparse : parse d = .ok msg)
    (hsel : L.select s (.message (datagram msg) clock) = .ok (s', b)) :
    (receiver L (plainReaders recvStreamPacket parse stream datagram)).select (bytes, s)
      (.datagram d clock) = .ok ((bytes, s'), b) := by
  simp only [receiver, plainReaders, hparse, receiveMessage, hsel, Except.map]

end

end

end Kymux.Driver

namespace Kymux

open Av BigEndian Driver EventLoop Fec

namespace VideoFec

def recvStreamPacket (stream : Bytes) : Except Fault (StreamMsg × Bytes) := do
  let (seqs, stream) ← readExact 8 stream
  let (packet, stream) ← readStreamPacket stream maxVideoPayload
  return (⟨packet, readU32 (seqs.take 4), readU32 (seqs.drop 4)⟩, stream)

/-- `DatagramMsg::parse` -/
def parse (datagram : Bytes) : Except Fault (DatagramMsg Symbol) := do
  let (data, oti, payloadId) ← parseDatagram datagram datagramHeaderSize maxVideoPayload
  return ⟨⟨oti, payloadId, data⟩, readU32 ((datagram.drop 2).take 4),
    readU32 ((datagram.drop 6).take 4)⟩

def receiver (rq : RaptorQ) : Loop (Bytes × State rq) (Arrival Bytes Clock) ℕ Fault :=
  Driver.receiver (process rq) (fecReaders recvStreamPacket parse .stream .datagram)

end VideoFec

namespace AudioFec

def recvStreamPacket (stream : Bytes) : Except Fault (AudioStreamMsg × Bytes) := do
  let (seqs, stream) ← readExact 4 stream
  let (packet, stream) ← readStreamPacket stream maxAudioPayload
  return (⟨packet, readU32 seqs⟩, stream)

/-- `DatagramMsg::parse` -/
def parse (datagram : Bytes) : Except Fault (AudioDatagramMsg Symbol) := do
  let (data, oti, payloadId) ← parseDatagram datagram datagramHeaderSize maxAudioPayload
  return ⟨⟨oti, payloadId, data⟩, readU32 ((datagram.drop 2).take 4)⟩

def receiver (rq : RaptorQ) : Loop (Bytes × State rq) (Arrival Bytes ℕ) ℕ Fault :=
  Driver.receiver (process rq) (fecReaders recvStreamPacket parse .stream .datagram)

end AudioFec

namespace Plain

/-- `driver::read_packet`, where the drivers treat the end of the stream as an error. -/
def readPacket (stream : Bytes) : Except Fault (AVPacket × Bytes) := do
  match ← AVPacket.read stream with
  | (none, _) => throw (.err ⟨"Missing packet data on stream"⟩)
  | (some packet, stream) => return (packet, stream)

def endFlag : UInt32 := (1 : UInt32) <<< 31

def parseChunk (bytes : Bytes) : Chunk :=
  let datagramNumberAndEnd := readU32 (bytes.take 4)
  ⟨(datagramNumberAndEnd &&& (endFlag - 1)).toNat, datagramNumberAndEnd &&& endFlag != 0,
    bytes.drop 4⟩

end Plain

namespace Video

open Plain

def recvStreamPacket (stream : Bytes) : Except Fault (StreamMsg × Bytes) := do
  let (seqs, stream) ← readExact 8 stream
  let (packet, stream) ← readPacket stream
  return (⟨packet, readU32 (seqs.take 4), readU32 (seqs.drop 4)⟩, stream)

/-- One turn of `recv_datagrams`. -/
def parse (datagram : Bytes) : Except Fault (DatagramMsg Chunk) := do
  assert (datagramHeaderSize ≤ datagram.length) "datagram.len() >= DATAGRAM_HEADER_SIZE"
  return ⟨parseChunk (datagram.drop 10), readU32 ((datagram.drop 2).take 4),
    readU32 ((datagram.drop 6).take 4)⟩

def receiver : Loop (Bytes × State) (Arrival Bytes ℕ) ℕ Fault :=
  Driver.receiver process (plainReaders recvStreamPacket parse .stream .datagram)

end Video

namespace Audio

open Plain

def recvStreamPacket (stream : Bytes) : Except Fault (AudioStreamMsg × Bytes) := do
  let (seqs, stream) ← readExact 4 stream
  let (packet, stream) ← readPacket stream
  return (⟨packet, readU32 seqs⟩, stream)

/-- One turn of `recv_datagrams`. -/
def parse (datagram : Bytes) : Except Fault (AudioDatagramMsg Chunk) := do
  assert (datagramHeaderSize ≤ datagram.length) "datagram.len() >= DATAGRAM_HEADER_SIZE"
  return ⟨parseChunk (datagram.drop 6), readU32 ((datagram.drop 2).take 4)⟩

def receiver : Loop (Bytes × State) (Arrival Bytes ℕ) ℕ Fault :=
  Driver.receiver process (plainReaders recvStreamPacket parse .stream .datagram)

end Audio

end Kymux
