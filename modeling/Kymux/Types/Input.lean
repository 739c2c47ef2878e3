import Kymux.Types.Data

namespace Kymux

open BigEndian Framing

section

variable {P : Type}

/-- The size and the payload of a record, which `InputPacket` and `MetricsPacket` have in
common. A stream that ends inside the size counts as ended. -/
def readSized (packet : Bytes → P) (reader : ByteReader) : Except Fault (Option P) × ByteReader :=
  match readBytes 2 reader with
  | (.error _, reader) => (.ok none, reader)
  | (.ok buf, reader) =>
    let size := UInt16.ofNat (decode buf)
    match readBytes size.toNat reader with
    | (.error e, reader) => (.error e, reader)
    | (.ok payload, reader) => (.ok (some (packet payload)), reader)

def writeSized (tooLong : String) (before payload writer : Bytes) : Except Fault Unit × Bytes :=
  if payload.length < 2 ^ 16 then
    (.ok (), writer ++ before ++ encode 2 payload.length ++ payload)
  else (.error (.panic tooLong), writer)

def sized (payload : Bytes) : Bytes := encode 2 payload.length ++ payload

variable {packet : Bytes → P} {payload : Bytes} {reader : ByteReader}

theorem readSized_append (hp : payload.length < 2 ^ 16) {rest : Bytes}
    (h : reader.content = sized payload ++ rest) :
    (readSized packet reader).1 = .ok (some (packet payload)) ∧
      (readSized packet reader).2.content = rest := by
  rw [sized, List.append_assoc] at h
  obtain ⟨left, hsize, hleft⟩ := readBytes_ok (length_encode 2 _) h
  obtain ⟨left', hok, hrest⟩ := readBytes_ok rfl hleft
  rw [readSized, hsize]
  dsimp only
  rw [decode_encode_of_lt (by omega), UInt16.toNat_ofNat', Nat.mod_eq_of_lt hp, hok]
  exact ⟨rfl, hrest⟩

/-- Inside the size, the end of the stream is taken for the end between two records. -/
theorem readSized_part (hp : payload.length < 2 ^ 16) {n : ℕ} (hn : n < (sized payload).length)
    (h : reader.content = (sized payload).take n) :
    (readSized packet reader).1 = if n < 2 then .ok none else .error earlyEof := by
  have hlen : reader.content.length = n := by
    rw [h, List.length_take, Nat.min_eq_left hn.le]
  split_ifs with htwo
  · obtain ⟨left, heof, -⟩ := readBytes_eof (show reader.content.length < 2 by omega)
    rw [readSized, heof]
  · rw [sized, List.take_append, length_encode,
      List.take_of_length_le (by rw [length_encode]; omega)] at h
    obtain ⟨left, hsize, hleft⟩ := readBytes_ok (length_encode 2 _) h
    have hshort : left.content.length < payload.length := by
      rw [sized, List.length_append, length_encode] at hn
      rw [hleft, List.length_take]
      omega
    obtain ⟨left', heof, -⟩ := readBytes_eof hshort
    rw [readSized, hsize]
    dsimp only
    rw [decode_encode_of_lt (by omega), UInt16.toNat_ofNat', Nat.mod_eq_of_lt hp, heof]

/-- How a stream of records should end that is cut so far into the record behind them: it
is clean only between two records. -/
def Ends (read : ByteReader → Except Fault (Option P) × ByteReader) (reader : ByteReader)
    (packets : List P) (into : ℕ) : Prop :=
  if into = 0 then Reads read reader packets (.ok ()) else ∃ e, Reads read reader packets (.error e)

theorem ends_iff_of_reads {read : ByteReader → Except Fault (Option P) × ByteReader}
    {packets : List P} {into : ℕ} {result : Except Fault Unit}
    (h : Reads read reader packets result) :
    Ends read reader packets into ↔ (result = .ok () ↔ into = 0) := by
  unfold Ends
  split_ifs with hzero
  · simp only [hzero, iff_true]
    exact ⟨fun h' ↦ (h.unique h').2, fun hr ↦ hr ▸ h⟩
  · simp only [hzero, iff_false]
    constructor
    · rintro ⟨e, h'⟩ hr
      exact nomatch hr.symm.trans (h.unique h').2
    · intro hr
      cases result with
      | ok _ => exact absurd rfl hr
      | error e => exact ⟨e, h⟩

end

structure MetricsPacket where
  payload : Bytes
deriving DecidableEq

namespace MetricsPacket

def write (packet : MetricsPacket) (writer : Bytes) : Except Fault Unit × Bytes :=
  writeSized "Metrics packet size must fit in 16 bits" [] packet.payload writer

def read (reader : ByteReader) : Except Fault (Option MetricsPacket) × ByteReader :=
  readSized MetricsPacket.mk reader

def frame (packet : MetricsPacket) : Bytes := sized packet.payload

variable {packet : MetricsPacket} {packets : List MetricsPacket} {reader : ByteReader}

theorem write_ok (h : packet.payload.length < 2 ^ 16) (writer : Bytes) :
    packet.write writer = (.ok (), writer ++ packet.frame) := by
  rw [write, writeSized, if_pos h, List.append_nil, List.append_assoc]
  rfl

/-- Cut inside a size, the stream is read as if it had ended before it. -/
theorem reads_cut (h : ∀ p ∈ packets, p.payload.length < 2 ^ 16)
    (hp : packet.payload.length < 2 ^ 16) {into : ℕ} (hinto : into < packet.frame.length)
    (hr : reader.content = packets.flatMap frame ++ packet.frame.take into) :
    Reads read reader packets (if into < 2 then .ok () else .error earlyEof) := by
  apply Reads.frames Reader.content frame (packet.frame.take into) _ _ hr
  · exact fun p hmem reader rest ↦ readSized_append (h p hmem)
  · intro reader hreader
    have hread : (read reader).1 = _ := readSized_part hp hinto hreader
    split_ifs at hread ⊢
    · exact .ended hread
    · exact .failed hread

end MetricsPacket

structure InputPacket where
  type : UInt8
  payload : Bytes
deriving DecidableEq

namespace InputPacket

def unexpectedEof : Fault := .err ⟨"unexpected end of file"⟩

/-- `AsyncReadExt::read_u8`, which names the end of the stream in other words. -/
def readU8 (reader : ByteReader) : Except Fault UInt8 × ByteReader :=
  match reader.readExact 1 with
  | (some bytes, reader) => (.ok (bytes.getD 0 0), reader)
  | (none, reader) => (.error unexpectedEof, reader)

def write (packet : InputPacket) (writer : Bytes) : Except Fault Unit × Bytes :=
  writeSized "Input packet size must fit in 16 bits" [packet.type] packet.payload writer

/-- The type is read without a look at how the stream may end. -/
def read (reader : ByteReader) : Except Fault (Option InputPacket) × ByteReader :=
  match readU8 reader with
  | (.error e, reader) => (.error e, reader)
  | (.ok type, reader) => readSized (InputPacket.mk type) reader

def frame (packet : InputPacket) : Bytes := [packet.type] ++ sized packet.payload

variable {packet : InputPacket} {packets : List InputPacket} {reader : ByteReader}

theorem write_ok (h : packet.payload.length < 2 ^ 16) (writer : Bytes) :
    packet.write writer = (.ok (), writer ++ packet.frame) := by
  rw [write, writeSized, if_pos h, frame, sized]
  simp only [List.append_assoc]

theorem readU8_ok {type : UInt8} {rest : Bytes} (h : reader.content = [type] ++ rest) :
    ∃ left : ByteReader, readU8 reader = (.ok type, left) ∧ left.content = rest := by
  obtain ⟨hread, hrest⟩ := Reader.readExact_of_append h
  refine ⟨_, ?_, hrest⟩
  rw [readU8, ← Prod.eta (reader.readExact 1), show (reader.readExact 1).1 = _ from hread]
  rfl

theorem readU8_eof (h : reader.content = []) :
    ∃ left : ByteReader, readU8 reader = (.error unexpectedEof, left) := by
  obtain ⟨hread, -⟩ := Reader.readExact_of_lt (show reader.content.length < 1 by simp [h])
  refine ⟨(reader.readExact 1).2, ?_⟩
  rw [readU8, ← Prod.eta (reader.readExact 1), hread]

theorem read_frame (h : packet.payload.length < 2 ^ 16) {rest : Bytes}
    (hr : reader.content = packet.frame ++ rest) :
    (read reader).1 = .ok (some packet) ∧ (read reader).2.content = rest := by
  rw [frame, List.append_assoc] at hr
  obtain ⟨left, htype, hleft⟩ := readU8_ok hr
  rw [read, htype]
  exact readSized_append h hleft

/-- The end of the stream in the place of a type is an error, inside a size it is not. -/
theorem reads_cut (h : ∀ p ∈ packets, p.payload.length < 2 ^ 16)
    (hp : packet.payload.length < 2 ^ 16) {into : ℕ} (hinto : into < packet.frame.length)
    (hr : reader.content = packets.flatMap frame ++ packet.frame.take into) :
    Reads read reader packets (if into = 0 then .error unexpectedEof
      else if 3 ≤ into then .error earlyEof else .ok ()) := by
  apply Reads.frames Reader.content frame (packet.frame.take into) _ _ hr
  · exact fun p hmem reader rest ↦ read_frame (h p hmem)
  · intro reader hreader
    cases into with
    | zero =>
      have hend : reader.content = [] := by simpa using hreader
      obtain ⟨left, heof⟩ := readU8_eof hend
      refine .failed ?_
      rw [read, heof]
    | succ n =>
      obtain ⟨left, htype, hleft⟩ := readU8_ok hreader
      have hread : (read reader).1 = if n < 2 then .ok none else .error earlyEof := by
        rw [read, htype]
        exact readSized_part hp (by simpa [frame] using hinto) hleft
      rw [if_neg (Nat.succ_ne_zero n)]
      by_cases hn : n < 2
      · rw [if_pos hn] at hread
        rw [if_neg (by omega)]
        exact .ended hread
      · rw [if_neg hn] at hread
        rw [if_pos (by omega)]
        exact .failed hread

end InputPacket

/-- How streams of these records end, against how they should. -/
theorem ends_iff (metrics : List MetricsPacket) (metric : MetricsPacket) (inputs : List InputPacket)
    (input : InputPacket) (hmetrics : ∀ p ∈ metric :: metrics, p.payload.length < 2 ^ 16)
    (hinputs : ∀ p ∈ input :: inputs, p.payload.length < 2 ^ 16) :
    (∃ bytes record, writes MetricsPacket.write metrics [] = (.ok (), bytes) ∧
      metric.write [] = (.ok (), record) ∧
      ∀ into < record.length, ∀ reader : ByteReader, reader.content = bytes ++ record.take into →
        (Ends MetricsPacket.read reader metrics into ↔ into ≠ 1)) ∧
    (∃ bytes record, writes InputPacket.write inputs [] = (.ok (), bytes) ∧
      input.write [] = (.ok (), record) ∧
      ∀ into < record.length, ∀ reader : ByteReader, reader.content = bytes ++ record.take into →
        (Ends InputPacket.read reader inputs into ↔ 3 ≤ into)) := by
  obtain ⟨hmetric, hmetrics⟩ := List.forall_mem_cons.mp hmetrics
  obtain ⟨hinput, hinputs⟩ := List.forall_mem_cons.mp hinputs
  refine ⟨⟨_, _, writes_frames (fun p hmem ↦ MetricsPacket.write_ok (hmetrics p hmem)) [],
    MetricsPacket.write_ok hmetric [], fun into hinto reader hr ↦ ?_⟩,
    ⟨_, _, writes_frames (fun p hmem ↦ InputPacket.write_ok (hinputs p hmem)) [],
    InputPacket.write_ok hinput [], fun into hinto reader hr ↦ ?_⟩⟩
  · rw [ends_iff_of_reads (MetricsPacket.reads_cut hmetrics hmetric hinto hr)]
    split_ifs <;> simp <;> omega
  · rw [ends_iff_of_reads (InputPacket.reads_cut hinputs hinput hinto hr)]
    split_ifs <;> simp <;> omega

/-- A metrics stream that ends behind its first record, and an input stream that ends inside its
second payload, end as they should. -/
theorem ends_iff_first :
    Ends MetricsPacket.read ⟨[[0, 2], [1, 2]], by simp⟩ [⟨[1, 2]⟩] 0 ∧
      Ends InputPacket.read ⟨[[4, 0, 1, 8, 5], [0, 2, 9]], by simp⟩ [⟨4, [8]⟩] 4 := by
  obtain ⟨⟨bytes, record, hbytes, hrecord, hmetrics⟩, bytes', record', hbytes', hrecord',
    hinputs⟩ :=
    ends_iff [⟨[1, 2]⟩] ⟨[7]⟩ [⟨4, [8]⟩] ⟨5, [9, 9]⟩ (by decide) (by decide)
  obtain rfl : bytes = [0, 2, 1, 2] := (congrArg Prod.snd hbytes).symm.trans rfl
  obtain rfl : record = [0, 1, 7] := (congrArg Prod.snd hrecord).symm.trans rfl
  obtain rfl : bytes' = [4, 0, 1, 8] := (congrArg Prod.snd hbytes').symm.trans rfl
  obtain rfl : record' = [5, 0, 2, 9, 9] := (congrArg Prod.snd hrecord').symm.trans rfl
  exact ⟨(hmetrics 0 (by decide) _ rfl).mpr (by decide),
    (hinputs 4 (by decide) _ rfl).mpr (by decide)⟩

/-- The empty stream of input packets ends with an error, and a stream of metrics that was
cut inside the first size ends as if nothing were missing. -/
theorem not_ends :
    ¬ Ends InputPacket.read ⟨[], by simp⟩ [] 0 ∧
    ¬ Ends MetricsPacket.read ⟨[[0]], by simp⟩ [] 1 := by
  have hinput : Reads InputPacket.read ⟨[], by simp⟩ [] (.error InputPacket.unexpectedEof) :=
    .failed rfl
  have hmetrics : Reads MetricsPacket.read ⟨[[0]], by simp⟩ [] (.ok ()) := .ended rfl
  rw [ends_iff_of_reads hinput, ends_iff_of_reads hmetrics]
  simp

end Kymux
