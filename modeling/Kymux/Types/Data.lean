import Kymux.Lib.Framing
import Kymux.Types.Av

namespace Kymux

open BigEndian Framing

abbrev ByteReader := Reader UInt8

def earlyEof : Fault := .err ⟨"early eof"⟩

/-- `AsyncReadExt::read_exact` -/
def readBytes (size : ℕ) (reader : ByteReader) : Except Fault Bytes × ByteReader :=
  match reader.readExact size with
  | (some bytes, reader) => (.ok bytes, reader)
  | (none, reader) => (.error earlyEof, reader)

theorem readBytes_ok {reader : ByteReader} {size : ℕ} {bytes rest : Bytes}
    (hsize : bytes.length = size) (h : reader.content = bytes ++ rest) :
    ∃ left : ByteReader, readBytes size reader = (.ok bytes, left) ∧ left.content = rest := by
  subst hsize
  obtain ⟨hread, hrest⟩ := Reader.readExact_of_append h
  refine ⟨_, ?_, hrest⟩
  rw [readBytes, ← Prod.eta (reader.readExact bytes.length), hread]

theorem readBytes_eof {reader : ByteReader} {size : ℕ} (h : reader.content.length < size) :
    ∃ left : ByteReader, readBytes size reader = (.error earlyEof, left) ∧ left.content = [] := by
  obtain ⟨hread, hrest⟩ := Reader.readExact_of_lt h
  refine ⟨_, ?_, hrest⟩
  rw [readBytes, ← Prod.eta (reader.readExact size), hread]

structure DataPacket where
  payload : Bytes
deriving DecidableEq

namespace DataPacket

def maxDataPacketSize : ℕ := 1024 * 1024

def InRange (size : ℕ) : Prop := 1 ≤ size ∧ size ≤ maxDataPacketSize

instance : DecidablePred InRange := fun _ ↦ inferInstanceAs (Decidable (_ ∧ _))

def invalidSize : Fault := .err ⟨"invalid data packet size"⟩

def write (packet : DataPacket) (writer : Bytes) : Except Fault Unit × Bytes :=
  if ¬ InRange packet.payload.length then (.error invalidSize, writer)
  else
    let size := UInt32.ofNat packet.payload.length
    (.ok (), writer ++ encode 4 size.toNat ++ packet.payload)

/-- The length is read with one read of up to four bytes, and then what is missing of it. -/
def read (reader : ByteReader) : Except Fault (Option DataPacket) × ByteReader :=
  let (head, reader) := reader.read 4
  if head.length = 0 then (.ok none, reader)
  else
    match readBytes (4 - head.length) reader with
    | (.error e, reader) => (.error e, reader)
    | (.ok rest, reader) =>
      let size := decode (head ++ rest)
      if ¬ InRange size then (.error invalidSize, reader)
      else
        match readBytes size reader with
        | (.error e, reader) => (.error e, reader)
        | (.ok payload, reader) => (.ok (some ⟨payload⟩), reader)

def frame (packet : DataPacket) : Bytes := encode 4 packet.payload.length ++ packet.payload

variable {reader : ByteReader} {packet : DataPacket} {packets : List DataPacket}

theorem write_ok (h : InRange packet.payload.length) (writer : Bytes) :
    packet.write writer = (.ok (), writer ++ packet.frame) := by
  have hlt : packet.payload.length < 2 ^ 32 := lt_of_le_of_lt h.2 (by decide)
  rw [write, if_neg (not_not.mpr h)]
  dsimp only
  rw [UInt32.toNat_ofNat', Nat.mod_eq_of_lt hlt, frame, List.append_assoc]

theorem write_out_of_range (h : ¬ InRange packet.payload.length) (writer : Bytes) :
    packet.write writer = (.error invalidSize, writer) := if_pos h

theorem read_end (h : reader.content = []) : (read reader).1 = .ok none := by
  obtain ⟨head, left, hread⟩ : ∃ head left, reader.read 4 = (head, left) := ⟨_, _, rfl⟩
  have happend := (reader.read_append 4).1
  rw [hread, h, List.append_eq_nil_iff] at happend
  obtain ⟨rfl, -⟩ := happend
  rw [read, hread]
  rfl

theorem read_part_of_length (hpos : reader.content ≠ []) (hlt : reader.content.length < 4) :
    (read reader).1 = .error earlyEof := by
  obtain ⟨head, left, hread⟩ : ∃ head left, reader.read 4 = (head, left) := ⟨_, _, rfl⟩
  obtain ⟨happend, -⟩ := reader.read_append 4
  have hhead : (reader.read 4).1 ≠ [] := fun hnil ↦ hpos (Reader.read_eq_nil (by decide) hnil)
  rw [hread] at happend hhead
  have hshort : left.content.length < 4 - head.length := by
    rw [← happend, List.length_append] at hlt
    dsimp only at hlt
    omega
  obtain ⟨left', heof, -⟩ := readBytes_eof hshort
  rw [read, hread]
  dsimp only
  rw [if_neg (by simpa using hhead), heof]

/-- The length comes in two reads, of which the first may return any part of it. -/
theorem read_length {raw rest : Bytes} (hraw : raw.length = 4) (h : reader.content = raw ++ rest) :
    ∃ left : ByteReader, left.content = rest ∧
      read reader =
        if ¬ InRange (decode raw) then (.error invalidSize, left)
        else
          match readBytes (decode raw) left with
          | (.error e, left) => (.error e, left)
          | (.ok payload, left) => (.ok (some ⟨payload⟩), left) := by
  obtain ⟨head, left, hread⟩ : ∃ head left, reader.read 4 = (head, left) := ⟨_, _, rfl⟩
  obtain ⟨happend, hle⟩ := reader.read_append 4
  have hhead : (reader.read 4).1 ≠ [] := by
    intro hnil
    have hcontent := Reader.read_eq_nil (by decide) hnil
    rw [h, List.append_eq_nil_iff] at hcontent
    rw [hcontent.1] at hraw
    cases hraw
  rw [hread] at happend hle hhead
  rw [h] at happend
  dsimp only at happend hle hhead
  obtain ⟨missing, rfl, hleft⟩ : ∃ missing, raw = head ++ missing ∧
    left.content = missing ++ rest := by
    rcases List.append_eq_append_iff.mp happend with h' | ⟨extra, rfl, hrest⟩
    · exact h'
    · rw [List.length_append] at hle
      obtain rfl := List.length_eq_zero_iff.mp (show extra.length = 0 by omega)
      exact ⟨[], by simp, by simpa using hrest.symm⟩
  rw [List.length_append] at hraw
  obtain ⟨left', hok, hrest⟩ := readBytes_ok (show missing.length = 4 - head.length by omega) hleft
  refine ⟨left', hrest, ?_⟩
  rw [read, hread]
  dsimp only
  rw [if_neg (by simpa using hhead), hok]

theorem read_out_of_range {size : UInt32} {rest : Bytes} (hsize : ¬ InRange size.toNat)
    (h : reader.content = encode 4 size.toNat ++ rest) :
    ∃ left : ByteReader, read reader = (.error invalidSize, left) ∧ left.content = rest := by
  obtain ⟨left, hleft, hread⟩ := read_length (length_encode 4 _) h
  rw [decode_encode_of_lt size.toNat_lt, if_pos hsize] at hread
  exact ⟨left, hread, hleft⟩

theorem read_frame (hsize : InRange packet.payload.length) {rest : Bytes}
    (h : reader.content = packet.frame ++ rest) :
    (read reader).1 = .ok (some packet) ∧ (read reader).2.content = rest := by
  have hlt : packet.payload.length < 256 ^ 4 := lt_of_le_of_lt hsize.2 (by decide)
  rw [frame, List.append_assoc] at h
  obtain ⟨left, hleft, hread⟩ := read_length (length_encode 4 _) h
  obtain ⟨left', hok, hrest⟩ := readBytes_ok rfl hleft
  rw [decode_encode_of_lt hlt, if_neg (not_not.mpr hsize), hok] at hread
  rw [hread]
  exact ⟨rfl, hrest⟩

theorem read_part (hsize : InRange packet.payload.length) {n : ℕ} (hpos : 0 < n)
    (hn : n < packet.frame.length) (h : reader.content = packet.frame.take n) :
    (read reader).1 = .error earlyEof := by
  have hlt : packet.payload.length < 256 ^ 4 := lt_of_le_of_lt hsize.2 (by decide)
  have hlen : reader.content.length = n := by
    rw [h, List.length_take, Nat.min_eq_left hn.le]
  by_cases hfour : n < 4
  · apply read_part_of_length
    · exact List.ne_nil_of_length_pos (by omega)
    · omega
  · rw [frame, List.take_append, length_encode, List.take_of_length_le (by simpa using hfour)] at h
    obtain ⟨left, hleft, hread⟩ := read_length (length_encode 4 _) h
    have hshort : left.content.length < packet.payload.length := by
      rw [frame, List.length_append, length_encode] at hn
      rw [hleft, List.length_take]
      omega
    obtain ⟨left', heof, -⟩ := readBytes_eof hshort
    rw [decode_encode_of_lt hlt, if_neg (not_not.mpr hsize), heof] at hread
    rw [hread]

def boundary (packets : List DataPacket) (k : ℕ) : ℕ := (writes write (packets.take k) []).2.length

theorem writes_ok (h : ∀ packet ∈ packets, InRange packet.payload.length) :
    writes write packets [] = (.ok (), packets.flatMap frame) :=
  writes_frames (fun packet hp ↦ write_ok (h packet hp)) []

theorem boundary_eq (h : ∀ packet ∈ packets, InRange packet.payload.length) (k : ℕ) :
    boundary packets k = ((packets.take k).flatMap frame).length := by
  rw [boundary, writes_ok (fun packet hp ↦ h packet (List.mem_of_mem_take hp))]

/-- Records come back in order however the stream is cut into pieces, only its end between
two records is clean, and lengths out of range stop at once. -/
theorem streams :
    (∀ packets : List DataPacket, (∀ packet ∈ packets, InRange packet.payload.length) →
      ∃ bytes, writes write packets [] = (.ok (), bytes) ∧
        (∀ reader : ByteReader, reader.content = bytes → Reads read reader packets (.ok ())) ∧
        ∀ n < bytes.length, (∀ k, n ≠ boundary packets k) →
          ∀ reader : ByteReader, reader.content = bytes.take n →
            ∃ k e, boundary packets k < n ∧ n < boundary packets (k + 1) ∧
              Reads read reader (packets.take k) (.error e)) ∧
    (∀ (reader : ByteReader) (size : UInt32) (rest : Bytes), ¬ InRange size.toNat →
      reader.content = encode 4 size.toNat ++ rest →
        ∃ left : ByteReader, read reader = (.error invalidSize, left) ∧ left.content = rest) ∧
    ∀ (packet : DataPacket) (writer : Bytes), ¬ InRange packet.payload.length →
      packet.write writer = (.error invalidSize, writer) := by
  refine ⟨fun packets hrange ↦ ⟨_, writes_ok hrange, fun reader hreader ↦ ?_,
    fun n hn hinside reader hreader ↦ ?_⟩, fun _ _ _ ↦ read_out_of_range,
    fun _ writer h ↦ write_out_of_range h writer⟩
  · apply Reads.frames Reader.content frame []
    · exact fun packet hp reader rest ↦ read_frame (hrange packet hp)
    · exact fun reader h ↦ .ended (read_end h)
    · rw [hreader, List.append_nil]
  · obtain ⟨k, packet, j, hk, hj, hcut, htake⟩ := exists_cut frame hn
    have hpacket := hrange packet (List.mem_of_getElem? hk)
    have hstart := hinside k
    have hnext : boundary packets (k + 1) = boundary packets k + packet.frame.length := by
      rw [boundary_eq hrange, boundary_eq hrange, List.take_add_one, hk, List.flatMap_append,
        List.length_append]
      simp
    rw [← boundary_eq hrange] at hcut
    refine ⟨k, earlyEof, by omega, by omega, ?_⟩
    apply Reads.frames Reader.content frame (packet.frame.take j)
    · exact fun packet hp reader rest ↦ read_frame (hrange packet (List.mem_of_mem_take hp))
    · exact fun reader h ↦ .failed (read_part hpacket (by omega) hj h)
    · rw [hreader, htake]

/-- Two records on a stream that hands out single bytes. -/
theorem streams_singleBytes :
    Reads read ⟨[[0], [0], [0], [1], [7], [0], [0], [0], [2], [8], [9]], by simp⟩ [⟨[7]⟩, ⟨[8, 9]⟩]
      (.ok ()) := by
  obtain ⟨bytes, hwritten, hreads, -⟩ := streams.1 [⟨[7]⟩, ⟨[8, 9]⟩] (by decide)
  apply hreads
  exact congrArg Prod.snd hwritten

end DataPacket

end Kymux
