import Kymux.Lib.Slots
import Kymux.Driver.FecFormat

namespace Kymux.Plain

open Av BigEndian Driver Slots

variable {pieces : List Bytes} {s : Parts} {x : Chunk}

structure OfPieces (pieces : List Bytes) (x : Chunk) : Prop where
  piece : pieces[x.datagramNumber]? = some x.data
  isEnd : x.isEnd = true ↔ x.datagramNumber + 1 = pieces.length

namespace Parts

structure Collects (pieces : List Bytes) (s : Parts) : Prop where
  fills : Fills pieces s.segments
  count : s.segmentsCount = s.segments.reduceOption.length
  bytes : s.totalSegmentBytes = (s.segments.reduceOption.map List.length).sum
  total : ∀ n, s.totalSegments = some n →
    n = pieces.length ∧ ∃ b, s.segments[pieces.length - 1]? = some (some b)

theorem Collects.new (pieces : List Bytes) : Collects pieces .new where
  fills := .nil pieces
  count := rfl
  bytes := rfl
  total _ h := by cases h

theorem resize_eq_grow (segments : List (Option Bytes)) (index : ℕ) :
    (if index ≥ segments.length then resize segments (index + 1) else segments) =
      grow segments (index + 1) := by
  split_ifs with h
  · rfl
  · rw [grow, Nat.sub_eq_zero_of_le (by omega), List.replicate_zero, List.append_nil]

theorem setSegment_none
    (hget : (grow s.segments (x.datagramNumber + 1))[x.datagramNumber]? = some none)
    (hend : ¬ (x.isEnd = true ∧ s.totalSegments.isSome = true)) :
    s.setSegment x = .ok {
      totalSegments := if x.isEnd then some (x.datagramNumber + 1) else s.totalSegments
      segments := (grow s.segments (x.datagramNumber + 1)).set x.datagramNumber (some x.data)
      segmentsCount := s.segmentsCount + 1
      totalSegmentBytes := s.totalSegmentBytes + x.data.length } := by
  simp only [setSegment, resize_eq_grow, hget, if_neg hend]

theorem setSegment_some {b : Bytes}
    (hget : (grow s.segments (x.datagramNumber + 1))[x.datagramNumber]? = some (some b)) :
    s.setSegment x = .ok { s with segments := grow s.segments (x.datagramNumber + 1) } := by
  simp only [setSegment, resize_eq_grow, hget]

theorem Collects.stored (h : Collects pieces s) (hx : OfPieces pieces x)
    (hget : (grow s.segments (x.datagramNumber + 1))[x.datagramNumber]? = some none) :
    Collects pieces {
      totalSegments := if x.isEnd then some (x.datagramNumber + 1) else s.totalSegments
      segments := (grow s.segments (x.datagramNumber + 1)).set x.datagramNumber (some x.data)
      segmentsCount := s.segmentsCount + 1
      totalSegmentBytes := s.totalSegmentBytes + x.data.length } := by
  have hlt : x.datagramNumber < pieces.length := (List.getElem?_eq_some_iff.mp hx.piece).1
  obtain ⟨pre, post, hold, hnew⟩ := reduceOption_set x.data hget
  rw [reduceOption_grow] at hold
  refine ⟨(h.fills.grow hlt).set hx.piece, ?_, ?_, ?_⟩
  · rw [hnew, h.count, hold]
    simp only [List.length_append, List.length_cons]
    omega
  · rw [hnew, h.bytes, hold]
    simp only [List.map_append, List.map_cons, List.sum_append, List.sum_cons]
    omega
  · intro n hn
    dsimp only at hn ⊢
    have hlen : x.datagramNumber < (grow s.segments (x.datagramNumber + 1)).length := by
      rw [length_grow]
      omega
    by_cases hend : x.isEnd = true
    · rw [if_pos hend] at hn
      cases hn
      have hlast := hx.isEnd.mp hend
      refine ⟨hlast, x.data, ?_⟩
      rw [← hlast, Nat.add_sub_cancel, List.getElem?_set_self hlen]
    · rw [if_neg hend] at hn
      obtain ⟨hlast, b, hb⟩ := h.total n hn
      refine ⟨hlast, b, ?_⟩
      rw [List.getElem?_set_ne (fun heq ↦ hend (hx.isEnd.mpr (by omega)))]
      exact get_grow.mpr hb

theorem Collects.setSegment (h : Collects pieces s) (hx : OfPieces pieces x) :
    ∃ s', s.setSegment x = .ok s' ∧ Collects pieces s' := by
  have hlt : x.datagramNumber < pieces.length := (List.getElem?_eq_some_iff.mp hx.piece).1
  have hlen : x.datagramNumber < (grow s.segments (x.datagramNumber + 1)).length := by
    rw [length_grow]
    omega
  cases hget : (grow s.segments (x.datagramNumber + 1))[x.datagramNumber]? with
  | none =>
    rw [List.getElem?_eq_none_iff] at hget
    omega
  | some slot =>
    cases slot with
    | some b =>
      refine ⟨_, setSegment_some hget, h.fills.grow hlt, ?_, ?_, fun n hn ↦ ?_⟩
      · rw [h.count, reduceOption_grow]
      · rw [h.bytes, reduceOption_grow]
      · obtain ⟨hlast, b, hb⟩ := h.total n hn
        exact ⟨hlast, b, get_grow.mpr hb⟩
    | none =>
      refine ⟨_, setSegment_none hget ?_, h.stored hx hget⟩
      rintro ⟨hend, htotal⟩
      obtain ⟨n, hn⟩ := Option.isSome_iff_exists.mp htotal
      obtain ⟨-, b, hb⟩ := h.total n hn
      have hplace : pieces.length - 1 = x.datagramNumber := by
        have := hx.isEnd.mp hend
        omega
      rw [hplace] at hb
      exact absurd (hget.symm.trans (get_grow.mpr hb)) (by simp)

theorem concatSegments_map (pieces : List Bytes) :
    concatSegments (pieces.map some) = .ok pieces.flatten := by
  induction pieces with
  | nil => rfl
  | cons piece pieces ih =>
    rw [List.map_cons, concatSegments, ih, List.flatten_cons]
    rfl

theorem Collects.assemble {media : MediaPacket} {header : Bytes} (h : Collects pieces s)
    (hs : media.header.serialize = .ok header) (hpieces : pieces.flatten = header ++ media.payload)
    (hc : s.isComplete = true) : s.assemble = .ok ((), .media media) := by
  have hlen : header.length = serializedSize := MediaPacketHeader.length_of_serialize hs
  have htotal := of_decide_eq_true hc
  have hall : s.segments = pieces.map some := by
    apply h.fills.complete
    rw [← h.count]
    exact (h.total _ htotal).1
  have hbytes : s.totalSegmentBytes = (header ++ media.payload).length := by
    rw [h.bytes, hall, ← hpieces, List.length_flatten]
    simp [List.reduceOption]
  have hmerge : mergeSegments s.segments s.totalSegmentBytes = .ok (header ++ media.payload) := by
    rw [mergeSegments, hall, concatSegments_map, hpieces, hbytes]
    simp [assert, bind, Except.bind, pure, Except.pure]
  have hfits : serializedSize ≤ (header ++ media.payload).length := by
    rw [List.length_append, hlen]
    omega
  simp only [Parts.assemble, hc, hmerge, assert, bind, Except.bind, pure, Except.pure, hfits,
    decide_true, if_true, List.take_left' hlen, List.drop_left' hlen,
    MediaPacketHeader.deserialize_serialize hs]

end Parts

theorem flatten_chunks {size : ℕ} (hsize : 0 < size) {n : ℕ} {data : Bytes} (hn : data.length ≤ n) :
    (chunks size n data).flatten = data := by
  induction n generalizing data with
  | zero =>
    obtain rfl := List.length_eq_zero_iff.mp (Nat.le_zero.mp hn)
    rfl
  | succ n ih =>
    rw [chunks]
    split_ifs with hnil
    · rw [hnil]
      rfl
    · have hpos := List.length_pos_iff.mpr hnil
      rw [List.flatten_cons, ih (by rw [List.length_drop]; omega), List.take_append_drop]

theorem length_chunks_le (size n : ℕ) (data : Bytes) : (chunks size n data).length ≤ n := by
  induction n generalizing data with
  | zero => exact le_rfl
  | succ n ih =>
    rw [chunks]
    split_ifs
    · exact Nat.zero_le _
    · exact Nat.succ_le_succ (ih _)

theorem toNat_datagramNumberAndEnd {number : ℕ} (hnumber : number < 2 ^ 31) (isEnd : Bool) :
    (datagramNumberAndEnd number isEnd).toNat = number + if isEnd then 2 ^ 31 else 0 := by
  have hmod : number % 2 ^ 32 = number := Nat.mod_eq_of_lt (by omega)
  cases isEnd with
  | false =>
    rw [datagramNumberAndEnd, if_neg (by decide), if_neg (by decide), UInt32.or_zero,
      UInt32.toNat_ofNat', hmod]
    rfl
  | true =>
    have hor := Nat.two_pow_add_eq_or_of_lt hnumber 1
    rw [datagramNumberAndEnd, if_pos rfl, if_pos rfl, UInt32.toNat_or, UInt32.toNat_ofNat', hmod,
      show ((1 : UInt32) <<< 31).toNat = 2 ^ 31 * 1 from rfl, Nat.or_comm, ← hor]
    omega

theorem parseChunk_encode {number : ℕ} (hnumber : number < 2 ^ 31) (isEnd : Bool) (part : Bytes) :
    parseChunk (encode 4 (datagramNumberAndEnd number isEnd).toNat ++ part) =
      ⟨number, isEnd, part⟩ := by
  have hword := toNat_datagramNumberAndEnd hnumber isEnd
  have hnum : (datagramNumberAndEnd number isEnd &&& (endFlag - 1)).toNat = number := by
    rw [UInt32.toNat_and, hword, show (endFlag - 1).toNat = 2 ^ 31 - 1 from rfl,
      Nat.and_two_pow_sub_one_eq_mod]
    cases isEnd <;> simp <;> omega
  have hflag : (datagramNumberAndEnd number isEnd &&& endFlag != 0) = isEnd := by
    have hbit : (datagramNumberAndEnd number isEnd &&& endFlag).toNat =
        if isEnd then 2 ^ 31 else 0 := by
      rw [UInt32.toNat_and, hword, show endFlag.toNat = 2 ^ 31 from rfl, Nat.and_two_pow]
      cases isEnd with
      | false => simp [Nat.testBit_lt_two_pow hnumber]
      | true =>
        rw [if_pos rfl, Nat.add_comm, Nat.testBit_two_pow_add_eq, Nat.testBit_lt_two_pow hnumber]
        rfl
    rw [bne, beq_eq_decide]
    cases isEnd with
    | false => simp [← UInt32.toNat_inj, hbit]
    | true => simp [← UInt32.toNat_inj, hbit]
  rw [parseChunk, List.take_left' (length_encode 4 _), List.drop_left' (length_encode 4 _),
    readU32_encode]
  simp only [hnum, hflag]

end Kymux.Plain
