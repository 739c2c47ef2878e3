import Kymux.SourceFirst

namespace Kymux.SourceFirst

open Av BigEndian Driver Interleave
open Kymux.Checked (each each_ok of_each_ok)

variable {data padded : Bytes} {oti : Oti} {b : ℕ}

structure Fits (oti : Oti) (length : ℕ) : Prop where
  length_eq : oti.transferLength.toNat = length
  aligned : oti.symbolAlignment.toNat ∣ oti.symbolSize.toNat
  subBlocks_pos : 1 ≤ oti.subBlocks.toNat
  subBlocks_le : oti.subBlocks.toNat ≤ oti.symbolSize.toNat / oti.symbolAlignment.toNat
  blocks_pos : 1 ≤ oti.sourceBlocks.toNat
  blocks_le : oti.sourceBlocks.toNat ≤ divCeil length oti.symbolSize.toNat

def totalSymbols (oti : Oti) : ℕ := divCeil oti.transferLength.toNat oti.symbolSize.toNat

def blockSymbols (oti : Oti) (b : ℕ) : ℕ := partSize (totalSymbols oti) oti.sourceBlocks.toNat b

def blockStart (oti : Oti) (b : ℕ) : ℕ :=
  ((List.range b).map (fun b ↦ blockSymbols oti b * oti.symbolSize.toNat)).sum

def widths (oti : Oti) : List ℕ :=
  (List.range oti.subBlocks.toNat).map (fun subBlock ↦
    partSize (oti.symbolSize.toNat / oti.symbolAlignment.toNat) oti.subBlocks.toNat subBlock *
      oti.symbolAlignment.toNat)

def paddedObject (data : Bytes) (oti : Oti) : Bytes :=
  data ++ List.replicate (totalSymbols oti * oti.symbolSize.toNat - data.length) 0

def block (data : Bytes) (oti : Oti) (b : ℕ) : Bytes :=
  ((paddedObject data oti).drop (blockStart oti b)).take (blockSymbols oti b * oti.symbolSize.toNat)

/-- The source packets of a block: the sub-blocks follow one another in the block, and a
symbol is made of one sub-symbol of each. -/
def systematic (data : Bytes) (oti : Oti) (b : ℕ) : List EncodingPacket :=
  (interleave (blockSymbols oti b) (widths oti) (block data oti b)).mapIdx (fun index symbol ↦
    ⟨⟨UInt8.ofNat b, BitVec.ofNat 24 index⟩, symbol⟩)

theorem replicate_partition {i j : ℕ} (hj : 0 < j) (f : ℕ → ℕ) :
    List.replicate (partition i j).2.2.1 (f (partition i j).1) ++
        List.replicate (partition i j).2.2.2 (f (partition i j).2.1) =
      (List.range j).map (fun part ↦ f (partSize i j part)) := by
  have hrest : i - i / j * j = i % j := by
    have := Nat.div_add_mod' i j
    omega
  have hlt := Nat.mod_lt i hj
  have hrange : List.range j = List.range (i % j) ++ (List.range (j - i % j)).map (i % j + ·) := by
    rw [← List.range_add, Nat.add_sub_cancel' hlt.le]
  simp only [partition, partSize, hrest]
  rw [hrange, List.map_append, List.map_map]
  congr 1
  · rw [List.map_congr_left (g := fun _ ↦ f (divCeil i j)) (fun part hpart ↦
      by rw [if_pos (List.mem_range.mp hpart)])]
    simp
  · rw [List.map_congr_left (g := fun _ ↦ f (i / j)) (fun part _ ↦ by simp)]
    simp

theorem partition_parts {i j : ℕ} (hj : 0 < j) :
    (partition i j).2.2.1 + (partition i j).2.2.2 = j := by
  have hi := Nat.div_add_mod' i j
  have hlt := Nat.mod_lt i hj
  simp only [partition]
  omega

theorem partSize_def (i j part : ℕ) : partSize i j part =
    if part < (partition i j).2.2.1 then (partition i j).1 else (partition i j).2.1 := rfl

theorem offsets_eq (start : ℕ) (sizes : List ℕ) : offsets start sizes =
    (List.range sizes.length).map (fun b ↦
      (start + (sizes.take b).sum, start + (sizes.take (b + 1)).sum)) := by
  induction sizes generalizing start with
  | nil => rfl
  | cons size sizes ih =>
    rw [offsets, ih, List.length_cons, List.range_succ_eq_map, List.map_cons, List.map_map]
    simp [Function.comp_def, Nat.add_assoc]

theorem blockStart_succ (oti : Oti) (b : ℕ) :
    blockStart oti (b + 1) = blockStart oti b + blockSymbols oti b * oti.symbolSize.toNat := by
  simp [blockStart, List.range_succ]

namespace Fits

variable (h : Fits oti data.length)

include h

theorem alignment_pos : 0 < oti.symbolAlignment.toNat :=
  (Nat.div_pos_iff.mp (h.subBlocks_pos.trans h.subBlocks_le)).1

theorem symbolSize_pos : 0 < oti.symbolSize.toNat :=
  h.alignment_pos.trans_le (Nat.div_pos_iff.mp (h.subBlocks_pos.trans h.subBlocks_le)).2

theorem sum_widths : (widths oti).sum = oti.symbolSize.toNat := by
  rw [widths, List.sum_map_mul_right, sum_partSize_all h.subBlocks_pos,
    Nat.div_mul_cancel h.aligned]

theorem blockStart_le (hb : b ≤ oti.sourceBlocks.toNat) :
    blockStart oti b ≤ totalSymbols oti * oti.symbolSize.toNat := by
  rw [blockStart, List.sum_map_mul_right]
  exact Nat.mul_le_mul_right _ (sum_partSize_le h.blocks_pos hb)

theorem blockStart_last :
    blockStart oti oti.sourceBlocks.toNat = totalSymbols oti * oti.symbolSize.toNat := by
  rw [blockStart, List.sum_map_mul_right]
  exact congrArg (· * _) (sum_partSize_all h.blocks_pos)

theorem length_paddedObject :
    (paddedObject data oti).length = totalSymbols oti * oti.symbolSize.toNat := by
  have := le_divCeil_mul oti.transferLength.toNat h.symbolSize_pos
  rw [h.length_eq] at this
  rw [paddedObject, List.length_append, List.length_replicate, totalSymbols, h.length_eq]
  omega

theorem blockStart_le_length (hb : b < oti.sourceBlocks.toNat) :
    blockStart oti b ≤ data.length := by
  have hpos : 0 < blockSymbols oti b := by
    apply partSize_pos h.blocks_pos
    rw [totalSymbols, h.length_eq]
    exact h.blocks_le
  have hnext := h.blockStart_le (show b + 1 ≤ oti.sourceBlocks.toNat from hb)
  have hceil := Fec.Checked.divCeil_mul_le oti.transferLength.toNat h.symbolSize_pos
  have hsize : oti.symbolSize.toNat ≤ blockSymbols oti b * oti.symbolSize.toNat :=
    Nat.le_mul_of_pos_left _ hpos
  rw [blockStart_succ, totalSymbols] at hnext
  rw [h.length_eq] at hceil hnext
  omega

theorem length_block (hb : b < oti.sourceBlocks.toNat) :
    (block data oti b).length = blockSymbols oti b * oti.symbolSize.toNat := by
  have hnext := h.blockStart_le (show b + 1 ≤ oti.sourceBlocks.toNat from hb)
  rw [blockStart_succ] at hnext
  rw [block, List.length_take, List.length_drop, h.length_paddedObject]
  omega

end Fits

theorem extendSymbols_ok (width : ℕ) (symbols : List Bytes) (offset : ℕ)
    (h : offset + symbols.length * width ≤ padded.length) :
    extendSymbols padded width symbols offset =
      .ok (List.zipWith (· ++ ·) symbols (pieces width symbols.length (padded.drop offset)),
        offset + symbols.length * width) := by
  induction symbols generalizing offset with
  | nil => simp [extendSymbols]
  | cons symbol symbols ih =>
    rw [List.length_cons, Nat.add_mul, Nat.one_mul] at h
    have hslice : Fec.Checked.slice padded offset (offset + width) =
        .ok ((padded.drop offset).take width) := by
      rw [Fec.Checked.slice, Kymux.Checked.slice_ok (by omega) (by omega), Nat.add_sub_cancel_left]
    rw [extendSymbols, hslice]
    simp only [bind, Except.bind]
    rw [ih _ (by omega)]
    simp only [pure, Except.pure, List.length_cons, pieces, List.zipWith_cons_cons, List.drop_drop]
    rw [Nat.add_mul, Nat.one_mul, Nat.add_assoc, Nat.add_comm width]

theorem zipWith_append_assoc (xs ys zs : List Bytes) :
    List.zipWith (· ++ ·) (List.zipWith (· ++ ·) xs ys) zs =
      List.zipWith (· ++ ·) xs (List.zipWith (· ++ ·) ys zs) := by
  induction xs generalizing ys zs with
  | nil => rfl
  | cons x xs ih => cases ys <;> cases zs <;> simp [ih]

theorem zipWith_append_nil (xs : List Bytes) :
    List.zipWith (· ++ ·) xs (List.replicate xs.length []) = xs := by
  induction xs with
  | nil => rfl
  | cons x xs ih =>
    rw [List.length_cons, List.replicate_succ, List.zipWith_cons_cons, ih, List.append_nil]

theorem zipWith_nil_append (xs : List Bytes) :
    List.zipWith (· ++ ·) (List.replicate xs.length []) xs = xs := by
  induction xs with
  | nil => rfl
  | cons x xs ih =>
    rw [List.length_cons, List.replicate_succ, List.zipWith_cons_cons, ih, List.nil_append]

theorem extendSubBlocks_ok (ws : List ℕ) (symbols : List Bytes) (offset : ℕ)
    (h : offset + symbols.length * ws.sum ≤ padded.length) :
    extendSubBlocks padded ws symbols offset =
      .ok (List.zipWith (· ++ ·) symbols (interleave symbols.length ws (padded.drop offset)),
        offset + symbols.length * ws.sum) := by
  induction ws generalizing symbols offset with
  | nil => simp [extendSubBlocks, interleave, zipWith_append_nil]
  | cons w ws ih =>
    rw [List.sum_cons, Nat.mul_add] at h
    have hlen : (List.zipWith (· ++ ·) symbols
      (pieces w symbols.length (padded.drop offset))).length =
        symbols.length := by simp
    rw [extendSubBlocks, extendSymbols_ok _ _ _ (by omega)]
    simp only [bind, Except.bind]
    rw [ih _ _ (by rw [hlen]; omega), hlen, zipWith_append_assoc, interleave, List.drop_drop,
      List.sum_cons, Nat.mul_add, Nat.add_assoc]

theorem resize_slice (pad : ℕ) {start n : ℕ} (hstart : start ≤ data.length)
    (hpad : start + n ≤ data.length + pad) :
    resize n ((data.drop start).take (min (start + n) data.length - start)) =
      ((data ++ List.replicate pad 0).drop start).take n := by
  have hlen : (data.drop start).length = data.length - start := List.length_drop
  have htake : (data.drop start).take (min (start + n) data.length - start) =
      (data.drop start).take n := by
    rw [List.take_eq_take_iff, hlen]
    omega
  rw [htake, resize, List.take_take, min_self, List.length_take, hlen,
    List.drop_append_of_le_length hstart, List.take_append, hlen, List.take_replicate]
  congr 2
  omega

theorem Fits.blockPackets_eq (h : Fits oti data.length) (hb : b < oti.sourceBlocks.toNat) :
    blockPackets data oti b (blockStart oti b) (blockStart oti (b + 1)) =
      each (fun (symbol, index) ↦ (newPayloadId b index).map (⟨·, symbol⟩))
        (interleave (blockSymbols oti b) (widths oti) (block data oti b)).zipIdx := by
  have hstart := h.blockStart_le_length hb
  have hnext := h.blockStart_le (show b + 1 ≤ oti.sourceBlocks.toNat from hb)
  have htotal := h.length_paddedObject
  have hlen := h.length_block hb
  rw [paddedObject, List.length_append, List.length_replicate] at htotal
  rw [blockStart_succ] at hnext
  have hslice : Fec.Checked.slice data (blockStart oti b)
      (min (blockStart oti (b + 1)) data.length) = .ok ((data.drop (blockStart oti b)).take
        (min (blockStart oti (b + 1)) data.length - blockStart oti b)) :=
    Kymux.Checked.slice_ok (by rw [blockStart_succ]; omega) (min_le_right _ _)
  have hpadded : resize (blockStart oti (b + 1) - blockStart oti b)
    ((data.drop (blockStart oti b)).take
      (min (blockStart oti (b + 1)) data.length - blockStart oti b)) = block data oti b := by
    rw [blockStart_succ, Nat.add_sub_cancel_left, resize_slice
      (totalSymbols oti * oti.symbolSize.toNat - data.length) hstart (by omega)]
    rfl
  have hcount : (block data oti b).length / oti.symbolSize.toNat = blockSymbols oti b := by
    rw [hlen, Nat.mul_div_cancel _ h.symbolSize_pos]
  have hloop : extendSubBlocks (block data oti b) (widths oti)
    (List.replicate (blockSymbols oti b) []) 0 =
      .ok (interleave (blockSymbols oti b) (widths oti) (block data oti b),
        (block data oti b).length) := by
    rw [extendSubBlocks_ok _ _ _ (by simp [h.sum_widths, hlen]), List.length_replicate,
      List.drop_zero, h.sum_widths, hlen, Nat.zero_add]
    have hrows :=
      zipWith_nil_append (interleave (blockSymbols oti b) (widths oti) (block data oti b))
    rw [length_interleave] at hrows
    rw [hrows]
  simp only [blockPackets, hslice, bind, Except.bind, hpadded, hcount, if_neg h.alignment_pos.ne',
    tryPartition, if_neg (Nat.one_le_iff_ne_zero.mp h.subBlocks_pos),
    partition_parts h.subBlocks_pos, ← partSize_def]
  rw [← widths, hloop]
  simp only [ne_eq, not_true_eq_false, if_false]

theorem Fits.calculateBlockOffsets_eq (h : Fits oti data.length) : calculateBlockOffsets oti =
    .ok ((List.range oti.sourceBlocks.toNat).map
      (fun b ↦ (blockStart oti b, blockStart oti (b + 1)))) := by
  have hkt : Fec.Checked.divCeil oti.transferLength.toNat oti.symbolSize.toNat =
    .ok (totalSymbols oti) :=
    if_neg h.symbolSize_pos.ne'
  simp only [calculateBlockOffsets, hkt, bind, Except.bind, tryPartition,
    if_neg (Nat.one_le_iff_ne_zero.mp h.blocks_pos), pure, Except.pure]
  rw [replicate_partition h.blocks_pos (· * oti.symbolSize.toNat), offsets_eq, List.length_map,
    List.length_range]
  congr 1
  apply List.map_congr_left
  intro b hb
  have htake : ∀ n ≤ oti.sourceBlocks.toNat,
      (List.range oti.sourceBlocks.toNat).take n = List.range n := by
    intro n hn
    rw [List.take_range, min_eq_left hn]
  have hlt := List.mem_range.mp hb
  rw [← List.map_take, ← List.map_take, htake b hlt.le, htake (b + 1) hlt, Nat.zero_add,
    Nat.zero_add]
  rfl

theorem mem_blockOffsets {n start stop : ℕ} (h : ((start, stop), b) ∈ ((List.range n).map
    (fun b ↦ (blockStart oti b, blockStart oti (b + 1)))).zipIdx) :
    b < n ∧ blockStart oti b = start ∧ blockStart oti (b + 1) = stop := by
  have hget := List.mk_mem_zipIdx_iff_getElem?.mp h
  rw [List.getElem?_map, Option.map_eq_some_iff] at hget
  obtain ⟨c, hc, heq⟩ := hget
  obtain ⟨hlt, rfl⟩ := List.getElem?_eq_some_iff.mp hc
  rw [List.getElem_range, Prod.mk.injEq] at heq
  exact ⟨by simpa using hlt, heq⟩

/-- `source_packets` comes to the systematic symbols, block by block, if the numbers of
these have 24 bits. -/
theorem Fits.sourcePackets_eq (h : Fits oti data.length)
    (hids : ∀ b < oti.sourceBlocks.toNat, blockSymbols oti b ≤ 2 ^ 24) :
    sourcePackets data oti =
      .ok ((List.range oti.sourceBlocks.toNat).flatMap (systematic data oti)) := by
  have hkt : Fec.Checked.divCeil data.length oti.symbolSize.toNat =
      .ok (divCeil data.length oti.symbolSize.toNat) := if_neg h.symbolSize_pos.ne'
  have hblock : ∀ b < oti.sourceBlocks.toNat,
      blockPackets data oti b (blockStart oti b)
      (blockStart oti (b + 1)) = .ok (systematic data oti b) := by
    intro b hb
    rw [h.blockPackets_eq hb, each_ok (g := fun x ↦ ⟨⟨UInt8.ofNat b, BitVec.ofNat 24 x.2⟩, x.1⟩),
      systematic, List.mapIdx_eq_zipIdx_map]
    rintro ⟨symbol, index⟩ hx
    have hindex : index < blockSymbols oti b := by
      have hget := List.mk_mem_zipIdx_iff_getElem?.mp hx
      simpa using (List.getElem?_eq_some_iff.mp hget).1
    have := hids b hb
    simp only [newPayloadId, if_pos (show index < 16777216 by omega)]
    rfl
  have heach : each (fun x ↦ blockPackets data oti x.2 x.1.1 x.1.2)
      ((List.range oti.sourceBlocks.toNat).map
        (fun b ↦ (blockStart oti b, blockStart oti (b + 1)))).zipIdx =
      .ok ((List.range oti.sourceBlocks.toNat).map (systematic data oti)) := by
    rw [each_ok (g := fun x ↦ systematic data oti x.2)]
    · rw [← Function.comp_def, ← List.map_map, List.zipIdx_map_snd, List.length_map,
        List.length_range, ← List.range_eq_range']
    · rintro ⟨⟨start, stop⟩, b⟩ hx
      obtain ⟨hb, rfl, rfl⟩ := mem_blockOffsets hx
      exact hblock b hb
  simp only [sourcePackets, h.length_eq, ne_eq, not_true_eq_false, if_false, hkt,
    h.calculateBlockOffsets_eq, heach, bind, Except.bind, pure, Except.pure, List.flatMap_def]

theorem map_payloadId_systematic (data : Bytes) (oti : Oti) (b : ℕ) :
    (systematic data oti b).map EncodingPacket.payloadId =
      (List.range (blockSymbols oti b)).map
        (fun index ↦ ⟨UInt8.ofNat b, BitVec.ofNat 24 index⟩) := by
  have hsnd := List.zipIdx_map_snd 0
    (interleave (blockSymbols oti b) (widths oti) (block data oti b))
  rw [length_interleave, ← List.range_eq_range'] at hsnd
  rw [systematic, List.mapIdx_eq_zipIdx_map, List.map_map, ← hsnd, List.map_map]
  rfl

theorem map_data_systematic (data : Bytes) (oti : Oti) (b : ℕ) :
    (systematic data oti b).map EncodingPacket.data =
      interleave (blockSymbols oti b) (widths oti) (block data oti b) := by
  rw [systematic, List.mapIdx_eq_zipIdx_map, List.map_map]
  exact List.zipIdx_map_fst 0 _

theorem length_systematic (data : Bytes) (oti : Oti) (b : ℕ) :
    (systematic data oti b).length = blockSymbols oti b := by
  rw [systematic, List.length_mapIdx, length_interleave]

theorem flatMap_block (data : Bytes) (oti : Oti) (n : ℕ) :
    (List.range n).flatMap (block data oti) = (paddedObject data oti).take (blockStart oti n) := by
  induction n with
  | zero => rfl
  | succ n ih =>
    rw [List.range_succ, List.flatMap_append, ih, List.flatMap_singleton, blockStart_succ,
      List.take_add]
    rfl

namespace Fits

variable (h : Fits oti data.length)

include h

theorem length_of_mem_systematic (hb : b < oti.sourceBlocks.toNat) :
    ∀ p ∈ systematic data oti b, p.data.length = oti.symbolSize.toNat := by
  intro p hp
  have hmem : p.data ∈ (systematic data oti b).map EncodingPacket.data := List.mem_map_of_mem hp
  rw [map_data_systematic] at hmem
  rw [length_of_mem_interleave (by rw [h.sum_widths, h.length_block hb]) _ hmem, h.sum_widths]

theorem deinterleave_systematic :
    (List.range oti.sourceBlocks.toNat).flatMap (fun b ↦
      deinterleave (widths oti) ((systematic data oti b).map EncodingPacket.data)) =
        paddedObject data oti := by
  have hblock : ∀ b ∈ List.range oti.sourceBlocks.toNat,
      deinterleave (widths oti)
      ((systematic data oti b).map EncodingPacket.data) = block data oti b := by
    intro b hb
    rw [map_data_systematic, deinterleave_interleave]
    rw [h.sum_widths, h.length_block (List.mem_range.mp hb)]
  rw [List.flatMap_congr hblock, flatMap_block, h.blockStart_last, ← h.length_paddedObject,
    List.take_length]

theorem length_flatMap_systematic :
    ((List.range oti.sourceBlocks.toNat).flatMap (systematic data oti)).length =
      totalSymbols oti := by
  rw [List.length_flatMap, List.map_congr_left (fun b _ ↦ length_systematic data oti b)]
  exact sum_partSize_all h.blocks_pos

theorem sourcePackets_ids {packets : List EncodingPacket}
    (hok : sourcePackets data oti = .ok packets) (hb : b < oti.sourceBlocks.toNat) :
    blockSymbols oti b ≤ 2 ^ 24 := by
  have hkt : Fec.Checked.divCeil data.length oti.symbolSize.toNat =
      .ok (divCeil data.length oti.symbolSize.toNat) := if_neg h.symbolSize_pos.ne'
  simp only [sourcePackets, h.length_eq, ne_eq, not_true_eq_false, if_false, hkt,
    h.calculateBlockOffsets_eq, bind, Except.bind] at hok
  split at hok
  · cases hok
  · next blocks heach =>
    have hmem : ((blockStart oti b, blockStart oti (b + 1)),
      b) ∈ ((List.range oti.sourceBlocks.toNat).map
        (fun b ↦ (blockStart oti b, blockStart oti (b + 1)))).zipIdx := by
      rw [List.mk_mem_zipIdx_iff_getElem?, List.getElem?_map, List.getElem?_range hb]
      rfl
    obtain ⟨block, hblock⟩ := of_each_ok heach _ hmem
    rw [h.blockPackets_eq hb] at hblock
    by_contra hmany
    obtain ⟨symbol, hsymbol⟩ : ∃ symbol,
        (interleave (blockSymbols oti b) (widths oti) (SourceFirst.block data oti b))[2 ^ 24]? =
        some symbol :=
      ⟨_, List.getElem?_eq_getElem (by rw [length_interleave]; omega)⟩
    obtain ⟨p, hp⟩ := of_each_ok hblock _ (List.mk_mem_zipIdx_iff_getElem?.mpr hsymbol)
    cases hp

end Fits

end Kymux.SourceFirst
