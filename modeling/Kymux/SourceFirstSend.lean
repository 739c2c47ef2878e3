import Kymux.SourceFirstSymbols

namespace Kymux.SourceFirst

open Av BigEndian Driver Interleave

variable {rq : RaptorQ} {E : Encoders} {data : Bytes} {mtu : UInt16} {env : Env} {seqs : Bytes}
  {b : ℕ} {p : EncodingPacket}

def IsSource (oti : Oti) (p : EncodingPacket) : Prop :=
  p.payloadId.encodingSymbolId.toNat < blockSymbols oti p.payloadId.sourceBlockNumber.toNat

abbrev Encoders.defaults (E : Encoders) (data : Bytes) (mtu : UInt16) : Oti :=
  E.withDefaults data.length mtu

def Encoders.repair (E : Encoders) (data : Bytes) (mtu : UInt16) : ℕ :=
  repairSymbols (divCeil data.length (E.defaults data mtu).symbolSize.toNat)

/-- What is known of `raptorq` about an object. The default parameters fit it, within the
largest number of symbols of a block, and an encoder made from them and one made with
defaults agree: block by block, it gives the systematic symbols and then the repair symbols,
which are numbered behind them. -/
structure Systematic (rq : RaptorQ) (E : Encoders) (data : Bytes) (mtu : UInt16) : Prop where
  config : rq.config data mtu = E.defaults data mtu
  fits : Fits (E.defaults data mtu) data.length
  largest : ∀ b < (E.defaults data mtu).sourceBlocks.toNat,
    blockSymbols (E.defaults data mtu) b ≤ 56403
  encoded : rq.encodedPackets data mtu (E.repair data mtu) =
    (List.range (E.defaults data mtu).sourceBlocks.toNat).flatMap (fun b ↦
      systematic data (E.defaults data mtu) b ++
        E.repairPackets data (E.defaults data mtu) b (E.repair data mtu))
  repair : ∀ b < (E.defaults data mtu).sourceBlocks.toNat,
    ∀ p ∈ E.repairPackets data (E.defaults data mtu) b (E.repair data mtu),
      p.payloadId.sourceBlockNumber = UInt8.ofNat b ∧
        blockSymbols (E.defaults data mtu) b ≤ p.payloadId.encodingSymbolId.toNat

def Sendable (rq : RaptorQ) (E : Encoders) (packet : MediaPacket) (env : Env) : Prop :=
  ∀ header maxDatagramSize, packet.header.serialize = .ok header →
    env.maxDatagramSize = some maxDatagramSize → VideoFec.datagramHeaderSize < maxDatagramSize →
    maxDatagramSize < 0x10000 →
    Systematic rq E (header ++ packet.payload)
      (UInt16.ofNat (maxDatagramSize - VideoFec.datagramHeaderSize))

def sources (E : Encoders) (data : Bytes) (mtu : UInt16) : List EncodingPacket :=
  (List.range (E.defaults data mtu).sourceBlocks.toNat).flatMap
  (systematic data (E.defaults data mtu))

def repairs (E : Encoders) (data : Bytes) (mtu : UInt16) : List EncodingPacket :=
  (List.range (E.defaults data mtu).sourceBlocks.toNat).flatMap (fun b ↦
    E.repairPackets data (E.defaults data mtu) b (E.repair data mtu))

theorem toNat_block {oti : Oti} (hb : b < oti.sourceBlocks.toNat) : (UInt8.ofNat b).toNat = b := by
  have := oti.sourceBlocks.toNat_lt
  rw [UInt8.toNat_ofNat', Nat.mod_eq_of_lt (by omega)]

namespace Systematic

variable (h : Systematic rq E data mtu)

include h

theorem sendSourceFirst_eq : sendSourceFirst E data mtu env seqs =
    (sources E data mtu ++ repairs E data mtu).map (fecPacket env seqs (E.defaults data mtu)) := by
  have hids : ∀ b < (E.defaults data mtu).sourceBlocks.toNat,
      blockSymbols (E.defaults data mtu) b ≤ 2 ^ 24 :=
    fun b hb ↦ (h.largest b hb).trans (by decide)
  have htotal : totalSymbols (E.defaults data mtu) =
      divCeil data.length (E.defaults data mtu).symbolSize.toNat := by
    rw [totalSymbols, h.fits.length_eq]
  simp only [sendSourceFirst, h.fits.sourcePackets_eq hids, h.fits.length_flatMap_systematic,
    htotal, sources, repairs, Encoders.repair, List.map_append, List.map_flatMap]

theorem isSource_of_mem_sources (hp : p ∈ sources E data mtu) :
    IsSource (E.defaults data mtu) p := by
  obtain ⟨b, hb, hp⟩ := List.mem_flatMap.mp hp
  have hblock := List.mem_range.mp hb
  have hid : p.payloadId ∈ (systematic data (E.defaults data mtu) b).map EncodingPacket.payloadId :=
    List.mem_map_of_mem hp
  rw [map_payloadId_systematic] at hid
  obtain ⟨index, hindex, hid⟩ := List.mem_map.mp hid
  have hlt := List.mem_range.mp hindex
  have hmost := h.largest b hblock
  rw [IsSource, ← hid]
  simp only [toNat_block hblock, BitVec.toNat_ofNat]
  omega

theorem not_isSource_of_mem_repairs (hp : p ∈ repairs E data mtu) :
    ¬ IsSource (E.defaults data mtu) p := by
  obtain ⟨b, hb, hp⟩ := List.mem_flatMap.mp hp
  have hblock := List.mem_range.mp hb
  obtain ⟨hid, hle⟩ := h.repair b hblock p hp
  rw [IsSource, hid, toNat_block hblock]
  omega

theorem perm_encodedPackets : (sources E data mtu ++ repairs E data mtu).Perm
    (rq.encodedPackets data mtu (E.repair data mtu)) := by
  rw [h.encoded]
  exact List.flatMap_append_perm _ _ _

end Systematic

/-- The two senders do the same up to where they take the object apart. -/
theorem Sendable.datagrams_cases {packet : MediaPacket} (h : Sendable rq E packet env)
    (seqs : Bytes) :
    (∃ e, sourceFirstDatagrams E VideoFec.datagramHeaderSize seqs packet env = [.error e] ∧
      fecDatagrams rq VideoFec.datagramHeaderSize seqs packet env = [.error e]) ∨
    ∃ data mtu, Systematic rq E data mtu ∧
      sourceFirstDatagrams E VideoFec.datagramHeaderSize seqs packet env =
        sendSourceFirst E data mtu env seqs ∧
      fecDatagrams rq VideoFec.datagramHeaderSize seqs packet env =
        (rq.encodedPackets data mtu (E.repair data mtu)).map
          (fecPacket env seqs (E.defaults data mtu)) := by
  unfold sourceFirstDatagrams fecDatagrams
  cases hsize : env.maxDatagramSize with
  | none => exact .inl ⟨_, rfl, rfl⟩
  | some maxDatagramSize =>
    dsimp only
    by_cases hmin : VideoFec.datagramHeaderSize < maxDatagramSize
    · by_cases hmax : maxDatagramSize < 0x10000
      · simp only [hmin, hmax, not_true_eq_false, if_false]
        cases hheader : packet.header.serialize with
        | error e => exact .inl ⟨e, rfl, rfl⟩
        | ok header =>
          have hs := h header maxDatagramSize hheader hsize hmin hmax
          refine .inr ⟨_, _, hs, rfl, ?_⟩
          dsimp only
          rw [hs.config, if_neg]
          · rfl
          · intro hzero
            have hpos := hs.fits.symbolSize_pos
            rw [hzero] at hpos
            cases hpos
      · simp only [hmin, hmax, not_true_eq_false, not_false_eq_true, if_false, if_true]
        exact .inl ⟨_, rfl, rfl⟩
    · simp only [hmin, not_false_eq_true, if_true]
      exact .inl ⟨_, rfl, rfl⟩

/-- The source-first sender cuts objects as `raptorq` does: with parameters that fit, it
returns exactly when the symbols of each block can be numbered in 24 bits, and then what it
returns are the numbered symbols of each block, that give back the object and the zeros
behind it. Of a media packet it sends the datagrams that the ordinary sender sends, all of
source symbols before those of repair symbols. -/
theorem same_datagrams (rq : RaptorQ) (E : Encoders) :
    (∀ (data : Bytes) (oti : Oti), Fits oti data.length →
      ((∃ packets, sourcePackets data oti = .ok packets) ↔
        ∀ b < oti.sourceBlocks.toNat, blockSymbols oti b ≤ 2 ^ 24) ∧
      ∀ packets, sourcePackets data oti = .ok packets →
        ∃ blocks : List (List EncodingPacket), packets = blocks.flatten ∧
          blocks.length = oti.sourceBlocks.toNat ∧
          (∀ b block, blocks[b]? = some block →
            block.map EncodingPacket.payloadId = (List.range (blockSymbols oti b)).map
              (fun index ↦ ⟨UInt8.ofNat b, BitVec.ofNat 24 index⟩) ∧
            ∀ p ∈ block, p.data.length = oti.symbolSize.toNat) ∧
          blocks.flatMap (fun block ↦ deinterleave (widths oti) (block.map EncodingPacket.data)) =
            data ++ List.replicate
              (divCeil data.length oti.symbolSize.toNat * oti.symbolSize.toNat - data.length) 0) ∧
    (∀ (packet : MediaPacket) (s : Sender) (env : Env), Sendable rq E packet env →
      (sourceFirstDatagrams E VideoFec.datagramHeaderSize (videoSeqs s) packet env).Perm
        (fecDatagrams rq VideoFec.datagramHeaderSize (videoSeqs s) packet env) ∧
      ((∃ e, sourceFirstDatagrams E VideoFec.datagramHeaderSize (videoSeqs s) packet env =
        [.error e]) ∨
        ∃ (oti : Oti) (before after : List EncodingPacket), (∀ p ∈ before, IsSource oti p) ∧
        (∀ p ∈ after, ¬ IsSource oti p) ∧
          sourceFirstDatagrams E VideoFec.datagramHeaderSize (videoSeqs s) packet env =
            (before ++ after).map (fecPacket env (videoSeqs s) oti))) := by
  refine ⟨fun data oti hfits ↦ ⟨⟨fun ⟨packets, hok⟩ b hb ↦ hfits.sourcePackets_ids hok hb,
    fun hids ↦ ⟨_, hfits.sourcePackets_eq hids⟩⟩, fun packets hok ↦ ?_⟩,
      fun packet s env hsend ↦ ?_⟩
  · have hids : ∀ b < oti.sourceBlocks.toNat, blockSymbols oti b ≤ 2 ^ 24 :=
      fun b hb ↦ hfits.sourcePackets_ids hok hb
    rw [hfits.sourcePackets_eq hids] at hok
    refine ⟨(List.range oti.sourceBlocks.toNat).map (systematic data oti), ?_, ?_, ?_, ?_⟩
    · rw [← Except.ok.inj hok, List.flatMap_def]
    · simp
    · intro b block hblock
      obtain ⟨c, hc, rfl⟩ := Option.map_eq_some_iff.mp (List.getElem?_map .. ▸ hblock)
      obtain ⟨hlt, rfl⟩ := List.getElem?_eq_some_iff.mp hc
      rw [List.getElem_range] at *
      exact ⟨map_payloadId_systematic data oti b,
        hfits.length_of_mem_systematic (by simpa using hlt)⟩
    · rw [List.flatMap_map, hfits.deinterleave_systematic, paddedObject, totalSymbols,
        hfits.length_eq]
  · rcases hsend.datagrams_cases (videoSeqs s)
      with ⟨e, hfirst, hordinary⟩ | ⟨data, mtu, h, hfirst, hordinary⟩
    · rw [hfirst, hordinary]
      exact ⟨.refl _, .inl ⟨e, rfl⟩⟩
    · rw [hfirst, hordinary, h.sendSourceFirst_eq]
      exact ⟨h.perm_encodedPackets.map _, .inr ⟨_, _, _, fun p hp ↦ h.isSource_of_mem_sources hp,
        fun p hp ↦ h.not_isSource_of_mem_repairs hp, rfl⟩⟩

/-- A block of more symbols than can be numbered. -/
theorem sourcePackets_many : ∃ (data : Bytes) (oti : Oti), Fits oti data.length ∧
    ∀ packets, sourcePackets data oti ≠ .ok packets := by
  have hfits : Fits ⟨BitVec.ofNat 40 (2 ^ 24 + 1), 1, 1, 1, 1⟩
      (List.replicate (2 ^ 24 + 1) (0 : UInt8)).length := by
    rw [List.length_replicate]
    constructor <;> decide
  refine ⟨_, _, hfits, fun packets hok ↦ ?_⟩
  have hids := hfits.sourcePackets_ids hok (b := 0) (by decide)
  revert hids
  decide

def Encoders.oneSymbol : Encoders where
  withDefaults := RaptorQ.oneSymbolOti
  repairPackets data oti _ packets := (List.range packets).map (fun i ↦
    ⟨⟨0, BitVec.ofNat 24 (1 + i)⟩, data ++ List.replicate (oti.symbolSize.toNat - data.length) 0⟩)

/-- Five bytes in two blocks of two sub-blocks each, and a media packet of one symbol. -/
theorem same_datagrams_small :
    (∃ packets, sourcePackets [1, 2, 3, 4, 5] ⟨5, 2, 2, 2, 1⟩ = .ok packets) ∧
    (sourceFirstDatagrams .oneSymbol VideoFec.datagramHeaderSize (videoSeqs ⟨7, 1⟩)
        ⟨⟨false, false, 0, 0⟩, []⟩ ⟨3, some 90, none⟩).Perm
      (fecDatagrams .oneSymbol VideoFec.datagramHeaderSize (videoSeqs ⟨7, 1⟩)
        ⟨⟨false, false, 0, 0⟩, []⟩ ⟨3, some 90, none⟩) := by
  constructor
  · refine ((same_datagrams .oneSymbol .oneSymbol).1 [1, 2, 3, 4, 5] ⟨5, 2, 2, 2, 1⟩ ?_).1.mpr ?_
    · constructor <;> decide
    · decide
  · refine ((same_datagrams .oneSymbol .oneSymbol).2 _ _ _ ?_).1
    rintro header maxDatagramSize hheader ⟨⟩ - -
    obtain rfl : header = 0x80 :: List.replicate 11 0 := Except.ok.inj (hheader.symm.trans rfl)
    refine ⟨rfl, ?_, by decide, rfl, by decide⟩
    constructor <;> decide

end Kymux.SourceFirst
