import Kymux.Driver.FecFormat
import Kymux.FecObject

namespace Kymux

namespace Driver

variable {m n : ℕ}

theorem roundF32_of_lt (h : m < 2 ^ 24) : roundF32 m = m := by
  have hsize : m.size - 24 = 0 := Nat.sub_eq_zero_of_le (Nat.size_le.mpr h)
  simp [roundF32, hsize, Nat.mod_one]

theorem roundF32_le (m : ℕ) : 2 ^ 24 * roundF32 m ≤ (2 ^ 24 + 1) * m := by
  rcases lt_or_ge m (2 ^ 24) with hlt | hge
  · rw [roundF32_of_lt hlt]
    exact Nat.mul_le_mul_right m (Nat.le_succ _)
  -- The last bit that is kept is at most one part in `2 ^ 23` of the number.
  have hunit : 2 ^ (m.size - 24) * 2 ^ 23 ≤ m := by
    have hsize : 24 < m.size := Nat.lt_size.mpr hge
    rw [← Nat.pow_add]
    exact Nat.lt_size.mp (by omega)
  have hsplit := Nat.div_add_mod' m (2 ^ (m.size - 24))
  simp only [roundF32]
  generalize 2 ^ (m.size - 24) = unit at *
  split_ifs with hup
  · rw [Nat.add_mul, Nat.one_mul]
    omega
  · omega

theorem divCeil_mul_lt (m : ℕ) (hn : 0 < n) : divCeil m n * n < m + n := by
  have := Nat.div_mul_le_self (m + n - 1) n
  rw [divCeil]
  omega

/-- The repair symbols of an object are three tenths of its source symbols, and some more. -/
theorem repairSymbols_le (h : n ≤ Fec.maxSourceSymbols) : 10 * repairSymbols n ≤ 3 * n + 20 := by
  have hround := roundF32_le (n * 10066330)
  have hceil := divCeil_mul_lt (roundF32 (n * 10066330)) (n := 2 ^ 25) (by decide)
  have hmost : n ≤ 131072 := h
  have hexact : roundF32 n = n := roundF32_of_lt (lt_of_le_of_lt hmost (by decide))
  rw [repairSymbols, hexact]
  omega

end Driver

namespace Fec

open Av BigEndian Driver

variable {rq : RaptorQ} {data : Bytes} {mtu : UInt16}

abbrev symbolCount (rq : RaptorQ) (data : Bytes) (mtu : UInt16) : ℕ :=
  divCeil data.length (rq.config data mtu).symbolSize.toNat

/-- What is known of `raptorq` about an object and the default parameters. There are as few source
blocks as the largest block allows, of the sizes of RFC 6330, and every one of them gets its repair
symbols, numbered behind its source symbols. -/
structure Partitioned (rq : RaptorQ) (data : Bytes) (mtu : UInt16) : Prop where
  transferLength : (rq.config data mtu).transferLength.toNat = data.length
  sourceBlocks :
    (rq.config data mtu).sourceBlocks.toNat = divCeil (symbolCount rq data mtu) maxBlockSymbols
  encoded : (rq.encodedPackets data mtu (repairSymbols (symbolCount rq data mtu))).map
      EncodingPacket.payloadId =
    (List.range (rq.config data mtu).sourceBlocks.toNat).flatMap (fun b ↦
      (List.range (partSize (symbolCount rq data mtu) (rq.config data mtu).sourceBlocks.toNat b +
        repairSymbols (symbolCount rq data mtu))).map (fun i ↦ ⟨UInt8.ofNat b, BitVec.ofNat 24 i⟩))

namespace Partitioned

variable (h : Partitioned rq data mtu) (hmost : symbolCount rq data mtu ≤ maxSourceSymbols)

include h

theorem sourceSymbols_eq : sourceSymbols (rq.config data mtu) = symbolCount rq data mtu := by
  rw [sourceSymbols, h.transferLength]

include hmost

theorem sourceSymbolsForBlock_eq (block : UInt8) :
    sourceSymbolsForBlock (rq.config data mtu) block =
      partSize (symbolCount rq data mtu) (rq.config data mtu).sourceBlocks.toNat block.toNat := by
  have hfit : symbolCount rq data mtu < 2 ^ 32 := lt_of_le_of_lt hmost (by decide)
  rw [sourceSymbolsForBlock, h.sourceSymbols_eq, Nat.mod_eq_of_lt hfit]
  rfl

/-- There are at most three blocks, and a third of the symbols is more than the repair symbols. -/
theorem repair_le {block : UInt8} (hblock : block < (rq.config data mtu).sourceBlocks) :
    repairSymbols (symbolCount rq data mtu) ≤
      sourceSymbolsForBlock (rq.config data mtu) block + 32 := by
  have hrepair := repairSymbols_le hmost
  have hblocks : (rq.config data mtu).sourceBlocks.toNat ≤ 3 := by
    rw [h.sourceBlocks]
    exact (Nat.div_le_div_right (by simp only [maxSourceSymbols] at hmost; omega)).trans
      (show (131072 + maxBlockSymbols - 1) / maxBlockSymbols ≤ 3 by decide)
  have hpos : 0 < (rq.config data mtu).sourceBlocks.toNat := Nat.zero_lt_of_lt hblock
  rw [h.sourceSymbolsForBlock_eq hmost, partSize_eq hpos]
  have hthird : symbolCount rq data mtu / 3 ≤
      symbolCount rq data mtu / (rq.config data mtu).sourceBlocks.toNat :=
    Nat.div_le_div_left hblocks hpos
  omega

theorem symbol_lt {p : EncodingPacket}
    (hp : p ∈ rq.encodedPackets data mtu (repairSymbols (symbolCount rq data mtu))) :
    p.payloadId.sourceBlockNumber < (rq.config data mtu).sourceBlocks ∧
      p.payloadId.encodingSymbolId.toNat <
        sourceSymbolsForBlock (rq.config data mtu) p.payloadId.sourceBlockNumber +
          repairSymbols (symbolCount rq data mtu) := by
  have hid := List.mem_map_of_mem (f := EncodingPacket.payloadId) hp
  rw [h.encoded] at hid
  obtain ⟨b, hb, hid⟩ := List.mem_flatMap.mp hid
  obtain ⟨i, hi, hid⟩ := List.mem_map.mp hid
  have hblock := List.mem_range.mp hb
  have hindex := List.mem_range.mp hi
  have hnat : (UInt8.ofNat b).toNat = b := by
    have := (rq.config data mtu).sourceBlocks.toNat_lt
    rw [UInt8.toNat_ofNat', Nat.mod_eq_of_lt (by omega)]
  rw [← hid, h.sourceSymbolsForBlock_eq hmost, hnat, BitVec.toNat_ofNat]
  refine ⟨?_, lt_of_le_of_lt (Nat.mod_le _ _) hindex⟩
  rw [UInt8.lt_iff_toNat_lt, hnat]
  exact hblock

end Partitioned

theorem blockCount_le {received : Finset SymbolKey} {block : UInt8} {n : ℕ}
    (h : ∀ key ∈ received, key.1 = block → key.2.toNat < n) : blockCount block received ≤ n := by
  rw [blockCount, ← Finset.card_range n]
  apply Finset.card_le_card_of_injOn (fun key ↦ key.2.toNat)
  · intro key hkey
    obtain ⟨hmem, hblock⟩ := Finset.mem_filter.mp hkey
    exact Finset.mem_coe.mpr (Finset.mem_range.mpr (h key hmem hblock))
  · rintro ⟨b, i⟩ hb ⟨b', i'⟩ hb' heq
    have hblock := (Finset.mem_filter.mp hb).2
    have hblock' := (Finset.mem_filter.mp hb').2
    exact Prod.ext (hblock.trans hblock'.symm) (BitVec.eq_of_toNat_eq heq)

theorem Object.mem_of_mem_taken {d : Object rq} {xs : List Symbol} {x : Symbol}
    (h : x ∈ d.taken xs) :
    x ∈ xs := by
  induction xs generalizing d with
  | nil => cases h
  | cons y ys ih =>
    rw [Object.taken] at h
    split at h
    · rcases List.mem_cons.mp h with rfl | h
      · exact List.mem_cons_self
      · exact List.mem_cons_of_mem _ (ih h)
    · exact List.mem_cons_of_mem _ (ih h)

/-- A decoder takes a symbol as long as its block has room. -/
theorem ObjectDecoder.decode_of_room {d : ObjectDecoder rq} {x : Symbol} (hoti : x.oti = d.oti)
    (hvalid : validateSymbol d.oti x.payloadId x.data.length = .ok ())
    (hroom : x.payloadId.key ∉ d.received →
      blockCount x.payloadId.sourceBlockNumber d.received <
        2 * sourceSymbolsForBlock d.oti x.payloadId.sourceBlockNumber + 32) :
    ∃ r, d.decode x.oti x.payloadId x.data = .ok r := by
  by_cases hk : x.payloadId.key ∈ d.received
  · exact ⟨(none, d), by simp [decode, hoti, hvalid, hk]⟩
  obtain ⟨count, hcount⟩ := Checked.perBlock_get d (validateSymbol_ok_iff.mp hvalid).1
  have hlt := hroom hk
  rw [← d.tallied _ _ hcount] at hlt
  obtain ⟨d', hd, -⟩ := decode_stored hoti hvalid hk hcount (not_le.mpr hlt)
  exact ⟨_, hd⟩

/-- With one more symbol of the object a block has at most all that were made for it. -/
theorem Partitioned.room (h : Partitioned rq data mtu)
    (hmost : symbolCount rq data mtu ≤ maxSourceSymbols) {d : ObjectDecoder rq}
    {symbols : List Symbol} {x : Symbol} (hfed : Fed d symbols) (hsymbols : ∀ y ∈ x :: symbols,
      y.packet ∈ rq.encodedPackets data mtu (repairSymbols (symbolCount rq data mtu)))
    (hk : x.payloadId.key ∉ d.received) :
    blockCount x.payloadId.sourceBlockNumber d.received <
      2 * sourceSymbolsForBlock (rq.config data mtu) x.payloadId.sourceBlockNumber + 32 := by
  have hbelow : ∀ key ∈ insert x.payloadId.key d.received, key.1 = x.payloadId.sourceBlockNumber →
      key.2.toNat < sourceSymbolsForBlock (rq.config data mtu) x.payloadId.sourceBlockNumber +
        repairSymbols (symbolCount rq data mtu) := by
    intro key hkey hsame
    rw [hfed.received, ← List.toFinset_cons, List.mem_toFinset] at hkey
    obtain ⟨y, hy, rfl⟩ : ∃ y ∈ x :: symbols, y.payloadId.key = key := List.mem_map.mp hkey
    rw [← hsame]
    exact (h.symbol_lt hmost (hsymbols y hy)).2
  have hle := blockCount_le hbelow
  have hblock := (h.symbol_lt hmost (hsymbols x List.mem_cons_self)).1
  have hrepair := h.repair_le hmost hblock
  rw [Fed.blockCount_insert hk,
    if_pos (show x.payloadId.key.1 = x.payloadId.sourceBlockNumber from rfl)] at hle
  change _ ≤
    sourceSymbolsForBlock (rq.config data mtu) x.payloadId.sourceBlockNumber + 32 at hrepair
  omega

end Fec

namespace VideoFec

open Av BigEndian Driver EventLoop Fec

variable {rq : RaptorQ}

def Emitted (rq : RaptorQ) (s : Sender) (packet : MediaPacket) (env : Env) (x : Symbol) : Prop :=
  ∃ datagram msg, .ok (.sendDatagram datagram) ∈ (sendDriver rq).datagrams s packet env ∧
    parse datagram = .ok msg ∧ msg.content = x

theorem emitted_symbol {s : Sender} {packet : MediaPacket} {env : Env} {x : Symbol}
    {maxDatagramSize : ℕ} {header : Bytes} (hmax : env.maxDatagramSize = some maxDatagramSize)
    (hs : packet.header.serialize = .ok header) (h : Emitted rq s packet env x) :
    let data := header ++ packet.payload
    let mtu := UInt16.ofNat (maxDatagramSize - datagramHeaderSize)
    x.Valid maxVideoPayload ∧ x.oti = rq.config data mtu ∧
      x.packet ∈ rq.encodedPackets data mtu (repairSymbols (symbolCount rq data mtu)) := by
  obtain ⟨datagram, msg, hmem, hparse, rfl⟩ := h
  obtain ⟨maxDatagramSize', header', hmax', hs', -, hoti, hsymbol⟩ := symbol_of_datagram hmem hparse
  obtain rfl : maxDatagramSize = maxDatagramSize' := Option.some.inj (hmax.symm.trans hmax')
  obtain rfl : header = header' := Except.ok.inj (hs.symm.trans hs')
  exact ⟨(fecDatagram_of_parse hparse).1, hoti, hsymbol⟩

/-- The symbols of an object, in any order and any of them, stay within what its decoder takes. -/
theorem emitted_below_cap (rq : RaptorQ) (s : Sender) (packet : MediaPacket) (env : Env)
    (maxDatagramSize : ℕ) (header : Bytes) (hmax : env.maxDatagramSize = some maxDatagramSize)
    (hs : packet.header.serialize = .ok header) :
    let data := header ++ packet.payload
    let mtu := UInt16.ofNat (maxDatagramSize - datagramHeaderSize)
    let oti := rq.config data mtu
    Partitioned rq data mtu → symbolCount rq data mtu ≤ 131072 →
      (∀ block < oti.sourceBlocks, sourceSymbolsForBlock oti block +
        repairSymbols (symbolCount rq data mtu) ≤ 2 * sourceSymbolsForBlock oti block + 32) ∧
      ∀ (start : Object rq) (xs : List Symbol) (x : Symbol),
      Object.new oti maxVideoPayload = .ok start →
        (∀ y ∈ xs ++ [x], Emitted rq s packet env y) →
        ((start.decodes xs).decode x).1 ≠
            .error (invalid "too many distinct symbols for one source block") ∧
          ∃ out, ((start.decodes xs).decode x).1 = .ok out := by
  intro data mtu oti hpart hmost
  refine ⟨fun block hblock ↦ ?_, fun start xs x hnew hemitted ↦ ?_⟩
  · have hrepair := hpart.repair_le hmost hblock
    rw [Nat.two_mul, Nat.add_assoc]
    exact Nat.add_le_add_left hrepair _
  have hsymbol : ∀ y ∈ xs ++ [x], y.Valid maxVideoPayload ∧ y.oti = oti ∧
      y.packet ∈ rq.encodedPackets data mtu (repairSymbols (symbolCount rq data mtu)) :=
    fun y hy ↦ emitted_symbol hmax hs (hemitted y hy)
  rw [← ObjectDecoder.object_new] at hnew
  obtain ⟨d₀, hstart, rfl⟩ := ok_of_map hnew
  obtain ⟨hfed₀, hoti₀⟩ := Fed.new hstart
  obtain ⟨d, hdecodes, hoti, hfed⟩ := hfed₀.decodes xs
  obtain ⟨hvalid, hx, -⟩ := hsymbol x (by simp)
  have hsame : x.oti = d.oti := hx.trans (hoti.trans hoti₀).symm
  obtain ⟨⟨out, d'⟩, hd⟩ : ∃ r, d.decode x.oti x.payloadId x.data = .ok r := by
    refine ObjectDecoder.decode_of_room hsame ?_ fun hk ↦ ?_
    · rw [← hsame]
      exact validateSymbol_ok_iff.mpr ⟨hvalid.block, hvalid.size⟩
    · rw [← hsame, hx]
      refine hpart.room hmost hfed (fun y hy ↦ (hsymbol y ?_).2.2) hk
      rcases List.mem_cons.mp hy with rfl | hy
      · simp
      · exact List.mem_append_left _ (Object.mem_of_mem_taken hy)
  rw [hdecodes, ObjectDecoder.object_decode, hd]
  exact ⟨nofun, out, rfl⟩

/-- A media packet of one symbol, which gets two for its repair. -/
theorem emitted_below_cap_oneSymbol :
    (∀ block < (1 : UInt8), sourceSymbolsForBlock ⟨12, 16, 1, 1, 1⟩ block + repairSymbols 1 ≤
      2 * sourceSymbolsForBlock ⟨12, 16, 1, 1, 1⟩ block + 32) ∧
    ∃ start : Object RaptorQ.oneSymbol, Object.new ⟨12, 16, 1, 1, 1⟩ maxVideoPayload = .ok start ∧
      ∀ (xs : List Symbol) (x : Symbol),
        (∀ y ∈ xs ++ [x],
          Emitted .oneSymbol ⟨7, 1⟩ ⟨⟨false, false, 0, 0⟩, []⟩ ⟨3, some 42, none⟩ y) →
          ∃ out, ((start.decodes xs).decode x).1 = .ok out := by
  have hpart : Partitioned .oneSymbol (0x80 :: List.replicate 11 0) 16 := by
    refine ⟨?_, ?_, ?_⟩ <;> decide
  obtain ⟨hroom, htakes⟩ := emitted_below_cap .oneSymbol ⟨7, 1⟩ ⟨⟨false, false, 0, 0⟩, []⟩
    ⟨3, some 42, none⟩ 42 (0x80 :: List.replicate 11 0) rfl rfl hpart (by decide)
  exact ⟨hroom, _, rfl, fun xs x hemitted ↦ (htakes _ xs x rfl hemitted).2⟩

end VideoFec

end Kymux
