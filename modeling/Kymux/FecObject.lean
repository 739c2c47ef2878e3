import Kymux.FecPartition

namespace Kymux.Fec

open BigEndian

structure Object (rq : RaptorQ) where
  oti : Oti
  decoder : rq.Decoder
  received : Finset SymbolKey
  perBlock : List ℕ
  receivedSources : ℕ

namespace Object

variable {rq : RaptorQ}

def new (oti : Oti) (maxPayload : ℕ) : Except Fault (Object rq) := do
  validateOti oti maxPayload
  return ⟨oti, rq.newDecoder oti, ∅, List.replicate oti.sourceBlocks.toNat 0, 0⟩

def decode (d : Object rq) (x : Symbol) : Except Fault (Option Bytes) × Object rq :=
  if x.oti ≠ d.oti then (.error (invalid "OTI changed within one object"), d)
  else
    match validateSymbol x.oti x.payloadId x.data.length with
    | .error e => (.error e, d)
    | .ok () =>
      let key := x.payloadId.key
      if key ∈ d.received then (.ok none, d)
      else
        let sources := sourceSymbolsForBlock x.oti x.payloadId.sourceBlockNumber
        match d.perBlock[x.payloadId.sourceBlockNumber.toNat]? with
        | none => (.error (.panic "index out of bounds"), d)
        | some count =>
          if count ≥ 2 * sources + 32 then
            (.error (invalid "too many distinct symbols for one source block"), d)
          else
            let d := { d with
              perBlock := d.perBlock.set x.payloadId.sourceBlockNumber.toNat (count + 1) }
            let d := { d with received := insert key d.received }
            let d := { d with
              receivedSources := d.receivedSources +
                if x.payloadId.encodingSymbolId.toNat < sources then 1 else 0 }
            let (decoder, out) := rq.decode d.decoder ⟨x.payloadId, x.data⟩
            (.ok out, { d with decoder })

def decodes (d : Object rq) (xs : List Symbol) : Object rq := xs.foldl (fun d x ↦ (d.decode x).2) d

def taken (d : Object rq) : List Symbol → List Symbol
  | [] => []
  | x :: xs =>
    match d.decode x with
    | (.ok _, d) => x :: d.taken xs
    | (.error _, d) => d.taken xs

end Object

namespace ObjectDecoder

variable {rq : RaptorQ} {d d' : ObjectDecoder rq} {x : Symbol}

def object (d : ObjectDecoder rq) : Object rq :=
  ⟨d.oti, d.decoder, d.received, d.perBlock, d.receivedSources⟩

theorem object_new (oti : Oti) (maxPayload : ℕ) :
    (new oti maxPayload : Except Fault (ObjectDecoder rq)).map object =
      Object.new oti maxPayload := by
  unfold new Object.new
  cases validateOti oti maxPayload <;> rfl

section Fresh

variable {count : ℕ} (hoti : x.oti = d.oti)
  (hv : validateSymbol d.oti x.payloadId x.data.length = .ok ())
  (hk : x.payloadId.key ∉ d.received)
  (hcount : d.perBlock[x.payloadId.sourceBlockNumber.toNat]? = some count)

include hoti hv hk hcount

/-- A symbol not seen before is stored, unless its block has as many as it may have. -/
theorem decode_fresh : ∃ d', d.decode x.oti x.payloadId x.data =
      (if count ≥ 2 * sourceSymbolsForBlock d.oti x.payloadId.sourceBlockNumber + 32 then
        .error (invalid "too many distinct symbols for one source block")
      else .ok ((rq.decode d.decoder ⟨x.payloadId, x.data⟩).2, d')) ∧
    d'.object = {
      oti := d.oti
      decoder := (rq.decode d.decoder ⟨x.payloadId, x.data⟩).1
      received := insert x.payloadId.key d.received
      perBlock := d.perBlock.set x.payloadId.sourceBlockNumber.toNat (count + 1)
      receivedSources := d.receivedSources + if isSource d.oti x.payloadId.key then 1 else 0 } := by
  unfold decode
  simp only [hoti, ne_eq, not_true_eq_false, if_false, hv, hk, dite_false]
  split
  · next hnone =>
    rw [hcount] at hnone
    cases hnone
  · next c hsome =>
    rw [hcount, Option.some.injEq] at hsome
    subst hsome
    exact ⟨_, rfl, rfl⟩

theorem decode_stored
    (hmost : ¬ count ≥ 2 * sourceSymbolsForBlock d.oti x.payloadId.sourceBlockNumber + 32) :
    ∃ d', d.decode x.oti x.payloadId x.data =
        .ok ((rq.decode d.decoder ⟨x.payloadId, x.data⟩).2, d') ∧
      d'.object = {
        oti := d.oti
        decoder := (rq.decode d.decoder ⟨x.payloadId, x.data⟩).1
        received := insert x.payloadId.key d.received
        perBlock := d.perBlock.set x.payloadId.sourceBlockNumber.toNat (count + 1)
        receivedSources :=
          d.receivedSources + if isSource d.oti x.payloadId.key then 1 else 0 } := by
  obtain ⟨d', hdecode, hobject⟩ := decode_fresh hoti hv hk hcount
  rw [if_neg hmost] at hdecode
  exact ⟨d', hdecode, hobject⟩

theorem decode_full
    (hmost : count ≥ 2 * sourceSymbolsForBlock d.oti x.payloadId.sourceBlockNumber + 32) :
    d.decode x.oti x.payloadId x.data =
      .error (invalid "too many distinct symbols for one source block") := by
  obtain ⟨d', hdecode, -⟩ := decode_fresh hoti hv hk hcount
  rw [hdecode, if_pos hmost]

end Fresh

theorem checked_of_stored {out : Option Bytes}
    (h : d.decode x.oti x.payloadId x.data = .ok (out, d')) (hk : x.payloadId.key ∉ d.received) :
    x.payloadId.sourceBlockNumber.toNat < d.oti.sourceBlocks.toNat ∧
      blockCount x.payloadId.sourceBlockNumber d.received <
        2 * sourceSymbolsForBlock d.oti x.payloadId.sourceBlockNumber + 32 := by
  have hoti := (decode_ok h).1
  cases hv : validateSymbol d.oti x.payloadId x.data.length with
  | error e => simp [decode, hoti, hv] at h
  | ok _ =>
    have hblock := (validateSymbol_ok_iff.mp hv).1
    obtain ⟨count, hcount⟩ := Checked.perBlock_get d hblock
    refine ⟨hblock, ?_⟩
    rw [← d.tallied _ _ hcount]
    by_contra hmost
    rw [decode_full hoti hv hk hcount (not_lt.mp hmost)] at h
    cases h

/-- A call on the fields keeps what a decoder knows about them. -/
theorem object_decode (d : ObjectDecoder rq) (x : Symbol) :
    d.object.decode x =
      match d.decode x.oti x.payloadId x.data with
      | .error e => (.error e, d.object)
      | .ok (out, d') => (.ok out, d'.object) := by
  by_cases hoti : x.oti = d.oti
  swap
  · simp [decode, Object.decode, object, hoti]
  cases hv : validateSymbol d.oti x.payloadId x.data.length with
  | error e => simp [decode, Object.decode, object, hoti, hv]
  | ok _ =>
    by_cases hk : x.payloadId.key ∈ d.received
    · simp [decode, Object.decode, object, hoti, hv, hk]
    · obtain ⟨count, hcount⟩ := Checked.perBlock_get d (validateSymbol_ok_iff.mp hv).1
      by_cases hmost : count ≥ 2 * sourceSymbolsForBlock d.oti x.payloadId.sourceBlockNumber + 32
      · rw [decode_full hoti hv hk hcount hmost]
        simp [Object.decode, object, hoti, hv, hk, hcount, hmost]
      · obtain ⟨d', hd, hobject⟩ := decode_stored hoti hv hk hcount hmost
        rw [hd]
        dsimp only
        rw [hobject]
        simp only [Object.decode, object, hoti, hv, hk, hcount, hmost, ne_eq, not_true_eq_false,
          if_false]
        rfl

end ObjectDecoder

theorem sourcesAmong_le {oti : Oti} {maxPayload : ℕ} (h : validateOti oti maxPayload = .ok ())
    {received : Finset SymbolKey} (hr : ∀ key ∈ received, key.1.toNat < oti.sourceBlocks.toNat) :
    sourcesAmong oti received ≤ sourceSymbols oti := by
  let sources := (Finset.range oti.sourceBlocks.toNat).sigma
    (fun b ↦ Finset.range (sourceSymbolsForBlock oti (UInt8.ofNat b)))
  have hmaps : ∀ key ∈ received.filter (isSource oti),
      (⟨key.1.toNat, key.2.toNat⟩ : (_ : ℕ) × ℕ) ∈ sources := by
    intro key hkey
    obtain ⟨hmem, hsource⟩ := Finset.mem_filter.mp hkey
    simp only [sources, Finset.mem_sigma, Finset.mem_range, UInt8.ofNat_toNat]
    exact ⟨hr key hmem, hsource⟩
  have hinj : Set.InjOn (fun key : SymbolKey ↦ (⟨key.1.toNat, key.2.toNat⟩ : (_ : ℕ) × ℕ))
      (received.filter (isSource oti)) := by
    rintro ⟨b, i⟩ _ ⟨b', i'⟩ _ he
    obtain ⟨hb, hi⟩ := Sigma.mk.inj he
    exact Prod.ext (UInt8.toNat_inj.mp hb) (BitVec.eq_of_toNat_eq (eq_of_heq hi))
  calc sourcesAmong oti received ≤ sources.card := Finset.card_le_card_of_injOn _ hmaps hinj
    _ = ∑ b ∈ Finset.range oti.sourceBlocks.toNat, sourceSymbolsForBlock oti (UInt8.ofNat b) := by
      simp [sources, Finset.card_sigma]
    _ = sourceSymbols oti := sum_sourceSymbolsForBlock h

def Symbol.packet (x : Symbol) : EncodingPacket := ⟨x.payloadId, x.data⟩

structure Fed {rq : RaptorQ} (d : ObjectDecoder rq) (symbols : List Symbol) : Prop where
  received : d.received = (symbols.map (fun x ↦ x.payloadId.key)).toFinset
  within : ∀ key ∈ d.received, key.1.toNat < d.oti.sourceBlocks.toNat
  bounded : ∀ block, blockCount block d.received ≤ 2 * sourceSymbolsForBlock d.oti block + 32
  once : ∃ packets : List EncodingPacket, packets.Sublist (symbols.map Symbol.packet) ∧
    (packets.map (fun p ↦ p.payloadId.key)).Nodup ∧
    (packets.map (fun p ↦ p.payloadId.key)).toFinset = d.received ∧
    d.decoder = rq.feed (rq.newDecoder d.oti) packets

namespace Fed

variable {rq : RaptorQ} {d d' : ObjectDecoder rq} {symbols : List Symbol} {x : Symbol}
  {out : Option Bytes}

theorem new {oti : Oti} {maxPayload : ℕ} (h : ObjectDecoder.new oti maxPayload = .ok d) :
    Fed d [] ∧ d.oti = oti := by
  obtain ⟨-, hoti, hreceived, hdecoder⟩ := ObjectDecoder.new_ok h
  refine ⟨⟨hreceived, fun key hkey ↦ ?_, fun block ↦ ?_, [], ?_⟩, hoti⟩
  · rw [hreceived] at hkey
    exact absurd hkey (Finset.notMem_empty key)
  · rw [hreceived]
    exact Nat.zero_le _
  · rw [hreceived, hdecoder, hoti]
    exact ⟨List.nil_sublist _, List.nodup_nil, rfl, rfl⟩

theorem again (hd : Fed d symbols) (hk : x.payloadId.key ∈ d.received) :
    Fed d (symbols ++ [x]) := by
  obtain ⟨packets, hsub, hnodup, hkeys, hfed⟩ := hd.once
  refine ⟨?_, hd.within, hd.bounded, packets, ?_, hnodup, hkeys, hfed⟩
  · rw [List.map_append, List.toFinset_append, ← hd.received]
    simpa using (Finset.insert_eq_of_mem hk).symm
  · rw [List.map_append]
    exact hsub.trans (List.sublist_append_left _ _)

theorem blockCount_insert {key : SymbolKey} {received : Finset SymbolKey} (hk : key ∉ received)
    (block : UInt8) :
    blockCount block (insert key received) =
      blockCount block received + if key.1 = block then 1 else 0 := by
  unfold blockCount
  rw [Finset.filter_insert]
  split_ifs
  · rw [Finset.card_insert_of_notMem (by simp [hk])]
  · rfl

theorem decode (hd : Fed d symbols) (h : d.decode x.oti x.payloadId x.data = .ok (out, d')) :
    Fed d' (symbols ++ [x]) ∧ d'.oti = d.oti := by
  obtain ⟨hoti, hsame, ⟨hk, rfl, rfl⟩ | ⟨hk, hreceived, hstep⟩⟩ := ObjectDecoder.decode_ok h
  · exact ⟨hd.again hk, rfl⟩
  obtain ⟨hblock, hroom⟩ := ObjectDecoder.checked_of_stored h hk
  obtain ⟨packets, hsub, hnodup, hkeys, hfed⟩ := hd.once
  refine ⟨⟨?_, ?_, ?_, packets ++ [x.packet], ?_, ?_, ?_, ?_⟩, hsame⟩
  · rw [hreceived, hd.received, List.map_append, List.toFinset_append, Finset.union_comm]
    rfl
  · intro key hkey
    rw [hreceived, Finset.mem_insert] at hkey
    rw [hsame]
    rcases hkey with rfl | hkey
    · exact hblock
    · exact hd.within key hkey
  · intro block
    have hle := hd.bounded block
    rw [hreceived, hsame, blockCount_insert hk]
    split_ifs with heq
    · rw [← show x.payloadId.sourceBlockNumber = block from heq]
      exact hroom
    · exact hle
  · rw [List.map_append]
    exact hsub.append (List.Sublist.refl _)
  · rw [List.map_append, List.nodup_append']
    refine ⟨hnodup, List.nodup_singleton _, ?_⟩
    rw [List.map_singleton, List.disjoint_singleton]
    intro hmem
    apply hk
    rw [← hkeys]
    exact List.mem_toFinset.mpr hmem
  · rw [hreceived, ← hkeys, List.map_append, List.toFinset_append, Finset.union_comm]
    rfl
  · rw [RaptorQ.feed_snoc, hsame, ← hfed]
    exact (congrArg Prod.fst hstep).symm

theorem decodes (hd : Fed d symbols) (xs : List Symbol) :
    ∃ d' : ObjectDecoder rq, d.object.decodes xs = d'.object ∧ d'.oti = d.oti ∧
      Fed d' (symbols ++ d.object.taken xs) := by
  induction xs generalizing d symbols with
  | nil =>
    refine ⟨d, rfl, rfl, ?_⟩
    rwa [Object.taken, List.append_nil]
  | cons x xs ih =>
    rw [Object.decodes, List.foldl_cons, Object.taken, ObjectDecoder.object_decode]
    cases hx : d.decode x.oti x.payloadId x.data with
    | error e => exact ih hd
    | ok r =>
      obtain ⟨hd', hsame⟩ := hd.decode hx
      obtain ⟨d', hdecodes, hoti, hfed⟩ := ih hd'
      refine ⟨d', hdecodes, hoti.trans hsame, ?_⟩
      rwa [List.append_assoc, List.singleton_append] at hfed

end Fed

namespace Object

variable {rq : RaptorQ}

theorem decode_again {d : ObjectDecoder rq} {x : Symbol} (hk : x.payloadId.key ∈ d.received) :
    (d.object.decode x).2 = d.object := by
  rw [ObjectDecoder.object_decode]
  cases h : d.decode x.oti x.payloadId x.data with
  | error e => rfl
  | ok r =>
    obtain ⟨out, d'⟩ := r
    obtain ⟨-, -, ⟨-, -, rfl⟩ | ⟨hnot, -⟩⟩ := ObjectDecoder.decode_ok h
    · rfl
    · exact absurd hk hnot

theorem decode_error {d : ObjectDecoder rq} {x : Symbol} {e : Fault}
    (he : (d.object.decode x).1 = .error e) : (d.object.decode x).2 = d.object := by
  rw [ObjectDecoder.object_decode] at he ⊢
  cases h : d.decode x.oti x.payloadId x.data with
  | error e => rfl
  | ok r => rw [h] at he; cases he

/-- The counters of a decoder against the symbols that it took, after any sequence of calls. -/
theorem bookkeeping {oti : Oti} {maxPayload : ℕ} {start : Object rq}
    (h : new oti maxPayload = .ok start) (xs : List Symbol) :
    let d := start.decodes xs
    let keys := (start.taken xs).map (fun x ↦ x.payloadId.key)
    d.received = keys.toFinset ∧
    (∀ block : UInt8, block < oti.sourceBlocks →
      d.perBlock[block.toNat]? = some (blockCount block keys.toFinset) ∧
      blockCount block keys.toFinset ≤ 2 * sourceSymbolsForBlock oti block + 32) ∧
    d.receivedSources = sourcesAmong oti keys.toFinset ∧
    d.receivedSources ≤ sourceSymbols oti ∧
    (∃ packets : List EncodingPacket, packets.Sublist ((start.taken xs).map Symbol.packet) ∧
      (packets.map (fun p ↦ p.payloadId.key)).Nodup ∧
      (packets.map (fun p ↦ p.payloadId.key)).toFinset = keys.toFinset ∧
      d.decoder = rq.feed (rq.newDecoder oti) packets) ∧
    ∀ x : Symbol,
      (x.payloadId.key ∈ keys → (d.decode x).2 = d) ∧
      ∀ e, (d.decode x).1 = .error e → (d.decode x).2 = d := by
  rw [← ObjectDecoder.object_new] at h
  cases hnew : (ObjectDecoder.new oti maxPayload : Except Fault (ObjectDecoder rq)) with
  | error e => rw [hnew] at h; cases h
  | ok d₀ =>
    rw [hnew] at h
    cases h
    obtain ⟨hfed₀, hoti₀⟩ := Fed.new hnew
    obtain ⟨d, hdecodes, hoti, hfed⟩ := hfed₀.decodes xs
    rw [hoti₀] at hoti
    rw [List.nil_append] at hfed
    dsimp only
    rw [hdecodes, ← hfed.received]
    refine ⟨rfl, fun block hblock ↦ ⟨?_, ?_⟩, ?_, ?_, ?_,
      fun x ↦ ⟨fun hx ↦ ?_, fun e ↦ decode_error⟩⟩
    · obtain ⟨count, hcount⟩ : ∃ count, d.perBlock[block.toNat]? = some count :=
        ⟨_, List.getElem?_eq_getElem (by rw [d.blocks, hoti]; exact hblock)⟩
      rw [← d.tallied _ _ hcount]
      exact hcount
    · exact hoti ▸ hfed.bounded block
    · exact hoti ▸ d.counted
    · change d.receivedSources ≤ _
      rw [d.counted, hoti]
      exact sourcesAmong_le (ObjectDecoder.new_ok hnew).1 (hoti ▸ hfed.within)
    · exact hoti ▸ hfed.once
    · apply decode_again
      rw [hfed.received]
      exact List.mem_toFinset.mpr hx

/-- The one source symbol of an object, twice. -/
theorem bookkeeping_repeated : ∃ start : Object RaptorQ.oneSymbol,
    new ⟨12, 16, 1, 1, 1⟩ maxVideoPayload = .ok start ∧
      (start.decodes (List.replicate 2 ⟨⟨12, 16, 1, 1, 1⟩, ⟨0, 0⟩, List.replicate 16 0⟩)).received =
        {(0, 0)} := by
  obtain ⟨start, hstart, htaken⟩ : ∃ start : Object RaptorQ.oneSymbol,
      new ⟨12, 16, 1, 1, 1⟩ maxVideoPayload = .ok start ∧
        ((start.taken (List.replicate 2 ⟨⟨12, 16, 1, 1, 1⟩, ⟨0, 0⟩, List.replicate 16 0⟩)).map
          (fun x ↦ x.payloadId.key)).toFinset = {(0, 0)} := ⟨_, rfl, rfl⟩
  exact ⟨start, hstart, (bookkeeping hstart _).1.trans htaken⟩

end Object

end Kymux.Fec
