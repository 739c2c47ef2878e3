import Kymux.Driver.FecRepair
import Kymux.Driver.InTurn
import Kymux.Driver.VideoFecHonest

namespace Kymux.Driver.Coding

open Av BigEndian Fec

variable {calls : List Call} {i : ℕ}

def repair (rq : RaptorQ) (c : Coding calls i) : ℕ := repairSymbols (symbolCount rq c.data c.mtu)

structure Accepted (rq : RaptorQ) (c : Coding calls i) : Prop where
  size : c.media.header.size.toNat = c.media.payload.length
  oti : validateOti (c.oti rq) maxVideoPayload = .ok ()
  partitioned : Partitioned rq c.data c.mtu
  symbolSize : ∀ p ∈ c.symbols rq, p.data.length = (c.oti rq).symbolSize.toNat

namespace Accepted

variable {rq : RaptorQ} {c : Coding calls i} {x : Symbol}

theorem symbolCount_le (h : c.Accepted rq) : symbolCount rq c.data c.mtu ≤ maxSourceSymbols := by
  rw [← h.partitioned.sourceSymbols_eq]
  exact (Checked.accepted_of_ok h.oti).symbols

theorem valid (h : c.Accepted rq) (hoti : x.oti = c.oti rq) (hx : x.packet ∈ c.symbols rq) :
    x.Valid maxVideoPayload where
  oti := hoti ▸ h.oti
  block := hoti ▸ (h.partitioned.symbol_lt h.symbolCount_le hx).1
  size := hoti ▸ h.symbolSize x.packet hx

end Accepted

end Kymux.Driver.Coding

namespace Kymux.VideoFec

open Av BigEndian Driver EventLoop Fec

variable {rq : RaptorQ} {calls : List Call} {i : ℕ} {c : Coding calls i} {x : Symbol}
  {parts : Parts rq}

theorem parse_accepted (h : Succeeds (sendDriver rq) calls) {o : Outcome} {bytes : Bytes}
    (ho : ((sendDriver rq).sendAll .start calls)[i]? = some o) (hbytes : bytes ∈ o.datagrams)
    (hc : ∀ c : Coding calls i, c.Accepted rq) : ∃ msg, parse bytes = .ok msg := by
  obtain ⟨media, env, hcall, hmedia, hmem⟩ := h.datagram (isVideo_sendDriver rq) ho hbytes
  obtain ⟨maxDatagramSize, header, p, hmax, -, -, hs, hp, hop⟩ := mem_fecDatagrams hmem
  obtain ⟨c, hoti, hsymbol⟩ : ∃ c : Coding calls i, c.oti rq = rq.config (header ++ media.payload)
      (UInt16.ofNat (maxDatagramSize - datagramHeaderSize)) ∧ p ∈ c.symbols rq :=
    ⟨⟨media, env, maxDatagramSize, header, hcall, hmax, hs, hmedia⟩, rfl, hp⟩
  have hvalid : Symbol.Valid ⟨c.oti rq, p.payloadId, p.data⟩ maxVideoPayload :=
    (hc c).valid rfl hsymbol
  have hbytes' : bytes = fecDatagram env.endpointId (videoSeqs (senderOf (packets calls) i))
      ⟨c.oti rq, p.payloadId, p.data⟩ := by
    rw [Op.sendDatagram.inj hop, fecDatagram, Symbol.layout, hoti]
    simp only [List.append_assoc]
  rw [hbytes']
  obtain ⟨kypacketSeq, groupSeq⟩ := senderOf (packets calls) i
  exact ⟨_, @parse_fecDatagram env.endpointId
    ⟨⟨c.oti rq, p.payloadId, p.data⟩, kypacketSeq, groupSeq⟩ hvalid⟩

structure Collecting (rq : RaptorQ) (c : Coding calls i) (parts : Parts rq) : Prop where
  oti : parts.decoder.oti = c.oti rq
  fed : ∃ symbols, Fed parts.decoder symbols ∧ ∀ y ∈ symbols, y.packet ∈ c.symbols rq
  short : ∀ keys, rq.Enough c.data c.mtu (c.repair rq) keys → ¬ ∀ key ∈ keys,
    key ∈ parts.decoder.received

/-- What one more symbol does to the parts of its packet: they stay short, and it is received
with all that were, or they are complete. -/
def Adds (rq : RaptorQ) (c : Coding calls i) (x : Symbol) (parts parts' : Parts rq) : Prop :=
  (parts'.isComplete = false → Collecting rq c parts' ∧ x.payloadId.key ∈ parts'.decoder.received ∧
    ∀ key ∈ parts.decoder.received, key ∈ parts'.decoder.received) ∧
  (parts'.isComplete = true →
    ∃ object, parts'.assemble = .ok (object, .media c.media) ∧ object.oti = c.oti rq)

theorem Parts.new_of_valid {oti : Oti} (h : validateOti oti maxVideoPayload = .ok ())
    (created : ℕ) :
    ∃ parts : Parts rq, Parts.new oti created = .ok parts := by
  simp only [Parts.new, ObjectDecoder.new, h, bind, Except.bind, pure, Except.pure]
  exact ⟨_, rfl⟩

namespace Collecting

theorem of_new {created : ℕ} (hoti : x.oti = c.oti rq) (h : Parts.new x.oti created = .ok parts) :
    Collecting rq c parts := by
  have hdecoder := (Parts.new_ok h).1
  obtain ⟨-, hnew, hreceived, -⟩ := ObjectDecoder.new_ok hdecoder
  refine ⟨hnew.trans hoti, ⟨[], (Fed.new hdecoder).1, by simp⟩, fun keys henough hall ↦ ?_⟩
  obtain ⟨key, hkey⟩ := henough.nonempty
  have hmem := hall key hkey
  rw [hreceived] at hmem
  cases hmem

theorem short_of_decode {d d' : ObjectDecoder rq} {symbols : List Symbol} (hoti : d.oti = c.oti rq)
    (hfed : Fed d symbols) (hsymbols : ∀ y ∈ symbols, y.packet ∈ c.symbols rq)
    (hx : x.packet ∈ c.symbols rq) (hk : x.payloadId.key ∉ d.received)
    (hreceived : d'.received = insert x.payloadId.key d.received)
    (hdecode : (rq.decode d.decoder x.packet).2 = none) :
    ∀ keys, rq.Enough c.data c.mtu (c.repair rq) keys → ¬ ∀ key ∈ keys, key ∈ d'.received := by
  intro keys henough hall
  obtain ⟨packets, hsub, hnodup, hkeys, hdecoder⟩ := hfed.once
  have hmem : ∀ q ∈ packets ++ [x.packet], q ∈ c.symbols rq := by
    intro q hq
    obtain hq | hq := List.mem_append.mp hq
    · obtain ⟨y, hy, rfl⟩ := List.mem_map.mp (hsub.subset hq)
      exact hsymbols y hy
    · rw [List.mem_singleton.mp hq]
      exact hx
  have hsome := henough.yields packets x.packet hmem ?_ ?_
  · rw [show rq.config c.data c.mtu = d.oti from hoti.symm, ← hdecoder, hdecode] at hsome
    cases hsome
  · rw [List.map_append, List.nodup_append']
    refine ⟨hnodup, List.nodup_singleton _, ?_⟩
    rw [List.map_singleton, List.disjoint_singleton, ← List.mem_toFinset, hkeys]
    exact hk
  · intro key hkey
    have hin := hall key hkey
    rw [hreceived, Finset.mem_insert, ← hkeys, List.mem_toFinset] at hin
    rw [List.map_append, List.mem_append]
    exact hin.symm.imp id (fun heq ↦ List.mem_singleton.mpr heq)

theorem addPacket (h : Collecting rq c parts) (hrq : rq.Genuine) (hc : c.Accepted rq)
    (hoti : x.oti = c.oti rq) (hx : x.packet ∈ c.symbols rq) :
    ∃ parts', parts.addPacket x = .ok parts' ∧ Adds rq c x parts parts' := by
  obtain ⟨symbols, hfed, hsymbols⟩ := h.fed
  have hsame : x.oti = parts.decoder.oti := hoti.trans h.oti.symm
  have hvalid := hc.valid hoti hx
  obtain ⟨⟨out, d⟩, hdecode⟩ : ∃ r, parts.decoder.decode x.oti x.payloadId x.data = .ok r := by
    refine ObjectDecoder.decode_of_room hsame ?_ fun hk ↦ ?_
    · rw [← hsame]
      exact validateSymbol_ok_iff.mpr ⟨hvalid.block, hvalid.size⟩
    · rw [h.oti]
      refine hc.partitioned.room hc.symbolCount_le hfed (fun y hy ↦ ?_) hk
      obtain rfl | hy := List.mem_cons.mp hy
      · exact hx
      · exact hsymbols y hy
  have hadd : parts.addPacket x = .ok { parts with decoder := d, assembled := out } := by
    simp only [Parts.addPacket, hdecode, bind, Except.bind, pure, Except.pure]
  refine ⟨_, hadd, ?_, ?_⟩
  · intro hincomplete
    obtain rfl : out = none := by simpa [Parts.isComplete] using hincomplete
    obtain ⟨hfed', hoti'⟩ := hfed.decode hdecode
    obtain ⟨-, -, ⟨hk, -, rfl⟩ | ⟨hk, hreceived, hstep⟩⟩ := ObjectDecoder.decode_ok hdecode
    · exact ⟨⟨h.oti, h.fed, h.short⟩, hk, fun _ ↦ id⟩
    · refine ⟨⟨hoti'.trans h.oti, ⟨symbols ++ [x], hfed', ?_⟩, ?_⟩, ?_, ?_⟩
      · simpa [or_imp, forall_and] using And.intro hsymbols hx
      · exact short_of_decode h.oti hfed hsymbols hx hk hreceived (congrArg Prod.snd hstep)
      · exact hreceived ▸ Finset.mem_insert_self _ _
      · exact fun key hkey ↦ hreceived ▸ Finset.mem_insert_of_mem hkey
  · intro hcomplete
    obtain ⟨data, rfl⟩ : ∃ data, out = some data := by
      simpa [Parts.isComplete, Option.isSome_iff_exists] using hcomplete
    have hgenuine : genuine rq calls i parts := by
      obtain ⟨packets, hsub, -, -, hdecoder⟩ := hfed.once
      refine ⟨c, packets, h.oti, fun q hq ↦ ?_, by rw [hdecoder, h.oti]⟩
      obtain ⟨y, hy, rfl⟩ := List.mem_map.mp (hsub.subset hq)
      exact hsymbols y hy
    obtain ⟨-, c', hout⟩ := genuine_addPacket hrq ⟨c, hoti, hx⟩ hgenuine hadd
    obtain rfl := c.unique c'
    have hmedia : mediaPacket data = .ok (.media c.media) := by
      rw [hout data rfl, c.mediaPacket, if_pos hc.size]
    refine ⟨⟨d.oti, Parts.fecStats ⟨d, some data, parts.created⟩⟩, ?_, ?_⟩
    · simp only [Parts.assemble, hmedia, bind, Except.bind, pure, Except.pure]
    · exact (ObjectDecoder.decode_ok hdecode).2.1.trans h.oti

end Collecting

def coded (rq : RaptorQ) (calls : List Call) (m : ℕ) : Law VideoObject (Parts rq) where
  ready g _ := g ≤ m
  sent g := g ≤ m
  segments _ s := ∃ c : Coding calls s.kypacketSeq, Collecting rq c s.parts
  datagram _ d := ∃ c : Coding calls d.kypacketSeq, d.object.oti = c.oti rq

def Queue.HasSymbols (i : ℕ) (keys : Set SymbolKey) (p : Queue rq) : Prop :=
  p.HasDatagram i ∨ ∃ parts, ⟨i, parts⟩ ∈ p.segments ∧ ∀ key ∈ keys, key ∈ parts.decoder.received

section Inserted

variable {p p' : Queue rq} {m groupSeq created assembled : ℕ} {r : Except Fault Unit}
  {keys : Set SymbolKey}

theorem Queue.HasSymbols.inserted_other {j : ℕ} (h : Queue.HasSymbols j keys p) (hne : j ≠ i)
    (hins : Pending.Inserted (reassembly rq) p i x created assembled r p') :
    Queue.HasSymbols j keys p' := by
  obtain ⟨d, hd, hseq⟩ | ⟨parts, hmem, hkeys⟩ := h
  · exact .inl ⟨d, hins.datagrams_superset d hd, hseq⟩
  · exact .inr ⟨parts, hins.segments_superset _ hmem hne, hkeys⟩

variable (hrq : rq.Genuine) (hc : c.Accepted rq) (hoti : x.oti = c.oti rq)
  (hx : x.packet ∈ c.symbols rq)

include hrq hc hoti hx

theorem coded_adds
    (hparts : p.Before (coded rq calls m) (reassembly rq) groupSeq i x created parts) :
    ∃ parts', parts.addPacket x = .ok parts' ∧ Adds rq c x parts parts' := by
  have hcollecting : Collecting rq c parts := by
    obtain ⟨-, c', hparts⟩ | ⟨-, hnew⟩ := hparts
    · obtain rfl := c.unique c'
      exact hparts
    · exact .of_new hoti hnew
  exact hcollecting.addPacket hrq hc hoti hx

theorem coded_added {parts' : Parts rq}
    (hparts : p.Before (coded rq calls m) (reassembly rq) groupSeq i x created parts)
    (hadd : parts.addPacket x = .ok parts') : Adds rq c x parts parts' := by
  obtain ⟨_, hadd', hadds⟩ := coded_adds hrq hc hoti hx hparts
  cases hadd.symm.trans hadd'
  exact hadds

variable (h : p.Obeys (coded rq calls m) groupSeq)
  (hins : Pending.Inserted (reassembly rq) p i x created assembled r p')

include h hins

theorem inserted_ok : r = .ok () := by
  cases hins with
  | kept | complete => rfl
  | @again d hd hseq =>
    obtain ⟨c', hobject⟩ := h.datagrams d hd
    cases hseq
    obtain rfl := c.unique c'
    exact if_neg (not_not.mpr (hobject.trans hoti.symm))
  | refused _ _ hnew =>
    obtain ⟨parts, hok⟩ : ∃ parts : Parts rq, _ := Parts.new_of_valid (hc.valid hoti hx).oti created
    exact absurd (hnew.symm.trans hok) (by simp)
  | failed hd hslot hadd =>
    obtain ⟨_, hadd', -⟩ := coded_adds hrq hc hoti hx (hslot.before h hd)
    exact absurd (hadd.symm.trans hadd') (by simp)
  | broken hd hslot hadd hcomplete hasm =>
    obtain ⟨_, hok, -⟩ := (coded_added hrq hc hoti hx (hslot.before h hd) hadd).2 hcomplete
    exact absurd (hasm.symm.trans hok) (by simp)

theorem coded_inserted (hp : p.Ordered) : p'.Obeys (coded rq calls m) groupSeq := by
  refine h.inserted hp hins (inserted_ok hrq hc hoti hx h hins) (fun _ ↦ id) id (fun _ _ ↦ id)
    (fun _ ↦ id)
    ?_ ?_
  · intro parts parts' hparts hadd hincomplete _
    exact ⟨c, ((coded_added hrq hc hoti hx hparts hadd).1 hincomplete).1⟩
  · intro parts parts' object packet hparts hadd hcomplete hasm _
    obtain ⟨_, hok, hobject⟩ := (coded_added hrq hc hoti hx hparts hadd).2 hcomplete
    cases hasm.symm.trans hok
    exact ⟨c, hobject⟩

theorem hasSymbols_inserted (hp : p.Ordered) (hkeys : keys = ∅ ∨ Queue.HasSymbols i keys p) :
    Queue.HasSymbols i (insert x.payloadId.key keys) p' := by
  have hr := inserted_ok hrq hc hoti hx h hins
  cases hins with
  | refused | failed | broken => cases hr
  | again hd hseq => exact .inl ⟨_, hd, hseq⟩
  | @complete _ _ _ _ object packet => exact .inl ⟨⟨object, packet, i, assembled⟩, by simp, rfl⟩
  | @kept pre parts post parts' hd hslot hadd hincomplete =>
    obtain ⟨-, hkey, hmono⟩ := (coded_added hrq hc hoti hx (hslot.before h hd) hadd).1 hincomplete
    refine .inr ⟨parts', by simp, ?_⟩
    rintro key (rfl | hmem)
    · exact hkey
    · obtain rfl | ⟨d, hdm, hseq⟩ | ⟨parts₀, hparts₀, hall⟩ := hkeys
      · cases hmem
      · exact absurd hseq (hd d hdm)
      · obtain rfl : parts₀ = parts := hslot.parts_eq hp.segments hparts₀
        exact hmono key (hall key hmem)

end Inserted

end Kymux.VideoFec
