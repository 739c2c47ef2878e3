import Kymux.Driver.HonestArrivals
import Kymux.Driver.PlainParts
import Kymux.Types.AvStream

namespace Kymux.Driver.Coding

open BigEndian

variable {calls : List Call} {i : ℕ}

def pieces (c : Coding calls i) : List Bytes :=
  chunks (c.maxDatagramSize - Video.datagramHeaderSize) c.data.length c.data

theorem flatten_pieces (c : Coding calls i) (h : Video.datagramHeaderSize < c.maxDatagramSize) :
    c.pieces.flatten = c.data :=
  Plain.flatten_chunks (Nat.sub_pos_of_lt h) le_rfl

end Kymux.Driver.Coding

namespace Kymux.Video

open Av BigEndian Driver EventLoop Governed Plain

variable {calls : List Call} {i : ℕ} {x : Chunk} {parts : Parts} {next : ℕ} {is : List ℕ}
  {gs : PendingGroups}

def OfPacket (calls : List Call) (i : ℕ) (x : Chunk) : Prop :=
  ∃ c : Coding calls i, datagramHeaderSize < c.maxDatagramSize ∧ OfPieces c.pieces x

def genuine (calls : List Call) (i : ℕ) (parts : Parts) : Prop :=
  ∃ c : Coding calls i, parts.Collects c.pieces

/-- A chunk of the packet goes to its place, and the last one completes the packet. -/
theorem genuine_setSegment (hx : OfPacket calls i x) (h : genuine calls i parts) :
    ∃ parts', parts.setSegment x = .ok parts' ∧ genuine calls i parts' ∧
      (parts'.isComplete = true →
        ∃ packet, (packets calls)[i]? = some packet ∧ parts'.assemble = .ok ((), packet)) := by
  obtain ⟨c, hsize, hpiece⟩ := hx
  obtain ⟨c', hcollects⟩ := h
  obtain rfl := c.unique c'
  obtain ⟨parts', hset, hcollects'⟩ := hcollects.setSegment hpiece
  exact ⟨parts', hset, ⟨c, hcollects'⟩, fun hcomplete ↦
    ⟨_, c.get, hcollects'.assemble c.serialized (c.flatten_pieces hsize) hcomplete⟩⟩

theorem genuine_before {p : Pending Unit Parts} {groupSeq : ℕ} (hx : OfPacket calls i x)
    (h : p.Before (honest (packets calls) (genuine calls) next is) reassembly groupSeq i x
      0 parts) :
    genuine calls i parts := by
  obtain ⟨-, -, hgenuine, -⟩ | ⟨-, hnew⟩ := h
  · exact hgenuine
  · cases hnew
    obtain ⟨c, -⟩ := hx
    exact ⟨c, .new _⟩

/-- A chunk of a packet that is not behind is stored without an error. -/
theorem honest_inserted {p p' : Pending Unit Parts} {assembled : ℕ} {r : Except Fault Unit}
    (hp : p.Ordered) (hx : OfPacket calls i x) (hge : next ≤ i)
    (h : p.Obeys (honest (packets calls) (genuine calls) next is) (groupOf (packets calls) i))
    (hins : Pending.Inserted reassembly p i x 0 assembled r p') :
    r = .ok () ∧
      p'.Obeys (honest (packets calls) (genuine calls) next is) (groupOf (packets calls) i) := by
  have hplaced : Placed (packets calls) false (groupOf (packets calls) i) i := by
    obtain ⟨c, -⟩ := hx
    exact c.placed
  have hr : r = .ok () := by
    cases hins with
    | again | kept | complete => rfl
    | refused _ _ hnew => cases hnew
    | failed hd hslot hadd =>
      obtain ⟨_, hset, -⟩ := genuine_setSegment hx (genuine_before hx (hslot.before h hd))
      exact absurd (hadd.symm.trans hset) (by simp)
    | broken hd hslot hadd hc hasm =>
      obtain ⟨_, hset, -, hassemble⟩ :=
        genuine_setSegment hx (genuine_before hx (hslot.before h hd))
      cases hadd.symm.trans hset
      obtain ⟨_, -, hok⟩ := hassemble hc
      exact absurd (hasm.symm.trans hok) (by simp)
  refine ⟨hr, h.inserted hp hins hr (fun _ ↦ id) id (fun _ _ ↦ id) (fun _ ↦ id) ?_ ?_⟩
  · intro parts parts' hbefore hadd _ _
    obtain ⟨_, hset, hgenuine, -⟩ := genuine_setSegment hx (genuine_before hx hbefore)
    cases hadd.symm.trans hset
    exact ⟨hplaced, hgenuine, hge⟩
  · intro parts parts' object packet hbefore hadd hc hasm _
    obtain ⟨_, hset, -, hassemble⟩ := genuine_setSegment hx (genuine_before hx hbefore)
    cases hadd.symm.trans hset
    obtain ⟨packet', hget, hok⟩ := hassemble hc
    cases hasm.symm.trans hok
    exact ⟨hplaced, hget, hge⟩

def opened (m : ℕ) : Law Unit Parts where
  ready g _ := g ≤ m
  sent g := g ≤ m
  segments _ _ := True
  datagram _ _ := True

theorem opened_mono {m m' : ℕ} (hm : m ≤ m') (h : gs.Obey (opened m)) : gs.Obey (opened m') :=
  h.imp (fun _ _ hle ↦ hle.trans hm) (fun _ hle ↦ hle.trans hm) (fun _ _ ↦ id) (fun _ _ ↦ id)

theorem opened_inserted {m : ℕ} {p p' : Pending Unit Parts} {groupSeq assembled : ℕ}
    {r : Except Fault Unit} (h : p.Obeys (opened m) groupSeq)
    (hins : Pending.Inserted reassembly p i x 0 assembled r p') : p'.Obeys (opened m) groupSeq :=
  ⟨fun c hc ↦ h.ready c (hins.configPacket_eq ▸ hc), fun hc ↦ h.sent (hins.configPacket_eq ▸ hc),
    fun _ _ ↦ trivial, fun _ _ ↦ trivial⟩

namespace PendingGroups

theorem insertDatagram_place (ho : gs.Ordered) (groupSeq kypacketSeq : ℕ) (x : Chunk)
    (assembled : ℕ) :
    ∃ pre g post p, Groups.Place room gs groupSeq pre g post ∧
      Pending.Inserted reassembly g.toPending kypacketSeq x 0 assembled
        (insertDatagram gs groupSeq kypacketSeq x assembled).1 p ∧
      (insertDatagram gs groupSeq kypacketSeq x assembled).2 = pre ++ ⟨p, groupSeq⟩ :: post := by
  unfold insertDatagram
  rcases Groups.preparePendingGroup_cases room ho.sorted groupSeq with
    ⟨e, -, hroom, -⟩ | ⟨pre, g, post, hplace, hprep⟩
  · cases hroom
  · have hget : (pre ++ g :: post)[pre.length]? = some g := by simp
    have hg : g.Ordered := hplace.all ho.each Pending.Ordered.new
    simp only [hprep, hget, List.set_append_right _ _ le_rfl, Nat.sub_self, List.set_cons_zero,
      hplace.groupSeq_eq]
    exact ⟨pre, g, post, _, hplace,
      Pending.insertDatagram_inserted reassembly hg kypacketSeq x 0 assembled, rfl⟩

/-- A config reaches the group of its number, which must not have one. -/
theorem insertStreamPacket_place (ho : gs.Ordered) (groupSeq kypacketSeq : ℕ) (packet : AVPacket) :
    ∃ pre g post, Groups.Place room gs groupSeq pre g post ∧
      (g.configPacket.isNone = true → insertStreamPacket gs groupSeq kypacketSeq packet =
        (.ok (), pre ++ ⟨g.setConfig ⟨packet, kypacketSeq⟩, groupSeq⟩ :: post)) := by
  unfold insertStreamPacket
  rcases Groups.preparePendingGroup_cases room ho.sorted groupSeq with
    ⟨e, -, hroom, -⟩ | ⟨pre, g, post, hplace, hprep⟩
  · cases hroom
  · refine ⟨pre, g, post, hplace, fun hnone ↦ ?_⟩
    have hget : (pre ++ g :: post)[pre.length]? = some g := by simp
    simp only [hprep, hget, hnone, not_true_eq_false, if_false, List.set_append_right _ _ le_rfl,
      Nat.sub_self, List.set_cons_zero, hplace.groupSeq_eq]

end PendingGroups

theorem isVideo_sendDriver : sendDriver.IsVideo where
  seqs := rfl
  nextGroup := rfl
  datagrams s packet env op h := by
    obtain ⟨_, _, _, _, -, -, -, -, -, rfl⟩ := mem_plainDatagrams h
    exact ⟨_, rfl⟩

theorem recvStreamPacket_record (h : Succeeds sendDriver calls) (hsized : Sized (packets calls))
    (hc : configAt AVPacket.isConfig (packets calls) i = true) (rest : Bytes) :
    ∃ packet, (packets calls)[i]? = some packet ∧ packet.isConfig = true ∧
      recvStreamPacket (recordOf (packets calls) i ++ rest) =
        .ok (⟨packet, UInt32.ofNat i, UInt32.ofNat (groupOf (packets calls) i)⟩, rest) := by
  obtain ⟨media, header, hpacket, hconfig, hs, hrecord⟩ := h.recordOf_config isVideo_sendDriver hc
  have hsize := hsized media (List.mem_of_getElem? hpacket) hconfig
  have hseqs : (videoSeqs (senderOf (packets calls) i)).length = 8 := rfl
  refine ⟨.media media, hpacket, hconfig, ?_⟩
  have hwords : readU32 ((videoSeqs (senderOf (packets calls) i)).take 4) = UInt32.ofNat i ∧
      readU32 ((videoSeqs (senderOf (packets calls) i)).drop 4) =
        UInt32.ofNat (groupOf (packets calls) i) :=
    ⟨readU32_encode _, readU32_encode _⟩
  have hread := AVPacket.read_media hs hsize rest
  rw [List.append_assoc] at hread
  rw [hrecord, List.append_assoc, List.append_assoc]
  simp only [recvStreamPacket, readExact_append hseqs, readPacket, hread, bind, Except.bind, pure,
    Except.pure, hwords]

/-- A datagram of the packet at a place is read as a chunk of it with the numbers of the place. -/
theorem parse_datagram (h : Succeeds sendDriver calls) {o : Outcome} {bytes : Bytes}
    (ho : (sendDriver.sendAll .start calls)[i]? = some o) (hbytes : bytes ∈ o.datagrams)
    (hshort : ∀ c : Coding calls i, c.pieces.length < 2 ^ 31) :
    ∃ x, OfPacket calls i x ∧ parse bytes =
      .ok ⟨x, UInt32.ofNat i, UInt32.ofNat (groupOf (packets calls) i)⟩ := by
  obtain ⟨media, env, hcall, hc, hmem⟩ := h.datagram isVideo_sendDriver ho hbytes
  obtain ⟨maxDatagramSize, header, number, part, hmax, hsize, hs, hpart, -, hop⟩ :=
    mem_plainDatagrams hmem
  let c : Coding calls i := ⟨media, env, maxDatagramSize, header, hcall, hmax, hs, hc⟩
  have hnumber : number < c.pieces.length := (List.getElem?_eq_some_iff.mp hpart).1
  refine ⟨⟨number, decide (number + 1 = c.pieces.length), part⟩,
    ⟨c, hsize, hpart, decide_eq_true_iff⟩, ?_⟩
  have hbytes' : bytes = encode 2 env.endpointId.toNat ++
      (encode 4 (UInt32.ofNat i).toNat ++
        (encode 4 (UInt32.ofNat (groupOf (packets calls) i)).toNat ++
        (encode 4 (datagramNumberAndEnd number (number + 1 = c.pieces.length)).toNat ++
          part))) := by
    rw [Op.sendDatagram.inj hop, videoSeqs]
    simp only [List.append_assoc]
    rfl
  have hlen : datagramHeaderSize ≤ bytes.length := by
    rw [hbytes']
    simp [datagramHeaderSize]
    omega
  have hchunk := parseChunk_encode (hnumber.trans (hshort c))
    (decide (number + 1 = c.pieces.length)) part
  have hdrop : bytes.drop 10 =
      encode 4 (datagramNumberAndEnd number (number + 1 = c.pieces.length)).toNat ++ part := by
    rw [hbytes', show 10 = 2 + (4 + 4) from rfl, ← List.drop_drop, ← List.drop_drop,
      List.drop_left' (length_encode 2 _), List.drop_left' (length_encode 4 _),
      List.drop_left' (length_encode 4 _)]
  simp only [parse, assert, hlen, decide_true, if_true, bind, Except.bind, pure, Except.pure, hdrop,
    hchunk]
  rw [hbytes', first_word, second_word]

end Kymux.Video
