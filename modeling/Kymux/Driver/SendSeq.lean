import Kymux.Driver.Send

namespace Kymux.Driver

open Av BigEndian

def Op.kypacketSeq : Op → Option ℕ
  | .writeAll record => some (decode (record.take 4))
  | .flush => none
  | .sendDatagram datagram => some (decode ((datagram.drop 2).take 4))

def Op.Carries (k : ℕ) (op : Op) : Prop := ∀ n, op.kypacketSeq = some n → n = k

theorem decode_encode_seq (k : UInt32) : decode (encode 4 k.toNat) = k.toNat :=
  decode_encode_of_lt k.toNat_lt

theorem carries_flush (k : ℕ) : Op.flush.Carries k := by simp [Op.Carries, Op.kypacketSeq]

theorem carries_writeAll (k : UInt32) (rest : Bytes) :
    (Op.writeAll (encode 4 k.toNat ++ rest)).Carries k.toNat := by
  simp [Op.Carries, Op.kypacketSeq, decode_encode_seq]

theorem carries_sendDatagram (endpointId : ℕ) (k : UInt32) (rest : Bytes) :
    (Op.sendDatagram (encode 2 endpointId ++ (encode 4 k.toNat ++ rest))).Carries k.toNat := by
  simp [Op.Carries, Op.kypacketSeq, List.drop_left' (length_encode 2 _), decode_encode_seq]

theorem mem_of_perform {failAt : Option ℕ} {ops : List (Except Fault Op)} {op : Op} {n : ℕ}
    (h : op ∈ (perform failAt n ops).2) : .ok op ∈ ops := by
  induction ops generalizing n with
  | nil => simp [perform] at h
  | cons o ops ih =>
    cases o with
    | error e => simp [perform] at h
    | ok o =>
      unfold perform at h
      split_ifs at h with hf
      · simp at h
      · rcases List.mem_cons.mp h with rfl | h
        · exact List.mem_cons_self
        · exact List.mem_cons_of_mem _ (ih h)

structure SendDriver.Numbered (D : SendDriver) : Prop where
  seqs : ∀ s, ∃ rest, D.seqs s = encode 4 s.kypacketSeq.toNat ++ rest
  nextGroup : ∀ s, (D.nextGroup s).kypacketSeq = s.kypacketSeq
  datagrams : ∀ s packet env op, .ok op ∈ D.datagrams s packet env → op.Carries s.kypacketSeq.toNat

section Datagrams

variable {rq : RaptorQ} {headerSize : ℕ} {seqs : Bytes} {packet : MediaPacket} {env : Env} {op : Op}

/-- The datagrams of a plain sender are the pieces of the packet behind their numbers. -/
theorem mem_plainDatagrams (h : .ok op ∈ plainDatagrams headerSize seqs packet env) :
    ∃ maxDatagramSize header number part, env.maxDatagramSize = some maxDatagramSize ∧
      headerSize < maxDatagramSize ∧ packet.header.serialize = .ok header ∧
      let parts := chunks (maxDatagramSize - headerSize) (header ++ packet.payload).length
        (header ++ packet.payload)
      parts[number]? = some part ∧ part.length < 2 ^ 16 ∧
      op = .sendDatagram (encode 2 env.endpointId.toNat ++ seqs ++
        encode 4 (datagramNumberAndEnd number (number + 1 = parts.length)).toNat ++ part) := by
  unfold plainDatagrams at h
  split at h
  · simp at h
  next maxDatagramSize hmax =>
  split at h
  · simp at h
  next hsize =>
  split at h
  · simp at h
  next header hheader =>
  obtain ⟨number, hn, hop⟩ := List.mem_mapIdx.mp h
  split at hop
  · next hpart =>
    obtain rfl := Except.ok.inj hop
    exact ⟨maxDatagramSize, header, number, _, hmax, not_not.mp hsize, hheader,
      List.getElem?_eq_getElem hn, hpart, rfl⟩
  · cases hop

/-- The datagrams of a sender with forward error correction are the symbols of the packet
behind their numbers. -/
theorem mem_fecDatagrams (h : .ok op ∈ fecDatagrams rq headerSize seqs packet env) :
    ∃ maxDatagramSize header p, env.maxDatagramSize = some maxDatagramSize ∧
      headerSize < maxDatagramSize ∧ maxDatagramSize < 0x10000 ∧
      packet.header.serialize = .ok header ∧
      let data := header ++ packet.payload
      let mtu := UInt16.ofNat (maxDatagramSize - headerSize)
      p ∈ rq.encodedPackets data mtu
        (repairSymbols (divCeil data.length (rq.config data mtu).symbolSize.toNat)) ∧
      op = .sendDatagram (encode 2 env.endpointId.toNat ++ seqs ++
        (rq.config data mtu).serialize ++ p.payloadId.serialize ++ p.data) := by
  unfold fecDatagrams at h
  split at h
  · simp at h
  next maxDatagramSize hmax =>
  split at h
  · simp at h
  next hsize =>
  split at h
  · simp at h
  next hfits =>
  split at h
  · simp at h
  next header hheader =>
  dsimp only at h
  split at h
  · simp at h
  obtain ⟨p, hp, hop⟩ := List.mem_map.mp h
  exact ⟨maxDatagramSize, header, p, hmax, not_not.mp hsize, not_not.mp hfits, hheader, hp,
    (Except.ok.inj hop).symm⟩

theorem carries_plainDatagrams {k : UInt32} {rest : Bytes}
    (h : .ok op ∈ plainDatagrams headerSize (encode 4 k.toNat ++ rest) packet env) :
    op.Carries k.toNat := by
  obtain ⟨_, _, _, _, -, -, -, -, -, rfl⟩ := mem_plainDatagrams h
  simp only [List.append_assoc]
  exact carries_sendDatagram _ _ _

theorem carries_fecDatagrams {k : UInt32} {rest : Bytes}
    (h : .ok op ∈ fecDatagrams rq headerSize (encode 4 k.toNat ++ rest) packet env) :
    op.Carries k.toNat := by
  obtain ⟨_, _, _, -, -, -, -, -, rfl⟩ := mem_fecDatagrams h
  simp only [List.append_assoc]
  exact carries_sendDatagram _ _ _

end Datagrams

inductive DatagramSender
  | video
  | audio
  | videoFec
  | audioFec

def DatagramSender.driver (rq : RaptorQ) : DatagramSender → SendDriver
  | .video => Video.sendDriver
  | .audio => Audio.sendDriver
  | .videoFec => VideoFec.sendDriver rq
  | .audioFec => AudioFec.sendDriver rq

theorem audioSeqs_eq (s : Sender) : audioSeqs s = encode 4 s.kypacketSeq.toNat ++ [] := by
  rw [List.append_nil, audioSeqs]

theorem DatagramSender.numbered (rq : RaptorQ) (sender : DatagramSender) :
    (sender.driver rq).Numbered := by
  cases sender with
  | video => exact ⟨fun s ↦ ⟨_, rfl⟩, fun s ↦ rfl, fun s packet env op ↦ carries_plainDatagrams⟩
  | audio =>
    refine ⟨fun s ↦ ⟨_, audioSeqs_eq s⟩, fun s ↦ rfl, fun s packet env op h ↦ ?_⟩
    change .ok op ∈ plainDatagrams Audio.datagramHeaderSize (audioSeqs s) packet env at h
    rw [audioSeqs_eq] at h
    exact carries_plainDatagrams h
  | videoFec => exact ⟨fun s ↦ ⟨_, rfl⟩, fun s ↦ rfl, fun s packet env op ↦ carries_fecDatagrams⟩
  | audioFec =>
    refine ⟨fun s ↦ ⟨_, audioSeqs_eq s⟩, fun s ↦ rfl, fun s packet env op h ↦ ?_⟩
    change .ok op ∈ fecDatagrams rq AudioFec.datagramHeaderSize (audioSeqs s) packet env at h
    rw [audioSeqs_eq] at h
    exact carries_fecDatagrams h

structure Call where
  packet : AVPacket
  env : Env

structure Outcome where
  packet : AVPacket
  result : Except Fault Unit
  out : List Op

def isCodec : AVPacket → Bool
  | .codec _ => true
  | _ => false

namespace Outcome

def seqs (o : Outcome) : List ℕ := o.out.filterMap Op.kypacketSeq

def advances (o : Outcome) : Bool := !isCodec o.packet && o.result.isOk

def panics (o : Outcome) : Bool :=
  match o.result with
  | .error (.panic _) => true
  | _ => false

end Outcome

namespace SendDriver

variable {D : SendDriver}

def sendOne (D : SendDriver) (s : Sender) (c : Call) : Outcome :=
  ⟨c.packet, (D.send s c.packet c.env).1, (D.send s c.packet c.env).2.2⟩

/-- A caller that goes on after an error; only a panic ends the run. -/
def sendAll (D : SendDriver) : Sender → List Call → List Outcome
  | _, [] => []
  | s, c :: cs =>
    D.sendOne s c ::
      if (D.sendOne s c).panics then [] else sendAll D (D.send s c.packet c.env).2.1 cs

def mediaOps (D : SendDriver) (s : Sender) (packet : MediaPacket) (env : Env) :
    List (Except Fault Op) :=
  if packet.header.isConfig then D.configOps (D.nextGroup s) packet else D.datagrams s packet env

theorem sendMedia_perform (s : Sender) (packet : MediaPacket) (env : Env) :
    (D.sendMedia s packet env).1 = (perform env.failAt 0 (D.mediaOps s packet env)).1 ∧
      (D.sendMedia s packet env).2.2 = (perform env.failAt 0 (D.mediaOps s packet env)).2 := by
  unfold sendMedia mediaOps
  cases packet.header.isConfig <;> simp only [Bool.false_eq_true, if_false, if_true] <;> split <;>
    simp_all

theorem Numbered.carries (hD : D.Numbered) {s : Sender} {packet : AVPacket} {env : Env} {op : Op}
    (hc : isCodec packet = false) (h : op ∈ (D.send s packet env).2.2) :
    op.Carries s.kypacketSeq.toNat := by
  cases packet with
  | codec packet => simp [isCodec] at hc
  | hole packet => simp [send] at h
  | media packet =>
    have hout : op ∈ (D.sendMedia s packet env).2.2 := h
    rw [(sendMedia_perform s packet env).2] at hout
    replace hout := mem_of_perform hout
    unfold mediaOps at hout
    split at hout
    · unfold configOps at hout
      obtain ⟨rest, hrest⟩ := hD.seqs (D.nextGroup s)
      rw [hD.nextGroup] at hrest
      split at hout
      · simp at hout
      · simp only [List.mem_cons, Except.ok.injEq, List.not_mem_nil, or_false] at hout
        rcases hout with rfl | rfl
        · rw [hrest]
          simp only [List.append_assoc]
          exact carries_writeAll _ _
        · exact carries_flush _
    · exact hD.datagrams s packet env op hout

theorem Numbered.kypacketSeq_send (hD : D.Numbered) (s : Sender) (c : Call) :
    (D.send s c.packet c.env).2.1.kypacketSeq =
      s.kypacketSeq + UInt32.ofNat (if (D.sendOne s c).advances then 1 else 0) := by
  obtain ⟨packet, env⟩ := c
  cases packet with
  | codec packet => simp [send, sendOne, Outcome.advances, isCodec]
  | hole packet => simp [send, sendOne, Outcome.advances, isCodec, Except.isOk, Except.toBool]
  | media packet =>
    have hgroup : (if packet.header.isConfig then D.nextGroup s else s).kypacketSeq =
        s.kypacketSeq := by
      split_ifs
      · exact hD.nextGroup s
      · rfl
    simp only [send, sendOne, sendMedia, Outcome.advances, isCodec, Bool.not_false, Bool.true_and]
    split <;> simp [hgroup, Except.isOk, Except.toBool]

/-- What the call at `i` puts on the wire carries the number of packets sent before it. -/
theorem Numbered.seqs_sendAll (hD : D.Numbered) {s : Sender} {calls : List Call} {i : ℕ}
    {o : Outcome} (h : (D.sendAll s calls)[i]? = some o) (hc : isCodec o.packet = false) {k : ℕ}
    (hk : k ∈ o.seqs) :
    k = (s.kypacketSeq +
      UInt32.ofNat (((D.sendAll s calls).take i).countP Outcome.advances)).toNat := by
  induction calls generalizing s i with
  | nil => simp [sendAll] at h
  | cons c cs ih =>
    rw [sendAll] at h ⊢
    cases i with
    | zero =>
      obtain rfl : D.sendOne s c = o := by simpa using h
      obtain ⟨op, hop, hseq⟩ := List.mem_filterMap.mp hk
      simpa using hD.carries hc hop k hseq
    | succ i =>
      rw [List.getElem?_cons_succ] at h
      split_ifs at h ⊢ with hp
      · simp at h
      · rw [ih h, hD.kypacketSeq_send, List.take_succ_cons, List.countP_cons, Nat.add_comm,
          UInt32.ofNat_add, UInt32.add_assoc]

end SendDriver

/-- No two calls within fewer than `2 ^ 32` packets put one number on different packets. -/
def NeverReused (outcomes : List Outcome) : Prop :=
  ∀ i j a b, i < j → j < i + 2 ^ 32 → outcomes[i]? = some a → outcomes[j]? = some b →
    isCodec a.packet = false → isCodec b.packet = false →
    ∀ k ∈ a.seqs, k ∈ b.seqs → a.packet = b.packet

/-- No packet that numbers the wire and has failed is followed, with no packet sent in
between, by another one that numbers the wire. -/
def NoPartialFailure (outcomes : List Outcome) : Prop :=
  ∀ i j a b, i < j → j < i + 2 ^ 32 → outcomes[i]? = some a → outcomes[j]? = some b →
    isCodec a.packet = false → isCodec b.packet = false → a.seqs ≠ [] → b.seqs ≠ [] →
    (∀ l o, i ≤ l → l < j → outcomes[l]? = some o → o.advances = false) → a.packet = b.packet

/-- The packets sent in `[i, j)`: the numbers at `i` and `j` differ by their count. -/
theorem countP_take_eq_iff {outcomes : List Outcome} {i j : ℕ} (hij : i ≤ j) :
    (outcomes.take i).countP Outcome.advances = (outcomes.take j).countP Outcome.advances ↔
      ∀ l o, i ≤ l → l < j → outcomes[l]? = some o → o.advances = false := by
  have hsplit : outcomes.take j = outcomes.take i ++ (outcomes.drop i).take (j - i) := by
    rw [← List.take_add, Nat.add_sub_cancel' hij]
  rw [hsplit, List.countP_append, Nat.left_eq_add, List.countP_eq_zero]
  constructor
  · intro h l o hil hlj hl
    have hmem : o ∈ (outcomes.drop i).take (j - i) := by
      refine List.mem_of_getElem? (i := l - i) ?_
      rw [List.getElem?_take_of_lt (by omega), List.getElem?_drop, Nat.add_sub_cancel' hil, hl]
    simpa using h o hmem
  · intro h o ho
    obtain ⟨l, hl⟩ := List.mem_iff_getElem?.mp ho
    have hlt : l < j - i := by
      by_contra! hge
      simp [List.getElem?_take_eq_none hge] at hl
    rw [List.getElem?_take_of_lt hlt, List.getElem?_drop] at hl
    simpa using h (i + l) o (by omega) (by omega) hl

theorem countP_take_le (outcomes : List Outcome) {i j : ℕ} (hij : i ≤ j) :
    (outcomes.take i).countP Outcome.advances ≤ (outcomes.take j).countP Outcome.advances ∧
      (outcomes.take j).countP Outcome.advances ≤
        (outcomes.take i).countP Outcome.advances + (j - i) := by
  have hsplit : outcomes.take j = outcomes.take i ++ (outcomes.drop i).take (j - i) := by
    rw [← List.take_add, Nat.add_sub_cancel' hij]
  have hle := List.countP_le_length (p := Outcome.advances) (l := (outcomes.drop i).take (j - i))
  rw [List.length_take] at hle
  rw [hsplit, List.countP_append]
  omega

theorem number_inj {k : UInt32} {m n : ℕ} (hmn : m ≤ n) (hlt : n < m + 2 ^ 32) :
    (k + UInt32.ofNat m).toNat = (k + UInt32.ofNat n).toNat ↔ m = n := by
  simp only [UInt32.toNat_add, UInt32.toNat_ofNat']
  omega

/-- A failed call leaves `kypacket_seq` where it was, so its number is used again: that is
the one way in which a number comes to stand for two packets. -/
theorem neverReused_iff (rq : RaptorQ) (sender : DatagramSender) (calls : List Call) :
    NeverReused ((sender.driver rq).sendAll .start calls) ↔
      NoPartialFailure ((sender.driver rq).sendAll .start calls) := by
  have hD := sender.numbered rq
  constructor
  · intro h i j a b hij hlt ha hb hca hcb hna hnb hfail
    obtain ⟨k, hk⟩ := List.exists_mem_of_ne_nil _ hna
    obtain ⟨k', hk'⟩ := List.exists_mem_of_ne_nil _ hnb
    have hkk : k = k' := by
      rw [hD.seqs_sendAll ha hca hk, hD.seqs_sendAll hb hcb hk',
        (countP_take_eq_iff hij.le).mpr hfail]
    exact h i j a b hij hlt ha hb hca hcb k hk (hkk ▸ hk')
  · intro h i j a b hij hlt ha hb hca hcb k hka hkb
    refine h i j a b hij hlt ha hb hca hcb (List.ne_nil_of_mem hka) (List.ne_nil_of_mem hkb) ?_
    obtain ⟨hle, hle'⟩ := countP_take_le ((sender.driver rq).sendAll .start calls) hij.le
    have hnum := (hD.seqs_sendAll ha hca hka).symm.trans (hD.seqs_sendAll hb hcb hkb)
    exact (countP_take_eq_iff hij.le).mp ((number_inj hle (by omega)).mp hnum)

def failedPacket : AVPacket := .media ⟨⟨false, true, 0, 1⟩, [7]⟩

def sentPacket : AVPacket := .media ⟨⟨false, false, 1, 1⟩, [8]⟩

def failedThenSent : List Call :=
  [⟨failedPacket, 0, some 26, some 1⟩, ⟨sentPacket, 0, some 26, none⟩]

/-- Both packets go out under the number `0`. -/
theorem not_neverReused_failedThenSent :
    ¬ NeverReused (Video.sendDriver.sendAll .start failedThenSent) := by
  intro h
  have hsent : (Video.sendDriver.sendAll .start failedThenSent).map (fun o ↦ (o.packet, o.seqs)) =
      [(failedPacket, [0]), (sentPacket, [0, 0])] := by decide
  have hat (i : ℕ) := congrArg (·[i]?) hsent
  simp only [List.getElem?_map] at hat
  obtain ⟨a, ha, hpa⟩ := Option.map_eq_some_iff.mp (hat 0)
  obtain ⟨b, hb, hpb⟩ := Option.map_eq_some_iff.mp (hat 1)
  obtain ⟨hpa, hka⟩ := Prod.mk.inj hpa
  obtain ⟨hpb, hkb⟩ := Prod.mk.inj hpb
  have heq := h 0 1 a b (by decide) (by decide) ha hb (by rw [hpa]; rfl) (by rw [hpb]; rfl) 0
    (by simp [hka]) (by simp [hkb])
  rw [hpa, hpb] at heq
  exact absurd heq (by decide)

end Kymux.Driver
