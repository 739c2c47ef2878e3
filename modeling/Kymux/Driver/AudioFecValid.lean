import Kymux.Driver.AudioFec
import Kymux.Driver.VideoFecValid

namespace Kymux.AudioFec

open Av Driver Fec
open VideoFec.Queue (charge configUsage sum_charge)

variable {rq : RaptorQ}

namespace Parts

variable {u u' : Parts rq} {x : Symbol} {oti : Oti}

theorem new_ok (h : Parts.new oti = .ok u) :
    ObjectDecoder.new oti maxAudioPayload = .ok u.decoder ∧ u.assembled = none := by
  obtain ⟨decoder, hdecoder, hu⟩ := bind_ok h
  cases hu
  exact ⟨hdecoder, rfl⟩

theorem addPacket_ok (h : u.addPacket x = .ok u') :
    u.decoder.decode x.oti x.payloadId x.data = .ok (u'.assembled, u'.decoder) := by
  unfold addPacket at h
  cases hd : u.decoder.decode x.oti x.payloadId x.data with
  | error e => simp [hd, bind, Except.bind] at h
  | ok out =>
    simp only [hd, bind, Except.bind, pure, Except.pure] at h
    cases h
    rfl

theorem addPacket_oti (h : u.addPacket x = .ok u') : u'.decoder.oti = u.decoder.oti :=
  (ObjectDecoder.decode_ok (addPacket_ok h)).2.1

theorem assemble_ok {oti : Oti} {packet : AVPacket} (h : u.assemble = .ok (oti, packet)) :
    oti = u.decoder.oti ∧ ∃ data, u.assembled = some data ∧ mediaPacket data = .ok packet := by
  unfold assemble at h
  cases ha : u.assembled with
  | none => simp [ha] at h
  | some data =>
    cases hm : mediaPacket data with
    | error e => simp [ha, hm, bind, Except.bind] at h
    | ok p =>
      simp only [ha, hm, bind, Except.bind, pure, Except.pure] at h
      cases h
      exact ⟨rfl, data, rfl, hm⟩

end Parts

namespace PendingGroup

variable {p p' : PendingGroup rq} {kypacketSeq created assembled next now : ℕ} {x : Symbol}
  {r : Except Fault Unit} {packet : AVPacket}

def usage (p : PendingGroup rq) : ℕ × ℕ :=
  p.weight (fun s ↦ charge s.parts.decoder.oti) (fun d ↦ charge d.object) +
    configUsage p.configPacket

def objects (p : PendingGroup rq) : ℕ :=
  p.segments.length + p.datagrams.length + if p.configPacket.isReady then 1 else 0

def bytes (p : PendingGroup rq) : ℕ :=
  (p.segments.map (fun s ↦ reservation s.parts.decoder.oti)).sum +
    (p.datagrams.map (fun d ↦ reservation d.object)).sum +
    match p.configPacket with
    | .ready ⟨.media media, _⟩ => media.payload.length
    | _ => 0

structure Valid (p : PendingGroup rq) : Prop where
  ordered : p.Ordered
  incomplete : ∀ u ∈ p.segments, u.parts.isComplete = false
  config : ∀ c, p.configPacket = .ready c → c.packet.isConfig = true
  objects : p.objects ≤ maxPendingObjects
  bytes : p.bytes ≤ 8 * 1024 * 1024

theorem usage_eq (hc : ∀ c, p.configPacket = .ready c → c.packet.isConfig = true) :
    p.usage = (objects p, bytes p) := by
  unfold usage Pending.weight
  rw [sum_charge, sum_charge]
  unfold objects bytes configUsage
  cases hp : p.configPacket with
  | none | sent => simp [ConfigPacket.isReady]
  | ready c =>
    obtain ⟨packet, seq⟩ := c
    cases packet with
    | codec packet | hole packet => simpa [AVPacket.isConfig] using hc _ hp
    | media media => simp [ConfigPacket.isReady]

theorem checkCapacity_ok_iff {additional : ℕ} : checkCapacity p additional = .ok () ↔
    (usage p).1 < maxPendingObjects ∧ (usage p).2 + additional ≤ 8 * 1024 * 1024 := by
  have hlimit : pendingLimit maxAudioPayload = 8 * 1024 * 1024 := by decide
  unfold checkCapacity usage Pending.weight configUsage
  rw [sum_charge, sum_charge]
  split <;> simp_all [checkPending_ok_iff]

theorem keeps_charge (rq : RaptorQ) : Pending.Keeps (reassembly rq)
    (fun s ↦ charge s.parts.decoder.oti) (fun d ↦ charge d.object) where
  addPacket _ _ _ _ h := by rw [Parts.addPacket_oti h]
  assemble _ _ _ _ _ h := by rw [(Parts.assemble_ok h).1]

theorem reassembly_new_ok {u : Parts rq} (h : (reassembly rq).new p x created = .ok u) :
    checkCapacity p (reservation x.oti) = .ok () ∧ Parts.new x.oti = .ok u := by
  unfold reassembly at h
  cases hv : validateOti x.oti maxAudioPayload with
  | error e => simp [hv, bind, Except.bind] at h
  | ok _ =>
    cases hc : checkCapacity p (reservation x.oti) with
    | error e => simp [hv, hc, bind, Except.bind] at h
    | ok _ => exact ⟨rfl, by simpa [hv, hc, bind, Except.bind] using h⟩

/-- Only a datagram of an object that is not pending yet raises the charge, and by what
was asked for. -/
theorem usage_inserted
    (h : Pending.Inserted (reassembly rq) p kypacketSeq x created assembled r p') :
    usage p' ≤ usage p ∨
      checkCapacity p (reservation x.oti) = .ok () ∧ usage p' = usage p + charge x.oti := by
  unfold usage
  rw [h.configPacket_eq]
  rcases h.weight (keeps_charge rq) with hw | ⟨-, parts, hnew, hw⟩ | ⟨-, parts, hw⟩
  · exact .inl (by rw [hw])
  · obtain ⟨hcap, hparts⟩ := reassembly_new_ok hnew
    refine .inr ⟨hcap, ?_⟩
    rw [hw, (ObjectDecoder.new_ok (Parts.new_ok hparts).1).2.1]
    abel
  · left
    rw [hw]
    gcongr
    exact le_self_add

theorem usage_took {b : Bool} {taken : Taken Oti (Parts rq)} (h : Pending.Took p b taken p') :
    usage p' ≤ usage p := by
  refine add_le_add ?_ ?_
  · rw [h.weight]
    exact le_self_add
  · cases h with
    | config _ => exact zero_le
    | datagram => exact le_rfl

inductive StreamStep (p : PendingGroup rq) (kypacketSeq : ℕ) (packet : AVPacket) :
    Except Fault Unit → PendingGroup rq → Prop
  | refused {e} : StreamStep p kypacketSeq packet (.error (.err e)) p
  | stored {media} (hpacket : packet = .media media) (hconfig : packet.isConfig = true)
    (hc : p.configPacket = .none) (hcap : checkCapacity p media.payload.length = .ok ()) :
    StreamStep p kypacketSeq packet (.ok ()) (p.setConfig ⟨packet, kypacketSeq⟩)

theorem checkCapacity_error {additional : ℕ} {e : Fault}
    (h : checkCapacity p additional = .error e) :
    ∃ e', e = .err e' := by
  unfold checkCapacity checkPending budgetExceeded invalid at h
  split at h <;> dsimp only at h <;> split_ifs at h <;> cases h <;> exact ⟨_, rfl⟩

theorem insertStreamPacket_step (p : PendingGroup rq) (kypacketSeq : ℕ) (packet : AVPacket) :
    StreamStep p kypacketSeq packet (insertStreamPacket p kypacketSeq packet).1
      (insertStreamPacket p kypacketSeq packet).2 := by
  cases packet with
  | codec packet | hole packet => exact .refused
  | media media =>
    simp only [insertStreamPacket, insertStreamPacketWith]
    split_ifs with hbad
    · exact .refused
    · rw [not_or, not_not, not_not] at hbad
      cases hcap : checkCapacity p media.payload.length with
      | error e =>
        obtain ⟨e', rfl⟩ := checkCapacity_error hcap
        exact .refused
      | ok _ =>
        refine .stored rfl hbad.1 ?_ hcap
        cases hc : p.configPacket with
        | none => rfl
        | ready c | sent => simp [hc, ConfigPacket.isNone] at hbad

theorem Valid.new : Valid (Pending.new : PendingGroup rq) where
  ordered := .new
  incomplete := by simp [Pending.new]
  config c h := by cases h
  objects := Nat.zero_le _
  bytes := Nat.zero_le _

theorem Valid.of_usage (hp : p.Valid) (ho : p'.Ordered)
    (hi : ∀ u ∈ p'.segments, u.parts.isComplete = false)
    (hc : ∀ c, p'.configPacket = .ready c → c.packet.isConfig = true)
    (hu : usage p' ≤ usage p ∨ ∃ additional, checkCapacity p additional = .ok () ∧
      usage p' = usage p + (1, additional)) : p'.Valid := by
  rcases hu with hle | ⟨additional, hcap, heq⟩
  · rw [usage_eq hp.config, usage_eq hc, Prod.mk_le_mk] at hle
    exact ⟨ho, hi, hc, hle.1.trans hp.objects, hle.2.trans hp.bytes⟩
  · rw [checkCapacity_ok_iff, usage_eq hp.config] at hcap
    rw [usage_eq hp.config, usage_eq hc, Prod.mk_add_mk, Prod.mk.injEq] at heq
    exact ⟨ho, hi, hc, heq.1 ▸ hcap.1, heq.2 ▸ hcap.2⟩

theorem Valid.inserted (hp : p.Valid)
    (h : Pending.Inserted (reassembly rq) p kypacketSeq x created assembled r p') : p'.Valid := by
  refine hp.of_usage (hp.ordered.inserted h) ?_ ?_ ?_
  · refine h.incomplete (fun parts hnew ↦ ?_) hp.incomplete
    change parts.isComplete = false
    rw [Parts.isComplete, (Parts.new_ok (reassembly_new_ok hnew).2).2]
    rfl
  · rw [h.configPacket_eq]
    exact hp.config
  · exact (usage_inserted h).imp_right fun h ↦ ⟨_, h⟩

theorem Valid.streamStep (hp : p.Valid) (h : StreamStep p kypacketSeq packet r p') : p'.Valid := by
  cases h with
  | refused => exact hp
  | @stored media hpacket hconfig hc hcap =>
    have ho : (p.setConfig ⟨packet, kypacketSeq⟩).Ordered :=
      ⟨hp.ordered.segments, hp.ordered.datagrams, hp.ordered.apart⟩
    refine hp.of_usage ho hp.incomplete ?_ (.inr ⟨media.payload.length, hcap, ?_⟩)
    · intro c h
      cases h
      exact hconfig
    · have hnone : configUsage .none + (1, media.payload.length) = (1, media.payload.length) := by
        simp [configUsage]
      unfold usage
      rw [hc, hpacket, add_assoc, hnone]
      rfl

theorem Valid.takeStep {a : Action} (hp : p.Valid)
    (h : Pending.TakeStep p maxBuffering next now a p') : p'.Valid := by
  cases h with
  | none | deadline => exact hp
  | packet _ htook =>
    refine hp.of_usage (hp.ordered.took htook) ?_ ?_ (.inl (usage_took htook))
    · intro u hu
      refine hp.incomplete u ?_
      cases htook with
      | config => exact hu
      | datagram _ _ hsplit _ _ => rw [hsplit]; simp [hu]
    · intro c hc
      cases htook with
      | config => cases hc
      | datagram => exact hp.config c hc

inductive Call
  | insertStreamPacket (kypacketSeq : ℕ) (packet : AVPacket)
  | insertDatagram (kypacketSeq : ℕ) (x : Symbol) (assembled : ℕ)
  | takeNextPacket (next now : ℕ)

def call (p : PendingGroup rq) : Call → PendingGroup rq
  | .insertStreamPacket kypacketSeq packet => (insertStreamPacket p kypacketSeq packet).2
  | .insertDatagram kypacketSeq x assembled =>
    (p.insertDatagram (reassembly rq) kypacketSeq x 0 assembled).2
  | .takeNextPacket next now =>
    match p.takeNextPacket maxBuffering next now with
    | .ok (_, p) => p
    | .error _ => p

theorem Valid.call (hp : p.Valid) (c : Call) : (PendingGroup.call p c).Valid := by
  cases c with
  | insertStreamPacket kypacketSeq packet =>
    exact hp.streamStep (insertStreamPacket_step p kypacketSeq packet)
  | insertDatagram kypacketSeq x assembled =>
    exact hp.inserted
      (p.insertDatagram_inserted (reassembly rq) hp.ordered kypacketSeq x 0 assembled)
  | takeNextPacket next now =>
    obtain ⟨a, p', htake, hstep⟩ := Pending.takeNextPacket_step hp.ordered maxBuffering next now
    simp only [PendingGroup.call, htake]
    exact hp.takeStep hstep

/-- The pending state stays valid over every sequence of calls. -/
theorem valid_of_calls (rq : RaptorQ) (calls : List Call) :
    Valid (calls.foldl call (Pending.new : PendingGroup rq)) := by
  induction calls using List.reverseRecOn with
  | nil => exact Valid.new
  | append_singleton calls c ih =>
    rw [List.foldl_concat]
    exact ih.call c

end PendingGroup

end Kymux.AudioFec
