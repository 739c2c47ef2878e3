import Kymux.Driver.Idle
import Kymux.Driver.Quiescent
import Kymux.Driver.Wire

namespace Kymux

open Av Driver EventLoop Timed

namespace Video.State

variable {s s' : State} {now : ℕ}

def timer : Timer State PacketRef where
  look s := s.pendingGroups.nextPacket maxBuffering s.nextKypacketSeq
  deadline s := s.deadline
  arm s deadline := { s with deadline }
  look_arm _ _ := rfl
  deadline_arm _ _ := rfl
  oneDeadline s := s.pendingGroups.nextPacket_oneDeadline _ _

theorem take_breaks (h : s.take now = .ok (s', false)) :
    timer.Turn (fun ref s' ↦ s'.deadline = none ∧
      (timer.look s' now = .none ↔ s.pendingGroups.Alone ref)) s now s' := by
  unfold take Groups.takeNextPacket at h
  cases hnext : s.pendingGroups.nextPacket maxBuffering s.nextKypacketSeq now with
  | none =>
    simp only [hnext] at h
    cases h
    exact .none hnext
  | deadline d =>
    simp only [hnext] at h
    cases h
    exact .deadline hnext
  | ready ref =>
    obtain ⟨drained, g, rest, taken, p, hgs, hlength, hpoll, -, htake, href⟩ :=
      Groups.takeRef_of_ready hnext
    simp only [hnext, href, bind, Except.bind, pure, Except.pure] at h
    cases h
    exact .ready hnext ⟨rfl, Groups.alone_iff hgs hlength hpoll htake⟩

theorem select_skips {input : Input (RecvMsg Plain.Chunk) ℕ}
    (h : s.select input = .ok (s', false)) :
    timer.look s' = timer.look s ∧ s'.deadline = s.deadline := by
  unfold select at h
  split at h
  · simp only [Except.ok.injEq, Prod.mk.injEq] at h
    obtain ⟨rfl, -⟩ := h
    exact ⟨rfl, rfl⟩
  · obtain ⟨hgs, hn, hd⟩ := VideoState.receive_skips h
    exact ⟨by simp only [timer, hgs, hn], hd⟩

end Video.State

namespace Audio.State

variable {s s' : State} {now : ℕ}

def timer : Timer State Bool where
  look s := s.pendingGroup.poll s.pendingGroup.minInstant maxBuffering s.nextKypacketSeq
  deadline s := s.deadline
  arm s deadline := { s with deadline }
  look_arm _ _ := rfl
  deadline_arm _ _ := rfl
  oneDeadline s := s.pendingGroup.poll_oneDeadline _ _ _

theorem take_breaks (h : s.take now = .ok (s', false)) :
    timer.Turn (fun b s' ↦ s'.deadline = none ∧
      (timer.look s' now = .none ↔ s.pendingGroup.Alone b)) s now s' := by
  unfold take Pending.takeNextPacket at h
  cases hpoll :
    s.pendingGroup.poll s.pendingGroup.minInstant maxBuffering s.nextKypacketSeq now with
  | none =>
    simp only [hpoll] at h
    cases h
    exact .none hpoll
  | deadline d =>
    simp only [hpoll] at h
    cases h
    exact .deadline hpoll
  | ready b =>
    obtain ⟨taken, p', htake⟩ := Pending.takePacket_of_ready hpoll
    simp only [hpoll, htake, bind, Except.bind, pure, Except.pure] at h
    split at h
    · cases h
    · next hfwd =>
      cases h
      unfold AudioState.forward at hfwd
      split at hfwd <;> cases hfwd
      refine .ready hpoll ⟨rfl, ?_⟩
      exact (Pending.poll_none_iff Pending.minInstant_ne_none).trans
        ((Pending.alone_iff hpoll htake).2 _)

theorem select_skips {input : Input (AudioRecvMsg Plain.Chunk) ℕ}
    (h : s.select input = .ok (s', false)) :
    timer.look s' = timer.look s ∧ s'.deadline = s.deadline := by
  unfold select at h
  split at h
  · simp only [Except.ok.injEq, Prod.mk.injEq] at h
    obtain ⟨rfl, -⟩ := h
    exact ⟨rfl, rfl⟩
  · obtain ⟨hgs, hn, hd⟩ := AudioState.receive_skips h
    exact ⟨by simp only [timer, hgs, hn], hd⟩

end Audio.State

/-- The plain receivers take one packet and disarm the timer. At all times from the last look on
the timer tells whether `next_packet` is ready if and only if a packet that was taken at that look
was alone in the state before it. -/
theorem plain_exact_iff (stats : ProtocolStats) :
    (∀ es s w, (Video.process.last (fun s now _ ↦ (s, now))).run (.start [] stats, none) es =
      .ok (s, w) →
      ((∀ t ≥ w.elim 0 Prod.snd,
        Ready (s.pendingGroups.nextPacket Video.maxBuffering s.nextKypacketSeq) t ↔
          ∃ d, s.deadline = some d ∧ d ≤ t) ↔
        ∀ before now, w = some (before, now) → ∀ ref,
          before.pendingGroups.nextPacket Video.maxBuffering before.nextKypacketSeq now =
            .ready ref → before.pendingGroups.Alone ref)) ∧
    (∀ es s w, (Audio.process.last (fun s now _ ↦ (s, now))).run (.start .new stats, none) es =
      .ok (s, w) →
      ((∀ t ≥ w.elim 0 Prod.snd, Ready (s.pendingGroup.poll s.pendingGroup.minInstant
        Audio.maxBuffering s.nextKypacketSeq) t ↔ ∃ d, s.deadline = some d ∧ d ≤ t) ↔
        ∀ before now, w = some (before, now) → ∀ configPacket,
          before.pendingGroup.poll before.pendingGroup.minInstant Audio.maxBuffering
            before.nextKypacketSeq now = .ready configPacket →
              before.pendingGroup.Alone configPacket)) := by
  constructor
  · intro es s w h
    refine Video.State.timer.last_exact_iff (fun s ↦ s.pendingGroups.Alone) ?_
      (fun s now s' ↦ Video.State.take_breaks) (fun s i s' ↦ Video.State.select_skips) h
    exact .none
  · intro es s w h
    refine Audio.State.timer.last_exact_iff (fun s ↦ s.pendingGroup.Alone) ?_
      (fun s now s' ↦ Audio.State.take_breaks) (fun s i s' ↦ Audio.State.select_skips) h
    exact .none

section Small

open VideoFec (noStats smallConfig smallMedia)

/-- A config is taken, and there is nothing behind it. -/
theorem plain_exact_iff_config :
    (∃ s before, (Video.process.last (fun s now _ ↦ (s, now))).run (.start [] noStats, none)
      [⟨.message (.stream ⟨smallConfig, 0, 1⟩) 0, fun _ ↦ 0⟩] = .ok (s, some (before, 0)) ∧
        before.pendingGroups = [⟨⟨.ready ⟨smallConfig, 0⟩, [], []⟩, 1⟩] ∧
          ∀ t, Ready (s.pendingGroups.nextPacket Video.maxBuffering s.nextKypacketSeq) t ↔
            ∃ d, s.deadline = some d ∧ d ≤ t) ∧
    ∃ s before, (Audio.process.last (fun s now _ ↦ (s, now))).run (.start .new noStats, none)
      [⟨.message (.stream ⟨smallCodec, 0⟩) 0, fun _ ↦ 0⟩,
        ⟨.message (.stream ⟨smallConfig, 0⟩) 0, fun _ ↦ 0⟩] = .ok (s, some (before, 0)) ∧
        before.pendingGroup = ⟨.ready ⟨smallConfig, 0⟩, [], []⟩ ∧
          ∀ t, Ready (s.pendingGroup.poll s.pendingGroup.minInstant Audio.maxBuffering
            s.nextKypacketSeq) t ↔ ∃ d, s.deadline = some d ∧ d ≤ t := by
  constructor
  · obtain ⟨⟨s, w⟩, hrun, hshow⟩ := ok_of_map (show ((Video.process.last
      (fun s now _ ↦ (s, now))).run (.start [] noStats, none)
        [⟨.message (.stream ⟨smallConfig, 0, 1⟩) 0, fun _ ↦ 0⟩]).map
          (fun x ↦ x.2.map (fun w ↦ (w.1.pendingGroups, w.2))) =
            .ok (some ([⟨⟨.ready ⟨smallConfig, 0⟩, [], []⟩, 1⟩], 0)) by decide +kernel)
    obtain ⟨⟨before, now⟩, rfl, hbefore⟩ := Option.map_eq_some_iff.mp hshow
    obtain ⟨hgs, rfl⟩ := Prod.mk.inj hbefore
    refine ⟨s, before, hrun, hgs,
      fun t ↦ ((plain_exact_iff noStats).1 _ s _ hrun).mpr ?_ t (Nat.zero_le t)⟩
    rintro _ _ ⟨⟩ ref - g k hg -
    rw [hgs] at hg ⊢
    obtain ⟨index, configPacket⟩ := ref
    cases index with
    | zero =>
      cases hg
      cases configPacket <;> simp [Pending.Alone]
    | succ index => simp at hg
  · obtain ⟨⟨s, w⟩, hrun, hshow⟩ := ok_of_map (show ((Audio.process.last
      (fun s now _ ↦ (s, now))).run (.start .new noStats, none)
        [⟨.message (.stream ⟨smallCodec, 0⟩) 0, fun _ ↦ 0⟩,
          ⟨.message (.stream ⟨smallConfig, 0⟩) 0, fun _ ↦ 0⟩]).map
            (fun x ↦ x.2.map (fun w ↦ (w.1.pendingGroup, w.2))) =
              .ok (some (⟨.ready ⟨smallConfig, 0⟩, [], []⟩, 0)) by decide +kernel)
    obtain ⟨⟨before, now⟩, rfl, hbefore⟩ := Option.map_eq_some_iff.mp hshow
    obtain ⟨hgs, rfl⟩ := Prod.mk.inj hbefore
    refine ⟨s, before, hrun, hgs,
      fun t ↦ ((plain_exact_iff noStats).2 _ s _ hrun).mpr ?_ t (Nat.zero_le t)⟩
    rintro _ _ ⟨⟩ configPacket -
    rw [hgs]
    cases configPacket <;> simp [Pending.Alone]

def plainOutcomes (D : SendDriver) (packets : List AVPacket) : List Outcome :=
  D.sendAll .start (packets.map (⟨·, 7, some 38, none⟩))

def lateRecord (records : ℕ) (outcomes : List Outcome) :
    List (Event (Arrival BigEndian.Bytes ℕ) ℕ) :=
  List.replicate records ⟨.record 0, fun _ ↦ 0⟩ ++
    (sentDatagrams outcomes).map (fun datagram ↦ ⟨.datagram datagram 0, fun _ ↦ 0⟩) ++
      [⟨.record 0, fun _ ↦ 0⟩]

/-- Behind a config that comes late its media waits with the timer off. -/
theorem plain_media_unarmed :
    (∃ x, Video.receiver.run
      (written (plainOutcomes Video.sendDriver [smallConfig, smallMedia]), .start [] noStats)
      (lateRecord 0 (plainOutcomes Video.sendDriver [smallConfig, smallMedia])) = .ok x ∧
      x.2.deadline = none ∧
        ∀ t, Ready (x.2.pendingGroups.nextPacket Video.maxBuffering x.2.nextKypacketSeq) t) ∧
    ∃ x, Audio.receiver.run
      (written (plainOutcomes Audio.sendDriver [smallCodec, smallConfig, smallMedia]),
        .start .new noStats)
        (lateRecord 1 (plainOutcomes Audio.sendDriver [smallCodec, smallConfig, smallMedia])) =
        .ok x ∧
      x.2.deadline = none ∧
        ∀ t, Ready (x.2.pendingGroup.poll x.2.pendingGroup.minInstant Audio.maxBuffering
          x.2.nextKypacketSeq) t := by
  constructor
  · obtain ⟨x, hrun, hshow⟩ := ok_of_map (show (Video.receiver.run
      (written (plainOutcomes Video.sendDriver [smallConfig, smallMedia]), .start [] noStats)
      (lateRecord 0 (plainOutcomes Video.sendDriver [smallConfig, smallMedia]))).map
        (fun x ↦ (x.2.deadline, x.2.nextKypacketSeq, x.2.pendingGroups)) =
          .ok (none, 1, [⟨⟨.sent, [⟨(), smallMedia, 1, 0⟩], []⟩, 1⟩]) by decide +kernel)
    obtain ⟨hd, hshow⟩ := Prod.mk.inj hshow
    obtain ⟨hnext, hgs⟩ := Prod.mk.inj hshow
    refine ⟨x, hrun, hd, fun t ↦ ⟨⟨0, false⟩, ?_⟩⟩
    rw [hnext, hgs]
    rfl
  · obtain ⟨x, hrun, hshow⟩ := ok_of_map (show (Audio.receiver.run
      (written (plainOutcomes Audio.sendDriver [smallCodec, smallConfig, smallMedia]),
        .start .new noStats)
      (lateRecord 1 (plainOutcomes Audio.sendDriver [smallCodec, smallConfig, smallMedia]))).map
        (fun x ↦ (x.2.deadline, x.2.nextKypacketSeq, x.2.pendingGroup)) =
          .ok (none, 1, ⟨.sent, [⟨(), smallMedia, 1, 0⟩], []⟩) by decide +kernel)
    obtain ⟨hd, hshow⟩ := Prod.mk.inj hshow
    obtain ⟨hnext, hgs⟩ := Prod.mk.inj hshow
    refine ⟨x, hrun, hd, fun t ↦ ⟨false, ?_⟩⟩
    rw [hnext, hgs]
    rfl

end Small

end Kymux
