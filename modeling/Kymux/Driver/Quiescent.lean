import Kymux.Driver.AudioFec
import Kymux.Driver.VideoFecTrace

namespace Kymux

open Av Driver EventLoop Fec Timed

variable {rq : RaptorQ}

namespace VideoFec

def State.Yields (s : State rq) (t : ℕ) : Prop :=
  ∃ k packet fecStats gs,
    s.pendingGroups.takeNextPacket s.nextKypacketSeq t = .ok (.packet k packet fecStats, gs)

theorem PendingGroups.takeNextPacket_packet_iff (gs : PendingGroups rq) (next now : ℕ) :
    (∃ k packet fecStats gs', gs.takeNextPacket next now = .ok (.packet k packet fecStats, gs')) ↔
      Ready (gs.nextPacket next) now := by
  unfold takeNextPacket takeNextPacketWith Ready
  cases hnext : gs.nextPacket next now with
  | none | deadline d => simp
  | ready ref =>
    obtain ⟨drained, g, rest, taken, p, -, -, -, -, -, href⟩ := Groups.takeRef_of_ready hnext
    simp only [href, bind, Except.bind, pure, Except.pure]
    exact iff_of_true ⟨_, _, _, _, rfl⟩ ⟨ref, rfl⟩

namespace State

variable {s s' : State rq} {now : ℕ}

theorem yields_eq (s : State rq) :
    s.Yields = Ready (s.pendingGroups.nextPacket s.nextKypacketSeq) :=
  funext fun t ↦ propext (s.pendingGroups.takeNextPacket_packet_iff s.nextKypacketSeq t)

theorem drain_ne_error (s : State rq) (now : ℕ) (e : Fault) : s.drain now ≠ .error e := by
  intro h
  unfold drain drainWith PendingGroups.takeNextPacket PendingGroups.takeNextPacketWith at h
  cases hnext : s.pendingGroups.nextPacket s.nextKypacketSeq now with
  | none | deadline d => simp [hnext] at h
  | ready ref =>
    obtain ⟨drained, g, rest, taken, p, -, -, -, -, -, href⟩ := Groups.takeRef_of_ready hnext
    simp [hnext, href, bind, Except.bind, pure, Except.pure] at h

def timer (rq : RaptorQ) : Timer (State rq) PacketRef where
  look s := s.pendingGroups.nextPacket s.nextKypacketSeq
  deadline s := s.deadline
  arm s deadline := { s with deadline }
  look_arm _ _ := rfl
  deadline_arm _ _ := rfl
  oneDeadline s := s.pendingGroups.pendingGroups.nextPacket_oneDeadline _ _

theorem drain_breaks (h : s.drain now = .ok (s', false)) :
    (timer rq).Turn (fun _ _ ↦ False) s now s' := by
  unfold drain drainWith PendingGroups.takeNextPacket PendingGroups.takeNextPacketWith at h
  cases hnext : s.pendingGroups.nextPacket s.nextKypacketSeq now with
  | none =>
    simp only [hnext] at h
    cases h
    exact .none hnext
  | deadline d =>
    simp only [hnext] at h
    cases h
    exact .deadline hnext
  | ready ref =>
    obtain ⟨drained, g, rest, taken, p, -, -, -, -, -, href⟩ := Groups.takeRef_of_ready hnext
    simp [hnext, href, bind, Except.bind, pure, Except.pure] at h

theorem select_skips {input : Input Msg Clock} (h : s.select input = .ok (s', false)) :
    (timer rq).look s' = (timer rq).look s ∧ s'.deadline = s.deadline := by
  unfold select selectWith at h
  split at h
  · simp only [Except.ok.injEq, Prod.mk.injEq] at h
    obtain ⟨rfl, -⟩ := h
    exact ⟨rfl, rfl⟩
  · cases h
  · obtain ⟨hgs, hn, hd⟩ := VideoState.receive_skips h
    exact ⟨by simp only [timer, hgs, hn], hd⟩

end State

end VideoFec

namespace AudioFec

def State.Yields (s : State rq) (t : ℕ) : Prop :=
  ∃ k packet p,
    s.pendingGroup.takeNextPacket maxBuffering s.nextKypacketSeq t = .ok (.packet k packet, p)

namespace State

variable {s s' : State rq} {now : ℕ}

theorem yields_eq (s : State rq) : s.Yields =
    Ready (s.pendingGroup.poll s.pendingGroup.minInstant maxBuffering s.nextKypacketSeq) :=
  funext fun t ↦ propext (s.pendingGroup.takeNextPacket_packet_iff maxBuffering s.nextKypacketSeq t)

theorem drain_error {e : Fault} (h : s.drain now = .error e) :
    e = invalid "audio before codec" := by
  unfold drain Pending.takeNextPacket at h
  cases hpoll :
    s.pendingGroup.poll s.pendingGroup.minInstant maxBuffering s.nextKypacketSeq now with
  | none | deadline d => simp [hpoll] at h
  | ready b =>
    obtain ⟨taken, p', htake⟩ := Pending.takePacket_of_ready hpoll
    simp only [hpoll, htake, bind, Except.bind, pure, Except.pure] at h
    split at h
    · next hfwd =>
      cases h
      unfold AudioState.forward at hfwd
      split at hfwd <;> cases hfwd
      rfl
    · cases h

def timer (rq : RaptorQ) : Timer (State rq) Bool where
  look s := s.pendingGroup.poll s.pendingGroup.minInstant maxBuffering s.nextKypacketSeq
  deadline s := s.deadline
  arm s deadline := { s with deadline }
  look_arm _ _ := rfl
  deadline_arm _ _ := rfl
  oneDeadline s := s.pendingGroup.poll_oneDeadline _ _ _

theorem drain_breaks (h : s.drain now = .ok (s', false)) :
    (timer rq).Turn (fun _ _ ↦ False) s now s' := by
  unfold drain Pending.takeNextPacket at h
  cases hpoll :
    s.pendingGroup.poll s.pendingGroup.minInstant maxBuffering s.nextKypacketSeq now with
  | none =>
    simp only [hpoll] at h
    cases h
    exact .none hpoll
  | deadline d =>
    simp only [hpoll] at h
    cases h
    exact .deadline hpoll
  | ready b =>
    obtain ⟨taken, p', htake⟩ := Pending.takePacket_of_ready hpoll
    simp only [hpoll, htake, bind, Except.bind, pure, Except.pure] at h
    split at h <;> cases h

theorem select_skips {input : Input Msg ℕ} (h : s.select input = .ok (s', false)) :
    (timer rq).look s' = (timer rq).look s ∧ s'.deadline = s.deadline := by
  unfold select selectWith at h
  split at h
  · simp only [Except.ok.injEq, Prod.mk.injEq] at h
    obtain ⟨rfl, -⟩ := h
    exact ⟨rfl, rfl⟩
  · cases h
  · obtain ⟨hgs, hn, hd⟩ := AudioState.receive_skips h
    exact ⟨by simp only [timer, hgs, hn], hd⟩

end State

end AudioFec

/-- Every drain of a receiver with forward error correction comes to an end, and from the
last one on the timer is armed for exactly the time when there is a packet to take. The
audio drain ends the loop with an error when it has a packet and no codec. -/
theorem fec_quiescent (rq : RaptorQ) (stats : ProtocolStats) :
    (∀ es s now, (VideoFec.process rq).At (.start .new stats) es s →
      ∃ n s', (VideoFec.process rq).iterate now n s = .ok (s', false)) ∧
    (∀ es s r, ((VideoFec.process rq).last (fun _ now _ ↦ now)).run (.start .new stats, none) es =
      .ok (s, some r) → ¬ s.Yields r ∧ ∀ t ≥ r, s.Yields t ↔ ∃ d, s.deadline = some d ∧ d ≤ t) ∧
    (∀ es s now, (AudioFec.process rq).At (.start .new stats) es s →
      ∃ n, (∃ s', (AudioFec.process rq).iterate now n s = .ok (s', false)) ∨
        (AudioFec.process rq).iterate now n s = .error (invalid "audio before codec")) ∧
    (∀ es s r, ((AudioFec.process rq).last (fun _ now _ ↦ now)).run (.start .new stats, none) es =
      .ok (s, some r) → ¬ s.Yields r ∧ ∀ t ≥ r, s.Yields t ↔ ∃ d, s.deadline = some d ∧ d ≤ t) := by
  refine ⟨?_, ?_, ?_, ?_⟩
  · intro es s now _
    obtain ⟨n, h | ⟨e, -, he⟩⟩ := iterate_ends (L := VideoFec.process rq) (P := fun _ ↦ False)
      (fun s t e h ↦ VideoFec.State.drain_ne_error s t e h) now s
    · exact ⟨n, h⟩
    · exact he.elim
  · intro es s r h
    rw [VideoFec.State.yields_eq]
    exact (VideoFec.State.timer rq).last_exact (fun s t s' ↦ VideoFec.State.drain_breaks)
      (fun s i s' ↦ VideoFec.State.select_skips) h
  · intro es s now _
    obtain ⟨n, h | ⟨e, h, rfl⟩⟩ := iterate_ends (L := AudioFec.process rq)
      (P := fun e ↦ e = invalid "audio before codec")
      (fun s t e h ↦ AudioFec.State.drain_error h) now s
    · exact ⟨n, .inl h⟩
    · exact ⟨n, .inr h⟩
  · intro es s r h
    rw [AudioFec.State.yields_eq]
    exact (AudioFec.State.timer rq).last_exact (fun s t s' ↦ AudioFec.State.drain_breaks)
      (fun s i s' ↦ AudioFec.State.select_skips) h

section Small

open VideoFec (noStats smallConfig smallSymbol configEvent mediaEvent)

def smallCodec : AVPacket := .codec ⟨⟨1, 0, 960⟩⟩

def smallAudioEvents : List (Event (Input AudioFec.Msg ℕ) ℕ) :=
  [⟨.message (.ok (.stream ⟨smallCodec, 0⟩)) 0, fun _ ↦ 0⟩,
    ⟨.message (.ok (.stream ⟨smallConfig, 10⟩)) 0, fun _ ↦ 0⟩,
    ⟨.message (.ok (.datagram ⟨smallSymbol, 5⟩)) 0, fun _ ↦ 0⟩]

theorem fec_quiescent_waiting :
    (∃ s, ((VideoFec.process .oneSymbol).last (fun _ now _ ↦ now)).run (.start .new noStats, none)
      [configEvent 10, mediaEvent 5] = .ok (s, some 0) ∧
      ∀ t, s.Yields t ↔ VideoFec.maxBuffering ≤ t) ∧
    ∃ s, ((AudioFec.process .oneSymbol).last (fun _ now _ ↦ now)).run (.start .new noStats, none)
      smallAudioEvents = .ok (s, some 0) ∧ ∀ t, s.Yields t ↔ AudioFec.maxBuffering ≤ t := by
  constructor
  · obtain ⟨⟨s, w⟩, hrun, hshow⟩ := ok_of_map (show (((VideoFec.process .oneSymbol).last
      (fun _ now _ ↦ now)).run (.start .new noStats, none) [configEvent 10, mediaEvent 5]).map
        (fun x ↦ (x.1.deadline, x.2)) = .ok (some VideoFec.maxBuffering, some 0) by decide +kernel)
    obtain ⟨hd, rfl⟩ := Prod.mk.inj hshow
    refine ⟨s, hrun, fun t ↦ ?_⟩
    rw [((fec_quiescent .oneSymbol noStats).2.1 _ s 0 hrun).2 t (Nat.zero_le t), hd]
    simp
  · obtain ⟨⟨s, w⟩, hrun, hshow⟩ := ok_of_map (show (((AudioFec.process .oneSymbol).last
      (fun _ now _ ↦ now)).run (.start .new noStats, none) smallAudioEvents).map
        (fun x ↦ (x.1.deadline, x.2)) = .ok (some AudioFec.maxBuffering, some 0) by decide +kernel)
    obtain ⟨hd, rfl⟩ := Prod.mk.inj hshow
    refine ⟨s, hrun, fun t ↦ ?_⟩
    rw [((fec_quiescent .oneSymbol noStats).2.2.2 _ s 0 hrun).2 t (Nat.zero_le t), hd]
    simp

end Small

end Kymux
