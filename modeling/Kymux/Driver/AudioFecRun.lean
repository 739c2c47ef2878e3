import Kymux.Driver.AudioFecValid
import Kymux.Driver.Law
import Kymux.Driver.VideoFecRun

namespace Kymux.AudioFec

open Av Driver EventLoop Fec Timed
open VideoFec (done_ok)

variable {rq : RaptorQ}

namespace State

variable {s s' : State rq} {now : ℕ} {b : Bool} {input : Input Msg ℕ}

inductive Selected (s : State rq) : Input Msg ℕ → State rq → Bool → Prop
  | timer : Selected s .timer s s.deadline.isSome
  | codec {packet raw clock} (hframe : packet.header.frameSize ≠ 0) :
    Selected s (.message (.ok (.stream ⟨.codec packet, raw⟩)) clock)
      { s with
        frameSize := some packet.header.frameSize
        txClient := s.txClient ++ [.codec packet] } false
  | lateStream {msg clock n} (hc : msg.packet.isCodec = false)
    (hn : n = s.number msg.rawKypacketSeq) (hlt : n.kypacketSeq < s.nextKypacketSeq) :
    Selected s (.message (.ok (.stream msg)) clock) (s.advance n) true
  | stream {msg clock n p} (hc : msg.packet.isCodec = false) (hn : n = s.number msg.rawKypacketSeq)
    (hge : s.nextKypacketSeq ≤ n.kypacketSeq)
    (hstep : PendingGroup.StreamStep s.pendingGroup n.kypacketSeq msg.packet (.ok ()) p) :
    Selected s (.message (.ok (.stream msg)) clock) ((s.advance n).store p) true
  | lateDatagram {msg clock n} (hn : n = s.number msg.rawKypacketSeq)
    (hlt : n.kypacketSeq < s.nextKypacketSeq) :
    Selected s (.message (.ok (.datagram msg)) clock) (s.advance n) false
  | datagram {msg clock n p} (hn : n = s.number msg.rawKypacketSeq)
    (hge : s.nextKypacketSeq ≤ n.kypacketSeq)
    (hins : Pending.Inserted (PendingGroup.reassembly rq) s.pendingGroup n.kypacketSeq msg.content 0
      clock (.ok ()) p) :
    Selected s (.message (.ok (.datagram msg)) clock) ((s.advance n).store p) true

theorem select_selected (ho : s.pendingGroup.Ordered) (h : s.select input = .ok (s', b)) :
    Selected s input s' b := by
  cases input with
  | timer =>
    simp only [select, selectWith, Except.ok.injEq, Prod.mk.injEq] at h
    obtain ⟨rfl, rfl⟩ := h
    exact .timer
  | message msg clock =>
    cases msg with
    | error e => cases h
    | ok msg =>
      cases msg with
      | stream msg =>
        simp only [select, selectWith, AudioState.receive] at h
        split at h
        · next packet hpacket =>
          obtain ⟨_, raw⟩ := msg
          subst hpacket
          unfold AudioState.receiveCodec at h
          split at h
          · cases h
          · next hframe => cases h; exact .codec hframe
        · next hpacket =>
          have hc : msg.packet.isCodec = false := by
            cases hp : msg.packet with
            | codec packet => exact (hpacket packet hp).elim
            | media packet | hole packet => rfl
          generalize hn : s.number msg.rawKypacketSeq = n at h
          unfold AudioState.receiveStream at h
          split at h
          · next hge =>
            split at h
            · cases h
            · next hins =>
              cases h
              obtain ⟨hok, rfl⟩ := done_ok hins
              have hstep :=
                PendingGroup.insertStreamPacket_step s.pendingGroup n.kypacketSeq msg.packet
              rw [hok] at hstep
              exact .stream hc hn.symm hge hstep
          · next hlt => cases h; exact .lateStream hc hn.symm (not_le.mp hlt)
      | datagram msg =>
        simp only [select, selectWith, AudioState.receive] at h
        generalize hn : s.number msg.rawKypacketSeq = n at h
        unfold AudioState.receiveDatagram at h
        split at h
        · next hlt => cases h; exact .lateDatagram hn.symm hlt
        · next hge =>
          split at h
          · cases h
          · next hins =>
            cases h
            obtain ⟨hok, rfl⟩ := done_ok hins
            have hstep :=
              Pending.insertDatagram_inserted (PendingGroup.reassembly rq) ho n.kypacketSeq
              msg.content 0 clock
            rw [hok] at hstep
            exact .datagram hn.symm (not_lt.mp hge) hstep

inductive Drained (s : State rq) (now : ℕ) : State rq → Bool → Prop
  | none (hpoll :
    s.pendingGroup.poll s.pendingGroup.minInstant maxBuffering s.nextKypacketSeq now = .none) :
    Drained s now { s with deadline := none } false
  | deadline {d}
    (hpoll : s.pendingGroup.poll s.pendingGroup.minInstant maxBuffering s.nextKypacketSeq
      now = .deadline d) :
    Drained s now { s with deadline := some d } false
  | packet {c taken p t} (hpoll : s.pendingGroup.poll s.pendingGroup.minInstant maxBuffering
      s.nextKypacketSeq now = .ready c)
    (htook : Pending.Took s.pendingGroup c taken p)
    (hfwd : { s with pendingGroup := p }.forward (invalid "audio before codec") taken.kypacketSeq
      taken.packet = .ok t) :
    Drained s now t true

theorem drain_drained (ho : s.pendingGroup.Ordered) (h : s.drain now = .ok (s', b)) :
    Drained s now s' b := by
  obtain ⟨a, p, htake, hstep⟩ := Pending.takeNextPacket_step ho maxBuffering s.nextKypacketSeq now
  simp only [drain, htake] at h
  cases hstep with
  | none hpoll => cases h; exact .none hpoll
  | deadline hpoll => cases h; exact .deadline hpoll
  | packet hpoll htook =>
    dsimp only at h
    split at h
    · cases h
    · next hfwd => cases h; exact .packet hpoll htook hfwd

theorem valid_selected (hv : PendingGroup.Valid s.pendingGroup) (h : s.select input = .ok (s', b)) :
    PendingGroup.Valid s'.pendingGroup := by
  cases select_selected hv.ordered h with
  | timer | codec | lateStream | lateDatagram => exact hv
  | stream _ _ _ hstep => exact hv.streamStep hstep
  | datagram _ _ hins => exact hv.inserted hins

theorem valid_drained (hv : PendingGroup.Valid s.pendingGroup) (h : s.drain now = .ok (s', b)) :
    PendingGroup.Valid s'.pendingGroup := by
  cases drain_drained hv.ordered h with
  | none | deadline => exact hv
  | packet hpoll htook hfwd =>
    rw [forward_pendingGroup hfwd]
    exact hv.takeStep (.packet hpoll htook)

end State

end Kymux.AudioFec
