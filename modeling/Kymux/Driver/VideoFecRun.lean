import Kymux.Driver.Law
import Kymux.Driver.VideoFecProcess

namespace Kymux.VideoFec

open Av Driver EventLoop Fec Timed

variable {rq : RaptorQ}

theorem done_ok {σ : Type} {out : Except Fault Unit × σ} {s : σ} (h : done out = .ok s) :
    out.1 = .ok () ∧ out.2 = s := by
  obtain ⟨r, s'⟩ := out
  cases r with
  | error e => cases h
  | ok u => cases h; exact ⟨rfl, rfl⟩

namespace State

variable {s s' : State rq} {now : ℕ} {b : Bool} {input : Input Msg Clock}

inductive Drained (s : State rq) (now : ℕ) : State rq → Bool → Prop
  | none (hnext : s.pendingGroups.nextPacket s.nextKypacketSeq now = .none) :
    Drained s now { s with deadline := none } false
  | deadline {d} (hnext : s.pendingGroups.nextPacket s.nextKypacketSeq now = .deadline d) :
    Drained s now { s with deadline := some d } false
  | packet {drained g rest c taken p}
    (hgs : s.pendingGroups.pendingGroups = drained ++ g :: rest)
    (hnext : s.pendingGroups.nextPacket s.nextKypacketSeq now = .ready ⟨drained.length, c⟩)
    (hpoll : g.poll s.pendingGroups.pendingGroups.minInstant maxBuffering s.nextKypacketSeq now =
      .ready c)
    (htook : Pending.Took g.toPending c taken p) :
    Drained s now (s.deliver taken.kypacketSeq taken.packet
      (s.pendingGroups.retiredStats +
        (drained.map (fun k ↦ Queue.discardedFecStats k.toPending)).sum +
        PendingGroups.takenStats taken)
      { s.pendingGroups with pendingGroups := ⟨p, g.groupSeq⟩ :: rest, retiredStats := 0 }) true

theorem drain_drained (ho : s.pendingGroups.pendingGroups.Ordered) (h : s.drain now = .ok (s', b)) :
    Drained s now s' b := by
  obtain ⟨a, gs, htake, hstep⟩ := PendingGroups.takeNextPacket_step ho s.nextKypacketSeq now
  simp only [drain, drainWith, htake] at h
  cases hstep with
  | none hnext => cases h; exact .none hnext
  | deadline hnext => cases h; exact .deadline hnext
  | packet hgs hnext hpoll _ htook => cases h; exact .packet hgs hnext hpoll htook

inductive Selected (s : State rq) : Input Msg Clock → State rq → Bool → Prop
  | timer : Selected s .timer s s.deadline.isSome
  | codec {msg clock} (hc : msg.packet.isCodec = true) :
    Selected s (.message (.ok (.stream msg)) clock)
      { s with txClient := s.txClient ++ [msg.packet] } false
  | lateStream {msg clock n} (hc : msg.packet.isCodec = false)
    (hn : n = s.numbers msg.rawKypacketSeq msg.rawGroupSeq)
    (hlt : n.kypacketSeq < s.nextKypacketSeq) :
    Selected s (.message (.ok (.stream msg)) clock) (s.advance n) true
  | stream {msg clock n gs} (hc : msg.packet.isCodec = false)
    (hn : n = s.numbers msg.rawKypacketSeq msg.rawGroupSeq)
    (hge : s.nextKypacketSeq ≤ n.kypacketSeq)
    (hstep : PendingGroups.StreamStep s.pendingGroups n.groupSeq n.kypacketSeq msg.packet clock
      (.ok ()) gs) :
    Selected s (.message (.ok (.stream msg)) clock) ((s.advance n).store gs) true
  | lateDatagram {msg clock n} (hn : n = s.numbers msg.rawKypacketSeq msg.rawGroupSeq)
    (hlt : n.kypacketSeq < s.nextKypacketSeq) :
    Selected s (.message (.ok (.datagram msg)) clock) (s.advance n) false
  | datagram {msg clock n gs} (hn : n = s.numbers msg.rawKypacketSeq msg.rawGroupSeq)
    (hge : s.nextKypacketSeq ≤ n.kypacketSeq)
    (hstep : PendingGroups.DatagramStep s.pendingGroups n.groupSeq n.kypacketSeq msg.content clock
      (.ok ()) gs) :
    Selected s (.message (.ok (.datagram msg)) clock) ((s.advance n).store gs) true

theorem select_selected (ho : s.pendingGroups.pendingGroups.Ordered)
    (h : s.select input = .ok (s', b)) : Selected s input s' b := by
  unfold select selectWith at h
  split at h
  · simp only [Except.ok.injEq, Prod.mk.injEq] at h
    obtain ⟨rfl, rfl⟩ := h
    exact .timer
  · cases h
  · next msg clock =>
    cases VideoState.receive_received h with
    | codec hc => exact .codec hc
    | lateStream hc hn hlt => exact .lateStream hc hn hlt
    | lateDatagram hn hlt => exact .lateDatagram hn hlt
    | @stream msg n gs hc hn hge hins =>
      obtain ⟨hok, rfl⟩ := done_ok hins
      have hstep :=
        PendingGroups.insertStreamPacket_step ho n.groupSeq n.kypacketSeq msg.packet clock
      rw [hok] at hstep
      exact .stream hc hn hge hstep
    | @datagram msg n gs hn hge hins =>
      obtain ⟨hok, rfl⟩ := done_ok hins
      have hstep := PendingGroups.insertDatagram_step ho n.groupSeq n.kypacketSeq msg.content clock
      rw [hok] at hstep
      exact .datagram hn hge hstep

theorem valid_selected (hv : s.pendingGroups.Valid) (h : s.select input = .ok (s', b)) :
    s'.pendingGroups.Valid := by
  cases select_selected hv.ordered h with
  | timer | codec _ => exact hv
  | lateStream | lateDatagram => simpa using hv
  | stream _ _ _ hstep => simpa using hv.streamStep hstep
  | datagram _ _ hstep => simpa using hv.datagramStep hstep

theorem drain_takeStep (ho : s.pendingGroups.pendingGroups.Ordered)
    (h : s.drain now = .ok (s', b)) :
    ∃ a, PendingGroups.TakeStep s.pendingGroups s.nextKypacketSeq now a s'.pendingGroups := by
  obtain ⟨a, gs, htake, hstep⟩ := PendingGroups.takeNextPacket_step ho s.nextKypacketSeq now
  have hgs : s'.pendingGroups = gs := by
    simp only [drain, drainWith, htake] at h
    cases hstep <;> cases h <;> rfl
  rw [hgs]
  exact ⟨a, hstep⟩

theorem valid_drained (hv : s.pendingGroups.Valid) (h : s.drain now = .ok (s', b)) :
    s'.pendingGroups.Valid :=
  hv.takeStep (drain_takeStep hv.ordered h).choose_spec

end State

namespace PendingGroups

variable {s s' : PendingGroups rq} {law : Law VideoObject (Parts rq)} {now : ℕ}

theorem Removes.obeys {p p' : Queue rq} {seq groupSeq : ℕ} {stats : VideoFecStats}
    (hrem : Removes now p seq stats p') (h : p.Obeys law groupSeq) : p'.Obeys law groupSeq := by
  cases hrem with
  | segment hs _ => exact ⟨h.ready, h.sent, fun s hm ↦ h.segments s (by simp [hs, hm]), h.datagrams⟩
  | datagram hd _ =>
    exact ⟨h.ready, h.sent, h.segments, fun d hm ↦ h.datagrams d (by simp [hd, hm])⟩

theorem Retires.obey (hret : Retires now s s') (h : s.pendingGroups.Obey law) :
    s'.pendingGroups.Obey law := by
  obtain @⟨pre, g, post, seq, stats, p, hgs, hrem, -⟩ := hret
  rw [hgs] at h
  intro k hk
  dsimp only at hk
  split_ifs at hk
  · exact h k (by rcases List.mem_append.mp hk with hk | hk <;> simp [hk])
  · rcases List.mem_append.mp hk with hk | hk
    · exact h k (by simp [hk])
    · rcases List.mem_cons.mp hk with rfl | hk
      · exact hrem.obeys (h g (by simp))
      · exact h k (by simp [hk])

theorem retires_obey (hret : Relation.ReflTransGen (Retires now) s s')
    (h : s.pendingGroups.Obey law) : s'.pendingGroups.Obey law := by
  induction hret with
  | refl => exact h
  | tail _ hstep ih => exact hstep.obey ih

section Insert

variable {groupSeq kypacketSeq : ℕ} {x : Symbol} {clock : Clock} {packet : AVPacket}

structure Admits (law : Law VideoObject (Parts rq)) (groupSeq kypacketSeq : ℕ) (x : Symbol) :
    Prop where
  kept : ∀ parts parts',
    law.segments groupSeq ⟨kypacketSeq, parts⟩ ∨ (∃ created, Parts.new x.oti created = .ok parts) →
    parts.addPacket x = .ok parts' → parts'.isComplete = false →
    law.segments groupSeq ⟨kypacketSeq, parts'⟩
  complete : ∀ parts parts' object packet assembled,
    law.segments groupSeq ⟨kypacketSeq, parts⟩ ∨ (∃ created, Parts.new x.oti created = .ok parts) →
    parts.addPacket x = .ok parts' → parts'.isComplete = true →
    parts'.assemble = .ok (object, packet) →
    law.datagram groupSeq ⟨object, packet, kypacketSeq, assembled⟩

theorem Stored.obey {r : Except Fault Unit} (ho : s.pendingGroups.Ordered)
    (hstored : Stored s groupSeq kypacketSeq x clock r s') (hr : r = .ok ())
    (hadm : Admits law groupSeq kypacketSeq x) (h : s.pendingGroups.Obey law) :
    s'.pendingGroups.Obey law := by
  cases hstored with
  | full => cases hr
  | inserted hplace hins =>
    have hp := hplace.all ho.each Pending.Ordered.new
    refine hplace.obey h ((hplace.obeys h).inserted hp hins hr (fun _ ↦ id) id (fun _ _ ↦ id)
      (fun _ ↦ id) ?_ ?_)
    · intro parts parts' hparts hadd hc _
      exact hadm.kept parts parts' (hparts.imp And.right (fun h ↦ ⟨_, h.2⟩)) hadd hc
    · intro parts parts' object packet hparts hadd hc hasm _
      exact hadm.complete parts parts' object packet _ (hparts.imp And.right (fun h ↦ ⟨_, h.2⟩))
        hadd hc hasm

theorem DatagramStep.obey {r : Except Fault Unit} (ho : s.pendingGroups.Ordered)
    (hstep : DatagramStep s groupSeq kypacketSeq x clock r s') (hr : r = .ok ())
    (hadm : Admits law groupSeq kypacketSeq x) (h : s.pendingGroups.Obey law) :
    s'.pendingGroups.Obey law := by
  cases hstep with
  | invalid | migrated | rejected => cases hr
  | late _ => exact h
  | known _ _ _ hstored => exact hstored.obey ho hr hadm h
  | overtaken _ hret _ => exact retires_obey hret h
  | fresh _ _ hret _ _ hstored =>
    exact hstored.obey (retires_ordered hret ho) hr hadm (retires_obey hret h)

theorem StreamStep.obey {r : Except Fault Unit}
    (hstep : StreamStep s groupSeq kypacketSeq packet clock r s') (hr : r = .ok ())
    (hready : packet.isConfig = true → law.ready groupSeq ⟨packet, kypacketSeq⟩)
    (h : s.pendingGroups.Obey law) : s'.pendingGroups.Obey law := by
  cases hstep with
  | unexpected | rejected | full | duplicate => cases hr
  | stored hpacket hcfg hret _ hplace _ =>
    have hr := retires_obey hret h
    refine hplace.obey hr ((hplace.obeys hr).setConfig (hready ?_))
    rw [hpacket]
    exact hcfg

end Insert

end PendingGroups

end Kymux.VideoFec
