import Kymux.Auth
import Kymux.ControlIds
import Kymux.ControlWire

namespace Kymux.Control

open BigEndian Machine

variable {serde : Serde}

namespace Peer

variable {p p' q q' : Peer} {a : Action} {msg : ControlMsg}

theorem setPhase_stream (p : Peer) (call : ℕ) (phase : Phase) (stream : List ControlMsg) :
    { p with stream }.setPhase call phase = { p.setPhase call phase with stream } := by
  unfold setPhase
  split <;> simp_all

theorem registerReadyNotifier_stream (p : Peer) (endpointId : UInt16) (stream : List ControlMsg) :
    { p with stream }.registerReadyNotifier endpointId =
      ((p.registerReadyNotifier endpointId).1,
        { (p.registerReadyNotifier endpointId).2 with stream }) := by
  unfold registerReadyNotifier
  split <;> simp_all

theorem callNotifier_stream (p : Peer) (call : ℕ) (endpointId : UInt16) (stream : List ControlMsg) :
    { p with stream }.callNotifier call endpointId =
      { p.callNotifier call endpointId with stream } := by
  simp only [callNotifier, registerReadyNotifier_stream]
  generalize p.registerReadyNotifier endpointId = r
  obtain ⟨_ | _, p'⟩ := r
  · exact setPhase_stream p' call _ stream
  · exact setPhase_stream p' call _ stream

theorem registerEndpoint_stream (p : Peer) (call : ℕ) (endpointId : UInt16)
    (stream : List ControlMsg) :
    { p with stream }.registerEndpoint call endpointId =
      { p.registerEndpoint call endpointId with stream } := by
  simp only [registerEndpoint, setPhase_stream]
  split <;> simp_all

theorem handleMsg_stream (p : Peer) (msg : ControlMsg) (stream : List ControlMsg) :
    ({ p with stream }.handleMsg msg).2 = { (p.handleMsg msg).2 with stream } := by
  cases msg with
  | registerEndpoint endpointId =>
    simp only [handleMsg]
    split <;> rfl
  | endpointRegistered endpointId =>
    simp only [handleMsg, setPhase_stream]
    split <;> rfl
  | ready endpointId =>
    simp only [handleMsg, notify]
    split
    · split
      · rfl
      · split <;> rfl
    · rfl
    · split <;> rfl

theorem act_stream (hact : p.act q a = some (p', q')) (htransmit : a ≠ .transmit)
    (hreceive : a ≠ .receive) (stream : List ControlMsg) (r : Peer) :
    { p with stream }.act r a = some ({ p' with stream }, r) := by
  cases a with
  | getEndpointId =>
    cases hact
    rfl
  | callNotifier call =>
    obtain ⟨hadvance, -⟩ := map_some hact
    obtain ⟨c, hc, hphase, rfl⟩ := advance_some hadvance
    simp only [act, advance, hc, hphase, if_true, Option.map_some, callNotifier_stream]
  | callRegister call =>
    obtain ⟨hadvance, -⟩ := map_some hact
    obtain ⟨c, hc, hphase, rfl⟩ := advance_some hadvance
    simp only [act, advance, hc, hphase, if_true, Option.map_some, registerEndpoint_stream]
  | callSend call =>
    obtain ⟨hadvance, -⟩ := map_some hact
    obtain ⟨c, hc, hphase, rfl⟩ := advance_some hadvance
    simp only [act, advance, hc, hphase, if_true, Option.map_some, setPhase_stream, send]
  | connect endpointId =>
    cases hact
    simp only [act, registerReadyNotifier_stream]
  | ready notifier =>
    obtain ⟨hready, -⟩ := map_some hact
    unfold ready at hready
    split at hready
    · cases hready
    · next x hx =>
      split at hready
      · cases hready
      · next hcalled =>
        cases hready
        simp only [act, ready, hx, hcalled, if_false, Option.map_some, send]
  | drop notifier =>
    obtain ⟨hdrop, -⟩ := map_some hact
    unfold drop at hdrop
    split at hdrop
    · cases hdrop
    · next x hx =>
      split at hdrop
      · cases hdrop
      · next hdropped =>
        cases hdrop
        simp only [act, drop, hx, hdropped, Bool.false_eq_true, if_false, Option.map_some]
  | transmit => exact absurd rfl htransmit
  | receive => exact absurd rfl hreceive

end Peer

namespace Wired

variable {p p' q q' : Wired} {P P' Q Q' : Peer} {a : WireAction} {msgs : List ControlMsg}
  {msg : ControlMsg} {n : ℕ}

def dummy (p : Wired) : Bytes := if p.reading = .accepting then [0] else []

/-- The bytes that one side has read of the next message, and those on their way to it, are the
messages on the stream, as far as they were not cut off. -/
structure Carries (serde : Serde) (p q : Wired) (msgs : List ControlMsg) : Prop where
  onWay : q.got ++ (p.transit ++ p.sending) <+: q.dummy ++ msgs.flatMap serde.frame
  whole : p.finished = false →
    q.got ++ (p.transit ++ p.sending) = q.dummy ++ msgs.flatMap serde.frame
  first : q.reading = .accepting → q.got = []
  within : ∀ msg rest, msgs = msg :: rest → q.got <+: serde.frame msg

namespace Carries

theorem congr (h : Carries serde p q msgs) (hsending : p'.sending = p.sending)
    (htransit : p'.transit = p.transit) (hfinished : p'.finished = p.finished)
    (hgot : q'.got = q.got) (hreading : q'.reading = .accepting ↔ q.reading = .accepting) :
    Carries serde p' q' msgs := by
  have hdummy : q'.dummy = q.dummy := by simp only [dummy, hreading]
  refine ⟨?_, ?_, ?_, ?_⟩
  · rw [hgot, htransit, hsending, hdummy]
    exact h.onWay
  · rw [hgot, htransit, hsending, hdummy, hfinished]
    exact h.whole
  · rw [hgot, hreading]
    exact h.first
  · rw [hgot]
    exact h.within

theorem eq_nil_of_got (h : Carries serde p q []) : q.got = [] := by
  by_cases hreading : q.reading = .accepting
  · exact h.first hreading
  · have hprefix := h.onWay
    rw [dummy, if_neg hreading, List.flatMap_nil, List.append_nil, List.prefix_nil] at hprefix
    exact (List.append_eq_nil_iff.mp hprefix).1

theorem take (h : Carries serde p q msgs) (hfinished : p.finished = false)
    (hsending : p.sending = []) (peer : Peer) :
    Carries serde { p with peer, sending := serde.frame msg } q (msgs ++ [msg]) := by
  have hwhole : q.got ++ (p.transit ++ serde.frame msg) =
      q.dummy ++ (msgs ++ [msg]).flatMap serde.frame := by
    have hold := h.whole hfinished
    rw [hsending, List.append_nil] at hold
    rw [← List.append_assoc, hold, List.flatMap_append, List.flatMap_singleton, List.append_assoc]
  refine ⟨hwhole ▸ List.prefix_rfl, fun _ ↦ hwhole, h.first, ?_⟩
  intro first rest hmsgs
  cases msgs with
  | nil =>
    rw [h.eq_nil_of_got]
    exact List.nil_prefix
  | cons m msgs =>
    rw [List.cons_append, List.cons.injEq] at hmsgs
    exact h.within first msgs (by rw [hmsgs.1])

theorem write (h : Carries serde p q msgs) (n : ℕ) :
    Carries serde
      { p with sending := p.sending.drop n, transit := p.transit ++ p.sending.take n } q msgs := by
  have hbytes : p.transit ++ p.sending.take n ++ p.sending.drop n = p.transit ++ p.sending := by
    rw [List.append_assoc, List.take_append_drop]
  refine ⟨?_, ?_, h.first, h.within⟩
  · rw [hbytes]
    exact h.onWay
  · rw [hbytes]
    exact h.whole

theorem read (h : Carries serde p q msgs) (hreading : q.reading = .running)
    (hn : n ≤ Sized.awaits 4 q.got) :
    Carries serde { p with transit := p.transit.drop n }
    { q with got := q.got ++ p.transit.take n } msgs := by
  have hbytes : q.got ++ p.transit.take n ++ (p.transit.drop n ++ p.sending) =
      q.got ++ (p.transit ++ p.sending) := by
    rw [List.append_assoc, ← List.append_assoc (p.transit.take n), List.take_append_drop]
  refine ⟨?_, ?_, ?_, ?_⟩
  · rw [hbytes]
    exact h.onWay
  · rw [hbytes]
    exact h.whole
  · intro haccepting
    cases hreading.symm.trans haccepting
  · rintro msg rest rfl
    have hall := h.onWay
    rw [← hbytes, dummy, if_neg (by simp [hreading]), List.nil_append, List.flatMap_cons] at hall
    refine Sized.append_prefix_frame (serde.length_toVec msg) (h.within msg rest rfl) ?_
      ((List.prefix_append _ _).trans hall)
    exact (List.length_take_le _ _).trans hn

theorem full (h : Carries serde p q msgs) (hfull : Sized.full 4 q.got = true) :
    ∃ msg rest, msgs = msg :: rest ∧ q.got = serde.frame msg := by
  cases msgs with
  | nil =>
    rw [h.eq_nil_of_got] at hfull
    cases hfull
  | cons msg rest =>
    exact ⟨msg, rest, rfl, Sized.eq_frame_of_full (serde.length_toVec msg)
      (h.within msg rest rfl) hfull⟩

theorem handle {rest : List ControlMsg} (h : Carries serde p q (msg :: rest))
    (hreading : q.reading = .running) (hgot : q.got = serde.frame msg) (peer : Peer) :
    Carries serde p { q with peer, got := [] } rest := by
  have hdummy : q.dummy = [] := by rw [dummy, if_neg (by simp [hreading])]
  refine ⟨?_, fun hfinished ↦ ?_, fun _ ↦ rfl, fun _ _ _ ↦ List.nil_prefix⟩
  · have hprefix := h.onWay
    rw [hgot, hdummy, List.nil_append, List.flatMap_cons, List.prefix_append_right_inj] at hprefix
    change _ <+: q.dummy ++ _
    rw [hdummy]
    exact hprefix
  · have hwhole := h.whole hfinished
    rw [hgot, hdummy, List.nil_append, List.flatMap_cons, List.append_cancel_left_eq] at hwhole
    change _ = q.dummy ++ _
    rw [hdummy]
    exact hwhole

theorem accept {b : UInt8} {transit : Bytes} (h : Carries serde p q msgs)
    (hreading : q.reading = .accepting) (htransit : p.transit = b :: transit) :
    Carries serde { p with transit } { q with reading := .running } msgs := by
  have hgot := h.first hreading
  have hdummy : q.dummy = [0] := if_pos hreading
  refine ⟨?_, fun hfinished ↦ ?_, (fun hrunning ↦ by cases hrunning), h.within⟩
  · have hprefix := h.onWay
    rw [hgot, hdummy, htransit, List.nil_append, List.cons_append, List.cons_append,
      List.cons_prefix_cons] at hprefix
    change q.got ++ _ <+: _
    rw [hgot]
    exact hprefix.2
  · have hwhole := h.whole hfinished
    rw [hgot, hdummy, htransit, List.nil_append, List.cons_append, List.cons_append,
      List.cons.injEq] at hwhole
    change q.got ++ _ = _
    rw [hgot]
    exact hwhole.2

theorem cancel (h : Carries serde p q msgs) :
    Carries serde { p with sending := [], finished := true } q msgs := by
  refine ⟨?_, (fun hfinished ↦ by cases hfinished), h.first, h.within⟩
  have hcut : q.got ++ p.transit <+: q.got ++ (p.transit ++ p.sending) := by
    rw [← List.append_assoc]
    exact List.prefix_append _ _
  rw [List.append_nil]
  exact hcut.trans h.onWay

end Carries

structure StandsFor (serde : Serde) (p q : Wired) (P : Peer) : Prop where
  peer : P = { p.peer with stream := P.stream }
  carries : Carries serde p q P.stream
  reading : p.reading ≠ .failed

/-- What each step of the side with bytes is for the side with messages: nothing, or one step. -/
def Steps (P Q P' Q' : Peer) : Prop := P' = P ∧ Q' = Q ∨ ∃ b, P.act Q b = some (P', Q')

theorem active_iff : p.active = true ↔ p.finished = false ∧ p.reading ≠ .accepting := by
  simp [active]

theorem reads_iff : p.reads = true ↔ p.finished = false ∧ p.reading = .running ∧
    p.peer.blocked = false := by
  simp only [reads, Bool.and_eq_true, active_iff, decide_eq_true_eq, Bool.not_eq_true']
  constructor
  · rintro ⟨⟨⟨hfinished, -⟩, hreading⟩, hblocked⟩
    exact ⟨hfinished, hreading, hblocked⟩
  · rintro ⟨hfinished, hreading, hblocked⟩
    exact ⟨⟨⟨hfinished, by simp [hreading]⟩, hreading⟩, hblocked⟩

namespace StandsFor

theorem other (h : StandsFor serde q p Q) (hgot : p'.got = p.got)
    (hreading : p'.reading = .accepting ↔ p.reading = .accepting) : StandsFor serde q p' Q :=
  ⟨h.peer, h.carries.congr rfl rfl rfl hgot hreading, h.reading⟩

theorem actPeer {b : Action} (h : StandsFor serde p q P) (h' : StandsFor serde q p Q)
    (hact : p.actPeer q b = some p') :
    ∃ P', P.act Q b = some (P', Q) ∧ StandsFor serde p' q P' ∧ StandsFor serde q p' Q := by
  unfold Wired.actPeer at hact
  split at hact
  · cases hact
  · cases hact
  · next htransmit hreceive =>
    split at hact
    · obtain ⟨⟨r, r'⟩, hr, rfl⟩ := Option.map_eq_some_iff.mp hact
      have hP := Peer.act_stream hr htransmit hreceive P.stream Q
      rw [← h.peer] at hP
      refine ⟨_, hP, ⟨rfl, ?_, h.reading⟩, h'.other rfl .rfl⟩
      exact h.carries.congr rfl rfl rfl rfl .rfl
    · cases hact

theorem take (h : StandsFor serde p q P) (h' : StandsFor serde q p Q)
    (hact : p.take serde = some p') :
    ∃ P', P.act Q .transmit = some (P', Q) ∧ StandsFor serde p' q P' ∧ StandsFor serde q p' Q := by
  unfold Wired.take at hact
  split at hact
  · cases hact
  · next msg queue hqueue =>
    split at hact
    · next hactive =>
      cases hact
      rw [Bool.and_eq_true, active_iff, List.isEmpty_iff] at hactive
      have hP : P.queue = msg :: queue := by rw [h.peer]; exact hqueue
      refine ⟨{ P with queue, stream := P.stream ++ [msg] }, ?_, ⟨?_, ?_, h.reading⟩,
        h'.other rfl .rfl⟩
      · simp only [Peer.act, Peer.transmit, hP, Option.map_some]
      · rw [h.peer]
      · exact h.carries.take hactive.1.1 hactive.2 _
    · cases hact

theorem read (h : StandsFor serde p q P) (h' : StandsFor serde q p Q)
    (hact : p.read q n = some (p', q')) :
    StandsFor serde p' q' P ∧ StandsFor serde q' p' Q := by
  unfold Wired.read at hact
  split at hact
  · next hreads =>
    cases hact
    rw [Bool.and_eq_true, reads_iff, decide_eq_true_eq] at hreads
    refine ⟨⟨h.peer, h.carries.congr rfl rfl rfl rfl .rfl, h.reading⟩, h'.peer, ?_, h'.reading⟩
    exact h'.carries.read hreads.1.2.1 hreads.2
  · cases hact

theorem handle (h : StandsFor serde p q P)
    (h' : StandsFor serde q p Q) (hact : p.handle serde = some p') :
    ∃ P' Q', P.act Q .receive = some (P', Q') ∧ StandsFor serde p' q P' ∧
    StandsFor serde q p' Q' := by
  unfold Wired.handle at hact
  split at hact
  · next hreads =>
    rw [Bool.and_eq_true, reads_iff] at hreads
    obtain ⟨⟨-, hreading, hblocked⟩, hfull⟩ := hreads
    obtain ⟨msg, rest, hstream, hgot⟩ := h'.carries.full hfull
    rw [hgot, Sized.Serde.frame, Sized.drop_frame, serde.fromSlice_toVec] at hact
    cases hact
    have hP : P.blocked = false := by rw [h.peer]; exact hblocked
    refine ⟨(P.handleMsg msg).2, { Q with stream := rest }, ?_, ⟨?_, ?_, h.reading⟩, ?_, ?_,
      h'.reading⟩
    · simp only [Peer.act, Peer.receive, hstream, hP, Bool.false_eq_true, if_false]
    · rw [h.peer, Peer.handleMsg_stream]
    · have hkept : (P.handleMsg msg).2.stream = P.stream := by rw [h.peer, Peer.handleMsg_stream]
      rw [hkept]
      exact h.carries.congr rfl rfl rfl rfl .rfl
    · rw [h'.peer]
    · have hcarries := h'.carries
      rw [hstream] at hcarries
      exact hcarries.handle hreading hgot _
  · cases hact

theorem act (h : StandsFor serde p q P)
    (h' : StandsFor serde q p Q) (hact : p.act serde q a = some (p', q')) :
    ∃ P' Q', Steps P Q P' Q' ∧ StandsFor serde p' q' P' ∧ StandsFor serde q' p' Q' := by
  have hstutter {p' q' : Wired} (h : StandsFor serde p' q' P ∧ StandsFor serde q' p' Q) :
      ∃ P' Q', Steps P Q P' Q' ∧ StandsFor serde p' q' P' ∧ StandsFor serde q' p' Q' :=
      ⟨P, Q, .inl ⟨rfl, rfl⟩, h⟩
  cases a with
  | peer b =>
    obtain ⟨r, hr, heq⟩ := Option.map_eq_some_iff.mp hact
    cases heq
    obtain ⟨P', hP', hstands⟩ := h.actPeer h' hr
    exact ⟨P', Q, .inr ⟨b, hP'⟩, hstands⟩
  | take =>
    obtain ⟨r, hr, heq⟩ := Option.map_eq_some_iff.mp hact
    cases heq
    obtain ⟨P', hP', hstands⟩ := h.take h' hr
    exact ⟨P', Q, .inr ⟨.transmit, hP'⟩, hstands⟩
  | write n =>
    obtain ⟨r, hr, heq⟩ := Option.map_eq_some_iff.mp hact
    cases heq
    unfold Wired.write at hr
    split at hr
    · cases hr
      exact hstutter ⟨⟨h.peer, h.carries.write n, h.reading⟩, h'.other rfl .rfl⟩
    · cases hr
  | read n => exact hstutter (h.read h' hact)
  | handle =>
    obtain ⟨r, hr, heq⟩ := Option.map_eq_some_iff.mp hact
    cases heq
    obtain ⟨P', Q', hP', hstands⟩ := h.handle h' hr
    exact ⟨P', Q', .inr ⟨.receive, hP'⟩, hstands⟩
  | finish =>
    obtain ⟨r, hr, heq⟩ := Option.map_eq_some_iff.mp hact
    cases heq
    unfold Wired.finish at hr
    split at hr
    · next hreads =>
      cases hr
      simp only [Bool.and_eq_true, reads_iff] at hreads
      obtain ⟨⟨⟨⟨-, hrunning, -⟩, -⟩, -⟩, -⟩ := hreads
      refine hstutter ⟨⟨h.peer, h.carries.congr rfl rfl rfl rfl .rfl, by simp⟩, h'.other rfl ?_⟩
      simp [hrunning]
    · cases hr
  | accept =>
    simp only [Wired.act, Wired.accept] at hact
    split at hact
    · next b transit hreading htransit =>
      cases hact
      exact hstutter ⟨⟨h.peer, h.carries.congr rfl rfl rfl rfl .rfl, by simp⟩,
        h'.peer, h'.carries.accept hreading htransit, h'.reading⟩
    · cases hact
  | cancel =>
    obtain ⟨r, hr, heq⟩ := Option.map_eq_some_iff.mp hact
    cases heq
    unfold Wired.cancel at hr
    split at hr
    · cases hr
      exact hstutter ⟨⟨h.peer, h.carries.cancel, h.reading⟩, h'.other rfl .rfl⟩
    · cases hr

end StandsFor

namespace System

variable {s s' : System} {as : List (Side × WireAction)}

def StandsFor (serde : Serde) (s : System) (t : Control.System) : Prop :=
  Wired.StandsFor serde s.server s.client t.server ∧
    Wired.StandsFor serde s.client s.server t.client

theorem standsFor_start : start.StandsFor serde .start := by
  refine ⟨⟨rfl, ⟨List.prefix_rfl, fun _ ↦ rfl, ?_, ?_⟩, by decide⟩,
    rfl, ⟨List.prefix_rfl, fun _ ↦ rfl, fun _ ↦ rfl, ?_⟩, by decide⟩
  · intro h
    cases h
  · intro _ _ h
    cases h
  · intro _ _ h
    cases h

theorem standsFor_step {t : Control.System}
    {a : Side × WireAction} (h : s.StandsFor serde t) (hstep : s.step serde a = some s') :
    ∃ bs t', run Control.System.step t bs = some t' ∧ s'.StandsFor serde t' := by
  obtain ⟨side, a⟩ := a
  cases side with
  | server =>
    obtain ⟨⟨p, q⟩, hact, rfl⟩ := Option.map_eq_some_iff.mp hstep
    obtain ⟨P, Q, ⟨rfl, rfl⟩ | ⟨b, hb⟩, hstands⟩ := h.1.act h.2 hact
    · exact ⟨[], t, rfl, hstands⟩
    · exact ⟨[(.server, b)], ⟨P, Q⟩, by simp [run, Control.System.step, hb], hstands⟩
  | client =>
    obtain ⟨⟨p, q⟩, hact, rfl⟩ := Option.map_eq_some_iff.mp hstep
    obtain ⟨P, Q, ⟨rfl, rfl⟩ | ⟨b, hb⟩, hstands⟩ := h.2.act h.1 hact
    · exact ⟨[], t, rfl, hstands.symm⟩
    · exact ⟨[(.client, b)], ⟨Q, P⟩, by simp [run, Control.System.step, hb], hstands.symm⟩

/-- However the bytes of the control stream are cut into pieces, and wherever a side is cancelled,
the sides do what they do with whole messages that come in their order, and none fails to read. -/
theorem bytes_refine_messages (serde : Serde) (h : run (step serde) start as = some s) :
    ∃ bs t, run Control.System.step .start bs = some t ∧ s.StandsFor serde t :=
  run_simulates (fun _ _ _ _ ↦ standsFor_step) standsFor_start h

end System

end Wired

section MessagePack

open MessagePack

namespace ControlMsg

def variant : ControlMsg → String
  | registerEndpoint _ => "RegisterEndpoint"
  | endpointRegistered _ => "EndpointRegistered"
  | ready _ => "Ready"

def endpointId : ControlMsg → UInt16
  | registerEndpoint endpointId => endpointId
  | endpointRegistered endpointId => endpointId
  | ready endpointId => endpointId

def toVec (msg : ControlMsg) : Bytes :=
  fixmapOne :: (str (Auth.utf8 msg.variant) ++ fixarrayOne :: uint msg.endpointId.toNat)

def fromSlice : Bytes → Option ControlMsg
  | [] => none
  | marker :: bytes =>
    if marker = fixmapOne then
      match readStr bytes with
      | some (name, marker :: bytes) =>
        if marker = fixarrayOne then
          (readUint bytes).bind (fun x ↦
            if 2 ^ 16 ≤ x then none
            else if name = Auth.utf8 "RegisterEndpoint" then some (registerEndpoint (.ofNat x))
            else if name = Auth.utf8 "EndpointRegistered" then some (endpointRegistered (.ofNat x))
            else if name = Auth.utf8 "Ready" then some (ready (.ofNat x))
            else none)
        else none
      | _ => none
    else none

theorem length_toVec (msg : ControlMsg) : msg.toVec.length < 256 ^ 4 := by
  have hname : (str (Auth.utf8 msg.variant)).length ≤ 19 := by
    cases msg <;> exact of_decide_eq_true rfl
  have hid : (uint msg.endpointId.toNat).length ≤ 9 := by
    unfold uint
    split_ifs <;> simp
  rw [toVec, List.length_cons, List.length_append, List.length_cons]
  omega

theorem fromSlice_toVec (msg : ControlMsg) : fromSlice msg.toVec = some msg := by
  have hname : (Auth.utf8 msg.variant).length < 2 ^ 32 := by
    cases msg <;> exact of_decide_eq_true rfl
  have hid := readUint_uint (msg.endpointId.toNat_lt.trans (by norm_num : 2 ^ 16 < 2 ^ 64))
  have hlt : ¬ 2 ^ 16 ≤ msg.endpointId.toNat := not_le.mpr msg.endpointId.toNat_lt
  simp only [toVec, fromSlice, if_true, readStr_str hname, hid, Option.bind_some, if_neg hlt,
    UInt16.ofNat_toNat]
  cases msg with
  | registerEndpoint endpointId => exact if_pos rfl
  | endpointRegistered endpointId => exact (if_neg (of_decide_eq_false rfl)).trans (if_pos rfl)
  | ready endpointId =>
    exact (if_neg (of_decide_eq_false rfl)).trans
      ((if_neg (of_decide_eq_false rfl)).trans (if_pos rfl))

end ControlMsg

def messagePack : Serde where
  toVec := ControlMsg.toVec
  fromSlice := ControlMsg.fromSlice
  length_toVec := ControlMsg.length_toVec
  fromSlice_toVec := ControlMsg.fromSlice_toVec

end MessagePack

namespace Wired.System

/-- The message of a registration is written and read in three pieces each, and the server is
cancelled within the next one. -/
def registerInPieces : List (Side × WireAction) :=
  [(.server, .accept), (.server, .peer .getEndpointId), (.server, .peer (.callNotifier 0)),
    (.server, .peer (.callRegister 0)), (.server, .peer (.callSend 0)), (.server, .take),
    (.server, .write 3), (.client, .read 2), (.server, .write 10), (.client, .read 2),
    (.server, .write 20), (.client, .read 20), (.client, .handle), (.server, .peer (.ready 0)),
    (.server, .take), (.server, .write 5), (.server, .cancel), (.client, .read 4),
    (.client, .read 9), (.client, .finish)]

theorem bytes_refine_messages_in_pieces :
    ∃ s, run (step messagePack) start registerInPieces = some s ∧
      s.client.peer.pendingConnect = {0} ∧ s.client.got = [0, 0, 0, 9, 0x81] ∧
      s.client.reading = .ended ∧
      ∃ bs t, run Control.System.step .start bs = some t ∧ s.StandsFor messagePack t := by
  obtain ⟨s, hrun, hs⟩ := Option.map_eq_some_iff.mp (show
    (run (step messagePack) start registerInPieces).map (fun s ↦
      (s.client.peer.pendingConnect, s.client.got, s.client.reading)) =
        some ({0}, [0, 0, 0, 9, 0x81], .ended) by decide +kernel)
  simp only [Prod.mk.injEq] at hs
  exact ⟨s, hrun, hs.1, hs.2.1, hs.2.2, bytes_refine_messages messagePack hrun⟩

end Wired.System

end Kymux.Control
