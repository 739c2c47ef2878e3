import Kymux.ControlAwaits
import Kymux.ControlIds

namespace Kymux.Control

open Machine

variable {p q : Peer} {s s' : System} {as : List (Side × Action)} {side : Side} {a : Action}
  {msg : ControlMsg}

namespace Peer

def Completed (p : Peer) (x : Notifier) : Prop :=
  x.called ∧ .ready x.endpointId ∉ p.queue.drop queueSize ∧ x.notified

/-- No message is queued or in flight, and no `register_endpoint` is about to send one. -/
def Quiet (p : Peer) : Prop := p.path = [] ∧ ∀ c ∈ p.calls, c.phase ≠ .pending

structure Agrees (p q : Peer) : Prop where
  handled : ∀ msg stream, q.stream = msg :: stream → (p.handleMsg msg).1 = .ok ()
  vacant : ∀ c ∈ p.calls, c.phase = .hasNotifier → p.pendingRegisterAck c.endpointId = none
  registered : ∀ c ∈ p.calls, c.phase = .registered → c.endpointId ∈ q.pendingConnect
  ready : ∀ x ∈ p.notifiers, p.Completed x →
    ∃ y ∈ q.notifiers, y.endpointId = x.endpointId ∧ y.called
  acknowledged : p.Quiet → q.Quiet → ∀ c ∈ p.calls, c.phase ≠ .waiting
  woken : p.Quiet → q.Quiet → ∀ x ∈ p.notifiers, ∀ y ∈ q.notifiers, x.endpointId = y.endpointId →
    x.called → y.called → p.Completed x

theorem handleMsg_ok {stream : List ControlMsg} (h : Registers p q) (h' : Registers q p)
    (hawaits : Awaits p q) (hnodup : p.notifierIds.Nodup) (hstream : q.stream = msg :: stream) :
    (p.handleMsg msg).1 = .ok () := by
  cases msg with
  | registerEndpoint endpointId =>
    rw [Registers.handleMsg_registerEndpoint (h'.not_mem_pendingConnect hstream)]
  | endpointRegistered endpointId =>
    obtain ⟨call, c, hack, hc, -⟩ := h.call_of_answer hstream
    rw [Registers.handleMsg_endpointRegistered hack hc]
  | ready endpointId => exact (hawaits.readies.handleMsg_ready hnodup hawaits.held hstream).1

theorem agrees (h : Registers p q) (h' : Registers q p) (hawaits : Awaits p q)
    (hp : p.notifierIds.Nodup) (hq : q.notifierIds.Nodup) : p.Agrees q where
  handled _ _ := handleMsg_ok h h' hawaits hp
  vacant c hc hphase := by
    obtain ⟨call, hcall⟩ := List.getElem?_of_mem hc
    exact h.ack_of_hasNotifier hcall hphase
  registered c hc hphase := by
    obtain ⟨call, hcall⟩ := List.getElem?_of_mem hc
    have hstage := h.stage c.endpointId
    rw [phaseOf_of_get h.nodup hcall, hphase] at hstage
    exact of_decide_eq_true hstage.of_registered
  ready x hx hcompleted := by
    obtain ⟨n, hn⟩ := List.getElem?_of_mem hx
    have hstatus := hawaits.readies.status x.endpointId
    rw [notified_of_get hp hn, hcompleted.2.2] at hstatus
    exact exists_of_calledReady hstatus.of_notified
  acknowledged hquiet hquiet' := by
    intro c hc hphase
    obtain ⟨call, hcall⟩ := List.getElem?_of_mem hc
    have hstage := h.stage c.endpointId
    rw [phaseOf_of_get h.nodup hcall, hphase, requests, answers, hquiet.1, hquiet'.1] at hstage
    exact hstage.not_waiting List.count_nil List.count_nil
  woken hquiet hquiet' := by
    intro x hx y hy hid hcalled hcalled'
    obtain ⟨n, hn⟩ := List.getElem?_of_mem hx
    obtain ⟨m, hm⟩ := List.getElem?_of_mem hy
    have hstatus := hawaits.readies.status x.endpointId
    rw [notified_of_get hp hn, hid, calledReady_of_get hq hm, hcalled', readies, hquiet'.1]
      at hstatus
    have hqueue : p.queue = [] := (List.append_eq_nil_iff.mp hquiet.1).2
    refine ⟨hcalled, by simp [hqueue], ?_⟩
    cases hnotified : x.notified with
    | true => rfl
    | false =>
      rw [hnotified] at hstatus
      exact absurd hstatus.wake (by simp)

end Peer

namespace System

theorem awaits_of_run (h : run step start as = some s) (hdrop : ∀ side n, (side, .drop n) ∉ as)
    (hserver : s.server.notifierIds.Nodup) (hclient : s.client.notifierIds.Nodup) :
    Awaits s.server s.client := by
  refine run_induction (motive := fun as s ↦ (∀ side n, (side, .drop n) ∉ as) →
    s.server.notifierIds.Nodup → s.client.notifierIds.Nodup → Awaits s.server s.client)
    (fun _ _ _ ↦ .start _ _) ?_ h hdrop hserver hclient
  intro as s ⟨side, a⟩ s' _ ih hstep hdrop hserver hclient
  have hdrop' : ∀ side n, (side, .drop n) ∉ as :=
    fun side n hmem ↦ hdrop side n (List.mem_append_left _ hmem)
  have ha : ∀ n, a ≠ .drop n := by
    rintro n rfl
    exact hdrop side n (by simp)
  obtain ⟨-, hact⟩ | ⟨-, hact⟩ := step_some hstep
  · obtain ⟨hp, hq⟩ := Peer.notifierIds_act ha hact
    exact (ih hdrop' (hserver.sublist hp.sublist) (hq ▸ hclient)).act ha hserver hact
  · obtain ⟨hp, hq⟩ := Peer.notifierIds_act ha hact
    exact ((ih hdrop' (hq ▸ hserver) (hclient.sublist hp.sublist)).symm.act ha hclient hact).symm

/-- The control handshake, in every state that is reached. -/
theorem agreement (h : run step start as = some s) (hlength : s.registrations < 2 ^ 15)
    (hserver : s.server.notifierIds.Nodup) (hclient : s.client.notifierIds.Nodup)
    (hdrop : ∀ side n, (side, .drop n) ∉ as) :
    s.server.Agrees s.client ∧ s.client.Agrees s.server := by
  have hjoined := joined_of_run h hlength.le
  have hawaits := awaits_of_run h hdrop hserver hclient
  exact ⟨Peer.agrees hjoined.registers hjoined.registers_other hawaits hserver hclient,
    Peer.agrees hjoined.registers_other hjoined.registers hawaits.symm hclient hserver⟩

def oneEndpoint : List (Side × Action) :=
  [(.server, .getEndpointId), (.server, .callNotifier 0), (.server, .callRegister 0),
    (.server, .callSend 0), (.server, .transmit), (.client, .receive), (.client, .transmit),
    (.server, .receive), (.client, .connect 0), (.client, .ready 0), (.client, .transmit),
    (.server, .receive), (.server, .ready 0), (.server, .transmit), (.client, .receive)]

theorem agreement_one_endpoint : ∃ s, run step start oneEndpoint = some s ∧
    s.server.path = [] ∧ s.client.path = [] ∧ s.server.calls = [⟨0, .registered⟩] ∧
    s.server.notifiers = [⟨0, true, true, false⟩] ∧ s.client.notifiers = [⟨0, true, true, false⟩] ∧
    s.server.Agrees s.client ∧ s.client.Agrees s.server := by
  obtain ⟨s, hrun, hs⟩ := Option.map_eq_some_iff.mp (show (run step start oneEndpoint).map (fun s ↦
    (s.server.path, s.client.path, s.server.calls, s.client.calls, s.server.notifiers,
      s.client.notifiers)) = some ([], [], [⟨0, .registered⟩], [], [⟨0, true, true, false⟩],
        [⟨0, true, true, false⟩]) from rfl)
  simp only [Prod.mk.injEq] at hs
  obtain ⟨hpath, hpath', hcalls, hcalls', hnotifiers, hnotifiers'⟩ := hs
  refine ⟨s, hrun, hpath, hpath', hcalls, hnotifiers, hnotifiers', agreement hrun ?_ ?_ ?_ ?_⟩
  · rw [registrations, hcalls, hcalls']
    decide
  · rw [Peer.notifierIds, hnotifiers]
    decide
  · rw [Peer.notifierIds, hnotifiers']
    decide
  · intro side n
    simp [oneEndpoint]

end System

end Kymux.Control
