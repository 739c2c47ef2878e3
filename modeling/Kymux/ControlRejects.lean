import Kymux.ControlAwaits

namespace Kymux.Control

open Machine

variable {p p' : Peer} {msg : ControlMsg} {e : Fault}

inductive Event
  | act (a : Action)
  | message (msg : ControlMsg)
deriving DecidableEq

namespace Peer

/-- A step of a side that gets any messages. Its own steps are those beside a peer that is
silent. -/
def step (p : Peer) : Event → Option Peer
  | .act a => (p.act (.start 0) a).map Prod.fst
  | .message msg => if p.blocked then none else some (p.handleMsg msg).2

def Attended (p : Peer) : Prop :=
  ∀ endpointId n, p.pendingReady endpointId = some (.awaitingRemote n) → n < p.notifiers.length

theorem Attended.start (i : UInt16) : (start i).Attended := by
  intro endpointId n h
  cases h

theorem Attended.congr (h : p.Attended) (hready : p'.pendingReady = p.pendingReady)
    (hlen : p'.notifiers.length = p.notifiers.length) : p'.Attended := by
  intro endpointId n hpending
  rw [hready] at hpending
  rw [hlen]
  exact h endpointId n hpending

theorem Attended.update (h : p.Attended) {endpointId : UInt16} {pending : Option PendingReady}
    (hready : p'.pendingReady = Function.update p.pendingReady endpointId pending)
    (hlen : p.notifiers.length ≤ p'.notifiers.length)
    (hpending : ∀ n, pending = some (.awaitingRemote n) → n < p'.notifiers.length) :
    p'.Attended := by
  intro id n hn
  rw [hready] at hn
  by_cases hid : id = endpointId
  · subst hid
    rw [Function.update_self] at hn
    exact hpending n hn
  · rw [Function.update_of_ne hid] at hn
    exact (h id n hn).trans_le hlen

theorem Attended.registerReadyNotifier (h : p.Attended) (endpointId : UInt16) :
    (p.registerReadyNotifier endpointId).2.Attended := by
  obtain ⟨-, hp⟩ | ⟨x, pending, -, -, -, hcase, hp⟩ := p.registerReadyNotifier_cases endpointId
  · rwa [hp]
  · rw [hp]
    refine h.update rfl (by simp) (fun n hn ↦ ?_)
    obtain ⟨-, -, rfl⟩ | ⟨-, -, rfl⟩ := hcase
    · cases hn
    · cases hn
      simp

theorem length_notify (p : Peer) (notifier : ℕ) :
    (p.notify notifier).2.notifiers.length = p.notifiers.length := by
  have hheld := congrArg List.length (p.held_notify notifier)
  simpa [held] using hheld

theorem pendingReady_notify (p : Peer) (notifier : ℕ) :
    (p.notify notifier).2.pendingReady = p.pendingReady := by
  unfold notify
  split
  · rfl
  · split <;> rfl

theorem Attended.handleMsg (h : p.Attended) (msg : ControlMsg) : (p.handleMsg msg).2.Attended := by
  cases msg with
  | registerEndpoint endpointId =>
    simp only [Peer.handleMsg]
    split <;> exact h.congr rfl rfl
  | endpointRegistered endpointId =>
    obtain ⟨calls, pendingRegisterAck, hp⟩ := p.handleMsg_endpointRegistered_snd endpointId
    rw [hp]
    exact h.congr rfl rfl
  | ready endpointId =>
    cases hpending : p.pendingReady endpointId with
    | none =>
      rw [handleMsg_ready_of_none hpending]
      exact h.update rfl le_rfl (fun n hn ↦ by cases hn)
    | some pending =>
      cases pending with
      | awaitingLocal =>
        simp only [Peer.handleMsg, hpending]
        exact h.update rfl le_rfl (fun n hn ↦ by cases hn)
      | awaitingRemote notifier =>
        simp only [Peer.handleMsg, hpending]
        refine h.update (pendingReady_notify _ _) ?_ (fun n hn ↦ by cases hn)
        rw [length_notify]

theorem Attended.act (h : p.Attended) {q q' : Peer} {a : Action}
    (hact : p.act q a = some (p', q')) :
    p'.Attended := by
  cases a with
  | getEndpointId => cases hact; exact h.congr rfl rfl
  | callNotifier call =>
    obtain ⟨hadvance, rfl⟩ := map_some hact
    obtain ⟨c, -, -, rfl⟩ := advance_some hadvance
    obtain ⟨calls, hp⟩ := p.callNotifier_eq call c.endpointId
    rw [hp]
    exact (h.registerReadyNotifier c.endpointId).congr rfl rfl
  | callRegister call =>
    obtain ⟨hadvance, rfl⟩ := map_some hact
    obtain ⟨c, -, -, rfl⟩ := advance_some hadvance
    obtain ⟨calls, pendingRegisterAck, hp⟩ := p.registerEndpoint_eq call c.endpointId
    rw [hp]
    exact h.congr rfl rfl
  | callSend call =>
    obtain ⟨hadvance, rfl⟩ := map_some hact
    obtain ⟨c, -, -, rfl⟩ := advance_some hadvance
    obtain ⟨calls, hp⟩ := p.setPhase_eq call .waiting
    rw [hp]
    exact h.congr rfl rfl
  | connect endpointId => cases hact; exact h.registerReadyNotifier endpointId
  | ready notifier =>
    obtain ⟨hready, rfl⟩ := map_some hact
    obtain ⟨x, hx, -, rfl⟩ := ready_some hready
    exact h.congr rfl (by simp [send])
  | drop notifier =>
    obtain ⟨hdrop, rfl⟩ := map_some hact
    unfold Peer.drop at hdrop
    split at hdrop
    · cases hdrop
    · split at hdrop <;> cases hdrop
      exact h.congr rfl (by simp)
  | transmit =>
    obtain ⟨htransmit, rfl⟩ := map_some hact
    obtain ⟨queue, stream, rfl, -⟩ := path_transmit htransmit
    exact h.congr rfl rfl
  | receive =>
    obtain ⟨msg, stream, -, rfl, rfl⟩ := receive_some hact
    exact h.handleMsg msg

theorem Attended.step (h : p.Attended) {event : Event} (hstep : p.step event = some p') :
    p'.Attended := by
  cases event with
  | act a =>
    obtain ⟨⟨p₁, q⟩, hact, rfl⟩ := Option.map_eq_some_iff.mp hstep
    exact h.act hact
  | message msg =>
    unfold Peer.step at hstep
    split_ifs at hstep
    cases hstep
    exact h.handleMsg msg

structure SameMaps (p p' : Peer) : Prop where
  pendingRegisterAck : p'.pendingRegisterAck = p.pendingRegisterAck
  pendingConnect : p'.pendingConnect = p.pendingConnect
  pendingReady : p'.pendingReady = p.pendingReady

/-- The messages that are rejected, if nobody has dropped a notifier: all but one kind leave
everything as it was. -/
theorem rejected_cases (h : p.Attended) (hheld : ∀ x ∈ p.notifiers, x.dropped = false)
    (he : (p.handleMsg msg).1 = .error e) :
    (p.handleMsg msg).2 = p ∨
      ∃ endpointId, msg = .ready endpointId ∧ p.pendingReady endpointId = some .awaitingLocal := by
  cases msg with
  | registerEndpoint endpointId =>
    simp only [handleMsg] at he ⊢
    split_ifs at he ⊢
    exact .inl rfl
  | endpointRegistered endpointId =>
    cases hack : p.pendingRegisterAck endpointId with
    | none => exact .inl (by simp only [handleMsg, hack])
    | some call =>
      simp only [handleMsg, hack] at he
      cases he
  | ready endpointId =>
    cases hpending : p.pendingReady endpointId with
    | none =>
      rw [handleMsg_ready_of_none hpending] at he
      cases he
    | some pending =>
      cases pending with
      | awaitingLocal => exact .inr ⟨endpointId, rfl, hpending⟩
      | awaitingRemote notifier =>
        have hx := List.getElem?_eq_getElem (h endpointId notifier hpending)
        rw [handleMsg_ready_of_awaiting hpending hx (hheld _ (List.getElem_mem _))] at he
        cases he

theorem not_sameMaps {endpointId : UInt16}
    (hpending : p.pendingReady endpointId = some .awaitingLocal) :
    ¬ p.SameMaps (p.handleMsg (.ready endpointId)).2 := by
  intro hsame
  have hentry := congrFun hsame.pendingReady endpointId
  simp only [handleMsg, hpending, Function.update_self] at hentry
  cases hentry

/-- A message that is rejected leaves the maps as they were, unless it is a second announcement of a
remote side that nobody has connected to yet: that one takes back the first. -/
theorem rejected_unchanged_iff (i : UInt16) (events : List Event)
    (hrun : run step (start i) events = some p) (hheld : ∀ x ∈ p.notifiers, x.dropped = false)
    (he : (p.handleMsg msg).1 = .error e) :
    p.SameMaps (p.handleMsg msg).2 ↔
      ∀ endpointId, msg = .ready endpointId → p.pendingReady endpointId ≠ some .awaitingLocal := by
  have hattended : p.Attended :=
    run_invariant (.start i) (fun p event p' hp hstep ↦ hp.step hstep) hrun
  constructor
  · rintro hsame endpointId rfl hpending
    exact not_sameMaps hpending hsame
  · intro hmsg
    obtain hsame | ⟨endpointId, rfl, hpending⟩ := rejected_cases hattended hheld he
    · rw [hsame]
      exact ⟨rfl, rfl, rfl⟩
    · exact absurd hpending (hmsg endpointId rfl)

/-- A second registration of an endpoint is rejected, where another one awaits its local side. -/
theorem rejected_unchanged_iff_ack : ∃ p e,
    run step (start 0) [.message (.registerEndpoint 6), .message (.ready 4)] = some p ∧
      p.pendingConnect = {6} ∧ p.pendingReady 4 = some .awaitingLocal ∧
      (p.handleMsg (.registerEndpoint 6)).1 = .error e ∧
      p.SameMaps (p.handleMsg (.registerEndpoint 6)).2 := by
  obtain ⟨p, hrun, hp⟩ := Option.map_eq_some_iff.mp (show
    (run step (start 0) [.message (.registerEndpoint 6), .message (.ready 4)]).map (fun p ↦
      (p.pendingConnect, p.pendingReady 4, p.notifiers,
        (p.handleMsg (.registerEndpoint 6)).1.isOk)) =
          some ({6}, some .awaitingLocal, [], false) by decide +kernel)
  simp only [Prod.mk.injEq] at hp
  obtain ⟨hconnect, hready, hnotifiers, hrejected⟩ := hp
  obtain ⟨e, he⟩ : ∃ e, (p.handleMsg (.registerEndpoint 6)).1 = .error e := by
    cases hresult : (p.handleMsg (.registerEndpoint 6)).1 with
    | error e => exact ⟨e, rfl⟩
    | ok u =>
      rw [hresult] at hrejected
      cases hrejected
  refine ⟨p, e, hrun, hconnect, hready, he, ?_⟩
  exact (rejected_unchanged_iff 0 _ hrun (by simp [hnotifiers]) he).mpr (fun _ h ↦ by cases h)

/-- The remote side announces itself twice, and is then not known to be ready. -/
theorem ready_twice : ∃ p e, run step (start 0) [.message (.ready 4)] = some p ∧
    (p.handleMsg (.ready 4)).1 = .error (.err e) ∧ p.pendingReady 4 = some .awaitingLocal ∧
      (p.handleMsg (.ready 4)).2.pendingReady 4 = none :=
  ⟨_, _, rfl, rfl, rfl, rfl⟩

end Peer

end Kymux.Control
