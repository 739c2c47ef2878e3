import Kymux.ControlRegister

namespace Kymux.Control

open Keyed Machine

variable {p p' q q' : Peer} {i j : UInt16} {a : Action} {s s' : System} {side : Side}
  {as : List (Side × Action)}

namespace Peer

def ids (p : Peer) : List UInt16 := p.calls.map Call.endpointId

structure SameIds (p p' : Peer) : Prop where
  next : p'.nextEndpointIndex = p.nextEndpointIndex
  ids : p'.ids = p.ids

end Peer

namespace Peer.SameIds

theorem setPhase (p : Peer) (call : ℕ) (phase : Phase) : SameIds p (p.setPhase call phase) := by
  unfold Peer.setPhase
  split
  · exact ⟨rfl, rfl⟩
  · next hc => exact ⟨rfl, map_set hc rfl⟩

theorem registerEndpoint (p : Peer) (call : ℕ) (endpointId : UInt16) :
    SameIds p (p.registerEndpoint call endpointId) := by
  unfold Peer.registerEndpoint
  split
  · exact setPhase p call _
  · obtain ⟨hnext, hids⟩ := setPhase p call .pending
    exact ⟨hnext, hids⟩

theorem callNotifier (p : Peer) (call : ℕ) (endpointId : UInt16) :
    SameIds p (p.callNotifier call endpointId) := by
  obtain ⟨pendingReady, notifiers, hp⟩ := p.registerReadyNotifier_snd endpointId
  have hphase : ∀ phase,
      SameIds p ((p.registerReadyNotifier endpointId).2.setPhase call phase) := by
    intro phase
    rw [hp]
    obtain ⟨hnext, hids⟩ := setPhase { p with pendingReady, notifiers } call phase
    exact ⟨hnext, hids⟩
  unfold Peer.callNotifier
  split
  · next heq =>
    rw [heq] at hphase
    exact hphase _
  · next heq =>
    rw [heq] at hphase
    exact hphase _

theorem handleMsg (p : Peer) (msg : ControlMsg) : SameIds p (p.handleMsg msg).2 := by
  cases msg with
  | registerEndpoint endpointId =>
    simp only [Peer.handleMsg]
    split <;> exact ⟨rfl, rfl⟩
  | endpointRegistered endpointId =>
    simp only [Peer.handleMsg]
    split
    · next call _ =>
      obtain ⟨hnext, hids⟩ := setPhase p call .registered
      exact ⟨hnext, hids⟩
    · exact ⟨rfl, rfl⟩
  | ready endpointId =>
    obtain ⟨pendingReady, notifiers, hp⟩ := p.handleMsg_ready_snd endpointId
    rw [hp]
    exact ⟨rfl, rfl⟩

theorem length_eq (h : SameIds p p') : p'.calls.length = p.calls.length := by
  simpa [Peer.ids] using congrArg List.length h.ids

end Peer.SameIds

theorem Peer.act_ids (hact : p.act q a = some (p', q')) :
    (a = .getEndpointId ∧ p' = p.getEndpointId ∨ p.SameIds p') ∧ q.SameIds q' := by
  cases a with
  | getEndpointId =>
    cases hact
    exact ⟨.inl ⟨rfl, rfl⟩, ⟨rfl, rfl⟩⟩
  | callNotifier call =>
    obtain ⟨hadvance, rfl⟩ := Peer.map_some hact
    obtain ⟨c, -, -, rfl⟩ := Peer.advance_some hadvance
    exact ⟨.inr (.callNotifier p call c.endpointId), ⟨rfl, rfl⟩⟩
  | callRegister call =>
    obtain ⟨hadvance, rfl⟩ := Peer.map_some hact
    obtain ⟨c, -, -, rfl⟩ := Peer.advance_some hadvance
    exact ⟨.inr (.registerEndpoint p call c.endpointId), ⟨rfl, rfl⟩⟩
  | callSend call =>
    obtain ⟨hadvance, rfl⟩ := Peer.map_some hact
    obtain ⟨c, -, -, rfl⟩ := Peer.advance_some hadvance
    obtain ⟨hnext, hids⟩ := SameIds.setPhase p call .waiting
    exact ⟨.inr ⟨hnext, hids⟩, ⟨rfl, rfl⟩⟩
  | connect endpointId =>
    cases hact
    obtain ⟨pendingReady, notifiers, hp⟩ := p.registerReadyNotifier_snd endpointId
    rw [hp]
    exact ⟨.inr ⟨rfl, rfl⟩, ⟨rfl, rfl⟩⟩
  | ready notifier =>
    obtain ⟨hready, rfl⟩ := Peer.map_some hact
    obtain ⟨x, -, -, rfl⟩ := Peer.ready_some hready
    exact ⟨.inr ⟨rfl, rfl⟩, ⟨rfl, rfl⟩⟩
  | drop notifier =>
    obtain ⟨hdrop, rfl⟩ := Peer.map_some hact
    obtain ⟨notifiers, rfl⟩ := Peer.drop_some hdrop
    exact ⟨.inr ⟨rfl, rfl⟩, ⟨rfl, rfl⟩⟩
  | transmit =>
    obtain ⟨htransmit, rfl⟩ := Peer.map_some hact
    obtain ⟨queue, stream, rfl, -⟩ := Peer.path_transmit htransmit
    exact ⟨.inr ⟨rfl, rfl⟩, ⟨rfl, rfl⟩⟩
  | receive =>
    obtain ⟨msg, stream, -, rfl, rfl⟩ := Peer.receive_some hact
    exact ⟨.inr (.handleMsg p msg), ⟨rfl, rfl⟩⟩

theorem Peer.length_act (hact : p.act q a = some (p', q')) :
    p.calls.length ≤ p'.calls.length ∧ q.calls.length ≤ q'.calls.length := by
  obtain ⟨⟨-, rfl⟩ | hp, hq⟩ := Peer.act_ids hact
  · exact ⟨by simp [Peer.getEndpointId], hq.length_eq.ge⟩
  · exact ⟨hp.length_eq.ge, hq.length_eq.ge⟩

structure Numbered (initiator : UInt16) (p : Peer) : Prop where
  next : p.nextEndpointIndex = initiator + UInt16.ofNat (2 * p.calls.length)
  ids : p.ids = (List.range p.calls.length).map (fun k ↦ initiator + UInt16.ofNat (2 * k))

namespace Numbered

theorem start (i : UInt16) : Numbered i (.start i) := ⟨by simp [Peer.start], rfl⟩

theorem congr (h : Numbered i p) (hp : p.SameIds p') : Numbered i p' :=
  ⟨by rw [hp.next, hp.length_eq, h.next], by rw [hp.ids, hp.length_eq, h.ids]⟩

theorem getEndpointId (h : Numbered i p) : Numbered i p.getEndpointId := by
  have hlength : p.getEndpointId.calls.length = p.calls.length + 1 := List.length_append
  constructor
  · rw [hlength, Nat.mul_add, UInt16.ofNat_add, ← UInt16.add_assoc, ← h.next]
    rfl
  · rw [hlength, List.range_succ, List.map_append, ← h.ids]
    simp [Peer.ids, Peer.getEndpointId, h.next]

theorem act (h : Numbered i p) (h' : Numbered j q) (hact : p.act q a = some (p', q')) :
    Numbered i p' ∧ Numbered j q' := by
  obtain ⟨⟨-, rfl⟩ | hp, hq⟩ := Peer.act_ids hact
  · exact ⟨h.getEndpointId, h'.congr hq⟩
  · exact ⟨h.congr hp, h'.congr hq⟩

/-- Half of the ids of sixteen bits are handed out before one comes back. -/
theorem next_fresh (h : Numbered i p) (hlength : p.calls.length < 2 ^ 15) :
    p.nextEndpointIndex ∉ p.ids := by
  rw [h.next, h.ids]
  intro hmem
  obtain ⟨k, hk, heq⟩ := List.mem_map.mp hmem
  have hlt := List.mem_range.mp hk
  have := congrArg UInt16.toNat heq
  rw [UInt16.toNat_add, UInt16.toNat_add, UInt16.toNat_ofNat', UInt16.toNat_ofNat'] at this
  omega

theorem disjoint (h : Numbered System.initiatorServer p) (h' : Numbered System.initiatorClient q) :
    p.ids.Disjoint q.ids := by
  rw [h.ids, h'.ids]
  intro id hp hq
  obtain ⟨k, -, rfl⟩ := List.mem_map.mp hp
  obtain ⟨l, -, heq⟩ := List.mem_map.mp hq
  have := congrArg UInt16.toNat heq
  simp only [System.initiatorServer, System.initiatorClient, UInt16.toNat_add, UInt16.toNat_ofNat',
    UInt16.toNat_ofNat] at this
  omega

end Numbered

theorem System.step_some (h : s.step (side, a) = some s') :
    side = .server ∧ s.server.act s.client a = some (s'.server, s'.client) ∨
      side = .client ∧ s.client.act s.server a = some (s'.client, s'.server) := by
  cases side with
  | server =>
    obtain ⟨⟨p, q⟩, hact, rfl⟩ := Option.map_eq_some_iff.mp h
    exact .inl ⟨rfl, hact⟩
  | client =>
    obtain ⟨⟨p, q⟩, hact, rfl⟩ := Option.map_eq_some_iff.mp h
    exact .inr ⟨rfl, hact⟩

structure Joined (i j : UInt16) (p q : Peer) : Prop where
  numbered : Numbered i p
  numbered_other : Numbered j q
  registers : Registers p q
  registers_other : Registers q p

namespace Joined

theorem symm (h : Joined i j p q) : Joined j i q p :=
  ⟨h.numbered_other, h.numbered, h.registers_other, h.registers⟩

theorem act (h : Joined i j p q) (hact : p.act q a = some (p', q'))
    (hlength : p'.calls.length ≤ 2 ^ 15) : Joined i j p' q' := by
  obtain ⟨hnumbered, hnumbered'⟩ := h.numbered.act h.numbered_other hact
  have hfresh : a = .getEndpointId → p.nextEndpointIndex ∉ p.ids := by
    rintro rfl
    cases hact
    refine h.numbered.next_fresh ?_
    rw [show p.getEndpointId.calls.length = p.calls.length + 1 from List.length_append] at hlength
    exact hlength
  obtain ⟨hregisters, hregisters'⟩ := h.registers.act h.registers_other hfresh hact
  exact ⟨hnumbered, hnumbered', hregisters, hregisters'⟩

end Joined

namespace System

def Joined (s : System) : Prop := Control.Joined initiatorServer initiatorClient s.server s.client

def registrations (s : System) : ℕ := max s.server.calls.length s.client.calls.length

theorem registrations_step (h : s.step (side, a) = some s') :
    s.registrations ≤ s'.registrations := by
  obtain ⟨-, hact⟩ | ⟨-, hact⟩ := step_some h
  · obtain ⟨hp, hq⟩ := Peer.length_act hact
    exact max_le_max hp hq
  · obtain ⟨hp, hq⟩ := Peer.length_act hact
    exact max_le_max hq hp

theorem joined_of_run (h : run step start as = some s) (hlength : s.registrations ≤ 2 ^ 15) :
    s.Joined := by
  refine run_induction (motive := fun _ s ↦ s.registrations ≤ 2 ^ 15 → s.Joined) ?_ ?_ h hlength
  · intro _
    exact ⟨.start _, .start _, .start _ _, .start _ _⟩
  · intro _ s ⟨side, a⟩ s' _ ih hstep hlength
    have hjoined := ih ((registrations_step hstep).trans hlength)
    obtain ⟨-, hact⟩ | ⟨-, hact⟩ := step_some hstep
    · exact hjoined.act hact ((le_max_left _ _).trans hlength)
    · exact (hjoined.symm.act hact ((le_max_right _ _).trans hlength)).symm

end System

end Kymux.Control
