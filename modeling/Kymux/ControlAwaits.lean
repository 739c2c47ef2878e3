import Kymux.ControlReady

namespace Kymux.Control

open Keyed

variable {p p' q q' : Peer} {x : Notifier} {notifier : ℕ} {a : Action}

namespace Peer

theorem notifierIds_eq (p : Peer) : p.notifierIds = p.held.map Prod.fst := by
  simp [notifierIds, held]

theorem held_set {y : Notifier} (hx : p.notifiers[notifier]? = some x)
    (hid : y.endpointId = x.endpointId) (hdropped : y.dropped = x.dropped)
    (h : p'.notifiers = p.notifiers.set notifier y) : p'.held = p.held := by
  rw [held, h, held]
  exact map_set hx (Prod.ext hid hdropped)

theorem held_notify (p : Peer) (notifier : ℕ) : (p.notify notifier).2.held = p.held := by
  unfold notify
  split
  · rfl
  · next x hx =>
    split
    · rfl
    · exact held_set (y := { x with notified := true }) hx rfl rfl rfl

theorem held_handleMsg (p : Peer) (msg : ControlMsg) : (p.handleMsg msg).2.held = p.held := by
  cases msg with
  | registerEndpoint endpointId =>
    simp only [handleMsg]
    split <;> rfl
  | endpointRegistered endpointId =>
    simp only [handleMsg]
    split
    · next call _ =>
      obtain ⟨calls, hp⟩ := p.setPhase_eq call .registered
      rw [hp]
      rfl
    · rfl
  | ready endpointId =>
    simp only [handleMsg]
    split
    · exact held_notify _ _
    · rfl
    · split <;> rfl

theorem held_registerReadyNotifier (p : Peer) (endpointId : UInt16) :
    (p.registerReadyNotifier endpointId).2.held = p.held ∨
      (p.registerReadyNotifier endpointId).2.held = p.held ++ [(endpointId, false)] := by
  obtain ⟨-, hp⟩ | ⟨x, pending, rfl, -, hdropped, -, hp⟩ := p.registerReadyNotifier_cases endpointId
  · exact .inl (congrArg held hp)
  · right
    rw [hp, ← hdropped]
    simp [held]

theorem callNotifier_eq (p : Peer) (call : ℕ) (endpointId : UInt16) :
    ∃ calls, p.callNotifier call endpointId =
      { (p.registerReadyNotifier endpointId).2 with calls } := by
  unfold callNotifier
  split
  · next heq =>
    rw [heq]
    exact setPhase_eq _ _ _
  · next heq =>
    rw [heq]
    exact setPhase_eq _ _ _

theorem handleMsg_endpointRegistered_snd (p : Peer) (endpointId : UInt16) :
    ∃ calls pendingRegisterAck, (p.handleMsg (.endpointRegistered endpointId)).2 =
      { p with calls, pendingRegisterAck } := by
  simp only [handleMsg]
  split
  · next call _ =>
    obtain ⟨calls, hp⟩ := p.setPhase_eq call .registered
    rw [hp]
    exact ⟨calls, _, rfl⟩
  · exact ⟨_, _, rfl⟩

theorem registerEndpoint_eq (p : Peer) (call : ℕ) (endpointId : UInt16) :
    ∃ calls pendingRegisterAck,
      p.registerEndpoint call endpointId = { p with calls, pendingRegisterAck } := by
  unfold registerEndpoint
  split
  · obtain ⟨calls, hp⟩ :=
      p.setPhase_eq call (.failed ⟨"Endpoint already pending: " ++ hex endpointId⟩)
    exact ⟨calls, _, hp⟩
  · obtain ⟨calls, hp⟩ := p.setPhase_eq call .pending
    rw [hp]
    exact ⟨calls, _, rfl⟩

/-- Notifiers are only added, and stay as long as nobody drops them. -/
theorem held_act (hdrop : ∀ n, a ≠ .drop n) (hact : p.act q a = some (p', q')) :
    (p'.held = p.held ∨ ∃ endpointId, p'.held = p.held ++ [(endpointId, false)]) ∧
      q'.held = q.held := by
  cases a with
  | getEndpointId => cases hact; exact ⟨.inl rfl, rfl⟩
  | callNotifier call =>
    obtain ⟨hadvance, rfl⟩ := map_some hact
    obtain ⟨c, -, -, rfl⟩ := advance_some hadvance
    obtain ⟨calls, hp⟩ := p.callNotifier_eq call c.endpointId
    rw [hp]
    exact ⟨(p.held_registerReadyNotifier c.endpointId).imp_right (⟨_, ·⟩), rfl⟩
  | callRegister call =>
    obtain ⟨hadvance, rfl⟩ := map_some hact
    obtain ⟨c, -, -, rfl⟩ := advance_some hadvance
    obtain ⟨calls, pendingRegisterAck, hp⟩ := p.registerEndpoint_eq call c.endpointId
    rw [hp]
    exact ⟨.inl rfl, rfl⟩
  | callSend call =>
    obtain ⟨hadvance, rfl⟩ := map_some hact
    obtain ⟨c, -, -, rfl⟩ := advance_some hadvance
    obtain ⟨calls, hp⟩ := p.setPhase_eq call .waiting
    rw [hp]
    exact ⟨.inl rfl, rfl⟩
  | connect endpointId =>
    cases hact
    exact ⟨(p.held_registerReadyNotifier endpointId).imp_right (⟨_, ·⟩), rfl⟩
  | ready notifier =>
    obtain ⟨hready, rfl⟩ := map_some hact
    obtain ⟨x, hx, -, rfl⟩ := ready_some hready
    exact ⟨.inl (held_set (y := { x with called := true }) hx rfl rfl rfl), rfl⟩
  | drop notifier => exact absurd rfl (hdrop notifier)
  | transmit =>
    obtain ⟨htransmit, rfl⟩ := map_some hact
    obtain ⟨queue, stream, rfl, -⟩ := path_transmit htransmit
    exact ⟨.inl rfl, rfl⟩
  | receive =>
    obtain ⟨msg, stream, -, rfl, rfl⟩ := receive_some hact
    exact ⟨.inl (p.held_handleMsg msg), rfl⟩

theorem notifierIds_act (hdrop : ∀ n, a ≠ .drop n) (hact : p.act q a = some (p', q')) :
    p.notifierIds <+: p'.notifierIds ∧ q'.notifierIds = q.notifierIds := by
  obtain ⟨hp, hq⟩ := held_act hdrop hact
  simp only [notifierIds_eq, hq, and_true]
  obtain hp | ⟨endpointId, hp⟩ := hp
  · rw [hp]
  · rw [hp, List.map_append]
    exact List.prefix_append _ _

end Peer

structure Awaits (p q : Peer) : Prop where
  held : ∀ m ∈ p.held, m.2 = false
  held_other : ∀ m ∈ q.held, m.2 = false
  readies : Readies p q
  readies_other : Readies q p

namespace Awaits

theorem start (i j : UInt16) : Awaits (.start i) (.start j) :=
  ⟨by simp [Peer.held, Peer.start], by simp [Peer.held, Peer.start], .start i j, .start j i⟩

theorem symm (h : Awaits p q) : Awaits q p := ⟨h.held_other, h.held, h.readies_other, h.readies⟩

theorem registerReadyNotifier (h : Readies p q) (h' : Readies q p) (endpointId : UInt16)
    (hnodup : (p.registerReadyNotifier endpointId).2.notifierIds.Nodup) :
    Readies (p.registerReadyNotifier endpointId).2 q ∧
      Readies q (p.registerReadyNotifier endpointId).2 := by
  refine ⟨h.registerReadyNotifier endpointId hnodup, ?_⟩
  obtain ⟨-, hp⟩ | ⟨x, pending, rfl, hcalled, -, -, hp⟩ := p.registerReadyNotifier_cases endpointId
  · rw [hp]
    exact h'
  · rw [hp] at hnodup ⊢
    exact h'.congr rfl rfl (fun _ ↦ rfl)
      (Peer.calledReady_concat (Peer.fresh_of_nodup hnodup rfl) hcalled rfl)

theorem act_readies (h : Awaits p q) (hdrop : ∀ n, a ≠ .drop n) (hnodup : p'.notifierIds.Nodup)
    (hact : p.act q a = some (p', q')) : Readies p' q' ∧ Readies q' p' := by
  have hnodup' : p.notifierIds.Nodup :=
    hnodup.sublist (Peer.notifierIds_act hdrop hact).1.sublist
  obtain ⟨hheld, -, h, h'⟩ := h
  cases a with
  | getEndpointId =>
    cases hact
    exact ⟨h.congr rfl rfl (fun _ ↦ rfl) rfl, h'.congr rfl rfl (fun _ ↦ rfl) rfl⟩
  | callNotifier call =>
    obtain ⟨hadvance, rfl⟩ := Peer.map_some hact
    obtain ⟨c, -, -, rfl⟩ := Peer.advance_some hadvance
    obtain ⟨calls, hp⟩ := p.callNotifier_eq call c.endpointId
    rw [hp] at hnodup ⊢
    obtain ⟨h, h'⟩ := registerReadyNotifier h h' c.endpointId hnodup
    exact ⟨h.congr rfl rfl (fun _ ↦ rfl) rfl, h'.congr rfl rfl (fun _ ↦ rfl) rfl⟩
  | callRegister call =>
    obtain ⟨hadvance, rfl⟩ := Peer.map_some hact
    obtain ⟨c, -, -, rfl⟩ := Peer.advance_some hadvance
    obtain ⟨calls, pendingRegisterAck, hp⟩ := p.registerEndpoint_eq call c.endpointId
    rw [hp]
    exact ⟨h.congr rfl rfl (fun _ ↦ rfl) rfl, h'.congr rfl rfl (fun _ ↦ rfl) rfl⟩
  | callSend call =>
    obtain ⟨hadvance, rfl⟩ := Peer.map_some hact
    obtain ⟨c, -, -, rfl⟩ := Peer.advance_some hadvance
    obtain ⟨calls, hp⟩ := p.setPhase_eq call .waiting
    rw [hp]
    exact ⟨h.congr rfl rfl (fun _ ↦ rfl) rfl,
      h'.congr rfl rfl (fun id ↦ Peer.readies_send _ _ id) rfl⟩
  | connect endpointId =>
    cases hact
    exact registerReadyNotifier h h' endpointId hnodup
  | ready notifier =>
    obtain ⟨hready, rfl⟩ := Peer.map_some hact
    refine ⟨?_, h'.called hnodup' hready⟩
    obtain ⟨x, hx, -, rfl⟩ := Peer.ready_some hready
    exact h.set (y := { x with called := true }) hnodup' hx rfl rfl rfl rfl
  | drop notifier => exact absurd rfl (hdrop notifier)
  | transmit =>
    obtain ⟨htransmit, rfl⟩ := Peer.map_some hact
    obtain ⟨queue, stream, rfl, hpath⟩ := Peer.path_transmit htransmit
    exact ⟨h.congr rfl rfl (fun _ ↦ rfl) rfl,
      h'.congr rfl rfl (fun _ ↦ congrArg (List.count _) hpath) rfl⟩
  | receive =>
    obtain ⟨msg, stream, hstream, rfl, rfl⟩ := Peer.receive_some hact
    have hreadies := fun id ↦ Peer.readies_receive hstream id
    cases msg with
    | registerEndpoint endpointId =>
      simp only [Peer.handleMsg]
      split
      · exact ⟨h.congr rfl rfl (fun id ↦ (hreadies id).symm) rfl,
          h'.congr rfl rfl (fun _ ↦ rfl) rfl⟩
      · exact ⟨h.congr rfl rfl (fun id ↦ (hreadies id).symm) rfl,
          h'.congr rfl rfl (fun id ↦ Peer.readies_send _ _ id) rfl⟩
    | endpointRegistered endpointId =>
      obtain ⟨calls, pendingRegisterAck, hp⟩ := p.handleMsg_endpointRegistered_snd endpointId
      rw [hp]
      exact ⟨h.congr rfl rfl (fun id ↦ (hreadies id).symm) rfl,
        h'.congr rfl rfl (fun _ ↦ rfl) rfl⟩
    | ready endpointId =>
      obtain ⟨-, hready, hcalled⟩ := h.handleMsg_ready hnodup' hheld hstream
      refine ⟨hready, h'.congr rfl rfl (fun id ↦ ?_) hcalled⟩
      obtain ⟨pendingReady, notifiers, hp⟩ := p.handleMsg_ready_snd endpointId
      rw [hp]
      rfl

theorem act (h : Awaits p q) (hdrop : ∀ n, a ≠ .drop n) (hnodup : p'.notifierIds.Nodup)
    (hact : p.act q a = some (p', q')) : Awaits p' q' := by
  obtain ⟨hreadies, hreadies'⟩ := h.act_readies hdrop hnodup hact
  obtain ⟨hp, hq⟩ := Peer.held_act hdrop hact
  refine ⟨?_, hq ▸ h.held_other, hreadies, hreadies'⟩
  obtain hp | ⟨endpointId, hp⟩ := hp
  · exact hp ▸ h.held
  · intro m hm
    rw [hp] at hm
    obtain hm | hm := List.mem_append.mp hm
    · exact h.held m hm
    · obtain rfl := List.mem_singleton.mp hm
      rfl

end Awaits

end Kymux.Control
