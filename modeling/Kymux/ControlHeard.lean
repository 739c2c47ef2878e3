import Kymux.ControlAwaits
import Kymux.ControlIds

namespace Kymux.Control

open Keyed

variable {p p' q q' : Peer} {endpointId : UInt16} {a : Action} {notifier : ℕ} {x y : Notifier}

namespace Peer

def Called (p : Peer) (endpointId : UInt16) : Prop :=
  ∃ x ∈ p.notifiers, x.endpointId = endpointId ∧ x.called = true

def Keeps (p p' : Peer) : Prop :=
  ∀ (n : ℕ) (x : Notifier), p.notifiers[n]? = some x →
    ∃ x', p'.notifiers[n]? = some x' ∧ x'.endpointId = x.endpointId ∧
    (x.called = true → x'.called = true)

theorem Keeps.of_eq (h : p'.notifiers = p.notifiers) : p.Keeps p' :=
  fun _ x hx ↦ ⟨x, h ▸ hx, rfl, fun h ↦ h⟩

inductive Noted (p q : Peer) (a : Action) (p' : Peer) : Prop
  | same (hnotifiers : p'.notifiers = p.notifiers) (hpending : p'.pendingReady = p.pendingReady)
      (hpath : ∀ endpointId, .ready endpointId ∈ p'.path → .ready endpointId ∈ p.path)
  | new (x : Notifier) (pending : Option PendingReady) (hcalled : x.called = false)
      (hnotifiers : p'.notifiers = p.notifiers ++ [x])
      (hpending : p'.pendingReady = Function.update p.pendingReady x.endpointId pending)
      (hcases : p.pendingReady x.endpointId = some .awaitingLocal ∧ pending = none ∨
        x.notified = false ∧ pending = some (.awaitingRemote p.notifiers.length))
      (hpath : p'.path = p.path)
  | called (notifier : ℕ) (x : Notifier) (ha : a = .ready notifier)
      (hx : p.notifiers[notifier]? = some x)
      (hnotifiers : p'.notifiers = p.notifiers.set notifier { x with called := true })
      (hpending : p'.pendingReady = p.pendingReady)
      (hpath : p'.path = p.path ++ [.ready x.endpointId])
  | dropped (notifier : ℕ) (x : Notifier) (hx : p.notifiers[notifier]? = some x)
      (hnotifiers : p'.notifiers = p.notifiers.set notifier { x with dropped := true })
      (hpending : p'.pendingReady = p.pendingReady) (hpath : p'.path = p.path)
  | heard (endpointId : UInt16) (pending : Option PendingReady) (hmsg : .ready endpointId ∈ q.path)
      (hlocal : ∀ n, pending ≠ some (.awaitingRemote n))
      (hnotifiers : p'.notifiers = p.notifiers ∨ ∃ n x,
        p.pendingReady endpointId = some (.awaitingRemote n) ∧ p.notifiers[n]? = some x ∧
          p'.notifiers = p.notifiers.set n { x with notified := true })
      (hpending : p'.pendingReady = Function.update p.pendingReady endpointId pending)
      (hpath : p'.path = p.path)

theorem noted_registerReadyNotifier (q : Peer) {calls : List Call}
    (hp' : p' = { (p.registerReadyNotifier endpointId).2 with calls }) : Noted p q a p' := by
  obtain ⟨-, hp⟩ | ⟨x, pending, rfl, hcalled, -, hcases, hp⟩ :=
    p.registerReadyNotifier_cases endpointId
  · rw [hp'] at *
    rw [hp]
    exact .same rfl rfl (fun _ h ↦ h)
  · rw [hp', hp]
    refine .new x pending hcalled rfl rfl ?_ rfl
    exact hcases.imp (fun h ↦ ⟨h.1, h.2.2⟩) (fun h ↦ ⟨h.2.1, h.2.2⟩)

theorem noted_handleMsg_ready (hmsg : .ready endpointId ∈ q.path) :
    Noted p q a (p.handleMsg (.ready endpointId)).2 := by
  simp only [handleMsg]
  split
  · next n hpending =>
    unfold notify
    split
    · exact .heard endpointId none hmsg (by simp) (.inl rfl) rfl rfl
    · next x hx =>
      split
      · exact .heard endpointId none hmsg (by simp) (.inl rfl) rfl rfl
      · exact .heard endpointId none hmsg (by simp) (.inr ⟨n, x, hpending, hx, rfl⟩) rfl rfl
  · exact .heard endpointId none hmsg (by simp) (.inl rfl) rfl rfl
  · rw [Function.update_self]
    refine .heard endpointId (some .awaitingLocal) hmsg (by simp) (.inl rfl) ?_ rfl
    exact Function.update_idem _ _ _

theorem noted_receive (hact : p.receive q = some (p', q')) : Noted p q a p' := by
  obtain ⟨msg, stream, hstream, rfl, -⟩ := receive_some hact
  cases msg with
  | registerEndpoint endpointId =>
    simp only [handleMsg]
    split
    · exact .same rfl rfl (fun _ h ↦ h)
    · refine .same rfl rfl (fun id h ↦ ?_)
      rw [path_send] at h
      simpa [path] using h
  | endpointRegistered endpointId =>
    obtain ⟨calls, pendingRegisterAck, hp⟩ := p.handleMsg_endpointRegistered_snd endpointId
    rw [hp]
    exact .same rfl rfl (fun _ h ↦ h)
  | ready endpointId => exact noted_handleMsg_ready (by simp [path, hstream])

theorem noted_act (hact : p.act q a = some (p', q')) : Noted p q a p' := by
  cases a with
  | getEndpointId =>
    cases hact
    exact .same rfl rfl (fun _ h ↦ h)
  | callNotifier call =>
    obtain ⟨hadvance, -⟩ := map_some hact
    obtain ⟨c, -, -, rfl⟩ := advance_some hadvance
    obtain ⟨calls, hp⟩ := p.callNotifier_eq call c.endpointId
    exact noted_registerReadyNotifier q hp
  | callRegister call =>
    obtain ⟨hadvance, -⟩ := map_some hact
    obtain ⟨c, -, -, rfl⟩ := advance_some hadvance
    obtain ⟨calls, pendingRegisterAck, hp⟩ := p.registerEndpoint_eq call c.endpointId
    rw [hp]
    exact .same rfl rfl (fun _ h ↦ h)
  | callSend call =>
    obtain ⟨hadvance, -⟩ := map_some hact
    obtain ⟨c, -, -, rfl⟩ := advance_some hadvance
    obtain ⟨calls, hp⟩ := p.setPhase_eq call .waiting
    rw [hp]
    refine .same rfl rfl (fun id h ↦ ?_)
    rw [path_send] at h
    simpa [path] using h
  | connect endpointId =>
    cases hact
    exact noted_registerReadyNotifier q rfl
  | ready notifier =>
    obtain ⟨hready, -⟩ := map_some hact
    obtain ⟨x, hx, -, rfl⟩ := ready_some hready
    exact .called notifier x rfl hx rfl rfl (path_send _ _)
  | drop notifier =>
    obtain ⟨hdrop, -⟩ := map_some hact
    unfold drop at hdrop
    split at hdrop
    · cases hdrop
    · next x hx =>
      split at hdrop
      · cases hdrop
      · cases hdrop
        exact .dropped notifier x hx rfl rfl rfl
  | transmit =>
    obtain ⟨htransmit, -⟩ := map_some hact
    obtain ⟨queue, stream, rfl, hpath⟩ := path_transmit htransmit
    exact .same rfl rfl (fun _ h ↦ hpath ▸ h)
  | receive => exact noted_receive hact

theorem act_other (hact : p.act q a = some (p', q')) :
    q'.notifiers = q.notifiers ∧ q'.pendingReady = q.pendingReady ∧ ∀ msg ∈ q'.path,
    msg ∈ q.path := by
  cases a with
  | receive =>
    obtain ⟨msg, stream, hstream, -, rfl⟩ := receive_some hact
    refine ⟨rfl, rfl, fun m hm ↦ ?_⟩
    rw [path, hstream, List.cons_append]
    exact List.mem_cons_of_mem _ hm
  | getEndpointId | connect endpointId =>
    cases hact
    exact ⟨rfl, rfl, fun _ h ↦ h⟩
  | callNotifier _ | callRegister _ | callSend _ | ready _ | drop _ | transmit =>
    obtain ⟨-, rfl⟩ := map_some hact
    exact ⟨rfl, rfl, fun _ h ↦ h⟩

theorem Noted.notifiers (h : Noted p q a p') :
    (∃ x, x.called = false ∧ p'.notifiers = p.notifiers ++ [x]) ∨ p'.notifiers = p.notifiers ∨
      ∃ n x y, p.notifiers[n]? = some x ∧ p'.notifiers = p.notifiers.set n y ∧
        y.endpointId = x.endpointId ∧ (x.called = true → y.called = true) ∧
          (y.called = true → x.called = true ∨ a = .ready n) := by
  cases h with
  | same hnotifiers => exact .inr (.inl hnotifiers)
  | new x pending hcalled hnotifiers => exact .inl ⟨x, hcalled, hnotifiers⟩
  | called n x ha hx hnotifiers =>
    exact .inr (.inr ⟨n, x, _, hx, hnotifiers, rfl, fun _ ↦ rfl, fun _ ↦ .inr ha⟩)
  | dropped n x hx hnotifiers => exact .inr (.inr ⟨n, x, _, hx, hnotifiers, rfl, fun h ↦ h, .inl⟩)
  | heard endpointId pending _ _ hnotifiers =>
    obtain hnotifiers | ⟨n, x, -, hx, hnotifiers⟩ := hnotifiers
    · exact .inr (.inl hnotifiers)
    · exact .inr (.inr ⟨n, x, _, hx, hnotifiers, rfl, fun h ↦ h, .inl⟩)

theorem Noted.keeps (h : Noted p q a p') : p.Keeps p' := by
  intro n z hz
  obtain ⟨x, -, hnotifiers⟩ | hnotifiers | ⟨m, x, y, hx, hnotifiers, hid, hcalled, -⟩ := h.notifiers
  · exact ⟨z, hnotifiers ▸ get_concat.mpr (.inr hz), rfl, fun h ↦ h⟩
  · exact ⟨z, hnotifiers ▸ hz, rfl, fun h ↦ h⟩
  · rw [hnotifiers]
    simp only [get_set hx]
    by_cases hn : n = m
    · subst hn
      obtain rfl : x = z := Option.some.inj (hx.symm.trans hz)
      exact ⟨y, .inl ⟨rfl, rfl⟩, hid, hcalled⟩
    · exact ⟨z, .inr ⟨hn, hz⟩, rfl, fun h ↦ h⟩

theorem Called.mono (hkeeps : p.Keeps p') (h : p.Called endpointId) : p'.Called endpointId := by
  obtain ⟨x, hmem, hid, hcalled⟩ := h
  obtain ⟨n, hx⟩ := List.mem_iff_getElem?.mp hmem
  obtain ⟨x', hx', hid', hcalled'⟩ := hkeeps n x hx
  exact ⟨x', List.mem_of_getElem? hx', hid'.trans hid, hcalled' hcalled⟩

theorem called_congr (h : p'.notifiers = p.notifiers) : p'.Called endpointId ↔
    p.Called endpointId := by
  unfold Called
  rw [h]

theorem Noted.back (h : Noted p q a p') :
    (∃ x, x.called = false ∧ p'.notifiers = p.notifiers ++ [x]) ∨
      p'.notifiers.length = p.notifiers.length ∧
        ∀ (n : ℕ) (x' : Notifier), p'.notifiers[n]? = some x' → ∃ x, p.notifiers[n]? = some x ∧
          x'.endpointId = x.endpointId ∧ (x'.called = true → x.called = true ∨ a = .ready n) := by
  obtain hnew | hnotifiers | ⟨m, x, y, hx, hnotifiers, hid, -, hcalled⟩ := h.notifiers
  · exact .inl hnew
  · rw [hnotifiers]
    exact .inr ⟨rfl, fun n x' hx' ↦ ⟨x', hx', rfl, .inl⟩⟩
  · rw [hnotifiers]
    refine .inr ⟨List.length_set, fun n x' hx' ↦ ?_⟩
    obtain ⟨rfl, rfl⟩ | ⟨-, hx'⟩ := (get_set hx).mp hx'
    · exact ⟨x, hx, hid, hcalled⟩
    · exact ⟨x', hx', rfl, .inl⟩

def Announced (p : Peer) : Prop := ∀ endpointId, .ready endpointId ∈ p.path → p.Called endpointId

structure Heard (p q : Peer) : Prop where
  early : ∀ endpointId, p.pendingReady endpointId = some .awaitingLocal → q.Called endpointId
  place : ∀ endpointId n, p.pendingReady endpointId = some (.awaitingRemote n) →
    ∃ x, p.notifiers[n]? = some x ∧ x.endpointId = endpointId
  notified : ∀ x ∈ p.notifiers, x.notified = true → q.Called x.endpointId

theorem Announced.act (h : p.Announced) (hact : p.act q a = some (p', q')) : p'.Announced := by
  intro endpointId hmem
  have hnoted := noted_act hact
  have hold (hmem : .ready endpointId ∈ p.path) : p'.Called endpointId :=
    (h endpointId hmem).mono hnoted.keeps
  cases hnoted with
  | same _ _ hpath => exact hold (hpath endpointId hmem)
  | new _ _ _ _ _ _ hpath | dropped _ _ _ _ _ hpath | heard _ _ _ _ _ _ hpath =>
    exact hold (hpath ▸ hmem)
  | called notifier x _ hx hnotifiers _ hpath =>
    rw [hpath, List.mem_append, List.mem_singleton] at hmem
    obtain hmem | hmem := hmem
    · exact hold hmem
    · cases hmem
      refine ⟨{ x with called := true }, ?_, rfl, rfl⟩
      rw [hnotifiers]
      exact List.mem_of_getElem? ((get_set hx).mpr (.inl ⟨rfl, rfl⟩))

theorem Announced.other (h : q.Announced) (hact : p.act q a = some (p', q')) : q'.Announced := by
  obtain ⟨hnotifiers, -, hpath⟩ := act_other hact
  exact fun endpointId hmem ↦ (called_congr hnotifiers).mpr (h endpointId (hpath _ hmem))

namespace Heard

theorem other (h : q.Heard p) (hact : p.act q a = some (p', q')) : q'.Heard p' := by
  obtain ⟨hnotifiers, hpending, -⟩ := act_other hact
  have hkeeps := (noted_act hact).keeps
  constructor
  · intro endpointId hlocal
    exact (h.early endpointId (hpending ▸ hlocal)).mono hkeeps
  · intro endpointId n hremote
    rw [hnotifiers]
    exact h.place endpointId n (hpending ▸ hremote)
  · intro x hx hnotified
    exact (h.notified x (hnotifiers ▸ hx) hnotified).mono hkeeps

/-- Neither an entry nor a notifier that says more than those before the step. -/
theorem mono (h : p.Heard q) (hkeeps : p.Keeps p') (hpending : p'.pendingReady = p.pendingReady)
    (hnotified : ∀ y ∈ p'.notifiers, y.notified = true → q.Called y.endpointId) : p'.Heard q := by
  refine ⟨fun endpointId hlocal ↦ h.early endpointId (hpending ▸ hlocal),
    fun endpointId n hremote ↦ ?_, hnotified⟩
  obtain ⟨x, hx, rfl⟩ := h.place endpointId n (hpending ▸ hremote)
  obtain ⟨x', hx', hid, -⟩ := hkeeps n x hx
  exact ⟨x', hx', hid⟩

theorem notified_set (h : p.Heard q)
    (hy : y.notified = true → q.Called y.endpointId) :
    ∀ z ∈ p.notifiers.set notifier y, z.notified = true → q.Called z.endpointId := by
  intro z hz hnotified
  obtain rfl | hz := List.mem_or_eq_of_mem_set hz |>.symm
  · exact hy hnotified
  · exact h.notified z hz hnotified

theorem new (h : p.Heard q) {pending : Option PendingReady}
    (hnotifiers : p'.notifiers = p.notifiers ++ [x])
    (hpending : p'.pendingReady = Function.update p.pendingReady x.endpointId pending)
    (hcases : p.pendingReady x.endpointId = some .awaitingLocal ∧ pending = none ∨
      x.notified = false ∧ pending = some (.awaitingRemote p.notifiers.length)) : p'.Heard q := by
  constructor
  · intro endpointId hlocal
    rw [hpending] at hlocal
    by_cases hid : endpointId = x.endpointId
    · subst hid
      rw [Function.update_self] at hlocal
      obtain ⟨-, rfl⟩ | ⟨-, rfl⟩ := hcases <;> cases hlocal
    · rw [Function.update_of_ne hid] at hlocal
      exact h.early endpointId hlocal
  · intro endpointId n hremote
    rw [hpending] at hremote
    rw [hnotifiers]
    by_cases hid : endpointId = x.endpointId
    · subst hid
      rw [Function.update_self] at hremote
      obtain ⟨-, rfl⟩ | ⟨-, rfl⟩ := hcases
      · cases hremote
      · cases hremote
        exact ⟨x, get_concat.mpr (.inl ⟨rfl, rfl⟩), rfl⟩
    · rw [Function.update_of_ne hid] at hremote
      obtain ⟨y, hy, hyid⟩ := h.place endpointId n hremote
      exact ⟨y, get_concat.mpr (.inr hy), hyid⟩
  · intro y hy hnotified
    rw [hnotifiers, List.mem_append, List.mem_singleton] at hy
    obtain hy | rfl := hy
    · exact h.notified y hy hnotified
    · obtain ⟨hlocal, -⟩ | ⟨hnot, -⟩ := hcases
      · exact h.early _ hlocal
      · rw [hnot] at hnotified
        cases hnotified

/-- The message that is received comes from a side that has called `ready`. -/
theorem hear (h : p.Heard q) (hcalled : q.Called endpointId) {pending : Option PendingReady}
    (hlocal : ∀ n, pending ≠ some (.awaitingRemote n)) (hkeeps : p.Keeps p')
    (hnotifiers : p'.notifiers = p.notifiers ∨ ∃ n x,
      p.pendingReady endpointId = some (.awaitingRemote n) ∧ p.notifiers[n]? = some x ∧
        p'.notifiers = p.notifiers.set n { x with notified := true })
    (hpending : p'.pendingReady = Function.update p.pendingReady endpointId pending) :
    p'.Heard q := by
  constructor
  · intro id hearly
    rw [hpending] at hearly
    by_cases hid : id = endpointId
    · exact hid ▸ hcalled
    · rw [Function.update_of_ne hid] at hearly
      exact h.early id hearly
  · intro id n hremote
    rw [hpending] at hremote
    by_cases hid : id = endpointId
    · subst hid
      rw [Function.update_self] at hremote
      exact absurd hremote (hlocal n)
    · rw [Function.update_of_ne hid] at hremote
      obtain ⟨x, hx, rfl⟩ := h.place id n hremote
      obtain ⟨x', hx', hid', -⟩ := hkeeps n x hx
      exact ⟨x', hx', hid'⟩
  · obtain hnotifiers | ⟨n, x, hremote, hx, hnotifiers⟩ := hnotifiers
    · rw [hnotifiers]
      exact h.notified
    · rw [hnotifiers]
      refine h.notified_set (fun _ ↦ ?_)
      obtain ⟨y, hy, hid⟩ := h.place endpointId n hremote
      obtain rfl : x = y := Option.some.inj (hx.symm.trans hy)
      exact hid ▸ hcalled

theorem act (h : p.Heard q) (hq : q.Announced) (hact : p.act q a = some (p', q')) :
    p'.Heard q' := by
  obtain ⟨hother, -, -⟩ := act_other hact
  have hnoted := noted_act hact
  have hkeeps := hnoted.keeps
  have hheard : p'.Heard q := by
    cases hnoted with
    | same hnotifiers hpending => exact h.mono hkeeps hpending (hnotifiers ▸ h.notified)
    | new x pending _ hnotifiers hpending hcases => exact h.new hnotifiers hpending hcases
    | called notifier x _ hx hnotifiers hpending =>
      refine h.mono hkeeps hpending (hnotifiers ▸ h.notified_set ?_)
      exact h.notified x (List.mem_of_getElem? hx)
    | dropped notifier x hx hnotifiers hpending =>
      refine h.mono hkeeps hpending (hnotifiers ▸ h.notified_set ?_)
      exact h.notified x (List.mem_of_getElem? hx)
    | heard endpointId pending hmsg hlocal hnotifiers hpending =>
      exact h.hear (hq endpointId hmsg) hlocal hkeeps hnotifiers hpending
  refine ⟨fun endpointId hlocal ↦ ?_, hheard.place, fun x hx hnotified ↦ ?_⟩
  · exact (called_congr hother).mpr (hheard.early endpointId hlocal)
  · exact (called_congr hother).mpr (hheard.notified x hx hnotified)

theorem start (p : Peer) (initiator : UInt16) : (Peer.start initiator).Heard p where
  early _ h := by cases h
  place _ _ h := by cases h
  notified _ h := by cases h

end Heard

end Peer

open Machine

/-- In every state that is reached, a side has only heard of endpoints that the other one has
called `ready` for. -/
theorem System.heard_of_run {as : List (Side × Action)} {s : System}
    (h : run step start as = some s) :
    (s.server.Announced ∧ s.client.Announced) ∧ s.server.Heard s.client ∧
    s.client.Heard s.server := by
  refine run_invariant (P := fun s ↦ (s.server.Announced ∧ s.client.Announced) ∧
    s.server.Heard s.client ∧ s.client.Heard s.server) ?_ ?_ h
  · exact ⟨⟨fun _ h ↦ absurd h List.not_mem_nil, fun _ h ↦ absurd h List.not_mem_nil⟩, .start _ _,
      .start _ _⟩
  · rintro s ⟨side, a⟩ s' ⟨⟨hserver, hclient⟩, hheard, hheard'⟩ hstep
    obtain ⟨-, hact⟩ | ⟨-, hact⟩ := step_some hstep
    · exact ⟨⟨hserver.act hact, hclient.other hact⟩, hheard.act hclient hact, hheard'.other hact⟩
    · exact ⟨⟨hserver.other hact, hclient.act hact⟩, hheard.other hact, hheard'.act hserver hact⟩

end Kymux.Control
