import Kymux.Connection
import Kymux.ControlHeard
import Kymux.RouterIsolation

namespace Kymux.Connection

open BigEndian Keyed Machine
open Control (Side)

variable {p p' q q' : Connection} {notifier number cut : ℕ} {kind : Kind} {payload : Bytes}
  {a : Action} {b : Control.Action} {x : Control.Notifier} {s s' : System}
  {as : List (Side × Action)} {side : Side}

theorem holds_iff : p.holds notifier = true ↔ ∃ endpoint channel c,
    p.endpoints[notifier]? = some endpoint ∧
    endpoint.channel = some channel ∧ p.router.channels[channel]? = some c ∧
    c.registered = true := by
  unfold holds
  split
  · next call channel hendpoint =>
    simp only [hendpoint, Option.some.injEq, exists_and_left, exists_eq_left', Option.any_eq_true]
  · next hnone =>
    refine iff_of_false Bool.false_ne_true ?_
    rintro ⟨⟨call, _⟩, channel, c, hendpoint, rfl, -⟩
    exact hnone call channel hendpoint

theorem actControl_some (h : p.actControl q b = some (p', q')) :
    p.permits b = true ∧ p.control.act q.control b = some (p'.control, q'.control) ∧
      q' = { q with control := q'.control } ∧ p' = { p with
        control := p'.control
        endpoints := if p'.control.notifiers.length = p.control.notifiers.length then p.endpoints
          else p.endpoints ++ [.of b] } := by
  unfold actControl at h
  split at h
  · next hpermits =>
    obtain ⟨⟨control, control'⟩, hact, heq⟩ := Option.map_eq_some_iff.mp h
    cases heq
    exact ⟨hpermits, hact, rfl, rfl⟩
  · cases h

theorem register_some (h : p.register notifier = some p') : ∃ x endpoint,
    p.control.notifiers[notifier]? = some x ∧ p.endpoints[notifier]? = some endpoint ∧
      ((∃ control, p.control.drop notifier = some control ∧ p' = { p with control }) ∨
        p.router.clients x.endpointId = none ∧ p' = { p with
          router := { p.router with
            clients := Function.update p.router.clients x.endpointId (some p.router.channels.length)
            channels := p.router.channels ++ [.new x.endpointId] }
          endpoints := p.endpoints.set notifier
            { endpoint with channel := p.router.channels.length } }) := by
  unfold register at h
  split at h
  · next x endpoint hx hendpoint =>
    refine ⟨x, endpoint, hx, hendpoint, ?_⟩
    split at h
    · split at h
      · next e _ =>
        obtain ⟨control, hdrop, rfl⟩ := Option.map_eq_some_iff.mp h
        exact .inl ⟨control, hdrop, rfl⟩
      · next router hrouter =>
        cases h
        unfold Router.register at hrouter
        split at hrouter
        · cases hrouter
        · next hnone =>
          cases hrouter
          exact .inr ⟨hnone, rfl⟩
    · cases h
  · cases h

theorem send_some (h : p.send notifier kind payload = some p') : ∃ x,
    p.control.notifiers[notifier]? = some x ∧ x.called = true ∧ x.notified = true ∧
      p' = { p with
        wire := Function.update p.wire kind
          (p.wire kind ++ [writeEndpointId x.endpointId ++ payload]) } := by
  unfold send at h
  split at h
  · cases h
  · next x hx =>
    split at h
    · next hready =>
      cases h
      simp only [Bool.and_eq_true] at hready
      exact ⟨x, hx, hready.1.1.1, hready.1.1.2, rfl⟩
    · cases h

theorem arrive_some (h : p.arrive q kind number cut = some (p', q')) : ∃ sent bytes,
    sent ∈ q.wire kind ∧ bytes <+: sent ∧ p' = { p with router := p.router.arrive kind bytes } ∧
      q' = { q with wire := Function.update q.wire kind ((q.wire kind).eraseIdx number) } := by
  unfold arrive at h
  split at h
  · cases h
  · next sent hsent =>
    cases h
    refine ⟨sent, _, List.mem_of_getElem? hsent, ?_, rfl, rfl⟩
    split
    · exact List.prefix_rfl
    · exact List.take_prefix cut sent

theorem actRouter_some {b : Router.Action} (h : p.actRouter q b = some (p', q')) :
    ∃ router, p.router.step b = some router ∧ p' = { p with router } ∧ q' = q := by
  obtain ⟨router, hstep, heq⟩ := Option.map_eq_some_iff.mp h
  cases heq
  exact ⟨router, hstep, rfl, rfl⟩

/-- A step is one of the control of that side, or leaves both controls as they are. -/
theorem control_act (h : p.act q a = some (p', q')) :
    p'.control = p.control ∧ q'.control = q.control ∨
      ∃ b, p.control.act q.control b = some (p'.control, q'.control) := by
  cases a with
  | control b => exact .inr ⟨b, (actControl_some h).2.1⟩
  | register notifier =>
    obtain ⟨r, hregister, heq⟩ := Option.map_eq_some_iff.mp h
    cases heq
    obtain ⟨x, endpoint, -, -, ⟨control, hdrop, rfl⟩ | ⟨-, rfl⟩⟩ := register_some hregister
    · refine .inr ⟨.drop notifier, ?_⟩
      rw [Control.Peer.act, hdrop]
      rfl
    · exact .inl ⟨rfl, rfl⟩
  | send notifier kind payload =>
    obtain ⟨r, hsend, heq⟩ := Option.map_eq_some_iff.mp h
    cases heq
    obtain ⟨x, -, -, -, rfl⟩ := send_some hsend
    exact .inl ⟨rfl, rfl⟩
  | arrive kind number cut =>
    obtain ⟨sent, bytes, -, -, rfl, rfl⟩ := arrive_some h
    exact .inl ⟨rfl, rfl⟩
  | lose number =>
    cases h
    exact .inl ⟨rfl, rfl⟩
  | close _ _ | remove _ | recv _ _ | data _ _ | accept _ | lookup _ | deliver _ =>
    obtain ⟨router, -, rfl, rfl⟩ := actRouter_some h
    exact .inl ⟨rfl, rfl⟩

/-- A step is one of the router of that side, or leaves it as it is. -/
theorem router_act (h : p.act q a = some (p', q')) :
    q'.router = q.router ∧ (p'.router = p.router ∨ ∃ b, p.router.step b = some p'.router) := by
  cases a with
  | control b =>
    obtain ⟨-, -, hq, hp⟩ := actControl_some h
    rw [hq, hp]
    exact ⟨rfl, .inl rfl⟩
  | register notifier =>
    obtain ⟨r, hregister, heq⟩ := Option.map_eq_some_iff.mp h
    cases heq
    obtain ⟨x, endpoint, -, -, ⟨control, -, rfl⟩ | ⟨hnone, rfl⟩⟩ := register_some hregister
    · exact ⟨rfl, .inl rfl⟩
    · refine ⟨rfl, .inr ⟨.register x.endpointId, ?_⟩⟩
      simp only [Router.step, Router.register, hnone]
  | send notifier kind payload =>
    obtain ⟨r, hsend, heq⟩ := Option.map_eq_some_iff.mp h
    cases heq
    obtain ⟨x, -, -, -, rfl⟩ := send_some hsend
    exact ⟨rfl, .inl rfl⟩
  | arrive kind number cut =>
    obtain ⟨sent, bytes, -, -, rfl, rfl⟩ := arrive_some h
    exact ⟨rfl, .inr ⟨.arrive kind bytes, rfl⟩⟩
  | lose number =>
    cases h
    exact ⟨rfl, .inl rfl⟩
  | close _ _ | remove _ | recv _ _ | data _ _ | accept _ | lookup _ | deliver _ =>
    obtain ⟨router, hstep, rfl, rfl⟩ := actRouter_some h
    exact ⟨rfl, .inr ⟨_, hstep⟩⟩

namespace System

theorem step_some (h : s.step (side, a) = some s') :
    side = .server ∧ s.server.act s.client a = some (s'.server, s'.client) ∨
      side = .client ∧ s.client.act s.server a = some (s'.client, s'.server) := by
  cases side with
  | server =>
    obtain ⟨⟨p, q⟩, hact, rfl⟩ := Option.map_eq_some_iff.mp h
    exact .inl ⟨rfl, hact⟩
  | client =>
    obtain ⟨⟨p, q⟩, hact, rfl⟩ := Option.map_eq_some_iff.mp h
    exact .inr ⟨rfl, hact⟩

def control (s : System) : Control.System := ⟨s.server.control, s.client.control⟩

theorem control_step (h : s.step (side, a) = some s') :
    ∃ bs, run Control.System.step s.control bs = some s'.control := by
  obtain ⟨rfl, hact⟩ | ⟨rfl, hact⟩ := step_some h
  · obtain ⟨hp, hq⟩ | ⟨b, hb⟩ := control_act hact
    · exact ⟨[], by simp only [run, control, hp, hq]⟩
    · exact ⟨[(.server, b)], by simp [run, Control.System.step, control, hb]⟩
  · obtain ⟨hp, hq⟩ | ⟨b, hb⟩ := control_act hact
    · exact ⟨[], by simp only [run, control, hp, hq]⟩
    · exact ⟨[(.client, b)], by simp [run, Control.System.step, control, hb]⟩

/-- The controls of two connections run as they do on their own. -/
theorem control_of_run (h : run step start as = some s) :
    ∃ bs, run Control.System.step .start bs = some s.control := by
  obtain ⟨bs, _, hbs, rfl⟩ := run_simulates (R := fun s t ↦ s.control = t)
    (g := Control.System.step) (fun s t a s' ht hstep ↦ by
      obtain ⟨bs, hbs⟩ := control_step hstep
      exact ⟨bs, _, ht ▸ hbs, rfl⟩) rfl h
  exact ⟨bs, hbs⟩

theorem router_side (side' : Side) (h : s.step (side, a) = some s') :
    (s'.side side').router = (s.side side').router ∨
      ∃ b, (s.side side').router.step b = some (s'.side side').router := by
  obtain ⟨rfl, hact⟩ | ⟨rfl, hact⟩ := step_some h <;> obtain ⟨hq, hp⟩ := router_act hact <;>
    cases side'
  · exact hp
  · exact .inl hq
  · exact .inl hq
  · exact hp

theorem router_of_run (side : Side) (h : run step start as = some s) :
    ∃ bs, run Router.step .start bs = some (s.side side).router := by
  obtain ⟨bs, _, hbs, rfl⟩ := run_simulates (R := fun s t ↦ (s.side side).router = t)
    (g := Router.step) (fun s t a s' ht hstep ↦ by
      obtain heq | ⟨b, hb⟩ := router_side side hstep
      · exact ⟨[], t, rfl, heq.trans ht⟩
      · exact ⟨[b], _, by rw [← ht, run, hb]; rfl, rfl⟩) (t := .start) (by cases side <;> rfl) h
  exact ⟨bs, hbs⟩

end System

end Kymux.Connection
