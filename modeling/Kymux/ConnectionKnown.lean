import Kymux.ConnectionSteps
import Kymux.RouterKnown

namespace Kymux.Connection

open BigEndian Keyed Machine
open Control (Side)

variable {p p' q q' : Connection} {notifier number cut : ℕ} {kind : Kind} {payload bytes : Bytes}
  {a : Action} {b : Control.Action} {s s' : System} {as : List (Side × Action)} {side : Side}
  {endpointId : UInt16} {router : Router}

def Addressed (p q : Connection) (bytes : Bytes) : Prop :=
  ∃ endpointId payload, bytes = writeEndpointId endpointId ++ payload ∧
    p.control.Called endpointId ∧ q.control.Called endpointId

theorem Addressed.symm (h : Addressed p q bytes) : Addressed q p bytes := by
  obtain ⟨endpointId, payload, hbytes, hp, hq⟩ := h
  exact ⟨endpointId, payload, hbytes, hq, hp⟩

theorem Addressed.mono (h : Addressed p q bytes) (hp : p.control.Keeps p'.control)
    (hq : q.control.Keeps q'.control) : Addressed p' q' bytes := by
  obtain ⟨endpointId, payload, hbytes, hcalled, hcalled'⟩ := h
  exact ⟨endpointId, payload, hbytes, hcalled.mono hp, hcalled'.mono hq⟩

theorem readEndpointId_writeEndpointId (h : bytes <+: writeEndpointId endpointId ++ payload)
    {id : UInt16} (hread : Router.readEndpointId bytes = some id) : id = endpointId := by
  unfold Router.readEndpointId at hread
  split at hread
  · next hlength =>
    have htake : bytes.take 2 = writeEndpointId endpointId := by
      rw [List.prefix_iff_eq_take.mp (List.take_prefix 2 bytes |>.trans h), List.length_take,
        Nat.min_eq_left hlength]
      exact List.take_left' (length_encode 2 _)
    cases hread
    rw [htake, writeEndpointId, decode_encode_of_lt (by simpa using endpointId.toNat_lt)]
    exact UInt16.ofNat_toNat
  · cases hread

structure Linked (p q : Connection) : Prop where
  places : p.endpoints.length = p.control.notifiers.length
  owned : ∀ (n : ℕ) (x : Control.Notifier) (endpoint : Endpoint) (channel : ℕ),
    p.control.notifiers[n]? = some x → p.endpoints[n]? = some endpoint →
      endpoint.channel = some channel →
        ∃ c, p.router.channels[channel]? = some c ∧ c.endpointId = x.endpointId
  called : ∀ endpointId, p.control.Called endpointId → p.router.Registered endpointId
  sent : ∀ kind, ∀ bytes ∈ p.wire kind, Addressed p q bytes
  came : ∀ kind, ∀ a ∈ p.router.arrived kind, ∃ sent, a.bytes <+: sent ∧ Addressed p q sent

namespace Linked

theorem start (i j : UInt16) : Linked (.new i) (.new j) where
  places := rfl
  owned _ _ _ _ h := by cases h
  called _ h := by obtain ⟨x, hx, -⟩ := h; cases hx
  sent _ _ h := by cases h
  came _ _ h := by cases h

theorem known (h : Linked p q) : p.router.Known := by
  intro kind a ha id hread
  obtain ⟨sent, hsent, endpointId, payload, rfl, hcalled, -⟩ := h.came kind a ha
  rw [readEndpointId_writeEndpointId hsent hread]
  exact h.called endpointId hcalled

theorem registered_of_holds (h : Linked p q) {x : Control.Notifier}
    (hx : p.control.notifiers[notifier]? = some x) (hholds : p.holds notifier = true) :
    p.router.Registered x.endpointId := by
  obtain ⟨endpoint, channel, c, hendpoint, hchannel, hc, -⟩ := holds_iff.mp hholds
  obtain ⟨d, hd, hid⟩ := h.owned notifier x endpoint channel hx hendpoint hchannel
  exact ⟨channel, d, hd, hid⟩

theorem control (h : Linked p q) (hact : p.actControl q b = some (p', q')) : Linked p' q' := by
  obtain ⟨hpermits, hcontrol, hq', hp'⟩ := actControl_some hact
  have hnoted := Control.Peer.noted_act hcontrol
  have hkeeps := hnoted.keeps
  have hkeeps' : q.control.Keeps q'.control := .of_eq (Control.Peer.act_other hcontrol).1
  have hrouter : p'.router = p.router := by rw [hp']
  have hendpoints := congrArg Connection.endpoints hp'
  have hsent : ∀ kind, ∀ bytes ∈ p'.wire kind, Addressed p' q' bytes := by
    rw [congrArg Connection.wire hp']
    exact fun kind bytes hbytes ↦ (h.sent kind bytes hbytes).mono hkeeps hkeeps'
  have hcame : ∀ kind, ∀ a ∈ p'.router.arrived kind, ∃ sent, a.bytes <+: sent ∧
      Addressed p' q' sent := by
    rw [hrouter]
    intro kind a ha
    obtain ⟨sent, hbytes, haddressed⟩ := h.came kind a ha
    exact ⟨sent, hbytes, haddressed.mono hkeeps hkeeps'⟩
  obtain ⟨x, hcalled, hnotifiers⟩ | ⟨hlength, hback⟩ := hnoted.back
  · -- A notifier is new. It has no channel yet, and `ready` was not called.
    rw [hnotifiers, List.length_append, List.length_singleton, if_neg (by omega)] at hendpoints
    refine ⟨?_, ?_, ?_, hsent, hcame⟩
    · rw [hnotifiers, hendpoints, List.length_append, List.length_append, h.places]
      rfl
    · intro n y endpoint channel hy hendpoint hchannel
      rw [hrouter]
      rw [hendpoints] at hendpoint
      obtain ⟨rfl, rfl⟩ | hendpoint := get_concat.mp hendpoint
      · cases b <;> cases hchannel
      · have hlt := (List.getElem?_eq_some_iff.mp hendpoint).1
        rw [hnotifiers, List.getElem?_append_left (h.places ▸ hlt)] at hy
        exact h.owned n y endpoint channel hy hendpoint hchannel
    · rintro endpointId ⟨y, hy, rfl, hycalled⟩
      rw [hrouter]
      rw [hnotifiers, List.mem_append, List.mem_singleton] at hy
      obtain hy | rfl := hy
      · exact h.called y.endpointId ⟨y, hy, rfl, hycalled⟩
      · rw [hcalled] at hycalled
        cases hycalled
  · rw [if_pos hlength] at hendpoints
    refine ⟨?_, ?_, ?_, hsent, hcame⟩
    · rw [hendpoints, hlength, h.places]
    · intro n y' endpoint channel hy' hendpoint hchannel
      obtain ⟨y, hy, hid, -⟩ := hback n y' hy'
      rw [hrouter, hid]
      exact h.owned n y endpoint channel hy (hendpoints ▸ hendpoint) hchannel
    · rintro endpointId ⟨y', hy', rfl, hycalled⟩
      obtain ⟨n, hn⟩ := List.mem_iff_getElem?.mp hy'
      obtain ⟨y, hy, hid, hcalled⟩ := hback n y' hn
      rw [hrouter, hid]
      obtain hcalled | rfl := hcalled hycalled
      · exact h.called y.endpointId ⟨y, List.mem_of_getElem? hy, rfl, hcalled⟩
      · exact h.registered_of_holds hy hpermits

theorem register_some' (hregister : p.register notifier = some p') :
    p.actControl q (.drop notifier) = some (p', q) ∨ ∃ x endpoint,
      p.control.notifiers[notifier]? = some x ∧ p.endpoints[notifier]? = some endpoint ∧
        p.router.clients x.endpointId = none ∧ p' = { p with
          router := { p.router with
            clients := Function.update p.router.clients x.endpointId (some p.router.channels.length)
            channels := p.router.channels ++ [.new x.endpointId] }
          endpoints := p.endpoints.set notifier
            { endpoint with channel := p.router.channels.length } } := by
  obtain ⟨x, endpoint, hx, hendpoint, ⟨control, hdrop, rfl⟩ | ⟨hnone, rfl⟩⟩ :=
    register_some hregister
  · have hlength : control.notifiers.length = p.control.notifiers.length := by
      unfold Control.Peer.drop at hdrop
      split at hdrop
      · cases hdrop
      · split at hdrop
        · cases hdrop
        · cases hdrop
          exact List.length_set
    left
    simp [actControl, permits, Control.Peer.act, hdrop, hlength]
  · exact .inr ⟨x, endpoint, hx, hendpoint, hnone, rfl⟩

theorem router_step {c : Router.Action} (h : Linked p q) (hstep : p.router.step c = some router)
    (hnew : ∀ kind bytes, c = .arrive kind bytes → ∃ sent, bytes <+: sent ∧ Addressed p q sent) :
    Linked { p with router } q where
  places := h.places
  owned n x endpoint channel hx hendpoint hchannel := by
    obtain ⟨d, hd, hid⟩ := h.owned n x endpoint channel hx hendpoint hchannel
    obtain ⟨d', hd', hid', -⟩ := Router.channels_step hstep hd
    exact ⟨d', hd', hid'.trans hid⟩
  called endpointId hcalled := (h.called endpointId hcalled).step hstep
  sent := h.sent
  came kind a ha := by
    obtain ⟨b, hb, hbytes, -⟩ | ⟨bytes, hc, rfl⟩ := Router.Attentive.arrived_step hstep ha
    · rw [hbytes]
      exact h.came kind b hb
    · exact hnew kind bytes hc

theorem register (h : Linked p q) (hregister : p.register notifier = some p') : Linked p' q := by
  obtain hdrop | ⟨x, endpoint, hx, hendpoint, hnone, rfl⟩ := register_some' (q := q) hregister
  · exact h.control hdrop
  · have hstep : p.router.step (.register x.endpointId) = some { p.router with
        clients := Function.update p.router.clients x.endpointId (some p.router.channels.length)
        channels := p.router.channels ++ [.new x.endpointId] } := by
      simp only [Router.step, Router.register, hnone]
    have hrouter := h.router_step hstep (fun _ _ hc ↦ by cases hc)
    refine ⟨List.length_set.trans h.places, ?_, hrouter.called, h.sent, h.came⟩
    intro n y endpoint' channel hy hendpoint' hchannel
    obtain ⟨rfl, rfl⟩ | ⟨-, hold⟩ := (get_set hendpoint).mp hendpoint'
    · cases hchannel
      cases hx.symm.trans hy
      exact ⟨_, get_concat.mpr (.inl ⟨rfl, rfl⟩), rfl⟩
    · exact hrouter.owned n y endpoint' channel hy hold hchannel

theorem send (h : Linked p q) (hheard : p.control.Heard q.control)
    (hsend : p.send notifier kind payload = some p') : Linked p' q := by
  obtain ⟨x, hx, hcalled, hnotified, rfl⟩ := send_some hsend
  have hmem := List.mem_of_getElem? hx
  refine ⟨h.places, h.owned, h.called, fun kind' bytes hbytes ↦ ?_, h.came⟩
  by_cases hkind : kind' = kind
  · subst hkind
    simp only [Function.update_self, List.mem_append, List.mem_singleton] at hbytes
    obtain hbytes | rfl := hbytes
    · exact h.sent kind' bytes hbytes
    · exact ⟨x.endpointId, payload, rfl, ⟨x, hmem, rfl, hcalled⟩, hheard.notified x hmem hnotified⟩
  · simp only [Function.update_of_ne hkind] at hbytes
    exact h.sent kind' bytes hbytes

theorem erase (h : Linked p q) (kind : Kind) (number : ℕ) :
    Linked { p with wire := Function.update p.wire kind ((p.wire kind).eraseIdx number) } q := by
  refine ⟨h.places, h.owned, h.called, fun kind' bytes hbytes ↦ h.sent kind' bytes ?_, h.came⟩
  by_cases hkind : kind' = kind
  · subst hkind
    simp only [Function.update_self] at hbytes
    exact List.mem_of_mem_eraseIdx hbytes
  · simpa only [Function.update_of_ne hkind] using hbytes

theorem arrive {sent : Bytes} (h : Linked p q) (hsent : Addressed q p sent)
    (hbytes : bytes <+: sent) : Linked { p with router := p.router.arrive kind bytes } q := by
  refine h.router_step (c := .arrive kind bytes) rfl (fun _ _ heq ↦ ?_)
  cases heq
  exact ⟨sent, hbytes, hsent.symm⟩

theorem other (h : Linked q p) (hkeeps : p.control.Keeps p'.control) : Linked q p' where
  places := h.places
  owned := h.owned
  called := h.called
  sent kind bytes hbytes := (h.sent kind bytes hbytes).mono (.of_eq rfl) hkeeps
  came kind a ha := by
    obtain ⟨sent, hsent, haddressed⟩ := h.came kind a ha
    exact ⟨sent, hsent, haddressed.mono (.of_eq rfl) hkeeps⟩

theorem other_control (h : Linked q p) (hkeeps : p.control.Keeps p'.control)
    {control : Control.Peer} (hnotifiers : control.notifiers = q.control.notifiers) :
    Linked { q with control } p' := by
  have hq : q.control.Keeps control := .of_eq hnotifiers
  refine ⟨h.places.trans (congrArg _ hnotifiers.symm), ?_, ?_, ?_, ?_⟩
  · intro n x endpoint channel hx
    exact h.owned n x endpoint channel (hnotifiers ▸ hx)
  · intro endpointId hcalled
    exact h.called endpointId ((Control.Peer.called_congr hnotifiers).mp hcalled)
  · exact fun kind bytes hbytes ↦ (h.sent kind bytes hbytes).mono hq hkeeps
  · intro kind a ha
    obtain ⟨sent, hsent, haddressed⟩ := h.came kind a ha
    exact ⟨sent, hsent, haddressed.mono hq hkeeps⟩

theorem act (h : Linked p q) (h' : Linked q p) (hheard : p.control.Heard q.control)
    (hact : p.act q a = some (p', q')) : Linked p' q' ∧ Linked q' p' := by
  cases a with
  | control b =>
    obtain ⟨-, hcontrol, hq', -⟩ := actControl_some hact
    refine ⟨h.control hact, ?_⟩
    rw [hq']
    exact h'.other_control (Control.Peer.noted_act hcontrol).keeps
      (Control.Peer.act_other hcontrol).1
  | register notifier =>
    obtain ⟨r, hregister, heq⟩ := Option.map_eq_some_iff.mp hact
    cases heq
    refine ⟨h.register hregister, h'.other ?_⟩
    obtain hdrop | ⟨x, endpoint, -, -, -, rfl⟩ := register_some' (q := q) hregister
    · exact (Control.Peer.noted_act (actControl_some hdrop).2.1).keeps
    · exact .of_eq rfl
  | send notifier kind payload =>
    obtain ⟨r, hsend, heq⟩ := Option.map_eq_some_iff.mp hact
    cases heq
    refine ⟨h.send hheard hsend, h'.other ?_⟩
    obtain ⟨x, -, -, -, rfl⟩ := send_some hsend
    exact .of_eq rfl
  | arrive kind number cut =>
    obtain ⟨sent, bytes, hsent, hbytes, rfl, rfl⟩ := arrive_some hact
    exact ⟨(h.arrive (h'.sent kind sent hsent) hbytes).other (.of_eq rfl),
      (h'.erase kind number).other (.of_eq rfl)⟩
  | lose number =>
    cases hact
    exact ⟨h.erase .datagram number, h'.other (.of_eq rfl)⟩
  | close _ _ | remove _ | recv _ _ | data _ _ | accept _ | lookup _ | deliver _ =>
    obtain ⟨router, hstep, rfl, rfl⟩ := actRouter_some hact
    exact ⟨h.router_step hstep nofun, h'.other (.of_eq rfl)⟩

end Linked

namespace System

theorem linked_of_run (h : run step start as = some s) :
    Linked s.server s.client ∧ Linked s.client s.server := by
  refine run_induction (motive := fun _ s ↦ Linked s.server s.client ∧ Linked s.client s.server)
    ⟨.start _ _, .start _ _⟩ ?_ h
  rintro as s ⟨side, a⟩ s' hrun ⟨hserver, hclient⟩ hstep
  obtain ⟨bs, hbs⟩ := control_of_run hrun
  obtain ⟨-, hheard, hheard'⟩ := Control.System.heard_of_run hbs
  obtain ⟨-, hact⟩ | ⟨-, hact⟩ := step_some hstep
  · exact hserver.act hclient hheard hact
  · exact (hclient.act hserver hheard' hact).symm

def other : Side → Side
  | .server => .client
  | .client => .server

theorem linked (h : run step start as = some s) (side : Side) :
    Linked (s.side side) (s.side (other side)) := by
  obtain ⟨hserver, hclient⟩ := linked_of_run h
  cases side with
  | server => exact hserver
  | client => exact hclient

theorem sound (h : run step start as = some s) (side : Side) :
    (s.side side).router.Sound ∧ ∀ kind, (s.side side).router.Routed kind := by
  obtain ⟨bs, hbs⟩ := router_of_run side h
  exact Router.sound_of_run hbs

theorem attentive_of_run (h : run step start as = some s) (side : Side)
    (hopen : (s.side side).router.Open) : (s.side side).router.Attentive := by
  refine run_induction
    (motive := fun _ s ↦ (s.side side).router.Open → (s.side side).router.Attentive)
    ?_ ?_ h hopen
  · intro _
    cases side <;> exact ⟨fun _ ↦ .inl rfl, fun _ _ h ↦ by cases h⟩
  · rintro as s ⟨side', a⟩ s' hrun ih hstep hopen
    have hrun' : run step start (as ++ [(side', a)]) = some s' :=
      run_trans hrun (by simp only [run, hstep, Option.bind_some])
    obtain ⟨hsound, hrouted⟩ := sound hrun side
    obtain heq | ⟨b, hb⟩ := router_side side hstep
    · rw [heq] at hopen ⊢
      exact ih hopen
    · exact (ih (hopen.of_step hb)).step hsound hrouted (linked hrun side).known
        (linked hrun' side).known
        hopen hb

/-- What arrives for an endpoint comes after `ready` was called for it on both sides, so that its
channel is registered. An id is unknown only once the channel was dropped. -/
theorem ready_before_data (h : run step start as = some s) {a : Router.Arrival}
    (ha : a ∈ (s.side side).router.arrived kind)
    (hread : Router.readEndpointId a.bytes = some endpointId) :
    (s.side side).control.Called endpointId ∧ (s.side (other side)).control.Called endpointId ∧
      (∃ payload, a.bytes <+: writeEndpointId endpointId ++ payload) ∧
        ∃ (channel : ℕ) (c : Router.Channel), (s.side side).router.channels[channel]? = some c ∧
          c.endpointId = endpointId ∧
            ((s.side side).router.clients endpointId = none → c.registered = false) := by
  have hlinked := linked h side
  obtain ⟨sent, hsent, id, payload, rfl, hcalled, hcalled'⟩ := hlinked.came kind a ha
  obtain rfl := readEndpointId_writeEndpointId hsent hread
  obtain ⟨channel, c, hc, hid⟩ := hlinked.called endpointId hcalled
  refine ⟨hcalled, hcalled', ⟨payload, hsent⟩, channel, c, hc, hid, fun hnone ↦ ?_⟩
  by_contra hregistered
  have hclients :=
    ((sound h side).1.clients endpointId channel).mpr ⟨c, hc, hid, by simpa using hregistered⟩
  rw [hnone] at hclients
  cases hclients

/-- As long as a side drops none of its receivers, its router goes on, and all that it has accepted
for an endpoint is with the channel of that endpoint. -/
theorem routed_of_open (h : run step start as = some s) (hopen : (s.side side).router.Open) :
    (s.side side).router.Separated ∧
      ∀ kind number endpointId, number < (s.side side).router.accepted kind →
      (s.side side).router.idOf kind number = some endpointId →
        ∃ channel c, (s.side side).router.clients endpointId = some channel ∧
          (s.side side).router.channels[channel]? = some c ∧
            (number ∈ c.handed kind ∨
              (s.side side).router.loops kind = .sending number channel) := by
  obtain ⟨hsound, hrouted⟩ := sound h side
  have hattentive := attentive_of_run h side hopen
  exact ⟨Router.separated_of_running hsound hrouted hattentive.running,
    fun kind _ _ hlt hid ↦ hattentive.handed hsound (hrouted kind) hopen hlt hid⟩

/-- The server registers an endpoint and the client connects to it. Once both are ready, the
server sends a stream and the client a datagram. -/
def streamAndDatagram : List (Side × Action) :=
  [(.server, .control .getEndpointId), (.server, .control (.callNotifier 0)),
    (.server, .control (.callRegister 0)), (.server, .control (.callSend 0)),
    (.server, .control .transmit), (.client, .control .receive), (.client, .control .transmit),
    (.server, .control .receive), (.server, .register 0), (.client, .control (.connect 0)),
    (.client, .register 0), (.server, .control (.ready 0)), (.client, .control (.ready 0)),
    (.server, .control .transmit), (.client, .control .transmit), (.client, .control .receive),
    (.server, .control .receive), (.server, .send 0 .uni [7]), (.client, .send 0 .datagram [8, 9]),
    (.client, .arrive .uni 0 3), (.server, .arrive .datagram 0 0), (.client, .accept .uni),
    (.server, .accept .datagram), (.client, .data .uni 0), (.client, .lookup .uni),
    (.server, .lookup .datagram), (.client, .deliver .uni), (.server, .deliver .datagram)]

theorem ready_before_data_stream : ∃ s a, run step start streamAndDatagram = some s ∧
    a ∈ s.client.router.arrived .uni ∧ a.bytes = [0, 0, 7] ∧ s.client.control.Called 0 ∧
      s.server.control.Called 0 := by
  obtain ⟨s, hrun, hs⟩ := Option.map_eq_some_iff.mp (show (run step start streamAndDatagram).map
    (fun s ↦ (s.client.router.arrived .uni).map (·.bytes)) = some [[0, 0, 7]] by decide +kernel)
  obtain ⟨a, ha, hbytes⟩ := List.map_eq_singleton_iff.mp hs
  have hmem : a ∈ (s.side .client).router.arrived .uni := by simp [side, ha]
  have hready := ready_before_data hrun hmem (show _ = some 0 by rw [hbytes]; rfl)
  exact ⟨s, a, hrun, hmem, hbytes, hready.1, hready.2.1⟩

theorem routed_of_open_stream : ∃ s, run step start streamAndDatagram = some s ∧
    s.client.router.accepted .uni = 1 ∧ s.client.router.idOf .uni 0 = some 0 ∧
      s.client.router.Separated ∧ ∃ channel c, s.client.router.clients 0 = some channel ∧
        s.client.router.channels[channel]? = some c ∧
          (0 ∈ c.handed .uni ∨ s.client.router.loops .uni = .sending 0 channel) := by
  obtain ⟨s, hrun, hs⟩ := Option.map_eq_some_iff.mp (show (run step start streamAndDatagram).map
    (fun s ↦ (s.client.router.accepted .uni, s.client.router.idOf .uni 0,
      s.client.router.channels.map (fun c ↦ (c.alive .uni, c.alive .bi, c.alive .datagram)))) =
        some (1, some 0, [(true, true, true)]) by decide +kernel)
  simp only [Prod.mk.injEq] at hs
  obtain ⟨haccepted, hid, hchannels⟩ := hs
  obtain ⟨c, hc, halive⟩ := List.map_eq_singleton_iff.mp hchannels
  simp only [Prod.mk.injEq] at halive
  have hopen : (s.side .client).router.Open := by
    intro i d hd kind
    rw [side, hc] at hd
    obtain rfl : d = c := by simpa using List.mem_of_getElem? hd
    cases kind with
    | uni => exact halive.1
    | bi => exact halive.2.1
    | datagram => exact halive.2.2
  obtain ⟨hseparated, hhanded⟩ := routed_of_open hrun hopen
  exact ⟨s, hrun, haccepted, hid, hseparated, hhanded .uni 0 0 (by simp [side, haccepted]) hid⟩

end System

end Kymux.Connection
