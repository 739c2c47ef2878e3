import Kymux.RouterDelivery

namespace Kymux.Router

open BigEndian Keyed Machine

variable {s s' : Router} {kind : Kind} {channel number : ℕ} {c c' : Channel} {a : Arrival}
  {act : Action} {as : List Action}

def takes (s : Router) (kind : Kind) (channel : ℕ) : Bool :=
  s.channels[channel]?.any (fun c ↦ c.alive kind && !c.full kind)

/-- The loop of one kind waits for nobody but the connection: what it reads has come, and the
channel it sends to has room. -/
def free (s : Router) (kind : Kind) : Bool :=
  match s.loops kind with
  | .idle => true
  | .reading => (s.arrived kind)[s.accepted kind]?.any (·.readable)
  | .sending _ channel => s.takes kind channel
  | .stopped _ => false

/-- The steps that hold no loop up: receivers are not dropped while something is sent to them, the
first bytes or the end of a stream have come when it is accepted, and what is looked up leads to
a channel that is alive and has room. Datagrams may lead nowhere. -/
def allowed (s : Router) : Action → Bool
  | .close channel kind =>
    match s.loops kind with
    | .sending _ i => i ≠ channel
    | _ => true
  | .accept kind => (s.arrived kind)[s.accepted kind]?.all (·.readable)
  | .lookup kind => (s.arrived kind)[s.accepted kind]?.all fun a ↦
    match readEndpointId a.bytes with
    | none => true
    | some endpointId =>
      match s.clients endpointId with
      | some channel => s.takes kind channel
      | none => kind = .datagram
  | _ => true

theorem takes_of_get (hc : s.channels[channel]? = some c) (kind : Kind) :
    s.takes kind channel = (c.alive kind && !c.full kind) := by
  rw [takes, hc]
  rfl

theorem takes_set (hc : s.channels[channel]? = some c)
    (hchannels : s'.channels = s.channels.set channel c') (kind : Kind) :
    s'.takes kind channel = (c'.alive kind && !c'.full kind) := by
  refine takes_of_get ?_ kind
  rw [hchannels, get_set hc]
  exact .inl ⟨rfl, rfl⟩

theorem takes_of_ne {i : ℕ} (hchannels : s'.channels = s.channels.set channel c')
    (hi : i ≠ channel) (kind : Kind) : s'.takes kind i = s.takes kind i := by
  rw [takes, hchannels, List.getElem?_set_ne (Ne.symm hi), takes]

theorem readable_arrive (bytes : Bytes) (kind' : Kind)
    (h : (s.arrived kind)[number]?.any (·.readable) = true) :
    ((s.arrive kind' bytes).arrived kind)[number]?.any (·.readable) = true := by
  by_cases hkind : kind = kind'
  · subst hkind
    obtain ⟨a, ha, -⟩ := (Option.any_eq_true _ _).mp h
    have hlt := (List.getElem?_eq_some_iff.mp ha).1
    simpa [arrive, List.getElem?_append_left hlt] using h
  · simpa [arrive, hkind] using h

theorem readable_data (kind' : Kind) (i : ℕ)
    (h : (s.arrived kind)[number]?.any (·.readable) = true) :
    ((s.data kind' i).arrived kind)[number]?.any (·.readable) = true := by
  obtain ⟨a, ha, hreadable⟩ := (Option.any_eq_true _ _).mp h
  by_cases hkind : kind = kind'
  · subst hkind
    simp only [data, Function.update_self, List.getElem?_modify, ha]
    split_ifs
    · rfl
    · exact hreadable
  · simpa [data, hkind] using h

theorem free_mono (h : s.free kind = true) (hloops : s'.loops kind = s.loops kind)
    (hread : (s.arrived kind)[s.accepted kind]?.any (·.readable) = true →
      (s'.arrived kind)[s'.accepted kind]?.any (·.readable) = true)
    (htakes : ∀ number channel, s.loops kind = .sending number channel →
      s.takes kind channel = true → s'.takes kind channel = true) : s'.free kind = true := by
  unfold free at h ⊢
  rw [hloops]
  cases hloop : s.loops kind with
  | idle => rfl
  | reading =>
    rw [hloop] at h
    exact hread h
  | sending number channel =>
    rw [hloop] at h
    exact htakes number channel hloop h
  | stopped e =>
    rw [hloop] at h
    cases h

/-- A step that changes a channel, where it has room as before. -/
theorem free_set (h : s.free kind = true) (hc : s.channels[channel]? = some c)
    (hchannels : s'.channels = s.channels.set channel c') (halive : c'.alive kind = c.alive kind)
    (hfull : c.full kind = false → c'.full kind = false) (hloops : s'.loops kind = s.loops kind)
    (harrived : s'.arrived = s.arrived) (haccepted : s'.accepted = s.accepted) :
    s'.free kind = true := by
  refine free_mono h hloops (by rw [harrived, haccepted]; exact fun h ↦ h) (fun _ i _ htakes ↦ ?_)
  by_cases hi : i = channel
  · subst hi
    rw [takes_of_get hc, Bool.and_eq_true, Bool.not_eq_true'] at htakes
    rw [takes_set hc hchannels, halive, htakes.1, hfull htakes.2]
    rfl
  · rw [takes_of_ne hchannels hi, htakes]

theorem free_of_one {P : Prop} (kind : Kind) (hother : ∀ kind', kind' ≠ kind → s'.free kind' = true)
    (hthis : s'.free kind = true ↔ P) : (∀ kind, s'.free kind = true) ↔ P := by
  refine ⟨fun h ↦ hthis.mp (h kind), fun hP kind' ↦ ?_⟩
  by_cases hkind : kind' = kind
  · subst hkind
    exact hthis.mpr hP
  · exact hother kind' hkind

theorem allowed_close : s.allowed (.close channel kind) = true ↔
    ∀ number, s.loops kind ≠ .sending number channel := by
  cases hloop : s.loops kind <;> simp [allowed, hloop]

theorem free_close (hfree : ∀ kind, s.free kind = true)
    (h : s.modify channel (Channel.close kind) = some s') :
    (∀ kind, s'.free kind = true) ↔ s.allowed (.close channel kind) = true := by
  obtain ⟨c, c', hc, hclose, hs'⟩ := modify_some h
  obtain ⟨-, rfl⟩ := close_some hclose
  have hchannels := congrArg Router.channels hs'
  have hloops : s'.loops = s.loops := by rw [hs']
  have harrived : s'.arrived = s.arrived := by rw [hs']
  have haccepted : s'.accepted = s.accepted := by rw [hs']
  have hclosed : s'.takes kind channel = false := by
    rw [takes_set hc hchannels]
    simp
  rw [allowed_close]
  refine free_of_one kind (fun kind' hkind ↦ ?_) ⟨fun hkind number hsending ↦ ?_, fun hne ↦ ?_⟩
  · exact free_set (hfree kind') hc hchannels (Function.update_of_ne hkind _ _) (fun h ↦ h)
      (by rw [hloops]) harrived haccepted
  · rw [free, hloops, hsending] at hkind
    exact Bool.false_ne_true (hclosed.symm.trans hkind)
  · refine free_mono (hfree kind) (by rw [hloops])
      (by rw [harrived, haccepted]; exact fun h ↦ h) ?_
    intro number i hsending htakes
    have hi : i ≠ channel := by
      rintro rfl
      exact hne number hsending
    rw [takes_of_ne hchannels hi, htakes]

theorem free_accept (hfree : ∀ kind, s.free kind = true) (h : s.accept kind = some s') :
    (∀ kind, s'.free kind = true) ↔ s.allowed (.accept kind) = true := by
  obtain ⟨a, hidle, ha, rfl⟩ := accept_some h
  refine free_of_one kind (fun kind' hkind ↦ ?_) ?_
  · exact free_mono (hfree kind') (Function.update_of_ne hkind _ _) (fun h ↦ h) (fun _ _ _ h ↦ h)
  · simp [free, allowed, ha]

theorem free_lookup (hfree : ∀ kind, s.free kind = true) (h : s.lookup kind = some s') :
    (∀ kind, s'.free kind = true) ↔ s.allowed (.lookup kind) = true := by
  obtain ⟨a, hreading, ha, -, rfl⟩ := lookup_some h
  refine free_of_one kind (fun kind' hkind ↦ ?_) ?_
  · refine free_mono (hfree kind') (Function.update_of_ne hkind _ _) ?_ (fun _ _ _ h ↦ h)
    simp only [Function.update_of_ne hkind]
    exact fun h ↦ h
  simp only [free, allowed, ha, Function.update_self, Option.all_some]
  cases hread : readEndpointId a.bytes with
  | none => simp [found, hread]
  | some endpointId =>
    cases hclients : s.clients endpointId with
    | some channel => simp [found, hread, hclients, takes]
    | none =>
      cases kind <;> simp [found, hread, hclients, Kind.handler, acceptChannelsUni,
        acceptChannelsBi, recvChannelsDatagrams]

theorem free_send (hfree : ∀ kind, s.free kind = true) (h : s.send kind = some s') :
    ∀ kind, s'.free kind = true := by
  obtain ⟨number, channel, c, hsending, hc, ⟨-, -, rfl⟩ | ⟨hclosed, rfl⟩⟩ := send_some h
  · intro kind'
    by_cases hkind : kind' = kind
    · subst hkind
      simp [free]
    · refine free_set (hfree kind') hc rfl rfl ?_ (Function.update_of_ne hkind _ _) rfl rfl
      simp only [Channel.full, Function.update_of_ne hkind]
      exact fun h ↦ h
  · have hkind := hfree kind
    rw [free, hsending] at hkind
    simp [takes_of_get hc, hclosed] at hkind

/-- The loops are not held up exactly as long as the steps are allowed. -/
theorem free_step (hs : ∀ kind, s.Routed kind) (hfree : ∀ kind, s.free kind = true)
    (h : s.step act = some s') : (∀ kind, s'.free kind = true) ↔ s.allowed act = true := by
  cases act with
  | register endpointId =>
    refine iff_of_true (fun kind ↦ ?_) rfl
    obtain rfl | ⟨-, rfl⟩ := register_some h
    · exact hfree kind
    · refine free_mono (hfree kind) rfl (fun h ↦ h) (fun number channel hsending htakes ↦ ?_)
      obtain ⟨-, c, hc, -⟩ := (hs kind).sending number channel hsending
      rw [takes_of_get hc] at htakes
      exact (takes_of_get (get_concat.mpr (.inr hc)) kind).trans htakes
  | close channel kind => exact free_close hfree h
  | remove channel =>
    obtain ⟨c, hc, -, -, rfl⟩ := remove_some h
    exact iff_of_true (fun kind ↦ free_set (hfree kind) hc rfl rfl (fun h ↦ h) rfl rfl rfl) rfl
  | recv channel kind =>
    obtain ⟨c, c', hc, hrecv, rfl⟩ := modify_some h
    obtain ⟨received, hle, rfl⟩ := recv_some hrecv
    refine iff_of_true (fun kind' ↦ free_set (hfree kind') hc rfl rfl ?_ rfl rfl rfl) rfl
    simp only [Channel.full, decide_eq_false_iff_not, not_le]
    exact (Nat.sub_le_sub_left (hle kind') _).trans_lt
  | arrive kind' bytes =>
    cases h
    refine iff_of_true (fun kind ↦ ?_) rfl
    exact free_mono (hfree kind) rfl (readable_arrive bytes kind') (fun _ _ _ h ↦ h)
  | data kind' i =>
    cases h
    refine iff_of_true (fun kind ↦ ?_) rfl
    exact free_mono (hfree kind) rfl (readable_data kind' i) (fun _ _ _ h ↦ h)
  | accept kind => exact free_accept hfree h
  | lookup kind => exact free_lookup hfree h
  | send kind => exact iff_of_true (free_send hfree h) rfl

def Running (s : Router) (kind : Kind) : Prop :=
  s.loops kind = .idle ∨ s.loops kind = .reading ∨
    ∃ number channel, s.loops kind = .sending number channel ∧ s.alive kind channel = true

def Stuck (s : Router) (kind : Kind) : Prop :=
  s.accept kind = none ∧ s.lookup kind = none ∧ s.send kind = none

/-- The loops go on, and what they have accepted for a channel that is alive is handed to it, in
the order of arrival, and to no other. -/
structure Separated (s : Router) : Prop where
  running : ∀ kind, s.Running kind
  delivered : ∀ (kind : Kind) (number channel : ℕ) (a : Arrival) (c : Channel),
    (s.arrived kind)[number]? = some a → number < s.accepted kind → a.endpoint = some channel →
      s.channels[channel]? = some c → c.alive kind = true →
        number ∈ c.handed kind ∨ s.loops kind = .sending number channel
  ordered : ∀ (kind : Kind) (channel : ℕ) (c : Channel), s.channels[channel]? = some c →
    (c.handed kind).Pairwise (· < ·)
  addressed : ∀ (kind : Kind) (channel : ℕ) (c : Channel), s.channels[channel]? = some c →
    ∀ number ∈ c.handed kind, s.idOf kind number = some c.endpointId
  once : ∀ (kind : Kind) (i j : ℕ) (c d : Channel), s.channels[i]? = some c →
    s.channels[j]? = some d → ∀ number, number ∈ c.handed kind → number ∈ d.handed kind → i = j
  removable : ∀ (channel : ℕ) (c : Channel), s.channels[channel]? = some c →
    c.registered = true → ∃ s', s.drop c.endpointId = .ok s'

/-- What the endpoints may rely on: besides, no loop is held up, and where one can do no more, all
that arrived for a channel that is alive was handed to it. -/
structure Isolated (s : Router) : Prop extends s.Separated where
  free : ∀ kind, s.free kind = true
  settled : ∀ kind, s.Stuck kind → ∀ (number channel : ℕ) (a : Arrival) (c : Channel),
    (s.arrived kind)[number]? = some a → a.endpoint = some channel →
      s.channels[channel]? = some c → c.alive kind = true → number ∈ c.handed kind

theorem sound_of_run (h : run step start as = some s) : s.Sound ∧ ∀ kind, s.Routed kind := by
  refine run_invariant (P := fun s ↦ s.Sound ∧ ∀ kind, s.Routed kind)
    ⟨.start, Routed.start⟩ ?_ h
  rintro s act s' ⟨hs, hrouted⟩ hstep
  exact ⟨hs.step hstep, fun kind ↦ (hrouted kind).step hs hstep⟩

theorem drop_ok (h : s.Sound) (hc : s.channels[channel]? = some c)
    (hregistered : c.registered = true) : ∃ s', s.drop c.endpointId = .ok s' := by
  rw [drop, (h.clients c.endpointId channel).mpr ⟨c, hc, rfl, hregistered⟩]
  exact ⟨_, rfl⟩

theorem separated_of_running (hs : s.Sound) (hrouted : ∀ kind, s.Routed kind)
    (h : ∀ kind, s.Running kind) : s.Separated where
  running := h
  delivered kind := (hrouted kind).delivered
  ordered kind := (hrouted kind).ordered
  addressed kind i c hc number hnumber := ((hrouted kind).handed i c hc number hnumber).2
  once kind := (hrouted kind).once
  removable _ _ hc := drop_ok hs hc

theorem alive_of_takes (h : s.takes kind channel = true) : s.alive kind channel = true := by
  obtain ⟨c, hc, htakes⟩ := (Option.any_eq_true _ _).mp h
  rw [Bool.and_eq_true] at htakes
  exact (Option.any_eq_true _ _).mpr ⟨c, hc, htakes.1⟩

theorem running_of_free (h : s.free kind = true) : s.Running kind := by
  unfold free at h
  unfold Running
  split at h
  · next hloop => exact .inl hloop
  · next hloop => exact .inr (.inl hloop)
  · next number channel hloop => exact .inr (.inr ⟨number, channel, hloop, alive_of_takes h⟩)
  · cases h

/-- A loop that is not held up stops only where it has accepted all that arrived. -/
theorem accepted_of_stuck (h : s.free kind = true) (hstuck : s.Stuck kind) :
    s.loops kind = .idle ∧ (s.arrived kind).length ≤ s.accepted kind := by
  obtain ⟨haccept, hlookup, hsend⟩ := hstuck
  cases hloop : s.loops kind with
  | idle =>
    refine ⟨rfl, ?_⟩
    cases ha : (s.arrived kind)[s.accepted kind]? with
    | none => exact List.getElem?_eq_none_iff.mp ha
    | some a => simp [accept, hloop, ha] at haccept
  | reading =>
    rw [free, hloop] at h
    obtain ⟨a, ha, hreadable⟩ := (Option.any_eq_true _ _).mp h
    simp [lookup, hloop, ha, hreadable] at hlookup
  | sending number channel =>
    rw [free, hloop] at h
    obtain ⟨c, hc, htakes⟩ := (Option.any_eq_true _ _).mp h
    rw [Bool.and_eq_true, Bool.not_eq_true'] at htakes
    simp [send, hloop, hc, htakes.1, htakes.2] at hsend
  | stopped e =>
    rw [free, hloop] at h
    cases h

theorem isolated_iff_free (hs : s.Sound) (hrouted : ∀ kind, s.Routed kind) :
    s.Isolated ↔ ∀ kind, s.free kind = true := by
  refine ⟨Isolated.free, fun hfree ↦
    ⟨separated_of_running hs hrouted fun kind ↦ running_of_free (hfree kind), hfree, ?_⟩⟩
  intro kind hstuck number channel a c ha hendpoint hc halive
  obtain ⟨hidle, hall⟩ := accepted_of_stuck (hfree kind) hstuck
  have hlt := (List.getElem?_eq_some_iff.mp ha).1
  refine ((hrouted kind).delivered number channel a c ha (hlt.trans_le hall) hendpoint hc
    halive).resolve_right ?_
  rw [hidle]
  nofun

/-- The endpoints are kept apart at all times exactly in those runs whose steps are all allowed. -/
theorem isolated_iff (h : run step start as = some s) :
    Throughout step Isolated start as ↔ Along step (fun s act ↦ s.allowed act = true) start as := by
  have hstart : start.Sound ∧ ∀ kind, start.Routed kind := ⟨.start, Routed.start⟩
  refine throughout_iff_along (I := fun s ↦ s.Sound ∧ ∀ kind, s.Routed kind) ?_ ?_ hstart
    ((isolated_iff_free hstart.1 hstart.2).mpr fun _ ↦ rfl) h
  · rintro s act s' ⟨hs, hrouted⟩ hstep
    exact ⟨hs.step hstep, fun kind ↦ (hrouted kind).step hs hstep⟩
  · rintro s act s' ⟨hs, hrouted⟩ hisolated hstep
    rw [isolated_iff_free (hs.step hstep) fun kind ↦ (hrouted kind).step hs hstep]
    exact free_step hrouted hisolated.free hstep

/-- Two endpoints get a datagram each, the first one is dropped, and a datagram comes for it
and one for the other. A stream for the other is reset before its id has come. -/
def firstDropped : List Action :=
  [.register 1, .register 2, .arrive .datagram [0, 1], .arrive .datagram [0, 2],
    .accept .datagram, .lookup .datagram, .send .datagram, .accept .datagram, .lookup .datagram,
    .send .datagram, .close 0 .uni, .close 0 .bi, .close 0 .datagram, .remove 0,
    .arrive .uni [0], .arrive .uni [0, 2], .data .uni 0, .accept .uni, .lookup .uni,
    .arrive .datagram [0, 1], .arrive .datagram [0, 2], .accept .datagram, .lookup .datagram,
    .accept .datagram, .lookup .datagram, .data .uni 1, .accept .uni, .send .datagram,
    .lookup .uni, .send .uni]

theorem isolated_firstDropped : ∃ s, run step start firstDropped = some s ∧
    s.channels.map (·.handed .datagram) = [[0], [1, 3]] ∧
      s.channels.map (·.handed .uni) = [[], [1]] ∧ Throughout step Isolated start firstDropped := by
  obtain ⟨s, hrun, hs⟩ := Option.map_eq_some_iff.mp (show (run step start firstDropped).map
    (fun s ↦ (s.channels.map (·.handed .datagram), s.channels.map (·.handed .uni))) =
      some ([[0], [1, 3]], [[], [1]]) by decide +kernel)
  obtain ⟨hdatagrams, hstreams⟩ := Prod.mk.inj hs
  exact ⟨s, hrun, hdatagrams, hstreams, (isolated_iff hrun).mpr (by decide +kernel)⟩

theorem not_isolated_of_stopped {e : ProtocolError} (h : s.loops kind = .stopped e) :
    ¬ s.Isolated := by
  intro hs
  have hfree := hs.free kind
  rw [Router.free, h] at hfree
  cases hfree

/-- A stream with an unknown id, and a channel that is closed while a datagram is sent to it,
stop the routing for the other endpoint. -/
theorem not_isolated : (∃ s, run step start [.register 1, .register 2, .arrive .uni [0, 7],
      .data .uni 0, .accept .uni, .lookup .uni, .arrive .uni [0, 2]] = some s ∧
        s.loops .uni = .stopped ⟨"accept_uni: unknown channel id: 7"⟩ ∧ ¬ s.Isolated) ∧
    ∃ s, run step start [.register 1, .register 2, .arrive .datagram [0, 1], .accept .datagram,
      .lookup .datagram, .close 0 .datagram, .send .datagram, .arrive .datagram [0, 2]] = some s ∧
        s.loops .datagram = .stopped recvChannelsDatagrams.closed ∧ ¬ s.Isolated := by
  obtain ⟨s, hrun, hs⟩ := Option.map_eq_some_iff.mp (show (run step start
    [.register 1, .register 2, .arrive .uni [0, 7], .data .uni 0, .accept .uni, .lookup .uni,
      .arrive .uni [0, 2]]).map (·.loops .uni) =
        some (.stopped ⟨"accept_uni: unknown channel id: 7"⟩) by decide +kernel)
  obtain ⟨s', hrun', hs'⟩ := Option.map_eq_some_iff.mp (show (run step start
    [.register 1, .register 2, .arrive .datagram [0, 1], .accept .datagram, .lookup .datagram,
      .close 0 .datagram, .send .datagram, .arrive .datagram [0, 2]]).map (·.loops .datagram) =
        some (.stopped recvChannelsDatagrams.closed) by decide +kernel)
  exact ⟨⟨s, hrun, hs, not_isolated_of_stopped hs⟩, ⟨s', hrun', hs', not_isolated_of_stopped hs'⟩⟩

end Kymux.Router
