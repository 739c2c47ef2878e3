import Kymux.RouterIsolation

namespace Kymux.Router

open BigEndian Keyed

variable {s s' : Router} {kind : Kind} {channel number : ℕ} {c : Channel} {endpointId : UInt16}
  {act : Action}

def Registered (s : Router) (endpointId : UInt16) : Prop :=
  ∃ (channel : ℕ) (c : Channel), s.channels[channel]? = some c ∧ c.endpointId = endpointId

def Known (s : Router) : Prop :=
  ∀ kind, ∀ a ∈ s.arrived kind, ∀ endpointId, readEndpointId a.bytes = some endpointId →
    s.Registered endpointId

def Open (s : Router) : Prop :=
  ∀ (channel : ℕ) (c : Channel), s.channels[channel]? = some c → ∀ kind, c.alive kind = true

theorem channels_step (h : s.step act = some s') (hc : s.channels[channel]? = some c) :
    ∃ c', s'.channels[channel]? = some c' ∧ c'.endpointId = c.endpointId ∧
      ∀ kind, c'.alive kind = true → c.alive kind = true := by
  have hset {i : ℕ} {d d' : Channel} (hd : s.channels[i]? = some d)
      (hchannels : s'.channels = s.channels.set i d') (hid : d'.endpointId = d.endpointId)
      (halive : ∀ kind, d'.alive kind = true → d.alive kind = true) :
      ∃ c', s'.channels[channel]? = some c' ∧ c'.endpointId = c.endpointId ∧
        ∀ kind, c'.alive kind = true → c.alive kind = true := by
    rw [hchannels]
    simp only [get_set hd]
    by_cases hi : channel = i
    · subst hi
      obtain rfl : c = d := Option.some.inj (hc.symm.trans hd)
      exact ⟨d', .inl ⟨rfl, rfl⟩, hid, halive⟩
    · exact ⟨c, .inr ⟨hi, hc⟩, rfl, fun _ h ↦ h⟩
  cases act with
  | register endpointId =>
    obtain rfl | ⟨-, rfl⟩ := register_some h
    · exact ⟨c, hc, rfl, fun _ h ↦ h⟩
    · exact ⟨c, get_concat.mpr (.inr hc), rfl, fun _ h ↦ h⟩
  | close i kind =>
    obtain ⟨d, d', hd, hclose, rfl⟩ := modify_some h
    obtain ⟨-, rfl⟩ := close_some hclose
    refine hset hd rfl rfl (fun kind' halive ↦ ?_)
    by_cases hkind : kind' = kind
    · subst hkind
      simp at halive
    · simpa [hkind] using halive
  | remove i =>
    obtain ⟨d, hd, -, -, rfl⟩ := remove_some h
    exact hset hd rfl rfl (fun _ h ↦ h)
  | recv i kind =>
    obtain ⟨d, d', hd, hrecv, rfl⟩ := modify_some h
    obtain ⟨received, -, rfl⟩ := recv_some hrecv
    exact hset hd rfl rfl (fun _ h ↦ h)
  | arrive _ _ | data _ _ =>
    cases h
    exact ⟨c, hc, rfl, fun _ h ↦ h⟩
  | accept kind =>
    obtain ⟨a, -, -, rfl⟩ := accept_some h
    exact ⟨c, hc, rfl, fun _ h ↦ h⟩
  | lookup kind =>
    obtain ⟨a, -, -, -, rfl⟩ := lookup_some h
    exact ⟨c, hc, rfl, fun _ h ↦ h⟩
  | send kind =>
    obtain ⟨number, i, d, -, hd, ⟨-, -, rfl⟩ | ⟨-, rfl⟩⟩ := send_some h
    · exact hset hd rfl rfl (fun _ h ↦ h)
    · exact ⟨c, hc, rfl, fun _ h ↦ h⟩

theorem Registered.step (hs : s.Registered endpointId) (h : s.step act = some s') :
    s'.Registered endpointId := by
  obtain ⟨channel, c, hc, hid⟩ := hs
  obtain ⟨c', hc', hid', -⟩ := channels_step h hc
  exact ⟨channel, c', hc', hid'.trans hid⟩

theorem Open.of_step (hs : s'.Open) (h : s.step act = some s') : s.Open := by
  intro channel c hc kind
  obtain ⟨c', hc', -, halive⟩ := channels_step h hc
  exact halive kind (hs channel c' hc' kind)

/-- An id that was registered leads to its channel, which is alive. -/
theorem Open.clients (hopen : s.Open) (hs : s.Sound) (h : s.Registered endpointId) :
    ∃ channel c, s.clients endpointId = some channel ∧ s.channels[channel]? = some c ∧
      c.endpointId = endpointId := by
  obtain ⟨channel, c, hc, hid⟩ := h
  have hregistered := hs.alive channel c .uni hc (hopen channel c hc .uni)
  exact ⟨channel, c, (hs.clients endpointId channel).mpr ⟨c, hc, hid, hregistered⟩, hc, hid⟩

structure Attentive (s : Router) : Prop where
  running : ∀ kind, s.Running kind
  meant : ∀ kind, ∀ a ∈ s.arrived kind, ∀ endpointId, readEndpointId a.bytes = some endpointId →
    a.endpoint ≠ none

namespace Attentive

theorem alive_of_open (hopen : s.Open) (hc : s.channels[channel]? = some c) (kind : Kind) :
    s.alive kind channel = true := by
  rw [alive, hc]
  exact hopen channel c hc kind

/-- A loop returns where an id is unknown or a channel is closed, which both need a receiver that
was dropped. -/
theorem loops_step (hs : s.Sound) (hknown : s.Known) (hopen : s.Open) (h : s.step act = some s')
    (e : ProtocolError) (hstopped : s'.loops kind = .stopped e) : s.loops kind = .stopped e := by
  cases act with
  | register endpointId => obtain rfl | ⟨-, rfl⟩ := register_some h <;> exact hstopped
  | close channel kind' | recv channel kind' =>
    obtain ⟨c, c', -, -, rfl⟩ := modify_some h
    exact hstopped
  | remove channel =>
    obtain ⟨c, -, -, -, rfl⟩ := remove_some h
    exact hstopped
  | arrive _ _ | data _ _ =>
    cases h
    exact hstopped
  | accept kind' =>
    obtain ⟨a, -, -, rfl⟩ := accept_some h
    by_cases hkind : kind = kind'
    · subst hkind
      simp at hstopped
    · simpa [hkind] using hstopped
  | lookup kind' =>
    obtain ⟨a, -, ha, -, rfl⟩ := lookup_some h
    by_cases hkind : kind = kind'
    · subst hkind
      cases hread : readEndpointId a.bytes with
      | none => simp [found, hread] at hstopped
      | some endpointId =>
        obtain ⟨channel, c, hclients, -, -⟩ :=
          hopen.clients hs (hknown kind a (List.mem_of_getElem? ha) endpointId hread)
        simp [found_of_clients hread hclients] at hstopped
    · simpa [hkind] using hstopped
  | send kind' =>
    obtain ⟨number, channel, c, -, hc, ⟨-, -, rfl⟩ | ⟨hclosed, rfl⟩⟩ := send_some h
    · by_cases hkind : kind = kind'
      · subst hkind
        simp at hstopped
      · simpa [hkind] using hstopped
    · rw [hopen channel c hc kind'] at hclosed
      cases hclosed

theorem running_of_open (hopen : s.Open) (hrouted : s.Routed kind)
    (h : ∀ e, s.loops kind ≠ .stopped e) : s.Running kind := by
  unfold Running
  cases hloop : s.loops kind with
  | idle => exact .inl rfl
  | reading => exact .inr (.inl rfl)
  | sending number channel =>
    obtain ⟨-, c, hc, -⟩ := hrouted.sending number channel hloop
    exact .inr (.inr ⟨number, channel, rfl, alive_of_open hopen hc kind⟩)
  | stopped e => exact absurd hloop (h e)

theorem not_stopped (h : s.Running kind) (e : ProtocolError) : s.loops kind ≠ .stopped e := by
  obtain hloop | hloop | ⟨number, channel, hloop, -⟩ := h <;> rw [hloop] <;> nofun

/-- What has arrived after a step had arrived before it, or arrives now. -/
theorem arrived_step {a : Arrival} (h : s.step act = some s') (ha : a ∈ s'.arrived kind) :
    (∃ b ∈ s.arrived kind, a.bytes = b.bytes ∧ a.endpoint = b.endpoint) ∨
      ∃ bytes, act = .arrive kind bytes ∧
        a = ⟨bytes, kind = .datagram,
          ((readEndpointId bytes).bind s.clients).filter (s.alive kind)⟩ := by
  cases act with
  | register endpointId =>
    obtain rfl | ⟨-, rfl⟩ := register_some h <;> exact .inl ⟨a, ha, rfl, rfl⟩
  | close channel kind' | recv channel kind' =>
    obtain ⟨c, c', -, -, rfl⟩ := modify_some h
    exact .inl ⟨a, ha, rfl, rfl⟩
  | remove channel =>
    obtain ⟨c, -, -, -, rfl⟩ := remove_some h
    exact .inl ⟨a, ha, rfl, rfl⟩
  | arrive kind' bytes =>
    cases h
    by_cases hkind : kind = kind'
    · subst hkind
      simp only [arrive, Function.update_self, List.mem_append, List.mem_singleton] at ha
      obtain ha | ha := ha
      · exact .inl ⟨a, ha, rfl, rfl⟩
      · exact .inr ⟨bytes, rfl, ha⟩
    · simp only [arrive, Function.update_of_ne hkind] at ha
      exact .inl ⟨a, ha, rfl, rfl⟩
  | data kind' i =>
    cases h
    obtain ⟨j, hj⟩ := List.mem_iff_getElem?.mp ha
    obtain ⟨b, hb, hbytes, hendpoint, -⟩ := get_data hj
    exact .inl ⟨b, List.mem_of_getElem? hb, hbytes, hendpoint⟩
  | accept kind' =>
    obtain ⟨b, -, -, rfl⟩ := accept_some h
    exact .inl ⟨a, ha, rfl, rfl⟩
  | lookup kind' =>
    obtain ⟨b, -, -, -, rfl⟩ := lookup_some h
    exact .inl ⟨a, ha, rfl, rfl⟩
  | send kind' =>
    obtain ⟨number, channel, c, -, -, ⟨-, -, rfl⟩ | ⟨-, rfl⟩⟩ := send_some h <;>
      exact .inl ⟨a, ha, rfl, rfl⟩

theorem step (h : s.Attentive) (hs : s.Sound) (hrouted : ∀ kind, s.Routed kind) (hknown : s.Known)
    (hknown' : s'.Known) (hopen' : s'.Open) (hstep : s.step act = some s') : s'.Attentive := by
  have hopen := hopen'.of_step hstep
  constructor
  · intro kind
    refine running_of_open hopen' ((hrouted kind).step hs hstep) (fun e hstopped ↦ ?_)
    exact not_stopped (h.running kind) e (loops_step hs hknown hopen hstep e hstopped)
  · intro kind a ha endpointId hread
    obtain ⟨b, hb, hbytes, hendpoint⟩ | ⟨bytes, rfl, rfl⟩ := arrived_step hstep ha
    · rw [hendpoint]
      exact h.meant kind b hb endpointId (hbytes ▸ hread)
    · cases hstep
      obtain ⟨channel, c, hclients, hc, -⟩ := hopen.clients hs (hknown' kind _ ha endpointId hread)
      change readEndpointId bytes = some endpointId at hread
      simp [hread, hclients, alive_of_open hopen hc]

/-- What the loop has accepted is with the channel of its id. -/
theorem handed (h : s.Attentive) (hs : s.Sound) (hrouted : s.Routed kind) (hopen : s.Open)
    (hlt : number < s.accepted kind) (hid : s.idOf kind number = some endpointId) :
    ∃ channel c, s.clients endpointId = some channel ∧ s.channels[channel]? = some c ∧
      (number ∈ c.handed kind ∨ s.loops kind = .sending number channel) := by
  obtain ⟨a, ha, hread⟩ := Option.bind_eq_some_iff.mp hid
  obtain ⟨channel, hendpoint⟩ :=
    Option.ne_none_iff_exists'.mp (h.meant kind a (List.mem_of_getElem? ha) endpointId hread)
  obtain ⟨c, hc, hmeant⟩ := hrouted.meant number channel a ha hendpoint
  have halive := hopen channel c hc kind
  have hid : c.endpointId = endpointId := Option.some.inj (hmeant.symm.trans hread)
  exact ⟨channel, c, (hs.clients endpointId channel).mpr
    ⟨c, hc, hid, hs.alive channel c kind hc halive⟩, hc,
      hrouted.delivered number channel a c ha hlt hendpoint hc halive⟩

end Attentive

end Kymux.Router
