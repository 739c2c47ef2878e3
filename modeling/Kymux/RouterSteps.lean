import Kymux.Router
import Kymux.Lib.Keyed

namespace Kymux.Router

open BigEndian Keyed

variable {s s' : Router} {kind kind' : Kind} {channel number : ℕ} {c c' : Channel} {a : Arrival}
  {endpointId : UInt16} {f : Channel → Option Channel}

theorem register_some (h : s.step (.register endpointId) = some s') : s' = s ∨
    s.clients endpointId = none ∧ s' = { s with
      clients := Function.update s.clients endpointId (some s.channels.length)
      channels := s.channels ++ [.new endpointId] } := by
  simp only [step, register] at h
  cases hclients : s.clients endpointId with
  | some channel =>
    rw [hclients] at h
    cases h
    exact .inl rfl
  | none =>
    rw [hclients] at h
    cases h
    exact .inr ⟨rfl, rfl⟩

theorem modify_some (h : s.modify channel f = some s') : ∃ c c', s.channels[channel]? = some c ∧
    f c = some c' ∧ s' = { s with channels := s.channels.set channel c' } := by
  unfold modify at h
  split at h
  · cases h
  · next c hc =>
    obtain ⟨c', hc', rfl⟩ := Option.map_eq_some_iff.mp h
    exact ⟨c, c', hc, hc', rfl⟩

theorem close_some (h : c.close kind = some c') :
    c.alive kind = true ∧ c' = { c with alive := Function.update c.alive kind false } := by
  unfold Channel.close at h
  split at h
  · next halive => cases h; exact ⟨halive, rfl⟩
  · cases h

theorem recv_some (h : c.recv kind = some c') :
    ∃ received, (∀ kind', c.received kind' ≤ received kind') ∧ c' = { c with received } := by
  unfold Channel.recv at h
  split at h
  · cases h
    refine ⟨_, fun kind' ↦ ?_, rfl⟩
    by_cases hkind : kind' = kind
    · subst hkind
      simp
    · simp [hkind]
  · cases h

theorem channelRemove_some (h : c.remove = some c') :
    (∀ kind, c.alive kind = false) ∧ c.registered = true ∧ c' = { c with registered := false } := by
  unfold Channel.remove at h
  split at h
  · next hclosed =>
    cases h
    simp only [Bool.and_eq_true, Bool.not_eq_true'] at hclosed
    obtain ⟨⟨⟨huni, hbi⟩, hdatagram⟩, hregistered⟩ := hclosed
    refine ⟨fun kind ↦ ?_, hregistered, rfl⟩
    cases kind with
    | uni => exact huni
    | bi => exact hbi
    | datagram => exact hdatagram
  · cases h

theorem remove_some (h : s.remove channel = some s') : ∃ c, s.channels[channel]? = some c ∧
    (∀ kind, c.alive kind = false) ∧ c.registered = true ∧ s' = { s with
      clients := Function.update s.clients c.endpointId none
      channels := s.channels.set channel { c with registered := false } } := by
  unfold remove at h
  split at h
  · cases h
  · next c hc =>
    unfold drop at h
    cases hclients : s.clients c.endpointId with
    | none => simp [hclients] at h
    | some _ =>
      rw [hclients] at h
      obtain ⟨d, d', hd, hremove, rfl⟩ := modify_some h
      obtain rfl : c = d := Option.some.inj (hc.symm.trans hd)
      obtain ⟨hclosed, hregistered, rfl⟩ := channelRemove_some hremove
      exact ⟨c, hc, hclosed, hregistered, rfl⟩

theorem get_data {i : ℕ} (h : ((s.data kind number).arrived kind')[i]? = some a) :
    ∃ b, (s.arrived kind')[i]? = some b ∧ a.bytes = b.bytes ∧ a.endpoint = b.endpoint ∧
      (b.readable = true → a.readable = true) := by
  unfold data at h
  by_cases hkind : kind' = kind
  · subst hkind
    simp only [Function.update_self, List.getElem?_modify] at h
    obtain ⟨b, hb, rfl⟩ := Option.map_eq_some_iff.mp h
    refine ⟨b, hb, ?_⟩
    split_ifs <;> simp
  · simp only [Function.update_of_ne hkind] at h
    exact ⟨a, h, rfl, rfl, fun h ↦ h⟩

theorem accept_some (h : s.accept kind = some s') : ∃ a, s.loops kind = .idle ∧
    (s.arrived kind)[s.accepted kind]? = some a ∧
      s' = { s with loops := Function.update s.loops kind .reading } := by
  unfold accept at h
  split at h
  · next a hidle ha => cases h; exact ⟨a, hidle, ha, rfl⟩
  · cases h

theorem lookup_some (h : s.lookup kind = some s') : ∃ a, s.loops kind = .reading ∧
    (s.arrived kind)[s.accepted kind]? = some a ∧ a.readable = true ∧ s' = { s with
      accepted := Function.update s.accepted kind (s.accepted kind + 1)
      loops := Function.update s.loops kind (s.found kind a.bytes) } := by
  unfold lookup at h
  split at h
  · next a hreading ha =>
    split at h
    · next hreadable => cases h; exact ⟨a, hreading, ha, hreadable, rfl⟩
    · cases h
  · cases h

theorem send_some (h : s.send kind = some s') : ∃ number channel c,
    s.loops kind = .sending number channel ∧ s.channels[channel]? = some c ∧
      (c.alive kind = true ∧ c.full kind = false ∧ s' = { s with
          channels := s.channels.set channel
            { c with handed := Function.update c.handed kind (c.handed kind ++ [number]) }
          loops := Function.update s.loops kind .idle } ∨
        c.alive kind = false ∧
          s' = { s with
            loops := Function.update s.loops kind (.stopped kind.handler.closed) }) := by
  unfold send at h
  split at h
  · next number channel hloop =>
    split at h
    · cases h
    · next c hc =>
      split at h
      · next halive =>
        split at h
        · cases h
        · next hfull =>
          cases h
          exact ⟨number, channel, c, hloop, hc, .inl ⟨halive, by simpa using hfull, rfl⟩⟩
      · next halive =>
        cases h
        exact ⟨number, channel, c, hloop, hc, .inr ⟨by simpa using halive, rfl⟩⟩
  · cases h

theorem found_sending {bytes : Bytes} (h : s.found kind bytes = .sending number channel) :
    number = s.accepted kind ∧
      ∃ endpointId, readEndpointId bytes = some endpointId ∧
      s.clients endpointId = some channel := by
  unfold found at h
  split at h
  · cases h
  · next endpointId hread =>
    split at h
    · next hclients =>
      cases h
      exact ⟨rfl, endpointId, hread, hclients⟩
    · cases kind <;> cases h

theorem found_of_clients {bytes : Bytes} (hread : readEndpointId bytes = some endpointId)
    (hclients : s.clients endpointId = some channel) :
    s.found kind bytes = .sending (s.accepted kind) channel := by
  simp only [found, hread, hclients]

structure Sound (s : Router) : Prop where
  clients : ∀ endpointId channel, s.clients endpointId = some channel ↔
    ∃ c, s.channels[channel]? = some c ∧ c.endpointId = endpointId ∧ c.registered = true
  alive : ∀ (channel : ℕ) (c : Channel) (kind : Kind), s.channels[channel]? = some c →
    c.alive kind = true → c.registered = true

namespace Sound

theorem start : Sound .start := ⟨by simp [Router.start], by simp [Router.start]⟩

/-- A channel changes, but not its id nor whether it is registered. -/
theorem set (h : Sound s) (hc : s.channels[channel]? = some c)
    (hchannels : s'.channels = s.channels.set channel c') (hclients : s'.clients = s.clients)
    (hid : c'.endpointId = c.endpointId) (hregistered : c'.registered = c.registered)
    (halive : ∀ kind, c'.alive kind = true → c.alive kind = true) : Sound s' := by
  constructor
  · intro endpointId i
    rw [hclients, h.clients, hchannels]
    by_cases hi : i = channel
    · subst hi
      simp [get_set hc, hc, hid, hregistered]
    · simp [get_set hc, hi]
  · intro i d kind hd
    rw [hchannels, get_set hc] at hd
    obtain ⟨rfl, rfl⟩ | ⟨-, hd⟩ := hd
    · exact fun hkind ↦ hregistered ▸ h.alive _ _ _ hc (halive kind hkind)
    · exact h.alive i d kind hd

theorem congr (h : Sound s) (hclients : s'.clients = s.clients)
    (hchannels : s'.channels = s.channels) : Sound s' :=
  ⟨by rw [hclients, hchannels]; exact h.clients, by rw [hchannels]; exact h.alive⟩

theorem register (h : Sound s) (hnone : s.clients endpointId = none) : Sound { s with
    clients := Function.update s.clients endpointId (some s.channels.length)
    channels := s.channels ++ [.new endpointId] } := by
  constructor
  · intro id i
    simp only [get_concat]
    by_cases hid : id = endpointId
    · subst hid
      rw [Function.update_self]
      constructor
      · intro hi
        cases hi
        exact ⟨_, .inl ⟨rfl, rfl⟩, rfl, rfl⟩
      · rintro ⟨c, ⟨rfl, rfl⟩ | hc, hcid, hregistered⟩
        · rfl
        · rw [(h.clients id i).mpr ⟨c, hc, hcid, hregistered⟩] at hnone
          cases hnone
    · rw [Function.update_of_ne hid, h.clients]
      constructor
      · rintro ⟨c, hc, hc'⟩
        exact ⟨c, .inr hc, hc'⟩
      · rintro ⟨c, ⟨rfl, rfl⟩ | hc, hcid, hregistered⟩
        · exact absurd hcid.symm hid
        · exact ⟨c, hc, hcid, hregistered⟩
  · intro i c kind hc halive
    obtain ⟨rfl, rfl⟩ | hc := get_concat.mp hc
    · rfl
    · exact h.alive i c kind hc halive

theorem remove (h : Sound s) (hc : s.channels[channel]? = some c)
    (hclosed : ∀ kind, c.alive kind = false) (hregistered : c.registered = true) : Sound { s with
      clients := Function.update s.clients c.endpointId none
      channels := s.channels.set channel { c with registered := false } } := by
  have hclients := (h.clients c.endpointId channel).mpr ⟨c, hc, rfl, hregistered⟩
  constructor
  · intro id i
    simp only [get_set hc]
    by_cases hid : id = c.endpointId
    · subst hid
      rw [Function.update_self]
      refine ⟨nofun, ?_⟩
      rintro ⟨d, ⟨rfl, rfl⟩ | ⟨hi, hd⟩, hdid, hd'⟩
      · cases hd'
      · rw [(h.clients c.endpointId i).mpr ⟨d, hd, hdid, hd'⟩] at hclients
        exact absurd (Option.some.inj hclients) hi
    · rw [Function.update_of_ne hid, h.clients]
      constructor
      · rintro ⟨d, hd, rfl, hd'⟩
        refine ⟨d, .inr ⟨?_, hd⟩, rfl, hd'⟩
        rintro rfl
        rw [hc] at hd
        cases hd
        exact hid rfl
      · rintro ⟨d, ⟨rfl, rfl⟩ | ⟨hi, hd⟩, hdid, hd'⟩
        · cases hd'
        · exact ⟨d, hd, hdid, hd'⟩
  · intro i d kind hd halive
    obtain ⟨rfl, rfl⟩ | ⟨-, hd⟩ := (get_set hc).mp hd
    · rw [hclosed kind] at halive
      cases halive
    · exact h.alive i d kind hd halive

theorem step {act : Action} (h : Sound s) (hstep : s.step act = some s') : Sound s' := by
  cases act with
  | register endpointId =>
    obtain rfl | ⟨hnone, rfl⟩ := register_some hstep
    · exact h
    · exact h.register hnone
  | close channel kind =>
    obtain ⟨c, c', hc, hclose, rfl⟩ := modify_some hstep
    obtain ⟨-, rfl⟩ := close_some hclose
    refine h.set hc rfl rfl rfl rfl (fun kind' hkind' ↦ ?_)
    by_cases hkind : kind' = kind
    · subst hkind
      simp at hkind'
    · simpa [hkind] using hkind'
  | remove channel =>
    obtain ⟨c, hc, hclosed, hregistered, rfl⟩ := remove_some hstep
    exact h.remove hc hclosed hregistered
  | recv channel kind =>
    obtain ⟨c, c', hc, hrecv, rfl⟩ := modify_some hstep
    obtain ⟨received, -, rfl⟩ := recv_some hrecv
    exact h.set hc rfl rfl rfl rfl (fun _ ↦ id)
  | arrive _ _ | data _ _ =>
    cases hstep
    exact h.congr rfl rfl
  | accept kind =>
    obtain ⟨a, -, -, rfl⟩ := accept_some hstep
    exact h.congr rfl rfl
  | lookup kind =>
    obtain ⟨a, -, -, -, rfl⟩ := lookup_some hstep
    exact h.congr rfl rfl
  | send kind =>
    obtain ⟨number, channel, c, -, hc, ⟨-, -, rfl⟩ | ⟨-, rfl⟩⟩ := send_some hstep
    · exact h.set hc rfl rfl rfl rfl (fun _ ↦ id)
    · exact h.congr rfl rfl

end Sound

end Kymux.Router
