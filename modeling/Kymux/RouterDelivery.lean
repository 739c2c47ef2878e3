import Kymux.RouterSteps

namespace Kymux.Router

open BigEndian Keyed

variable {s s' : Router} {kind kind' : Kind} {channel number : ℕ} {c c' : Channel} {a : Arrival}
  {endpointId : UInt16} {act : Action}

def idOf (s : Router) (kind : Kind) (number : ℕ) : Option UInt16 :=
  (s.arrived kind)[number]?.bind (readEndpointId ·.bytes)

def done (s : Router) (kind : Kind) : ℕ :=
  match s.loops kind with
  | .sending number _ => number
  | _ => s.accepted kind

structure Routed (s : Router) (kind : Kind) : Prop where
  accepted : s.accepted kind ≤ (s.arrived kind).length
  sending : ∀ number channel, s.loops kind = .sending number channel →
    number + 1 = s.accepted kind ∧
      ∃ c, s.channels[channel]? = some c ∧ s.idOf kind number = some c.endpointId
  handed : ∀ (channel : ℕ) (c : Channel), s.channels[channel]? = some c → ∀ number ∈ c.handed kind,
    number < s.done kind ∧ s.idOf kind number = some c.endpointId
  ordered : ∀ (channel : ℕ) (c : Channel), s.channels[channel]? = some c →
    (c.handed kind).Pairwise (· < ·)
  once : ∀ (i j : ℕ) (c d : Channel), s.channels[i]? = some c → s.channels[j]? = some d →
    ∀ number, number ∈ c.handed kind → number ∈ d.handed kind → i = j
  meant : ∀ (number channel : ℕ) (a : Arrival), (s.arrived kind)[number]? = some a →
    a.endpoint = some channel →
      ∃ c, s.channels[channel]? = some c ∧ readEndpointId a.bytes = some c.endpointId
  delivered : ∀ (number channel : ℕ) (a : Arrival) (c : Channel),
    (s.arrived kind)[number]? = some a → number < s.accepted kind → a.endpoint = some channel →
      s.channels[channel]? = some c → c.alive kind = true →
        number ∈ c.handed kind ∨ s.loops kind = .sending number channel

namespace Routed

theorem start (kind : Kind) : Routed .start kind where
  accepted := le_rfl
  sending _ _ h := by cases h
  handed _ _ h := by cases h
  ordered _ _ h := by cases h
  once _ _ _ _ h := by cases h
  meant _ _ _ h := by cases h
  delivered _ _ _ _ h := by cases h

/-- Nothing that concerns the loop changes. A channel may be new or no longer alive. -/
theorem congr (h : Routed s kind) (hloops : s'.loops kind = s.loops kind)
    (haccepted : s'.accepted kind = s.accepted kind) (harrived : s'.arrived kind = s.arrived kind)
    (hkept : ∀ (i : ℕ) (c : Channel), s.channels[i]? = some c →
      ∃ c', s'.channels[i]? = some c' ∧ c'.endpointId = c.endpointId)
    (hold : ∀ (i : ℕ) (c' : Channel), s'.channels[i]? = some c' →
      c'.handed kind = [] ∧ s.channels[i]? = none ∨ ∃ c, s.channels[i]? = some c ∧
        c'.endpointId = c.endpointId ∧ c'.handed kind = c.handed kind ∧
          (c'.alive kind = true → c.alive kind = true)) : Routed s' kind := by
  have hid : s'.idOf kind = s.idOf kind := by
    funext number
    rw [idOf, harrived, idOf]
  have hdone : s'.done kind = s.done kind := by rw [done, hloops, haccepted, done]
  constructor
  case accepted =>
    rw [haccepted, harrived]
    exact h.accepted
  case sending =>
    intro number channel hloop
    rw [hloops] at hloop
    obtain ⟨hnumber, c, hc, hcid⟩ := h.sending number channel hloop
    obtain ⟨c', hc', heq⟩ := hkept channel c hc
    exact ⟨hnumber.trans haccepted.symm, c', hc', by rw [hid, heq, hcid]⟩
  case handed =>
    intro i c' hc' number hnumber
    rw [hdone, hid]
    obtain ⟨hnil, -⟩ | ⟨c, hc, hcid, hhanded, -⟩ := hold i c' hc'
    · rw [hnil] at hnumber
      cases hnumber
    · rw [hcid]
      exact h.handed i c hc number (hhanded ▸ hnumber)
  case ordered =>
    intro i c' hc'
    obtain ⟨hnil, -⟩ | ⟨c, hc, -, hhanded, -⟩ := hold i c' hc'
    · rw [hnil]
      exact .nil
    · rw [hhanded]
      exact h.ordered i c hc
  case once =>
    intro i j c' d' hc' hd' number hi hj
    obtain ⟨hnil, -⟩ | ⟨c, hc, -, hhanded, -⟩ := hold i c' hc'
    · rw [hnil] at hi
      cases hi
    obtain ⟨hnil, -⟩ | ⟨d, hd, -, hhanded', -⟩ := hold j d' hd'
    · rw [hnil] at hj
      cases hj
    exact h.once i j c d hc hd number (hhanded ▸ hi) (hhanded' ▸ hj)
  case meant =>
    intro number channel a ha hendpoint
    rw [harrived] at ha
    obtain ⟨c, hc, hread⟩ := h.meant number channel a ha hendpoint
    obtain ⟨c', hc', heq⟩ := hkept channel c hc
    exact ⟨c', hc', by rw [heq, hread]⟩
  case delivered =>
    intro number channel a c' ha hlt hendpoint hc' halive
    rw [harrived] at ha
    rw [haccepted] at hlt
    obtain ⟨d, hd, -⟩ := h.meant number channel a ha hendpoint
    obtain ⟨-, hnone⟩ | ⟨c, hc, -, hhanded, halive'⟩ := hold channel c' hc'
    · rw [hnone] at hd
      cases hd
    · rw [hhanded, hloops]
      exact h.delivered number channel a c ha hlt hendpoint hc (halive' halive)

/-- A channel changes, but neither its id nor what was handed to it. -/
theorem set (h : Routed s kind) (hc : s.channels[channel]? = some c)
    (hchannels : s'.channels = s.channels.set channel c') (hid : c'.endpointId = c.endpointId)
    (hhanded : c'.handed kind = c.handed kind) (halive : c'.alive kind = true → c.alive kind = true)
    (hloops : s'.loops kind = s.loops kind) (haccepted : s'.accepted kind = s.accepted kind)
    (harrived : s'.arrived kind = s.arrived kind) : Routed s' kind := by
  refine h.congr hloops haccepted harrived ?_ ?_
  · intro i d hd
    rw [hchannels]
    simp only [get_set hc]
    by_cases hi : i = channel
    · subst hi
      rw [hc] at hd
      cases hd
      exact ⟨c', .inl ⟨rfl, rfl⟩, hid⟩
    · exact ⟨d, .inr ⟨hi, hd⟩, rfl⟩
  · intro i d hd
    rw [hchannels, get_set hc] at hd
    right
    obtain ⟨rfl, rfl⟩ | ⟨-, hd⟩ := hd
    · exact ⟨c, hc, hid, hhanded, halive⟩
    · exact ⟨d, hd, rfl, rfl, fun h ↦ h⟩

theorem congr_loop (h : Routed s kind) (hchannels : s'.channels = s.channels)
    (hloops : s'.loops kind = s.loops kind) (haccepted : s'.accepted kind = s.accepted kind)
    (harrived : s'.arrived kind = s.arrived kind) : Routed s' kind := by
  refine h.congr hloops haccepted harrived ?_ ?_
  · rw [hchannels]
    exact fun i c hc ↦ ⟨c, hc, rfl⟩
  · rw [hchannels]
    exact fun i c hc ↦ .inr ⟨c, hc, rfl, rfl, fun h ↦ h⟩

theorem register (h : Routed s kind) (clients : UInt16 → Option ℕ) (endpointId : UInt16) :
    Routed { s with clients, channels := s.channels ++ [.new endpointId] } kind := by
  refine h.congr rfl rfl rfl (fun i c hc ↦ ⟨c, get_concat.mpr (.inr hc), rfl⟩) (fun i c hc ↦ ?_)
  obtain ⟨rfl, rfl⟩ | hc := get_concat.mp hc
  · exact .inl ⟨rfl, List.getElem?_eq_none le_rfl⟩
  · exact .inr ⟨c, hc, rfl, rfl, fun h ↦ h⟩

theorem lt_length (h : Routed s kind) (hs : number < s.done kind) :
    number < (s.arrived kind).length := by
  refine lt_of_lt_of_le hs (le_trans ?_ h.accepted)
  unfold done
  split
  · next number channel hloop =>
    have := (h.sending number channel hloop).1
    omega
  · exact le_rfl

theorem idOf_arrive (bytes : Bytes) (hlt : number < (s.arrived kind').length) :
    (s.arrive kind bytes).idOf kind' number = s.idOf kind' number := by
  by_cases hkind : kind' = kind
  · subst hkind
    simp [idOf, arrive, List.getElem?_append_left hlt]
  · simp [idOf, arrive, hkind]

theorem arrive (h : Routed s kind) (hs : Sound s) (bytes : Bytes) :
    Routed (s.arrive kind bytes) kind := by
  have harrived : (s.arrive kind bytes).arrived kind = s.arrived kind ++
      [⟨bytes, kind = .datagram, ((readEndpointId bytes).bind s.clients).filter (s.alive kind)⟩] :=
    Function.update_self _ _ _
  constructor
  case accepted =>
    rw [harrived, List.length_append]
    exact h.accepted.trans (Nat.le_add_right _ _)
  case sending =>
    intro number channel hloop
    obtain ⟨hnumber, c, hc, hid⟩ := h.sending number channel hloop
    have hlt : number < (s.arrived kind).length := by
      have := h.accepted
      omega
    exact ⟨hnumber, c, hc, (idOf_arrive bytes hlt).trans hid⟩
  case handed =>
    intro i c hc number hnumber
    obtain ⟨hlt, hid⟩ := h.handed i c hc number hnumber
    exact ⟨hlt, (idOf_arrive bytes (h.lt_length hlt)).trans hid⟩
  case ordered => exact h.ordered
  case once => exact h.once
  case meant =>
    intro number channel a ha hendpoint
    rw [harrived] at ha
    obtain ⟨-, rfl⟩ | ha := get_concat.mp ha
    · obtain ⟨hclients, -⟩ := Option.filter_eq_some_iff.mp hendpoint
      obtain ⟨endpointId, hread, hclients⟩ := Option.bind_eq_some_iff.mp hclients
      obtain ⟨c, hc, rfl, -⟩ := (hs.clients endpointId channel).mp hclients
      exact ⟨c, hc, hread⟩
    · exact h.meant number channel a ha hendpoint
  case delivered =>
    intro number channel a c ha hlt
    rw [harrived, List.getElem?_append_left (lt_of_lt_of_le hlt h.accepted)] at ha
    exact h.delivered number channel a c ha hlt

theorem idOf_data (kind : Kind) (i : ℕ) :
    (s.data kind i).idOf kind' number = s.idOf kind' number := by
  by_cases hkind : kind' = kind
  · subst hkind
    simp only [idOf, Router.data, Function.update_self, List.getElem?_modify, Option.map_eq_map,
      Option.bind_map]
    congr 1
    funext a
    simp only [Function.comp_apply]
    split_ifs <;> rfl
  · simp [idOf, Router.data, hkind]

theorem data (h : Routed s kind) (kind' : Kind) (i : ℕ) : Routed (s.data kind' i) kind where
  accepted := by
    refine h.accepted.trans (le_of_eq ?_)
    by_cases hkind : kind = kind'
    · subst hkind
      simp [Router.data]
    · simp [Router.data, hkind]
  sending number channel hloop := by
    rw [idOf_data]
    exact h.sending number channel hloop
  handed j c hc number hnumber := by
    rw [idOf_data]
    exact h.handed j c hc number hnumber
  ordered := h.ordered
  once := h.once
  meant number channel a ha hendpoint := by
    obtain ⟨b, hb, hbytes, heq, -⟩ := get_data ha
    rw [hbytes]
    exact h.meant number channel b hb (heq ▸ hendpoint)
  delivered number channel a c ha hlt hendpoint := by
    obtain ⟨b, hb, -, heq, -⟩ := get_data ha
    exact h.delivered number channel b c hb hlt (heq ▸ hendpoint)

theorem accept (h : Routed s kind) (hidle : s.loops kind = .idle) :
    Routed { s with loops := Function.update s.loops kind .reading } kind where
  accepted := h.accepted
  sending number channel hloop := by simp at hloop
  handed i c hc number hnumber := by
    obtain ⟨hlt, hid⟩ := h.handed i c hc number hnumber
    rw [done, hidle] at hlt
    exact ⟨by simpa [done] using hlt, hid⟩
  ordered := h.ordered
  once := h.once
  meant := h.meant
  delivered number channel a c ha hlt hendpoint hc halive := by
    refine .inl ((h.delivered number channel a c ha hlt hendpoint hc halive).resolve_right ?_)
    rw [hidle]
    nofun

theorem lookup (h : Routed s kind) (hs : Sound s) (hreading : s.loops kind = .reading)
    (ha : (s.arrived kind)[s.accepted kind]? = some a) : Routed { s with
      accepted := Function.update s.accepted kind (s.accepted kind + 1)
      loops := Function.update s.loops kind (s.found kind a.bytes) } kind := by
  generalize hs' : ({ s with
    accepted := Function.update s.accepted kind (s.accepted kind + 1)
    loops := Function.update s.loops kind (s.found kind a.bytes) } : Router) = s'
  have hchannels : s'.channels = s.channels := by rw [← hs']
  have harrived : s'.arrived = s.arrived := by rw [← hs']
  have haccepted : s'.accepted kind = s.accepted kind + 1 := by rw [← hs']; simp
  have hloop : s'.loops kind = s.found kind a.bytes := by rw [← hs']; simp
  have hid : s'.idOf kind = s.idOf kind := by
    funext number
    rw [idOf, harrived, idOf]
  have hdone : s.done kind ≤ s'.done kind := by
    have : s.done kind = s.accepted kind := by rw [done, hreading]
    rw [this, done, hloop, haccepted]
    split
    · next hfound => exact (found_sending hfound).1.ge
    · omega
  constructor
  case accepted =>
    rw [haccepted, harrived]
    exact (List.getElem?_eq_some_iff.mp ha).1
  case sending =>
    intro number channel hsending
    rw [hloop] at hsending
    obtain ⟨rfl, endpointId, hread, hclients⟩ := found_sending hsending
    obtain ⟨c, hc, rfl, -⟩ := (hs.clients endpointId channel).mp hclients
    refine ⟨haccepted.symm, c, by rw [hchannels, hc], ?_⟩
    rw [hid, idOf, ha]
    exact hread
  case handed =>
    intro i c hc number hnumber
    rw [hchannels] at hc
    obtain ⟨hlt, hcid⟩ := h.handed i c hc number hnumber
    exact ⟨hlt.trans_le hdone, by rw [hid, hcid]⟩
  case ordered =>
    rw [hchannels]
    exact h.ordered
  case once =>
    rw [hchannels]
    exact h.once
  case meant =>
    rw [harrived, hchannels]
    exact h.meant
  case delivered =>
    intro number channel b c hb hlt hendpoint hc halive
    rw [harrived] at hb
    rw [hchannels] at hc
    rw [haccepted] at hlt
    obtain hlt | rfl := Nat.lt_succ_iff_lt_or_eq.mp hlt
    · refine .inl ((h.delivered number channel b c hb hlt hendpoint hc halive).resolve_right ?_)
      rw [hreading]
      nofun
    · obtain rfl : a = b := Option.some.inj (ha.symm.trans hb)
      obtain ⟨d, hd, hread⟩ := h.meant _ channel a hb hendpoint
      obtain rfl : c = d := Option.some.inj (hc.symm.trans hd)
      have hclients := (hs.clients c.endpointId channel).mpr
        ⟨c, hc, rfl, hs.alive channel c kind hc halive⟩
      exact .inr (hloop.trans (found_of_clients hread hclients))

theorem send (h : Routed s kind) (hsending : s.loops kind = .sending number channel)
    (hc : s.channels[channel]? = some c) : Routed { s with
      channels := s.channels.set channel
        { c with handed := Function.update c.handed kind (c.handed kind ++ [number]) }
      loops := Function.update s.loops kind .idle } kind := by
  generalize hs' : ({ s with
    channels := s.channels.set channel
      { c with handed := Function.update c.handed kind (c.handed kind ++ [number]) }
    loops := Function.update s.loops kind .idle } : Router) = s'
  have harrived : s'.arrived = s.arrived := by rw [← hs']
  have haccepted : s'.accepted = s.accepted := by rw [← hs']
  have hloop : s'.loops kind = .idle := by rw [← hs']; simp
  have hid : s'.idOf kind = s.idOf kind := by
    funext number
    rw [idOf, harrived, idOf]
  obtain ⟨hnumber, c₀, hc₀, hcid⟩ := h.sending number channel hsending
  obtain rfl : c = c₀ := Option.some.inj (hc.symm.trans hc₀)
  have hdone : s.done kind = number := by rw [done, hsending]
  have hdone' : s'.done kind = number + 1 := by rw [done, hloop, haccepted, hnumber]
  have hkept : ∀ (i : ℕ) (d : Channel), s.channels[i]? = some d →
      ∃ d', s'.channels[i]? = some d' ∧ d'.endpointId = d.endpointId := by
    intro i d hd
    rw [← hs']
    simp only [get_set hc]
    by_cases hi : i = channel
    · subst hi
      rw [hc] at hd
      cases hd
      exact ⟨_, .inl ⟨rfl, rfl⟩, rfl⟩
    · exact ⟨d, .inr ⟨hi, hd⟩, rfl⟩
  have hold : ∀ (i : ℕ) (d' : Channel), s'.channels[i]? = some d' → ∃ d, s.channels[i]? = some d ∧
      d'.endpointId = d.endpointId ∧ d'.alive = d.alive ∧
        d'.handed kind = d.handed kind ++ if i = channel then [number] else [] := by
    intro i d' hd'
    rw [← hs'] at hd'
    obtain ⟨rfl, rfl⟩ | ⟨hi, hd'⟩ := (get_set hc).mp hd'
    · exact ⟨c, hc, rfl, rfl, by simp⟩
    · exact ⟨d', hd', rfl, rfl, by simp [hi]⟩
  have hmem : ∀ {i : ℕ} {l : List ℕ} {k : ℕ}, k ∈ l ++ (if i = channel then [number] else []) ↔
      k ∈ l ∨ i = channel ∧ k = number := by
    intro i l k
    split_ifs with hi <;> simp [hi]
  constructor
  case accepted =>
    rw [haccepted, harrived]
    exact h.accepted
  case sending =>
    intro number' channel' hsending'
    rw [hloop] at hsending'
    cases hsending'
  case handed =>
    intro i d' hd' k hk
    obtain ⟨d, hd, hdid, -, hhanded⟩ := hold i d' hd'
    rw [hhanded] at hk
    rw [hdone', hid, hdid]
    obtain hk | ⟨rfl, rfl⟩ := hmem.mp hk
    · obtain ⟨hlt, hkid⟩ := h.handed i d hd k hk
      exact ⟨by omega, hkid⟩
    · obtain rfl : c = d := Option.some.inj (hc.symm.trans hd)
      exact ⟨Nat.lt_succ_self k, hcid⟩
  case ordered =>
    intro i d' hd'
    obtain ⟨d, hd, -, -, hhanded⟩ := hold i d' hd'
    rw [hhanded]
    split_ifs with hi
    · refine List.pairwise_append.mpr ⟨h.ordered i d hd, List.pairwise_singleton _ _, ?_⟩
      intro k hk k' hk'
      obtain rfl := List.mem_singleton.mp hk'
      exact hdone ▸ (h.handed i d hd k hk).1
    · rw [List.append_nil]
      exact h.ordered i d hd
  case once =>
    intro i j d' e' hd' he' k hi hj
    obtain ⟨d, hd, -, -, hhanded⟩ := hold i d' hd'
    obtain ⟨e, he, -, -, hhanded'⟩ := hold j e' he'
    rw [hhanded, hmem] at hi
    rw [hhanded', hmem] at hj
    obtain hi | ⟨hi, rfl⟩ := hi
    · obtain hj | ⟨-, rfl⟩ := hj
      · exact h.once i j d e hd he k hi hj
      · exact absurd (h.handed i d hd k hi).1 (by omega)
    · obtain hj | ⟨hj, -⟩ := hj
      · exact absurd (h.handed j e he k hj).1 (by omega)
      · exact hi.trans hj.symm
  case meant =>
    intro k i b hb hendpoint
    rw [harrived] at hb
    obtain ⟨d, hd, hread⟩ := h.meant k i b hb hendpoint
    obtain ⟨d', hd', hdid⟩ := hkept i d hd
    exact ⟨d', hd', by rw [hdid, hread]⟩
  case delivered =>
    intro k i b d' hb hlt hendpoint hd' halive
    rw [harrived] at hb
    rw [haccepted] at hlt
    obtain ⟨d, hd, -, halive', hhanded⟩ := hold i d' hd'
    left
    rw [hhanded]
    refine hmem.mpr ((h.delivered k i b d hb hlt hendpoint hd (halive' ▸ halive)).imp_right ?_)
    intro hloop'
    rw [hsending] at hloop'
    cases hloop'
    exact ⟨rfl, rfl⟩

theorem stop (h : Routed s kind) (hsending : s.loops kind = .sending number channel)
    (hc : s.channels[channel]? = some c) (hclosed : c.alive kind = false) (e : ProtocolError) :
    Routed { s with loops := Function.update s.loops kind (.stopped e) } kind := by
  obtain ⟨hnumber, -⟩ := h.sending number channel hsending
  have hdone : s.done kind = number := by rw [done, hsending]
  constructor
  case accepted => exact h.accepted
  case sending =>
    intro number' channel' hloop
    dsimp only at hloop
    rw [Function.update_self] at hloop
    cases hloop
  case handed =>
    intro i d hd number' hnumber'
    obtain ⟨hlt, hid⟩ := h.handed i d hd number' hnumber'
    refine ⟨?_, hid⟩
    simp only [done, Function.update_self]
    omega
  case ordered => exact h.ordered
  case once => exact h.once
  case meant => exact h.meant
  case delivered =>
    intro number' channel' b d hb hlt hendpoint hd halive
    refine .inl ((h.delivered number' channel' b d hb hlt hendpoint hd halive).resolve_right ?_)
    intro hloop
    rw [hsending] at hloop
    cases hloop
    obtain rfl : c = d := Option.some.inj (hc.symm.trans hd)
    rw [hclosed] at halive
    cases halive

theorem step (h : Routed s kind) (hs : Sound s) (hstep : s.step act = some s') :
    Routed s' kind := by
  cases act with
  | register endpointId =>
    obtain rfl | ⟨-, rfl⟩ := register_some hstep
    · exact h
    · exact h.register _ endpointId
  | close channel kind' =>
    obtain ⟨c, c', hc, hclose, rfl⟩ := modify_some hstep
    obtain ⟨-, rfl⟩ := close_some hclose
    refine h.set hc rfl rfl rfl (fun halive ↦ ?_) rfl rfl rfl
    by_cases hkind : kind = kind'
    · subst hkind
      simp at halive
    · simpa [hkind] using halive
  | remove channel =>
    obtain ⟨c, hc, -, -, rfl⟩ := remove_some hstep
    exact h.set hc rfl rfl rfl (fun halive ↦ halive) rfl rfl rfl
  | recv channel kind' =>
    obtain ⟨c, c', hc, hrecv, rfl⟩ := modify_some hstep
    obtain ⟨received, -, rfl⟩ := recv_some hrecv
    exact h.set hc rfl rfl rfl (fun halive ↦ halive) rfl rfl rfl
  | arrive kind' bytes =>
    cases hstep
    by_cases hkind : kind = kind'
    · subst hkind
      exact h.arrive hs bytes
    · exact h.congr_loop rfl rfl rfl (Function.update_of_ne hkind _ _)
  | data kind' i =>
    cases hstep
    exact h.data kind' i
  | accept kind' =>
    obtain ⟨a, hidle, -, rfl⟩ := accept_some hstep
    by_cases hkind : kind = kind'
    · subst hkind
      exact h.accept hidle
    · exact h.congr_loop rfl (Function.update_of_ne hkind _ _) rfl rfl
  | lookup kind' =>
    obtain ⟨a, hreading, ha, -, rfl⟩ := lookup_some hstep
    by_cases hkind : kind = kind'
    · subst hkind
      exact h.lookup hs hreading ha
    · exact h.congr_loop rfl (Function.update_of_ne hkind _ _) (Function.update_of_ne hkind _ _) rfl
  | send kind' =>
    obtain ⟨number, channel, c, hsending, hc, ⟨-, -, rfl⟩ | ⟨hclosed, rfl⟩⟩ := send_some hstep
    · by_cases hkind : kind = kind'
      · subst hkind
        exact h.send hsending hc
      · exact h.set hc rfl rfl (Function.update_of_ne hkind _ _) (fun halive ↦ halive)
          (Function.update_of_ne hkind _ _) rfl rfl
    · by_cases hkind : kind = kind'
      · subst hkind
        exact h.stop hsending hc hclosed _
      · exact h.congr_loop rfl (Function.update_of_ne hkind _ _) rfl rfl

end Routed

end Kymux.Router
