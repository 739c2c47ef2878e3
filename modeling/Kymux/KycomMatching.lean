import Kymux.Kycom
import Kymux.Lib.Keyed

namespace Kymux.Kycom

open Machine

variable {s s' : KyCom} {m : EndpointMap} {connection : Connection} {c : Channel} {i tx : ℕ}
  {endpointId : UInt16} {result : Except ErrorKind Connection}

namespace EndpointMap

theorem searchId_eq (map : AList (fun _ : UInt16 ↦ ℕ)) (n : ℕ) (nextId : UInt16) :
    searchId map n nextId =
      (Probe.search (· + 1) (· ∈ map) n nextId).map
        (fun endpointId ↦ (endpointId, endpointId + 1)) := by
  induction n generalizing nextId with
  | zero => rfl
  | succ n ih =>
    rw [searchId, Probe.search]
    cases h : map.lookup nextId with
    | none => rw [if_neg (AList.lookup_eq_none.mp h)]; rfl
    | some tx =>
      rw [if_pos (AList.lookup_isSome.mp (Option.isSome_of_eq_some h))]
      exact ih _

theorem iterate_succ (k : ℕ) (a : UInt16) : (· + 1)^[k] a = a + UInt16.ofNat k := by
  induction k generalizing a with
  | zero => simp
  | succ k ih =>
    rw [Function.iterate_succ_apply, ih, UInt16.ofNat_add, add_assoc, add_comm 1]
    rfl

theorem exists_free (h : m.length < 2 ^ 16) : ∃ endpointId, endpointId ∉ m.map := by
  by_contra hall
  simp only [not_exists, not_not] at hall
  have huniv : m.map.keys.toFinset = Finset.univ := by
    ext endpointId
    simpa using AList.mem_keys.mp (hall endpointId)
  have hcard := List.toFinset_card_of_nodup m.map.keys_nodup
  have hlen : m.map.keys.length = m.length := List.length_map _
  rw [huniv, Finset.card_univ, ← FinEnum.card_eq_fintypeCard, FinEnum.card_UInt16, hlen] at hcard
  omega

theorem searchId_terminates (h : m.length < 2 ^ 16) :
    ∃ endpointId, endpointId ∉ m.map ∧ ∀ n ≥ 2 ^ 16,
      searchId m.map n m.nextId = some (endpointId, endpointId + 1) := by
  obtain ⟨free, hfree⟩ := exists_free h
  have hreach : (· + 1)^[(free - m.nextId).toNat] m.nextId = free := by
    rw [iterate_succ, UInt16.ofNat_toNat, add_sub_cancel]
  obtain ⟨endpointId, hid, hsearch⟩ := Probe.search_terminates (· + 1) (· ∈ m.map)
    (hreach.symm ▸ hfree)
  refine ⟨endpointId, hid, fun n hn ↦ ?_⟩
  have hlt := (free - m.nextId).toNat_lt
  rw [searchId_eq, hsearch n (by omega)]
  rfl

theorem length_le (m : EndpointMap) : m.length ≤ 2 ^ 16 := by
  have hcard := List.toFinset_card_of_nodup m.map.keys_nodup
  have hlen : m.map.keys.length = m.length := List.length_map _
  rw [← hlen, ← hcard, ← FinEnum.card_UInt16, FinEnum.card_eq_fintypeCard]
  exact Finset.card_le_univ _

theorem length_insert (h : endpointId ∉ m.map) (nextId : UInt16) :
    length ⟨nextId, m.map.insert endpointId tx⟩ = m.length + 1 := by
  rw [length, AList.entries_insert_of_notMem h]
  rfl

end EndpointMap

namespace KyCom

theorem registerChannel_poisoned (hp : s.poisoned = true) :
    s.registerChannel = (.panic "PoisonError", s) := by
  simp [registerChannel, hp]

theorem registerChannel_ended (hp : s.poisoned = false) (hm : s.pendingEndpoints = none) :
    s.registerChannel = (.error .connectionAborted, s) := by
  simp [registerChannel, hp, hm]

theorem registerChannel_full (hp : s.poisoned = false) (hm : s.pendingEndpoints = some m)
    (hlen : m.length = 2 ^ 16) : s.registerChannel =
      (.panic "assertion failed: pending_endpoints.map.len() != 1 << 16",
        { s with poisoned := true }) := by
  simp [registerChannel, hp, hm, hlen]

theorem registerChannel_free (hp : s.poisoned = false) (hm : s.pendingEndpoints = some m)
    (hlen : m.length < 2 ^ 16) :
    ∃ endpointId, endpointId ∉ m.map ∧
      (∀ n ≥ 2 ^ 16, EndpointMap.searchId m.map n m.nextId = some (endpointId, endpointId + 1)) ∧
      s.registerChannel = (.channel endpointId, { s with
        pendingEndpoints := some ⟨endpointId + 1, m.map.insert endpointId s.channels.length⟩
        channels := s.channels ++ [⟨endpointId, [], false⟩] }) := by
  obtain ⟨endpointId, hfree, hsearch⟩ := EndpointMap.searchId_terminates hlen
  refine ⟨endpointId, hfree, hsearch, ?_⟩
  simp only [registerChannel, hp, hm, hlen.ne, hsearch _ le_rfl]
  simp

theorem listen_poisoned (hp : s.poisoned = true) (connection : Connection) :
    s.listen connection = { s with aborted := true } := by
  simp [listen, hp]

theorem listen_unknown (hp : s.poisoned = false) (hm : s.pendingEndpoints = some m)
    (hlook : m.map.lookup connection.endpointId = none) : s.listen connection = s := by
  simp [listen, hp, hm, hlook]

theorem listen_known (hp : s.poisoned = false) (hm : s.pendingEndpoints = some m)
    (hlook : m.map.lookup connection.endpointId = some tx) : s.listen connection = { s with
      pendingEndpoints := some { m with map := m.map.erase connection.endpointId }
      channels := s.channels.modify tx (Channel.give (.ok connection)) } := by
  simp [listen, hp, hm, hlook, send]

theorem dropGuard_poisoned (hp : s.poisoned = true) :
    s.dropGuard = { s with listening := false } := by
  simp [dropGuard, hp]

def giveAll (result : Except ErrorKind Connection) (txs : List ℕ) (channels : List Channel) :
    List Channel :=
  txs.foldl (fun channels tx ↦ channels.modify tx (Channel.give result)) channels

theorem foldl_send (txs : List ℕ) (s : KyCom) :
    txs.foldl (fun s tx ↦ s.send tx result) s =
      { s with channels := giveAll result txs s.channels } := by
  induction txs generalizing s with
  | nil => rfl
  | cons tx txs ih => exact ih _

theorem dropGuard_pending (hp : s.poisoned = false) (hm : s.pendingEndpoints = some m) :
    s.dropGuard = { s with
      pendingEndpoints := none
      listening := false
      channels := giveAll (.error .connectionAborted)
        (m.map.entries.map Sigma.snd) s.channels } := by
  simp [dropGuard, hp, hm, foldl_send]

end KyCom

namespace KyCom

theorem step_cases {a : Action} (h : s.step a = some s') :
    match a with
    | .registerChannel => s' = s.registerChannel.2
    | .accept connection => s.listening = true ∧ s' = s.listen connection
    | .stop => s.listening = true ∧ s' = s.dropGuard
    | .drop channel =>
      s' = { s with channels := s.channels.modify channel ({ · with dropped := true }) } := by
  unfold step at h
  rw [ite_eq_iff, or_iff_right (by simp)] at h
  cases a with
  | registerChannel | drop channel => exact (Option.some.inj h.2).symm
  | accept connection | stop =>
    have h := h.2
    dsimp only at h ⊢
    split_ifs at h with hl
    exact ⟨hl, (Option.some.inj h).symm⟩

end KyCom

theorem modify_get {l : List Channel} {f : Channel → Channel} {c' : Channel} :
    (l.modify tx f)[i]? = some c' ↔ ∃ c, l[i]? = some c ∧ (if tx = i then f c else c) = c' := by
  rw [List.getElem?_modify]
  exact Option.map_eq_some_iff

theorem giveAll_get {txs : List ℕ} (h : txs.Nodup) {l : List Channel} {c' : Channel} :
    (KyCom.giveAll result txs l)[i]? = some c' ↔
      ∃ c, l[i]? = some c ∧ (if i ∈ txs then c.give result else c) = c' := by
  induction txs generalizing l with
  | nil => simp [KyCom.giveAll]
  | cons tx txs ih =>
    obtain ⟨hnot, hnodup⟩ := List.nodup_cons.mp h
    have hcons : KyCom.giveAll result (tx :: txs) l =
        KyCom.giveAll result txs (l.modify tx (Channel.give result)) := rfl
    rw [hcons, ih hnodup]
    simp only [modify_get, List.mem_cons]
    by_cases htx : tx = i
    · subst htx
      simp [hnot]
    · simp [htx, Ne.symm htx]

def Channel.Fair (c : Channel) : Prop :=
  c.results = [] ∨
  (∃ connection, c.results = [.ok connection] ∧ connection.endpointId = c.endpointId) ∨
    c.results = [.error .connectionAborted]

/-- The senders in the map are those of the channels that were given nothing, and a channel
that was not is dropped or has its sender there. -/
structure Matched (s : KyCom) : Prop where
  fair : ∀ c ∈ s.channels, c.Fair
  pending : ∀ m, s.pendingEndpoints = some m → ∀ endpointId tx, m.map.lookup endpointId = some tx →
    ∃ c, s.channels[tx]? = some c ∧ c.endpointId = endpointId ∧ c.results = []
  waiting : ∀ i c, s.channels[i]? = some c → c.dropped = false → c.results = [] →
    ∃ m, s.pendingEndpoints = some m ∧ m.map.lookup c.endpointId = some i
  listening : s.poisoned = false → (s.listening = true ↔ s.pendingEndpoints.isSome)
  full : s.poisoned = true → ∃ m, s.pendingEndpoints = some m ∧ m.length = 2 ^ 16

namespace Matched

theorem new : Matched .new where
  fair := by simp [KyCom.new]
  pending := by
    rintro m hm endpointId tx h
    cases hm
    simp [EndpointMap.default] at h
  waiting := by simp [KyCom.new]
  listening := by simp [KyCom.new]
  full := by simp [KyCom.new]

theorem registered (h : Matched s) : Matched s.registerChannel.2 := by
  cases hp : s.poisoned with
  | true => rwa [KyCom.registerChannel_poisoned hp]
  | false =>
    cases hm : s.pendingEndpoints with
    | none => rwa [KyCom.registerChannel_ended hp hm]
    | some m =>
      rcases eq_or_ne m.length (2 ^ 16) with hlen | hlen
      · rw [KyCom.registerChannel_full hp hm hlen]
        exact ⟨h.fair, h.pending, h.waiting, nofun, fun _ ↦ ⟨m, hm, hlen⟩⟩
      · obtain ⟨endpointId, hfree, -, hreg⟩ := KyCom.registerChannel_free hp hm
          (lt_of_le_of_ne m.length_le hlen)
        rw [hreg]
        refine ⟨?_, ?_, ?_, ?_, ?_⟩
        · intro c hc
          rcases List.mem_append.mp hc with hc | hc
          · exact h.fair c hc
          · exact .inl (by rw [List.mem_singleton.mp hc])
        · rintro _ ⟨⟩ id tx hlook
          rcases eq_or_ne id endpointId with rfl | hne
          · rw [AList.lookup_insert, Option.some.injEq] at hlook
            subst hlook
            exact ⟨_, List.getElem?_concat_length, rfl, rfl⟩
          · rw [AList.lookup_insert_ne hne] at hlook
            obtain ⟨c, hc, hid⟩ := h.pending m hm id tx hlook
            refine ⟨c, ?_, hid⟩
            rw [List.getElem?_append_left (List.getElem?_eq_some_iff.mp hc).1, hc]
        · intro i c hc hd hnone
          refine ⟨_, rfl, ?_⟩
          rcases Keyed.get_concat.mp hc with ⟨rfl, rfl⟩ | hc
          · exact AList.lookup_insert _
          · obtain ⟨m', hm', hlook⟩ := h.waiting i c hc hd hnone
            cases hm.symm.trans hm'
            have hne : c.endpointId ≠ endpointId := by
              rintro rfl
              exact hfree (AList.lookup_isSome.mp (Option.isSome_of_eq_some hlook))
            rw [AList.lookup_insert_ne hne, hlook]
        · simpa [hm] using h.listening
        · simp [hp]

theorem give_fair (hnone : c.results = [])
    (hresult : (∃ connection, result = .ok connection ∧ connection.endpointId = c.endpointId) ∨
      result = .error .connectionAborted) : (c.give result).Fair := by
  unfold Channel.give
  split_ifs with hd
  · exact .inl hnone
  · rcases hresult with ⟨connection, rfl, hid⟩ | rfl
    · exact .inr (.inl ⟨connection, by simp [hnone], hid⟩)
    · exact .inr (.inr (by simp [hnone]))

theorem give_ne_nil (hd : (c.give result).dropped = false) : (c.give result).results ≠ [] := by
  unfold Channel.give at hd ⊢
  split_ifs at hd ⊢ with hdrop
  · simp [hdrop] at hd
  · simp

theorem listened (h : Matched s) (hl : s.listening = true) (connection : Connection) :
    Matched (s.listen connection) := by
  cases hp : s.poisoned with
  | true =>
    rw [KyCom.listen_poisoned hp]
    exact ⟨h.fair, h.pending, h.waiting, h.listening, h.full⟩
  | false =>
    obtain ⟨m, hm⟩ := Option.isSome_iff_exists.mp ((h.listening hp).mp hl)
    cases hlook : m.map.lookup connection.endpointId with
    | none => rwa [KyCom.listen_unknown hp hm hlook]
    | some tx =>
      obtain ⟨c, hc, hid, hnone⟩ := h.pending m hm _ _ hlook
      rw [KyCom.listen_known hp hm hlook]
      refine ⟨?_, ?_, ?_, ?_, ?_⟩
      · intro c' hc'
        obtain ⟨i, hi⟩ := List.getElem?_of_mem hc'
        obtain ⟨b, hb, rfl⟩ := modify_get.mp hi
        split_ifs with htx
        · subst htx
          cases hc.symm.trans hb
          exact give_fair hnone (.inl ⟨connection, rfl, hid.symm⟩)
        · exact h.fair b (List.mem_of_getElem? hb)
      · rintro _ ⟨⟩ id tx' hlook'
        have hne : id ≠ connection.endpointId := by
          rintro rfl
          rw [AList.lookup_erase] at hlook'
          cases hlook'
        rw [AList.lookup_erase_ne hne] at hlook'
        obtain ⟨b, hb, hbid, hbnone⟩ := h.pending m hm id tx' hlook'
        have htx : tx ≠ tx' := by
          rintro rfl
          cases hc.symm.trans hb
          exact hne (hbid.symm.trans hid)
        exact ⟨b, modify_get.mpr ⟨b, hb, if_neg htx⟩, hbid, hbnone⟩
      · intro i c' hi hd hnil
        obtain ⟨b, hb, rfl⟩ := modify_get.mp hi
        split_ifs at hd hnil with htx
        · exact absurd hnil (give_ne_nil hd)
        · rw [if_neg htx]
          obtain ⟨m', hm', hlook'⟩ := h.waiting i b hb hd hnil
          cases hm.symm.trans hm'
          refine ⟨_, rfl, ?_⟩
          rw [AList.lookup_erase_ne, hlook']
          intro heq
          rw [heq, hlook, Option.some.injEq] at hlook'
          exact htx hlook'
      · simpa [hm] using h.listening
      · simp [hp]

theorem senders_nodup (h : Matched s) (hm : s.pendingEndpoints = some m) :
    (m.map.entries.map Sigma.snd).Nodup := by
  refine List.Nodup.map_on ?_ m.map.nodupKeys.nodup
  rintro ⟨id, tx⟩ hid ⟨id', tx'⟩ hid' (rfl : tx = tx')
  obtain ⟨c, hc, rfl, -⟩ := h.pending m hm id tx (AList.mem_lookup_iff.mpr hid)
  obtain ⟨c', hc', rfl, -⟩ := h.pending m hm id' tx (AList.mem_lookup_iff.mpr hid')
  cases hc.symm.trans hc'
  rfl

theorem stopped (h : Matched s) (hl : s.listening = true) : Matched s.dropGuard := by
  cases hp : s.poisoned with
  | true =>
    rw [KyCom.dropGuard_poisoned hp]
    exact ⟨h.fair, h.pending, h.waiting, by simp [hp], h.full⟩
  | false =>
    obtain ⟨m, hm⟩ := Option.isSome_iff_exists.mp ((h.listening hp).mp hl)
    have hnodup := h.senders_nodup hm
    rw [KyCom.dropGuard_pending hp hm]
    refine ⟨?_, nofun, ?_, by simp, by simp [hp]⟩
    · intro c' hc'
      obtain ⟨i, hi⟩ := List.getElem?_of_mem hc'
      obtain ⟨c, hc, rfl⟩ := (giveAll_get hnodup).mp hi
      split_ifs with hmem
      · obtain ⟨⟨id, tx⟩, hentry, rfl⟩ := List.mem_map.mp hmem
        obtain ⟨b, hb, -, hnone⟩ := h.pending m hm id tx (AList.mem_lookup_iff.mpr hentry)
        cases hc.symm.trans hb
        exact give_fair hnone (.inr rfl)
      · exact h.fair c (List.mem_of_getElem? hc)
    · intro i c' hi hd hnone
      obtain ⟨c, hc, rfl⟩ := (giveAll_get hnodup).mp hi
      split_ifs at hd hnone with hmem
      · exact absurd hnone (give_ne_nil hd)
      · obtain ⟨m', hm', hlook⟩ := h.waiting i c hc hd hnone
        cases hm.symm.trans hm'
        exact absurd (List.mem_map_of_mem (f := Sigma.snd) (AList.mem_lookup_iff.mp hlook)) hmem

theorem dropped (h : Matched s) (channel : ℕ) :
    Matched { s with channels := s.channels.modify channel ({ · with dropped := true }) } := by
  refine ⟨?_, ?_, ?_, h.listening, h.full⟩
  · intro c' hc'
    obtain ⟨i, hi⟩ := List.getElem?_of_mem hc'
    obtain ⟨b, hb, rfl⟩ := modify_get.mp hi
    have := h.fair b (List.mem_of_getElem? hb)
    split_ifs <;> exact this
  · intro m hm id tx hlook
    obtain ⟨b, hb, hid, hnone⟩ := h.pending m hm id tx hlook
    refine ⟨_, modify_get.mpr ⟨b, hb, rfl⟩, ?_, ?_⟩ <;> split_ifs <;> assumption
  · intro i c' hi hd hnone
    obtain ⟨b, hb, rfl⟩ := modify_get.mp hi
    split_ifs at hd hnone with htx
    rw [if_neg htx]
    exact h.waiting i b hb hd hnone

theorem step {a : Action} (h : Matched s) (hstep : s.step a = some s') : Matched s' := by
  have hcases := KyCom.step_cases hstep
  cases a with
  | registerChannel => exact hcases ▸ h.registered
  | accept connection => exact hcases.2 ▸ h.listened hcases.1 connection
  | stop => exact hcases.2 ▸ h.stopped hcases.1
  | drop channel => exact hcases ▸ h.dropped channel

theorem run {as : List Action} (h : run KyCom.step .new as = some s) : Matched s :=
  run_invariant new (fun _ _ _ ↦ step) h

end Matched

def HasRoom (s : KyCom) (a : Action) : Prop :=
  a = .registerChannel → ∀ m, s.pendingEndpoints = some m → m.length ≠ 2 ^ 16

theorem not_poisoned {as : List Action} (h : run KyCom.step .new as = some s)
    (hroom : Along KyCom.step HasRoom .new as) : s.poisoned = false := by
  refine run_induction (motive := fun as s ↦ Along KyCom.step HasRoom .new as → s.poisoned = false)
    (fun _ ↦ rfl) ?_ h hroom
  intro as s a s' hrun ih hstep halong
  obtain ⟨hbefore, hroom⟩ := (along_snoc hrun).mp halong
  have hp := ih hbefore
  have hs := Matched.run hrun
  have hcases := KyCom.step_cases hstep
  cases a with
  | drop channel => exact hcases ▸ hp
  | registerChannel =>
    rw [hcases]
    cases hm : s.pendingEndpoints with
    | none => rwa [KyCom.registerChannel_ended hp hm]
    | some m =>
      obtain ⟨endpointId, -, -, hreg⟩ := KyCom.registerChannel_free hp hm
        (lt_of_le_of_ne m.length_le (hroom rfl m hm))
      rwa [hreg]
  | accept connection =>
    rw [hcases.2]
    obtain ⟨m, hm⟩ := Option.isSome_iff_exists.mp ((hs.listening hp).mp hcases.1)
    cases hlook : m.map.lookup connection.endpointId with
    | none => rwa [KyCom.listen_unknown hp hm hlook]
    | some tx => rwa [KyCom.listen_known hp hm hlook]
  | stop =>
    rw [hcases.2]
    obtain ⟨m, hm⟩ := Option.isSome_iff_exists.mp ((hs.listening hp).mp hcases.1)
    rwa [KyCom.dropGuard_pending hp hm]

/-- In every state that a server comes to. While an id is free, the search of
`register_channel` ends, whatever `next_id` it starts from, and the channel gets an id that
was not pending. A channel is given one result at most, and no connection but one with its
id. Where no call was made when all ids were pending, then once the listener has ended every
channel was given a connection or the error, and every call returns the error. -/
theorem channels_matched (as : List Action) (s : KyCom) (h : run KyCom.step .new as = some s) :
    (∀ m, s.pendingEndpoints = some m → m.length < 2 ^ 16 → ∃ endpointId m', endpointId ∉ m.map ∧
      (∀ n ≥ 2 ^ 16, EndpointMap.searchId m.map n m.nextId = some (endpointId, m'.nextId)) ∧
      s.registerChannel = (.channel endpointId, { s with
        pendingEndpoints := some m'
        channels := s.channels ++ [⟨endpointId, [], false⟩] }) ∧
      m'.map.lookup endpointId = some s.channels.length ∧
      ∀ other ≠ endpointId, m'.map.lookup other = m.map.lookup other) ∧
    (∀ c ∈ s.channels, c.results.length ≤ 1) ∧
    (∀ c ∈ s.channels, ∀ connection, .ok connection ∈ c.results →
      connection.endpointId = c.endpointId) ∧
    (Along KyCom.step HasRoom .new as → s.listening = false →
      (∀ c ∈ s.channels, c.dropped = false →
        (∃ connection, c.results = [.ok connection]) ∨ c.results = [.error .connectionAborted]) ∧
      s.registerChannel = (.error .connectionAborted, s)) := by
  have hs := Matched.run h
  refine ⟨?_, ?_, ?_, ?_⟩
  · intro m hm hlen
    have hp : s.poisoned = false := by
      by_contra hp
      obtain ⟨m', hm', hfull⟩ := hs.full (Bool.eq_true_of_not_eq_false hp)
      cases hm.symm.trans hm'
      omega
    obtain ⟨endpointId, hfree, hsearch, hreg⟩ := KyCom.registerChannel_free hp hm hlen
    exact ⟨endpointId, _, hfree, hsearch, hreg, AList.lookup_insert _,
      fun other hne ↦ AList.lookup_insert_ne hne⟩
  · intro c hc
    rcases hs.fair c hc with hr | ⟨connection, hr, -⟩ | hr <;> simp [hr]
  · intro c hc connection hmem
    rcases hs.fair c hc with hr | ⟨connection', hr, hid⟩ | hr <;> rw [hr] at hmem
    · cases hmem
    · cases List.mem_singleton.mp hmem
      exact hid
    · cases List.mem_singleton.mp hmem
  · intro hroom hl
    have hp := not_poisoned h hroom
    have hnone : s.pendingEndpoints = none := by
      cases hm : s.pendingEndpoints with
      | none => rfl
      | some m =>
        rw [(hs.listening hp).mpr (by rw [hm]; rfl)] at hl
        cases hl
    refine ⟨fun c hc hd ↦ ?_, KyCom.registerChannel_ended hp hnone⟩
    rcases hs.fair c hc with hr | ⟨connection, hr, -⟩ | hr
    · obtain ⟨i, hi⟩ := List.getElem?_of_mem hc
      obtain ⟨m, hm, -⟩ := hs.waiting i c hi hd hr
      cases hnone.symm.trans hm
    · exact .inl ⟨connection, hr⟩
    · exact .inr hr

/-- Of two channels, the second is connected before the listener ends. -/
theorem channels_matched_two : ∃ s,
    run KyCom.step .new [.registerChannel, .registerChannel, .accept ⟨1, 0⟩, .stop] = some s ∧
    (∀ c ∈ s.channels, c.dropped = false →
      (∃ connection, c.results = [.ok connection]) ∨ c.results = [.error .connectionAborted]) ∧
    s.registerChannel = (.error .connectionAborted, s) := by
  refine ⟨_, rfl, (channels_matched
    [.registerChannel, .registerChannel, .accept ⟨1, 0⟩, .stop] _ rfl).2.2.2 ?_ rfl⟩
  refine ⟨fun _ m hm ↦ ?_, ?_⟩
  · cases hm
    decide
  · rintro _ ⟨⟩
    refine ⟨fun _ m hm ↦ ?_, fun _ _ ↦ ⟨nofun, fun _ _ ↦ ⟨nofun, fun _ _ ↦ trivial⟩⟩⟩
    cases hm
    decide

theorem run_register {as : List Action} (h : run KyCom.step .new as = some s)
    (ha : s.aborted = false) :
    run KyCom.step .new (as ++ [.registerChannel]) = some s.registerChannel.2 :=
  run_trans h (by simp [run, KyCom.step, ha])

theorem run_registers {n : ℕ} (hn : n ≤ 2 ^ 16) : ∃ s m,
    run KyCom.step .new (List.replicate n .registerChannel) = some s ∧ s.poisoned = false ∧
      s.aborted = false ∧ s.listening = true ∧ s.pendingEndpoints = some m ∧ m.length = n ∧
      s.channels.length = n ∧ ∀ c ∈ s.channels, c.dropped = false ∧ c.results = [] := by
  induction n with
  | zero => exact ⟨_, _, rfl, rfl, rfl, rfl, rfl, rfl, rfl, by simp [KyCom.new]⟩
  | succ n ih =>
    obtain ⟨s, m, hrun, hp, ha, hl, hm, hlen, hcount, hall⟩ := ih (by omega)
    obtain ⟨endpointId, hfree, -, hreg⟩ := KyCom.registerChannel_free hp hm (by omega)
    have hnext := run_register hrun ha
    rw [← List.replicate_succ', hreg] at hnext
    refine ⟨_, _, hnext, hp, ha, hl, rfl, ?_, ?_, ?_⟩
    · rw [EndpointMap.length_insert hfree, hlen]
    · simp [hcount]
    · intro c hc
      rcases List.mem_append.mp hc with hc | hc
      · exact hall c hc
      · rw [List.mem_singleton.mp hc]
        exact ⟨rfl, rfl⟩

/-- The call that finds all ids pending poisons the lock. The end of the listener then
notifies no channel, and later calls panic. -/
theorem full_not_notified : ∃ s,
    run KyCom.step .new (List.replicate (2 ^ 16 + 1) .registerChannel ++ [.stop]) = some s ∧
    s.listening = false ∧ (∃ c ∈ s.channels, c.dropped = false ∧ c.results = []) ∧
    s.registerChannel.1 ≠ .error .connectionAborted := by
  obtain ⟨s, m, hrun, hp, ha, hl, hm, hlen, hcount, hall⟩ := run_registers (n := 2 ^ 16) le_rfl
  have hfull := run_register hrun ha
  rw [← List.replicate_succ', KyCom.registerChannel_full hp hm hlen] at hfull
  obtain ⟨c, hc⟩ : ∃ c, c ∈ s.channels := List.exists_mem_of_length_pos (by omega)
  refine ⟨{ s with poisoned := true, listening := false }, run_trans hfull ?_, rfl,
    ⟨c, hc, hall c hc⟩, ?_⟩
  · simp [run, KyCom.step, ha, hl, KyCom.dropGuard]
  · rw [KyCom.registerChannel_poisoned rfl]
    intro h
    cases h

end Kymux.Kycom
