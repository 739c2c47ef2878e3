import Kymux.ControlRegister

namespace Kymux.Control

open Keyed

variable {p p' q q' : Peer} {endpointId : UInt16} {msg : ControlMsg} {x : Notifier} {notifier : ℕ}
  {a : Action}

namespace Peer

def notifierIds (p : Peer) : List UInt16 := p.notifiers.map Notifier.endpointId

def held (p : Peer) : List (UInt16 × Bool) := p.notifiers.map (fun x ↦ (x.endpointId, x.dropped))

def calledReady (p : Peer) (endpointId : UInt16) : Bool :=
  (lookup Notifier.endpointId p.notifiers endpointId).any Notifier.called

def notified (p : Peer) (endpointId : UInt16) : Option Bool :=
  (lookup Notifier.endpointId p.notifiers endpointId).map Notifier.notified

def readies (p : Peer) (endpointId : UInt16) : ℕ := p.path.count (.ready endpointId)

theorem readies_send (p : Peer) (msg : ControlMsg) (id : UInt16) :
    (p.send msg).readies id = p.readies id + if msg = .ready id then 1 else 0 := by
  rw [readies, path_send, List.count_append, List.count_singleton]
  simp [readies]

theorem readies_receive {stream : List ControlMsg} (h : q.stream = msg :: stream) (id : UInt16) :
    q.readies id = { q with stream }.readies id + if msg = .ready id then 1 else 0 := by
  simp only [readies, path, h, List.cons_append, List.count_cons]
  simp

theorem fresh_of_nodup (hnodup : p'.notifierIds.Nodup) (h : p'.notifiers = p.notifiers ++ [x]) :
    x.endpointId ∉ p.notifierIds := by
  rw [notifierIds, h, List.map_append, List.nodup_append] at hnodup
  exact fun hmem ↦ hnodup.2.2 _ hmem x.endpointId (by simp) rfl

theorem notified_eq_none : p.notified endpointId = none ↔ endpointId ∉ p.notifierIds := by
  rw [notified, Option.map_eq_none_iff, lookup_eq_none, notifierIds]

theorem notified_concat (hx : x.endpointId ∉ p.notifierIds)
    (h : p'.notifiers = p.notifiers ++ [x]) :
    p'.notified = Function.update p.notified x.endpointId (some x.notified) := by
  funext id
  rw [notified, h, lookup_concat hx]
  by_cases hid : id = x.endpointId
  · subst hid
    simp
  · rw [Function.update_of_ne hid, Function.update_of_ne hid, notified]

theorem calledReady_concat (hx : x.endpointId ∉ p.notifierIds) (hcalled : x.called = false)
    (h : p'.notifiers = p.notifiers ++ [x]) : p'.calledReady = p.calledReady := by
  funext id
  rw [calledReady, h, lookup_concat hx, calledReady]
  by_cases hid : id = x.endpointId
  · subst hid
    rw [Function.update_self, lookup_eq_none.mpr hx]
    exact hcalled
  · rw [Function.update_of_ne hid]

theorem notified_set {y : Notifier} (hp : p.notifierIds.Nodup)
    (hx : p.notifiers[notifier]? = some x) (hy : y.endpointId = x.endpointId)
    (h : p'.notifiers = p.notifiers.set notifier y) :
    p'.notified = Function.update p.notified x.endpointId (some y.notified) := by
  funext id
  rw [notified, h, lookup_set hp hx hy]
  by_cases hid : id = x.endpointId
  · subst hid
    simp
  · rw [Function.update_of_ne hid, Function.update_of_ne hid, notified]

theorem calledReady_set {y : Notifier} (hp : p.notifierIds.Nodup)
    (hx : p.notifiers[notifier]? = some x) (hy : y.endpointId = x.endpointId)
    (h : p'.notifiers = p.notifiers.set notifier y) :
    p'.calledReady = Function.update p.calledReady x.endpointId y.called := by
  funext id
  rw [calledReady, h, lookup_set hp hx hy]
  by_cases hid : id = x.endpointId
  · subst hid
    simp
  · rw [Function.update_of_ne hid, Function.update_of_ne hid, calledReady]

theorem notified_of_get (hp : p.notifierIds.Nodup) (hx : p.notifiers[notifier]? = some x) :
    p.notified x.endpointId = some x.notified := by
  rw [notified, lookup_of_mem hp (List.mem_of_getElem? hx)]
  rfl

theorem calledReady_of_get (hp : p.notifierIds.Nodup) (hx : p.notifiers[notifier]? = some x) :
    p.calledReady x.endpointId = x.called := by
  rw [calledReady, lookup_of_mem hp (List.mem_of_getElem? hx)]
  rfl

theorem exists_of_calledReady (h : p.calledReady endpointId = true) :
    ∃ x ∈ p.notifiers, x.endpointId = endpointId ∧ x.called := by
  unfold calledReady at h
  cases hx : lookup Notifier.endpointId p.notifiers endpointId with
  | none => simp [hx] at h
  | some x =>
    rw [hx] at h
    exact ⟨x, lookup_mem hx, lookup_key hx, h⟩

/-- What becomes of the entry of an endpoint when a notifier is registered for it. -/
theorem registerReadyNotifier_cases (p : Peer) (endpointId : UInt16) :
    (∃ n, p.pendingReady endpointId = some (.awaitingRemote n)) ∧
        (p.registerReadyNotifier endpointId).2 = p ∨
      ∃ x pending, x.endpointId = endpointId ∧ x.called = false ∧ x.dropped = false ∧
        (p.pendingReady endpointId = some .awaitingLocal ∧ x.notified = true ∧ pending = none ∨
          p.pendingReady endpointId = none ∧ x.notified = false ∧
            pending = some (.awaitingRemote p.notifiers.length)) ∧
        (p.registerReadyNotifier endpointId).2 = { p with
          pendingReady := Function.update p.pendingReady endpointId pending
          notifiers := p.notifiers ++ [x] } := by
  unfold registerReadyNotifier
  split
  · next n hpending => exact .inl ⟨⟨n, hpending⟩, rfl⟩
  · next hpending => exact .inr ⟨_, _, rfl, rfl, rfl, .inl ⟨hpending, rfl, rfl⟩, rfl⟩
  · next hpending => exact .inr ⟨_, _, rfl, rfl, rfl, .inr ⟨hpending, rfl, rfl⟩, rfl⟩

theorem handleMsg_ready_of_none (hpending : p.pendingReady endpointId = none) :
    p.handleMsg (.ready endpointId) = (.ok (), { p with
      pendingReady := Function.update p.pendingReady endpointId (some .awaitingLocal) }) := by
  simp only [handleMsg, hpending, Function.update_self, Function.update_idem]

theorem handleMsg_ready_of_awaiting
    (hpending : p.pendingReady endpointId = some (.awaitingRemote notifier))
    (hx : p.notifiers[notifier]? = some x) (hdropped : x.dropped = false) :
    p.handleMsg (.ready endpointId) = (.ok (), { p with
      pendingReady := Function.update p.pendingReady endpointId none
      notifiers := p.notifiers.set notifier { x with notified := true } }) := by
  simp only [handleMsg, hpending, notify, hx, hdropped]
  rfl

end Peer

/-- How far the two sides are with `ready` for one endpoint: what this side has of it, the
messages on their way to it, and whether the other side has called it. -/
inductive Readiness : Option Bool → Option PendingReady → ℕ → Bool → Prop
  | unknown {called} : Readiness none none called.toNat called
  | early : Readiness none (some .awaitingLocal) 0 true
  | awaiting {n called} : Readiness (some false) (some (.awaitingRemote n)) called.toNat called
  | notified : Readiness (some true) none 0 true

namespace Readiness

variable {notified : Option Bool} {pending : Option PendingReady} {readies : ℕ} {called : Bool}

theorem call (h : Readiness notified pending readies false) :
    Readiness notified pending (readies + 1) true := by
  generalize hc : false = called at h
  cases h with
  | unknown => subst hc; exact @unknown true
  | early => cases hc
  | @awaiting n => subst hc; exact @awaiting n true
  | notified => cases hc

/-- A message finds the notifier of this side, or is there before it. -/
theorem of_message (h : Readiness notified pending readies called) (hpos : 0 < readies) :
    readies = 1 ∧ called = true ∧ (notified = none ∧ pending = none ∨
      notified = some false ∧ ∃ n, pending = some (.awaitingRemote n)) := by
  cases h with
  | @unknown called => cases called with
    | false => cases hpos
    | true => exact ⟨rfl, rfl, .inl ⟨rfl, rfl⟩⟩
  | early => cases hpos
  | @awaiting n called => cases called with
    | false => cases hpos
    | true => exact ⟨rfl, rfl, .inr ⟨rfl, n, rfl⟩⟩
  | notified => cases hpos

theorem of_notified (h : Readiness (some true) pending readies called) : called = true := by
  cases h
  rfl

theorem wake (h : Readiness (some false) pending readies true) : readies = 1 := by
  generalize hc : true = called at h
  cases h
  subst hc
  rfl

theorem of_none (h : Readiness notified none readies called) (hn : notified = none) :
    Readiness (some false) (some (.awaitingRemote notifier)) readies called := by
  subst hn
  cases h
  exact .awaiting

theorem of_early (h : Readiness notified (some .awaitingLocal) readies called) :
    notified = none ∧ readies = 0 ∧ called = true := by
  cases h
  exact ⟨rfl, rfl, rfl⟩

end Readiness

structure Readies (p q : Peer) : Prop where
  place : ∀ endpointId notifier, p.pendingReady endpointId = some (.awaitingRemote notifier) →
    ∃ x, p.notifiers[notifier]? = some x ∧ x.endpointId = endpointId
  status : ∀ endpointId, Readiness (p.notified endpointId) (p.pendingReady endpointId)
    (q.readies endpointId) (q.calledReady endpointId)

namespace Readies

theorem start (i j : UInt16) : Readies (.start i) (.start j) where
  place _ _ h := by cases h
  status _ := @Readiness.unknown false

theorem congr (h : Readies p q) (hnotifiers : p'.notifiers = p.notifiers)
    (hpending : p'.pendingReady = p.pendingReady) (hreadies : ∀ id, q'.readies id = q.readies id)
    (hcalled : q'.calledReady = q.calledReady) : Readies p' q' where
  place := by rw [hnotifiers, hpending]; exact h.place
  status id := by
    rw [Peer.notified, hnotifiers, hpending, hreadies, hcalled]
    exact h.status id

theorem place_set {n : ℕ} {y : Notifier} (hx : p.notifiers[notifier]? = some x)
    (hy : y.endpointId = x.endpointId)
    (h : ∃ z, p.notifiers[n]? = some z ∧ z.endpointId = endpointId) :
    ∃ z, (p.notifiers.set notifier y)[n]? = some z ∧ z.endpointId = endpointId := by
  have hkeys := congrArg (·[n]?) (map_set hx hy)
  obtain ⟨z, hz, rfl⟩ := h
  simp only [List.getElem?_map, hz, Option.map_some] at hkeys
  exact Option.map_eq_some_iff.mp hkeys

theorem update (k : UInt16) (h : Readies p q)
    (hplace : ∀ id n, p'.pendingReady id = some (.awaitingRemote n) →
      ∃ x, p'.notifiers[n]? = some x ∧ x.endpointId = id)
    (hother : ∀ id, id ≠ k → p'.notified id = p.notified id ∧
      p'.pendingReady id = p.pendingReady id ∧
      q'.readies id = q.readies id ∧ q'.calledReady id = q.calledReady id)
    (hthis : Readiness (p'.notified k) (p'.pendingReady k) (q'.readies k) (q'.calledReady k)) :
    Readies p' q' := by
  refine ⟨hplace, fun id ↦ ?_⟩
  by_cases hid : id = k
  · subst hid
    exact hthis
  · obtain ⟨hnotified, hpending, hreadies, hcalled⟩ := hother id hid
    rw [hnotified, hpending, hreadies, hcalled]
    exact h.status id

theorem registerReadyNotifier (h : Readies p q) (endpointId : UInt16)
    (hnodup : (p.registerReadyNotifier endpointId).2.notifierIds.Nodup) :
    Readies (p.registerReadyNotifier endpointId).2 q := by
  obtain ⟨-, hp⟩ | ⟨x, pending, rfl, -, -, hcases, hp⟩ := p.registerReadyNotifier_cases endpointId
  · rw [hp]
    exact h
  rw [hp] at hnodup ⊢
  have hfresh := Peer.fresh_of_nodup hnodup rfl
  have hnotified := Peer.notified_concat hfresh (rfl : ({ p with
    pendingReady := Function.update p.pendingReady x.endpointId pending
    notifiers := p.notifiers ++ [x] } : Peer).notifiers = _)
  have hstatus := h.status x.endpointId
  refine h.update x.endpointId ?_ (fun id hid ↦ ⟨?_, Function.update_of_ne hid _ _, rfl, rfl⟩) ?_
  · intro id n hn
    dsimp only at hn ⊢
    by_cases hid : id = x.endpointId
    · subst hid
      rw [Function.update_self] at hn
      subst hn
      obtain ⟨-, -, hnone⟩ | ⟨-, -, hsome⟩ := hcases
      · cases hnone
      · cases hsome
        exact ⟨x, List.getElem?_concat_length, rfl⟩
    · rw [Function.update_of_ne hid] at hn
      obtain ⟨y, hy, hyid⟩ := h.place id n hn
      exact ⟨y, (List.getElem?_append_left (List.getElem?_eq_some_iff.mp hy).1).trans hy, hyid⟩
  · rw [hnotified, Function.update_of_ne hid]
  · rw [hnotified, Function.update_self]
    change Readiness _ (Function.update p.pendingReady _ _ _) _ _
    rw [Function.update_self]
    obtain ⟨hlocal, hx, rfl⟩ | ⟨hnone, hx, rfl⟩ := hcases
    · rw [hlocal] at hstatus
      obtain ⟨-, hreadies, hcalled⟩ := hstatus.of_early
      rw [hx, hreadies, hcalled]
      exact .notified
    · rw [hnone] at hstatus
      rw [hx]
      exact hstatus.of_none (Peer.notified_eq_none.mpr hfresh)

theorem called (h : Readies q p) (hnodup : p.notifierIds.Nodup)
    (hready : p.ready notifier = some p') : Readies q p' := by
  obtain ⟨x, hx, hcalled, hp'⟩ := Peer.ready_some hready
  have hset : p'.calledReady = Function.update p.calledReady x.endpointId true :=
    Peer.calledReady_set (y := { x with called := true }) hnodup hx rfl (congrArg _ hp')
  have hreadies : ∀ id, p'.readies id = p.readies id + if x.endpointId = id then 1 else 0 := by
    intro id
    rw [hp', Peer.readies_send]
    simp [Peer.readies, Peer.path]
  have hstatus := h.status x.endpointId
  rw [Peer.calledReady_of_get hnodup hx, hcalled] at hstatus
  refine h.update x.endpointId h.place (fun id hid ↦ ⟨rfl, rfl, ?_, ?_⟩) ?_
  · rw [hreadies, if_neg (Ne.symm hid), Nat.add_zero]
  · rw [hset, Function.update_of_ne hid]
  · rw [hset, Function.update_self, hreadies, if_pos rfl]
    exact hstatus.call

/-- A notifier of this side changes, but not whether it was notified. -/
theorem set {y : Notifier} (h : Readies p q) (hnodup : p.notifierIds.Nodup)
    (hx : p.notifiers[notifier]? = some x) (hid : y.endpointId = x.endpointId)
    (hnotified : y.notified = x.notified) (hp' : p'.notifiers = p.notifiers.set notifier y)
    (hpending : p'.pendingReady = p.pendingReady) : Readies p' q := by
  have hset : p'.notified = p.notified := by
    rw [Peer.notified_set hnodup hx hid hp', hnotified, ← Peer.notified_of_get hnodup hx,
      Function.update_eq_self]
  refine ⟨?_, fun id ↦ ?_⟩
  · intro id n hn
    rw [hpending] at hn
    rw [hp']
    exact place_set hx hid (h.place id n hn)
  · rw [hset, hpending]
    exact h.status id

/-- A `Ready` message is handled: it waits for a notifier, or wakes it. -/
theorem handleMsg_ready {stream : List ControlMsg} (h : Readies p q) (hnodup : p.notifierIds.Nodup)
    (hheld : ∀ m ∈ p.held, m.2 = false)
    (hstream : q.stream = .ready endpointId :: stream) :
    (p.handleMsg (.ready endpointId)).1 = .ok () ∧
      Readies (p.handleMsg (.ready endpointId)).2 { q with stream } ∧
      (p.handleMsg (.ready endpointId)).2.calledReady = p.calledReady := by
  have hreadies := Peer.readies_receive hstream
  have hcount := hreadies endpointId
  rw [if_pos rfl] at hcount
  have hothers : ∀ id, id ≠ endpointId → { q with stream }.readies id = q.readies id := by
    intro id hid
    rw [hreadies id, if_neg (by simpa using Ne.symm hid), Nat.add_zero]
  obtain ⟨hone, hcalled, hcases⟩ := (h.status endpointId).of_message (by omega)
  have hzero : { q with stream }.readies endpointId = 0 := by omega
  obtain ⟨hnotified, hpending⟩ | ⟨-, n, hpending⟩ := hcases
  · rw [Peer.handleMsg_ready_of_none hpending]
    refine ⟨rfl, h.update endpointId ?_ (fun id hid ↦ ?_) ?_, rfl⟩
    · intro id n hn
      dsimp only at hn
      by_cases hid : id = endpointId
      · subst hid
        rw [Function.update_self] at hn
        cases hn
      · rw [Function.update_of_ne hid] at hn
        exact h.place id n hn
    · exact ⟨rfl, Function.update_of_ne hid _ _, hothers id hid, rfl⟩
    · change Readiness (p.notified _) (Function.update p.pendingReady _ _ _) _ (q.calledReady _)
      rw [Function.update_self, hnotified, hcalled, hzero]
      exact .early
  · obtain ⟨x, hx, rfl⟩ := h.place endpointId n hpending
    rw [Peer.handleMsg_ready_of_awaiting hpending hx
      (hheld _ (List.mem_map_of_mem (List.mem_of_getElem? hx)))]
    generalize hp' : ({ p with
      pendingReady := Function.update p.pendingReady x.endpointId none
      notifiers := p.notifiers.set n { x with notified := true } } : Peer) = p'
    have hnotifiers : p'.notifiers = p.notifiers.set n { x with notified := true } := by rw [← hp']
    have hpending' :
      p'.pendingReady = Function.update p.pendingReady x.endpointId none := by rw [← hp']
    have hnotified := Peer.notified_set (y := { x with notified := true }) hnodup hx rfl hnotifiers
    refine ⟨rfl, h.update x.endpointId ?_ (fun id hid ↦ ?_) ?_, ?_⟩
    · intro id n' hn
      rw [hpending'] at hn
      by_cases hid : id = x.endpointId
      · subst hid
        rw [Function.update_self] at hn
        cases hn
      · rw [Function.update_of_ne hid] at hn
        rw [hnotifiers]
        exact place_set hx rfl (h.place id n' hn)
    · rw [hnotified, hpending', Function.update_of_ne hid, Function.update_of_ne hid]
      exact ⟨rfl, rfl, hothers id hid, rfl⟩
    · change Readiness _ _ _ (q.calledReady _)
      rw [hnotified, hpending', Function.update_self, Function.update_self, hcalled, hzero]
      exact .notified
    · rw [Peer.calledReady_set (y := { x with notified := true }) hnodup hx rfl hnotifiers]
      exact (congrArg _ (Peer.calledReady_of_get hnodup hx).symm).trans
        (Function.update_eq_self _ _)

end Readies

end Kymux.Control
