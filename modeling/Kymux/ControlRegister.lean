import Kymux.Control
import Kymux.Lib.Keyed

namespace Kymux.Control

open Keyed Machine

variable {p p' q q' : Peer} {endpointId : UInt16} {call : ℕ} {c : Call} {phase : Phase}
  {msg : ControlMsg}

namespace Peer

def phaseOf (p : Peer) (endpointId : UInt16) : Option Phase :=
  (lookup Call.endpointId p.calls endpointId).map Call.phase

def requests (p : Peer) (endpointId : UInt16) : ℕ := p.path.count (.registerEndpoint endpointId)

def answers (p : Peer) (endpointId : UInt16) : ℕ := p.path.count (.endpointRegistered endpointId)

theorem path_send (p : Peer) (msg : ControlMsg) : (p.send msg).path = p.path ++ [msg] := by
  simp [path, send]

theorem setPhase_of_get (h : p.calls[call]? = some c) (phase : Phase) :
    p.setPhase call phase = { p with calls := p.calls.set call { c with phase } } := by
  rw [setPhase, h]

theorem setPhase_eq (p : Peer) (call : ℕ) (phase : Phase) :
    ∃ calls, p.setPhase call phase = { p with calls } := by
  unfold setPhase
  split <;> exact ⟨_, rfl⟩

theorem registerEndpoint_of_none (hack : p.pendingRegisterAck endpointId = none)
    (h : p.calls[call]? = some c) :
    p.registerEndpoint call endpointId =
      { p with
        calls := p.calls.set call { c with phase := .pending }
        pendingRegisterAck := Function.update p.pendingRegisterAck endpointId (some call) } := by
  unfold registerEndpoint
  rw [hack]
  simp only [setPhase_of_get h]

theorem phaseOf_set (hp : (p.calls.map Call.endpointId).Nodup) (h : p.calls[call]? = some c)
    (hp' : p'.calls = p.calls.set call { c with phase }) :
    p'.phaseOf = Function.update p.phaseOf c.endpointId (some phase) := by
  funext id
  rw [phaseOf, hp', lookup_set (y := { c with phase }) hp h rfl]
  by_cases hid : id = c.endpointId
  · subst hid
    simp
  · rw [Function.update_of_ne hid, Function.update_of_ne hid, phaseOf]

theorem phaseOf_of_get (hp : (p.calls.map Call.endpointId).Nodup) (h : p.calls[call]? = some c) :
    p.phaseOf c.endpointId = some c.phase := by
  rw [phaseOf, lookup_of_mem hp (List.mem_of_getElem? h)]
  rfl

theorem requests_send (p : Peer) (msg : ControlMsg) (id : UInt16) :
    (p.send msg).requests id = p.requests id + if msg = .registerEndpoint id then 1 else 0 := by
  rw [requests, path_send, List.count_append, List.count_singleton]
  simp [requests]

theorem answers_send (p : Peer) (msg : ControlMsg) (id : UInt16) :
    (p.send msg).answers id = p.answers id + if msg = .endpointRegistered id then 1 else 0 := by
  rw [answers, path_send, List.count_append, List.count_singleton]
  simp [answers]

theorem requests_receive {stream : List ControlMsg} (h : q.stream = msg :: stream) (id : UInt16) :
    q.requests id =
      { q with stream }.requests id + if msg = .registerEndpoint id then 1 else 0 := by
  simp only [requests, path, h, List.cons_append, List.count_cons]
  simp

theorem answers_receive {stream : List ControlMsg} (h : q.stream = msg :: stream) (id : UInt16) :
    q.answers id =
      { q with stream }.answers id + if msg = .endpointRegistered id then 1 else 0 := by
  simp only [answers, path, h, List.cons_append, List.count_cons]
  simp

end Peer

/-- How far the registration of one endpoint has come: what the registering side has of it,
the request or the answer that is on its way, and whether the other side has it. -/
inductive Stage : Option Phase → Option ℕ → ℕ → ℕ → Bool → Prop
  | unknown : Stage none none 0 0 false
  | hasId : Stage (some .hasId) none 0 0 false
  | hasNotifier : Stage (some .hasNotifier) none 0 0 false
  | failed {e} : Stage (some (.failed e)) none 0 0 false
  | pending {n} : Stage (some .pending) (some n) 0 0 false
  | requested {n} : Stage (some .waiting) (some n) 1 0 false
  | answered {n} : Stage (some .waiting) (some n) 0 1 true
  | registered : Stage (some .registered) none 0 0 true

namespace Stage

variable {phase : Option Phase} {ack : Option ℕ} {requests answers : ℕ} {connect : Bool}

theorem idle (h : Stage phase ack requests answers connect)
    (hphase : phase = none ∨ phase = some .hasId ∨ phase = some .hasNotifier) :
    ack = none ∧ requests = 0 ∧ answers = 0 ∧ connect = false := by
  cases h with
  | unknown | hasId | hasNotifier => exact ⟨rfl, rfl, rfl, rfl⟩
  | failed | pending | requested | answered | registered => simp at hphase

theorem of_pending (h : Stage (some .pending) ack requests answers connect) :
    (∃ n, ack = some n) ∧ requests = 0 ∧ answers = 0 ∧ connect = false := by
  cases h
  exact ⟨⟨_, rfl⟩, rfl, rfl, rfl⟩

theorem of_request (h : Stage phase ack requests answers connect) (hpos : 0 < requests) :
    phase = some .waiting ∧ (∃ n, ack = some n) ∧ requests = 1 ∧ answers = 0 ∧ connect = false := by
  cases h with
  | requested => exact ⟨rfl, ⟨_, rfl⟩, rfl, rfl, rfl⟩
  | _ => simp at hpos

theorem of_answer (h : Stage phase ack requests answers connect) (hpos : 0 < answers) :
    phase = some .waiting ∧ (∃ n, ack = some n) ∧ requests = 0 ∧ answers = 1 ∧ connect = true := by
  cases h with
  | answered => exact ⟨rfl, ⟨_, rfl⟩, rfl, rfl, rfl⟩
  | _ => simp at hpos

theorem of_registered (h : Stage (some .registered) ack requests answers connect) :
    connect = true := by
  cases h
  rfl

theorem not_waiting (h : Stage (some .waiting) ack requests answers connect)
    (hrequests : requests = 0) (hanswers : answers = 0) : False := by
  cases h with
  | requested => cases hrequests
  | answered => cases hanswers

end Stage

structure AskAlike (p p' : Peer) : Prop where
  calls : p'.calls = p.calls
  pendingRegisterAck : p'.pendingRegisterAck = p.pendingRegisterAck
  requests : p'.requests = p.requests

structure AnswerAlike (p p' : Peer) : Prop where
  pendingConnect : p'.pendingConnect = p.pendingConnect
  answers : p'.answers = p.answers

structure Registers (p q : Peer) : Prop where
  nodup : (p.calls.map Call.endpointId).Nodup
  place : ∀ endpointId call, p.pendingRegisterAck endpointId = some call →
    ∃ c, p.calls[call]? = some c ∧ c.endpointId = endpointId
  stage : ∀ endpointId, Stage (p.phaseOf endpointId) (p.pendingRegisterAck endpointId)
    (p.requests endpointId) (q.answers endpointId) (decide (endpointId ∈ q.pendingConnect))

namespace Registers

theorem start (i j : UInt16) : Registers (.start i) (.start j) where
  nodup := .nil
  place _ _ h := by cases h
  stage _ := .unknown

theorem congr (h : Registers p q) (hp : AskAlike p p') (hq : AnswerAlike q q') :
    Registers p' q' where
  nodup := hp.calls ▸ h.nodup
  place := by rw [hp.calls, hp.pendingRegisterAck]; exact h.place
  stage endpointId := by
    rw [Peer.phaseOf, hp.calls, hp.pendingRegisterAck, hp.requests, hq.answers, hq.pendingConnect]
    exact h.stage endpointId

/-- The registration of one endpoint goes on, and the others stay where they are. -/
theorem update (k : UInt16) (h : Registers p q)
    (hkeys : p'.calls.map Call.endpointId = p.calls.map Call.endpointId)
    (hplace : ∀ id n, p'.pendingRegisterAck id = some n → p.pendingRegisterAck id = some n ∨
      ∃ c, p.calls[n]? = some c ∧ c.endpointId = id)
    (hother : ∀ id, id ≠ k → p'.phaseOf id = p.phaseOf id ∧
      p'.pendingRegisterAck id = p.pendingRegisterAck id ∧ p'.requests id = p.requests id ∧
      q'.answers id = q.answers id ∧ (id ∈ q'.pendingConnect ↔ id ∈ q.pendingConnect))
    (hthis : Stage (p'.phaseOf k) (p'.pendingRegisterAck k) (p'.requests k) (q'.answers k)
      (decide (k ∈ q'.pendingConnect))) : Registers p' q' := by
  refine ⟨hkeys ▸ h.nodup, ?_, fun id ↦ ?_⟩
  · intro id n hn
    have hold : ∃ d, p.calls[n]? = some d ∧ d.endpointId = id :=
      (hplace id n hn).elim (h.place id n) (fun h ↦ h)
    obtain ⟨d, hd, rfl⟩ := hold
    have hid := congrArg (·[n]?) hkeys
    simp only [List.getElem?_map, hd, Option.map_some] at hid
    obtain ⟨d', hd', hkey⟩ := Option.map_eq_some_iff.mp hid
    exact ⟨d', hd', hkey⟩
  · by_cases hid : id = k
    · subst hid
      exact hthis
    · obtain ⟨hphase, hack, hreq, hans, hconn⟩ := hother id hid
      rw [hphase, hack, hreq, hans, decide_eq_decide.mpr hconn]
      exact h.stage id

theorem advance (phase : Phase) (h : Registers p q) (hc : p.calls[call]? = some c)
    (hcalls : p'.calls = p.calls.set call { c with phase })
    (hplace : ∀ id n, p'.pendingRegisterAck id = some n → p.pendingRegisterAck id = some n ∨
      ∃ c, p.calls[n]? = some c ∧ c.endpointId = id)
    (hother : ∀ id, id ≠ c.endpointId → p'.pendingRegisterAck id = p.pendingRegisterAck id ∧
      p'.requests id = p.requests id ∧ q'.answers id = q.answers id ∧
      (id ∈ q'.pendingConnect ↔ id ∈ q.pendingConnect))
    (hthis : Stage (some c.phase) (p.pendingRegisterAck c.endpointId) (p.requests c.endpointId)
        (q.answers c.endpointId) (decide (c.endpointId ∈ q.pendingConnect)) →
      Stage (some phase) (p'.pendingRegisterAck c.endpointId) (p'.requests c.endpointId)
        (q'.answers c.endpointId) (decide (c.endpointId ∈ q'.pendingConnect))) :
    Registers p' q' := by
  have hphase := Peer.phaseOf_set h.nodup hc hcalls
  have hstage := h.stage c.endpointId
  rw [Peer.phaseOf_of_get h.nodup hc] at hstage
  refine h.update c.endpointId ?_ hplace (fun id hid ↦ ⟨?_, hother id hid⟩) ?_
  · rw [hcalls]
    exact map_set hc rfl
  · rw [hphase, Function.update_of_ne hid]
  · rw [hphase, Function.update_self]
    exact hthis hstage

theorem getEndpointId (h : Registers p q)
    (hfresh : p.nextEndpointIndex ∉ p.calls.map Call.endpointId) : Registers p.getEndpointId q := by
  refine ⟨?_, ?_, fun id ↦ ?_⟩
  · rw [Peer.getEndpointId, List.map_append, List.nodup_append]
    refine ⟨h.nodup, by simp, ?_⟩
    intro a ha b hb hab
    obtain rfl : b = p.nextEndpointIndex := by simpa using hb
    exact hfresh (hab ▸ ha)
  · intro id n hn
    obtain ⟨c, hc, hid⟩ := h.place id n hn
    exact ⟨c, (List.getElem?_append_left (List.getElem?_eq_some_iff.mp hc).1).trans hc, hid⟩
  · have hstage := h.stage id
    have hcalls : lookup Call.endpointId p.getEndpointId.calls =
        Function.update (lookup Call.endpointId p.calls) p.nextEndpointIndex
          (some ⟨p.nextEndpointIndex, .hasId⟩) := lookup_concat hfresh
    rw [Peer.phaseOf, hcalls]
    by_cases hid : id = p.nextEndpointIndex
    · subst hid
      have hnone : p.phaseOf p.nextEndpointIndex = none := by
        rw [Peer.phaseOf, lookup_eq_none.mpr hfresh]
        rfl
      obtain ⟨hack, hreq, hans, hconn⟩ := hstage.idle (.inl hnone)
      rw [Function.update_self]
      change Stage _ (p.pendingRegisterAck _) (p.requests _) (q.answers _) _
      rw [hack, hreq, hans, hconn]
      exact .hasId
    · rw [Function.update_of_ne hid]
      exact hstage

theorem setPhase (h : Registers p q) (hc : p.calls[call]? = some c) (hphase : c.phase = .hasId)
    (hnew : phase = .hasNotifier ∨ ∃ e, phase = .failed e) :
    Registers (p.setPhase call phase) q := by
  rw [Peer.setPhase_of_get hc]
  refine h.advance phase hc rfl (fun _ _ ↦ .inl) (fun _ _ ↦ ⟨rfl, rfl, rfl, .rfl⟩) (fun hstage ↦ ?_)
  obtain ⟨hack, hreq, hans, hconn⟩ := hstage.idle (.inr (.inl (congrArg some hphase)))
  change Stage _ (p.pendingRegisterAck _) (p.requests _) (q.answers _) _
  rw [hack, hreq, hans, hconn]
  obtain rfl | ⟨e, rfl⟩ := hnew
  · exact .hasNotifier
  · exact .failed

theorem ack_of_hasNotifier (h : Registers p q) (hc : p.calls[call]? = some c)
    (hphase : c.phase = .hasNotifier) : p.pendingRegisterAck c.endpointId = none := by
  have hstage := h.stage c.endpointId
  rw [Peer.phaseOf_of_get h.nodup hc] at hstage
  exact (hstage.idle (.inr (.inr (congrArg some hphase)))).1

theorem registerEndpoint (h : Registers p q) (hc : p.calls[call]? = some c)
    (hphase : c.phase = .hasNotifier) : Registers (p.registerEndpoint call c.endpointId) q := by
  have hstage := h.stage c.endpointId
  rw [Peer.phaseOf_of_get h.nodup hc] at hstage
  obtain ⟨hack, hreq, hans, hconn⟩ := hstage.idle (.inr (.inr (congrArg some hphase)))
  rw [Peer.registerEndpoint_of_none hack hc]
  refine h.advance .pending hc rfl ?_ ?_ (fun _ ↦ ?_)
  · intro id n hn
    dsimp only at hn
    by_cases hid : id = c.endpointId
    · subst hid
      rw [Function.update_self] at hn
      cases hn
      exact .inr ⟨c, hc, rfl⟩
    · rw [Function.update_of_ne hid] at hn
      exact .inl hn
  · exact fun id hid ↦ ⟨Function.update_of_ne hid _ _, rfl, rfl, .rfl⟩
  · change Stage _ (Function.update p.pendingRegisterAck _ _ _) (p.requests _) (q.answers _) _
    rw [Function.update_self, hreq, hans, hconn]
    exact .pending

theorem sendRequest (h : Registers p q) (hc : p.calls[call]? = some c)
    (hphase : c.phase = .pending) :
    Registers ((p.setPhase call .waiting).send (.registerEndpoint c.endpointId)) q := by
  have hreqs : ∀ id,
    ((p.setPhase call .waiting).send (.registerEndpoint c.endpointId)).requests id =
      p.requests id + if c.endpointId = id then 1 else 0 := by
    intro id
    rw [Peer.requests_send, Peer.setPhase_of_get hc]
    simp [Peer.requests, Peer.path]
  refine h.advance .waiting hc ?_ ?_ ?_ (fun hstage ↦ ?_)
  · rw [Peer.setPhase_of_get hc]
    rfl
  · rw [Peer.setPhase_of_get hc]
    exact fun _ _ ↦ .inl
  · intro id hid
    rw [hreqs, if_neg (Ne.symm hid), Peer.setPhase_of_get hc]
    exact ⟨rfl, rfl, rfl, .rfl⟩
  · rw [hphase] at hstage
    obtain ⟨⟨n, hack⟩, hreq, hans, hconn⟩ := hstage.of_pending
    rw [hreqs, if_pos rfl, hreq, hans, hconn, Peer.setPhase_of_get hc]
    change Stage _ (p.pendingRegisterAck _) _ _ _
    rw [hack]
    exact .requested

/-- The other side has no endpoint of this id yet, so it answers. -/
theorem not_mem_pendingConnect {stream : List ControlMsg} (h : Registers p q)
    (hstream : p.stream = .registerEndpoint endpointId :: stream) :
    endpointId ∉ q.pendingConnect := by
  have hpos : 0 < p.requests endpointId := by
    rw [Peer.requests_receive hstream]
    simp
  obtain ⟨-, -, -, -, hconn⟩ := (h.stage endpointId).of_request hpos
  simpa using hconn

theorem handleMsg_registerEndpoint (h : endpointId ∉ q.pendingConnect) :
    q.handleMsg (.registerEndpoint endpointId) = (.ok (),
      { q with pendingConnect := insert endpointId q.pendingConnect }.send
        (.endpointRegistered endpointId)) := if_neg h

theorem receiveRequest {stream : List ControlMsg} (h : Registers p q)
    (hstream : p.stream = .registerEndpoint endpointId :: stream) :
    Registers { p with stream } (q.handleMsg (.registerEndpoint endpointId)).2 := by
  have hreqs := Peer.requests_receive hstream
  have hpos : 0 < p.requests endpointId := by
    rw [hreqs]
    simp
  rw [handleMsg_registerEndpoint (h.not_mem_pendingConnect hstream)]
  obtain ⟨hphase, ⟨n, hack⟩, hreq, hans, -⟩ := (h.stage endpointId).of_request hpos
  have hans' : ∀ id, ({ q with pendingConnect := insert endpointId q.pendingConnect }.send
      (.endpointRegistered endpointId)).answers id = q.answers id +
        if endpointId = id then 1 else 0 := by
    intro id
    rw [Peer.answers_send]
    simp [Peer.answers, Peer.path]
  refine h.update endpointId rfl (fun _ _ ↦ .inl) (fun id hid ↦ ⟨rfl, rfl, ?_, ?_, ?_⟩) ?_
  · rw [hreqs id, if_neg (by simpa using Ne.symm hid), Nat.add_zero]
  · rw [hans', if_neg (Ne.symm hid), Nat.add_zero]
  · simp [Peer.send, hid]
  · have hreq' : { p with stream }.requests endpointId = 0 := by
      have := hreqs endpointId
      rw [hreq, if_pos rfl] at this
      omega
    change Stage (p.phaseOf _) (p.pendingRegisterAck _) _ _ _
    rw [hphase, hack, hreq', hans', hans, if_pos rfl]
    simp only [Peer.send, Finset.mem_insert, true_or, decide_true]
    exact .answered

theorem handleMsg_endpointRegistered (hack : p.pendingRegisterAck endpointId = some call)
    (hc : p.calls[call]? = some c) :
    p.handleMsg (.endpointRegistered endpointId) = (.ok (),
      { p with
        calls := p.calls.set call { c with phase := .registered }
        pendingRegisterAck := Function.update p.pendingRegisterAck endpointId none }) := by
  simp only [Peer.handleMsg]
  rw [hack]
  simp only [Peer.setPhase_of_get hc]

theorem call_of_answer {stream : List ControlMsg} (h : Registers p q)
    (hstream : q.stream = .endpointRegistered endpointId :: stream) :
    ∃ call c, p.pendingRegisterAck endpointId = some call ∧ p.calls[call]? = some c ∧
      c.endpointId = endpointId ∧ c.phase = .waiting := by
  have hpos : 0 < q.answers endpointId := by
    rw [Peer.answers_receive hstream]
    simp
  obtain ⟨hphase, ⟨call, hack⟩, -⟩ := (h.stage endpointId).of_answer hpos
  obtain ⟨c, hc, rfl⟩ := h.place endpointId call hack
  rw [Peer.phaseOf_of_get h.nodup hc] at hphase
  exact ⟨call, c, hack, hc, rfl, Option.some.inj hphase⟩

theorem receiveAnswer {stream : List ControlMsg} (h : Registers p q)
    (hstream : q.stream = .endpointRegistered endpointId :: stream) :
    Registers (p.handleMsg (.endpointRegistered endpointId)).2 { q with stream } := by
  obtain ⟨call, c, hack, hc, rfl, hphase⟩ := h.call_of_answer hstream
  have hanss := Peer.answers_receive hstream
  rw [handleMsg_endpointRegistered hack hc]
  refine h.advance .registered hc rfl ?_ ?_ (fun hstage ↦ ?_)
  · intro id n hn
    dsimp only at hn
    by_cases hid : id = c.endpointId
    · subst hid
      rw [Function.update_self] at hn
      cases hn
    · rw [Function.update_of_ne hid] at hn
      exact .inl hn
  · intro id hid
    refine ⟨Function.update_of_ne hid _ _, rfl, ?_, .rfl⟩
    rw [hanss id, if_neg (by simpa using Ne.symm hid), Nat.add_zero]
  · have hthis := hanss c.endpointId
    rw [if_pos rfl] at hthis
    obtain ⟨-, -, hreq, hans, hconn⟩ := hstage.of_answer (by omega)
    change Stage _ (Function.update p.pendingRegisterAck _ _ _) (p.requests _) _
      (decide (_ ∈ q.pendingConnect))
    rw [Function.update_self, hreq, hconn,
      show ({ q with stream } : Peer).answers c.endpointId = 0 by omega]
    exact .registered

end Registers

namespace Peer

theorem registerReadyNotifier_snd (p : Peer) (endpointId : UInt16) :
    ∃ pendingReady notifiers,
      (p.registerReadyNotifier endpointId).2 = { p with pendingReady, notifiers } := by
  unfold registerReadyNotifier
  split <;> exact ⟨_, _, rfl⟩

theorem notify_snd (p : Peer) (notifier : ℕ) :
    ∃ notifiers, (p.notify notifier).2 = { p with notifiers } := by
  unfold notify
  split
  · exact ⟨_, rfl⟩
  · split <;> exact ⟨_, rfl⟩

theorem handleMsg_ready_snd (p : Peer) (endpointId : UInt16) :
    ∃ pendingReady notifiers,
      (p.handleMsg (.ready endpointId)).2 = { p with pendingReady, notifiers } := by
  simp only [handleMsg]
  split
  · next notifier _ =>
    obtain ⟨notifiers, hnotify⟩ := notify_snd { p with
      pendingReady := Function.update p.pendingReady endpointId none } notifier
    exact ⟨_, notifiers, hnotify⟩
  · exact ⟨_, _, rfl⟩
  · split <;> exact ⟨_, _, rfl⟩

theorem ready_some {notifier : ℕ} (h : p.ready notifier = some p') :
    ∃ x, p.notifiers[notifier]? = some x ∧ x.called = false ∧
      p' = { p with notifiers := p.notifiers.set notifier { x with called := true } }.send
        (.ready x.endpointId) := by
  unfold ready at h
  split at h
  · cases h
  · next x hx =>
    split at h
    · cases h
    · next hcalled =>
      cases h
      exact ⟨x, hx, by simpa using fun h ↦ hcalled (.inl h), rfl⟩

theorem drop_some {notifier : ℕ} (h : p.drop notifier = some p') :
    ∃ notifiers, p' = { p with notifiers } := by
  unfold drop at h
  split at h
  · cases h
  · split at h
    · cases h
    · cases h
      exact ⟨_, rfl⟩

theorem path_transmit (h : p.transmit = some p') :
    ∃ queue stream, p' = { p with queue, stream } ∧ p'.path = p.path := by
  unfold transmit at h
  split at h
  · cases h
  · next hqueue =>
    cases h
    exact ⟨_, _, rfl, by simp [path, hqueue]⟩

theorem advance_some {call : ℕ} {phase : Phase} {f : UInt16 → Peer}
    (h : p.advance call phase f = some p') :
    ∃ c, p.calls[call]? = some c ∧ c.phase = phase ∧ p' = f c.endpointId := by
  unfold advance at h
  split at h
  · cases h
  · next c hc =>
    split at h
    · next hphase => cases h; exact ⟨c, hc, hphase, rfl⟩
    · cases h

theorem map_some {r : Option Peer} (h : r.map (·, q) = some (p', q')) : r = some p' ∧ q' = q := by
  obtain ⟨x, hx, hpair⟩ := Option.map_eq_some_iff.mp h
  cases hpair
  exact ⟨hx, rfl⟩

theorem callNotifier_of_get (hc : p.calls[call]? = some c) :
    ∃ pendingReady notifiers phase, (phase = .hasNotifier ∨ ∃ e, phase = .failed e) ∧
      p.callNotifier call c.endpointId =
      { p.setPhase call phase with pendingReady, notifiers } := by
  obtain ⟨pendingReady, notifiers, hp⟩ := p.registerReadyNotifier_snd c.endpointId
  rw [callNotifier, ← Prod.mk.eta (p := p.registerReadyNotifier c.endpointId), hp]
  cases (p.registerReadyNotifier c.endpointId).1 with
  | ok =>
    refine ⟨pendingReady, notifiers, .hasNotifier, .inl rfl, ?_⟩
    simp only [setPhase, hc]
  | error e =>
    refine ⟨pendingReady, notifiers, .failed e, .inr ⟨e, rfl⟩, ?_⟩
    simp only [setPhase, hc]

theorem receive_some (h : p.receive q = some (p', q')) : ∃ msg stream,
    q.stream = msg :: stream ∧ p' = (p.handleMsg msg).2 ∧ q' = { q with stream } := by
  unfold receive at h
  split at h
  · cases h
  · next hstream =>
    split at h
    · cases h
    · cases h
      exact ⟨_, _, hstream, rfl, rfl⟩

end Peer

theorem Registers.congr_path (h : Registers p q) (h' : Registers q p) (hcalls : p'.calls = p.calls)
    (hack : p'.pendingRegisterAck = p.pendingRegisterAck)
    (hconnect : p'.pendingConnect = p.pendingConnect)
    (hpath : ∀ id, p'.requests id = p.requests id ∧ p'.answers id = p.answers id) :
    Registers p' q ∧ Registers q p' :=
  ⟨h.congr ⟨hcalls, hack, funext fun id ↦ (hpath id).1⟩ ⟨rfl, rfl⟩,
    h'.congr ⟨rfl, rfl, rfl⟩ ⟨hconnect, funext fun id ↦ (hpath id).2⟩⟩

theorem Registers.receive (h : Registers p q) (h' : Registers q p)
    (hact : p.receive q = some (p', q')) : Registers p' q' ∧ Registers q' p' := by
  obtain ⟨msg, stream, hstream, rfl, rfl⟩ := Peer.receive_some hact
  have hrequests := fun id ↦ Peer.requests_receive hstream id
  have hanswers := fun id ↦ Peer.answers_receive hstream id
  cases msg with
  | registerEndpoint endpointId =>
    refine ⟨h.congr ?_ ⟨rfl, funext fun id ↦ (hanswers id).symm⟩, h'.receiveRequest hstream⟩
    rw [handleMsg_registerEndpoint (h'.not_mem_pendingConnect hstream)]
    exact ⟨rfl, rfl, funext fun id ↦ Peer.requests_send _ _ id⟩
  | endpointRegistered endpointId =>
    obtain ⟨call, c, hack, hc, -⟩ := h.call_of_answer hstream
    refine ⟨h.receiveAnswer hstream, h'.congr ⟨rfl, rfl, funext fun id ↦ (hrequests id).symm⟩ ?_⟩
    rw [handleMsg_endpointRegistered hack hc]
    exact ⟨rfl, rfl⟩
  | ready endpointId =>
    obtain ⟨pendingReady, notifiers, hp⟩ := p.handleMsg_ready_snd endpointId
    rw [hp]
    exact ⟨h.congr ⟨rfl, rfl, rfl⟩ ⟨rfl, funext fun id ↦ (hanswers id).symm⟩,
      h'.congr ⟨rfl, rfl, funext fun id ↦ (hrequests id).symm⟩ ⟨rfl, rfl⟩⟩

/-- One step keeps the registrations of both sides, if an id that is handed out is new. -/
theorem Registers.act {a : Action} (h : Registers p q) (h' : Registers q p)
    (hfresh : a = .getEndpointId → p.nextEndpointIndex ∉ p.calls.map Call.endpointId)
    (hact : p.act q a = some (p', q')) : Registers p' q' ∧ Registers q' p' := by
  cases a with
  | getEndpointId =>
    cases hact
    exact ⟨h.getEndpointId (hfresh rfl), h'.congr ⟨rfl, rfl, rfl⟩ ⟨rfl, rfl⟩⟩
  | callNotifier call =>
    obtain ⟨hadvance, rfl⟩ := Peer.map_some hact
    obtain ⟨c, hc, hphase, rfl⟩ := Peer.advance_some hadvance
    obtain ⟨pendingReady, notifiers, phase, hnew, hp⟩ := Peer.callNotifier_of_get hc
    rw [hp]
    exact ⟨(h.setPhase hc hphase hnew).congr ⟨rfl, rfl, rfl⟩ ⟨rfl, rfl⟩,
      h'.congr ⟨rfl, rfl, rfl⟩ (by rw [Peer.setPhase_of_get hc]; exact ⟨rfl, rfl⟩)⟩
  | callRegister call =>
    obtain ⟨hadvance, rfl⟩ := Peer.map_some hact
    obtain ⟨c, hc, hphase, rfl⟩ := Peer.advance_some hadvance
    refine ⟨h.registerEndpoint hc hphase, h'.congr ⟨rfl, rfl, rfl⟩ ?_⟩
    rw [Peer.registerEndpoint_of_none (h.ack_of_hasNotifier hc hphase) hc]
    exact ⟨rfl, rfl⟩
  | callSend call =>
    obtain ⟨hadvance, rfl⟩ := Peer.map_some hact
    obtain ⟨c, hc, hphase, rfl⟩ := Peer.advance_some hadvance
    refine ⟨h.sendRequest hc hphase, h'.congr ⟨rfl, rfl, rfl⟩ ?_⟩
    rw [Peer.setPhase_of_get hc]
    exact ⟨rfl, funext fun id ↦ Peer.answers_send _ _ id⟩
  | connect endpointId =>
    cases hact
    obtain ⟨pendingReady, notifiers, hp⟩ := p.registerReadyNotifier_snd endpointId
    rw [hp]
    exact h.congr_path h' rfl rfl rfl (fun _ ↦ ⟨rfl, rfl⟩)
  | ready notifier =>
    obtain ⟨hready, rfl⟩ := Peer.map_some hact
    obtain ⟨x, -, -, rfl⟩ := Peer.ready_some hready
    exact h.congr_path h' rfl rfl rfl
      (fun id ↦ ⟨Peer.requests_send _ _ id, Peer.answers_send _ _ id⟩)
  | drop notifier =>
    obtain ⟨hdrop, rfl⟩ := Peer.map_some hact
    obtain ⟨notifiers, rfl⟩ := Peer.drop_some hdrop
    exact h.congr_path h' rfl rfl rfl (fun _ ↦ ⟨rfl, rfl⟩)
  | transmit =>
    obtain ⟨htransmit, rfl⟩ := Peer.map_some hact
    obtain ⟨queue, stream, rfl, hpath⟩ := Peer.path_transmit htransmit
    refine h.congr_path h' rfl rfl rfl (fun id ↦ ?_)
    exact ⟨congrArg (List.count _) hpath, congrArg (List.count _) hpath⟩
  | receive => exact h.receive h' hact

end Kymux.Control
