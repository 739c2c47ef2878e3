import Kymux.ControlIds

namespace Kymux.Control

open Machine

variable {p q : Peer} {i : UInt16} {s : System} {as : List (Side × Action)} {n k : ℕ}

namespace Peer

structure Acknowledged (p q : Peer) : Prop where
  accepted : ∀ endpointId stream, p.stream = .registerEndpoint endpointId :: stream →
    (q.handleMsg (.registerEndpoint endpointId)).1 = .ok () ∧
      .endpointRegistered endpointId ∈ (q.handleMsg (.registerEndpoint endpointId)).2.queue
  completed : p.path = [] → q.path = [] → (∀ c ∈ p.calls, c.phase ≠ .pending) →
    ∀ c ∈ p.calls, c.phase ≠ .waiting

theorem acknowledged_of_registers (h : Registers p q) : p.Acknowledged q where
  accepted endpointId stream hstream := by
    rw [Registers.handleMsg_registerEndpoint (h.not_mem_pendingConnect hstream)]
    exact ⟨rfl, by simp [send]⟩
  completed hp hq _ c hc hphase := by
    obtain ⟨call, hcall⟩ := List.getElem?_of_mem hc
    have hstage := h.stage c.endpointId
    rw [phaseOf_of_get h.nodup hcall, hphase, requests, answers, hp, hq] at hstage
    exact hstage.not_waiting List.count_nil List.count_nil

end Peer

namespace System

structure Acknowledged (s : System) : Prop where
  disjoint : s.server.ids.Disjoint s.client.ids
  server : s.server.Acknowledged s.client
  client : s.client.Acknowledged s.server

theorem acknowledged_of_joined (h : s.Joined) : s.Acknowledged :=
  ⟨h.numbered.disjoint h.numbered_other, Peer.acknowledged_of_registers h.registers,
    Peer.acknowledged_of_registers h.registers_other⟩

def request (call : ℕ) : List (Side × Action) :=
  [(.server, .getEndpointId), (.server, .callNotifier call), (.server, .callRegister call),
    (.server, .callSend call), (.server, .transmit)]

end System

namespace Peer

def requested (p : Peer) : Peer :=
  { p with
    nextEndpointIndex := p.nextEndpointIndex + 2
    calls := p.calls ++ [⟨p.nextEndpointIndex, .waiting⟩]
    notifiers := p.notifiers ++ [⟨p.nextEndpointIndex, false, false, false⟩]
    pendingRegisterAck :=
      Function.update p.pendingRegisterAck p.nextEndpointIndex (some p.calls.length)
    pendingReady :=
      Function.update p.pendingReady p.nextEndpointIndex (some (.awaitingRemote p.notifiers.length))
    stream := [.registerEndpoint p.nextEndpointIndex] }

def answered (p : Peer) : Peer :=
  { p.requested with
    calls := p.calls ++ [⟨p.nextEndpointIndex, .registered⟩]
    pendingRegisterAck := Function.update p.pendingRegisterAck p.nextEndpointIndex none
    stream := [] }

end Peer

namespace System

theorem run_request (hqueue : p.queue = []) (hstream : p.stream = [])
    (hready : p.pendingReady p.nextEndpointIndex = none)
    (hack : p.pendingRegisterAck p.nextEndpointIndex = none) :
    run step ⟨p, q⟩ (request p.calls.length) = some ⟨p.requested, q⟩ := by
  simp [request, run, step, Peer.act, Peer.getEndpointId, Peer.advance, Peer.callNotifier,
    Peer.registerReadyNotifier, hready, Peer.setPhase, Peer.registerEndpoint, hack, Peer.send,
    Peer.transmit, hqueue, hstream, Peer.requested]

theorem run_accept (hqueue : p.queue = []) (hstream : q.stream = []) (hqueue' : q.queue = [])
    (hconnect : p.nextEndpointIndex ∉ q.pendingConnect) :
    run step ⟨p.requested, q⟩ [(.client, .receive), (.client, .transmit), (.server, .receive)] =
      some ⟨p.answered,
        { q with pendingConnect := insert p.nextEndpointIndex q.pendingConnect }⟩ := by
  simp [run, step, Peer.act, Peer.receive, Peer.requested, Peer.blocked, hqueue', Peer.handleMsg,
    hconnect, Peer.send, Peer.transmit, hstream, hqueue, Peer.setPhase, Peer.answered]

theorem run_refuse (hqueue : q.queue = []) (hconnect : p.nextEndpointIndex ∈ q.pendingConnect) :
    run step ⟨p.requested, q⟩ [(.client, .receive)] =
      some ⟨{ p.requested with stream := [] }, q⟩ := by
  simp [run, step, Peer.act, Peer.receive, Peer.requested, Peer.blocked, hqueue, Peer.handleMsg,
    hconnect]

end System

structure Served (k : ℕ) (p q : Peer) : Prop where
  next : p.nextEndpointIndex = UInt16.ofNat (2 * k)
  length : p.calls.length = k
  registered : ∀ c ∈ p.calls, c.phase = .registered
  ack : ∀ id, p.pendingRegisterAck id = none
  ready : ∀ id, 2 * k ≤ id.toNat → p.pendingReady id = none
  ready_zero : 0 < k → ∃ notifier, p.pendingReady 0 = some (.awaitingRemote notifier)
  queue : p.queue = []
  stream : p.stream = []
  connect : ∀ id ∈ q.pendingConnect, id.toNat < 2 * k
  connect_zero : 0 < k → 0 ∈ q.pendingConnect
  client : q = { Peer.start System.initiatorClient with pendingConnect := q.pendingConnect }

namespace Served

theorem start : Served 0 (.start System.initiatorServer) (.start System.initiatorClient) where
  next := rfl
  length := rfl
  registered _ hc := by cases hc
  ack _ := rfl
  ready _ _ := rfl
  ready_zero h := by cases h
  queue := rfl
  stream := rfl
  connect _ hid := by cases hid
  connect_zero h := by cases h
  client := rfl

theorem toNat_next (h : Served k p q) (hk : k < 2 ^ 15) : p.nextEndpointIndex.toNat = 2 * k := by
  rw [h.next, UInt16.toNat_ofNat']
  omega

theorem answered (h : Served k p q) (hk : k < 2 ^ 15) : Served (k + 1) p.answered
    { q with pendingConnect := insert p.nextEndpointIndex q.pendingConnect } := by
  have hnext := h.toNat_next hk
  have hzero : k = 0 → p.nextEndpointIndex = 0 := by
    rintro rfl
    exact h.next
  have hne : ∀ id, id.toNat ≠ 2 * k → id ≠ p.nextEndpointIndex := by
    rintro id hid rfl
    exact hid hnext
  constructor
  case next =>
    change p.nextEndpointIndex + 2 = _
    rw [h.next, Nat.mul_add, UInt16.ofNat_add]
    rfl
  case length => simp [Peer.answered, h.length]
  case registered =>
    intro c hc
    obtain hc | hc := List.mem_append.mp hc
    · exact h.registered c hc
    · obtain rfl := List.mem_singleton.mp hc
      rfl
  case ack =>
    intro id
    by_cases hid : id = p.nextEndpointIndex
    · exact (congrArg _ hid).trans (Function.update_self _ _ _)
    · exact (Function.update_of_ne hid _ _).trans (h.ack id)
  case ready =>
    intro id hid
    exact (Function.update_of_ne (hne id (by omega)) _ _).trans (h.ready id (by omega))
  case ready_zero =>
    intro _
    by_cases hk0 : k = 0
    · exact ⟨_, (congrArg _ (hzero hk0).symm).trans (Function.update_self _ _ _)⟩
    · obtain ⟨notifier, hready⟩ := h.ready_zero (Nat.pos_of_ne_zero hk0)
      exact ⟨notifier, (Function.update_of_ne (hne 0 (by simpa using hk0)) _ _).trans hready⟩
  case queue => exact h.queue
  case stream => rfl
  case connect =>
    intro id hid
    obtain rfl | hid := Finset.mem_insert.mp hid
    · omega
    · have := h.connect id hid
      omega
  case connect_zero =>
    intro _
    by_cases hk0 : k = 0
    · exact Finset.mem_insert.mpr (.inl (hzero hk0).symm)
    · exact Finset.mem_insert_of_mem (h.connect_zero (Nat.pos_of_ne_zero hk0))
  case client => rw [h.client]

theorem run_round (h : Served k p q) (hk : k < 2 ^ 15) :
    ∃ as, run System.step ⟨p, q⟩ as = some ⟨p.answered,
      { q with pendingConnect := insert p.nextEndpointIndex q.pendingConnect }⟩ := by
  have hnext := h.toNat_next hk
  refine ⟨System.request p.calls.length ++
    [(.client, .receive), (.client, .transmit), (.server, .receive)], ?_⟩
  refine run_trans (System.run_request h.queue h.stream (h.ready _ hnext.ge) (h.ack _)) ?_
  refine System.run_accept h.queue ?_ ?_ (fun hmem ↦ absurd (h.connect _ hmem) hnext.not_lt)
  · rw [h.client]
    rfl
  · rw [h.client]
    rfl

theorem reached (hk : k ≤ 2 ^ 15) :
    ∃ as p q, run System.step System.start as = some ⟨p, q⟩ ∧ Served k p q := by
  induction k with
  | zero => exact ⟨[], _, _, rfl, start⟩
  | succ k ih =>
    obtain ⟨as, p, q, hrun, h⟩ := ih (by omega)
    obtain ⟨bs, hround⟩ := h.run_round hk
    exact ⟨as ++ bs, _, _, run_trans hrun hround, h.answered hk⟩

/-- The client connects to the endpoint with the id zero and is ready. -/
theorem run_ready (h : Served k p q) (hk : 0 < k) :
    ∃ notifiers q', run System.step ⟨p, q⟩
      [(.client, .connect 0), (.client, .ready 0), (.client, .transmit), (.server, .receive)] =
        some ⟨{ p with pendingReady := Function.update p.pendingReady 0 none, notifiers }, q'⟩ ∧
      q'.queue = [] ∧ q'.stream = [] ∧ q'.calls = [] ∧ 0 ∈ q'.pendingConnect := by
  obtain ⟨notifier, hready⟩ := h.ready_zero hk
  obtain ⟨notifiers, hnotify⟩ :=
    { p with pendingReady := Function.update p.pendingReady 0 none }.notify_snd notifier
  have hnotifiers : q.notifiers = [] := by rw [h.client]; rfl
  have hready' : q.pendingReady 0 = none := by rw [h.client]; rfl
  have hqueue : q.queue = [] := by rw [h.client]; rfl
  have hstream : q.stream = [] := by rw [h.client]; rfl
  have hcalls : q.calls = [] := by rw [h.client]; rfl
  have hmsg : (p.handleMsg (.ready 0)).2 =
      { p with pendingReady := Function.update p.pendingReady 0 none, notifiers } := by
    simp only [Peer.handleMsg, hready]
    exact hnotify
  have hblocked : p.blocked = false := by simp [Peer.blocked, h.queue]
  refine ⟨notifiers, { q with
    notifiers := [⟨0, true, false, false⟩]
    pendingReady := Function.update q.pendingReady 0 (some (.awaitingRemote 0)) }, ?_,
    hqueue, hstream, hcalls, h.connect_zero hk⟩
  simp [run, System.step, Peer.act, Peer.registerReadyNotifier, hready', hnotifiers, Peer.ready,
    Peer.send, hqueue, hstream, Peer.transmit, Peer.receive, hblocked, hmsg]

/-- Once all ids were handed out the first one comes again, and its registration is refused. -/
theorem exists_refused : ∃ as s, run System.step System.start as = some s ∧
    s.server.calls.length = 2 ^ 15 + 1 ∧ s.client.calls = [] ∧ s.server.path = [] ∧
      s.client.path = [] ∧ (∀ c ∈ s.server.calls, c.phase ≠ .pending) ∧
      ⟨0, .waiting⟩ ∈ s.server.calls := by
  obtain ⟨as, p, q, hrun, h⟩ := reached (k := 2 ^ 15) le_rfl
  obtain ⟨notifiers, q', hready, hqueue, hstream, hcalls, hzero⟩ := h.run_ready (by norm_num)
  have hnext : p.nextEndpointIndex = 0 := h.next
  have hrequest := System.run_request (q := q')
    (p := { p with pendingReady := Function.update p.pendingReady 0 none, notifiers })
    h.queue h.stream (by simp [hnext]) (h.ack _)
  have hrefuse := System.run_refuse (p := { p with
    pendingReady := Function.update p.pendingReady 0 none, notifiers }) hqueue (by rwa [hnext])
  refine ⟨_, _, run_trans hrun (run_trans hready (run_trans hrequest hrefuse)), ?_, hcalls, ?_, ?_,
    ?_, ?_⟩
  · simp [Peer.requested, h.length]
  · simp [Peer.path, Peer.requested, h.queue]
  · simp [Peer.path, hstream, hqueue]
  · intro c hc
    obtain hc | hc := List.mem_append.mp hc
    · rw [h.registered c hc]
      decide
    · obtain rfl := List.mem_singleton.mp hc
      simp
  · simp [Peer.requested, hnext]

end Served

namespace System

/-- Every registration is acknowledged as long as no side begins more than half as many as
there are ids. -/
theorem acknowledged_iff (n : ℕ) :
    (∀ as s, run step start as = some s → s.registrations ≤ n → s.Acknowledged) ↔ n ≤ 2 ^ 15 := by
  constructor
  · intro h
    by_contra hn
    obtain ⟨as, s, hrun, hserver, hclient, hpath, hpath', hpending, hwaiting⟩ :=
      Served.exists_refused
    have hle : s.registrations ≤ n := by
      rw [registrations, hserver, hclient]
      exact max_le (Nat.lt_of_not_le hn) (Nat.zero_le n)
    exact (h as s hrun hle).server.completed hpath hpath' hpending _ hwaiting rfl
  · exact fun hn as s hrun hle ↦ acknowledged_of_joined (joined_of_run hrun (hle.trans hn))

theorem registration_refused : ∃ as s, run step start as = some s ∧
    s.server.calls.length = 2 ^ 15 + 1 ∧ s.client.calls = [] ∧ s.server.path = [] ∧
      s.client.path = [] ∧ ⟨0, .waiting⟩ ∈ s.server.calls ∧ ¬ s.Acknowledged := by
  obtain ⟨as, s, hrun, hserver, hclient, hpath, hpath', hpending, hwaiting⟩ := Served.exists_refused
  exact ⟨as, s, hrun, hserver, hclient, hpath, hpath', hwaiting,
    fun h ↦ h.server.completed hpath hpath' hpending _ hwaiting rfl⟩

end System

end Kymux.Control
