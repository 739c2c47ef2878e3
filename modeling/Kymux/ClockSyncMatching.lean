import Kymux.ClockSyncBounds

namespace Kymux.ClockSync

open BigEndian Machine

variable {theta : ℤ} {endpointId : UInt16} {s s' : State} {e : Event} {es : List Event}
  {res : ClockSyncResult}

theorem inRange_of_abs_lt {t : ℤ} (h : |t| < 2 ^ 60) : I64.InRange t := by
  rw [abs_lt] at h
  exact ⟨by omega, by omega⟩

theorem length_syncRequest (endpointId : UInt16) (reqId : UInt32) (t1 : ℤ) :
    (syncRequest endpointId reqId t1).length = 14 := by
  simp [syncRequest]

theorem syncResponse_eq (endpointId : UInt16) (id reqId : UInt32) {t1 t2 t3 : ℤ} (t4 : ℤ)
    (h₁ : I64.InRange t1) (h₂ : I64.InRange t2) (h₃ : I64.InRange t3) :
    syncResponse endpointId reqId
      (syncRequest endpointId id t1 ++ I64.encode t2 ++ I64.encode t3) t4 =
      .ok (if reqId = id then some ⟨t1, t2, t3, t4⟩ else none) := by
  have hlen : (syncRequest endpointId id t1 ++ I64.encode t2 ++ I64.encode t3).length = 30 := by
    simp [length_syncRequest]
  have hlayout : syncRequest endpointId id t1 ++ I64.encode t2 ++ I64.encode t3 =
      encode 2 endpointId.toNat ++ (encode 4 id.toNat ++ (I64.encode t1 ++ (I64.encode t2 ++
        I64.encode t3))) := by
    simp only [syncRequest, List.append_assoc]
  have hendpoint : UInt16.ofNat (decode (encode 2 endpointId.toNat)) = endpointId := by
    rw [decode_encode_of_lt (by have := endpointId.toNat_lt; omega), UInt16.ofNat_toNat]
  have hid : UInt32.ofNat (decode (encode 4 id.toNat)) = id := by
    rw [decode_encode_of_lt (by have := id.toNat_lt; omega), UInt32.ofNat_toNat]
  -- The fields follow each other behind the endpoint id.
  generalize hresponse :
    syncRequest endpointId id t1 ++ I64.encode t2 ++ I64.encode t3 = response at *
  have htake : response.take 2 = encode 2 endpointId.toNat := by
    rw [hlayout, List.take_left' (length_encode 2 _)]
  have hdrop₂ : response.drop 2 = encode 4 id.toNat ++
      (I64.encode t1 ++ (I64.encode t2 ++ I64.encode t3)) := by
    rw [hlayout, List.drop_left' (length_encode 2 _)]
  have hdrop₆ : response.drop 6 = I64.encode t1 ++ (I64.encode t2 ++ I64.encode t3) := by
    rw [show 6 = 2 + 4 from rfl, ← List.drop_drop, hdrop₂, List.drop_left' (length_encode 4 _)]
  have hdrop₁₄ : response.drop 14 = I64.encode t2 ++ I64.encode t3 := by
    rw [show 14 = 6 + 8 from rfl, ← List.drop_drop, hdrop₆, List.drop_left' (I64.length_encode _)]
  have hdrop₂₂ : response.drop 22 = I64.encode t3 := by
    rw [show 22 = 14 + 8 from rfl, ← List.drop_drop, hdrop₁₄, List.drop_left' (I64.length_encode _)]
  have hvalid : validateSyncResponse response endpointId = .ok () := by
    rw [validateSyncResponse, if_neg (not_not.mpr hlen), htake, hendpoint, if_neg (not_not.mpr rfl)]
    rfl
  rw [syncResponse, hvalid, hdrop₂, hdrop₆, hdrop₁₄, hdrop₂₂, List.take_left' (length_encode 4 _),
    hid, List.take_left' (I64.length_encode _), List.take_left' (I64.length_encode _),
    List.take_of_length_le (I64.length_encode _).le, I64.decode_encode h₁, I64.decode_encode h₂,
    I64.decode_encode h₃]
  by_cases hsame : reqId = id
  · simp only [hsame, if_true]
    rfl
  · simp only [hsame, if_false]
    rfl

def OfRequest (theta : ℤ) (s : State) (ret : Return) (res : ClockSyncResult) : Prop :=
  ∃ r ∈ s.requests, ∃ a ∈ s.answers, r.call = ret.call ∧ a.call = ret.call ∧
    Sampled theta res r.sentAt a.receivedAt a.emittedAt ret.returnedAt

structure Answers (theta : ℤ) (r : Request) (a : Answer) : Prop where
  call : r.call = a.call
  forward : r.sentAt ≤ a.receivedAt
  processing : a.receivedAt ≤ a.emittedAt
  datagram : a.datagram = r.datagram ++ I64.encode (a.receivedAt + theta) ++
    I64.encode (a.emittedAt + theta)
  received : |a.receivedAt + theta| < 2 ^ 60
  emitted : |a.emittedAt + theta| < 2 ^ 60

structure Matched (theta : ℤ) (endpointId : UInt16) (s : State) : Prop where
  nextId : s.nextId = UInt32.ofNat s.calls
  requests : ∀ r ∈ s.requests, r.call < s.calls ∧ |r.sentAt| < 2 ^ 60 ∧
    r.datagram = syncRequest endpointId (UInt32.ofNat r.call) r.sentAt
  once : (s.requests.map Request.call).Nodup
  answers : ∀ a ∈ s.answers, a.emittedAt ≤ s.clock ∧ ∃ r ∈ s.requests, Answers theta r a
  running : ∀ reqId deadline, s.phase = .head reqId deadline ∨ s.phase = .waiting reqId deadline →
    0 < s.calls ∧ reqId = UInt32.ofNat (s.calls - 1)
  returns : ∀ ret ∈ s.returns, ∀ res, ret.outcome = .ok (some res) → OfRequest theta s ret res

namespace Matched

theorem start (clock : ℤ) : Matched theta endpointId (.start clock) where
  nextId := rfl
  requests := by simp [State.start]
  once := List.nodup_nil
  answers := by simp [State.start]
  running reqId deadline h := by rcases h with h | h <;> cases h
  returns := by simp [State.start]

theorem tick {now : ℤ} (h : Matched theta endpointId s) (hnow : s.clock ≤ now) :
    Matched theta endpointId { s with clock := now } where
  nextId := h.nextId
  requests := h.requests
  once := h.once
  answers a ha := ⟨(h.answers a ha).1.trans hnow, (h.answers a ha).2⟩
  running := h.running
  returns := h.returns

theorem goOn {phase : Phase} (h : Matched theta endpointId s)
    (hphase : ∀ reqId deadline, phase = .head reqId deadline ∨ phase = .waiting reqId deadline →
      0 < s.calls ∧ reqId = UInt32.ofNat (s.calls - 1)) :
    Matched theta endpointId { s with phase } where
  nextId := h.nextId
  requests := h.requests
  once := h.once
  answers := h.answers
  running := hphase
  returns := h.returns

theorem finish {outcome : Except Fault (Option ClockSyncResult)} (h : Matched theta endpointId s)
    (hres : ∀ res, outcome = .ok (some res) →
      OfRequest theta s ⟨s.calls - 1, s.clock, outcome⟩ res) :
    Matched theta endpointId (s.finish outcome) where
  nextId := h.nextId
  requests := h.requests
  once := h.once
  answers := h.answers
  running reqId deadline hp := by rcases hp with hp | hp <;> cases hp
  returns ret hret res hok := by
    rcases List.mem_append.mp hret with hret | hret
    · exact h.returns ret hret res hok
    · obtain rfl := List.mem_singleton.mp hret
      exact hres res hok

theorem finish_error {f : Fault} (h : Matched theta endpointId s) :
    Matched theta endpointId (s.finish (.error f)) :=
  h.finish (fun _ hok ↦ by cases hok)

theorem finish_none (h : Matched theta endpointId s) :
    Matched theta endpointId (s.finish (.ok none)) :=
  h.finish (fun _ hok ↦ by cases hok)

theorem call (h : Matched theta endpointId s) (hphase : s.phase = .idle) :
    Matched theta endpointId { s with nextId := s.nextId + 1, calls := s.calls + 1 } where
  nextId := by
    rw [h.nextId, UInt32.ofNat_add]
    rfl
  requests r hr := ⟨(h.requests r hr).1.trans (Nat.lt_succ_self _), (h.requests r hr).2⟩
  once := h.once
  answers := h.answers
  running reqId deadline hp := by rcases hp with hp | hp <;> cases hphase.symm.trans hp
  returns := h.returns

theorem request {r : Request} (h : Matched theta endpointId s)
    (hfresh : ∀ q ∈ s.requests, q.call ≠ r.call) (hcall : r.call < s.calls)
    (hsmall : |r.sentAt| < 2 ^ 60)
    (hdatagram : r.datagram = syncRequest endpointId (UInt32.ofNat r.call) r.sentAt) :
    Matched theta endpointId { s with requests := s.requests ++ [r] } where
  nextId := h.nextId
  requests q hq := by
    rcases List.mem_append.mp hq with hq | hq
    · exact h.requests q hq
    · obtain rfl := List.mem_singleton.mp hq
      exact ⟨hcall, hsmall, hdatagram⟩
  once := by
    rw [List.map_append, List.map_singleton, List.nodup_append']
    refine ⟨h.once, List.nodup_singleton _, ?_⟩
    rw [List.disjoint_singleton]
    intro hmem
    obtain ⟨q, hq, hsame⟩ := List.mem_map.mp hmem
    exact hfresh q hq hsame
  answers a ha := by
    obtain ⟨hclock, q, hq, hanswers⟩ := h.answers a ha
    exact ⟨hclock, q, List.mem_append_left _ hq, hanswers⟩
  running := h.running
  returns ret hret res hok := by
    obtain ⟨q, hq, a, ha, hsampled⟩ := h.returns ret hret res hok
    exact ⟨q, List.mem_append_left _ hq, a, ha, hsampled⟩

theorem sync {now : ℤ} (h : Matched theta endpointId s) (hphase : s.phase = .idle)
    (hnow : s.clock ≤ now) (hsmall : |now| < 2 ^ 60) (sent : Except ProtocolError Unit) :
    Matched theta endpointId (s.sync endpointId now sent) := by
  have hcalled := (h.tick hnow).call hphase
  unfold State.sync
  cases sent with
  | error e => exact hcalled.finish_error
  | ok _ =>
    have hid : s.nextId = UInt32.ofNat (s.calls + 1 - 1) := h.nextId
    have hrequested :=
      hcalled.request (r := ⟨s.calls + 1 - 1, now, syncRequest endpointId s.nextId now⟩)
      (fun q hq ↦ (h.requests q hq).1.ne) (Nat.lt_succ_self _) hsmall (by rw [hid])
    dsimp only
    split
    · exact hrequested.finish_error
    · refine hrequested.goOn fun reqId deadline hp ↦ ?_
      rcases hp with hp | hp
      · cases hp
        exact ⟨Nat.succ_pos _, hid⟩
      · cases hp

theorem serve {request : ℕ} {receivedAt emittedAt : ℤ} (h : Matched theta endpointId s)
    (hreceived : |receivedAt + theta| < 2 ^ 60) (hemitted : |emittedAt + theta| < 2 ^ 60)
    (hstep : s.step theta endpointId (.serve request receivedAt emittedAt) = some s') :
    Matched theta endpointId s' := by
  simp only [State.step] at hstep
  cases hr : s.requests[request]? with
  | none => simp [hr] at hstep
  | some r =>
    have hmem := List.mem_of_getElem? hr
    obtain ⟨-, -, hdatagram⟩ := h.requests r hmem
    have hserve : ClockSync.serve r.datagram (receivedAt + theta) (emittedAt + theta) =
        .ok (r.datagram ++ I64.encode (receivedAt + theta) ++ I64.encode (emittedAt + theta)) := by
      have hlen : r.datagram.length = 14 := by rw [hdatagram, length_syncRequest]
      simp only [ClockSync.serve, validateSyncRequest, hlen, ne_eq, not_true_eq_false, if_false]
      rfl
    simp only [hr, hserve] at hstep
    split_ifs at hstep with htimes
    cases hstep
    obtain ⟨hsent, hprocessing, hclock⟩ := htimes
    refine ⟨h.nextId, h.requests, h.once, fun a ha ↦ ?_, h.running, fun ret hret res hok ↦ ?_⟩
    · rcases List.mem_append.mp ha with ha | ha
      · exact ⟨(h.answers a ha).1.trans hclock, (h.answers a ha).2⟩
      · obtain rfl := List.mem_singleton.mp ha
        exact ⟨le_rfl, r, hmem, rfl, hsent, hprocessing, rfl, hreceived, hemitted⟩
    · obtain ⟨q, hq, a, ha, hsampled⟩ := h.returns ret hret res hok
      exact ⟨q, hq, a, List.mem_append_left _ ha, hsampled⟩

/-- Requests have the same number on the wire only if they are of the same call. -/
theorem ofNat_inj {m n : ℕ} (hm : m < 2 ^ 32) (hn : n < 2 ^ 32)
    (h : UInt32.ofNat m = UInt32.ofNat n) :
    m = n := by
  have hnat := congrArg UInt32.toNat h
  rwa [UInt32.toNat_ofNat', UInt32.toNat_ofNat', Nat.mod_eq_of_lt hm, Nat.mod_eq_of_lt hn] at hnat

theorem recv {answer : ℕ} {t4 : ℤ} (h : Matched theta endpointId s) (hcalls : s.calls ≤ 2 ^ 32)
    (hsmall : |t4| < 2 ^ 60) (hstep : s.step theta endpointId (.recv answer t4) = some s') :
    Matched theta endpointId s' := by
  simp only [State.step] at hstep
  split at hstep
  · next reqId deadline a hphase ha =>
    split_ifs at hstep with hclock
    have hmem := List.mem_of_getElem? ha
    obtain ⟨hemitted, r, hr, hanswers⟩ := h.answers a hmem
    obtain ⟨hcall, hsent, hdatagram⟩ := h.requests r hr
    obtain ⟨hpos, hid⟩ := h.running reqId deadline (.inr hphase)
    have hresponse := syncResponse_eq endpointId (UInt32.ofNat r.call) reqId t4
      (inRange_of_abs_lt hsent) (inRange_of_abs_lt hanswers.received)
      (inRange_of_abs_lt hanswers.emitted)
    rw [← hdatagram, ← hanswers.datagram] at hresponse
    by_cases hsame : reqId = UInt32.ofNat r.call
    · rw [hresponse, if_pos hsame] at hstep
      cases hstep
      refine (h.tick hclock).finish fun res hok ↦ ?_
      cases hok
      have hthis : r.call = s.calls - 1 := ofNat_inj (by omega) (by omega) (hsame.symm.trans hid)
      refine ⟨r, hr, a, hmem, hthis, hanswers.call.symm.trans hthis, ?_⟩
      refine ⟨rfl, hanswers.forward, hanswers.processing, hemitted.trans hclock, ?_⟩
      simpa using ⟨hsent, hanswers.received, hanswers.emitted, hsmall⟩
    · rw [hresponse, if_neg hsame] at hstep
      cases hstep
      refine (h.tick hclock).goOn fun reqId' deadline' hp ↦ ?_
      rcases hp with hp | hp
      · cases hp
        exact ⟨hpos, hid⟩
      · cases hp
  · cases hstep

theorem step (h : Matched theta endpointId s) (hcalls : s.calls ≤ 2 ^ 32)
    (hsmall : ∀ t ∈ e.readings theta, |t| < 2 ^ 60) (hstep : s.step theta endpointId e = some s') :
    Matched theta endpointId s' := by
  cases e with
  | sync now sent =>
    simp only [State.step] at hstep
    split at hstep
    · next hphase =>
      split_ifs at hstep with hclock
      cases hstep
      exact h.sync hphase hclock (hsmall now (by simp [Event.readings])) sent
    · cases hstep
  | serve request receivedAt emittedAt =>
    have hreadings : |receivedAt + theta| < 2 ^ 60 ∧ |emittedAt + theta| < 2 ^ 60 := by
      simpa [Event.readings] using hsmall
    exact h.serve hreadings.1 hreadings.2 hstep
  | check now =>
    simp only [State.step] at hstep
    split at hstep
    · next reqId deadline hphase =>
      split_ifs at hstep with hclock hlate
      · cases hstep
        exact (h.tick hclock).finish_none
      · cases hstep
        refine (h.tick hclock).goOn fun reqId' deadline' hp ↦ ?_
        rcases hp with hp | hp
        · cases hp
        · cases hp
          exact h.running reqId deadline (.inl hphase)
    · cases hstep
  | recv answer t4 => exact h.recv hcalls (hsmall t4 (by simp [Event.readings])) hstep
  | timeout =>
    simp only [State.step] at hstep
    split at hstep
    · cases hstep
      exact h.finish_none
    · cases hstep
  | fail e =>
    simp only [State.step] at hstep
    split at hstep
    · cases hstep
    · cases hstep
      exact h.finish_error

end Matched

theorem calls_sync_le (s : State) (endpointId : UInt16) (now : ℤ)
    (sent : Except ProtocolError Unit) :
    s.calls ≤ (s.sync endpointId now sent).calls := by
  unfold State.sync
  cases sent with
  | error e => exact Nat.le_succ _
  | ok _ =>
    dsimp only
    split <;> exact Nat.le_succ _

theorem calls_le (hstep : s.step theta endpointId e = some s') : s.calls ≤ s'.calls := by
  cases e with
  | sync now sent =>
    simp only [State.step] at hstep
    split at hstep
    · split_ifs at hstep
      cases hstep
      exact calls_sync_le s endpointId now sent
    · cases hstep
  | serve | check | recv | timeout | fail =>
    simp only [State.step] at hstep
    repeat' split at hstep
    all_goals cases hstep
    all_goals exact le_rfl

theorem Matched.of_run {clock : ℤ}
    (h : run (State.step theta endpointId) (.start clock) es = some s) (hcalls : s.calls ≤ 2 ^ 32)
    (hsmall : ∀ e ∈ es, ∀ t ∈ e.readings theta, |t| < 2 ^ 60) :
    Matched theta endpointId s := by
  revert hcalls hsmall
  refine run_induction (motive := fun es s ↦ s.calls ≤ 2 ^ 32 →
    (∀ e ∈ es, ∀ t ∈ e.readings theta, |t| < 2 ^ 60) → Matched theta endpointId s) ?_ ?_ h
  · exact fun _ _ ↦ .start clock
  · intro es s e s' _ ih hstep hcalls hsmall
    have hle := (calls_le hstep).trans hcalls
    refine (ih hle fun e' he' ↦ hsmall e' (List.mem_append_left _ he')).step hle ?_ hstep
    exact hsmall e (by simp)

/-- A result of `sync` is of the request of its own call, its delay is that of the two ways
through the network, and its offset is off by at most half of that, rounded up. The average of
any of them is as good as the worst. -/
theorem sync_bounds (theta clock : ℤ) (endpointId : UInt16) (es : List Event) (s : State)
    (h : run (State.step theta endpointId) (.start clock) es = some s) (hcalls : s.calls < 2 ^ 32)
    (hsmall : ∀ e ∈ es, ∀ t ∈ e.readings theta, |t| < 2 ^ 60) :
    (∀ ret ∈ s.returns, ∀ res, ret.outcome = .ok (some res) →
      ∃ r ∈ s.requests, ∃ a ∈ s.answers, r.call = ret.call ∧ a.call = ret.call ∧
        res = ⟨r.sentAt, a.receivedAt + theta, a.emittedAt + theta, ret.returnedAt⟩ ∧
        res.delayMicros = .ok ((a.receivedAt - r.sentAt) + (ret.returnedAt - a.emittedAt)) ∧
        0 ≤ a.receivedAt - r.sentAt ∧ 0 ≤ ret.returnedAt - a.emittedAt ∧
        ∃ offset, res.offsetMicros = .ok offset ∧
          2 * |offset - theta| ≤ (a.receivedAt - r.sentAt) + (ret.returnedAt - a.emittedAt) + 1) ∧
    (s.requests.map Request.call).Nodup ∧
    ∀ (k times : ℕ) (B : ℤ), 1 ≤ times → times * (|theta| + B + 1) < 2 ^ 62 →
      let outs := (s.returns.drop k).map Return.outcome
      (∀ res ∈ (samples outs).take times, ∀ delay, res.delayMicros = .ok delay → delay ≤ B) →
      (times ≤ (samples outs).length → syncAverage times outs ≠ none) ∧
      ∀ r, syncAverage times outs = some r →
        (∃ e, r = .error e ∧ .error e ∈ outs) ∨
          ∃ avg, r = .ok avg ∧ 2 * |avg.offsetMicros - theta| ≤ B + 1 ∧
            0 ≤ avg.delayMicros ∧ avg.delayMicros ≤ B := by
  have hmatched := Matched.of_run h hcalls.le hsmall
  refine ⟨?_, hmatched.once, ?_⟩
  · intro ret hret res hok
    obtain ⟨r, hr, a, ha, hcall, hcall', hsampled⟩ := hmatched.returns ret hret res hok
    refine ⟨r, hr, a, ha, hcall, hcall', hsampled.eq, hsampled.delayMicros_eq, ?_, ?_, _,
      hsampled.offsetMicros_eq, hsampled.offset_near hsampled.offsetMicros_eq⟩
    · exact sub_nonneg.mpr hsampled.forward
    · exact sub_nonneg.mpr hsampled.backward
  intro k times B htimes hfit outs hB
  refine ⟨fun henough ↦ ?_, fun r hr ↦ syncAverage_near htimes hfit (fun res hres ↦ ?_) hr⟩
  · rw [syncAverage, if_neg (by omega), ne_eq, Option.map_eq_none_iff]
    exact averageLoop_ne_none henough
  · obtain ⟨out, hout, hsome⟩ := List.mem_filterMap.mp (List.mem_of_mem_take hres)
    obtain ⟨ret, hret, rfl⟩ := List.mem_map.mp hout
    cases hoc : ret.outcome with
    | error e => simp [hoc] at hsome
    | ok o =>
      simp only [hoc] at hsome
      obtain ⟨r, -, a, -, -, -, hsampled⟩ :=
        hmatched.returns ret (List.mem_of_mem_drop hret) res (by rw [hoc, hsome])
      exact hsampled.near (hB res hres)

/-- The server is five ahead. The first request times out, and its answer comes late, after the
second was sent, before the answer to that. -/
def lateEvents : List Event :=
  [.sync 0 (.ok ()), .check 1, .serve 0 10 12, .timeout, .sync 200000 (.ok ()), .check 200001,
    .recv 0 200002, .check 200003, .serve 1 200003 200005, .recv 1 200006]

theorem sync_bounds_late : ∃ s, run (State.step 5 7) (.start 0) lateEvents = some s ∧
    s.returns.map Return.outcome = [.ok none, .ok (some ⟨200000, 200008, 200010, 200006⟩)] ∧
    ∃ avg, syncAverage 1 (s.returns.map Return.outcome) = some (.ok avg) ∧
      2 * |avg.offsetMicros - 5| ≤ 4 + 1 ∧ 0 ≤ avg.delayMicros ∧ avg.delayMicros ≤ 4 := by
  obtain ⟨s, hrun, hs⟩ :=
    Option.map_eq_some_iff.mp (show (run (State.step 5 7) (.start 0) lateEvents).map
      (fun s ↦ (s.calls, s.returns.map Return.outcome)) =
        some (2, [.ok none, .ok (some ⟨200000, 200008, 200010, 200006⟩)]) by decide +kernel)
  obtain ⟨hcalls, houts⟩ := Prod.mk.inj hs
  have hbounds :=
    (sync_bounds 5 0 7 lateEvents s hrun (by omega) (by decide +kernel)).2.2 0 1 4 (by decide)
    (by decide)
  rw [List.drop_zero, houts] at hbounds
  refine ⟨s, hrun, houts, ?_⟩
  rw [houts]
  have hdelay : ∀ res ∈ (samples [.ok none, .ok (some ⟨200000, 200008, 200010, 200006⟩)]).take 1,
      ∀ delay, res.delayMicros = .ok delay → delay ≤ 4 := by
    rintro res hres delay hdelay
    obtain rfl := List.mem_singleton.mp hres
    cases hdelay
    decide
  obtain ⟨e, he, -⟩ | ⟨avg, havg, hnear⟩ := (hbounds hdelay).2 (.ok ⟨6, 4⟩) (by decide +kernel)
  · cases he
  · cases havg
    exact ⟨_, by decide +kernel, hnear⟩

end Kymux.ClockSync
