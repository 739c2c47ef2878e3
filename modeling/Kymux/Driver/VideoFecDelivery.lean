import Kymux.Driver.VideoFecHonest

namespace Kymux.VideoFec

open Av BigEndian Driver EventLoop Fec Governed Unroll

variable {rq : RaptorQ} {calls : List Call} {i : ℕ} {s s' : State rq} {is : List ℕ} {b : Bool}
  {clock : Clock} {n : VideoState.Numbers}

def Holds (rq : RaptorQ) (calls : List Call) (s : State rq) (is : List ℕ) : Prop :=
  Honest (packets calls)
  (genuine rq calls) s.pendingGroups.pendingGroups s.nextKypacketSeq s.txClient is

theorem Holds.congr (h : Holds rq calls s is) (hgs : s'.pendingGroups = s.pendingGroups)
    (hnext : s'.nextKypacketSeq = s.nextKypacketSeq) (htx : s'.txClient = s.txClient) :
    Holds rq calls s' is := by
  rw [Holds, hgs, hnext, htx]
  exact h

theorem Holds.stream {msg : StreamMsg} (h : Holds rq calls s is) (hv : s.pendingGroups.Valid)
    (hn : s.numbers msg.rawKypacketSeq msg.rawGroupSeq = n) (hk : n.kypacketSeq = i)
    (hg : n.groupSeq = groupOf (packets calls) i) (hget : (packets calls)[i]? = some msg.packet)
    (hc : msg.packet.isConfig = true)
    (hsel : s.select (.message (.ok (.stream msg)) clock) = .ok (s', b)) :
    Holds rq calls s' is ∧ s'.pendingGroups.Valid ∧ s'.kypacketSequencer = n.kypacketSequencer ∧
      s'.groupSequencer = n.groupSequencer := by
  have hv' := State.valid_selected hv hsel
  have hplaced := Placed.of_get hget
  rw [hc] at hplaced
  cases State.select_selected hv.ordered hsel with
  | codec hcodec =>
    rw [isCodec_of_isConfig hc] at hcodec
    cases hcodec
  | lateStream _ hn' hlt =>
    obtain rfl := hn'.trans hn
    exact ⟨h.congr rfl rfl rfl, hv', rfl, rfl⟩
  | @stream _ _ _ gs _ hn' hge hstep =>
    obtain rfl := hn'.trans hn
    rw [hk] at hge hstep
    rw [hg] at hstep
    refine ⟨⟨hv'.ordered, ?_, h.inOrder, h.behind, h.delivered⟩, hv', rfl, rfl⟩
    exact hstep.obey rfl (fun _ ↦ ⟨hplaced, hget, hge⟩) h.waits

theorem Holds.datagram {msg : DatagramMsg Symbol} (h : Holds rq calls s is) (hrq : rq.Genuine)
    (hv : s.pendingGroups.Valid)
    (hn : s.numbers msg.rawKypacketSeq msg.rawGroupSeq = n) (hk : n.kypacketSeq = i)
    (hg : n.groupSeq = groupOf (packets calls) i) (hx : OfPacket rq calls i msg.content)
    (hsel : s.select (.message (.ok (.datagram msg)) clock) = .ok (s', b)) :
    Holds rq calls s' is ∧ s'.pendingGroups.Valid ∧ s'.kypacketSequencer = n.kypacketSequencer ∧
      s'.groupSequencer = n.groupSequencer := by
  have hv' := State.valid_selected hv hsel
  cases State.select_selected hv.ordered hsel with
  | lateDatagram hn' hlt =>
    obtain rfl := hn'.trans hn
    exact ⟨h.congr rfl rfl rfl, hv', rfl, rfl⟩
  | @datagram _ _ _ gs hn' hge hstep =>
    obtain rfl := hn'.trans hn
    rw [hk] at hge hstep
    rw [hg] at hstep
    refine ⟨⟨hv'.ordered, ?_, h.inOrder, h.behind, h.delivered⟩, hv', rfl, rfl⟩
    exact hstep.obey hv.ordered rfl (honest_admits hrq hx hge) h.waits

theorem Holds.drain {now : ℕ} (h : Holds rq calls s is) (hsel : s.drain now = .ok (s', b)) :
    (∃ is', Holds rq calls s' is') ∧ s'.kypacketSequencer = s.kypacketSequencer ∧
      s'.groupSequencer = s.groupSequencer := by
  cases State.drain_drained h.ordered hsel with
  | none | deadline => exact ⟨⟨is, h.congr rfl rfl rfl⟩, rfl, rfl⟩
  | packet hgs _ hpoll htook => exact ⟨⟨_, Honest.took h hgs hpoll htook⟩, rfl, rfl⟩

def labelled (rq : RaptorQ) : Loop (Bytes × State rq) (Arrival (ℕ × Bytes) Clock) ℕ Fault :=
  Driver.receiver (process rq)
  ((fecReaders recvStreamPacket parse .stream .datagram).comap Prod.snd)

structure Receives (rq : RaptorQ) (calls : List Call) (as : List (Arrival (ℕ × Bytes) Clock))
    (x : Bytes × State rq) : Prop where
  tracks : Tracks (packets calls) as x
  valid : x.2.pendingGroups.Valid
  holds : ∃ is, Holds rq calls x.2 is

namespace Receives

variable {as : List (Arrival (ℕ × Bytes) Clock)} {a : Arrival (ℕ × Bytes) Clock}
  {x x' : Bytes × State rq}

theorem start (h : Succeeds (sendDriver rq) calls) (stats : ProtocolStats) :
    Receives rq calls [] (written ((sendDriver rq).sendAll .start calls), .start .new stats) := by
  rw [h.written_eq (isVideo_sendDriver rq)]
  exact ⟨.start _ _, PendingGroups.Valid.new, [], .start _ _⟩

theorem inner {now : ℕ} (h : Receives rq calls as x)
    (hin : (labelled rq).inner x now = .ok (x', b)) :
    Receives rq calls as x' := by
  obtain ⟨stream, s⟩ := x
  obtain ⟨stream', s'⟩ := x'
  obtain ⟨hstream, hdrain⟩ := receiver_inner hin
  obtain rfl : stream' = stream := hstream
  obtain ⟨is, hholds⟩ := h.holds
  obtain ⟨hholds', hk, hg⟩ := hholds.drain hdrain
  exact ⟨h.tracks.congr hk hg, State.valid_drained h.valid hdrain, hholds'⟩

theorem record (h : Receives rq calls as x) (hsend : Succeeds (sendDriver rq) calls)
    (hsized : Sized (packets calls))
    (hnet : Network (packets calls) ((sendDriver rq).sendAll .start calls) (as ++ [.record clock]))
    (hsel : (labelled rq).select x (.record clock) = .ok (x', b)) :
    Receives rq calls (as ++ [.record clock]) x' := by
  obtain ⟨stream, s⟩ := x
  obtain ⟨stream', s'⟩ := x'
  rw [labelled, receiver_comap_select] at hsel
  obtain ⟨msg, hread, hmsg⟩ := fecReceiver_select (fun _ _ _ ↦ rfl) hsel
  obtain ⟨is, hholds⟩ := h.holds
  obtain ⟨-, rfl⟩ | ⟨j, js, hget, hdrop, rfl⟩ := h.tracks.front
  · cases hread
  · obtain ⟨packet, hpacket, hc, hout⟩ :=
      recvStreamPacket_record hsend hsized (mem_configs.mp (List.mem_of_getElem? hget)) hread
    cases hout
    have hn := h.tracks.numbers hnet (hdrop ▸ trueNumbers_record j js clock)
    obtain ⟨hholds', hv', hk, hg⟩ := hholds.stream h.valid hn rfl rfl hpacket hc hmsg
    exact ⟨h.tracks.record hdrop hk hg, hv', is, hholds'⟩

theorem datagram {d : ℕ × Bytes} (h : Receives rq calls as x) (hrq : rq.Genuine)
    (hsend : Succeeds (sendDriver rq) calls)
    (hnet : Network (packets calls) ((sendDriver rq).sendAll .start calls)
      (as ++ [.datagram d clock]))
      (hsel : (labelled rq).select x (.datagram d clock) = .ok (x', b)) :
    Receives rq calls (as ++ [.datagram d clock]) x' := by
  obtain ⟨stream, s⟩ := x
  obtain ⟨stream', s'⟩ := x'
  obtain ⟨i, bytes⟩ := d
  rw [labelled, receiver_comap_select] at hsel
  obtain ⟨hstream, msg, hparse, hmsg⟩ := fecReceiver_select (fun _ _ _ ↦ rfl) hsel
  obtain rfl : stream' = stream := hstream
  obtain ⟨is, hholds⟩ := h.holds
  obtain ⟨o, ho, hbytes⟩ := hnet.origin (.datagram (i, bytes) clock) (by simp)
  obtain ⟨hraw, hraw', hx⟩ := parse_datagram hsend ho hbytes hparse
  have hn := h.tracks.numbers hnet (trueNumbers_datagram _ i bytes clock)
  rw [← hraw, ← hraw'] at hn
  obtain ⟨hholds', hv', hk, hg⟩ := hholds.datagram hrq h.valid hn rfl rfl hx hmsg
  exact ⟨h.tracks.datagram hk hg, hv', is, hholds'⟩

theorem select (h : Receives rq calls as x) (hrq : rq.Genuine)
    (hsend : Succeeds (sendDriver rq) calls) (hsized : Sized (packets calls))
    (hnet : Network (packets calls) ((sendDriver rq).sendAll .start calls) (as ++ [a]))
    (hsel : (labelled rq).select x a = .ok (x', b)) : Receives rq calls (as ++ [a]) x' := by
  cases a with
  | record clock => exact h.record hsend hsized hnet hsel
  | datagram d clock => exact h.datagram hrq hsend hnet hsel
  | timer =>
    obtain ⟨stream, s⟩ := x
    obtain ⟨stream', s'⟩ := x'
    rw [labelled, receiver_comap_select] at hsel
    obtain ⟨hstream, htimer⟩ := fecReceiver_select (fun _ _ _ ↦ rfl) hsel
    cases htimer
    obtain rfl : stream' = stream := hstream
    exact ⟨h.tracks.timer, h.valid, h.holds⟩

end Receives

theorem Receives.of_at (hrq : rq.Genuine) (hsend : Succeeds (sendDriver rq) calls)
    (hsized : Sized (packets calls)) {stats : ProtocolStats}
    {es : List (Event (Arrival (ℕ × Bytes) Clock) ℕ)} {x : Bytes × State rq}
    (hnet : Network (packets calls) ((sendDriver rq).sendAll .start calls) (es.map Event.input))
    (h : (labelled rq).At
      (written ((sendDriver rq).sendAll .start calls), .start .new stats) es x) :
    Receives rq calls (es.map Event.input) x := by
  revert hnet
  refine At.induction (motive := fun es x ↦
    Network (packets calls) ((sendDriver rq).sendAll .start calls) (es.map Event.input) →
      Receives rq calls (es.map Event.input) x) ?_ ?_ ?_ h
  · exact fun _ ↦ .start hsend stats
  · intro pre e x x' b ih hsel hnet
    rw [List.map_append] at hnet ⊢
    exact (ih hnet.of_append).select hrq hsend hsized hnet hsel
  · exact fun pre e x now x' b ih hin hnet ↦ (ih hnet).inner hin

/-- Whatever is lost, late or repeated on the way, the client gets packets that were sent, in the
order in which they were sent, each media packet right under its config. -/
theorem delivered_in_order (hrq : rq.Genuine) (hsend : Succeeds (sendDriver rq) calls)
    (hsized : Sized (packets calls)) (stats : ProtocolStats)
    (es : List (Event (Arrival (ℕ × Bytes) Clock) ℕ)) (x : Bytes × State rq)
    (hnet : Network (packets calls) ((sendDriver rq).sendAll .start calls) (es.map Event.input))
    (h : (labelled rq).At
      (written ((sendDriver rq).sendAll .start calls), .start .new stats) es x) :
    ∃ is, InOrder AVPacket.isConfig (packets calls) is ∧
      x.2.txClient.map some = is.map ((packets calls)[·]?) := by
  obtain ⟨is, hholds⟩ := (Receives.of_at hrq hsend hsized hnet h).holds
  exact ⟨is, hholds.inOrder, hholds.delivered⟩

section Small

def smallCalls : List Call := [⟨smallConfig, 7, some 42, none⟩, ⟨smallMedia, 7, some 42, none⟩]

def smallSent : List Outcome := (sendDriver .oneSymbol).sendAll .start smallCalls

def smallArrivals : List (Event (Arrival (ℕ × Bytes) Clock) ℕ) :=
  [⟨.datagram (1, (sentDatagrams smallSent).headD []) ⟨0, 0, 0⟩, fun _ ↦ 0⟩,
    ⟨.record ⟨0, 0, 0⟩, fun _ ↦ 0⟩]

theorem small_network : Network (packets smallCalls) smallSent (smallArrivals.map Event.input) := by
  have hnumbers : trueNumbers (configs AVPacket.isConfig (packets smallCalls))
      (smallArrivals.map Event.input) = [1, 0] := by decide
  refine ⟨?_, ?_, ?_⟩
  · have horigin :
      smallSent[1]?.any (fun o ↦ (sentDatagrams smallSent).headD [] ∈ o.datagrams) = true := by
      decide +kernel
    obtain ⟨o, ho, hmem⟩ := (Option.any_eq_true _ _).mp horigin
    simp only [smallArrivals, List.map_cons, List.map_nil, List.forall_mem_cons, List.not_mem_nil,
      false_imp_iff, implies_true, and_true]
    exact ⟨⟨o, ho, of_decide_eq_true hmem⟩, trivial⟩
  · rw [hnumbers]
    exact boundedDisorder_of_lt (by decide) (by decide)
  · rw [hnumbers]
    exact boundedDisorder_of_lt (by decide) (by decide)

theorem delivered_in_order_small :
    ∃ x, (labelled .oneSymbol).run (written smallSent, .start .new noStats) smallArrivals = .ok x ∧
      x.2.txClient = [smallConfig, smallMedia] ∧
      ∃ is, InOrder AVPacket.isConfig (packets smallCalls) is ∧
        x.2.txClient.map some = is.map ((packets smallCalls)[·]?) := by
  obtain ⟨x, hrun, htx⟩ := ok_of_map (show ((labelled .oneSymbol).run
    (written smallSent, .start .new noStats) smallArrivals).map (fun x ↦ x.2.txClient) =
      .ok [smallConfig, smallMedia] by decide +kernel)
  refine ⟨x, hrun, htx, ?_⟩
  refine delivered_in_order RaptorQ.oneSymbol_genuine ⟨by decide, by decide +kernel⟩ ?_ noStats
    smallArrivals x ?_ (.inl hrun)
  · simp [Sized, packets, smallCalls, smallConfig, smallMedia]
  · exact small_network

def shortCalls : List Call := [⟨.media ⟨⟨true, false, 0, 0⟩, [7]⟩, 7, some 42, none⟩]

def shortSent : List Outcome := (sendDriver .oneSymbol).sendAll .start shortCalls

/-- A config whose header does not tell its length is cut off. -/
theorem delivered_short : Succeeds (sendDriver .oneSymbol) shortCalls ∧
    Network (packets shortCalls) shortSent [Arrival.record (⟨0, 0, 0⟩ : Clock)] ∧
    ∃ x, (labelled .oneSymbol).run (written shortSent, .start .new noStats)
        [⟨.record ⟨0, 0, 0⟩, fun _ ↦ 0⟩] = .ok x ∧
      x.2.txClient = [smallConfig] ∧ smallConfig ∉ packets shortCalls := by
  obtain ⟨x, hrun, htx⟩ := ok_of_map (show ((labelled .oneSymbol).run
    (written shortSent, .start .new noStats) [⟨.record ⟨0, 0, 0⟩, fun _ ↦ 0⟩]).map
      (fun x ↦ x.2.txClient) = .ok [smallConfig] by decide +kernel)
  refine ⟨⟨by decide, by decide +kernel⟩, ⟨by simp [Arrival.From], ?_, ?_⟩, x, hrun, htx, by decide⟩
  · exact boundedDisorder_of_lt (by decide) (by decide)
  · exact boundedDisorder_of_lt (by decide) (by decide)

end Small

end Kymux.VideoFec
