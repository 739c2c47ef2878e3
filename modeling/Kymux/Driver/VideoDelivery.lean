import Kymux.Driver.VideoHonest

namespace Kymux.Video

open Av BigEndian Driver EventLoop Governed Plain Unroll

variable {calls : List Call} {i m : ℕ} {s s' : State} {is : List ℕ} {n : VideoState.Numbers}

/-- What a receiver has delivered, and what waits in it, is what was sent, and only the first
configs have been read. -/
structure Holds (calls : List Call) (m : ℕ) (s : State) (is : List ℕ) : Prop where
  honest : Honest (packets calls) (genuine calls) s.pendingGroups s.nextKypacketSeq s.txClient is
  opened : s.pendingGroups.Obey (opened m)

namespace Holds

theorem congr (h : Holds calls m s is) (hgs : s'.pendingGroups = s.pendingGroups)
    (hnext : s'.nextKypacketSeq = s.nextKypacketSeq) (htx : s'.txClient = s.txClient) :
    Holds calls m s' is := by
  obtain ⟨hhonest, hopened⟩ := h
  rw [← hgs, ← hnext, ← htx] at hhonest
  rw [← hgs] at hopened
  exact ⟨hhonest, hopened⟩

theorem stream (h : Holds calls m s is) (msg : StreamMsg) (assembled : ℕ)
    (hn : s.numbers msg.rawKypacketSeq msg.rawGroupSeq = n) (hk : n.kypacketSeq = i)
    (hg : n.groupSeq = groupOf (packets calls) i) (hm : groupOf (packets calls) i = m + 1)
    (hget : (packets calls)[i]? = some msg.packet) (hc : msg.packet.isConfig = true) :
    ∃ s', s.select (.message (.stream msg) assembled) = .ok (s', true) ∧ Holds calls (m + 1) s' is ∧
      s'.kypacketSequencer = n.kypacketSequencer ∧ s'.groupSequencer = n.groupSequencer := by
  have hplaced := Placed.of_get hget
  rw [hc] at hplaced
  have hopened := opened_mono (Nat.le_succ m) h.opened
  simp only [State.select, VideoState.receive, isCodec_of_isConfig hc, Bool.false_eq_true, if_false,
    hn, VideoState.receiveStream, hk, hg]
  by_cases hge : i ≥ s.nextKypacketSeq
  · obtain ⟨pre, g, post, hplace, hins⟩ := PendingGroups.insertStreamPacket_place h.honest.ordered
      (groupOf (packets calls) i) i msg.packet
    have hlater : ¬ groupOf (packets calls) i ≤ m := by omega
    have hnone := (hplace.obeys h.opened).isNone (fun _ ↦ hlater) hlater
    rw [if_pos hge, hins hnone]
    have hp : g.Ordered := hplace.all h.honest.ordered.each Pending.Ordered.new
    refine ⟨_, rfl, ⟨⟨hplace.ordered h.honest.ordered ⟨hp.segments, hp.datagrams, hp.apart⟩, ?_,
      h.honest.inOrder, h.honest.behind, h.honest.delivered⟩, ?_⟩, rfl, rfl⟩
    · exact hplace.obey h.honest.waits
        ((hplace.obeys h.honest.waits).setConfig ⟨hplaced, hget, hge⟩)
    · exact hplace.obey hopened ((hplace.obeys hopened).setConfig hm.le)
  · rw [if_neg hge]
    exact ⟨_, rfl, ⟨h.honest, hopened⟩, rfl, rfl⟩

theorem datagram (h : Holds calls m s is) (msg : DatagramMsg Chunk) (assembled : ℕ)
    (hn : s.numbers msg.rawKypacketSeq msg.rawGroupSeq = n) (hk : n.kypacketSeq = i)
    (hg : n.groupSeq = groupOf (packets calls) i) (hx : OfPacket calls i msg.content) :
    ∃ s' b, s.select (.message (.datagram msg) assembled) = .ok (s', b) ∧ Holds calls m s' is ∧
      s'.kypacketSequencer = n.kypacketSequencer ∧ s'.groupSequencer = n.groupSequencer := by
  simp only [State.select, VideoState.receive, VideoState.receiveDatagram, hn, hk, hg]
  by_cases hlt : i < s.nextKypacketSeq
  · rw [if_pos hlt]
    exact ⟨_, _, rfl, h.congr rfl rfl rfl, rfl, rfl⟩
  · rw [if_neg hlt]
    obtain ⟨pre, g, post, p, hplace, hins, hgs⟩ :=
      PendingGroups.insertDatagram_place h.honest.ordered
      (groupOf (packets calls) i) i msg.content assembled
    have hp : g.Ordered := hplace.all h.honest.ordered.each Pending.Ordered.new
    obtain ⟨hr, hobeys⟩ := honest_inserted hp hx (not_lt.mp hlt) (hplace.obeys h.honest.waits) hins
    generalize PendingGroups.insertDatagram s.pendingGroups (groupOf (packets calls) i) i
      msg.content
      assembled = out at hins hgs hr ⊢
    obtain ⟨r, gs'⟩ := out
    obtain rfl : r = .ok () := hr
    obtain rfl : gs' = _ := hgs
    refine ⟨_, _, rfl, ⟨⟨hplace.ordered h.honest.ordered (hp.inserted hins),
      hplace.obey h.honest.waits hobeys, h.honest.inOrder, h.honest.behind, h.honest.delivered⟩,
      hplace.obey h.opened (opened_inserted (hplace.obeys h.opened) hins)⟩, rfl, rfl⟩

theorem take (h : Holds calls m s is) (now : ℕ) :
    ∃ s', s.take now = .ok (s', false) ∧ (∃ is', Holds calls m s' is') ∧
      s'.kypacketSequencer = s.kypacketSequencer ∧ s'.groupSequencer = s.groupSequencer := by
  obtain ⟨a, gs', htake, hstep⟩ :=
    Groups.takeNextPacket_step h.honest.ordered maxBuffering s.nextKypacketSeq now
  rw [State.take, htake]
  cases hstep with
  | none | deadline => exact ⟨_, rfl, ⟨is, h.congr rfl rfl rfl⟩, rfl, rfl⟩
  | @packet drained g rest b taken p hgs hpoll _ htook =>
    refine ⟨_, rfl, ⟨_, h.honest.took hgs hpoll htook, ?_⟩, rfl, rfl⟩
    have hopened : Groups.Obey (Video.opened m) (drained ++ g :: rest) := hgs ▸ h.opened
    refine hopened.took htook (fun hb ↦ ?_)
    cases htook with
    | config hc => exact (hopened g (by simp)).ready _ hc
    | datagram => cases hb

end Holds

def labelled : Loop (Bytes × State) (Arrival (ℕ × Bytes) ℕ) ℕ Fault :=
  Driver.receiver process ((plainReaders recvStreamPacket parse .stream .datagram).comap Prod.snd)

def Short (calls : List Call) : Prop := ∀ i (c : Coding calls i), c.pieces.length < 2 ^ 31

structure Receives (calls : List Call) (as : List (Arrival (ℕ × Bytes) ℕ)) (x : Bytes × State) :
    Prop where
  tracks : Tracks (packets calls) as x
  holds : ∃ is, Holds calls (as.countP Arrival.isRecord) x.2 is

namespace Receives

variable {as : List (Arrival (ℕ × Bytes) ℕ)} {a : Arrival (ℕ × Bytes) ℕ} {x : Bytes × State}

theorem start (h : Succeeds sendDriver calls) (stats : ProtocolStats) :
    Receives calls [] (written (sendDriver.sendAll .start calls), .start [] stats) := by
  rw [h.written_eq isVideo_sendDriver]
  exact ⟨.start _ _, [], .start _ _, by simp [Groups.Obey, VideoState.start]⟩

theorem inner (h : Receives calls as x) (now : ℕ) :
    ∃ x' b, labelled.inner x now = .ok (x', b) ∧ Receives calls as x' := by
  obtain ⟨stream, s⟩ := x
  obtain ⟨is, hholds⟩ := h.holds
  obtain ⟨s', htake, hholds', hk, hg⟩ := hholds.take now
  refine ⟨(stream, s'), false, ?_, h.tracks.congr hk hg, hholds'⟩
  simp only [labelled, Driver.receiver, process, htake, Except.map]

theorem record (h : Receives calls as x) (hsend : Succeeds sendDriver calls)
    (hsized : Sized (packets calls)) {clock : ℕ}
    (hnet : Network (packets calls) (sendDriver.sendAll .start calls) (as ++ [.record clock])) :
    ∃ x' b, labelled.select x (.record clock) = .ok (x', b) ∧
      Receives calls (as ++ [.record clock]) x' := by
  obtain ⟨stream, s⟩ := x
  obtain ⟨is, hholds⟩ := h.holds
  rw [labelled, receiver_comap_select]
  obtain ⟨hdrop, rfl⟩ | ⟨j, js, hget, hdrop, rfl⟩ := h.tracks.front
  -- The stream has ended, and its reader with it.
  · refine ⟨([], s), false, rfl, h.tracks.ended hdrop, is, hholds.honest, ?_⟩
    rw [countP_record]
    exact opened_mono (Nat.le_succ _) hholds.opened
  · obtain ⟨packet, hpacket, hc, hread⟩ := recvStreamPacket_record hsend hsized
      (mem_configs.mp (List.mem_of_getElem? hget)) (recordsOf (packets calls) js)
    have hn := h.tracks.numbers hnet (hdrop ▸ trueNumbers_record j js clock)
    obtain ⟨s', hsel, hholds', hk, hg⟩ := hholds.stream
      ⟨packet, UInt32.ofNat j, UInt32.ofNat (groupOf (packets calls) j)⟩ clock hn rfl rfl
      (group_configs hget) hpacket hc
    refine ⟨(recordsOf (packets calls) js, s'), true, plainReceiver_record hread hsel,
      h.tracks.record hdrop hk hg, is, ?_⟩
    rw [countP_record]
    exact hholds'

theorem datagram {d : ℕ × Bytes} {clock : ℕ} (h : Receives calls as x)
    (hsend : Succeeds sendDriver calls) (hshort : Short calls)
    (hnet : Network (packets calls) (sendDriver.sendAll .start calls) (as ++ [.datagram d clock])) :
    ∃ x' b, labelled.select x (.datagram d clock) = .ok (x', b) ∧
      Receives calls (as ++ [.datagram d clock]) x' := by
  obtain ⟨stream, s⟩ := x
  obtain ⟨i, bytes⟩ := d
  obtain ⟨is, hholds⟩ := h.holds
  obtain ⟨o, ho, hbytes⟩ := hnet.origin (.datagram (i, bytes) clock) (by simp)
  obtain ⟨content, hx, hparse⟩ := parse_datagram hsend ho hbytes (hshort i)
  have hn := h.tracks.numbers hnet (trueNumbers_datagram _ i bytes clock)
  obtain ⟨s', b, hsel, hholds', hk, hg⟩ := hholds.datagram
    ⟨content, UInt32.ofNat i, UInt32.ofNat (groupOf (packets calls) i)⟩ clock hn rfl rfl hx
  rw [labelled, receiver_comap_select]
  refine ⟨(stream, s'), b, plainReceiver_datagram hparse hsel, h.tracks.datagram hk hg, is, ?_⟩
  rw [countP_datagram]
  exact hholds'

theorem select (h : Receives calls as x) (hsend : Succeeds sendDriver calls)
    (hsized : Sized (packets calls)) (hshort : Short calls)
    (hnet : Network (packets calls) (sendDriver.sendAll .start calls) (as ++ [a])) :
    ∃ x' b, labelled.select x a = .ok (x', b) ∧ Receives calls (as ++ [a]) x' := by
  cases a with
  | record clock => exact h.record hsend hsized hnet
  | datagram d clock => exact h.datagram hsend hshort hnet
  | timer =>
    obtain ⟨stream, s⟩ := x
    obtain ⟨is, hholds⟩ := h.holds
    refine ⟨(stream, s), s.deadline.isSome, rfl, h.tracks.timer, is, ?_⟩
    rw [countP_timer]
    exact hholds

end Receives

/-- Whatever is lost, late or repeated on the way, the receiver does not fail, and the client gets
packets that were sent, in the order in which they were sent, each media packet right under its
config. -/
theorem delivers_in_order (hsend : Succeeds sendDriver calls) (hsized : Sized (packets calls))
    (hshort : Short calls) (stats : ProtocolStats) (es : List (Event (Arrival (ℕ × Bytes) ℕ) ℕ))
    (hnet : Network (packets calls) (sendDriver.sendAll .start calls) (es.map Event.input)) :
    ∃ x, labelled.run (written (sendDriver.sendAll .start calls), .start [] stats) es = .ok x ∧
      ∃ is, InOrder AVPacket.isConfig (packets calls) is ∧
        x.2.txClient.map some = is.map ((packets calls)[·]?) := by
  have hrun : ∃ x,
    labelled.run (written (sendDriver.sendAll .start calls), .start [] stats) es = .ok x ∧
      Receives calls (es.map Event.input) x := by
    refine run_ok (motive := fun es x ↦ Receives calls (es.map Event.input) x)
      (.start hsend stats) ?_
      (fun pre e post x now _ _ h ↦ h.inner now)
    intro pre e post x hes _ hx
    rw [hes, List.append_cons, List.map_append, List.map_append] at hnet
    rw [List.map_append]
    exact hx.select hsend hsized hshort hnet.of_append
  obtain ⟨x, hrun, hreceives⟩ := hrun
  obtain ⟨is, hholds⟩ := hreceives.holds
  exact ⟨x, hrun, is, hholds.honest.inOrder, hholds.honest.delivered⟩

section Small

def smallConfig : AVPacket := .media ⟨⟨true, false, 0, 1⟩, [9]⟩

def smallMedia : AVPacket := .media ⟨⟨false, false, 0, 3⟩, [1, 2, 3]⟩

def smallCalls : List Call := [⟨smallConfig, 7, some 22, none⟩, ⟨smallMedia, 7, some 22, none⟩]

def smallSent : List Outcome := sendDriver.sendAll .start smallCalls

def smallArrivals : List (Event (Arrival (ℕ × Bytes) ℕ) ℕ) :=
  [⟨.datagram (1, (sentDatagrams smallSent).getD 1 []) 0, fun _ ↦ 0⟩, ⟨.record 0, fun _ ↦ 0⟩,
    ⟨.datagram (1, (sentDatagrams smallSent).getD 0 []) 0, fun _ ↦ 0⟩]

theorem small_short : Short smallCalls := by
  intro i c
  have hlen : c.data.length ≤ 15 := by
    have hcall := List.mem_of_getElem? c.call
    rw [Coding.data, List.length_append, MediaPacketHeader.length_of_serialize c.serialized]
    simp only [smallCalls, smallConfig, smallMedia, List.mem_cons, Call.mk.injEq,
      AVPacket.media.injEq, List.not_mem_nil, or_false] at hcall
    obtain ⟨h, -⟩ | ⟨h, -⟩ := hcall <;> rw [h] <;> decide
  exact (length_chunks_le _ _ _).trans_lt (hlen.trans_lt (by decide))

theorem small_network : Network (packets smallCalls) smallSent (smallArrivals.map Event.input) := by
  have hnumbers : trueNumbers (configs AVPacket.isConfig (packets smallCalls))
      (smallArrivals.map Event.input) = [1, 0, 1] := by decide
  refine ⟨?_, ?_, ?_⟩
  · have horigin : ∀ k < 2,
      smallSent[1]?.any (fun o ↦ (sentDatagrams smallSent).getD k [] ∈ o.datagrams) =
        true := by
      decide +kernel
    have hfrom : ∀ k < 2, Arrival.From (κ := ℕ) smallSent
        (.datagram (1, (sentDatagrams smallSent).getD k []) 0) := by
      intro k hk
      obtain ⟨o, ho, hmem⟩ := (Option.any_eq_true _ _).mp (horigin k hk)
      exact ⟨o, ho, of_decide_eq_true hmem⟩
    simp only [smallArrivals, List.map_cons, List.map_nil, List.forall_mem_cons, List.not_mem_nil,
      false_imp_iff, implies_true, and_true]
    exact ⟨hfrom 1 (by decide), trivial, hfrom 0 (by decide)⟩
  · rw [hnumbers]
    exact boundedDisorder_of_lt (by decide) (by decide)
  · rw [hnumbers]
    exact boundedDisorder_of_lt (by decide) (by decide)

theorem delivers_in_order_small :
    ∃ x, labelled.run (written smallSent, .start [] ⟨none, none, none, none⟩) smallArrivals =
      .ok x ∧
        x.2.txClient = [smallConfig, smallMedia] ∧
        ∃ is, InOrder AVPacket.isConfig (packets smallCalls) is ∧
          x.2.txClient.map some = is.map ((packets smallCalls)[·]?) := by
  have hsend : Succeeds sendDriver smallCalls := ⟨by decide, by decide +kernel⟩
  have hsized : Sized (packets smallCalls) := by
    simp [Sized, packets, smallCalls, smallConfig, smallMedia]
  obtain ⟨x, hrun, hdelivered⟩ :=
    delivers_in_order hsend hsized small_short ⟨none, none, none, none⟩
    smallArrivals small_network
  obtain ⟨y, hrun', htx⟩ :=
    ok_of_map (show (labelled.run (written smallSent, .start [] ⟨none, none, none, none⟩)
    smallArrivals).map (fun x ↦ x.2.txClient) = .ok [smallConfig, smallMedia] by decide +kernel)
  cases hrun.symm.trans hrun'
  exact ⟨x, hrun, htx, hdelivered⟩

end Small

end Kymux.Video
