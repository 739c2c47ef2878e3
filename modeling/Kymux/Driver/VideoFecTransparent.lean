import Kymux.Driver.Quiescent
import Kymux.Driver.VideoFecLossless

namespace Kymux.VideoFec

open Av BigEndian Driver EventLoop Fec Governed Timed

variable {rq : RaptorQ} {calls : List Call} {stats : ProtocolStats} {i : ℕ}
  {as : List (Arrival (ℕ × Bytes) Clock)} {a : Arrival (ℕ × Bytes) Clock} {clock : Clock}
  {es : List (Event (Arrival (ℕ × Bytes) Clock) ℕ)}

def initial (rq : RaptorQ) (calls : List Call) (stats : ProtocolStats) : Bytes × State rq :=
  (written ((sendDriver rq).sendAll .start calls), .start .new stats)

/-- A network that only reorders: all configs come, and of every media packet enough symbols, in any
order and any number. There is room for every packet when it comes, and no drain is so late that it
could skip one. -/
structure Reordered (rq : RaptorQ) (calls : List Call) (stats : ProtocolStats)
    (es : List (Event (Arrival (ℕ × Bytes) Clock) ℕ)) : Prop where
  origin : ∀ a ∈ es.map Event.input, a.From ((sendDriver rq).sendAll .start calls)
  configs : (es.map Event.input).countP Arrival.isRecord =
    (configs AVPacket.isConfig (packets calls)).length
  enough : ∀ i (c : Coding calls i),
    rq.Enough c.data c.mtu (c.repair rq) (arrivedKeys (es.map Event.input) i)
  room : ∀ pre e post x, es = pre ++ e :: post →
    (labelled rq).run (initial rq calls stats) pre = .ok x →
    Fits x e.input
  early : ∀ pre e post x now, es = pre ++ e :: post →
    (labelled rq).Reads (initial rq calls stats) pre e x now →
      ∀ g ∈ x.2.pendingGroups.pendingGroups, ∀ d ∈ g.datagrams, now < d.instant + maxBuffering

structure Keeps (rq : RaptorQ) (calls : List Call) (stats : ProtocolStats)
    (as : List (Arrival (ℕ × Bytes) Clock)) (x : Bytes × State rq) : Prop where
  receives : Receives rq calls as x
  lossless : Lossless rq calls stats (as.countP Arrival.isRecord) (arrivedKeys as) x.2

namespace Keeps

variable {x : Bytes × State rq}

theorem start (h : Succeeds (sendDriver rq) calls) (stats : ProtocolStats) :
    Keeps rq calls stats [] (initial rq calls stats) :=
  ⟨.start h stats, .start rq calls stats⟩

theorem inner (h : Keeps rq calls stats as x) {now : ℕ}
    (hearly : ∀ g ∈ x.2.pendingGroups.pendingGroups, ∀ d ∈ g.datagrams,
      now < d.instant + maxBuffering) :
    ∃ x' b, (labelled rq).inner x now = .ok (x', b) ∧ Keeps rq calls stats as x' := by
  obtain ⟨stream, s⟩ := x
  obtain ⟨is, hholds⟩ := h.receives.holds
  cases hdrain : s.drain now with
  | error e => exact absurd hdrain (State.drain_ne_error s now e)
  | ok out =>
    obtain ⟨s', b⟩ := out
    have hinner : (labelled rq).inner (stream, s) now = .ok ((stream, s'), b) := by
      simp only [labelled, Driver.receiver, process, hdrain, Except.map]
    exact ⟨(stream, s'), b, hinner, h.receives.inner hinner, h.lossless.drain hholds hearly hdrain⟩

theorem record (h : Keeps rq calls stats as x) (hsend : Succeeds (sendDriver rq) calls)
    (hcalls : Acceptable rq calls)
    (hnet : Network (packets calls) ((sendDriver rq).sendAll .start calls) (as ++ [.record clock]))
    (hmore : as.countP Arrival.isRecord < (configs AVPacket.isConfig (packets calls)).length)
    (hfits : Fits x (.record clock)) :
    ∃ x' b, (labelled rq).select x (.record clock) = .ok (x', b) ∧
      Keeps rq calls stats (as ++ [.record clock]) x' := by
  obtain ⟨stream, s⟩ := x
  obtain ⟨is, hholds⟩ := h.receives.holds
  obtain ⟨hdrop, -⟩ | ⟨j, js, hget, hdrop, rfl⟩ := h.receives.tracks.front
  · rw [List.drop_eq_nil_iff] at hdrop
    omega
  obtain ⟨media, hpacket, hconfig, hread⟩ := recvStreamPacket_recordOf hsend hcalls.sized
    (mem_configs.mp (List.mem_of_getElem? hget)) (recordsOf (packets calls) js)
  have hshort : media.payload.length ≤ min maxVideoPayload maxConfigPayload :=
    hcalls.short media (List.mem_of_getElem? hpacket) hconfig
  rw [if_pos hshort] at hread
  have hn := h.receives.tracks.numbers hnet (hdrop ▸ trueNumbers_record j js clock)
  simp only [Fits, hread, Except.map, State.FitsRead] at hfits
  obtain ⟨s', hsel, hlossless⟩ :=
    h.lossless.stream hholds hget hn rfl rfl hconfig hfits clock
  have hselect : (labelled rq).select
      (recordOf (packets calls) j ++ recordsOf (packets calls) js, s) (.record clock) =
        .ok ((recordsOf (packets calls) js, s'), true) := by
    rw [labelled, receiver_comap_select]
    exact fecReceiver_record hread hsel
  refine ⟨_, _, hselect, h.receives.record hsend hcalls.sized hnet hselect, ?_⟩
  have harrived : arrivedKeys (as ++ [.record clock]) = arrivedKeys as :=
    funext fun i ↦ arrivedKeys_other (fun _ _ ↦ by simp)
  rw [countP_record, harrived]
  exact hlossless

theorem datagram {d : ℕ × Bytes} (h : Keeps rq calls stats as x) (hrq : rq.Genuine)
    (hsend : Succeeds (sendDriver rq) calls) (hcalls : Acceptable rq calls)
    (hnet : Network (packets calls) ((sendDriver rq).sendAll .start calls)
      (as ++ [.datagram d clock])) (hfits : Fits x (.datagram d clock)) :
    ∃ x' b, (labelled rq).select x (.datagram d clock) = .ok (x', b) ∧
      Keeps rq calls stats (as ++ [.datagram d clock]) x' := by
  obtain ⟨stream, s⟩ := x
  obtain ⟨i, bytes⟩ := d
  obtain ⟨is, hholds⟩ := h.receives.holds
  obtain ⟨o, ho, hbytes⟩ := hnet.origin (.datagram (i, bytes) clock) (by simp)
  obtain ⟨msg, hparse⟩ := parse_accepted hsend ho hbytes (hcalls.accepted i)
  obtain ⟨hraw, hraw', hx⟩ := parse_datagram hsend ho hbytes hparse
  have hn := h.receives.tracks.numbers hnet (trueNumbers_datagram _ i bytes clock)
  rw [← hraw, ← hraw'] at hn
  simp only [Fits, hparse, Except.map, State.FitsRead] at hfits
  obtain ⟨s', b, hsel, hlossless⟩ :=
    h.lossless.datagram hrq hholds hn rfl rfl (hcalls.accepted i) hx hfits clock
  have hselect :
      (labelled rq).select (stream, s) (.datagram (i, bytes) clock) = .ok ((stream, s'), b) := by
    rw [labelled, receiver_comap_select]
    exact fecReceiver_datagram hparse hsel
  refine ⟨_, _, hselect, h.receives.datagram hrq hsend hnet hselect, ?_⟩
  have harrived : arrivedKeys (as ++ [.datagram (i, bytes) clock]) =
      Function.update (arrivedKeys as) i (insert msg.content.payloadId.key (arrivedKeys as i)) := by
    funext k
    by_cases hk : k = i
    · subst hk
      rw [Function.update_self, arrivedKeys_datagram hparse]
    · rw [Function.update_of_ne hk]
      exact arrivedKeys_other (fun bytes' clock' heq ↦ hk (by cases heq; rfl))
  rw [countP_datagram, harrived]
  exact hlossless

theorem timer (h : Keeps rq calls stats as x) (hrq : rq.Genuine)
    (hsend : Succeeds (sendDriver rq) calls) (hcalls : Acceptable rq calls)
    (hnet : Network (packets calls) ((sendDriver rq).sendAll .start calls) (as ++ [.timer])) :
    ∃ x' b, (labelled rq).select x .timer = .ok (x', b) ∧
    Keeps rq calls stats (as ++ [.timer]) x' := by
  have hselect : (labelled rq).select x .timer = .ok (x, x.2.deadline.isSome) := rfl
  refine ⟨_, _, hselect, h.receives.select hrq hsend hcalls.sized hnet hselect, ?_⟩
  have harrived : arrivedKeys (as ++ [.timer]) = arrivedKeys as :=
    funext fun i ↦ arrivedKeys_other (fun _ _ ↦ by simp)
  rw [countP_timer, harrived]
  exact h.lossless

end Keeps

/-- When the loop waits for the next input, there is nothing to take. -/
theorem labelled_quiet {x : Bytes × State rq}
    (h : (labelled rq).run (initial rq calls stats) es = .ok x) :
    ∃ now, ∀ ref, x.2.pendingGroups.nextPacket x.2.nextKypacketSeq now ≠ .ready ref := by
  refine run_settles
    (Q := fun x ↦ ∃ now, ∀ ref, x.2.pendingGroups.nextPacket x.2.nextKypacketSeq now ≠
    .ready ref) ⟨0, nofun⟩ ?_ ?_ h
  · intro x now x' hinner
    refine ⟨now, fun ref href ↦ ?_⟩
    exact (State.drain_breaks (receiver_inner hinner).2).exact.1 ⟨ref, href⟩
  · rintro x a x' ⟨now, hquiet⟩ hselect
    refine ⟨now, fun ref href ↦ hquiet ref ?_⟩
    obtain ⟨e, he, -⟩ | ⟨stream, he⟩ | ⟨stream, input, he⟩ := receiver_select hselect
    · cases he
    · cases he
      exact href
    · obtain ⟨⟨s', b⟩, hsel, hout⟩ := ok_of_map he.symm
      cases hout
      exact (congrFun (State.select_skips hsel).1 now).symm.trans href

theorem Reordered.keeps (h : Reordered rq calls stats es) (hrq : rq.Genuine)
    (hsend : Succeeds (sendDriver rq) calls) (hcalls : Acceptable rq calls)
    (hlen : calls.length < 2 ^ 31) :
    ∃ x, (labelled rq).run (initial rq calls stats) es = .ok x ∧
      Keeps rq calls stats (es.map Event.input) x := by
  have hnet : Network (packets calls) ((sendDriver rq).sendAll .start calls)
      (es.map Event.input) := by
    refine .of_lt ?_ ?_ h.origin
    · simpa [packets] using hlen
    · rw [hsend.length (isVideo_sendDriver rq)]
      simp [packets]
  refine run_ok (motive := fun es x ↦ Keeps rq calls stats (es.map Event.input) x)
    (.start hsend stats) ?_ ?_
  · intro pre e post x hes hrun hx
    have hfits := h.room pre e post x hes hrun
    have hcount := h.configs
    rw [hes, List.append_cons, List.map_append, List.map_append, List.map_singleton] at hnet
    rw [hes, List.map_append, List.map_cons, List.countP_append] at hcount
    rw [List.map_append, List.map_singleton]
    cases hinput : e.input with
    | record clock =>
      rw [hinput] at hfits hnet hcount
      rw [List.countP_cons_of_pos rfl] at hcount
      exact hx.record hsend hcalls hnet.of_append (by omega) hfits
    | datagram d clock =>
      rw [hinput] at hfits hnet
      exact hx.datagram hrq hsend hcalls hnet.of_append hfits
    | timer =>
      rw [hinput] at hnet
      exact hx.timer hrq hsend hcalls hnet.of_append
  · intro pre e post x now hes hreads hx
    exact hx.inner (h.early pre e post x now hes hreads)

/-- A network that only reorders is not seen by the client. -/
theorem transparent (hrq : rq.Genuine) (hsend : Succeeds (sendDriver rq) calls)
    (hcalls : Acceptable rq calls) (hlen : calls.length < 2 ^ 31)
    (hfirst : ∀ packet, (packets calls).head? = some packet → packet.isConfig = true)
    (stats : ProtocolStats) (es : List (Event (Arrival (ℕ × Bytes) Clock) ℕ))
    (hnet : Reordered rq calls stats es) :
    ∃ x, (labelled rq).run (initial rq calls stats) es = .ok x ∧ x.2.txClient = packets calls ∧
      x.2.protocolStats.droppedPackets = stats.droppedPackets := by
  obtain ⟨x, hrun, hreceives, hlossless⟩ := hnet.keeps hrq hsend hcalls hlen
  obtain ⟨now, hquiet⟩ := labelled_quiet hrun
  obtain ⟨is, hholds⟩ := hreceives.holds
  refine ⟨x, hrun, ?_, hlossless.dropped⟩
  have hall : x.2.nextKypacketSeq = (packets calls).length := by
    refine hlossless.inTurn.exhausted hholds hfirst hquiet (fun j hj hle ↦ ?_)
      (fun j hj hmedia hle ↦ ?_)
    · refine hlossless.read j ?_ hle
      rw [hnet.configs, List.take_length]
      exact mem_configs.mpr hj
    · obtain ⟨c⟩ := coding_of_media hsend hj hmedia
      have henough := hnet.enough j c
      obtain ⟨g, hg, hgroup, hdatagram | ⟨parts, hparts, hkeys⟩⟩ :=
        hlossless.received j henough.nonempty hle
      · exact ⟨g, hg, hgroup, hdatagram⟩
      -- Nothing that is complete is still collected.
      · obtain ⟨c', hcollecting⟩ := (hlossless.coded g hg).segments _ hparts
        obtain rfl := c.unique c'
        exact absurd hkeys (hcollecting.short _ henough)
  rw [hlossless.inTurn.delivered, hall, List.take_length]

section Small

theorem oneSymbol_enough {data : Bytes} {mtu : UInt16} {repair : ℕ} {keys : Set SymbolKey}
    (h : keys.Nonempty) : RaptorQ.oneSymbol.Enough data mtu repair keys where
  nonempty := h
  yields packets p hmem _ _ :=
    congrArg some (RaptorQ.oneSymbol_genuine data mtu repair packets p hmem _ rfl)

def roomThroughout (calls : List Call) (es : List (Event (Arrival (ℕ × Bytes) Clock) ℕ)) : Bool :=
  (List.range es.length).all (fun k ↦ es[k]?.all (fun e ↦
    match (labelled .oneSymbol).run (initial .oneSymbol calls noStats) (es.take k) with
    | .ok x => decide (Fits x e.input)
    | .error _ => true))

def brings (i : ℕ) : Arrival (ℕ × Bytes) Clock → Bool
  | .datagram d _ => d.1 = i && (parse d.2).isOk
  | _ => false

theorem arrivedKeys_nonempty (h : as.any (brings i) = true) : (arrivedKeys as i).Nonempty := by
  obtain ⟨a, ha, hbrings⟩ := List.any_eq_true.mp h
  cases a with
  | record | timer => cases hbrings
  | datagram d clock =>
    obtain ⟨j, bytes⟩ := d
    simp only [brings, Bool.and_eq_true, decide_eq_true_eq] at hbrings
    obtain ⟨rfl, hok⟩ := hbrings
    cases hparse : parse bytes with
    | error e =>
      rw [hparse] at hok
      cases hok
    | ok msg => exact ⟨_, bytes, clock, msg, ha, hparse, rfl⟩

/-- What is left to check of a network, when the clock stands still. -/
theorem reordered_of_checks
    (horigin : ∀ a ∈ es.map Event.input, a.From ((sendDriver .oneSymbol).sendAll .start calls))
    (hconfigs : (es.map Event.input).countP Arrival.isRecord =
      (configs AVPacket.isConfig (packets calls)).length)
    (harrived : ∀ i < (packets calls).length, configAt AVPacket.isConfig (packets calls) i = false →
      (es.map Event.input).any (brings i) = true)
    (hroom : roomThroughout calls es = true) (hnow : ∀ e ∈ es, ∀ n, e.now n = 0) :
    Reordered .oneSymbol calls noStats es where
  origin := horigin
  configs := hconfigs
  enough i c :=
    oneSymbol_enough (arrivedKeys_nonempty (harrived i c.placed.bounded c.placed.config))
  room pre e post x hes hrun := by
    have hlt : pre.length < es.length := by simp [hes]
    have hfits := List.all_eq_true.mp hroom pre.length (List.mem_range.mpr hlt)
    have hget : es[pre.length]? = some e := by simp [hes]
    have htake : es.take pre.length = pre := by simp [hes]
    rw [hget, htake, hrun, Option.all_some] at hfits
    exact of_decide_eq_true hfits
  early pre e post x now hes hreads := by
    obtain ⟨_, _, n, -, -, -, rfl⟩ := hreads
    intro g _ d _
    rw [hnow e (by simp [hes])]
    exact Nat.add_pos_right _ (by decide)

def reorderedArrivals : List (Event (Arrival (ℕ × Bytes) Clock) ℕ) :=
  [⟨.datagram (1, (sentDatagrams smallSent).getD 1 []) ⟨0, 0, 0⟩, fun _ ↦ 0⟩,
    ⟨.datagram (1, (sentDatagrams smallSent).getD 0 []) ⟨0, 0, 0⟩, fun _ ↦ 0⟩, recordEvent,
    ⟨.datagram (1, (sentDatagrams smallSent).getD 1 []) ⟨0, 0, 0⟩, fun _ ↦ 0⟩]

theorem small_reordered : Reordered .oneSymbol smallCalls noStats reorderedArrivals := by
  refine reordered_of_checks ?_ (by decide +kernel) (by decide +kernel) (by decide +kernel) ?_
  · have horigin : ∀ k < 2,
      smallSent[1]?.any (fun o ↦ (sentDatagrams smallSent).getD k [] ∈ o.datagrams) =
        true := by
      decide +kernel
    have hfrom : ∀ k < 2, Arrival.From (κ := Clock) smallSent
        (.datagram (1, (sentDatagrams smallSent).getD k []) ⟨0, 0, 0⟩) := by
      intro k hk
      obtain ⟨o, ho, hmem⟩ := (Option.any_eq_true _ _).mp (horigin k hk)
      exact ⟨o, ho, of_decide_eq_true hmem⟩
    simp only [reorderedArrivals, recordEvent, List.map_cons, List.map_nil, List.forall_mem_cons,
      List.not_mem_nil, false_imp_iff, implies_true, and_true]
    exact ⟨hfrom 1 (by decide), hfrom 0 (by decide), trivial, hfrom 1 (by decide)⟩
  · simp [reorderedArrivals, recordEvent]

def smallCoding : Coding smallCalls 1 :=
  ⟨⟨⟨false, false, 0, 0⟩, []⟩, ⟨7, some 42, none⟩, 42, 0x80 :: List.replicate 11 0, rfl, rfl, rfl,
    rfl⟩

theorem small_coding : ∀ i, Coding smallCalls i → i = 1
  | 0, c => by
    have hcall := c.call
    have hmedia := c.isMedia
    simp only [smallCalls, smallConfig, List.getElem?_cons_zero, Option.some.injEq, Call.mk.injEq,
      AVPacket.media.injEq] at hcall
    rw [← hcall.1] at hmedia
    cases hmedia
  | 1, _ => rfl
  | i + 2, c => by
    have hcall := c.call
    simp [smallCalls] at hcall

theorem small_acceptable : Acceptable .oneSymbol smallCalls where
  sized := by simp [Sized, packets, smallCalls, smallConfig, smallMedia]
  short := by simp [packets, smallCalls, smallConfig, smallMedia]
  accepted i c := by
    obtain rfl := small_coding i c
    rw [c.unique smallCoding]
    exact ⟨rfl, by decide +kernel, ⟨by decide, by decide, by decide⟩, by decide +kernel⟩

theorem transparent_small :
    ∃ x, (labelled .oneSymbol).run (initial .oneSymbol smallCalls noStats) reorderedArrivals =
      .ok x ∧
        x.2.txClient = [smallConfig, smallMedia] ∧ x.2.protocolStats.droppedPackets = none :=
  transparent RaptorQ.oneSymbol_genuine ⟨by decide, by decide +kernel⟩ small_acceptable (by decide)
    (by simp [packets, smallCalls, smallConfig, AVPacket.isConfig]) noStats reorderedArrivals
    small_reordered

def mismatchedCalls : List Call :=
  [⟨smallConfig, 7, some 42, none⟩, ⟨.media ⟨⟨false, false, 0, 0⟩, [7]⟩, 7, some 42, none⟩]

def mismatchedSent : List Outcome := (sendDriver .oneSymbol).sendAll .start mismatchedCalls

def mismatchedArrivals : List (Event (Arrival (ℕ × Bytes) Clock) ℕ) :=
  [recordEvent, ⟨.datagram (1, (sentDatagrams mismatchedSent).headD []) ⟨0, 0, 0⟩, fun _ ↦ 0⟩]

theorem mismatched_reordered : Reordered .oneSymbol mismatchedCalls noStats mismatchedArrivals := by
  refine reordered_of_checks ?_ (by decide +kernel) (by decide +kernel) (by decide +kernel) ?_
  · have horigin : mismatchedSent[1]?.any
        (fun o ↦ (sentDatagrams mismatchedSent).headD [] ∈ o.datagrams) = true := by
      decide +kernel
    obtain ⟨o, ho, hmem⟩ := (Option.any_eq_true _ _).mp horigin
    simp only [mismatchedArrivals, recordEvent, List.map_cons, List.map_nil, List.forall_mem_cons,
      List.not_mem_nil, false_imp_iff, implies_true, and_true]
    exact ⟨trivial, o, ho, of_decide_eq_true hmem⟩
  · simp [mismatchedArrivals, recordEvent]

/-- The receiver puts a packet together whose header does not tell its length, and fails. -/
theorem transparent_mismatched : Succeeds (sendDriver .oneSymbol) mismatchedCalls ∧
    mismatchedCalls.length < 2 ^ 31 ∧
    (∀ packet, (packets mismatchedCalls).head? = some packet → packet.isConfig = true) ∧
    Reordered .oneSymbol mismatchedCalls noStats mismatchedArrivals ∧
    ∀ x, (labelled .oneSymbol).run (initial .oneSymbol mismatchedCalls noStats) mismatchedArrivals ≠
      .ok x := by
  refine ⟨⟨by decide, by decide +kernel⟩, by decide,
    by simp [packets, mismatchedCalls, smallConfig, AVPacket.isConfig], mismatched_reordered,
    fun x hrun ↦ ?_⟩
  have hfails : ((labelled .oneSymbol).run (initial .oneSymbol mismatchedCalls noStats)
      mismatchedArrivals).isOk = false := by
    decide +kernel
  rw [hrun] at hfails
  cases hfails

end Small

end Kymux.VideoFec
