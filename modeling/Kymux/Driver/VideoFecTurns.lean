import Kymux.Driver.Idle
import Kymux.Driver.VideoFecDelivery

namespace Kymux.Driver

open Av Governed Timed

variable {α β : Type} {sent : List AVPacket} {genuine : ℕ → β → Prop} {is : List ℕ}
  {tx : List AVPacket} {next now maxBuffering : ℕ} {gs : Groups α β} {g : PendingGroup α β}
  {b : Bool} {taken : Taken α β} {p : Pending α β}

/-- A packet that does not come next is taken for one that waits for too long. If it is a config, a
media packet of its group waits behind it. -/
theorem Honest.out_of_turn (h : Honest sent genuine gs next tx is) (hg : g ∈ gs)
    (hpoll : g.poll gs.minInstant maxBuffering next now = .ready b)
    (htook : Pending.Took g.toPending b taken p) (hne : taken.kypacketSeq ≠ next) :
    next < taken.kypacketSeq ∧
      (∃ k ∈ gs, ∃ d ∈ k.datagrams, d.instant + maxBuffering ≤ now) ∧
      (taken.packet.isConfig = true →
        g.configPacket = .ready ⟨taken.packet, taken.kypacketSeq⟩ ∧ g.datagrams ≠ []) := by
  obtain ⟨-, hpacket, hge, -⟩ := h.canDeliver hg hpoll htook
  have hobeys := h.waits g hg
  -- The first media packet of the group comes next only if its config has gone.
  have hlate : g.datagrams ≠ [] ∧ ∃ k ∈ gs, ∃ d ∈ k.datagrams, d.instant + maxBuffering ≤ now := by
    obtain ⟨rfl, hnext⟩ | ⟨d, ds, hd, hb, hseq | ⟨instant, hm, hlate⟩⟩ :=
      Pending.poll_ready_cases hpoll
    · cases htook with
      | config hc =>
        rw [hc] at hnext
        exact absurd (of_decide_eq_true hnext) hne
    · have hmedia := hobeys.datagrams d (by simp [hd])
      cases htook with
      | @config c hc =>
        obtain ⟨hplaced, -, hge'⟩ := hobeys.ready c hc
        have hlt := hplaced.config_lt hmedia.1
        omega
      | datagram _ hd' =>
        rw [hd] at hd'
        cases hd'
        exact absurd hseq hne
    · obtain ⟨k, hk, d', hd', rfl⟩ := Groups.mem_of_minInstant hm
      exact ⟨by simp [hd], k, hk, d', hd', hlate⟩
  refine ⟨lt_of_le_of_ne hge (Ne.symm hne), hlate.2, fun hconfig ↦ ⟨?_, hlate.1⟩⟩
  cases htook with
  | config hc => exact hc
  | @datagram d ds expired kept hc hd =>
    have hplaced := (hobeys.datagrams d (by simp [hd])).1
    have hat := hplaced.config
    rw [configAt, show sent[d.kypacketSeq]? = some d.packet from hpacket, Option.any_some] at hat
    exact absurd (hat.symm.trans hconfig) (by decide)

end Kymux.Driver

namespace Kymux.VideoFec

open Av BigEndian Driver EventLoop Governed Unroll

variable {rq : RaptorQ} {calls : List Call}

/-- Gaps are skipped only when something has waited for too long, and a config only with media
behind it. -/
theorem skips_only_late (hrq : rq.Genuine) (hsend : Succeeds (sendDriver rq) calls)
    (hsized : Sized (packets calls)) (stats : ProtocolStats)
    (es : List (Event (Arrival (ℕ × Bytes) Clock) ℕ)) (x : Bytes × State rq)
    (hnet : Network (packets calls) ((sendDriver rq).sendAll .start calls) (es.map Event.input))
    (h : (labelled rq).At (written ((sendDriver rq).sendAll .start calls), .start .new stats) es x)
    (now kypacketSeq : ℕ) (packet : AVPacket) (fecStats : VideoFecStats) (gs : PendingGroups rq)
    (htake : x.2.pendingGroups.takeNextPacket x.2.nextKypacketSeq now =
      .ok (.packet kypacketSeq packet fecStats, gs)) (hne : kypacketSeq ≠ x.2.nextKypacketSeq) :
    x.2.nextKypacketSeq < kypacketSeq ∧
      (∃ g ∈ x.2.pendingGroups.pendingGroups, ∃ d ∈ g.datagrams, d.instant + maxBuffering ≤ now) ∧
      (packet.isConfig = true → ∃ g ∈ x.2.pendingGroups.pendingGroups,
        g.configPacket = .ready ⟨packet, kypacketSeq⟩ ∧ g.datagrams ≠ []) := by
  obtain ⟨is, hholds⟩ := (Receives.of_at hrq hsend hsized hnet h).holds
  obtain ⟨a, s', htake', hstep⟩ :=
    PendingGroups.takeNextPacket_step hholds.ordered x.2.nextKypacketSeq now
  rw [htake] at htake'
  cases htake'
  cases hstep with
  | @packet drained g rest b taken p hgs hnext hpoll hskip htook =>
    have hg : g ∈ x.2.pendingGroups.pendingGroups := by simp [hgs]
    obtain ⟨hlt, hlate, hconfig⟩ := Honest.out_of_turn hholds hg hpoll htook hne
    exact ⟨hlt, hlate, fun hc ↦ ⟨g, hg, hconfig hc⟩⟩

section Small

def Action.taken : Action → Option (ℕ × AVPacket)
  | .packet kypacketSeq p _ => some (kypacketSeq, p)
  | _ => Option.none

theorem packet_of_taken {r : Except Fault (Action × PendingGroups rq)} {kypacketSeq : ℕ}
    {packet : AVPacket} (h : r.map (fun y ↦ y.1.taken) = .ok (some (kypacketSeq, packet))) :
    ∃ fecStats gs, r = .ok (.packet kypacketSeq packet fecStats, gs) := by
  obtain ⟨⟨action, gs⟩, rfl, htaken⟩ := ok_of_map h
  cases action with
  | packet k p fecStats => cases htaken; exact ⟨fecStats, gs, rfl⟩
  | deadline | none => cases htaken

def recordEvent : Event (Arrival (ℕ × Bytes) Clock) ℕ := ⟨.record ⟨0, 0, 0⟩, fun _ ↦ 0⟩

def gapCalls : List Call := smallCalls ++ [⟨smallMedia, 7, some 42, none⟩]

def gapSent : List Outcome := (sendDriver .oneSymbol).sendAll .start gapCalls

def gapArrivals : List (Event (Arrival (ℕ × Bytes) Clock) ℕ) :=
  [recordEvent, ⟨.datagram (2, (sentDatagrams (gapSent.drop 2)).headD []) ⟨0, 0, 0⟩, fun _ ↦ 0⟩]

theorem gap_network : Network (packets gapCalls) gapSent (gapArrivals.map Event.input) := by
  have hnumbers : trueNumbers (configs AVPacket.isConfig (packets gapCalls))
      (gapArrivals.map Event.input) = [0, 2] := by decide
  refine ⟨?_, ?_, ?_⟩
  · have horigin : gapSent[2]?.any
        (fun o ↦ (sentDatagrams (gapSent.drop 2)).headD [] ∈ o.datagrams) = true := by
      decide +kernel
    obtain ⟨o, ho, hmem⟩ := (Option.any_eq_true _ _).mp horigin
    simp only [gapArrivals, recordEvent, List.map_cons, List.map_nil, List.forall_mem_cons,
      List.not_mem_nil, false_imp_iff, implies_true, and_true]
    exact ⟨trivial, o, ho, of_decide_eq_true hmem⟩
  · rw [hnumbers]
    exact boundedDisorder_of_lt (by decide) (by decide)
  · rw [hnumbers]
    exact boundedDisorder_of_lt (by decide) (by decide)

theorem skips_only_late_gap :
    ∃ x fecStats gs,
    (labelled .oneSymbol).run (written gapSent, .start .new noStats) gapArrivals = .ok x ∧
      x.2.pendingGroups.takeNextPacket x.2.nextKypacketSeq maxBuffering =
        .ok (.packet 2 smallMedia fecStats, gs) ∧
      x.2.nextKypacketSeq < 2 ∧
      (∃ g ∈ x.2.pendingGroups.pendingGroups, ∃ d ∈ g.datagrams,
        d.instant + maxBuffering ≤ maxBuffering) ∧
      (smallMedia.isConfig = true → ∃ g ∈ x.2.pendingGroups.pendingGroups,
        g.configPacket = .ready ⟨smallMedia, 2⟩ ∧ g.datagrams ≠ []) := by
  obtain ⟨x, hrun, hx⟩ := ok_of_map (show ((labelled .oneSymbol).run
    (written gapSent, .start .new noStats) gapArrivals).map
      (fun x ↦ (x.2.nextKypacketSeq, (x.2.pendingGroups.takeNextPacket x.2.nextKypacketSeq
        maxBuffering).map (fun y ↦ y.1.taken))) =
        .ok (1, .ok (some (2, smallMedia))) by decide +kernel)
  obtain ⟨hnext, htaken⟩ := Prod.mk.inj hx
  obtain ⟨fecStats, gs, htake⟩ := packet_of_taken htaken
  refine ⟨x, fecStats, gs, hrun, htake, skips_only_late RaptorQ.oneSymbol_genuine
    ⟨by decide, by decide +kernel⟩ ?_ noStats gapArrivals x gap_network (.inl hrun) maxBuffering 2
    smallMedia fecStats gs htake ?_⟩
  · simp [Sized, packets, gapCalls, smallCalls, smallConfig, smallMedia]
  · rw [hnext]
    decide

def forgedRecord : Bytes := [0, 0, 0, 5, 0, 0, 0, 0, 0xc0, 0, 0, 0, 0, 0, 0, 0, 0, 0, 0, 0]

def forgedCalls : List Call :=
  [⟨smallMedia, 7, some 42, none⟩, ⟨.media ⟨⟨true, false, 0, 0⟩, forgedRecord⟩, 7, some 42, none⟩]

def forgedSent : List Outcome := (sendDriver .oneSymbol).sendAll .start forgedCalls

def forgedArrivals : List (Event (Arrival (ℕ × Bytes) Clock) ℕ) :=
  [⟨.datagram (0, (sentDatagrams forgedSent).headD []) ⟨0, 0, 0⟩, fun _ ↦ 0⟩,
    recordEvent]

theorem forged_network : Network (packets forgedCalls) forgedSent
    ((forgedArrivals ++ [recordEvent]).map Event.input) := by
  have hnumbers : trueNumbers (configs AVPacket.isConfig (packets forgedCalls))
      ((forgedArrivals ++ [recordEvent]).map Event.input) = [0, 1] := by decide
  refine ⟨?_, ?_, ?_⟩
  · have horigin :
      forgedSent[0]?.any (fun o ↦ (sentDatagrams forgedSent).headD [] ∈ o.datagrams) = true := by
      decide +kernel
    obtain ⟨o, ho, hmem⟩ := (Option.any_eq_true _ _).mp horigin
    simp only [forgedArrivals, recordEvent, List.cons_append, List.nil_append, List.map_cons,
      List.map_nil, List.forall_mem_cons, List.not_mem_nil, false_imp_iff, implies_true, and_true]
    exact ⟨⟨o, ho, of_decide_eq_true hmem⟩, trivial, trivial⟩
  · rw [hnumbers]
    exact boundedDisorder_of_lt (by decide) (by decide)
  · rw [hnumbers]
    exact boundedDisorder_of_lt (by decide) (by decide)

/-- What a config with a wrong length leaves behind on the stream is read as a config of the first
group, and goes out of turn before anything is late. -/
theorem skips_forged : Succeeds (sendDriver .oneSymbol) forgedCalls ∧
    Network (packets forgedCalls) forgedSent ((forgedArrivals ++ [recordEvent]).map Event.input) ∧
    ∃ x fecStats gs, (labelled .oneSymbol).At (written forgedSent, .start .new noStats)
        (forgedArrivals ++ [recordEvent]) x ∧
      x.2.nextKypacketSeq = 0 ∧
      x.2.pendingGroups.takeNextPacket 0 0 = .ok (.packet 5 smallConfig fecStats, gs) ∧
      ∀ g ∈ x.2.pendingGroups.pendingGroups, ∀ d ∈ g.datagrams, ¬ d.instant + maxBuffering ≤ 0 := by
  obtain ⟨x₁, hrun, hx₁⟩ := ok_of_map (show ((labelled .oneSymbol).run
    (written forgedSent, .start .new noStats) forgedArrivals).map (fun x₁ ↦
      ((labelled .oneSymbol).turnUpTo (fun _ ↦ 0) x₁ recordEvent).map
        (fun x ↦ (x.2.nextKypacketSeq,
          (x.2.pendingGroups.takeNextPacket 0 0).map (fun y ↦ y.1.taken)))) =
      .ok (.ok (0, .ok (some (5, smallConfig)))) by decide +kernel)
  obtain ⟨x, hturn, hx⟩ := ok_of_map hx₁
  obtain ⟨hnext, htaken⟩ := Prod.mk.inj hx
  obtain ⟨fecStats, gs, htake⟩ := packet_of_taken htaken
  refine ⟨⟨by decide, by decide +kernel⟩, forged_network, x, fecStats, gs, ?_, hnext, htake, ?_⟩
  · exact .inr ⟨forgedArrivals, _, fun _ ↦ 0, x₁, rfl, hrun, hturn⟩
  · intro g _ d _
    have : 0 < maxBuffering := by decide
    omega

end Small

end Kymux.VideoFec
