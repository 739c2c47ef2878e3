import Kymux.Driver.VideoFecAccounting
import Kymux.Driver.VideoFecTrace

namespace Kymux.VideoFec

open Av Driver EventLoop Fec Timed
open PendingGroups (worth lost)

variable {rq : RaptorQ}

def reported (stats : ProtocolStats) : VideoFecStats :=
  ⟨stats.videoFecSourceSymbols.getD 0, stats.videoFecSourceSymbolsMissing.getD 0,
    stats.videoFecSourceSymbolsUnrecovered.getD 0⟩

theorem reported_addFec (stats : ProtocolStats) {fecStats : VideoFecStats} (h : Sound fecStats) :
    reported (addFec stats fecStats) = reported stats + fecStats := by
  unfold addFec
  split_ifs with hsource
  · rfl
  · -- With no source symbol nothing is missing either.
    obtain ⟨hmissing, hunrecovered⟩ := h
    have hzero : fecStats = 0 := by
      obtain ⟨source, missing, unrecovered⟩ := fecStats
      simp only [ne_eq, Decidable.not_not] at hsource hmissing hunrecovered
      obtain rfl : source = 0 := hsource
      obtain rfl : missing = 0 := by omega
      obtain rfl : unrecovered = 0 := by omega
      rfl
    rw [hzero, add_zero]

@[simp] theorem reported_addDropped (stats : ProtocolStats) (missing : ℕ) :
    reported (stats.addDropped missing) = reported stats := rfl

@[simp] theorem deliver_pendingGroups (s : State rq) (kypacketSeq : ℕ) (packet : AVPacket)
    (fecStats : VideoFecStats) (gs : PendingGroups rq) :
    (s.deliver kypacketSeq packet fecStats gs).pendingGroups = gs := rfl

theorem reported_deliver (s : State rq) (kypacketSeq : ℕ) (packet : AVPacket)
    {fecStats : VideoFecStats} (gs : PendingGroups rq) (h : Sound fecStats) :
    reported (s.deliver kypacketSeq packet fecStats gs).protocolStats =
      reported s.protocolStats + fecStats := by
  rw [← reported_addFec s.protocolStats h]
  simp only [State.deliver, VideoState.forward]
  split_ifs <;> rfl

namespace State

variable {s s' : State rq} {w : Ledger Entry} {stats : ProtocolStats} {input : Input Msg Clock}
  {b : Bool} {now : ℕ}

abbrev mediaSeqs (s : State rq) : List ℕ := s.pendingGroups.pendingGroups.mediaSeqs

def recordDatagram (w : Ledger Entry) (s : State rq) (x : Symbol) (n : VideoState.Numbers)
    (s' : State rq) : Ledger Entry :=
  if n.kypacketSeq ≥ s.nextKypacketSeq then
    recordSymbol s.pendingGroups.pendingGroups s'.pendingGroups.pendingGroups n.kypacketSeq x w
  else w

def record (w : Ledger Entry) (s : State rq) (input : Input Msg Clock) (s' : State rq) :
    Ledger Entry :=
  match input with
  | .message (.ok (.datagram msg)) _ =>
    recordDatagram (w.depart Entry.kypacketSeq s'.mediaSeqs) s msg.content
      (s.numbers msg.rawKypacketSeq msg.rawGroupSeq) s'
  | _ => w.depart Entry.kypacketSeq s'.mediaSeqs

/-- The ledger and the statistics agree: all that left is reported, or about to be. -/
structure Balanced (stats : ProtocolStats) (s : State rq) (w : Ledger Entry) : Prop where
  kept : Kept s.pendingGroups w
  sound : Sound s.pendingGroups.retiredStats
  balance : reported s.protocolStats + s.pendingGroups.retiredStats =
    reported stats + (w.left.map Entry.contribution).sum

theorem Balanced.start (stats : ProtocolStats) :
    Balanced stats (.start .new stats : State rq) ⟨[], []⟩ :=
  ⟨⟨by simp [VideoState.start, PendingGroups.new, Groups.Obey], rfl⟩, ⟨le_rfl, le_rfl⟩, rfl⟩

theorem Balanced.follows {w' : Ledger Entry} (h : Balanced stats s w)
    (hf : Follows s.pendingGroups s'.pendingGroups w w')
    (hstats : s'.protocolStats = s.protocolStats) : Balanced stats s' w' := by
  obtain ⟨loss, hsound, hretired, hleft⟩ := hf.paid
  refine ⟨hf.kept, hretired ▸ h.sound.add hsound, ?_⟩
  rw [hstats, hretired, hleft, ← add_assoc, h.balance, add_assoc]

theorem Balanced.idle (h : Balanced stats s w) (hv : s.pendingGroups.Valid)
    (hgs : s'.pendingGroups = s.pendingGroups) (hstats : s'.protocolStats = s.protocolStats) :
    Balanced stats s' (w.depart Entry.kypacketSeq s'.mediaSeqs) := by
  refine h.follows ?_ hstats
  rw [mediaSeqs, hgs]
  exact h.kept.keep hv

theorem Balanced.selected (h : Balanced stats s w) (hv : s.pendingGroups.Valid)
    (hsel : Selected s input s' b) : Balanced stats s' (record w s input s') := by
  cases hsel with
  | timer | codec _ => exact h.idle hv rfl rfl
  | lateStream => exact h.idle hv (by simp) (by simp)
  | stream _ _ _ hstep =>
    exact h.follows (h.kept.streamStep hv (by simpa using hstep) rfl) (by simp)
  | lateDatagram hn hlt =>
    simp only [record, recordDatagram, ← hn, ge_iff_le, not_le.mpr hlt, if_false]
    exact h.idle hv (by simp) (by simp)
  | datagram hn hge hstep =>
    simp only [record, recordDatagram, ← hn, ge_iff_le, hge, if_true]
    exact h.follows (h.kept.datagramStep hv (by simpa using hstep) rfl) (by simp)

/-- The packet hands over the retired statistics with those of the objects that it takes
along. -/
theorem Balanced.drained (h : Balanced stats s w) (hv : s.pendingGroups.Valid)
    (hd : Drained s now s' b) : Balanced stats s' (w.depart Entry.kypacketSeq s'.mediaSeqs) := by
  cases hd with
  | none | deadline => exact h.idle hv rfl rfl
  | @packet drained g rest c taken p hgs hnext hpoll htook =>
    obtain ⟨X, hworth, hlost⟩ := PendingGroups.took_worth drained rest htook
    have hkept : Groups.Obey (recorded w.live) (⟨p, g.groupSeq⟩ :: rest) :=
      (hgs ▸ h.kept.recorded).took htook (fun _ ↦ trivial)
    obtain ⟨hrec, hkeys, hleft, hsound⟩ := recorded_depart hv h.kept.recorded h.kept.keys hkept
      (by rw [hgs, hworth])
    refine ⟨⟨hrec, hkeys⟩, ⟨le_rfl, le_rfl⟩, ?_⟩
    have hpaid := h.sound.add hsound
    rw [hlost, ← add_assoc] at hpaid
    rw [reported_deliver _ _ _ _ hpaid]
    simp only [mediaSeqs, deliver_pendingGroups]
    rw [hleft, add_zero, add_assoc s.pendingGroups.retiredStats, ← hlost, ← add_assoc, h.balance,
      add_assoc]

end State

def recordedProcess (rq : RaptorQ) : Loop (State rq × Ledger Entry) (Input Msg Clock) ℕ Fault :=
  (process rq).observed State.record (fun w _ _ s' ↦ w.depart Entry.kypacketSeq s'.mediaSeqs)

theorem balanced_at {stats : ProtocolStats} {es : List (Event (Input Msg Clock) ℕ)} {s : State rq}
    {w : Ledger Entry} (h : (recordedProcess rq).At (.start .new stats, ⟨[], []⟩) es (s, w)) :
    s.pendingGroups.Valid ∧ s.Balanced stats w := by
  refine At.invariant (P := fun v ↦ v.1.pendingGroups.Valid ∧ v.1.Balanced stats v.2) ?_ ?_ ?_ h
  · exact ⟨PendingGroups.Valid.new, .start stats⟩
  · rintro ⟨s, w⟩ input ⟨s', w'⟩ b ⟨hv, hb⟩ hturn
    obtain ⟨hsel, rfl⟩ := observed_select hturn
    exact ⟨State.valid_selected hv hsel, hb.selected hv (State.select_selected hv.ordered hsel)⟩
  · rintro ⟨s, w⟩ now ⟨s', w'⟩ b ⟨hv, hb⟩ hturn
    obtain ⟨hinner, rfl⟩ := observed_inner hturn
    exact ⟨State.valid_drained hv hinner, hb.drained hv (State.drain_drained hv.ordered hinner)⟩

theorem sum_sourceSymbols (es : List Entry) :
    (es.map Entry.contribution).sum.sourceSymbols = (es.map (fun e ↦ sourceSymbols e.oti)).sum := by
  induction es with
  | nil => rfl
  | cons e es ih => simp [ih, Entry.contribution, Entry.account]

/-- Every media object is accounted for once, when it leaves, and all the source symbols of
those admitted are reported, retired or pending. -/
theorem accounted_once (rq : RaptorQ) (stats : ProtocolStats)
    (es : List (Event (Input Msg Clock) ℕ)) (s : State rq) (w : Ledger Entry)
    (h : (recordedProcess rq).At (.start .new stats, ⟨[], []⟩) es (s, w)) :
    (w.live.map Entry.kypacketSeq).Perm s.mediaSeqs ∧
      reported s.protocolStats + s.pendingGroups.retiredStats =
        reported stats + (w.left.map Entry.contribution).sum ∧
      (reported s.protocolStats).sourceSymbols + s.pendingGroups.retiredStats.sourceSymbols +
          (lost (worth s.pendingGroups.pendingGroups)).sourceSymbols =
        (reported stats).sourceSymbols +
          ((w.left ++ w.live).map (fun e ↦ sourceSymbols e.oti)).sum := by
  obtain ⟨hv, hb⟩ := balanced_at h
  refine ⟨Multiset.coe_eq_coe.mp hb.kept.keys, hb.balance, ?_⟩
  have hlive := worth_recorded hv hb.kept.recorded hb.kept.keys
  have hsource := congrArg VideoFecStats.sourceSymbols hb.balance
  rw [VideoFecStats.add_sourceSymbols, VideoFecStats.add_sourceSymbols, sum_sourceSymbols]
    at hsource
  rw [← hlive, lost_worth, sum_sourceSymbols, hsource, List.map_append, List.sum_append, add_assoc]

def repairFirstEvents : List (Event (Input Msg Clock) ℕ) :=
  [⟨.message (.ok (.datagram ⟨{ smallSymbol with payloadId := ⟨0, 1⟩ }, 1, 1⟩)) ⟨0, 0, 0⟩,
    fun _ ↦ 0⟩, mediaEvent 1, configEvent 0]

/-- The object of this run is reported with a missing source symbol. -/
theorem accounted_once_repairFirst : ∃ s w,
    (recordedProcess .oneSymbol).At (.start .new noStats, ⟨[], []⟩) repairFirstEvents (s, w) ∧
      w.left.map Entry.contribution = [⟨1, 1, 0⟩] ∧
      reported s.protocolStats + s.pendingGroups.retiredStats = ⟨1, 1, 0⟩ := by
  obtain ⟨⟨s, w⟩, hrun, hw⟩ := ok_of_map (show ((recordedProcess .oneSymbol).run
    (.start .new noStats, ⟨[], []⟩) repairFirstEvents).map
    (fun v ↦ v.2.left.map Entry.contribution) =
      .ok [⟨1, 1, 0⟩] by decide +kernel)
  have hleft : w.left.map Entry.contribution = [⟨1, 1, 0⟩] := hw
  refine ⟨s, w, .inl hrun, hleft, ?_⟩
  rw [(accounted_once _ _ _ _ _ (.inl hrun)).2.1, hleft]
  rfl

/-- The source symbol of the object arrived before it left, and is counted as missing: it
was reassembled before. -/
theorem missing_arrived : ∃ s w,
    (recordedProcess .oneSymbol).At (.start .new noStats, ⟨[], []⟩) repairFirstEvents (s, w) ∧
      w.left.map (fun e ↦ e.account e.arrived) = [⟨1, 0, 0⟩] ∧
      reported s.protocolStats + s.pendingGroups.retiredStats ≠
        reported noStats + (w.left.map (fun e ↦ e.account e.arrived)).sum := by
  obtain ⟨⟨s, w⟩, hrun, hw⟩ := ok_of_map (show ((recordedProcess .oneSymbol).run
    (.start .new noStats, ⟨[], []⟩) repairFirstEvents).map (fun v ↦
      (v.2.left.map (fun e ↦ e.account e.arrived),
        reported v.1.protocolStats + v.1.pendingGroups.retiredStats)) =
      .ok ([⟨1, 0, 0⟩], ⟨1, 1, 0⟩) by decide +kernel)
  simp only [Prod.mk.injEq] at hw
  obtain ⟨hleft, hreported⟩ := hw
  refine ⟨s, w, .inl hrun, hleft, ?_⟩
  rw [hreported, hleft]
  decide

end Kymux.VideoFec
