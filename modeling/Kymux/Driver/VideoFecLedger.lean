import Kymux.Lib.Ledger
import Kymux.Driver.VideoFecRun

namespace Kymux.VideoFec

open Av Driver EventLoop Fec Timed

variable {rq : RaptorQ}

/-- The record of a media object since it was admitted: the symbols that arrived for it, and
those of them that arrived before it was reassembled. -/
structure Entry where
  kypacketSeq : ℕ
  oti : Oti
  arrived : Finset SymbolKey
  received : Finset SymbolKey
  reassembled : Bool
deriving DecidableEq

namespace Entry

def admitted (kypacketSeq : ℕ) (x : Symbol) (reassembled : Bool) : Entry :=
  ⟨kypacketSeq, x.oti, {x.payloadId.key}, {x.payloadId.key}, reassembled⟩

def receive (e : Entry) (x : Symbol) (reassembled : Bool) : Entry :=
  { e with
    arrived := insert x.payloadId.key e.arrived
    received := if e.reassembled then e.received else insert x.payloadId.key e.received
    reassembled := e.reassembled || reassembled }

def account (e : Entry) (symbols : Finset SymbolKey) : VideoFecStats :=
  let missing := sourceSymbols e.oti - sourcesAmong e.oti symbols
  ⟨sourceSymbols e.oti, missing, if e.reassembled then 0 else missing⟩

def contribution (e : Entry) : VideoFecStats := e.account e.received

end Entry

def segmentsWorth (u : DatagramSegments (Parts rq)) : Multiset (ℕ × VideoFecStats) :=
  {(u.kypacketSeq, u.parts.fecStats)}

def datagramWorth (d : DatagramPacket VideoObject) : Multiset (ℕ × VideoFecStats) :=
  {(d.kypacketSeq, d.object.fecStats)}

namespace PendingGroups

def worth (gs : Groups VideoObject (Parts rq)) : Multiset (ℕ × VideoFecStats) :=
  gs.total (Pending.weight segmentsWorth datagramWorth)

def lost (X : Multiset (ℕ × VideoFecStats)) : VideoFecStats := (X.map Prod.snd).sum

@[simp] theorem lost_add (X Y : Multiset (ℕ × VideoFecStats)) : lost (X + Y) = lost X + lost Y := by
  simp [lost]

@[simp] theorem lost_zero : lost 0 = 0 := rfl

@[simp] theorem lost_singleton (k : ℕ) (stats : VideoFecStats) : lost {(k, stats)} = stats := by
  simp [lost]

def lostHom : Multiset (ℕ × VideoFecStats) →+ VideoFecStats where
  toFun := lost
  map_zero' := lost_zero
  map_add' := lost_add

theorem worth_keys (gs : Groups VideoObject (Parts rq)) :
    (worth gs).map Prod.fst = (gs.mediaSeqs : Multiset ℕ) := by
  have hmap := Groups.map_total (Multiset.mapAddMonoidHom (Prod.fst (α := ℕ) (β := VideoFecStats)))
    (f := Pending.weight segmentsWorth datagramWorth) gs
  simp only [Pending.map_weight, Multiset.coe_mapAddMonoidHom, segmentsWorth, datagramWorth,
    Multiset.map_singleton] at hmap
  rw [worth, hmap, Groups.coe_mediaSeqs]
  simp only [Pending.coe_seqs]

theorem mem_worth {gs : Groups VideoObject (Parts rq)} {x : ℕ × VideoFecStats} :
    x ∈ worth gs ↔ ∃ g ∈ gs, (∃ u ∈ g.segments, x = (u.kypacketSeq, u.parts.fecStats)) ∨
      ∃ d ∈ g.datagrams, x = (d.kypacketSeq, d.object.fecStats) := by
  simp [worth, segmentsWorth, datagramWorth, Groups.total, Pending.weight, mem_list_sum,
    and_or_left, exists_or]

variable {s s' : PendingGroups rq} {now : ℕ}

theorem Retires.worth (h : Retires now s s') :
    ∃ X, worth s.pendingGroups = PendingGroups.worth s'.pendingGroups + X ∧
      s'.retiredStats = s.retiredStats + lost X := by
  obtain ⟨rest, p, seq, stats, p', hrem, htot, htot', -, -, hstats⟩ :=
    h.total (f := Pending.weight segmentsWorth datagramWorth) Pending.weight_new
  refine ⟨{(seq, stats)}, ?_, by rw [hstats, lost_singleton]⟩
  rw [PendingGroups.worth, PendingGroups.worth, htot, htot']
  cases hrem with
  | segment hs _ | datagram hs _ =>
    simp only [Pending.weight, hs, List.map_cons, List.sum_cons, segmentsWorth, datagramWorth]
    abel

theorem retires_worth (h : Relation.ReflTransGen (Retires now) s s') :
    ∃ X, worth s.pendingGroups = worth s'.pendingGroups + X ∧
      s'.retiredStats = s.retiredStats + lost X := by
  induction h with
  | refl => exact ⟨0, by simp, by simp⟩
  | tail _ hstep ih =>
    obtain ⟨X, hX, hstats⟩ := ih
    obtain ⟨Y, hY, hstats'⟩ := hstep.worth
    refine ⟨Y + X, by rw [hX, hY, add_assoc], ?_⟩
    rw [hstats', hstats, lost_add, add_assoc, add_comm (lost X)]

theorem lost_weight (p : Queue rq) :
    lost (p.weight segmentsWorth datagramWorth) = Queue.discardedFecStats p := by
  have hmap := Pending.map_weight lostHom (u := segmentsWorth) (v := datagramWorth) p
  simp only [lostHom, AddMonoidHom.coe_mk, ZeroHom.coe_mk, segmentsWorth, datagramWorth,
    lost_singleton] at hmap
  rw [hmap, Pending.weight, Queue.discardedFecStats, add_comm]

theorem took_worth (drained rest : Groups VideoObject (Parts rq)) {g : Group rq} {b : Bool}
    {taken : Taken VideoObject (Parts rq)} {p : Queue rq}
    (htook : Pending.Took g.toPending b taken p) :
    ∃ X, worth (drained ++ g :: rest) = worth (⟨p, g.groupSeq⟩ :: rest) + X ∧
      lost X = (drained.map (fun k ↦ Queue.discardedFecStats k.toPending)).sum +
      takenStats taken := by
  refine ⟨worth drained + Pending.takenWeight segmentsWorth datagramWorth taken, ?_, ?_⟩
  · simp only [worth, Groups.total, List.map_append, List.map_cons, List.sum_append, List.sum_cons,
      htook.weight]
    abel
  · have hdrained :=
      Groups.map_total lostHom (f := Pending.weight segmentsWorth datagramWorth) drained
    simp only [lostHom, AddMonoidHom.coe_mk, ZeroHom.coe_mk, lost_weight] at hdrained
    rw [lost_add, worth, hdrained, Groups.total]
    congr 1
    cases taken with
    | config c => rfl
    | datagram d expired =>
      have hsum := map_list_sum lostHom (expired.map segmentsWorth)
      simp only [lostHom, AddMonoidHom.coe_mk, ZeroHom.coe_mk, List.map_map, Function.comp_def,
        segmentsWorth, lost_singleton] at hsum
      rw [Pending.takenWeight, lost_add, datagramWorth, lost_singleton, takenStats]
      rw [hsum]

end PendingGroups

def recorded (live : List Entry) : Law VideoObject (Parts rq) where
  ready _ _ := True
  sent _ := True
  segments _ u := ⟨u.kypacketSeq, u.parts.decoder.oti, u.parts.decoder.received,
    u.parts.decoder.received, false⟩ ∈ live
  datagram _ d := ∃ e ∈ live, e.kypacketSeq = d.kypacketSeq ∧ e.oti = d.object.oti ∧
    e.reassembled = true ∧ e.contribution = d.object.fecStats

theorem fecStats_eq (u : Parts rq) (hc : u.isComplete = false) (k : ℕ) :
    u.fecStats = Entry.contribution
      ⟨k, u.decoder.oti, u.decoder.received, u.decoder.received, false⟩ := by
  simp [Parts.fecStats, Entry.contribution, Entry.account, hc, u.decoder.counted]

open PendingGroups (worth lost)

theorem worth_recorded {s : PendingGroups rq} {live : List Entry} (hv : s.Valid)
    (hobey : s.pendingGroups.Obey (recorded live))
    (hkeys : ((live.map Entry.kypacketSeq : List ℕ) : Multiset ℕ) = s.pendingGroups.mediaSeqs) :
    Ledger.worth Entry.kypacketSeq Entry.contribution live = worth s.pendingGroups := by
  refine Ledger.eq_of_keys ?_ ?_ ?_
  · rw [Ledger.worth_map_fst, PendingGroups.worth_keys, hkeys]
  · rw [PendingGroups.worth_keys]
    exact Multiset.coe_nodup.mpr hv.unique
  · intro x hx
    rw [Ledger.worth, Multiset.mem_coe, List.mem_map]
    obtain ⟨g, hg, ⟨u, hu, rfl⟩ | ⟨d, hd, rfl⟩⟩ := PendingGroups.mem_worth.mp hx
    · refine ⟨_, (hobey g hg).segments u hu, ?_⟩
      rw [fecStats_eq u.parts (hv.incomplete g hg u hu) u.kypacketSeq]
    · obtain ⟨e, he, hk, -, -, hstats⟩ := (hobey g hg).datagrams d hd
      exact ⟨e, he, by rw [hk, hstats]⟩

variable {s : PendingGroups rq} {w : Ledger Entry}

def Sound (stats : VideoFecStats) : Prop :=
  stats.missingSourceSymbols ≤ stats.sourceSymbols ∧
    stats.unrecoveredSourceSymbols ≤ stats.missingSourceSymbols

theorem Sound.add {a b : VideoFecStats} (ha : Sound a) (hb : Sound b) : Sound (a + b) :=
  ⟨add_le_add ha.1 hb.1, add_le_add ha.2 hb.2⟩

theorem Sound.contribution (e : Entry) : Sound e.contribution := by
  refine ⟨Nat.sub_le _ _, ?_⟩
  simp only [Entry.contribution, Entry.account]
  split_ifs <;> simp

theorem Sound.sum {es : List Entry} : Sound (es.map Entry.contribution).sum := by
  induction es with
  | nil => exact ⟨le_rfl, le_rfl⟩
  | cons e es ih => exact (Sound.contribution e).add ih

theorem lost_worth (es : List Entry) :
    lost (Ledger.worth Entry.kypacketSeq Entry.contribution es) =
      (es.map Entry.contribution).sum := by
  simp [lost, Ledger.worth, Function.comp_def]

theorem depart_left (w : Ledger Entry) (keep : List ℕ) :
    ((w.depart Entry.kypacketSeq keep).left.map Entry.contribution).sum =
      (w.left.map Entry.contribution).sum +
        ((w.live.filter (fun e ↦ e.kypacketSeq ∉ keep)).map Entry.contribution).sum := by
  simp [Ledger.depart]

theorem recorded_depart {X : Multiset (ℕ × VideoFecStats)} {gs : Groups VideoObject (Parts rq)}
    (hv : s.Valid) (hrec : s.pendingGroups.Obey (recorded w.live))
    (hkeys : ((w.live.map Entry.kypacketSeq : List ℕ) : Multiset ℕ) = s.pendingGroups.mediaSeqs)
    (hrec' : gs.Obey (recorded w.live))
    (hworth : worth s.pendingGroups = worth gs + X) :
    gs.Obey (recorded (w.depart Entry.kypacketSeq gs.mediaSeqs).live) ∧
      (((w.depart Entry.kypacketSeq gs.mediaSeqs).live.map Entry.kypacketSeq : List ℕ) :
        Multiset ℕ) = gs.mediaSeqs ∧
      ((w.depart Entry.kypacketSeq gs.mediaSeqs).left.map Entry.contribution).sum =
        (w.left.map Entry.contribution).sum + lost X ∧ Sound (lost X) := by
  have hnodup : (w.live.map Entry.kypacketSeq).Nodup := by
    rw [← Multiset.coe_nodup, hkeys]
    exact Multiset.coe_nodup.mpr hv.unique
  have hlive := worth_recorded hv hrec hkeys
  rw [hworth] at hlive
  obtain ⟨hkept, hgone⟩ := Ledger.depart_worth hlive hnodup (PendingGroups.worth_keys _).symm
  refine ⟨?_, ?_, ?_, ?_⟩
  · intro g hg
    have hseq : ∀ k ∈ g.seqs, k ∈ gs.mediaSeqs :=
      fun k hk ↦ Groups.mem_mediaSeqs.mpr ⟨g, hg, hk⟩
    refine ⟨fun _ _ ↦ trivial, fun _ ↦ trivial, ?_, ?_⟩
    · intro u hu
      refine List.mem_filter.mpr ⟨(hrec' g hg).segments u hu, ?_⟩
      simpa using hseq _ (Pending.mem_seqs.mpr (.inl ⟨u, hu, rfl⟩))
    · intro d hd
      obtain ⟨e, he, hk, hrest⟩ := (hrec' g hg).datagrams d hd
      refine ⟨e, List.mem_filter.mpr ⟨he, ?_⟩, hk, hrest⟩
      simpa [hk] using hseq _ (Pending.mem_seqs.mpr (.inr ⟨d, hd, rfl⟩))
  · rw [← Ledger.worth_map_fst Entry.kypacketSeq Entry.contribution, hkept,
      PendingGroups.worth_keys]
  · rw [depart_left, ← hgone, lost_worth]
  · rw [← hgone, lost_worth]
    exact Sound.sum

end Kymux.VideoFec
