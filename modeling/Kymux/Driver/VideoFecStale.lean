import Kymux.Driver.VideoFecAccepted
import Kymux.Driver.VideoFecLedger
import Kymux.Driver.VideoFecTrace
import Kymux.FecChecked
import Kymux.Lib.Expiry

namespace Kymux.VideoFec

open Av Driver Expiry Fec

variable {rq : RaptorQ} {s s' : PendingGroups rq} {additional now groupSeq kypacketSeq : ℕ}
  {packet : AVPacket} {x : Symbol} {clock : Clock} {r : Except Fault Unit}

structure Held where
  seq : ℕ
  instant : ℕ
  oti : Oti
deriving DecidableEq

namespace Held

def Stale (now : ℕ) (m : Held) : Prop := m.instant + maxBuffering ≤ now

instance (now : ℕ) : DecidablePred (Stale now) :=
  fun m ↦ inferInstanceAs (Decidable (m.instant + maxBuffering ≤ now))

end Held

namespace PendingGroups

def heldSegments (u : DatagramSegments (Parts rq)) : Multiset Held :=
  {⟨u.kypacketSeq, u.parts.created, u.parts.decoder.oti⟩}

def heldDatagram (d : DatagramPacket VideoObject) : Multiset Held :=
  {⟨d.kypacketSeq, d.instant, d.object.oti⟩}

def held (p : Queue rq) : Multiset Held := p.weight heldSegments heldDatagram

def media (s : PendingGroups rq) : Multiset Held := s.pendingGroups.total held

def charges (xs : Multiset Held) : ℕ × ℕ := (xs.map (fun m ↦ Queue.charge m.oti)).sum

def configs (s : PendingGroups rq) : ℕ × ℕ :=
  s.pendingGroups.total (fun p ↦ Queue.configUsage p.configPacket)

def freshUsage (s : PendingGroups rq) (now : ℕ) : ℕ × ℕ :=
  charges (s.media.filter (fun m ↦ ¬ m.Stale now)) + s.configs

def checkFresh (s : PendingGroups rq) (additional now : ℕ) : Except Fault Unit :=
  checkPending (s.freshUsage now).1 (s.freshUsage now).2 additional maxVideoPayload

theorem charges_add (xs ys : Multiset Held) : charges (xs + ys) = charges xs + charges ys := by
  simp [charges]

def chargesHom : Multiset Held →+ ℕ × ℕ where
  toFun := charges
  map_zero' := rfl
  map_add' := charges_add

theorem usage_eq_charges (s : PendingGroups rq) : s.usage = charges s.media + s.configs := by
  have hheld : ∀ p : Queue rq, charges (held p) = Queue.mediaUsage p := by
    intro p
    have hmap : charges (held p) = p.weight (fun u ↦ charges (heldSegments u))
        (fun d ↦ charges (heldDatagram d)) := Pending.map_weight chargesHom p
    simpa only [heldSegments, heldDatagram, charges, Multiset.map_singleton, Multiset.sum_singleton,
      Queue.mediaUsage] using hmap
  have hmap : charges s.media = s.pendingGroups.total (fun p ↦ charges (held p)) :=
    Groups.map_total chargesHom s.pendingGroups
  rw [hmap, configs, usage]
  simp only [Groups.total, Queue.usage_eq, hheld, List.sum_map_add]

theorem media_seqs (s : PendingGroups rq) :
    s.media.map Held.seq = (s.pendingGroups.mediaSeqs : Multiset ℕ) := by
  have hmap := Groups.map_total (Multiset.mapAddMonoidHom Held.seq) (f := held) s.pendingGroups
  simp only [held, Pending.map_weight, Multiset.coe_mapAddMonoidHom, heldSegments, heldDatagram,
    Multiset.map_singleton] at hmap
  rw [Groups.coe_mediaSeqs]
  simp only [Pending.coe_seqs]
  exact hmap

theorem mem_media {m : Held} : m ∈ s.media ↔
    ∃ g ∈ s.pendingGroups,
    (∃ u ∈ g.segments, m = ⟨u.kypacketSeq, u.parts.created, u.parts.decoder.oti⟩) ∨
      ∃ d ∈ g.datagrams, m = ⟨d.kypacketSeq, d.instant, d.object.oti⟩ := by
  simp [media, held, heldSegments, heldDatagram, Groups.total, Pending.weight, mem_list_sum,
    and_or_left, exists_or]

theorem Retires.drops (h : Retires now s s') :
    Drops Held.seq (Held.Stale now) s.media s'.media := by
  obtain ⟨rest, p, seq, stats, p', hrem, htot, htot', hmin, -⟩ :=
    h.total (f := held) Pending.weight_new
  obtain ⟨m, hheld, hseq, hstale⟩ : ∃ m : Held, held p = {m} + held p' ∧ m.seq = seq ∧
    m.Stale now := by
    cases hrem with
    | @segment u us hs hstale =>
      refine ⟨⟨u.kypacketSeq, u.parts.created, u.parts.decoder.oti⟩, ?_, rfl, hstale⟩
      simp only [held, Pending.weight, hs, List.map_cons, List.sum_cons, heldSegments]
      exact add_assoc _ _ _
    | @datagram d ds hd hstale =>
      refine ⟨⟨d.kypacketSeq, d.instant, d.object.oti⟩, ?_, rfl, hstale⟩
      simp only [held, Pending.weight, hd, List.map_cons, List.sum_cons, heldDatagram]
      exact add_left_comm _ _ _
  have hmedia : s.media = m ::ₘ s'.media := by
    rw [media, media, htot, htot', hheld, add_left_comm, Multiset.singleton_add]
  rw [hmedia]
  refine .mk hstale (fun b hb ↦ ?_)
  rw [hseq]
  refine hmin b.seq (Multiset.mem_coe.mp ?_)
  rw [← media_seqs, hmedia]
  exact Multiset.mem_map_of_mem _ (Multiset.mem_cons_of_mem hb)

theorem Retires.configs (h : Retires now s s') : s'.configs = s.configs := by
  obtain ⟨rest, p, seq, stats, p', hrem, htot, htot', -⟩ :=
    h.total (f := fun p ↦ Queue.configUsage p.configPacket) rfl
  rw [PendingGroups.configs, PendingGroups.configs, htot, htot']
  cases hrem <;> rfl

theorem foldl_older_none {cs : List Oldest} {o : Option Oldest} (h : cs.foldl older o = none) :
    cs = [] ∧ o = none := by
  induction cs generalizing o with
  | nil => exact ⟨rfl, h⟩
  | cons c cs ih =>
    have hnone := (ih h).2
    cases o <;> simp [older] at hnone
    split_ifs at hnone

theorem mem_media_of_candidate {g : Group rq} {o : Oldest} {index : ℕ} (hg : g ∈ s.pendingGroups)
    (ho : o ∈ candidates g index) : ∃ oti, ⟨o.seq, o.instant, oti⟩ ∈ s.media := by
  simp only [candidates, List.mem_append, Option.mem_toList, Option.map_eq_some_iff] at ho
  rcases ho with ⟨u, hu, rfl⟩ | ⟨d, hd, rfl⟩
  · exact ⟨_, mem_media.mpr ⟨g, hg, .inl ⟨u, List.mem_of_head? hu, rfl⟩⟩⟩
  · exact ⟨_, mem_media.mpr ⟨g, hg, .inr ⟨d, List.mem_of_head? hd, rfl⟩⟩⟩

theorem Valid.seq_injective (hs : s.Valid) {a b : Held} (ha : a ∈ s.media) (hb : b ∈ s.media)
    (h : a.seq = b.seq) : a = b := by
  have hnodup : (s.media.map Held.seq).Nodup := by
    rw [media_seqs]
    exact Multiset.coe_nodup.mpr hs.unique
  exact Multiset.inj_on_of_nodup_map hnodup a ha b hb h

theorem Valid.blocked (hs : s.Valid)
    (hfresh : ∀ o, s.oldestMedia = some o → now < o.instant + maxBuffering) :
    Blocked Held.seq (Held.Stale now) s.media := by
  intro b hb hstale
  have hseq : b.seq ∈ s.pendingGroups.mediaSeqs := by
    rw [← Multiset.mem_coe, ← media_seqs]
    exact Multiset.mem_map_of_mem _ hb
  cases hold : s.oldestMedia with
  | none =>
    obtain ⟨g, hg, hk⟩ := Groups.mem_mediaSeqs.mp hseq
    obtain ⟨i, hi⟩ := List.getElem?_of_mem hg
    obtain ⟨c, hc, -⟩ := candidate_le (hs.ordered.each g hg) hk i
    have hmem : c ∈ s.pendingGroups.zipIdx.flatMap (fun g ↦ candidates g.1 g.2) :=
      List.mem_flatMap.mpr ⟨(g, i), List.mk_mem_zipIdx_iff_getElem?.mpr hi, hc⟩
    rw [(foldl_older_none hold).1] at hmem
    cases hmem
  | some o =>
    obtain ⟨g, hget, hc, hmin⟩ := oldestMedia_some hs.ordered hold
    obtain ⟨oti, hmem⟩ := mem_media_of_candidate (List.mem_of_getElem? hget) hc
    have hnot : ¬ Held.Stale now ⟨o.seq, o.instant, oti⟩ := not_le.mpr (hfresh o hold)
    refine ⟨_, hmem, hnot, lt_of_le_of_ne (hmin _ hseq) (fun heq ↦ hnot ?_)⟩
    rw [hs.seq_injective hmem hb heq]
    exact hstale

theorem media_of_retires (h : Relation.ReflTransGen (Retires now) s s') :
    Relation.ReflTransGen (Drops Held.seq (Held.Stale now)) s.media s'.media ∧
      s'.configs = s.configs := by
  induction h with
  | refl => exact ⟨.refl, rfl⟩
  | tail _ hstep ih => exact ⟨ih.1.tail hstep.drops, hstep.configs.trans ih.2⟩

theorem checkFresh_ok_iff : s.checkFresh additional now = .ok () ↔
    (s.freshUsage now).1 < maxPendingObjects ∧
    (s.freshUsage now).2 + additional ≤ 256 * 1024 * 1024 :=
  checkPending_ok_iff

theorem checkCapacity_eq_usage (s : PendingGroups rq) (additional : ℕ) :
    s.checkCapacity additional = checkPending s.usage.1 s.usage.2 additional maxVideoPayload := by
  rw [usage_eq]
  rfl

/-- Where the pending media goes stale in its order, admission fails only when what is not
stale is too much by itself. -/
theorem Valid.admitObject_error (hs : s.Valid) (hord : InOrder Held.seq (Held.Stale now) s.media)
    {e : Fault} (h : s.admitObject additional now = (.error e, s')) :
    s.checkFresh additional now = .error e := by
  obtain ⟨hret, hcap, hfresh⟩ := admitObject_retires hs.ordered h
  obtain ⟨hdrops, hconfigs⟩ := media_of_retires hret
  have hleft := eq_filter hord hdrops ((hs.retirements hret).blocked (hfresh e rfl))
  rw [hcap, checkCapacity_eq_usage, usage_eq_charges, hleft, hconfigs]
  rfl

theorem Accepts.charge (h : s.Accepts) {m : Held} (hm : m ∈ s.media) :
    (1, 1) ≤ Queue.charge m.oti := by
  have hotis : s.media.map Held.oti = s.pendingGroups.total otis := by
    have hmap := Groups.map_total (Multiset.mapAddMonoidHom Held.oti) (f := held) s.pendingGroups
    simp only [held, Pending.map_weight, Multiset.coe_mapAddMonoidHom, heldSegments, heldDatagram,
      Multiset.map_singleton] at hmap
    exact hmap
  have hacc := Fec.Checked.accepted_of_ok
    (h m.oti (hotis ▸ Multiset.mem_map_of_mem Held.oti hm))
  have := hacc.blocks
  refine ⟨le_rfl, ?_⟩
  simp only [Queue.charge, reservation]
  omega

/-- A stale object is charged, and not among those that are not stale. -/
theorem Accepts.freshUsage_lt (h : s.Accepts) {m : Held} (hm : m ∈ s.media) (hstale : m.Stale now) :
    s.freshUsage now + (1, 1) ≤ s.usage := by
  have hsplit := Multiset.filter_add_not (fun m : Held ↦ m.Stale now) s.media
  obtain ⟨rest, hrest⟩ := Multiset.exists_cons_of_mem (Multiset.mem_filter.mpr ⟨hm, hstale⟩)
  have hcharge : (1, 1) ≤ charges (s.media.filter (fun m ↦ m.Stale now)) := by
    rw [hrest, charges, Multiset.map_cons, Multiset.sum_cons]
    exact (h.charge hm).trans (le_add_of_nonneg_right zero_le)
  calc s.freshUsage now + (1, 1)
      ≤ s.freshUsage now + charges (s.media.filter (fun m ↦ m.Stale now)) := by gcongr
    _ = charges (s.media.filter (fun m ↦ m.Stale now) + s.media.filter (fun m ↦ ¬ m.Stale now)) +
        s.configs := by rw [freshUsage, charges_add]; abel
    _ = s.usage := by rw [hsplit, usage_eq_charges]

/-- What is stale behind an object that is not ends the stream, though all that is not stale
would fit. -/
theorem Valid.refuses (hs : s.Valid) (hacc : s.Accepts) {a b : Held} (ha : a ∈ s.media)
    (hfresh : ¬ a.Stale now) (hb : b ∈ s.media) (hstale : b.Stale now) (hlt : a.seq < b.seq) :
    ∃ additional e, (s.admitObject additional now).1 = .error e ∧
    s.checkFresh additional now = .ok () := by
  have husage := hacc.freshUsage_lt hb hstale
  have hobjects := hs.objects
  have hbytes := hs.bytes
  rw [usage_eq] at husage
  obtain ⟨ho, hy⟩ := husage
  simp only [Prod.fst_add, Prod.snd_add] at ho hy
  refine ⟨256 * 1024 * 1024 - (s.freshUsage now).2, ?_⟩
  have hroom : s.checkFresh (256 * 1024 * 1024 - (s.freshUsage now).2) now = .ok () :=
    checkFresh_ok_iff.mpr ⟨by omega, by omega⟩
  cases hadm : s.admitObject (256 * 1024 * 1024 - (s.freshUsage now).2) now with
  | mk r s' =>
    obtain ⟨hret, hr, -⟩ := admitObject_retires hs.ordered hadm
    cases r with
    | error e => exact ⟨e, rfl, hroom⟩
    | ok _ =>
      exfalso
      obtain ⟨hdrops, hconfigs⟩ := media_of_retires hret
      have hleft := (mem_of_drops ha hfresh hb hlt hdrops).2
      have hover := (hacc.retirements hret).freshUsage_lt hleft hstale
      have hsame : s'.freshUsage now = s.freshUsage now := by
        rw [freshUsage, freshUsage, filter_of_drops hdrops, hconfigs]
      have hfit := (checkCapacity_ok_iff.mp hr.symm).2
      rw [usage_eq, hsame] at hover
      have := hover.2
      simp only [Prod.snd_add] at this
      omega

/-- In every state that the operations reach, and at every reading of the clock: whatever
is asked for, admission fails only when the objects that are not stale are too many or too
large by themselves, exactly when none of the stale media has a later number than media that
is not stale. -/
theorem refuses_only_fresh_iff (rq : RaptorQ) (calls : List Call) (now : ℕ) :
    let s := calls.foldl call (new : PendingGroups rq)
    (∀ additional e, (s.admitObject additional now).1 = .error e →
        s.checkFresh additional now ≠ .ok ()) ↔
      ∀ a ∈ s.media, ¬ a.Stale now → ∀ b ∈ s.media, b.Stale now → b.seq ≤ a.seq := by
  intro s
  have hs : s.Valid := (calls_valid rq calls).1
  constructor
  · intro h a ha hfresh b hb hstale
    by_contra hlt
    obtain ⟨additional, e, hadm, hroom⟩ :=
      hs.refuses (calls_accepts rq calls) ha hfresh hb hstale (not_le.mp hlt)
    exact h additional e hadm hroom
  · intro hord additional e h
    rw [hs.admitObject_error hord (Prod.ext h rfl : s.admitObject additional now = (.error e, _))]
    nofun

/-- Object 6 is stale and object 5, which came after it, is not. They fill the budget
together, and object 5 alone leaves all the room that is asked for. -/
theorem refuses_stale_behind_fresh :
    ∃ (calls : List Call) (now additional : ℕ) (e : Fault),
      ((calls.foldl call (new : PendingGroups .oneSymbol)).admitObject additional now).1 =
      .error e ∧
      (calls.foldl call (new : PendingGroups .oneSymbol)).checkFresh additional now = .ok () :=
  ⟨[.insertDatagram 1 6 smallSymbol ⟨0, 0, 0⟩,
    .insertDatagram 1 5 smallSymbol ⟨maxBuffering, maxBuffering, maxBuffering⟩],
    maxBuffering, 256 * 1024 * 1024 - reservation smallSymbol.oti,
    invalid "pending receive budget exceeded (objects 2/128, bytes 8544+268431184/268435456)",
    by decide +kernel, by decide +kernel⟩

end PendingGroups

end Kymux.VideoFec
