import Kymux.Driver.VideoFecSteps

namespace Kymux.VideoFec.PendingGroups

open Av Driver Fec

variable {rq : RaptorQ} {s : PendingGroups rq} {groupSeq additional : ℕ}

structure HasRoom (s : PendingGroups rq) (groupSeq additional : ℕ) : Prop where
  objects : s.objects < maxPendingObjects
  bytes : s.bytes + additional ≤ pendingLimit maxVideoPayload
  groups : (∃ g ∈ s.pendingGroups, g.groupSeq = groupSeq) ∨
    s.pendingGroups.length < maxPendingGroups

instance (s : PendingGroups rq) (groupSeq additional : ℕ) :
    Decidable (s.HasRoom groupSeq additional) :=
  decidable_of_iff
  (s.objects < maxPendingObjects ∧ s.bytes + additional ≤ pendingLimit maxVideoPayload ∧
      ((∃ g ∈ s.pendingGroups, g.groupSeq = groupSeq) ∨ s.pendingGroups.length < maxPendingGroups))
    ⟨fun h ↦ ⟨h.1, h.2.1, h.2.2⟩, fun h ↦ ⟨h.objects, h.bytes, h.groups⟩⟩

theorem HasRoom.admitObject (h : s.HasRoom groupSeq additional) (now : ℕ) :
    s.admitObject additional now = (.ok (), s) := by
  have hcap : s.checkCapacity additional = .ok () := checkPending_ok_iff.mpr ⟨h.objects, h.bytes⟩
  simp [PendingGroups.admitObject, admitLoop, admitLoopWith, hcap]

theorem HasRoom.place (h : s.HasRoom groupSeq additional) (ho : s.pendingGroups.Ordered) :
    ∃ pre g post, Groups.Place room s.pendingGroups groupSeq pre g post ∧
      s.pendingGroups.preparePendingGroup room groupSeq = (.ok pre.length, pre ++ g :: post) := by
  rcases Groups.preparePendingGroup_cases room ho.sorted groupSeq with
    ⟨e, -, hroom, hnew⟩ | ⟨pre, g, post, hplace, hprep⟩
  · rcases h.groups with ⟨g, hg, hseq⟩ | hlt
    · exact absurd hseq (hnew g hg)
    · rw [room, if_neg (not_le.mpr hlt)] at hroom
      cases hroom
  · exact ⟨pre, g, post, hplace, hprep⟩

/-- A config reaches the group of its number, which must not have one. -/
theorem insertStreamPacket_place {media : MediaPacket} (ho : s.pendingGroups.Ordered)
    (hroom : s.HasRoom groupSeq media.payload.length) (hconfig : media.header.isConfig = true)
    (kypacketSeq : ℕ) (clock : Clock) :
    ∃ pre g post, Groups.Place room s.pendingGroups groupSeq pre g post ∧
      (g.configPacket.isNone = true →
        s.insertStreamPacket groupSeq kypacketSeq (.media media) clock =
        (.ok (), { s with
          pendingGroups :=
            pre ++ ⟨g.setConfig ⟨.media media, kypacketSeq⟩, groupSeq⟩ :: post })) := by
  obtain ⟨pre, g, post, hplace, hprep⟩ := hroom.place ho
  refine ⟨pre, g, post, hplace, fun hnone ↦ ?_⟩
  have hget : (pre ++ g :: post)[pre.length]? = some g := by simp
  simp only [insertStreamPacket, insertStreamPacketWith, hconfig, hroom.admitObject, hprep, hget,
    hnone, not_true_eq_false, if_false, List.set_append_right _ _ le_rfl, Nat.sub_self,
    List.set_cons_zero, hplace.groupSeq_eq]

theorem insertDatagram_place {x : Symbol} (ho : s.pendingGroups.Ordered) (groupSeq kypacketSeq : ℕ)
    (hoti : validateOti x.oti maxVideoPayload = .ok ()) (hretired : s.retiredThrough = none)
    (hhome : ∀ g ∈ s.pendingGroups, kypacketSeq ∈ g.seqs → g.groupSeq = groupSeq)
    (hroom : kypacketSeq ∉ s.pendingGroups.mediaSeqs → s.HasRoom groupSeq (reservation x.oti))
    (clock : Clock) :
    ∃ pre g post p, Groups.Place room s.pendingGroups groupSeq pre g post ∧
      Pending.Inserted (reassembly rq) g.toPending kypacketSeq x clock.created clock.assembled
        (s.insertDatagram groupSeq kypacketSeq x clock).1 p ∧
      (s.insertDatagram groupSeq kypacketSeq x clock).2 =
        { s with pendingGroups := pre ++ ⟨p, groupSeq⟩ :: post } := by
  have hlate : s.isRetired kypacketSeq = false := by rw [isRetired, hretired]; rfl
  have hmoved :
      ¬ s.pendingGroups.any
        (fun g ↦ g.groupSeq ≠ groupSeq && Queue.contains g.toPending kypacketSeq) := by
    intro hany
    obtain ⟨g, hg, hk⟩ := List.any_eq_true.mp hany
    simp only [ne_eq, decide_not, Bool.and_eq_true, Bool.not_eq_true', decide_eq_false_iff_not]
      at hk
    exact hk.1 (hhome g hg ((contains_iff (ho.each g hg)).mp hk.2))
  have hstore :
    s.insertDatagram groupSeq kypacketSeq x clock = s.storeDatagram groupSeq kypacketSeq x clock ∧
      ((∃ g ∈ s.pendingGroups, g.groupSeq = groupSeq) ∨
        s.pendingGroups.length < maxPendingGroups) := by
    simp only [insertDatagram, insertDatagramWith, hoti, hlate, Bool.false_eq_true, if_false,
      if_neg hmoved]
    by_cases hk : kypacketSeq ∈ s.pendingGroups.mediaSeqs
    · obtain ⟨g, hg, hmem⟩ := Groups.mem_mediaSeqs.mp hk
      have hseq := hhome g hg hmem
      have hhere : s.pendingGroups.any
          (fun g ↦ g.groupSeq = groupSeq && Queue.contains g.toPending kypacketSeq) = true :=
        List.any_eq_true.mpr ⟨g, hg, by simp [hseq, (contains_iff (ho.each g hg)).mpr hmem]⟩
      rw [if_pos hhere]
      exact ⟨rfl, .inl ⟨g, hg, hseq⟩⟩
    · refine ⟨?_, (hroom hk).groups⟩
      rw [(hroom hk).admitObject]
      simp only [hlate, Bool.false_eq_true, if_false, ite_self]
  obtain ⟨hstore, hgroups⟩ := hstore
  rw [hstore]
  have hstored := storeDatagram_stored ho groupSeq kypacketSeq x clock
  generalize s.storeDatagram groupSeq kypacketSeq x clock = out at hstored
  obtain ⟨r, s'⟩ := out
  cases hstored with
  | full hnew hfull =>
    rcases hgroups with ⟨g, hg, hseq⟩ | hlt
    · exact absurd hseq (hnew g hg)
    · rw [room, if_neg (not_le.mpr hlt)] at hfull
      cases hfull
  | inserted hplace hins => exact ⟨_, _, _, _, hplace, hins, rfl⟩

end Kymux.VideoFec.PendingGroups
