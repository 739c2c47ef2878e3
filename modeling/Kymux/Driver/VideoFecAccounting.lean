import Kymux.Driver.VideoFecLedger

namespace Kymux.VideoFec

open Av Driver EventLoop Fec Timed
open PendingGroups (worth lost)

variable {rq : RaptorQ} {s s' t : PendingGroups rq} {w : Ledger Entry}
  {groupSeq kypacketSeq : ℕ} {x : Symbol} {clock : Clock} {r : Except Fault Unit}

def isReassembled (gs : Groups VideoObject (Parts rq)) (kypacketSeq : ℕ) : Bool :=
  gs.any (fun g ↦ g.datagrams.any (fun d ↦ d.kypacketSeq = kypacketSeq))

def recordSymbol (gs gs' : Groups VideoObject (Parts rq)) (kypacketSeq : ℕ) (x : Symbol)
    (w : Ledger Entry) : Ledger Entry :=
  if kypacketSeq ∈ gs.mediaSeqs then
    { w with live := w.live.map (fun e ↦
      if e.kypacketSeq = kypacketSeq then e.receive x (isReassembled gs' kypacketSeq) else e) }
  else if kypacketSeq ∈ gs'.mediaSeqs then
    { w with live := w.live ++ [.admitted kypacketSeq x (isReassembled gs' kypacketSeq)] }
  else w

theorem isReassembled_of_datagram {gs : Groups VideoObject (Parts rq)} {g : Group rq}
    {d : DatagramPacket VideoObject} (hg : g ∈ gs) (hd : d ∈ g.datagrams) :
    isReassembled gs d.kypacketSeq = true := by
  simp only [isReassembled, List.any_eq_true, decide_eq_true_eq]
  exact ⟨g, hg, d, hd, rfl⟩

theorem isReassembled_of_segments {g : Group rq} {u : DatagramSegments (Parts rq)} (hv : s.Valid)
    (hg : g ∈ s.pendingGroups) (hu : u ∈ g.segments) :
    isReassembled s.pendingGroups u.kypacketSeq = false := by
  rw [Bool.eq_false_iff]
  simp only [isReassembled, ne_eq, List.any_eq_true, decide_eq_true_eq]
  rintro ⟨h, hh, d, hd, hk⟩
  obtain rfl := hv.home hg hh (Pending.mem_seqs.mpr (.inl ⟨u, hu, rfl⟩))
    (Pending.mem_seqs.mpr (.inr ⟨d, hd, hk⟩))
  exact (hv.ordered.each g hg).apart u hu d hd hk.symm

/-- A symbol that is taken finds its object pending, or makes it so. -/
theorem stored_mediaSeqs (hs : t.Valid) (hadm : t.Admitted groupSeq kypacketSeq x)
    (h : PendingGroups.Stored t groupSeq kypacketSeq x clock r s') (hr : r = .ok ()) :
    kypacketSeq ∈ t.pendingGroups.mediaSeqs ∧
        (s'.pendingGroups.mediaSeqs : Multiset ℕ) = t.pendingGroups.mediaSeqs ∨
      kypacketSeq ∉ t.pendingGroups.mediaSeqs ∧
        (s'.pendingGroups.mediaSeqs : Multiset ℕ) = t.pendingGroups.mediaSeqs + {kypacketSeq} := by
  cases h with
  | full => cases hr
  | @inserted pre g post _ p hplace hins =>
    have htot : (t.pendingGroups.mediaSeqs : Multiset ℕ) =
        Groups.total (fun p ↦ (p.seqs : Multiset ℕ)) (pre ++ post) + g.seqs := by
      rw [Groups.coe_mediaSeqs, hplace.total (f := fun p ↦ (p.seqs : Multiset ℕ)) rfl]
    have hmem := hins.mem_seqs hr
    rw [Groups.coe_mediaSeqs, Groups.total_middle, htot]
    have hw := hins.weight (Pending.keeps_seqs (reassembly rq))
    simp only [← Pending.coe_seqs] at hw
    rcases hw with hw | ⟨hk, parts, -, hw⟩ | ⟨hne, -⟩
    · refine .inl ⟨?_, by rw [hw]⟩
      rw [← Multiset.mem_coe, htot, Multiset.mem_add]
      exact .inr (hw ▸ Multiset.mem_coe.mpr hmem)
    · exact .inr ⟨(hadm.fresh hs.ordered.sorted hplace hk).1, by rw [hw, add_assoc]⟩
    · exact absurd hr hne

theorem addPacket_received {u u' : Parts rq} (h : u.addPacket x = .ok u') :
    u'.decoder.received = insert x.payloadId.key u.decoder.received ∧
      u'.decoder.oti = u.decoder.oti ∧ x.oti = u.decoder.oti := by
  obtain ⟨hoti, hoti', hstep⟩ := ObjectDecoder.decode_ok (Parts.addPacket_ok h).1
  refine ⟨?_, hoti', hoti⟩
  rcases hstep with ⟨hk, -, heq⟩ | ⟨-, hrec, -⟩
  · rw [heq, Finset.insert_eq_of_mem hk]
  · exact hrec

def entryOf (kypacketSeq : ℕ) (u : Parts rq) (reassembled : Bool) : Entry :=
  ⟨kypacketSeq, u.decoder.oti, u.decoder.received, u.decoder.received, reassembled⟩

theorem contribution_complete {u : Parts rq} (hc : u.isComplete = true) :
    (entryOf kypacketSeq u true).contribution = u.fecStats := by
  simp [entryOf, Entry.contribution, Entry.account, Parts.fecStats, hc, u.decoder.counted]

theorem entryOf_receive {u u' : Parts rq} (h : u.addPacket x = .ok u') (b : Bool) :
    (entryOf kypacketSeq u false).receive x b = entryOf kypacketSeq u' b := by
  obtain ⟨hrec, hoti, -⟩ := addPacket_received h
  simp [entryOf, Entry.receive, hrec, hoti]

theorem entryOf_admitted {u u' : Parts rq} {created : ℕ} (hnew : Parts.new x.oti created = .ok u)
    (h : u.addPacket x = .ok u') (b : Bool) :
    Entry.admitted kypacketSeq x b = entryOf kypacketSeq u' b := by
  obtain ⟨hrec, hoti, hx⟩ := addPacket_received h
  simp [entryOf, Entry.admitted, hrec, hoti, hx, (ObjectDecoder.new_ok (Parts.new_ok hnew).1).2.2.1]

theorem contribution_receive {e : Entry} (he : e.reassembled = true) (b : Bool) :
    (e.receive x b).contribution = e.contribution := by
  simp [Entry.contribution, Entry.account, Entry.receive, he]

/-- The live entries after a symbol of the object `kypacketSeq`: all others are as before,
one that is reassembled contributes the same, and the one of the symbol is up to date. -/
structure Updates (kypacketSeq : ℕ) (live live' : List Entry) : Prop where
  other : ∀ e ∈ live, e.kypacketSeq ≠ kypacketSeq → e ∈ live'
  reassembled : ∀ e ∈ live, e.reassembled = true → ∃ e' ∈ live', e'.kypacketSeq = e.kypacketSeq ∧
    e'.oti = e.oti ∧ e'.reassembled = true ∧ e'.contribution = e.contribution

theorem recordSymbol_updates (gs gs' : Groups VideoObject (Parts rq)) (kypacketSeq : ℕ) (x : Symbol)
    (w : Ledger Entry) : Updates kypacketSeq w.live (recordSymbol gs gs' kypacketSeq x w).live := by
  unfold recordSymbol
  split_ifs with hknown hnew
  · constructor
    · intro e he hne
      exact List.mem_map.mpr ⟨e, he, if_neg hne⟩
    · intro e he hr
      refine ⟨_, List.mem_map_of_mem he, ?_⟩
      split_ifs
      · exact ⟨rfl, rfl, by simp [Entry.receive, hr], contribution_receive hr _⟩
      · exact ⟨rfl, rfl, hr, rfl⟩
  · exact ⟨fun e he _ ↦ List.mem_append_left _ he,
      fun e he hr ↦ ⟨e, List.mem_append_left _ he, rfl, rfl, hr, rfl⟩⟩
  · exact ⟨fun e he _ ↦ he, fun e he hr ↦ ⟨e, he, rfl, rfl, hr, rfl⟩⟩

theorem Updates.obeys {live live' : List Entry} {p : Queue rq} (hu : Updates kypacketSeq live live')
    (h : p.Obeys (recorded live) groupSeq) (hk : kypacketSeq ∉ p.seqs) :
    p.Obeys (recorded live') groupSeq where
  ready _ _ := trivial
  sent _ := trivial
  segments u hmem := by
    refine hu.other _ (h.segments u hmem) ?_
    rintro rfl
    exact hk (Pending.mem_seqs.mpr (.inl ⟨u, hmem, rfl⟩))
  datagrams d hmem := by
    obtain ⟨e, he, hseq, hoti, hr, hstats⟩ := h.datagrams d hmem
    obtain ⟨e', he', hseq', hoti', hr', hstats'⟩ := hu.reassembled e he hr
    exact ⟨e', he', hseq'.trans hseq, hoti'.trans hoti, hr', hstats'.trans hstats⟩

theorem recordSymbol_self {gs gs' : Groups VideoObject (Parts rq)} {p : Queue rq} {u u' : Parts rq}
    {created : ℕ} (hp : kypacketSeq ∈ t.pendingGroups.mediaSeqs → kypacketSeq ∈ p.seqs)
    (hkeys : ((w.live.map Entry.kypacketSeq : List ℕ) : Multiset ℕ) = t.pendingGroups.mediaSeqs)
    (hknown : kypacketSeq ∈ gs.mediaSeqs ↔ kypacketSeq ∈ t.pendingGroups.mediaSeqs)
    (hmem : kypacketSeq ∈ gs'.mediaSeqs)
    (hu : p.Before (recorded w.live) (reassembly rq) groupSeq kypacketSeq x created u)
    (hadd : u.addPacket x = .ok u') :
    entryOf kypacketSeq u' (isReassembled gs' kypacketSeq) ∈
      (recordSymbol gs gs' kypacketSeq x w).live := by
  unfold recordSymbol
  rcases hu with ⟨-, hlive⟩ | ⟨hnot, hnew⟩
  · -- The entry is live, so its object was pending.
    have hpending : kypacketSeq ∈ t.pendingGroups.mediaSeqs := by
      rw [← Multiset.mem_coe, ← hkeys]
      exact Multiset.mem_coe.mpr (List.mem_map.mpr ⟨_, hlive, rfl⟩)
    rw [if_pos (hknown.mpr hpending)]
    refine List.mem_map.mpr ⟨_, hlive, ?_⟩
    rw [if_pos rfl]
    exact entryOf_receive hadd _
  · rw [if_neg (fun h ↦ hnot (hp (hknown.mp h))), if_pos hmem]
    simp [entryOf_admitted hnew hadd]

theorem recorded_stored {gs : Groups VideoObject (Parts rq)} (ht : t.Valid) (hv : s'.Valid)
    (hadm : t.Admitted groupSeq kypacketSeq x)
    (h : PendingGroups.Stored t groupSeq kypacketSeq x clock r s') (hr : r = .ok ())
    (hrec : t.pendingGroups.Obey (recorded w.live))
    (hkeys : ((w.live.map Entry.kypacketSeq : List ℕ) : Multiset ℕ) = t.pendingGroups.mediaSeqs)
    (hknown : kypacketSeq ∈ gs.mediaSeqs ↔ kypacketSeq ∈ t.pendingGroups.mediaSeqs) :
    s'.pendingGroups.Obey (recorded (recordSymbol gs s'.pendingGroups kypacketSeq x w).live) := by
  have hupd := recordSymbol_updates gs s'.pendingGroups kypacketSeq x w
  cases h with
  | full => cases hr
  | @inserted pre g post _ p hplace hins =>
    have hmid : (⟨p, groupSeq⟩ : Group rq) ∈ pre ++ ⟨p, groupSeq⟩ :: post := by simp
    have hkp := hins.mem_seqs hr
    have hmem : kypacketSeq ∈ Groups.mediaSeqs (pre ++ (⟨p, groupSeq⟩ : Group rq) :: post) :=
      Groups.mem_mediaSeqs.mpr ⟨_, hmid, hkp⟩
    have hg : kypacketSeq ∈ t.pendingGroups.mediaSeqs → kypacketSeq ∈ g.seqs := by
      intro hpending
      by_contra hnot
      exact (hadm.fresh ht.ordered.sorted hplace hnot).1 hpending
    have hother : ∀ h ∈ pre ++ post, kypacketSeq ∉ h.seqs := by
      intro h hh hk
      have hne : h.groupSeq ≠ groupSeq := by
        rcases List.mem_append.mp hh with hh | hh
        · exact (hv.ordered.sorted.before h hh).ne
        · exact (hv.ordered.sorted.after h hh).ne'
      have heq := hv.home (by rcases List.mem_append.mp hh with hh | hh <;> simp [hh]) hmid hk hkp
      exact hne (congrArg PendingGroup.groupSeq heq)
    have hself : ∀ u u' created, Pending.Before (recorded w.live) (reassembly rq) groupSeq
        g.toPending kypacketSeq x created u → u.addPacket x = .ok u' →
        entryOf kypacketSeq u' (isReassembled (pre ++ ⟨p, groupSeq⟩ :: post) kypacketSeq) ∈
          (recordSymbol gs (pre ++ ⟨p, groupSeq⟩ :: post) kypacketSeq x w).live :=
      fun u u' created hu hadd ↦ recordSymbol_self hg hkeys hknown hmem hu hadd
    have hp : p.Obeys
      (recorded (recordSymbol gs (pre ++ ⟨p, groupSeq⟩ :: post) kypacketSeq x w).live)
        groupSeq := by
      refine (hplace.obeys hrec).inserted (hplace.all ht.ordered.each Pending.Ordered.new) hins hr
        (fun _ _ ↦ trivial) (fun _ ↦ trivial) (fun u hne hu ↦ hupd.other _ hu hne) ?_ ?_ ?_
      · rintro d ⟨e, he, hseq, hoti, hre, hstats⟩
        obtain ⟨e', he', hseq', hoti', hre', hstats'⟩ := hupd.reassembled e he hre
        exact ⟨e', he', hseq'.trans hseq, hoti'.trans hoti, hre', hstats'.trans hstats⟩
      · intro u u' hu hadd hc hmem'
        have hfalse := isReassembled_of_segments hv hmid hmem'
        have hentry := hself u u' _ hu hadd
        rw [hfalse] at hentry
        exact hentry
      · intro u u' object packet hu hadd hc hasm hmem'
        have htrue := isReassembled_of_datagram hmid hmem'
        have hentry := hself u u' _ hu hadd
        rw [htrue] at hentry
        obtain ⟨rfl, -⟩ := Parts.assemble_ok hasm
        exact ⟨_, hentry, rfl, rfl, rfl, contribution_complete hc⟩
    intro h hh
    rcases List.mem_append.mp hh with hh | hh
    · exact hupd.obeys (hrec h (hplace.subset h (by simp [hh]))) (hother h (by simp [hh]))
    · rcases List.mem_cons.mp hh with rfl | hh
      · exact hp
      · exact hupd.obeys (hrec h (hplace.subset h (by simp [hh]))) (hother h (by simp [hh]))

theorem recordSymbol_keys {gs : Groups VideoObject (Parts rq)} (ht : t.Valid)
    (hadm : t.Admitted groupSeq kypacketSeq x)
    (h : PendingGroups.Stored t groupSeq kypacketSeq x clock r s') (hr : r = .ok ())
    (hkeys : ((w.live.map Entry.kypacketSeq : List ℕ) : Multiset ℕ) = t.pendingGroups.mediaSeqs)
    (hknown : kypacketSeq ∈ gs.mediaSeqs ↔ kypacketSeq ∈ t.pendingGroups.mediaSeqs) :
    (((recordSymbol gs s'.pendingGroups kypacketSeq x w).live.map Entry.kypacketSeq : List ℕ) :
      Multiset ℕ) = s'.pendingGroups.mediaSeqs := by
  unfold recordSymbol
  rcases stored_mediaSeqs ht hadm h hr with ⟨hmem, heq⟩ | ⟨hmem, heq⟩
  · rw [if_pos (hknown.mpr hmem), heq, ← hkeys, List.map_map]
    congr 1
    refine List.map_congr_left (fun e _ ↦ ?_)
    simp only [Function.comp_apply]
    split_ifs <;> rfl
  · have hmem' : kypacketSeq ∈ s'.pendingGroups.mediaSeqs := by
      rw [← Multiset.mem_coe, heq]
      simp
    rw [if_neg (fun h ↦ hmem (hknown.mp h)), if_pos hmem', heq, ← hkeys, List.map_append,
      ← Multiset.coe_add]
    rfl

structure Kept (s : PendingGroups rq) (w : Ledger Entry) : Prop where
  recorded : s.pendingGroups.Obey (recorded w.live)
  keys : ((w.live.map Entry.kypacketSeq : List ℕ) : Multiset ℕ) = s.pendingGroups.mediaSeqs

/-- The ledger follows a change of the pending state in which objects are retired: those that
leave contribute what is added to the retired statistics. -/
structure Follows (s s' : PendingGroups rq) (w w' : Ledger Entry) : Prop where
  kept : Kept s' w'
  paid : ∃ loss, Sound loss ∧ s'.retiredStats = s.retiredStats + loss ∧
    (w'.left.map Entry.contribution).sum = (w.left.map Entry.contribution).sum + loss

theorem Kept.retires {now : ℕ} (hk : Kept s w) (hv : s.Valid)
    (hret : Relation.ReflTransGen (PendingGroups.Retires now) s t) :
    Follows s t w (w.depart Entry.kypacketSeq t.pendingGroups.mediaSeqs) := by
  obtain ⟨X, hworth, hstats⟩ := PendingGroups.retires_worth hret
  obtain ⟨hrec, hkeys, hleft, hsound⟩ := recorded_depart hv hk.recorded hk.keys
    (PendingGroups.retires_obey hret hk.recorded) hworth
  exact ⟨⟨hrec, hkeys⟩, lost X, hsound, hstats, hleft⟩

theorem Kept.keep (hk : Kept s w) (hv : s.Valid) :
    Follows s s w (w.depart Entry.kypacketSeq s.pendingGroups.mediaSeqs) := by
  have hnone : Relation.ReflTransGen (PendingGroups.Retires 0) s s := .refl
  exact hk.retires hv hnone

theorem depart_congr {A B : List ℕ} (h : ∀ e ∈ w.live, e.kypacketSeq ∈ A ↔ e.kypacketSeq ∈ B) :
    w.depart Entry.kypacketSeq A = w.depart Entry.kypacketSeq B := by
  unfold Ledger.depart
  congr 1
  · exact List.filter_congr (fun e he ↦ by simp [h e he])
  · congr 1
    exact List.filter_congr (fun e he ↦ by simp [h e he])

theorem Kept.streamStep {packet : AVPacket} (hk : Kept s w) (hv : s.Valid)
    (hstep : PendingGroups.StreamStep s groupSeq kypacketSeq packet clock r s') (hr : r = .ok ()) :
    Follows s s' w (w.depart Entry.kypacketSeq s'.pendingGroups.mediaSeqs) := by
  cases hstep with
  | unexpected | rejected | full | duplicate => cases hr
  | @stored media pre g post t hpacket hcfg hret hcap hplace hc =>
    have hfollows := hk.retires hv hret
    have hseqs : (Groups.mediaSeqs (pre ++ ⟨g.setConfig ⟨packet, kypacketSeq⟩, groupSeq⟩ :: post) :
        Multiset ℕ) = t.pendingGroups.mediaSeqs := PendingGroups.mediaSeqs_setConfig hplace
    have hdepart : w.depart Entry.kypacketSeq
        (Groups.mediaSeqs (pre ++ ⟨g.setConfig ⟨packet, kypacketSeq⟩, groupSeq⟩ :: post)) =
          w.depart Entry.kypacketSeq t.pendingGroups.mediaSeqs := by
      refine depart_congr (fun e _ ↦ ?_)
      rw [← Multiset.mem_coe, hseqs, Multiset.mem_coe]
    dsimp only
    rw [hdepart]
    refine ⟨⟨?_, hseqs ▸ hfollows.kept.keys⟩, hfollows.paid⟩
    exact hplace.obey hfollows.kept.recorded
      ((hplace.obeys hfollows.kept.recorded).setConfig trivial)

theorem recordSymbol_none {gs gs' : Groups VideoObject (Parts rq)} (h : kypacketSeq ∉ gs.mediaSeqs)
    (h' : kypacketSeq ∉ gs'.mediaSeqs) : recordSymbol gs gs' kypacketSeq x w = w := by
  rw [recordSymbol, if_neg h, if_neg h']

theorem recordSymbol_left (gs gs' : Groups VideoObject (Parts rq)) (kypacketSeq : ℕ) (x : Symbol)
    (w : Ledger Entry) : (recordSymbol gs gs' kypacketSeq x w).left = w.left := by
  unfold recordSymbol
  split_ifs <;> rfl

theorem Kept.stored (hk : Kept t w) (ht : t.Valid) (hadm : t.Admitted groupSeq kypacketSeq x)
    (h : PendingGroups.Stored t groupSeq kypacketSeq x clock r s') (hr : r = .ok ())
    {gs : Groups VideoObject (Parts rq)}
    (hknown : kypacketSeq ∈ gs.mediaSeqs ↔ kypacketSeq ∈ t.pendingGroups.mediaSeqs) :
    Kept s' (recordSymbol gs s'.pendingGroups kypacketSeq x w) :=
  ⟨recorded_stored ht (ht.stored hadm h) hadm h hr hk.recorded hk.keys hknown,
    recordSymbol_keys ht hadm h hr hk.keys hknown⟩

theorem stored_retiredStats (h : PendingGroups.Stored s groupSeq kypacketSeq x clock r s') :
    s'.retiredStats = s.retiredStats := by
  cases h <;> rfl

theorem Follows.recordSymbol {gs : Groups VideoObject (Parts rq)} {w' : Ledger Entry}
    (hf : Follows s t w w') (hk : Kept s' (recordSymbol gs s'.pendingGroups kypacketSeq x w'))
    (hstats : s'.retiredStats = t.retiredStats) :
    Follows s s' w (recordSymbol gs s'.pendingGroups kypacketSeq x w') := by
  refine ⟨hk, ?_⟩
  rw [hstats, recordSymbol_left]
  exact hf.paid

theorem Kept.datagramStep (hk : Kept s w) (hv : s.Valid)
    (hstep : PendingGroups.DatagramStep s groupSeq kypacketSeq x clock r s') (hr : r = .ok ()) :
    Follows s s' w (recordSymbol s.pendingGroups s'.pendingGroups kypacketSeq x
      (w.depart Entry.kypacketSeq s'.pendingGroups.mediaSeqs)) := by
  cases hstep with
  | invalid | migrated | rejected => cases hr
  | late hlate =>
    have hnot := hv.not_mem_of_isRetired hlate
    rw [recordSymbol_none hnot hnot]
    exact hk.keep hv
  | @known g _ _ hg hgs hmem hstored =>
    have hadm : s.Admitted groupSeq kypacketSeq x := .inl ⟨g, hg, hgs, hmem⟩
    have hpending : kypacketSeq ∈ s.pendingGroups.mediaSeqs :=
      Groups.mem_mediaSeqs.mpr ⟨g, hg, hmem⟩
    have hdepart : w.depart Entry.kypacketSeq s'.pendingGroups.mediaSeqs =
        w.depart Entry.kypacketSeq s.pendingGroups.mediaSeqs := by
      rcases stored_mediaSeqs hv hadm hstored hr with ⟨-, heq⟩ | ⟨hnot, -⟩
      · exact depart_congr (fun e _ ↦ by rw [← Multiset.mem_coe, heq, Multiset.mem_coe])
      · exact absurd hpending hnot
    rw [hdepart]
    have hf := hk.keep hv
    exact hf.recordSymbol (hf.kept.stored hv hadm hstored hr Iff.rfl) (stored_retiredStats hstored)
  | overtaken hnew hret hlate =>
    rw [recordSymbol_none hnew (fun h ↦ hnew (PendingGroups.retires_mediaSeqs hret h))]
    exact hk.retires hv hret
  | @fresh t _ _ hoti hnew hret hcap hlive hstored =>
    have ht := hv.retirements hret
    have hnew' : kypacketSeq ∉ t.pendingGroups.mediaSeqs :=
      fun h ↦ hnew (PendingGroups.retires_mediaSeqs hret h)
    have hadm : t.Admitted groupSeq kypacketSeq x := .inr ⟨hnew', hlive, hcap⟩
    -- No entry has the new number, so those that leave are the retired ones.
    have hdepart : w.depart Entry.kypacketSeq s'.pendingGroups.mediaSeqs =
        w.depart Entry.kypacketSeq t.pendingGroups.mediaSeqs := by
      rcases stored_mediaSeqs ht hadm hstored hr with ⟨hmem, -⟩ | ⟨-, heq⟩
      · exact absurd hmem hnew'
      · refine depart_congr (fun e he ↦ ?_)
        have hne : e.kypacketSeq ≠ kypacketSeq := by
          rintro rfl
          apply hnew
          rw [← Multiset.mem_coe, ← hk.keys]
          exact Multiset.mem_coe.mpr (List.mem_map_of_mem he)
        rw [← Multiset.mem_coe, heq, Multiset.mem_add, Multiset.mem_singleton, Multiset.mem_coe]
        simp [hne]
    rw [hdepart]
    have hf := hk.retires hv hret
    exact hf.recordSymbol (hf.kept.stored ht hadm hstored hr (iff_of_false hnew hnew'))
      (stored_retiredStats hstored)

end Kymux.VideoFec
