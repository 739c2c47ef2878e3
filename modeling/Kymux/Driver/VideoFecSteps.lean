import Kymux.Driver.PendingWeight
import Kymux.Driver.VideoFec

namespace Kymux.VideoFec.PendingGroups

open Av Driver Fec SortedKeys

variable {rq : RaptorQ} {s s' s₁ : PendingGroups rq} {groupSeq kypacketSeq additional now : ℕ}
  {packet : AVPacket} {x : Symbol} {clock : Clock} {r : Except Fault Unit}

theorem foldl_older_some {cs : List Oldest} {o : Option Oldest} {b : Oldest}
    (h : cs.foldl older o = some b) :
    (b ∈ cs ∨ o = some b) ∧ (∀ c ∈ cs, b.seq ≤ c.seq) ∧ ∀ a, o = some a → b.seq ≤ a.seq := by
  induction cs generalizing o with
  | nil =>
    rw [List.foldl_nil] at h
    exact ⟨.inr h, by simp, by rintro a ha; cases h.symm.trans ha; exact le_rfl⟩
  | cons c cs ih =>
    obtain ⟨hmem, hmin, ho⟩ := ih h
    unfold older at hmem ho
    split_ifs at hmem ho with hlt
    · have hbc := ho c rfl
      refine ⟨?_, ?_, ?_⟩
      · rcases hmem with hmem | hmem
        · exact .inl (by simp [hmem])
        · cases hmem; exact .inl (by simp)
      · intro d hd
        rcases List.mem_cons.mp hd with rfl | hd
        · exact hbc
        · exact hmin d hd
      · rintro a rfl
        simp only [Option.all_some, decide_eq_true_eq] at hlt
        omega
    · refine ⟨?_, ?_, ho⟩
      · rcases hmem with hmem | hmem
        · exact .inl (by simp [hmem])
        · exact .inr hmem
      · intro d hd
        rcases List.mem_cons.mp hd with rfl | hd
        · cases o with
          | none => simp at hlt
          | some a =>
            have := ho a rfl
            simp only [Option.all_some, decide_eq_true_eq] at hlt
            omega
        · exact hmin d hd

/-- The first packet of a group is the oldest of its kind. -/
theorem candidate_le {g : Group rq} (hg : g.Ordered) {k : ℕ} (hk : k ∈ g.seqs) (index : ℕ) :
    ∃ c ∈ candidates g index, c.seq ≤ k := by
  rcases Pending.mem_seqs.mp hk with ⟨u, hu, rfl⟩ | ⟨d, hd, rfl⟩
  · cases hs : g.segments with
    | nil => simp [hs] at hu
    | cons v rest =>
      refine ⟨⟨index, false, v.kypacketSeq, v.parts.created⟩, by simp [candidates, hs], ?_⟩
      rcases List.mem_cons.mp (hs ▸ hu) with rfl | hu
      · exact le_rfl
      · exact ((List.pairwise_cons.mp (hs ▸ hg.segments)).1 u hu).le
  · cases hs : g.datagrams with
    | nil => simp [hs] at hd
    | cons e rest =>
      refine ⟨⟨index, true, e.kypacketSeq, e.instant⟩, by simp [candidates, hs], ?_⟩
      rcases List.mem_cons.mp (hs ▸ hd) with rfl | hd
      · exact le_rfl
      · exact ((List.pairwise_cons.mp (hs ▸ hg.datagrams)).1 d hd).le

theorem oldestMedia_some {o : Oldest} (ho : s.pendingGroups.Ordered)
    (h : s.oldestMedia = some o) :
    ∃ g, s.pendingGroups[o.index]? = some g ∧ o ∈ candidates g o.index ∧
      ∀ k ∈ s.pendingGroups.mediaSeqs, o.seq ≤ k := by
  obtain ⟨hmem, hmin, -⟩ := foldl_older_some h
  obtain ⟨⟨g, i⟩, hgi, hc⟩ := List.mem_flatMap.mp (hmem.resolve_right (by simp))
  have hi : o.index = i := by
    simp only [candidates, List.mem_append, Option.mem_toList, Option.map_eq_some_iff] at hc
    rcases hc with ⟨_, -, rfl⟩ | ⟨_, -, rfl⟩ <;> rfl
  subst hi
  refine ⟨g, List.mk_mem_zipIdx_iff_getElem?.mp hgi, hc, ?_⟩
  intro k hk
  obtain ⟨k', hk', hkk⟩ := Groups.mem_mediaSeqs.mp hk
  obtain ⟨j, hj⟩ := List.getElem?_of_mem hk'
  obtain ⟨c, hc', hle⟩ := candidate_le (ho.each k' hk') hkk j
  exact (hmin c (List.mem_flatMap.mpr ⟨(k', j), List.mk_mem_zipIdx_iff_getElem?.mpr hj, hc'⟩)).trans
    hle

inductive Removes (now : ℕ) (p : Queue rq) :
    ℕ → VideoFecStats → Queue rq → Prop
  | segment {u rest} (hs : p.segments = u :: rest) (hstale : u.parts.created + maxBuffering ≤ now) :
    Removes now p u.kypacketSeq u.parts.fecStats { p with segments := rest }
  | datagram {d ds} (hd : p.datagrams = d :: ds) (hstale : d.instant + maxBuffering ≤ now) :
    Removes now p d.kypacketSeq d.object.fecStats { p with datagrams := ds }

/-- All that a retirement can do: the oldest media object of all leaves, and its group too
if nothing is left in it. -/
inductive Retires (now : ℕ) (s : PendingGroups rq) : PendingGroups rq → Prop
  | mk {pre g post seq stats p} (hgs : s.pendingGroups = pre ++ g :: post)
    (hremoves : Removes now g.toPending seq stats p)
    (hmin : ∀ k ∈ s.pendingGroups.mediaSeqs, seq ≤ k) :
    Retires now s {
      pendingGroups :=
        if p.configPacket.isNone ∧ p.segments.isEmpty ∧ p.datagrams.isEmpty then pre ++ post
        else pre ++ ⟨p, g.groupSeq⟩ :: post
      retiredThrough := some (s.retiredThrough.elim seq (fun retired ↦ max retired seq))
      retiredStats := s.retiredStats + stats }

theorem removeFront_removes {g : Group rq} {o : Oldest} (hc : o ∈ candidates g o.index)
    (hstale : o.instant + maxBuffering ≤ now) :
    ∃ stats p, removeFront g.toPending o.isDatagram = .ok (stats, p) ∧
      Removes now g.toPending o.seq stats p := by
  obtain ⟨index, isDatagram, seq, instant⟩ := o
  simp only [candidates, List.mem_append, Option.mem_toList, Option.map_eq_some_iff,
    Oldest.mk.injEq] at hc
  rcases hc with ⟨u, hu, -, rfl, rfl, rfl⟩ | ⟨d, hd, -, rfl, rfl, rfl⟩
  · obtain ⟨rest, hs⟩ := List.head?_eq_some_iff.mp hu
    exact ⟨_, _, by simp only [removeFront, removeFrontWith, hs]; rfl, .segment hs hstale⟩
  · obtain ⟨rest, hs⟩ := List.head?_eq_some_iff.mp hd
    exact ⟨_, _, by simp only [removeFront, removeFrontWith, hs]; rfl, .datagram hs hstale⟩

theorem retireOldestMedia_cases (ho : s.pendingGroups.Ordered) (now : ℕ) :
    s.retireOldestMedia now = .ok (false, s) ∧
        (∀ o, s.oldestMedia = some o → now < o.instant + maxBuffering) ∨
      ∃ s', s.retireOldestMedia now = .ok (true, s') ∧ Retires now s s' := by
  unfold retireOldestMedia retireOldestMediaWith
  cases hold : s.oldestMedia with
  | none => exact .inl ⟨rfl, nofun⟩
  | some o =>
    dsimp only
    by_cases hfresh : o.instant + maxBuffering > now
    · exact .inl ⟨if_pos hfresh, fun _ ho ↦ Option.some.inj ho ▸ hfresh⟩
    · right
      obtain ⟨g, hget, hc, hmin⟩ := oldestMedia_some ho hold
      obtain ⟨pre, post, hsplit, hlen⟩ := split_of_getElem? hget
      obtain ⟨stats, p, hrem, hremoves⟩ := removeFront_removes hc (not_lt.mp hfresh)
      have hset : s.pendingGroups.set o.index ⟨p, g.groupSeq⟩ = pre ++ ⟨p, g.groupSeq⟩ :: post := by
        rw [hsplit, ← hlen, List.set_append_right _ _ le_rfl, Nat.sub_self, List.set_cons_zero]
      have herase : s.pendingGroups.eraseIdx o.index = pre ++ post := by
        rw [hsplit, ← hlen, eraseIdx_split]
      simp only [if_neg hfresh, hget, hrem, bind, Except.bind, pure, Except.pure, hset, herase]
      exact ⟨_, rfl, .mk hsplit hremoves hmin⟩

theorem Removes.ordered {p p' : Queue rq} {seq : ℕ} {stats : VideoFecStats}
    (h : Removes now p seq stats p') (hp : p.Ordered) : p'.Ordered := by
  cases h with
  | segment hs _ =>
    exact ⟨(List.pairwise_cons.mp (hs ▸ hp.segments)).2, hp.datagrams,
      fun u hu ↦ hp.apart u (by simp [hs, hu])⟩
  | datagram hd _ =>
    exact ⟨hp.segments, (List.pairwise_cons.mp (hd ▸ hp.datagrams)).2,
      fun u hu d hdm ↦ hp.apart u hu d (by simp [hd, hdm])⟩

theorem Retires.ordered (h : Retires now s s') (ho : s.pendingGroups.Ordered) :
    s'.pendingGroups.Ordered := by
  obtain ⟨hgs, hrem, -⟩ := h
  rw [hgs] at ho
  dsimp only
  split_ifs
  · exact ho.remove
  · exact ho.replace (hrem.ordered (ho.each _ (by simp)))

/-- A retirement changes a sum over the groups by what it removes. -/
theorem Retires.total {M : Type} [AddCommMonoid M] {f : Queue rq → M} (hnew : f Pending.new = 0)
    (h : Retires now s s') :
    ∃ rest p seq stats p', Removes now p seq stats p' ∧
      Groups.total f s.pendingGroups = rest + f p ∧ Groups.total f s'.pendingGroups = rest + f p' ∧
      (∀ k ∈ s.pendingGroups.mediaSeqs, seq ≤ k) ∧
      s'.retiredThrough = some (s.retiredThrough.elim seq (fun retired ↦ max retired seq)) ∧
      s'.retiredStats = s.retiredStats + stats := by
  obtain @⟨pre, g, post, seq, stats, p', hgs, hrem, hmin⟩ := h
  refine ⟨Groups.total f (pre ++ post), g.toPending, seq, stats, p', hrem, ?_, ?_, hmin, rfl, rfl⟩
  · rw [hgs, Groups.total_middle]
  · dsimp only
    split_ifs with hempty
    · obtain ⟨configPacket, datagrams, segments⟩ := p'
      obtain ⟨hc, hs, hd⟩ := hempty
      cases configPacket with
      | ready | sent => simp [ConfigPacket.isNone] at hc
      | none =>
        rw [List.isEmpty_iff] at hs hd
        subst hs hd
        exact (hnew ▸ add_zero _).symm
    · rw [Groups.total_middle]

theorem Removes.seqs {p p' : Queue rq} {seq : ℕ} {stats : VideoFecStats}
    (h : Removes now p seq stats p') : (p.seqs : Multiset ℕ) = (p'.seqs : Multiset ℕ) + {seq} := by
  cases h with
  | segment hs _ =>
    simp only [Pending.coe_seqs, Pending.weight, hs, List.map_cons, List.sum_cons]
    abel
  | datagram hd _ =>
    simp only [Pending.coe_seqs, Pending.weight, hd, List.map_cons, List.sum_cons]
    abel

theorem Retires.mediaSeqs (h : Retires now s s') :
    ∃ seq, (s.pendingGroups.mediaSeqs : Multiset ℕ) =
        (s'.pendingGroups.mediaSeqs : Multiset ℕ) + {seq} ∧
      (∀ k ∈ s.pendingGroups.mediaSeqs, seq ≤ k) ∧
      s'.retiredThrough = some (s.retiredThrough.elim seq (fun retired ↦ max retired seq)) := by
  obtain ⟨rest, p, seq, stats, p', hrem, htot, htot', hmin, hret, -⟩ :=
    h.total (f := fun p ↦ (p.seqs : Multiset ℕ)) rfl
  refine ⟨seq, ?_, hmin, hret⟩
  rw [Groups.coe_mediaSeqs, Groups.coe_mediaSeqs, htot, htot', hrem.seqs, add_assoc]

theorem mediaCount_eq (s : PendingGroups rq) : s.mediaCount = s.pendingGroups.mediaSeqs.length := by
  simp [mediaCount, Groups.mediaSeqs, Pending.seqs, List.length_flatMap]

theorem Retires.mediaCount (h : Retires now s s') : s'.mediaCount + 1 = s.mediaCount := by
  obtain ⟨seq, hseqs, -⟩ := h.mediaSeqs
  have := congrArg Multiset.card hseqs
  rw [mediaCount_eq, mediaCount_eq]
  simpa using this.symm

/-- The retry loop of `admit` ends, with the same outcome whatever number of turns above
that of the pending objects it is given. -/
theorem admitLoop_terminates (ho : s.pendingGroups.Ordered) (additional now : ℕ) :
    ∃ out, ∀ n > s.mediaCount, admitLoop additional now n s = some out := by
  induction hm : s.mediaCount using Nat.strong_induction_on generalizing s with
  | _ m ih =>
    cases hcap : s.checkCapacity additional with
    | ok u =>
      refine ⟨(.ok (), s), fun n hn ↦ ?_⟩
      obtain ⟨n, rfl⟩ : ∃ k, n = k + 1 := ⟨n - 1, by omega⟩
      simp [admitLoop, admitLoopWith, hcap]
    | error e =>
      rcases retireOldestMedia_cases ho now with ⟨hret, -⟩ | ⟨s₁, hret, hstep⟩
      · refine ⟨(.error e, s), fun n hn ↦ ?_⟩
        obtain ⟨n, rfl⟩ : ∃ k, n = k + 1 := ⟨n - 1, by omega⟩
        simp [admitLoop, admitLoopWith, hcap, hret]
      · have hcount := hstep.mediaCount
        obtain ⟨out, hout⟩ := ih s₁.mediaCount (by omega) (hstep.ordered ho) rfl
        refine ⟨out, fun n hn ↦ ?_⟩
        obtain ⟨n, rfl⟩ : ∃ k, n = k + 1 := ⟨n - 1, by omega⟩
        simpa [admitLoop, admitLoopWith, hcap, hret] using hout n (by omega)

theorem admitLoop_retires (ho : s.pendingGroups.Ordered) {n : ℕ}
    (h : admitLoop additional now n s = some (r, s')) :
    Relation.ReflTransGen (Retires now) s s' ∧ r = s'.checkCapacity additional ∧
      ∀ e, r = .error e → ∀ o, s'.oldestMedia = some o → now < o.instant + maxBuffering := by
  induction n generalizing s with
  | zero => cases h
  | succ n ih =>
    simp only [admitLoop, admitLoopWith] at h
    cases hcap : s.checkCapacity additional with
    | ok u =>
      simp only [hcap, Option.some.injEq, Prod.mk.injEq] at h
      obtain ⟨rfl, rfl⟩ := h
      exact ⟨.refl, hcap.symm, nofun⟩
    | error e =>
      simp only [hcap] at h
      rcases retireOldestMedia_cases ho now with ⟨hret, hfresh⟩ | ⟨s₁, hret, hstep⟩
      · simp only [hret, Option.some.injEq, Prod.mk.injEq] at h
        obtain ⟨rfl, rfl⟩ := h
        exact ⟨.refl, hcap.symm, fun _ _ ↦ hfresh⟩
      · simp only [hret] at h
        obtain ⟨hsteps, hr⟩ := ih (hstep.ordered ho) h
        exact ⟨.head hstep hsteps, hr⟩

/-- Admission retires some objects and then checks what is left. It fails when the oldest
of that is not stale. -/
theorem admitObject_retires (ho : s.pendingGroups.Ordered)
    (h : s.admitObject additional now = (r, s')) :
    Relation.ReflTransGen (Retires now) s s' ∧ r = s'.checkCapacity additional ∧
      ∀ e, r = .error e → ∀ o, s'.oldestMedia = some o → now < o.instant + maxBuffering := by
  obtain ⟨out, hout⟩ := admitLoop_terminates ho additional now
  have hloop := hout (s.mediaCount + 1) (Nat.lt_succ_self _)
  unfold admitObject at h
  rw [hloop, Option.getD_some] at h
  rw [h] at hloop
  exact admitLoop_retires ho hloop

theorem retires_ordered (h : Relation.ReflTransGen (Retires now) s s')
    (ho : s.pendingGroups.Ordered) : s'.pendingGroups.Ordered := by
  induction h with
  | refl => exact ho
  | tail _ hstep ih => exact hstep.ordered ih

theorem contains_iff {g : Group rq} (hg : g.Ordered) {k : ℕ} :
    Queue.contains g.toPending k = true ↔ k ∈ g.seqs := by
  rw [Queue.contains, Bool.or_eq_true, found_iff hg.segments, found_iff hg.datagrams,
    Pending.mem_seqs]

inductive Stored (s : PendingGroups rq) (groupSeq kypacketSeq : ℕ) (x : Symbol) (clock : Clock) :
    Except Fault Unit → PendingGroups rq → Prop
  | full {e} (hnew : ∀ g ∈ s.pendingGroups, g.groupSeq ≠ groupSeq)
    (hroom : room s.pendingGroups.length = .error e) :
    Stored s groupSeq kypacketSeq x clock (.error e) s
  | inserted {pre g post out p} (hplace : Groups.Place room s.pendingGroups groupSeq pre g post)
    (hins : Pending.Inserted (reassembly rq) g.toPending kypacketSeq x clock.created
      clock.assembled out p) :
    Stored s groupSeq kypacketSeq x clock out
      { s with pendingGroups := pre ++ ⟨p, groupSeq⟩ :: post }

theorem storeDatagram_stored (ho : s.pendingGroups.Ordered) (groupSeq kypacketSeq : ℕ) (x : Symbol)
    (clock : Clock) :
    Stored s groupSeq kypacketSeq x clock (s.storeDatagram groupSeq kypacketSeq x clock).1
      (s.storeDatagram groupSeq kypacketSeq x clock).2 := by
  unfold storeDatagram storeDatagramWith
  rcases Groups.preparePendingGroup_cases room ho.sorted groupSeq with
    ⟨e, hprep, hroom, hnew⟩ | ⟨pre, g, post, hplace, hprep⟩
  · simp only [hprep]
    exact .full hnew hroom
  · have hget : (pre ++ g :: post)[pre.length]? = some g := by simp
    have hg : g.Ordered := hplace.all ho.each Pending.Ordered.new
    simp only [hprep, hget, List.set_append_right _ _ le_rfl, Nat.sub_self, List.set_cons_zero,
      hplace.groupSeq_eq]
    exact .inserted hplace
      (Pending.insertDatagram_inserted (reassembly rq) hg kypacketSeq x clock.created
        clock.assembled)

inductive DatagramStep (s : PendingGroups rq) (groupSeq kypacketSeq : ℕ) (x : Symbol)
    (clock : Clock) : Except Fault Unit → PendingGroups rq → Prop
  | invalid {e} (hoti : validateOti x.oti maxVideoPayload = .error e) :
    DatagramStep s groupSeq kypacketSeq x clock (.error e) s
  | late (hlate : s.isRetired kypacketSeq = true) :
    DatagramStep s groupSeq kypacketSeq x clock (.ok ()) s
  | migrated {g} (hg : g ∈ s.pendingGroups) (hne : g.groupSeq ≠ groupSeq)
    (hk : kypacketSeq ∈ g.seqs) :
    DatagramStep s groupSeq kypacketSeq x clock (.error (invalid "object changed video group")) s
  | known {g out t'} (hg : g ∈ s.pendingGroups) (hgs : g.groupSeq = groupSeq)
    (hk : kypacketSeq ∈ g.seqs) (hstored : Stored s groupSeq kypacketSeq x clock out t') :
    DatagramStep s groupSeq kypacketSeq x clock out t'
  | rejected {e t} (hnew : kypacketSeq ∉ s.pendingGroups.mediaSeqs)
    (hret : Relation.ReflTransGen (Retires clock.admission) s t)
    (hcap : t.checkCapacity (reservation x.oti) = .error e) :
    DatagramStep s groupSeq kypacketSeq x clock (.error e) t
  | overtaken {t} (hnew : kypacketSeq ∉ s.pendingGroups.mediaSeqs)
    (hret : Relation.ReflTransGen (Retires clock.admission) s t)
    (hlate : t.isRetired kypacketSeq = true) :
    DatagramStep s groupSeq kypacketSeq x clock (.ok ()) t
  | fresh {t out t'} (hoti : validateOti x.oti maxVideoPayload = .ok ())
    (hnew : kypacketSeq ∉ s.pendingGroups.mediaSeqs)
    (hret : Relation.ReflTransGen (Retires clock.admission) s t)
    (hcap : t.checkCapacity (reservation x.oti) = .ok ())
    (hlive : t.isRetired kypacketSeq = false)
    (hstored : Stored t groupSeq kypacketSeq x clock out t') :
    DatagramStep s groupSeq kypacketSeq x clock out t'

theorem insertDatagram_step (ho : s.pendingGroups.Ordered) (groupSeq kypacketSeq : ℕ) (x : Symbol)
    (clock : Clock) :
    DatagramStep s groupSeq kypacketSeq x clock (s.insertDatagram groupSeq kypacketSeq x clock).1
      (s.insertDatagram groupSeq kypacketSeq x clock).2 := by
  unfold insertDatagram insertDatagramWith
  cases hoti : validateOti x.oti maxVideoPayload with
  | error e => exact .invalid hoti
  | ok u =>
    dsimp only
    split_ifs with hlate hmoved hhere
    · exact .late hlate
    · obtain ⟨g, hg, hk⟩ := List.any_eq_true.mp hmoved
      simp only [Bool.and_eq_true, decide_eq_true_eq] at hk
      exact .migrated hg hk.1 ((contains_iff (ho.each g hg)).mp hk.2)
    · obtain ⟨g, hg, hk⟩ := List.any_eq_true.mp hhere
      simp only [Bool.and_eq_true, decide_eq_true_eq] at hk
      exact .known hg hk.1 ((contains_iff (ho.each g hg)).mp hk.2)
        (storeDatagram_stored ho groupSeq kypacketSeq x clock)
    · have hnew : kypacketSeq ∉ s.pendingGroups.mediaSeqs := by
        intro hmem
        obtain ⟨g, hg, hk⟩ := Groups.mem_mediaSeqs.mp hmem
        have hc := (contains_iff (ho.each g hg)).mpr hk
        by_cases hgs : g.groupSeq = groupSeq
        · exact hhere (List.any_eq_true.mpr ⟨g, hg, by simp [hgs, hc]⟩)
        · exact hmoved (List.any_eq_true.mpr ⟨g, hg, by simp [hgs, hc]⟩)
      cases hadm : s.admitObject (reservation x.oti) clock.admission with
      | mk r₁ s₁ =>
        obtain ⟨hret, hr, -⟩ := admitObject_retires ho hadm
        cases r₁ with
        | error e => exact .rejected hnew hret hr.symm
        | ok u =>
          dsimp only
          split_ifs with hlate₁
          · exact .overtaken hnew hret hlate₁
          · exact .fresh hoti hnew hret hr.symm (Bool.not_eq_true _ ▸ hlate₁)
              (storeDatagram_stored (retires_ordered hret ho) groupSeq kypacketSeq x clock)

inductive StreamStep (s : PendingGroups rq) (groupSeq kypacketSeq : ℕ) (packet : AVPacket)
    (clock : Clock) : Except Fault Unit → PendingGroups rq → Prop
  | unexpected (hcfg : packet.isConfig = false) :
    StreamStep s groupSeq kypacketSeq packet clock (.error (invalid "expected video config")) s
  | rejected {media e t} (hpacket : packet = .media media)
    (hret : Relation.ReflTransGen (Retires clock.admission) s t)
    (hcap : t.checkCapacity media.payload.length = .error e) :
    StreamStep s groupSeq kypacketSeq packet clock (.error e) t
  | full {e t} (hret : Relation.ReflTransGen (Retires clock.admission) s t)
    (hnew : ∀ g ∈ t.pendingGroups, g.groupSeq ≠ groupSeq)
    (hroom : room t.pendingGroups.length = .error e) :
    StreamStep s groupSeq kypacketSeq packet clock (.error e) t
  | duplicate {g t} (hret : Relation.ReflTransGen (Retires clock.admission) s t)
    (hg : g ∈ t.pendingGroups) (hgs : g.groupSeq = groupSeq) (hc : g.configPacket ≠ .none) :
    StreamStep s groupSeq kypacketSeq packet clock
      (.error (invalid "duplicate video group config")) t
  | stored {media pre g post t} (hpacket : packet = .media media)
    (hcfg : media.header.isConfig = true)
    (hret : Relation.ReflTransGen (Retires clock.admission) s t)
    (hcap : t.checkCapacity media.payload.length = .ok ())
    (hplace : Groups.Place room t.pendingGroups groupSeq pre g post)
    (hc : g.configPacket = .none) :
    StreamStep s groupSeq kypacketSeq packet clock (.ok ())
      { t with pendingGroups := pre ++ ⟨g.setConfig ⟨packet, kypacketSeq⟩, groupSeq⟩ :: post }

theorem insertStreamPacket_step (ho : s.pendingGroups.Ordered) (groupSeq kypacketSeq : ℕ)
    (packet : AVPacket) (clock : Clock) :
    StreamStep s groupSeq kypacketSeq packet clock
      (s.insertStreamPacket groupSeq kypacketSeq packet clock).1
      (s.insertStreamPacket groupSeq kypacketSeq packet clock).2 := by
  unfold insertStreamPacket insertStreamPacketWith
  cases packet with
  | codec p | hole p => exact .unexpected rfl
  | media media =>
    dsimp only
    by_cases hcfg : media.header.isConfig = true
    · rw [if_neg (by simp [hcfg])]
      cases hadm : s.admitObject media.payload.length clock.admission with
      | mk r₁ s₁ =>
        obtain ⟨hret, hr, -⟩ := admitObject_retires ho hadm
        have ho₁ := retires_ordered hret ho
        cases r₁ with
        | error e => exact .rejected rfl hret hr.symm
        | ok u =>
          dsimp only
          rcases Groups.preparePendingGroup_cases room ho₁.sorted groupSeq with
            ⟨e, hprep, hroom, hnew⟩ | ⟨pre, g, post, hplace, hprep⟩
          · simp only [hprep]
            exact .full hret hnew hroom
          · have hget : (pre ++ g :: post)[pre.length]? = some g := by simp
            simp only [hprep, hget]
            by_cases hc : g.configPacket = .none
            · simp only [hc, ConfigPacket.isNone, not_true_eq_false, if_false,
                List.set_append_right _ _ le_rfl, Nat.sub_self, List.set_cons_zero,
                hplace.groupSeq_eq]
              exact .stored rfl hcfg hret hr.symm hplace hc
            · have hn : g.configPacket.isNone = false := by
                cases hcp : g.configPacket <;> simp_all [ConfigPacket.isNone]
              rw [if_pos (by simp [hn])]
              -- A config already there means that the group is not a new one.
              rcases hplace with ⟨hgs, hseq⟩ | ⟨-, rfl, -⟩
              · rw [← hgs]
                exact .duplicate hret (by simp [hgs]) hseq hc
              · exact absurd rfl hc
    · rw [if_pos (by simpa using hcfg)]
      exact .unexpected (by simpa [AVPacket.isConfig] using hcfg)

inductive TakeStep (s : PendingGroups rq) (next now : ℕ) : Action → PendingGroups rq → Prop
  | none (hnext : s.nextPacket next now = .none) : TakeStep s next now .none s
  | deadline {d} (hnext : s.nextPacket next now = .deadline d) :
    TakeStep s next now (.deadline d) s
  | packet {drained g rest b taken p} (hgs : s.pendingGroups = drained ++ g :: rest)
    (hnext : s.nextPacket next now = .ready ⟨drained.length, b⟩)
    (hpoll : g.poll s.pendingGroups.minInstant maxBuffering next now = .ready b)
    (hskip : ∀ k ∈ drained, k.poll s.pendingGroups.minInstant maxBuffering next now = .none)
    (htook : Pending.Took g.toPending b taken p) :
    TakeStep s next now
      (.packet taken.kypacketSeq taken.packet (s.retiredStats +
        (drained.map (fun k ↦ Queue.discardedFecStats k.toPending)).sum + takenStats taken))
      { s with pendingGroups := ⟨p, g.groupSeq⟩ :: rest, retiredStats := 0 }

theorem takeNextPacket_step (ho : s.pendingGroups.Ordered) (next now : ℕ) :
    ∃ a s', s.takeNextPacket next now = .ok (a, s') ∧ TakeStep s next now a s' := by
  unfold takeNextPacket takeNextPacketWith
  cases hnext : s.nextPacket next now with
  | none => exact ⟨_, _, rfl, .none hnext⟩
  | deadline d => exact ⟨_, _, rfl, .deadline hnext⟩
  | ready ref =>
    obtain ⟨drained, g, rest, taken, p, hgs, hlen, hpoll, hskip, htook, href⟩ :=
      Groups.takeRef_ready ho hnext
    obtain ⟨index, b⟩ := ref
    subst hlen
    simp only [href, bind, Except.bind, pure, Except.pure]
    exact ⟨_, _, rfl, .packet hgs hnext hpoll hskip htook⟩

end Kymux.VideoFec.PendingGroups
