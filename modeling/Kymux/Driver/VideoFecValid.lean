import Kymux.Driver.VideoFecSteps

namespace Kymux.VideoFec

open Av Driver Fec SortedKeys

variable {rq : RaptorQ}

namespace Parts

variable {u u' : Parts rq} {x : Symbol} {oti : Oti} {created : ℕ}

theorem new_ok (h : Parts.new oti created = .ok u) :
    ObjectDecoder.new oti maxVideoPayload = .ok u.decoder ∧ u.assembled = none ∧
    u.created = created := by
  obtain ⟨decoder, hdecoder, hu⟩ := bind_ok h
  cases hu
  exact ⟨hdecoder, rfl, rfl⟩

theorem addPacket_ok (h : u.addPacket x = .ok u') :
    u.decoder.decode x.oti x.payloadId x.data = .ok (u'.assembled, u'.decoder) ∧
      u'.created = u.created := by
  unfold addPacket at h
  cases hd : u.decoder.decode x.oti x.payloadId x.data with
  | error e => simp [hd, bind, Except.bind] at h
  | ok out =>
    simp only [hd, bind, Except.bind, pure, Except.pure] at h
    cases h
    exact ⟨rfl, rfl⟩

theorem addPacket_oti (h : u.addPacket x = .ok u') : u'.decoder.oti = u.decoder.oti :=
  (ObjectDecoder.decode_ok (addPacket_ok h).1).2.1

theorem assemble_ok {object : VideoObject} {packet : AVPacket}
    (h : u.assemble = .ok (object, packet)) :
    object = ⟨u.decoder.oti, u.fecStats⟩ ∧ ∃ data, u.assembled = some data ∧
      mediaPacket data = .ok packet := by
  unfold assemble at h
  cases ha : u.assembled with
  | none => simp [ha] at h
  | some data =>
    cases hm : mediaPacket data with
    | error e => simp [ha, hm, bind, Except.bind] at h
    | ok p =>
      simp only [ha, hm, bind, Except.bind, pure, Except.pure] at h
      cases h
      exact ⟨rfl, data, rfl, hm⟩

end Parts

namespace Queue

variable {p p' : Queue rq} {kypacketSeq created assembled : ℕ} {x : Symbol} {r : Except Fault Unit}

def charge (oti : Oti) : ℕ × ℕ := (1, reservation oti)

def mediaUsage (p : Queue rq) : ℕ × ℕ :=
  p.weight (fun s ↦ charge s.parts.decoder.oti) (fun d ↦ charge d.object.oti)

def configUsage : ConfigPacket → ℕ × ℕ
  | .ready ⟨.media media, _⟩ => (1, media.payload.length)
  | _ => (0, 0)

theorem sum_charge {γ : Type} (oti : γ → Oti) (xs : List γ) :
    (xs.map (fun a ↦ charge (oti a))).sum =
      (xs.length, (xs.map (fun a ↦ reservation (oti a))).sum) := by
  induction xs with
  | nil => rfl
  | cons a xs ih =>
    rw [List.map_cons, List.sum_cons, ih, charge]
    simp [add_comm]

theorem usage_eq (p : Queue rq) : usage p = mediaUsage p + configUsage p.configPacket := by
  unfold usage mediaUsage configUsage Pending.weight
  rw [sum_charge, sum_charge]
  split <;> simp_all

theorem keeps_charge (rq : RaptorQ) : Pending.Keeps (reassembly rq)
    (fun s ↦ charge s.parts.decoder.oti) (fun d ↦ charge d.object.oti) where
  addPacket _ _ _ _ h := by rw [Parts.addPacket_oti h]
  assemble _ _ _ _ _ h := by rw [(Parts.assemble_ok h).1]

theorem incomplete_inserted
    (h : Pending.Inserted (reassembly rq) p kypacketSeq x created assembled r p')
    (hp : ∀ u ∈ p.segments, u.parts.isComplete = false) :
    ∀ u ∈ p'.segments, u.parts.isComplete = false := by
  refine h.incomplete (fun parts hnew ↦ ?_) hp
  change parts.isComplete = false
  rw [Parts.isComplete, (Parts.new_ok hnew).2.1]
  rfl

/-- Only a datagram of an object that is not pending yet raises the charge, and by what
was asked for. -/
theorem usage_inserted
    (h : Pending.Inserted (reassembly rq) p kypacketSeq x created assembled r p') :
    usage p' ≤ usage p ∨ kypacketSeq ∉ p.seqs ∧ usage p' = usage p + charge x.oti := by
  rw [usage_eq, usage_eq, h.configPacket_eq]
  unfold mediaUsage
  rcases h.weight (keeps_charge rq) with hw | ⟨hk, parts, hnew, hw⟩ | ⟨-, parts, hw⟩
  · exact .inl (by rw [hw])
  · refine .inr ⟨hk, ?_⟩
    rw [hw, (ObjectDecoder.new_ok (Parts.new_ok hnew).1).2.1]
    abel
  · left
    rw [hw]
    gcongr
    exact le_self_add

theorem usage_took {b : Bool} {taken : Taken VideoObject (Parts rq)}
    (h : Pending.Took p b taken p') : usage p' ≤ usage p := by
  rw [usage_eq, usage_eq]
  refine add_le_add ?_ ?_
  · unfold mediaUsage
    rw [h.weight]
    exact le_self_add
  · cases h with
    | config _ => exact zero_le
    | datagram => exact le_rfl

theorem usage_removes {now seq : ℕ} {stats : VideoFecStats}
    (h : PendingGroups.Removes now p seq stats p') : usage p' ≤ usage p := by
  rw [usage_eq, usage_eq]
  cases h with
  | segment hs _ | datagram hs _ =>
    refine add_le_add ?_ le_rfl
    simp only [mediaUsage, Pending.weight, hs, List.map_cons, List.sum_cons]
    gcongr
    exact le_add_self

end Queue

namespace PendingGroups

variable {s s' t : PendingGroups rq} {groupSeq kypacketSeq now next : ℕ} {packet : AVPacket}
  {x : Symbol} {clock : Clock} {r : Except Fault Unit} {a : Action}

def usage (s : PendingGroups rq) : ℕ × ℕ := s.pendingGroups.total Queue.usage

theorem usage_eq (s : PendingGroups rq) : s.usage = (s.objects, s.bytes) := by
  unfold usage objects bytes Groups.total
  induction s.pendingGroups with
  | nil => rfl
  | cons g gs ih => simp [ih, Prod.ext_iff]

structure Valid (s : PendingGroups rq) : Prop where
  ordered : s.pendingGroups.Ordered
  groups : s.pendingGroups.length ≤ maxPendingGroups
  unique : s.pendingGroups.mediaSeqs.Nodup
  live : ∀ retired, s.retiredThrough = some retired →
    ∀ k ∈ s.pendingGroups.mediaSeqs, retired < k
  incomplete : ∀ g ∈ s.pendingGroups, ∀ u ∈ g.segments, u.parts.isComplete = false
  objects : s.objects ≤ maxPendingObjects
  bytes : s.bytes ≤ 256 * 1024 * 1024

theorem Valid.of_usage_le (hs : s.Valid) (ho : s'.pendingGroups.Ordered)
    (hg : s'.pendingGroups.length ≤ s.pendingGroups.length)
    (hm : (s'.pendingGroups.mediaSeqs : Multiset ℕ) ≤ s.pendingGroups.mediaSeqs)
    (hl : ∀ retired, s'.retiredThrough = some retired →
      ∀ k ∈ s'.pendingGroups.mediaSeqs, retired < k)
    (hi : ∀ g ∈ s'.pendingGroups, ∀ u ∈ g.segments, u.parts.isComplete = false)
    (hu : s'.usage ≤ s.usage) : s'.Valid := by
  rw [usage_eq, usage_eq, Prod.mk_le_mk] at hu
  exact ⟨ho, hg.trans hs.groups, Multiset.coe_nodup.mp (Multiset.nodup_of_le hm
    (Multiset.coe_nodup.mpr hs.unique)), hl, hi, hu.1.trans hs.objects, hu.2.trans hs.bytes⟩

theorem Valid.home (hs : s.Valid) {g h : Group rq} {k : ℕ} (hg : g ∈ s.pendingGroups)
    (hh : h ∈ s.pendingGroups) (hkg : k ∈ g.seqs) (hkh : k ∈ h.seqs) : g = h :=
  hs.ordered.sorted.eq_of_key hg hh
    (((Groups.nodup_mediaSeqs_iff hs.ordered.sorted).mp hs.unique).2 g hg h hh k hkg hkh)

theorem Valid.new : (new : PendingGroups rq).Valid where
  ordered := .nil
  groups := Nat.zero_le _
  unique := List.nodup_nil
  live := by simp [PendingGroups.new]
  incomplete := by simp [PendingGroups.new]
  objects := Nat.zero_le _
  bytes := Nat.zero_le _

theorem Removes.segments_subset {p p' : Queue rq} {seq : ℕ} {stats : VideoFecStats}
    (h : Removes now p seq stats p') : ∀ u ∈ p'.segments, u ∈ p.segments := by
  intro u hu
  cases h with
  | segment hs _ => rw [hs]; exact List.mem_cons_of_mem _ hu
  | datagram _ _ => exact hu

theorem Valid.retires (hs : s.Valid) (h : Retires now s s') : s'.Valid := by
  obtain ⟨seq, hseqs, hmin, hret⟩ := h.mediaSeqs
  have hle : (s'.pendingGroups.mediaSeqs : Multiset ℕ) ≤ s.pendingGroups.mediaSeqs := by
    rw [hseqs]
    exact Multiset.le_add_right _ _
  refine hs.of_usage_le (h.ordered hs.ordered) ?_ hle ?_ ?_ ?_
  · obtain ⟨hgs, -, -⟩ := h
    rw [hgs]
    dsimp only
    split_ifs <;> simp
  · intro retired hr k hk
    have hmem : k ∈ s.pendingGroups.mediaSeqs := Multiset.mem_of_le hle hk
    have hne : seq ≠ k := by
      rintro rfl
      have hnodup := Multiset.coe_nodup.mpr hs.unique
      rw [hseqs, Multiset.nodup_add] at hnodup
      exact Multiset.disjoint_left.mp hnodup.2.2 hk (Multiset.mem_singleton_self _)
    have hlt := lt_of_le_of_ne (hmin k hmem) hne
    rw [hret, Option.some.injEq] at hr
    cases hold : s.retiredThrough with
    | none => rw [hold] at hr; simp only [Option.elim] at hr; omega
    | some old =>
      rw [hold] at hr
      have := hs.live old hold k hmem
      simp only [Option.elim] at hr
      omega
  · obtain ⟨hgs, hrem, -⟩ := h
    intro g hg u hu
    dsimp only at hg
    have hall := hs.incomplete
    rw [hgs] at hall
    split_ifs at hg
    · exact hall g (((List.sublist_cons_self _ _).append_left _).subset hg) u hu
    · rcases List.mem_append.mp hg with hg | hg
      · exact hall g (by simp [hg]) u hu
      · rcases List.mem_cons.mp hg with rfl | hg
        · exact hall _ (by simp) u (hrem.segments_subset u hu)
        · exact hall g (by simp [hg]) u hu
  · obtain ⟨rest, p, _, _, p', hrem, htot, htot', -⟩ := h.total (f := Queue.usage) rfl
    rw [usage, usage, htot, htot']
    exact add_le_add le_rfl (Queue.usage_removes hrem)

theorem Valid.retirements (hs : s.Valid) (h : Relation.ReflTransGen (Retires now) s s') :
    s'.Valid := by
  induction h with
  | refl => exact hs
  | tail _ hstep ih => exact ih.retires hstep

theorem retires_mediaSeqs (h : Relation.ReflTransGen (Retires now) s t) {k : ℕ}
    (hk : k ∈ t.pendingGroups.mediaSeqs) : k ∈ s.pendingGroups.mediaSeqs := by
  induction h with
  | refl => exact hk
  | tail _ hstep ih =>
    obtain ⟨seq, hseqs, -⟩ := hstep.mediaSeqs
    refine ih (Multiset.mem_coe.mp ?_)
    rw [hseqs, Multiset.mem_add]
    exact .inl hk

theorem Valid.not_mem_of_isRetired (hs : s.Valid) (h : s.isRetired kypacketSeq = true) :
    kypacketSeq ∉ s.pendingGroups.mediaSeqs := by
  intro hk
  unfold isRetired at h
  cases hr : s.retiredThrough with
  | none => simp [hr] at h
  | some retired =>
    have hlt := hs.live retired hr _ hk
    rw [hr] at h
    simp at h
    omega

theorem mediaSeqs_setConfig {pre post : Groups VideoObject (Parts rq)} {g : Group rq}
    {config : StreamPacket} (h : Groups.Place room s.pendingGroups groupSeq pre g post) :
    (Groups.mediaSeqs (pre ++ ⟨g.setConfig config, groupSeq⟩ :: post) : Multiset ℕ) =
      s.pendingGroups.mediaSeqs := by
  rw [Groups.coe_mediaSeqs, Groups.coe_mediaSeqs, Groups.total_middle,
    h.total (f := fun p ↦ (p.seqs : Multiset ℕ)) rfl]
  rfl

theorem checkCapacity_ok_iff {additional : ℕ} : s.checkCapacity additional = .ok () ↔
    s.objects < maxPendingObjects ∧ s.bytes + additional ≤ 256 * 1024 * 1024 :=
  checkPending_ok_iff

theorem place_length {pre post : Groups VideoObject (Parts rq)} {g k : Group rq}
    (h : Groups.Place room s.pendingGroups groupSeq pre g post)
    (hs : s.pendingGroups.length ≤ maxPendingGroups) :
    (pre ++ k :: post).length ≤ maxPendingGroups := by
  rcases h with ⟨h, -⟩ | ⟨h, -, hroom, -⟩
  · rw [h] at hs
    simpa using hs
  · unfold room at hroom
    split_ifs at hroom with hfull
    rw [h] at hfull
    simp only [List.length_append, List.length_cons] at hfull ⊢
    omega

/-- The datagram is of an object that is pending in its group, or it has been admitted. -/
def Admitted (s : PendingGroups rq) (groupSeq kypacketSeq : ℕ) (x : Symbol) : Prop :=
  (∃ g ∈ s.pendingGroups, g.groupSeq = groupSeq ∧ kypacketSeq ∈ g.seqs) ∨
    kypacketSeq ∉ s.pendingGroups.mediaSeqs ∧ s.isRetired kypacketSeq = false ∧
      s.checkCapacity (reservation x.oti) = .ok ()

theorem Admitted.fresh {pre post : Groups VideoObject (Parts rq)} {g : Group rq}
    (h : s.Admitted groupSeq kypacketSeq x) (hs : Sorted PendingGroup.groupSeq s.pendingGroups)
    (hplace : Groups.Place room s.pendingGroups groupSeq pre g post) (hk : kypacketSeq ∉ g.seqs) :
    kypacketSeq ∉ s.pendingGroups.mediaSeqs ∧ s.isRetired kypacketSeq = false ∧
      s.checkCapacity (reservation x.oti) = .ok () := by
  rcases h with ⟨k, hkm, hseq, hmem⟩ | h
  · exact absurd (hplace.eq hs hkm hseq ▸ hmem) hk
  · exact h

theorem Stored.mediaSeqs (hs : Sorted PendingGroup.groupSeq s.pendingGroups)
    (hadm : s.Admitted groupSeq kypacketSeq x) (h : Stored s groupSeq kypacketSeq x clock r s') :
    (s'.pendingGroups.mediaSeqs : Multiset ℕ) ≤ s.pendingGroups.mediaSeqs ∨
      (kypacketSeq ∉ s.pendingGroups.mediaSeqs ∧ s.isRetired kypacketSeq = false) ∧
        (s'.pendingGroups.mediaSeqs : Multiset ℕ) = s.pendingGroups.mediaSeqs + {kypacketSeq} := by
  cases h with
  | full => exact .inl le_rfl
  | inserted hplace hins =>
    simp only [Groups.coe_mediaSeqs, Groups.total_middle]
    rw [hplace.total (f := fun p ↦ (p.seqs : Multiset ℕ)) rfl]
    have hw := hins.weight (Pending.keeps_seqs (reassembly rq))
    simp only [← Pending.coe_seqs] at hw
    rcases hw with hw | ⟨hk, parts, -, hw⟩ | ⟨-, parts, hw⟩
    · exact .inl (by rw [hw])
    · have hfresh := hadm.fresh hs hplace hk
      exact .inr ⟨⟨hfresh.1, hfresh.2.1⟩, by rw [hw, add_assoc]⟩
    · left
      rw [hw]
      exact add_le_add le_rfl (Multiset.le_add_right _ _)

theorem Stored.usage (hs : Sorted PendingGroup.groupSeq s.pendingGroups)
    (hadm : s.Admitted groupSeq kypacketSeq x) (h : Stored s groupSeq kypacketSeq x clock r s') :
    s'.usage ≤ s.usage ∨ s.checkCapacity (reservation x.oti) = .ok () ∧
      s'.usage = s.usage + Queue.charge x.oti := by
  cases h with
  | full => exact .inl le_rfl
  | inserted hplace hins =>
    simp only [PendingGroups.usage, Groups.total_middle]
    rw [hplace.total (f := Queue.usage) rfl]
    rcases Queue.usage_inserted hins with hle | ⟨hk, heq⟩
    · exact .inl (add_le_add le_rfl hle)
    · exact .inr ⟨(hadm.fresh hs hplace hk).2.2, by rw [heq, add_assoc]⟩

theorem Valid.stored (hs : s.Valid) (hadm : s.Admitted groupSeq kypacketSeq x)
    (h : Stored s groupSeq kypacketSeq x clock r s') : s'.Valid := by
  have hseqs := h.mediaSeqs hs.ordered.sorted hadm
  have husage := h.usage hs.ordered.sorted hadm
  rw [usage_eq, usage_eq] at husage
  have hret : s'.retiredThrough = s.retiredThrough := by cases h <;> rfl
  refine ⟨?_, ?_, ?_, ?_, ?_, ?_, ?_⟩
  · cases h with
    | full => exact hs.ordered
    | inserted hplace hins =>
      exact hplace.ordered hs.ordered
        ((hplace.all hs.ordered.each Pending.Ordered.new).inserted hins)
  · cases h with
    | full => exact hs.groups
    | inserted hplace _ => exact place_length hplace hs.groups
  · rw [← Multiset.coe_nodup]
    rcases hseqs with hle | ⟨⟨hk, -⟩, heq⟩
    · exact Multiset.nodup_of_le hle (Multiset.coe_nodup.mpr hs.unique)
    · rw [heq, add_comm, Multiset.singleton_add, Multiset.nodup_cons]
      exact ⟨hk, Multiset.coe_nodup.mpr hs.unique⟩
  · rw [hret]
    intro retired hr k hk
    rw [← Multiset.mem_coe] at hk
    rcases hseqs with hle | ⟨⟨-, hlive⟩, heq⟩
    · exact hs.live retired hr k (Multiset.mem_of_le hle hk)
    · rw [heq, Multiset.mem_add, Multiset.mem_singleton] at hk
      rcases hk with hk | rfl
      · exact hs.live retired hr k hk
      · simpa [isRetired, hr] using hlive
  · cases h with
    | full => exact hs.incomplete
    | inserted hplace hins =>
      intro g hg u hu
      rcases List.mem_append.mp hg with hg | hg
      · exact hs.incomplete g (hplace.subset g (by simp [hg])) u hu
      · rcases List.mem_cons.mp hg with rfl | hg
        · refine Queue.incomplete_inserted hins ?_ u hu
          exact hplace.all (P := fun g ↦ ∀ u ∈ g.segments, u.parts.isComplete = false)
            hs.incomplete (by simp [PendingGroup.new, Pending.new])
        · exact hs.incomplete g (hplace.subset g (by simp [hg])) u hu
  · rcases husage with hle | ⟨hcap, heq⟩
    · exact hle.1.trans hs.objects
    · have hobj : s'.objects = s.objects + 1 := congrArg Prod.fst heq
      have := (checkCapacity_ok_iff.mp hcap).1
      omega
  · rcases husage with hle | ⟨hcap, heq⟩
    · exact hle.2.trans hs.bytes
    · have hbytes : s'.bytes = s.bytes + reservation x.oti := congrArg Prod.snd heq
      have := (checkCapacity_ok_iff.mp hcap).2
      omega

theorem Valid.datagramStep (hs : s.Valid) (h : DatagramStep s groupSeq kypacketSeq x clock r s') :
    s'.Valid := by
  cases h with
  | invalid | late | migrated => exact hs
  | known hg hgs hk hstored => exact hs.stored (.inl ⟨_, hg, hgs, hk⟩) hstored
  | rejected _ hret _ | overtaken _ hret _ => exact hs.retirements hret
  | fresh _ hnew hret hcap hlive hstored =>
    exact (hs.retirements hret).stored (.inr ⟨fun h ↦ hnew (retires_mediaSeqs hret h), hlive, hcap⟩)
      hstored

theorem Valid.streamStep (hs : s.Valid)
    (h : StreamStep s groupSeq kypacketSeq packet clock r s') : s'.Valid := by
  cases h with
  | unexpected => exact hs
  | rejected _ hret _ | full hret _ _ | duplicate hret _ _ _ => exact hs.retirements hret
  | @stored media pre g post t hpacket _ hret hcap hplace hc =>
    have ht := hs.retirements hret
    obtain ⟨hobj, hbytes⟩ := checkCapacity_ok_iff.mp hcap
    have hg : g.Ordered := hplace.all ht.ordered.each Pending.Ordered.new
    have hseqs : (Groups.mediaSeqs (pre ++ ⟨g.setConfig ⟨packet, kypacketSeq⟩, groupSeq⟩ :: post) :
        Multiset ℕ) = t.pendingGroups.mediaSeqs := mediaSeqs_setConfig hplace
    have husage : PendingGroups.usage { t with pendingGroups :=
        pre ++ ⟨g.setConfig ⟨packet, kypacketSeq⟩, groupSeq⟩ :: post } =
          t.usage + (1, media.payload.length) := by
      simp only [PendingGroups.usage, Groups.total_middle]
      rw [hplace.total (f := Queue.usage) rfl, Queue.usage_eq, Queue.usage_eq, hc, hpacket,
        add_assoc]
      rfl
    rw [usage_eq, usage_eq] at husage
    refine ⟨hplace.ordered ht.ordered ⟨hg.segments, hg.datagrams, hg.apart⟩,
      place_length hplace ht.groups, ?_, ?_, ?_, ?_, ?_⟩
    · rw [← Multiset.coe_nodup, hseqs]
      exact Multiset.coe_nodup.mpr ht.unique
    · intro retired hr k hk
      rw [← Multiset.mem_coe, hseqs] at hk
      exact ht.live retired hr k hk
    · intro k hk u hu
      rcases List.mem_append.mp hk with hk | hk
      · exact ht.incomplete k (hplace.subset k (by simp [hk])) u hu
      · rcases List.mem_cons.mp hk with rfl | hk
        · exact hplace.all (P := fun g ↦ ∀ u ∈ g.segments, u.parts.isComplete = false)
            ht.incomplete (by simp [PendingGroup.new, Pending.new]) u hu
        · exact ht.incomplete k (hplace.subset k (by simp [hk])) u hu
    · have := congrArg Prod.fst husage
      simp only [Prod.fst_add] at this
      omega
    · have := congrArg Prod.snd husage
      simp only [Prod.snd_add] at this
      omega

theorem Valid.takeStep (hs : s.Valid) (h : TakeStep s next now a s') : s'.Valid := by
  cases h with
  | none | deadline => exact hs
  | @packet drained g rest b taken p hgs _ _ _ htook =>
    have ho := hs.ordered
    rw [hgs] at ho
    have hle : (Groups.mediaSeqs (⟨p, g.groupSeq⟩ :: rest) : Multiset ℕ) ≤
        s.pendingGroups.mediaSeqs := by
      rw [Groups.coe_mediaSeqs, Groups.coe_mediaSeqs, hgs, Groups.total_append]
      simp only [Groups.total, List.map_cons, List.sum_cons]
      refine le_add_of_nonneg_of_le (Multiset.zero_le _) (add_le_add ?_ le_rfl)
      rw [Pending.coe_seqs, Pending.coe_seqs, htook.weight]
      exact Multiset.le_add_right _ _
    refine hs.of_usage_le (ho.took htook) ?_ hle ?_ ?_ ?_
    · rw [hgs]
      simp
    · intro retired hr k hk
      exact hs.live retired hr k (Multiset.mem_of_le hle hk)
    · intro k hk u hu
      rcases List.mem_cons.mp hk with rfl | hk
      · refine hs.incomplete g (by simp [hgs]) u ?_
        cases htook with
        | config => exact hu
        | datagram _ _ hsplit _ _ => rw [hsplit]; simp [hu]
      · exact hs.incomplete k (by simp [hgs, hk]) u hu
    · simp only [PendingGroups.usage, hgs, Groups.total_append]
      simp only [Groups.total, List.map_cons, List.sum_cons]
      exact le_add_of_nonneg_of_le (zero_le) (add_le_add (Queue.usage_took htook) le_rfl)

inductive Call
  | insertStreamPacket (groupSeq kypacketSeq : ℕ) (packet : AVPacket) (clock : Clock)
  | insertDatagram (groupSeq kypacketSeq : ℕ) (x : Symbol) (clock : Clock)
  | takeNextPacket (next now : ℕ)

def call (s : PendingGroups rq) : Call → PendingGroups rq
  | .insertStreamPacket groupSeq kypacketSeq packet clock =>
    (s.insertStreamPacket groupSeq kypacketSeq packet clock).2
  | .insertDatagram groupSeq kypacketSeq x clock =>
    (s.insertDatagram groupSeq kypacketSeq x clock).2
  | .takeNextPacket next now =>
    match s.takeNextPacket next now with
    | .ok (_, s) => s
    | .error _ => s

theorem Valid.call (hs : s.Valid) (c : Call) : (s.call c).Valid := by
  cases c with
  | insertStreamPacket groupSeq kypacketSeq packet clock =>
    exact hs.streamStep (insertStreamPacket_step hs.ordered groupSeq kypacketSeq packet clock)
  | insertDatagram groupSeq kypacketSeq x clock =>
    exact hs.datagramStep (insertDatagram_step hs.ordered groupSeq kypacketSeq x clock)
  | takeNextPacket next now =>
    obtain ⟨a, s', htake, hstep⟩ := takeNextPacket_step hs.ordered next now
    simp only [PendingGroups.call, htake]
    exact hs.takeStep hstep

/-- The pending state stays valid over every sequence of calls, and in every state reached
the retry loop of `admit` ends. -/
theorem calls_valid (rq : RaptorQ) (calls : List Call) :
    (calls.foldl call (new : PendingGroups rq)).Valid ∧
      ∀ additional now, ∃ out, ∀ n > (calls.foldl call (new : PendingGroups rq)).mediaCount,
        admitLoop additional now n (calls.foldl call (new : PendingGroups rq)) = some out := by
  have hvalid : (calls.foldl call (new : PendingGroups rq)).Valid := by
    induction calls using List.reverseRecOn with
    | nil => exact Valid.new
    | append_singleton calls c ih =>
      rw [List.foldl_concat]
      exact ih.call c
  exact ⟨hvalid, fun additional now ↦ admitLoop_terminates hvalid.ordered additional now⟩

end PendingGroups

end Kymux.VideoFec
