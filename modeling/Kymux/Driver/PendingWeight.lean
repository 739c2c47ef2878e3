import Kymux.Driver.Groups

namespace Kymux.Driver

open Av

theorem mem_list_sum {γ : Type} {x : γ} {ms : List (Multiset γ)} :
    x ∈ ms.sum ↔ ∃ m ∈ ms, x ∈ m := by
  induction ms with
  | nil => simp
  | cons m ms ih => simp [ih]

namespace Pending

variable {α β ι M : Type} [AddCommMonoid M] {R : Reassembly α β ι} {p p' : Pending α β}
  {kypacketSeq : ℕ} {x : ι} {created assembled : ℕ} {r : Except Fault Unit}
  {u : DatagramSegments β → M} {v : DatagramPacket α → M}

def weight (u : DatagramSegments β → M) (v : DatagramPacket α → M) (p : Pending α β) : M :=
  (p.segments.map u).sum + (p.datagrams.map v).sum

structure Keeps (R : Reassembly α β ι) (u : DatagramSegments β → M) (v : DatagramPacket α → M) :
    Prop where
  addPacket : ∀ k parts x parts', R.addPacket parts x = .ok parts' → u ⟨k, parts'⟩ = u ⟨k, parts⟩
  assemble : ∀ k t parts object packet, R.assemble parts = .ok (object, packet) →
    v ⟨object, packet, k, t⟩ = u ⟨k, parts⟩

theorem weight_new : (Pending.new : Pending α β).weight u v = 0 := by
  simp [weight, Pending.new]

theorem Slot.weight {pre post : List (DatagramSegments β)} {parts : β}
    (h : Slot R p kypacketSeq x created pre parts post)
    (hd : ∀ d ∈ p.datagrams, d.kypacketSeq ≠ kypacketSeq) :
    (p.segments.map u).sum = ((pre ++ post).map u).sum + u ⟨kypacketSeq, parts⟩ ∨
      (p.segments.map u).sum = ((pre ++ post).map u).sum ∧
        R.new p x created = .ok parts ∧ kypacketSeq ∉ p.seqs := by
  rcases h with h | ⟨h, hnew, hlt, hgt⟩
  · left
    simp only [h, List.map_append, List.map_cons, List.sum_append, List.sum_cons]
    abel
  · refine .inr ⟨by rw [h], hnew, ?_⟩
    rw [mem_seqs]
    rintro (⟨s, hs, rfl⟩ | ⟨d, hdm, rfl⟩)
    · rcases List.mem_append.mp (h ▸ hs) with hs | hs
      · exact (hlt s hs).ne rfl
      · exact (hgt s hs).ne rfl
    · exact hd d hdm rfl

theorem weight_put {pre post : List (DatagramSegments β)} {parts parts' : β}
    (hslot : Slot R p kypacketSeq x created pre parts post)
    (hd : ∀ d ∈ p.datagrams, d.kypacketSeq ≠ kypacketSeq)
    (hu : u ⟨kypacketSeq, parts'⟩ = u ⟨kypacketSeq, parts⟩) :
    Pending.weight u v { p with segments := pre ++ ⟨kypacketSeq, parts'⟩ :: post } = p.weight u v ∨
      kypacketSeq ∉ p.seqs ∧ ∃ parts, R.new p x created = .ok parts ∧
        Pending.weight u v { p with segments := pre ++ ⟨kypacketSeq, parts'⟩ :: post } =
          p.weight u v + u ⟨kypacketSeq, parts⟩ := by
  simp only [Pending.weight, List.map_append, List.map_cons, List.sum_append, List.sum_cons, hu]
  rcases hslot.weight (u := u) hd with hw | ⟨hw, hnew, hmem⟩
  · left
    rw [hw, List.map_append, List.sum_append]
    abel
  · refine .inr ⟨hmem, parts, hnew, ?_⟩
    rw [hw, List.map_append, List.sum_append]
    abel

/-- The insertion of a datagram leaves the sum as it was, adds a new object, or, when it
fails, takes one away. -/
theorem Inserted.weight (hk : Keeps R u v)
    (h : Inserted R p kypacketSeq x created assembled r p') :
    p'.weight u v = p.weight u v ∨
      (kypacketSeq ∉ p.seqs ∧ ∃ parts, R.new p x created = .ok parts ∧
        p'.weight u v = p.weight u v + u ⟨kypacketSeq, parts⟩) ∨
      (r ≠ .ok () ∧ ∃ parts, p.weight u v = p'.weight u v + u ⟨kypacketSeq, parts⟩) := by
  cases h with
  | again | refused => exact .inl rfl
  | failed hd hslot _ => exact (weight_put hslot hd rfl).imp_right .inl
  | kept hd hslot hadd _ => exact (weight_put hslot hd (hk.addPacket _ _ _ _ hadd)).imp_right .inl
  | @broken _ parts _ _ _ hd hslot _ _ _ =>
    simp only [Pending.weight]
    rcases hslot.weight (u := u) hd with hw | ⟨hw, -⟩
    · refine .inr (.inr ⟨by simp, parts, ?_⟩)
      rw [hw]
      abel
    · rw [hw]
      exact .inl rfl
  | @complete _ parts _ _ _ _ _ _ hslot hadd _ hasm hdat hlt hgt =>
    have hd : ∀ d ∈ p.datagrams, d.kypacketSeq ≠ kypacketSeq := by
      intro d hd
      rcases List.mem_append.mp (hdat ▸ hd) with hd | hd
      · exact (hlt d hd).ne
      · exact (hgt d hd).ne'
    have hv := (hk.assemble kypacketSeq assembled _ _ _ hasm).trans
      (hk.addPacket kypacketSeq _ _ _ hadd)
    simp only [Pending.weight, hdat, List.map_append, List.map_cons, List.sum_append, List.sum_cons,
      hv]
    rcases hslot.weight (u := u) hd with hw | ⟨hw, hnew, hmem⟩
    · left
      rw [hw, List.map_append, List.sum_append]
      abel
    · refine .inr (.inl ⟨hmem, parts, hnew, ?_⟩)
      rw [hw, List.map_append, List.sum_append]
      abel

def takenWeight (u : DatagramSegments β → M) (v : DatagramPacket α → M) : Taken α β → M
  | .config _ => 0
  | .datagram d expired => (expired.map u).sum + v d

theorem Took.weight {b : Bool} {taken : Taken α β} (h : Took p b taken p') :
    p.weight u v = p'.weight u v + takenWeight u v taken := by
  cases h with
  | config _ => simp [Pending.weight, takenWeight]
  | datagram _ hd hs _ _ =>
    simp only [Pending.weight, takenWeight, hd, hs, List.map_append, List.map_cons, List.sum_append,
      List.sum_cons]
    abel

theorem map_weight {N : Type} [AddCommMonoid N] (φ : M →+ N) (p : Pending α β) :
    φ (p.weight u v) = p.weight (fun s ↦ φ (u s)) (fun d ↦ φ (v d)) := by
  simp [weight, map_list_sum, Function.comp_def]

theorem coe_seqs (p : Pending α β) : (p.seqs : Multiset ℕ) =
    p.weight (fun s ↦ {s.kypacketSeq}) (fun d ↦ {d.kypacketSeq}) := by
  have hsum : ∀ ks : List ℕ, (ks : Multiset ℕ) = (ks.map (fun k ↦ ({k} : Multiset ℕ))).sum := by
    intro ks
    induction ks with
    | nil => rfl
    | cons k ks ih =>
      rw [List.map_cons, List.sum_cons, ← ih, Multiset.singleton_add, Multiset.cons_coe]
  rw [seqs, ← Multiset.coe_add, hsum, hsum, weight, List.map_map, List.map_map]
  rfl

theorem keeps_seqs (R : Reassembly α β ι) :
    Keeps R (fun s ↦ ({s.kypacketSeq} : Multiset ℕ)) (fun d ↦ {d.kypacketSeq}) :=
  ⟨fun _ _ _ _ _ ↦ rfl, fun _ _ _ _ _ _ ↦ rfl⟩

end Pending

namespace Groups

variable {α β M : Type} [AddCommMonoid M] {f : Pending α β → M} {gs pre post : Groups α β}
  {g : PendingGroup α β} {room : ℕ → Except Fault Unit} {groupSeq : ℕ}

def total (f : Pending α β → M) (gs : Groups α β) : M := (gs.map (fun g ↦ f g.toPending)).sum

theorem total_append (gs hs : Groups α β) : total f (gs ++ hs) = total f gs + total f hs := by
  simp [total]

theorem map_total {N : Type} [AddCommMonoid N] (φ : M →+ N) (gs : Groups α β) :
    φ (total f gs) = total (fun p ↦ φ (f p)) gs := by
  simp [total, map_list_sum, Function.comp_def]

theorem total_middle (pre post : Groups α β) (g : PendingGroup α β) :
    total f (pre ++ g :: post) = total f (pre ++ post) + f g.toPending := by
  simp only [total, List.map_append, List.map_cons, List.sum_append, List.sum_cons]
  abel

theorem Place.total (hnew : f Pending.new = 0) (h : Place room gs groupSeq pre g post) :
    Groups.total f gs = Groups.total f (pre ++ post) + f g.toPending := by
  rcases h with ⟨rfl, -⟩ | ⟨rfl, rfl, -⟩
  · exact total_middle pre post g
  · simp [PendingGroup.new, hnew]

theorem deliverable_takeRef {gs' drained : Groups α β} {ref : PacketRef} {taken : Taken α β}
    (h : gs.takeRef ref = .ok (drained, taken, gs')) :
    Groups.total Pending.deliverable gs' < Groups.total Pending.deliverable gs := by
  unfold takeRef at h
  split at h
  · cases h
  · next g rest hdrop =>
    cases htake : g.takePacket ref.configPacket with
    | error e => simp [htake, bind, Except.bind] at h
    | ok out =>
      obtain ⟨taken', p⟩ := out
      simp only [htake, bind, Except.bind, pure, Except.pure] at h
      cases h
      have hd := Pending.deliverable_takePacket htake
      rw [← List.take_append_drop ref.pendingGroupIndex gs, hdrop, total_append]
      simp only [Groups.total, List.map_cons, List.sum_cons]
      omega

theorem coe_mediaSeqs (gs : Groups α β) :
    (gs.mediaSeqs : Multiset ℕ) = total (fun p ↦ (p.seqs : Multiset ℕ)) gs := by
  induction gs with
  | nil => rfl
  | cons g gs ih =>
    rw [mediaSeqs, List.flatMap_cons, ← Multiset.coe_add, ← mediaSeqs, ih]
    simp [total]

end Groups

end Kymux.Driver
