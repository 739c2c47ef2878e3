import Kymux.Driver.Pending

namespace Kymux.Driver.Pending

open Av SortedKeys Timed

variable {α β ι : Type} {R : Reassembly α β ι} {p p' : Pending α β} {kypacketSeq : ℕ} {x : ι}
  {created assembled : ℕ} {r : Except Fault Unit}

structure Ordered (p : Pending α β) : Prop where
  segments : Sorted DatagramSegments.kypacketSeq p.segments
  datagrams : Sorted DatagramPacket.kypacketSeq p.datagrams
  apart : ∀ s ∈ p.segments, ∀ d ∈ p.datagrams, s.kypacketSeq ≠ d.kypacketSeq

/-- The place of a packet among the segments of a group: it is there with the parts
received so far, or it would come there with the parts of a new one. -/
def Slot (R : Reassembly α β ι) (p : Pending α β) (kypacketSeq : ℕ) (x : ι) (created : ℕ)
    (pre : List (DatagramSegments β)) (parts : β) (post : List (DatagramSegments β)) : Prop :=
  p.segments = pre ++ ⟨kypacketSeq, parts⟩ :: post ∨
    p.segments = pre ++ post ∧ R.new p x created = .ok parts ∧
      (∀ s ∈ pre, s.kypacketSeq < kypacketSeq) ∧ ∀ s ∈ post, kypacketSeq < s.kypacketSeq

inductive Inserted (R : Reassembly α β ι) (p : Pending α β) (kypacketSeq : ℕ) (x : ι)
    (created assembled : ℕ) : Except Fault Unit → Pending α β → Prop
  | again {d} (hd : d ∈ p.datagrams) (hseq : d.kypacketSeq = kypacketSeq) :
    Inserted R p kypacketSeq x created assembled (R.again d.object x) p
  | refused {e} (hd : ∀ d ∈ p.datagrams, d.kypacketSeq ≠ kypacketSeq)
    (hs : ∀ s ∈ p.segments, s.kypacketSeq ≠ kypacketSeq) (hnew : R.new p x created = .error e) :
    Inserted R p kypacketSeq x created assembled (.error e) p
  | failed {pre parts post e} (hd : ∀ d ∈ p.datagrams, d.kypacketSeq ≠ kypacketSeq)
    (hslot : Slot R p kypacketSeq x created pre parts post)
    (hadd : R.addPacket parts x = .error e) :
    Inserted R p kypacketSeq x created assembled (.error e)
      { p with segments := pre ++ ⟨kypacketSeq, parts⟩ :: post }
  | kept {pre parts post parts'} (hd : ∀ d ∈ p.datagrams, d.kypacketSeq ≠ kypacketSeq)
    (hslot : Slot R p kypacketSeq x created pre parts post)
    (hadd : R.addPacket parts x = .ok parts') (hc : R.isComplete parts' = false) :
    Inserted R p kypacketSeq x created assembled (.ok ())
      { p with segments := pre ++ ⟨kypacketSeq, parts'⟩ :: post }
  | broken {pre parts post parts' e} (hd : ∀ d ∈ p.datagrams, d.kypacketSeq ≠ kypacketSeq)
    (hslot : Slot R p kypacketSeq x created pre parts post)
    (hadd : R.addPacket parts x = .ok parts') (hc : R.isComplete parts' = true)
    (hasm : R.assemble parts' = .error e) :
    Inserted R p kypacketSeq x created assembled (.error e) { p with segments := pre ++ post }
  | complete {pre parts post parts' object packet dpre dpost}
    (hslot : Slot R p kypacketSeq x created pre parts post)
    (hadd : R.addPacket parts x = .ok parts') (hc : R.isComplete parts' = true)
    (hasm : R.assemble parts' = .ok (object, packet)) (hdat : p.datagrams = dpre ++ dpost)
    (hlt : ∀ d ∈ dpre, d.kypacketSeq < kypacketSeq)
    (hgt : ∀ d ∈ dpost, kypacketSeq < d.kypacketSeq) :
    Inserted R p kypacketSeq x created assembled (.ok ())
      { p with
        segments := pre ++ post
        datagrams := dpre ++ ⟨object, packet, kypacketSeq, assembled⟩ :: dpost }

theorem prepareDatagramSegments_cases (R : Reassembly α β ι) (hp : p.Ordered) (kypacketSeq : ℕ)
    (x : ι) (created : ℕ) :
    (∃ e, p.prepareDatagramSegments R kypacketSeq x created = (.error e, p) ∧
      R.new p x created = .error e ∧ ∀ s ∈ p.segments, s.kypacketSeq ≠ kypacketSeq) ∨
    ∃ pre parts post, Slot R p kypacketSeq x created pre parts post ∧
      p.prepareDatagramSegments R kypacketSeq x created =
        (.ok pre.length, { p with segments := pre ++ ⟨kypacketSeq, parts⟩ :: post }) := by
  unfold prepareDatagramSegments
  cases hi : binarySearchByKey DatagramSegments.kypacketSeq kypacketSeq p.segments with
  | ok index =>
    obtain ⟨pre, ⟨k, parts⟩, post, hsplit, rfl, rfl⟩ := search_ok hi
    refine .inr ⟨pre, parts, post, .inl hsplit, ?_⟩
    dsimp only
    rw [← hsplit]
  | error index =>
    obtain ⟨pre, post, hsplit, rfl, hlt, hgt⟩ := search_error hp.segments hi
    dsimp only
    cases hnew : R.new p x created with
    | error e => exact .inl ⟨e, rfl, rfl, search_error_not_mem hp.segments hi⟩
    | ok parts =>
      refine .inr ⟨pre, parts, post, .inr ⟨hsplit, hnew, hlt, hgt⟩, ?_⟩
      dsimp only
      rw [hsplit, insertIdx_split]

theorem insertDatagramPacket_of_split (packet : DatagramPacket α)
    (hs : Sorted DatagramPacket.kypacketSeq p.datagrams)
    (hn : ∀ d ∈ p.datagrams, d.kypacketSeq ≠ packet.kypacketSeq) :
    ∃ dpre dpost, p.datagrams = dpre ++ dpost ∧
      (∀ d ∈ dpre, d.kypacketSeq < packet.kypacketSeq) ∧
      (∀ d ∈ dpost, packet.kypacketSeq < d.kypacketSeq) ∧
      p.insertDatagramPacket packet = { p with datagrams := dpre ++ packet :: dpost } := by
  unfold insertDatagramPacket
  cases hi : binarySearchByKey DatagramPacket.kypacketSeq packet.kypacketSeq p.datagrams with
  | ok index =>
    obtain ⟨pre, d, post, hsplit, -, hd⟩ := search_ok hi
    exact absurd hd (hn d (by simp [hsplit]))
  | error index =>
    obtain ⟨dpre, dpost, hsplit, rfl, hlt, hgt⟩ := search_error hs hi
    refine ⟨dpre, dpost, hsplit, hlt, hgt, ?_⟩
    dsimp only
    rw [hsplit, insertIdx_split]

theorem insertDatagram_inserted (R : Reassembly α β ι) (hp : p.Ordered) (kypacketSeq : ℕ) (x : ι)
    (created assembled : ℕ) :
    Inserted R p kypacketSeq x created assembled
      (p.insertDatagram R kypacketSeq x created assembled).1
      (p.insertDatagram R kypacketSeq x created assembled).2 := by
  unfold insertDatagram
  cases hi : binarySearchByKey DatagramPacket.kypacketSeq kypacketSeq p.datagrams with
  | ok index =>
    obtain ⟨pre, d, post, hsplit, rfl, rfl⟩ := search_ok hi
    have hget : p.datagrams[pre.length]? = some d := by simp [hsplit]
    simp only [hget]
    exact .again (by simp [hsplit]) rfl
  | error index =>
    have hd := search_error_not_mem hp.datagrams hi
    rcases prepareDatagramSegments_cases R hp kypacketSeq x created with
      ⟨e, hprep, hnew, hs⟩ | ⟨pre, parts, post, hslot, hprep⟩
    · simp only [hprep]
      exact .refused hd hs hnew
    · have hget : (pre ++ (⟨kypacketSeq, parts⟩ : DatagramSegments β) :: post)[pre.length]? =
          some ⟨kypacketSeq, parts⟩ := by simp
      simp only [hprep, hget]
      cases hadd : R.addPacket parts x with
      | error e => exact .failed hd hslot hadd
      | ok parts' =>
        dsimp only
        cases hc : R.isComplete parts' with
        | false =>
          simp only [Bool.false_eq_true, if_false, List.set_append_right _ _ le_rfl, Nat.sub_self,
            List.set_cons_zero]
          exact .kept hd hslot hadd hc
        | true =>
          simp only [if_true, eraseIdx_split]
          cases hasm : R.assemble parts' with
          | error e => exact .broken hd hslot hadd hc hasm
          | ok out =>
            obtain ⟨object, packet⟩ := out
            obtain ⟨dpre, dpost, hdat, hlt, hgt, hins⟩ := insertDatagramPacket_of_split
              (p := { p with segments := pre ++ post })
              ⟨object, packet, kypacketSeq, assembled⟩ hp.datagrams hd
            simp only [hins]
            exact .complete hslot hadd hc hasm hdat hlt hgt

/-- Two ways of putting a packet together that agree on what waits insert it alike. -/
theorem insertDatagram_congr {R' : Reassembly α β ι} (hp : p.Ordered) (kypacketSeq : ℕ) (x : ι)
    (created assembled : ℕ) (hnew : R'.new p x created = R.new p x created)
    (hagain : R'.again = R.again) (hcomplete : R'.isComplete = R.isComplete)
    (hparts : ∀ parts, ⟨kypacketSeq, parts⟩ ∈ p.segments ∨ R.new p x created = .ok parts →
      R'.addPacket parts x = R.addPacket parts x ∧
        ∀ parts', R.addPacket parts x = .ok parts' → R'.assemble parts' = R.assemble parts') :
    p.insertDatagram R' kypacketSeq x created assembled =
      p.insertDatagram R kypacketSeq x created assembled := by
  have hprep : p.prepareDatagramSegments R' kypacketSeq x created =
      p.prepareDatagramSegments R kypacketSeq x created := by
    simp only [prepareDatagramSegments, hnew]
  unfold insertDatagram
  rw [hprep, hagain, hcomplete]
  rcases prepareDatagramSegments_cases R hp kypacketSeq x created with
    ⟨e, hcase, -⟩ | ⟨pre, parts, post, hslot, hcase⟩
  · simp only [hcase]
  · have hget : (pre ++ (⟨kypacketSeq, parts⟩ : DatagramSegments β) :: post)[pre.length]? =
        some ⟨kypacketSeq, parts⟩ := by simp
    obtain ⟨hadd, hasm⟩ := hparts parts (hslot.imp (fun h ↦ by simp [h]) (fun h ↦ h.2.1))
    simp only [hcase, hget, hadd]
    cases hok : R.addPacket parts x with
    | error e => rfl
    | ok parts' => simp only [hasm parts' hok]

theorem mem_seqs {k : ℕ} :
    k ∈ p.seqs ↔ (∃ s ∈ p.segments, s.kypacketSeq = k) ∨ ∃ d ∈ p.datagrams, d.kypacketSeq = k := by
  simp [seqs]

theorem Ordered.new : (new : Pending α β).Ordered :=
  ⟨.nil, .nil, by simp [Pending.new]⟩

section Slot

variable {pre post : List (DatagramSegments β)} {parts : β}

theorem Slot.sorted (hs : Sorted DatagramSegments.kypacketSeq p.segments)
    (h : Slot R p kypacketSeq x created pre parts post) (parts' : β) :
    Sorted DatagramSegments.kypacketSeq (pre ++ ⟨kypacketSeq, parts'⟩ :: post) := by
  rcases h with h | ⟨h, -, hlt, hgt⟩
  · rw [h] at hs
    exact hs.replace rfl
  · rw [h] at hs
    exact hs.insert hlt hgt

theorem Slot.sorted_rest (hs : Sorted DatagramSegments.kypacketSeq p.segments)
    (h : Slot R p kypacketSeq x created pre parts post) :
    Sorted DatagramSegments.kypacketSeq (pre ++ post) :=
  (h.sorted hs parts).remove

theorem Slot.subset (h : Slot R p kypacketSeq x created pre parts post) :
    ∀ s ∈ pre ++ post, s ∈ p.segments := by
  intro s hs
  rcases h with h | ⟨h, -⟩
  · rw [h]
    rcases List.mem_append.mp hs with hs | hs <;> simp [hs]
  · rwa [h]

theorem Slot.ne (hs : Sorted DatagramSegments.kypacketSeq p.segments)
    (h : Slot R p kypacketSeq x created pre parts post) :
    ∀ s ∈ pre ++ post, s.kypacketSeq ≠ kypacketSeq := by
  have hsorted := h.sorted hs parts
  intro s hmem
  rcases List.mem_append.mp hmem with hmem | hmem
  · exact (hsorted.before s hmem).ne
  · exact (hsorted.after s hmem).ne'

theorem Slot.superset (h : Slot R p kypacketSeq x created pre parts post) {s : DatagramSegments β}
    (hs : s ∈ p.segments) (hne : s.kypacketSeq ≠ kypacketSeq) : s ∈ pre ++ post := by
  rcases h with h | ⟨h, -⟩
  · rw [h] at hs
    rcases List.mem_append.mp hs with hs | hs
    · simp [hs]
    · rcases List.mem_cons.mp hs with rfl | hs
      · exact absurd rfl hne
      · simp [hs]
  · rwa [h] at hs

theorem Slot.parts_eq (hs : Sorted DatagramSegments.kypacketSeq p.segments)
    (h : Slot R p kypacketSeq x created pre parts post) {parts' : β}
    (hmem : ⟨kypacketSeq, parts'⟩ ∈ p.segments) : parts' = parts := by
  rcases h with h | ⟨h, -, hlt, hgt⟩
  · have hin : ⟨kypacketSeq, parts⟩ ∈ p.segments := by simp [h]
    exact (DatagramSegments.mk.inj (hs.eq_of_key hmem hin rfl)).2
  · rw [h] at hmem
    rcases List.mem_append.mp hmem with hin | hin
    · exact absurd (hlt _ hin) (lt_irrefl kypacketSeq)
    · exact absurd (hgt _ hin) (lt_irrefl kypacketSeq)

end Slot

theorem Inserted.configPacket_eq (h : Inserted R p kypacketSeq x created assembled r p') :
    p'.configPacket = p.configPacket := by
  cases h <;> rfl

theorem Inserted.datagrams_subset (h : Inserted R p kypacketSeq x created assembled r p') :
    ∀ d ∈ p'.datagrams, d ∈ p.datagrams ∨ d.kypacketSeq = kypacketSeq := by
  intro d hd
  cases h with
  | again | refused | failed | kept | broken => exact .inl hd
  | complete _ _ _ _ hdat _ _ =>
    rw [hdat]
    rcases List.mem_append.mp hd with hd | hd
    · exact .inl (by simp [hd])
    · rcases List.mem_cons.mp hd with rfl | hd
      · exact .inr rfl
      · exact .inl (by simp [hd])

theorem Inserted.segments_superset (h : Inserted R p kypacketSeq x created assembled r p') :
    ∀ s ∈ p.segments, s.kypacketSeq ≠ kypacketSeq → s ∈ p'.segments := by
  intro s hs hne
  cases h with
  | again | refused => exact hs
  | failed _ hslot _ | kept _ hslot _ _ =>
    rcases List.mem_append.mp (hslot.superset hs hne) with hs | hs <;> simp [hs]
  | broken _ hslot _ _ _ | complete hslot _ _ _ _ _ _ => exact hslot.superset hs hne

theorem Inserted.datagrams_superset (h : Inserted R p kypacketSeq x created assembled r p') :
    ∀ d ∈ p.datagrams, d ∈ p'.datagrams := by
  intro d hd
  cases h with
  | again | refused | failed | kept | broken => exact hd
  | complete _ _ _ _ hdat _ _ =>
    rw [hdat] at hd
    obtain hd | hd := List.mem_append.mp hd
    · simp [hd]
    · simp [hd]

theorem Inserted.mem_seqs (h : Inserted R p kypacketSeq x created assembled r p')
    (hr : r = .ok ()) : kypacketSeq ∈ p'.seqs := by
  cases h with
  | refused | failed | broken => cases hr
  | again hd hseq => exact Pending.mem_seqs.mpr (.inr ⟨_, hd, hseq⟩)
  | kept | complete => simp [seqs]

theorem Ordered.inserted (hp : p.Ordered)
    (h : Inserted R p kypacketSeq x created assembled r p') : p'.Ordered := by
  cases h with
  | again | refused => exact hp
  | failed hd hslot _ | kept hd hslot _ _ =>
    refine ⟨hslot.sorted hp.segments _, hp.datagrams, ?_⟩
    intro s hs d hdm
    rcases List.mem_append.mp hs with hs | hs
    · exact hp.apart s (hslot.subset s (by simp [hs])) d hdm
    · rcases List.mem_cons.mp hs with rfl | hs
      · exact (hd d hdm).symm
      · exact hp.apart s (hslot.subset s (by simp [hs])) d hdm
  | broken _ hslot _ _ _ =>
    exact ⟨hslot.sorted_rest hp.segments, hp.datagrams,
      fun s hs ↦ hp.apart s (hslot.subset s hs)⟩
  | complete hslot _ _ _ hdat hlt hgt =>
    refine ⟨hslot.sorted_rest hp.segments, (hdat ▸ hp.datagrams).insert hlt hgt, ?_⟩
    intro s hs d hd
    rcases List.mem_append.mp hd with hd | hd
    · exact hp.apart s (hslot.subset s hs) d (by simp [hdat, hd])
    · rcases List.mem_cons.mp hd with rfl | hd
      · exact hslot.ne hp.segments s hs
      · exact hp.apart s (hslot.subset s hs) d (by simp [hdat, hd])

/-- No packet that waits in parts is complete, if no new one is. -/
theorem Inserted.incomplete (h : Inserted R p kypacketSeq x created assembled r p')
    (hnew : ∀ parts, R.new p x created = .ok parts → R.isComplete parts = false)
    (hp : ∀ u ∈ p.segments, R.isComplete u.parts = false) :
    ∀ u ∈ p'.segments, R.isComplete u.parts = false := by
  have hput : ∀ {pre post : List (DatagramSegments β)} {parts parts' : β},
      Slot R p kypacketSeq x created pre parts post → R.isComplete parts' = false →
      ∀ u ∈ pre ++ ⟨kypacketSeq, parts'⟩ :: post, R.isComplete u.parts = false := by
    intro pre post parts parts' hslot hc u hu
    rcases List.mem_append.mp hu with hu | hu
    · exact hp u (hslot.subset u (by simp [hu]))
    · rcases List.mem_cons.mp hu with rfl | hu
      · exact hc
      · exact hp u (hslot.subset u (by simp [hu]))
  cases h with
  | again | refused => exact hp
  | failed _ hslot _ =>
    refine hput hslot ?_
    rcases hslot with hslot | ⟨-, hparts, -⟩
    · exact hp ⟨kypacketSeq, _⟩ (by simp [hslot])
    · exact hnew _ hparts
  | kept _ hslot _ hc => exact hput hslot hc
  | broken _ hslot _ _ _ | complete hslot _ _ _ _ _ _ => exact fun u hu ↦ hp u (hslot.subset u hu)

section Take

variable {minInstant : Option ℕ} {maxBuffering next now : ℕ} {b : Bool} {taken : Taken α β}

theorem poll_oneDeadline (p : Pending α β) (minInstant : Option ℕ) (maxBuffering next : ℕ) :
    OneDeadline (p.poll minInstant maxBuffering next) := by
  unfold OneDeadline poll
  cases hnone : p.configPacket.isNone with
  | true => exact .inl (by simp)
  | false =>
    cases hnext : p.configPacket.isNext next with
    | true => exact .inr (.inl ⟨true, by simp⟩)
    | false =>
      simp only [Bool.false_eq_true, if_false]
      cases p.datagrams with
      | nil => exact .inl (fun _ ↦ rfl)
      | cons datagram _ =>
        by_cases hfront : datagram.kypacketSeq = next
        · exact .inr (.inl ⟨_, fun _ ↦ if_pos hfront⟩)
        · simp only [hfront, if_false]
          cases minInstant with
          | none => exact .inl (fun _ ↦ rfl)
          | some instant => exact .inr (.inr ⟨instant + maxBuffering, _, fun _ ↦ rfl⟩)

theorem poll_ready (h : p.poll minInstant maxBuffering next now = .ready b) :
    (b = true ∧ ∃ packet, p.configPacket = .ready packet) ∨
      (b = false ∧ p.configPacket = .sent ∧ ∃ d ds, p.datagrams = d :: ds) := by
  have hready : p.configPacket.isNone = false → p.datagrams ≠ [] → b = p.configPacket.isReady →
      (b = true ∧ ∃ packet, p.configPacket = .ready packet) ∨
        (b = false ∧ p.configPacket = .sent ∧ ∃ d ds, p.datagrams = d :: ds) := by
    rintro hn hd rfl
    cases hc : p.configPacket with
    | none => simp [hc, ConfigPacket.isNone] at hn
    | ready packet => exact .inl ⟨rfl, packet, rfl⟩
    | sent => exact .inr ⟨rfl, rfl, List.exists_cons_of_ne_nil hd⟩
  unfold poll at h
  split_ifs at h with hnone hnext
  · cases h
    cases hc : p.configPacket with
    | none | sent => simp [hc, ConfigPacket.isNext] at hnext
    | ready packet => exact .inl ⟨rfl, packet, rfl⟩
  · rw [Bool.not_eq_true] at hnone
    split at h
    · cases h
    · next d ds hd =>
      have hne : p.datagrams ≠ [] := by simp [hd]
      split_ifs at h
      · cases h; exact hready hnone hne rfl
      · split at h
        · cases h
        · split_ifs at h
          cases h; exact hready hnone hne rfl

theorem dropExpiredSegments_split (hs : Sorted DatagramSegments.kypacketSeq p.segments) (k : ℕ) :
    ∃ expired kept, p.segments = expired ++ kept ∧
      p.dropExpiredSegments k = (expired, { p with segments := kept }) ∧
      (∀ s ∈ expired, s.kypacketSeq < k) ∧ ∀ s ∈ kept, k ≤ s.kypacketSeq := by
  unfold dropExpiredSegments
  cases hi : binarySearchByKey DatagramSegments.kypacketSeq k p.segments with
  | ok index =>
    obtain ⟨pre, s, post, hsplit, rfl, rfl⟩ := search_ok hi
    refine ⟨pre, s :: post, hsplit, by simp [hsplit], (hsplit ▸ hs).before, ?_⟩
    intro u hu
    rcases List.mem_cons.mp hu with rfl | hu
    · exact le_rfl
    · exact ((hsplit ▸ hs).after u hu).le
  | error index =>
    obtain ⟨pre, post, hsplit, rfl, hlt, hgt⟩ := search_error hs hi
    exact ⟨pre, post, hsplit, by simp [hsplit], hlt, fun s hs ↦ (hgt s hs).le⟩

inductive Took (p : Pending α β) : Bool → Taken α β → Pending α β → Prop
  | config {packet} (hc : p.configPacket = .ready packet) :
    Took p true (.config packet) { p with configPacket := .sent }
  | datagram {d ds expired kept} (hc : p.configPacket ≠ .none) (hd : p.datagrams = d :: ds)
    (hs : p.segments = expired ++ kept) (hlt : ∀ s ∈ expired, s.kypacketSeq < d.kypacketSeq)
    (hge : ∀ s ∈ kept, d.kypacketSeq ≤ s.kypacketSeq) :
    Took p false (.datagram d expired) { p with datagrams := ds, segments := kept }

theorem takePacket_ok (h : p.takePacket b = .ok (taken, p')) :
    (b = true ∧ ∃ packet, p.configPacket = .ready packet ∧ taken = .config packet ∧
      p' = { p with configPacket := .sent }) ∨
    (b = false ∧ p.configPacket ≠ .none ∧ ∃ d ds, p.datagrams = d :: ds ∧
      taken = .datagram d ({ p with datagrams := ds }.dropExpiredSegments d.kypacketSeq).1 ∧
      p' = ({ p with datagrams := ds }.dropExpiredSegments d.kypacketSeq).2) := by
  have hc : p.configPacket ≠ .none := by
    intro hc
    simp [takePacket, hc, ConfigPacket.isNone, assert, bind, Except.bind] at h
  have hn : p.configPacket.isNone = false := by
    cases hcp : p.configPacket <;> simp_all [ConfigPacket.isNone]
  simp only [takePacket, hn, assert, Bool.not_false, if_true, bind, Except.bind] at h
  cases b with
  | true =>
    simp only [if_true] at h
    cases hcp : p.configPacket with
    | none => exact absurd hcp hc
    | sent => simp [hcp, ConfigPacket.isReady] at h
    | ready packet =>
      simp only [hcp, ConfigPacket.isReady, ConfigPacket.consume, if_true, pure, Except.pure] at h
      cases h
      exact .inl ⟨rfl, packet, rfl, rfl, rfl⟩
  | false =>
    simp only [Bool.false_eq_true, if_false] at h
    split at h
    · cases h
    · next d ds hd => cases h; exact .inr ⟨rfl, hc, d, ds, hd, rfl, rfl⟩

theorem takePacket_took (hp : p.Ordered) (h : p.takePacket b = .ok (taken, p')) :
    Took p b taken p' := by
  rcases takePacket_ok h with ⟨rfl, packet, hc, rfl, rfl⟩ | ⟨rfl, hc, d, ds, hd, rfl, rfl⟩
  · exact .config hc
  · obtain ⟨expired, kept, hs, hdrop, hlt, hge⟩ := dropExpiredSegments_split
      (p := { p with datagrams := ds }) hp.segments d.kypacketSeq
    rw [hdrop]
    exact .datagram hc hd hs hlt hge

def deliverable (p : Pending α β) : ℕ :=
  p.datagrams.length + if p.configPacket.isReady then 1 else 0

theorem deliverable_takePacket (h : p.takePacket b = .ok (taken, p')) :
    p.deliverable = p'.deliverable + 1 := by
  rcases takePacket_ok h with ⟨rfl, packet, hc, rfl, rfl⟩ | ⟨rfl, hc, d, ds, hd, rfl, rfl⟩
  · simp [deliverable, hc, ConfigPacket.isReady]
  · simp only [deliverable, hd, List.length_cons, dropExpiredSegments]
    exact Nat.add_right_comm _ _ _

theorem takePacket_of_ready (h : p.poll minInstant maxBuffering next now = .ready b) :
    ∃ taken p', p.takePacket b = .ok (taken, p') := by
  rcases poll_ready h with ⟨rfl, packet, hc⟩ | ⟨rfl, hc, d, ds, hd⟩
  · refine ⟨.config packet, { p with configPacket := .sent }, ?_⟩
    simp [takePacket, hc, ConfigPacket.isNone, ConfigPacket.isReady, ConfigPacket.consume, assert,
      bind, Except.bind, pure, Except.pure]
  · refine ⟨.datagram d ({ p with datagrams := ds }.dropExpiredSegments d.kypacketSeq).1,
      ({ p with datagrams := ds }.dropExpiredSegments d.kypacketSeq).2, ?_⟩
    simp [takePacket, hc, hd, ConfigPacket.isNone, assert, bind, Except.bind, pure, Except.pure]

theorem Took.seqs_subset (h : Took p b taken p') : ∀ k ∈ p'.seqs, k ∈ p.seqs := by
  intro k hk
  cases h with
  | config _ => exact hk
  | datagram _ hd hs _ _ =>
    rcases mem_seqs.mp hk with ⟨s, hsm, rfl⟩ | ⟨d, hdm, rfl⟩
    · exact mem_seqs.mpr (.inl ⟨s, by simp [hs, hsm], rfl⟩)
    · exact mem_seqs.mpr (.inr ⟨d, by simp [hd, hdm], rfl⟩)

theorem Ordered.took (hp : p.Ordered) (h : Took p b taken p') : p'.Ordered := by
  cases h with
  | config _ => exact ⟨hp.segments, hp.datagrams, hp.apart⟩
  | datagram _ hd hs _ _ =>
    refine ⟨(hs ▸ hp.segments).suffix, (List.pairwise_cons.mp (hd ▸ hp.datagrams)).2, ?_⟩
    intro s hsm d hdm
    exact hp.apart s (by simp [hs, hsm]) d (by simp [hd, hdm])

inductive TakeStep (p : Pending α β) (maxBuffering next now : ℕ) : Action → Pending α β → Prop
  | none (hpoll : p.poll p.minInstant maxBuffering next now = .none) :
    TakeStep p maxBuffering next now .none p
  | deadline {d} (hpoll : p.poll p.minInstant maxBuffering next now = .deadline d) :
    TakeStep p maxBuffering next now (.deadline d) p
  | packet {c out q} (hpoll : p.poll p.minInstant maxBuffering next now = .ready c)
    (htook : Took p c out q) :
    TakeStep p maxBuffering next now (.packet out.kypacketSeq out.packet) q

theorem takeNextPacket_step (hp : p.Ordered) (maxBuffering next now : ℕ) :
    ∃ a p', p.takeNextPacket maxBuffering next now = .ok (a, p') ∧
      TakeStep p maxBuffering next now a p' := by
  unfold takeNextPacket
  cases hpoll : p.poll p.minInstant maxBuffering next now with
  | none => exact ⟨_, _, rfl, .none hpoll⟩
  | deadline d => exact ⟨_, _, rfl, .deadline hpoll⟩
  | ready b =>
    obtain ⟨taken, p', htake⟩ := takePacket_of_ready hpoll
    simp only [htake, bind, Except.bind, pure, Except.pure]
    exact ⟨_, _, rfl, .packet hpoll (takePacket_took hp htake)⟩

theorem takeNextPacket_packet_iff (p : Pending α β) (maxBuffering next now : ℕ) :
    (∃ k packet p', p.takeNextPacket maxBuffering next now = .ok (.packet k packet, p')) ↔
      Ready (p.poll p.minInstant maxBuffering next) now := by
  unfold takeNextPacket Ready
  cases hpoll : p.poll p.minInstant maxBuffering next now with
  | none | deadline d => simp
  | ready b =>
    obtain ⟨taken, p', htake⟩ := takePacket_of_ready hpoll
    simp only [htake, bind, Except.bind, pure, Except.pure]
    exact iff_of_true ⟨_, _, _, rfl⟩ ⟨b, rfl⟩

theorem deliverable_takeNextPacket {k : ℕ} {packet : AVPacket}
    (h : p.takeNextPacket maxBuffering next now = .ok (.packet k packet, p')) :
    p'.deliverable < p.deliverable := by
  unfold takeNextPacket at h
  split at h
  · cases h
  · cases h
  · next b _ =>
    cases htake : p.takePacket b with
    | error e => simp [htake, bind, Except.bind] at h
    | ok out =>
      obtain ⟨taken, p₁⟩ := out
      simp only [htake, bind, Except.bind, pure, Except.pure] at h
      cases h
      have := deliverable_takePacket htake
      omega

end Take

end Kymux.Driver.Pending
