import Kymux.Driver.PlainParts

namespace Kymux.Plain

open BigEndian Driver Slots

variable {xs ys : List Chunk} {s : Parts} {x : Chunk}

def Parts.setSegments (xs : List Chunk) : Except Fault Parts := xs.foldlM Parts.setSegment .new

/-- A chunk whose number has come before says nothing new. -/
def fresh (ys : List Chunk) (x : Chunk) : List Chunk :=
  if x.datagramNumber ∈ ys.map Chunk.datagramNumber then ys else ys ++ [x]

def firsts (xs : List Chunk) : List Chunk := xs.foldl fresh []

theorem firsts_snoc (xs : List Chunk) (x : Chunk) : firsts (xs ++ [x]) = fresh (firsts xs) x := by
  rw [firsts, List.foldl_append]
  rfl

theorem setSegments_snoc (xs : List Chunk) (x : Chunk) :
    Parts.setSegments (xs ++ [x]) = (Parts.setSegments xs).bind (fun s ↦ s.setSegment x) := by
  rw [Parts.setSegments, List.foldlM_append]
  cases h : xs.foldlM Parts.setSegment .new with
  | error e => simp [Parts.setSegments, h, bind, Except.bind]
  | ok s =>
    simp only [Parts.setSegments, h, bind, Except.bind, List.foldlM_cons, List.foldlM_nil, pure,
      Except.pure]
    cases s.setSegment x <;> rfl

/-- A prefix of the chunks that count is what counts of a prefix. -/
theorem prefix_firsts (h : ys <+: firsts xs) : ∃ pre, pre <+: xs ∧ firsts pre = ys := by
  induction xs using List.reverseRecOn generalizing ys with
  | nil => exact ⟨[], List.prefix_rfl, (List.prefix_nil.mp h).symm⟩
  | append_singleton xs x ih =>
    have hold : ys <+: firsts xs ∨ ys = firsts (xs ++ [x]) := by
      rw [firsts_snoc, fresh] at h ⊢
      split_ifs at h ⊢
      · exact .inl h
      · exact (List.prefix_concat_iff.mp h).symm
    obtain hold | rfl := hold
    · obtain ⟨pre, hpre, hfirsts⟩ := ih hold
      exact ⟨pre, hpre.trans (List.prefix_append _ _), hfirsts⟩
    · exact ⟨_, List.prefix_rfl, rfl⟩

structure Received (ys : List Chunk) (s : Parts) : Prop where
  nodup : (ys.map Chunk.datagramNumber).Nodup
  get : ∀ k, (∃ b, s.segments[k]? = some (some b)) ↔ k ∈ ys.map Chunk.datagramNumber
  length : ∀ n, s.segments.length ≤ n ↔ ∀ y ∈ ys, y.datagramNumber < n
  count : s.segmentsCount = ys.length
  bytes : s.totalSegmentBytes = (s.segments.reduceOption.map List.length).sum
  total : ∀ n, s.totalSegments = some n ↔ ∃ y ∈ ys, y.isEnd = true ∧ y.datagramNumber + 1 = n

namespace Received

theorem new : Received [] .new where
  nodup := .nil
  get k := by simp [Parts.new]
  length n := by simp [Parts.new]
  count := rfl
  bytes := rfl
  total n := by simp [Parts.new]

theorem length_le (h : Received ys s) (hx : x ∈ ys) : x.datagramNumber < s.segments.length :=
  (h.length _).mp le_rfl x hx

theorem repeated (h : Received ys s) (hx : x.datagramNumber ∈ ys.map Chunk.datagramNumber) :
    s.setSegment x = .ok s := by
  obtain ⟨b, hb⟩ := (h.get _).mpr hx
  have hlt : x.datagramNumber < s.segments.length := (List.getElem?_eq_some_iff.mp hb).1
  have hgrow : grow s.segments (x.datagramNumber + 1) = s.segments := by
    rw [grow, Nat.sub_eq_zero_of_le hlt, List.replicate_zero, List.append_nil]
  rw [Parts.setSegment_some (get_grow.mpr hb), hgrow]

theorem vacant (h : Received ys s) (hx : x.datagramNumber ∉ ys.map Chunk.datagramNumber) :
    (grow s.segments (x.datagramNumber + 1))[x.datagramNumber]? = some none := by
  have hlt : x.datagramNumber < (grow s.segments (x.datagramNumber + 1)).length := by
    rw [length_grow]
    omega
  obtain ⟨slot, hslot⟩ : ∃ slot,
    (grow s.segments (x.datagramNumber + 1))[x.datagramNumber]? = some slot :=
    ⟨_, List.getElem?_eq_getElem hlt⟩
  cases slot with
  | none => exact hslot
  | some b => exact absurd ((h.get _).mp ⟨b, get_grow.mp hslot⟩) hx

theorem ends (h : Received ys s) (hx : x.datagramNumber ∉ ys.map Chunk.datagramNumber)
    (hend : x.isEnd = true) {y : Chunk} (hy : y ∈ ys) (hyend : y.isEnd = true) :
    s.setSegment x = .error (.panic "self.total_segments.is_none()") := by
  have htotal : s.totalSegments = some (y.datagramNumber + 1) := (h.total _).mpr ⟨y, hy, hyend, rfl⟩
  simp only [Parts.setSegment, Parts.resize_eq_grow, h.vacant hx, hend, htotal, Option.isSome_some,
    and_self, if_true]

theorem stored (h : Received ys s) (hx : x.datagramNumber ∉ ys.map Chunk.datagramNumber)
    (hend : x.isEnd = true → ∀ y ∈ ys, y.isEnd = false) :
    ∃ s', s.setSegment x = .ok s' ∧ Received (ys ++ [x]) s' := by
  have hvacant := h.vacant hx
  have hlt : x.datagramNumber < (grow s.segments (x.datagramNumber + 1)).length :=
    (List.getElem?_eq_some_iff.mp hvacant).1
  have hnone : ¬ (x.isEnd = true ∧ s.totalSegments.isSome = true) := by
    rintro ⟨hxend, htotal⟩
    obtain ⟨n, hn⟩ := Option.isSome_iff_exists.mp htotal
    obtain ⟨y, hy, hyend, -⟩ := (h.total n).mp hn
    exact absurd hyend (by simp [hend hxend y hy])
  obtain ⟨pre, post, hold, hnew⟩ := reduceOption_set x.data hvacant
  rw [reduceOption_grow] at hold
  refine ⟨_, Parts.setSegment_none hvacant hnone, ?_, fun k ↦ ?_, fun n ↦ ?_, ?_, ?_, fun n ↦ ?_⟩
  · rw [List.map_append, List.nodup_append]
    refine ⟨h.nodup, List.nodup_singleton _, ?_⟩
    rintro k hk _ hxk rfl
    exact hx (List.mem_singleton.mp hxk ▸ hk)
  · rw [List.map_append, List.mem_append, ← h.get k]
    by_cases hk : x.datagramNumber = k
    · subst hk
      simp [List.getElem?_set_self hlt]
    · rw [List.getElem?_set_ne hk]
      simp only [get_grow, List.map_cons, List.map_nil, List.mem_singleton, Ne.symm hk, or_false]
  · rw [List.length_set, length_grow, max_le_iff, h.length n, List.forall_mem_append]
    simp
  · rw [List.length_append, h.count]
    rfl
  · rw [hnew, h.bytes, hold]
    simp only [List.map_append, List.map_cons, List.sum_append, List.sum_cons]
    omega
  · simp only [List.mem_append, List.mem_singleton, or_and_right, exists_or, exists_eq_left]
    rw [← h.total n]
    by_cases hxend : x.isEnd = true
    · have hfirst : s.totalSegments ≠ some n := by
        intro hn
        exact hnone ⟨hxend, by simp [hn]⟩
      simp [hxend, hfirst]
    · simp [hxend]

theorem setSegment (h : Received ys s) (hend : ∀ y ∈ fresh ys x, ∀ z ∈ fresh ys x, y.isEnd = true →
    z.isEnd = true → y = z) : ∃ s', s.setSegment x = .ok s' ∧ Received (fresh ys x) s' := by
  rw [fresh] at hend ⊢
  split_ifs at hend ⊢ with hx
  · exact ⟨s, h.repeated hx, h⟩
  · refine h.stored hx (fun hxend y hy ↦ ?_)
    by_contra hyend
    rw [Bool.not_eq_false] at hyend
    have hyx := hend y (by simp [hy]) x (by simp) hyend hxend
    exact hx (hyx ▸ List.mem_map_of_mem hy)

end Received

structure Parts.Whole (s : Parts) : Prop where
  length : s.totalSegments = some s.segments.length
  full : ∀ slot ∈ s.segments, slot.isSome = true
  merged : ∃ bytes, Parts.mergeSegments s.segments s.totalSegmentBytes = .ok bytes

namespace Received

theorem isComplete_iff (h : Received ys s) :
    s.isComplete = true ↔ ∃ y ∈ ys, y.isEnd = true ∧ y.datagramNumber + 1 = ys.length := by
  rw [Parts.isComplete, decide_eq_true_iff, h.total, h.count]

/-- As many different numbers as the end tells, and none beyond it. -/
theorem whole (h : Received ys s) {y : Chunk} (hy : y ∈ ys) (hend : y.isEnd = true)
    (hlen : y.datagramNumber + 1 = ys.length)
    (hle : ∀ z ∈ ys, z.datagramNumber ≤ y.datagramNumber) :
    s.Whole := by
  have hlength : s.segments.length = ys.length := by
    refine le_antisymm ((h.length _).mpr fun z hz ↦ ?_) ?_
    · have := hle z hz
      omega
    · have := h.length_le hy
      omega
  have hall : ∀ k < s.segments.length, k ∈ ys.map Chunk.datagramNumber := by
    have hsub : (ys.map Chunk.datagramNumber).toFinset ⊆ Finset.range ys.length := by
      intro k hk
      obtain ⟨z, hz, rfl⟩ := List.mem_map.mp (List.mem_toFinset.mp hk)
      have := hle z hz
      rw [Finset.mem_range]
      omega
    have hcard : (Finset.range ys.length).card ≤ (ys.map Chunk.datagramNumber).toFinset.card := by
      rw [Finset.card_range, List.toFinset_card_of_nodup h.nodup, List.length_map]
    have heq := Finset.eq_of_subset_of_card_le hsub hcard
    intro k hk
    rw [hlength] at hk
    exact List.mem_toFinset.mp (heq ▸ Finset.mem_range.mpr hk)
  have hfull : ∀ slot ∈ s.segments, slot.isSome = true := by
    intro slot hslot
    obtain ⟨k, hk⟩ := List.getElem?_of_mem hslot
    obtain ⟨b, hb⟩ := (h.get k).mpr (hall k (List.getElem?_eq_some_iff.mp hk).1)
    obtain rfl := Option.some.inj (hk.symm.trans hb)
    rfl
  refine ⟨?_, hfull, s.segments.reduceOption.flatten, ?_⟩
  · rw [h.total]
    exact ⟨y, hy, hend, by omega⟩
  · have hconcat := Parts.concatSegments_map s.segments.reduceOption
    rw [map_some_reduceOption hfull] at hconcat
    rw [Parts.mergeSegments, hconcat, h.bytes]
    simp [assert, List.length_flatten, bind, Except.bind, pure, Except.pure]

theorem le_of_whole (h : Received ys s) (hwhole : s.Whole) {y : Chunk} (hy : y ∈ ys)
    (hend : y.isEnd = true) (hlen : y.datagramNumber + 1 = ys.length) :
    ∀ z ∈ ys, z.datagramNumber ≤ y.datagramNumber := by
  intro z hz
  have htotal : s.totalSegments = some (y.datagramNumber + 1) := (h.total _).mpr ⟨y, hy, hend, rfl⟩
  have hlength := Option.some.inj (hwhole.length.symm.trans htotal)
  have hlt := h.length_le hz
  omega

end Received

/-- The chunks of a sender that means well: one end, and when as many numbers have come as it
tells, none is beyond it. -/
structure Orderly (xs : List Chunk) : Prop where
  oneEnd : ∀ y ∈ firsts xs, ∀ z ∈ firsts xs, y.isEnd = true → z.isEnd = true → y = z
  fits : ∀ ys, ys <+: firsts xs → ∀ y ∈ ys, y.isEnd = true → y.datagramNumber + 1 = ys.length →
    ∀ z ∈ ys, z.datagramNumber ≤ y.datagramNumber

theorem firsts_mono {pre : List Chunk} (h : pre <+: xs) : firsts pre <+: firsts xs := by
  obtain ⟨post, rfl⟩ := h
  induction post using List.reverseRecOn with
  | nil => rw [List.append_nil]
  | append_singleton post x ih =>
    rw [← List.append_assoc, firsts_snoc, fresh]
    split_ifs
    · exact ih
    · exact ih.trans (List.prefix_append _ _)

theorem received_setSegments
    (hend : ∀ y ∈ firsts xs, ∀ z ∈ firsts xs, y.isEnd = true → z.isEnd = true → y = z) :
    ∃ s, Parts.setSegments xs = .ok s ∧ Received (firsts xs) s := by
  induction xs using List.reverseRecOn with
  | nil => exact ⟨_, rfl, .new⟩
  | append_singleton xs x ih =>
    have hsub : ∀ y ∈ firsts xs, y ∈ firsts (xs ++ [x]) :=
      (firsts_mono (List.prefix_append xs [x])).subset
    obtain ⟨s, hs, hreceived⟩ := ih fun y hy z hz ↦ hend y (hsub y hy) z (hsub z hz)
    rw [firsts_snoc] at hend ⊢
    obtain ⟨s', hs', hreceived'⟩ := hreceived.setSegment hend
    exact ⟨s', by rw [setSegments_snoc, hs]; exact hs', hreceived'⟩

theorem oneEnd_of_setSegments {s : Parts} (h : Parts.setSegments xs = .ok s) :
    ∀ y ∈ firsts xs, ∀ z ∈ firsts xs, y.isEnd = true → z.isEnd = true → y = z := by
  induction xs using List.reverseRecOn generalizing s with
  | nil => simp [firsts]
  | append_singleton xs x ih =>
    rw [setSegments_snoc] at h
    cases hs : Parts.setSegments xs with
    | error e =>
      rw [hs] at h
      cases h
    | ok s₁ =>
      have hold := ih hs
      obtain ⟨s₂, hs₂, hreceived⟩ := received_setSegments hold
      obtain rfl := Except.ok.inj (hs.symm.trans hs₂)
      rw [hs] at h
      rw [firsts_snoc, fresh]
      split_ifs with hx
      · exact hold
      · have hnot : x.isEnd = true → ∀ y ∈ firsts xs, ¬ y.isEnd = true := by
          intro hend y hy hyend
          have herror := hreceived.ends hx hend hy hyend
          exact absurd (h.symm.trans herror) (by simp)
        intro y hy z hz hyend hzend
        rw [List.mem_append, List.mem_singleton] at hy hz
        obtain hy | rfl := hy <;> obtain hz | rfl := hz
        · exact hold y hy z hz hyend hzend
        · exact absurd hyend (hnot hzend y hy)
        · exact absurd hzend (hnot hyend z hz)
        · rfl

/-- The pieces of a packet are put together safely exactly when their numbers and ends are such as
a sender gives them. -/
theorem segments_whole_iff (xs : List Chunk) :
    (∀ pre, pre <+: xs → ∃ s, Parts.setSegments pre = .ok s ∧ (s.isComplete = true → s.Whole)) ↔
      Orderly xs := by
  constructor
  · intro h
    obtain ⟨s, hs, -⟩ := h xs List.prefix_rfl
    have hone := oneEnd_of_setSegments hs
    refine ⟨hone, fun ys hys y hy hend hlen ↦ ?_⟩
    obtain ⟨pre, hpre, rfl⟩ := prefix_firsts hys
    obtain ⟨s', hs', hwhole⟩ := h pre hpre
    obtain ⟨s₂, hs₂, hreceived⟩ := received_setSegments (oneEnd_of_setSegments hs')
    obtain rfl := Except.ok.inj (hs'.symm.trans hs₂)
    have hcomplete := hreceived.isComplete_iff.mpr ⟨y, hy, hend, hlen⟩
    exact hreceived.le_of_whole (hwhole hcomplete) hy hend hlen
  · intro h pre hpre
    have hsub := firsts_mono hpre
    obtain ⟨s, hs, hreceived⟩ := received_setSegments
      fun y hy z hz ↦ h.oneEnd y (hsub.subset hy) z (hsub.subset hz)
    refine ⟨s, hs, fun hcomplete ↦ ?_⟩
    obtain ⟨y, hy, hend, hlen⟩ := hreceived.isComplete_iff.mp hcomplete
    exact hreceived.whole hy hend hlen (h.fits _ hsub y hy hend hlen)

/-- A peer can end a packet twice, and it can number a piece beyond the end: then the packet is
taken for complete with its first piece missing. -/
theorem segments_broken :
    (Parts.setSegments [⟨0, true, []⟩, ⟨1, true, []⟩] =
      .error (.panic "self.total_segments.is_none()")) ∧
    ∃ s, Parts.setSegments [⟨2, false, []⟩, ⟨1, true, []⟩] = .ok s ∧ s.isComplete = true ∧
      Parts.mergeSegments s.segments s.totalSegmentBytes =
      .error (.panic "Unexpected None segment") :=
  ⟨rfl, _, rfl, rfl, rfl⟩

end Kymux.Plain
