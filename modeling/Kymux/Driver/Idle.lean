import Kymux.Driver.Groups

namespace Kymux.Driver

open Timed

variable {α β : Type} {p : Pending α β} {gs : Groups α β} {m : Option ℕ} {maxBuffering next now : ℕ}

/-- Nothing of a group can be taken, now or later, as things are: its config is missing, or it
is not the packet that comes next and has no complete media behind it. -/
def Pending.Idle (p : Pending α β) (next : ℕ) : Prop :=
  p.configPacket.isNone = true ∨ p.configPacket.isNext next = false ∧ p.datagrams = []

theorem Pending.poll_none_iff (hm : p.datagrams ≠ [] → m ≠ none) :
    p.poll m maxBuffering next now = .none ↔ p.Idle next := by
  unfold poll Idle
  cases p.configPacket.isNone
  case true => simp
  cases p.configPacket.isNext next
  case true => simp
  cases hd : p.datagrams with
  | nil => simp
  | cons d ds =>
    obtain ⟨instant, rfl⟩ := Option.ne_none_iff_exists'.mp (hm (by simp [hd]))
    by_cases hk : d.kypacketSeq = next <;> by_cases hlate : instant + maxBuffering ≤ now <;>
      simp [hk, hlate]

theorem Pending.minInstant_ne_none (h : p.datagrams ≠ []) : p.minInstant ≠ none := by
  simpa [minInstant, List.min?_eq_none_iff] using h

theorem Groups.minInstant_ne_none {g : PendingGroup α β} (hg : g ∈ gs) (h : g.datagrams ≠ []) :
    gs.minInstant ≠ none := by
  obtain ⟨instant, hinstant⟩ := Option.ne_none_iff_exists'.mp (Pending.minInstant_ne_none h)
  have hmem : instant ∈ gs.filterMap (fun g ↦ g.toPending.minInstant) :=
    List.mem_filterMap.mpr ⟨g, hg, hinstant⟩
  rw [minInstant, Ne, List.min?_eq_none_iff]
  exact List.ne_nil_of_mem hmem

theorem Groups.nextPacketFrom_none_iff (index : ℕ) (hm : ∀ g ∈ gs, g.datagrams ≠ [] → m ≠ none) :
    nextPacketFrom m maxBuffering next now index gs = .none ↔ ∀ g ∈ gs, g.Idle next := by
  induction gs generalizing index with
  | nil => simp [nextPacketFrom]
  | cons g gs ih =>
    have hg : g.poll m maxBuffering next now = .none ↔ g.Idle next :=
      Pending.poll_none_iff (hm g (by simp))
    have hgs := ih (index + 1) (fun k hk ↦ hm k (by simp [hk]))
    rw [nextPacketFrom, List.forall_mem_cons, ← hg, ← hgs]
    cases g.poll m maxBuffering next now <;> simp

theorem Groups.nextPacket_none_iff :
    gs.nextPacket maxBuffering next now = .none ↔ ∀ g ∈ gs, g.Idle next :=
  nextPacketFrom_none_iff 0 (fun _ hg ↦ minInstant_ne_none hg)

/-- Besides the packet, which is the config of the group or else the first of its complete media,
no complete media packet waits in the group. -/
def Pending.Alone (p : Pending α β) (configPacket : Bool) : Prop :=
  if configPacket then p.datagrams = [] else p.datagrams.length ≤ 1

def Pending.numberOf (p : Pending α β) (configPacket : Bool) : Option ℕ :=
  match configPacket, p.configPacket, p.datagrams with
  | true, .ready packet, _ => some packet.kypacketSeq
  | false, _, datagram :: _ => some datagram.kypacketSeq
  | _, _, _ => none

/-- Besides the packet no complete media waits in its group, and of no later group anything can be
taken after it. -/
def Groups.Alone (gs : Groups α β) (ref : PacketRef) : Prop :=
  ∀ g k, gs[ref.pendingGroupIndex]? = some g → g.numberOf ref.configPacket = some k →
    g.Alone ref.configPacket ∧ ∀ h ∈ gs.drop (ref.pendingGroupIndex + 1), h.Idle (k + 1)

theorem Pending.alone_iff {b : Bool} {taken : Taken α β} {p' : Pending α β}
    (hpoll : p.poll m maxBuffering next now = .ready b) (h : p.takePacket b = .ok (taken, p')) :
    p.numberOf b = some taken.kypacketSeq ∧ ∀ next, p'.Idle next ↔ p.Alone b := by
  obtain ⟨rfl, packet, hc, rfl, rfl⟩ | ⟨rfl, -, d, ds, hd, rfl, rfl⟩ := takePacket_ok h
  · exact ⟨by simp [numberOf, hc, Taken.kypacketSeq],
      fun next ↦ by simp [Idle, Alone, ConfigPacket.isNone, ConfigPacket.isNext]⟩
  · obtain ⟨hfalse, -⟩ | ⟨-, hc, -⟩ := poll_ready hpoll
    · cases hfalse
    · exact ⟨by simp [numberOf, hd, Taken.kypacketSeq], fun next ↦ by
        simp [Idle, Alone, dropExpiredSegments, hc, hd, ConfigPacket.isNone, ConfigPacket.isNext]⟩

/-- After a packet was taken that was not alone, something else can be taken, now or later. -/
theorem Groups.alone_iff {drained rest : Groups α β} {g : PendingGroup α β} {ref : PacketRef}
    {taken : Taken α β} {p' : Pending α β} {max : ℕ} (hgs : gs = drained ++ g :: rest)
    (hlength : drained.length = ref.pendingGroupIndex)
    (hpoll : g.poll m maxBuffering next now = .ready ref.configPacket)
    (h : g.takePacket ref.configPacket = .ok (taken, p')) :
    nextPacket (⟨p', g.groupSeq⟩ :: rest) max (taken.kypacketSeq + 1) now = .none ↔
      gs.Alone ref := by
  obtain ⟨hnumber, hidle⟩ := Pending.alone_iff hpoll h
  have hget : gs[ref.pendingGroupIndex]? = some g := by simp [hgs, ← hlength]
  have hdrop : gs.drop (ref.pendingGroupIndex + 1) = rest := by
    rw [hgs, ← hlength, List.drop_length_add_append]
    rfl
  rw [nextPacket_none_iff, List.forall_mem_cons, hidle]
  constructor
  · rintro ⟨halone, hrest⟩ g' k hg' hk
    obtain rfl : g = g' := Option.some.inj (hget.symm.trans hg')
    obtain rfl := Option.some.inj (hnumber.symm.trans hk)
    exact ⟨halone, hdrop ▸ hrest⟩
  · intro halone
    exact hdrop ▸ halone g _ hget hnumber

/-- Why something of a group can be taken: its config comes next, its first media packet does, or
some media packet has waited for too long. -/
theorem Pending.poll_ready_cases {b : Bool} (h : p.poll m maxBuffering next now = .ready b) :
    (b = true ∧ p.configPacket.isNext next = true) ∨
      ∃ d ds, p.datagrams = d :: ds ∧ b = p.configPacket.isReady ∧
        (d.kypacketSeq = next ∨ ∃ instant, m = some instant ∧ instant + maxBuffering ≤ now) := by
  unfold poll at h
  split_ifs at h with hnone hnext
  · cases h
    exact .inl ⟨rfl, hnext⟩
  · cases hd : p.datagrams with
    | nil =>
      rw [hd] at h
      cases h
    | cons d ds =>
      rw [hd] at h
      dsimp only at h
      split_ifs at h with hseq
      · cases h
        exact .inr ⟨d, ds, rfl, rfl, .inl hseq⟩
      · cases m with
        | none => cases h
        | some instant =>
          dsimp only at h
          split_ifs at h with hlate
          cases h
          exact .inr ⟨d, ds, rfl, rfl, .inr ⟨instant, rfl, hlate⟩⟩

theorem Pending.poll_deadline {d : ℕ} (h : p.poll m maxBuffering next now = .deadline d) :
    ∃ instant, m = some instant ∧ d = instant + maxBuffering := by
  unfold poll at h
  split_ifs at h
  split at h
  · cases h
  · split_ifs at h
    split at h
    · cases h
    · next instant =>
      split_ifs at h
      cases h
      exact ⟨instant, rfl, rfl⟩

namespace Groups

theorem nextPacketFrom_deadline {d index : ℕ}
    (h : nextPacketFrom m maxBuffering next now index gs = .deadline d) :
    ∃ instant, m = some instant ∧ d = instant + maxBuffering := by
  induction gs generalizing index with
  | nil => cases h
  | cons g gs ih =>
    rw [nextPacketFrom] at h
    cases hpoll : g.poll m maxBuffering next now with
    | none =>
      rw [hpoll] at h
      exact ih h
    | ready b =>
      rw [hpoll] at h
      cases h
    | deadline d' =>
      rw [hpoll] at h
      cases h
      exact Pending.poll_deadline hpoll

/-- The deadline is set by the media packet that was put together first. -/
theorem nextPacket_deadline {d : ℕ} (h : gs.nextPacket maxBuffering next now = .deadline d) :
    ∃ instant, gs.minInstant = some instant ∧ d = instant + maxBuffering :=
  nextPacketFrom_deadline h

theorem mem_of_minInstant {instant : ℕ} (h : gs.minInstant = some instant) :
    ∃ g ∈ gs, ∃ d ∈ g.datagrams, d.instant = instant := by
  obtain ⟨g, hg, hmin⟩ := List.mem_filterMap.mp (List.min?_mem h)
  obtain ⟨d, hd, hinstant⟩ := List.mem_map.mp (List.min?_mem hmin)
  exact ⟨g, hg, d, hd, hinstant⟩

theorem minInstant_le {g : PendingGroup α β} {d : DatagramPacket α} (hg : g ∈ gs)
    (hd : d ∈ g.datagrams) :
    ∃ instant, gs.minInstant = some instant ∧ instant ≤ d.instant := by
  obtain ⟨instant, hinstant⟩ := Option.ne_none_iff_exists'.mp
    (minInstant_ne_none hg (List.ne_nil_of_mem hd))
  obtain ⟨own, hown⟩ := Option.ne_none_iff_exists'.mp
    (Pending.minInstant_ne_none (List.ne_nil_of_mem hd))
  have hle := (List.min?_eq_some_iff.mp hinstant).2 own (List.mem_filterMap.mpr ⟨g, hg, hown⟩)
  have hle' := (List.min?_eq_some_iff.mp hown).2 d.instant (List.mem_map_of_mem hd)
  exact ⟨instant, hinstant, hle.trans hle'⟩

def Grows (gs gs' : Groups α β) : Prop :=
  ∀ g ∈ gs, ∃ g' ∈ gs', (g.configPacket = .none ∨ g'.configPacket = g.configPacket) ∧
    ∀ d ∈ g.datagrams, d ∈ g'.datagrams

variable {gs' : Groups α β}

theorem Grows.refl (gs : Groups α β) : Grows gs gs := fun g hg ↦ ⟨g, hg, .inr rfl, fun _ ↦ id⟩

theorem Grows.minInstant_le (h : Grows gs gs') {instant : ℕ} (hm : gs.minInstant = some instant) :
    ∃ instant', gs'.minInstant = some instant' ∧ instant' ≤ instant := by
  obtain ⟨g, hg, d, hd, rfl⟩ := mem_of_minInstant hm
  obtain ⟨g', hg', -, hsub⟩ := h g hg
  exact Groups.minInstant_le hg' (hsub d hd)

theorem Grows.not_idle (h : Grows gs gs') (hidle : ∀ g ∈ gs', g.Idle next) : ∀ g ∈ gs,
    g.Idle next := by
  intro g hg
  obtain ⟨g', hg', hconfig, hsub⟩ := h g hg
  obtain hnone | hconfig := hconfig
  · exact .inl (by rw [hnone]; rfl)
  · obtain hnone | ⟨hnext, hempty⟩ := hidle g' hg'
    · exact .inl (hconfig ▸ hnone)
    · refine .inr ⟨hconfig ▸ hnext, List.eq_nil_iff_forall_not_mem.mpr fun d hd ↦ ?_⟩
      have := hsub d hd
      rw [hempty] at this
      cases this

theorem Grows.nextPacket (h : Grows gs gs') {d : ℕ}
    (hd : gs.nextPacket maxBuffering next now = .deadline d) :
    (∃ ref, gs'.nextPacket maxBuffering next now = .ready ref) ∨
      ∃ d' ≤ d, gs'.nextPacket maxBuffering next now = .deadline d' := by
  obtain ⟨instant, hm, rfl⟩ := nextPacket_deadline hd
  obtain ⟨instant', hm', hle⟩ := h.minInstant_le hm
  cases hnext : gs'.nextPacket maxBuffering next now with
  | ready ref => exact .inl ⟨ref, rfl⟩
  | none =>
    rw [nextPacket_none_iff.mpr (h.not_idle (nextPacket_none_iff.mp hnext))] at hd
    cases hd
  | deadline d' =>
    obtain ⟨instant'', hm'', rfl⟩ := nextPacket_deadline hnext
    obtain rfl := Option.some.inj (hm'.symm.trans hm'')
    exact .inr ⟨_, Nat.add_le_add_right hle _, rfl⟩

end Groups

end Kymux.Driver
