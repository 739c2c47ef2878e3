import Kymux.Driver.Idle
import Kymux.Driver.VideoFecValid

namespace Kymux.Driver

variable {α β : Type} {p : Pending α β} {gs pre post : Groups α β} {g : PendingGroup α β}
  {room : ℕ → Except Fault Unit} {groupSeq : ℕ}

theorem Groups.Place.grows (hplace : Place room gs groupSeq pre g post)
    (hconfig : g.configPacket = .none ∨ p.configPacket = g.configPacket)
    (hdatagrams : ∀ d ∈ g.datagrams, d ∈ p.datagrams) :
    gs.Grows (pre ++ ⟨p, groupSeq⟩ :: post) := by
  intro k hk
  obtain rfl | hk := hplace.mem hk
  · exact ⟨⟨p, groupSeq⟩, by simp, hconfig, hdatagrams⟩
  · refine ⟨k, ?_, .inr rfl, fun _ ↦ id⟩
    obtain hk | hk := List.mem_append.mp hk <;> simp [hk]

end Kymux.Driver

namespace Kymux.VideoFec.PendingGroups

open Av Driver Fec Timed

variable {rq : RaptorQ} {s s' t : PendingGroups rq} {groupSeq kypacketSeq next now d : ℕ}
  {x : Symbol} {packet : AVPacket} {clock : Clock} {r : Except Fault Unit}

def retiredLevel (s : PendingGroups rq) : ℕ := s.retiredThrough.elim 0 (· + 1)

theorem Retires.level_lt (hv : s.Valid) (h : Retires now s s') :
    s.retiredLevel < s'.retiredLevel := by
  obtain ⟨seq, hseqs, -, hretired⟩ := h.mediaSeqs
  have hmem : seq ∈ s.pendingGroups.mediaSeqs := by
    rw [← Multiset.mem_coe, hseqs]
    exact Multiset.mem_add.mpr (.inr (Multiset.mem_singleton_self seq))
  rw [retiredLevel, retiredLevel, hretired]
  cases hold : s.retiredThrough with
  | none => exact Nat.succ_pos _
  | some retired =>
    have hlt := hv.live retired hold seq hmem
    simp only [Option.elim_some]
    omega

theorem eq_of_retirements (hv : s.Valid) (h : Relation.ReflTransGen (Retires now) s t)
    (hsame : t.retiredThrough = s.retiredThrough) : t = s := by
  have hmono : ∀ {u}, Relation.ReflTransGen (Retires now) s u → u = s ∨
      s.retiredLevel < u.retiredLevel := by
    intro u hu
    induction hu with
    | refl => exact .inl rfl
    | tail hsteps hstep ih =>
      have hlt := hstep.level_lt (hv.retirements hsteps)
      obtain rfl | ih := ih
      · exact .inr hlt
      · exact .inr (ih.trans hlt)
  obtain heq | hlt := hmono h
  · exact heq
  · rw [retiredLevel, retiredLevel, hsame] at hlt
    exact absurd hlt (lt_irrefl _)

theorem Stored.grows (h : Stored s groupSeq kypacketSeq x clock r s') :
    s.pendingGroups.Grows s'.pendingGroups := by
  cases h with
  | full => exact .refl _
  | inserted hplace hins =>
    exact hplace.grows (.inr hins.configPacket_eq) hins.datagrams_superset

theorem Stored.retiredThrough_eq (h : Stored s groupSeq kypacketSeq x clock r s') :
    s'.retiredThrough = s.retiredThrough := by
  cases h <;> rfl

theorem DatagramStep.grows (h : DatagramStep s groupSeq kypacketSeq x clock r s') (hv : s.Valid)
    (hsame : s'.retiredThrough = s.retiredThrough) : s.pendingGroups.Grows s'.pendingGroups := by
  cases h with
  | invalid | late | migrated => exact .refl _
  | known _ _ _ hstored => exact hstored.grows
  | rejected _ hret _ | overtaken _ hret _ =>
    rw [eq_of_retirements hv hret hsame]
    exact .refl _
  | fresh _ _ hret _ _ hstored =>
    obtain rfl := eq_of_retirements hv hret (hstored.retiredThrough_eq.symm.trans hsame)
    exact hstored.grows

theorem StreamStep.grows (h : StreamStep s groupSeq kypacketSeq packet clock r s') (hv : s.Valid)
    (hsame : s'.retiredThrough = s.retiredThrough) : s.pendingGroups.Grows s'.pendingGroups := by
  cases h with
  | unexpected => exact .refl _
  | rejected _ hret _ | full hret _ _ | duplicate hret _ _ _ =>
    rw [eq_of_retirements hv hret hsame]
    exact .refl _
  | stored _ _ hret _ hplace hc =>
    obtain rfl := eq_of_retirements hv hret hsame
    exact hplace.grows (.inl hc) (fun _ ↦ id)

/-- To receive more delays nothing, as long as nothing is retired to make room: what waits for a
deadline waits for that one or an earlier one, or can be taken. -/
theorem received_not_later (hv : s.Valid) (hnext : s.nextPacket next now = .deadline d)
    (hinsert : (∃ groupSeq kypacketSeq x clock, next ≤ kypacketSeq ∧
        s.insertDatagram groupSeq kypacketSeq x clock = (.ok (), s')) ∨
      ∃ groupSeq kypacketSeq packet clock, next ≤ kypacketSeq ∧
        s.insertStreamPacket groupSeq kypacketSeq packet clock = (.ok (), s'))
    (hretired : s'.retiredThrough = s.retiredThrough) :
    (∃ ref, s'.nextPacket next now = .ready ref) ∨ ∃ d' ≤ d,
    s'.nextPacket next now = .deadline d' := by
  have hgrows : s.pendingGroups.Grows s'.pendingGroups := by
    obtain ⟨groupSeq, kypacketSeq, x, clock, -, h⟩ | ⟨groupSeq, kypacketSeq, packet, clock, -, h⟩ :=
      hinsert
    · have hstep := insertDatagram_step hv.ordered groupSeq kypacketSeq x clock
      rw [h] at hstep
      exact hstep.grows hv hretired
    · have hstep := insertStreamPacket_step hv.ordered groupSeq kypacketSeq packet clock
      rw [h] at hstep
      exact hstep.grows hv hretired
  exact hgrows.nextPacket hnext

section Small

def waiting : PendingGroups .oneSymbol :=
  ⟨[⟨⟨.sent, [⟨⟨⟨0, 0, 0, 0, 0⟩, 0⟩, .media ⟨⟨false, false, 0, 0⟩, []⟩, 5, 0⟩], []⟩, 1⟩], none, 0⟩

theorem waiting_valid : waiting.Valid where
  ordered := ⟨List.pairwise_singleton _ _, by
    intro g hg
    obtain rfl := List.mem_singleton.mp hg
    exact ⟨.nil, List.pairwise_singleton _ _, by simp⟩⟩
  groups := by decide
  unique := by decide
  live := by simp [waiting]
  incomplete := by simp [waiting]
  objects := by decide
  bytes := by decide

/-- The config of the next group arrives. -/
theorem received_not_later_config : waiting.nextPacket 1 0 = .deadline 50000000 ∧
    ∃ s', waiting.insertStreamPacket 2 7 (.media ⟨⟨true, false, 0, 0⟩, []⟩) ⟨0, 0, 0⟩ =
    (.ok (), s') ∧
      ((∃ ref, s'.nextPacket 1 0 = .ready ref) ∨ ∃ d' ≤ 50000000,
        s'.nextPacket 1 0 = .deadline d') := by
  refine ⟨by decide, _, rfl, ?_⟩
  exact received_not_later waiting_valid (by decide)
    (.inr ⟨2, 7, .media ⟨⟨true, false, 0, 0⟩, []⟩, ⟨0, 0, 0⟩, by decide, rfl⟩) rfl

end Small

end Kymux.VideoFec.PendingGroups
