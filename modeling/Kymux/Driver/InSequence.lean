import Kymux.Driver.Groups

namespace Kymux.Driver

open Av SortedKeys Timed

variable {α β : Type} {p : Pending α β} {b : Bool} {taken : Taken α β}
  {minInstant : Option ℕ} {maxBuffering next now : ℕ}

def ConfigPacket.readySeq : ConfigPacket → Option ℕ
  | .ready c => some c.kypacketSeq
  | _ => Option.none

def Pending.numbers (p : Pending α β) : List ℕ := p.configPacket.readySeq.toList ++ p.seqs

theorem Pending.mem_numbers {k : ℕ} :
    k ∈ p.numbers ↔ (∃ c, p.configPacket = .ready c ∧ c.kypacketSeq = k) ∨ k ∈ p.seqs := by
  unfold numbers ConfigPacket.readySeq
  cases p.configPacket <;> simp [eq_comm]

/-- What is taken from a group is the first of its numbers, if its config is. -/
theorem Pending.numbers_took {p' : Pending α β} (hp : p.Ordered)
    (hpoll : p.poll minInstant maxBuffering next now = .ready b) (h : Took p b taken p')
    (hconfig : ∀ c, p.configPacket = .ready c → ∀ m ∈ p.seqs, c.kypacketSeq < m) :
    taken.kypacketSeq ∈ p.numbers ∧ ∀ m ∈ p'.numbers, m ∈ p.numbers ∧ taken.kypacketSeq < m := by
  have hsub := h.seqs_subset
  cases h with
  | @config c hc =>
    refine ⟨mem_numbers.mpr (.inl ⟨c, hc, rfl⟩), ?_⟩
    intro m hm
    rcases mem_numbers.mp hm with ⟨c', hc', -⟩ | hm
    · cases hc'
    · exact ⟨mem_numbers.mpr (.inr (hsub m hm)), hconfig c hc m (hsub m hm)⟩
  | @datagram d ds expired kept _ hd hs _ hge =>
    -- The config has been sent, or it would have been taken instead.
    have hsent : p.configPacket = .sent := by
      rcases poll_ready hpoll with ⟨hb, -⟩ | ⟨-, hsent, -⟩
      · cases hb
      · exact hsent
    refine ⟨mem_numbers.mpr (.inr (mem_seqs.mpr (.inr ⟨d, by simp [hd], rfl⟩))), ?_⟩
    intro m hm
    rcases mem_numbers.mp hm with ⟨c', hc', -⟩ | hm
    · rw [hsent] at hc'
      cases hc'
    · refine ⟨mem_numbers.mpr (.inr (hsub m hm)), ?_⟩
      rcases mem_seqs.mp hm with ⟨s, hs', rfl⟩ | ⟨d', hd', rfl⟩
      · exact lt_of_le_of_ne (hge s hs') (hp.apart s (by simp [hs, hs']) d (by simp [hd])).symm
      · exact (List.pairwise_cons.mp (hd ▸ hp.datagrams)).1 d' hd'

namespace Groups

variable {gs drained rest : Groups α β} {g : PendingGroup α β}

/-- The groups hold numbers in sending order: the config of a group comes before its media
packets, and these come before all of the next group. -/
structure InSequence (gs : Groups α β) : Prop where
  config : ∀ g ∈ gs, ∀ c, g.configPacket = .ready c → ∀ m ∈ g.seqs, c.kypacketSeq < m
  later : gs.Pairwise (fun g h ↦ ∀ k ∈ g.numbers, ∀ m ∈ h.numbers, k < m)

/-- Groups are in sequence when their numbers come from a numbering that is. -/
theorem inSequence_of {A B : ℕ → ℕ → Prop} (hs : Sorted PendingGroup.groupSeq gs)
    (hA : ∀ g ∈ gs, ∀ c, g.configPacket = .ready c → A g.groupSeq c.kypacketSeq)
    (hB : ∀ g ∈ gs, ∀ k ∈ g.seqs, B g.groupSeq k)
    (hAB : ∀ g k m, A g k → B g m → k < m)
    (hlater : ∀ g h k m, g < h → A g k ∨ B g k → A h m ∨ B h m → k < m) : InSequence gs where
  config g hg c hc m hm := hAB _ _ _ (hA g hg c hc) (hB g hg m hm)
  later := by
    have hAll : ∀ g ∈ gs, ∀ k ∈ g.numbers, A g.groupSeq k ∨ B g.groupSeq k := by
      intro g hg k hk
      rcases Pending.mem_numbers.mp hk with ⟨c, hc, rfl⟩ | hk
      · exact .inl (hA g hg c hc)
      · exact .inr (hB g hg k hk)
    refine hs.imp_of_mem (fun {g h} hg hh hlt ↦ ?_)
    intro k hk m hm
    exact hlater _ _ _ _ hlt (hAll g hg k hk) (hAll h hh m hm)

/-- Then all that is left after a packet is taken comes after it. -/
theorem InSequence.took (hs : InSequence (drained ++ g :: rest)) (hg : g.Ordered)
    (hpoll : g.poll minInstant maxBuffering next now = .ready b)
    (h : Pending.Took g.toPending b taken p) :
    ∀ k ∈ (⟨p, g.groupSeq⟩ :: rest : Groups α β), ∀ m ∈ k.numbers, taken.kypacketSeq < m := by
  obtain ⟨htaken, hleft⟩ := Pending.numbers_took hg hpoll h (hs.config g (by simp))
  intro k hk m hm
  rcases List.mem_cons.mp hk with rfl | hk
  · exact (hleft m hm).2
  · have hlater := (List.pairwise_append.mp hs.later).2.1
    exact (List.pairwise_cons.mp hlater).1 k hk _ htaken m hm

end Groups

end Kymux.Driver
