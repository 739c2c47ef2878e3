import Kymux.Driver.Honest
import Kymux.Driver.Idle

namespace Kymux.Driver

open Av Governed SortedKeys Timed

variable {α β : Type} {sent tx : List AVPacket} {genuine : ℕ → β → Prop} {is : List ℕ}
  {next now maxBuffering groupSeq i : ℕ} {m : Option ℕ} {gs drained rest : Groups α β}
  {g : PendingGroup α β} {p : Pending α β} {b : Bool} {taken : Taken α β} {Q : Pending α β → Prop}

def Groups.Any (gs : Groups α β) (groupSeq : ℕ) (Q : Pending α β → Prop) : Prop :=
  ∃ g ∈ gs, g.groupSeq = groupSeq ∧ Q g.toPending

def Pending.HasConfig (i : ℕ) (p : Pending α β) : Prop := ∃ c, p.configPacket = .ready c ∧
    c.kypacketSeq = i

def Pending.HasDatagram (i : ℕ) (p : Pending α β) : Prop := ∃ d ∈ p.datagrams, d.kypacketSeq = i

namespace Groups

variable {room : ℕ → Except Fault Unit} {pre post : Groups α β}

/-- What is put into one group leaves the others as they were. -/
theorem Place.any {k : ℕ} (hplace : Place room gs groupSeq pre g post)
    (hQ : k = groupSeq → Q g.toPending → Q p) (h : gs.Any k Q) :
    Any (pre ++ ⟨p, groupSeq⟩ :: post) k Q := by
  obtain ⟨q, hq, rfl, hprop⟩ := h
  obtain rfl | hq := hplace.mem hq
  · exact ⟨⟨p, groupSeq⟩, by simp, hplace.groupSeq_eq.symm, hQ hplace.groupSeq_eq hprop⟩
  · refine ⟨q, ?_, rfl, hprop⟩
    obtain hq | hq := List.mem_append.mp hq <;> simp [hq]

theorem nextPacketFrom_skip (index : ℕ) (hpre : ∀ k ∈ pre, k.poll m maxBuffering next now = .none) :
    nextPacketFrom m maxBuffering next now index (pre ++ gs) =
      nextPacketFrom m maxBuffering next now (index + pre.length) gs := by
  induction pre generalizing index with
  | nil => rfl
  | cons k pre ih =>
    rw [List.cons_append, nextPacketFrom, hpre k (by simp),
      ih (index + 1) (fun l hl ↦ hpre l (by simp [hl])), List.length_cons, Nat.add_right_comm,
      Nat.add_assoc]

end Groups

/-- Nothing is to be had from a group in which nothing waits. -/
theorem Pending.poll_of_numbers_nil (h : p.numbers = []) :
    p.poll m maxBuffering next now = .none := by
  have hempty : p.datagrams = [] := by
    refine List.eq_nil_iff_forall_not_mem.mpr fun d hd ↦ ?_
    have hmem : d.kypacketSeq ∈ p.numbers :=
      mem_numbers.mpr (.inr (mem_seqs.mpr (.inr ⟨d, hd, rfl⟩)))
    rw [h] at hmem
    cases hmem
  refine (poll_none_iff (fun hne ↦ absurd hempty hne)).mpr ?_
  cases hc : p.configPacket with
  | none => exact .inl (by rw [hc]; rfl)
  | sent => exact .inr ⟨by rw [hc]; rfl, hempty⟩
  | ready c =>
    have hmem : c.kypacketSeq ∈ p.numbers := mem_numbers.mpr (.inl ⟨c, hc, rfl⟩)
    rw [h] at hmem
    cases hmem

namespace Pending.Took

variable {p' : Pending α β}

theorem ready_eq (h : Took p b taken p') (hpoll : p.poll m maxBuffering next now = .ready b)
    {c : StreamPacket} (hc : p.configPacket = .ready c) : c.kypacketSeq = taken.kypacketSeq := by
  cases h with
  | config hc' =>
    rw [hc] at hc'
    cases hc'
    rfl
  | datagram =>
    obtain ⟨hb, -⟩ | ⟨-, hsent, -⟩ := poll_ready hpoll
    · cases hb
    · rw [hc] at hsent
      cases hsent

theorem config_sent (h : Took p b taken p') (hpoll : p.poll m maxBuffering next now = .ready b) :
    p'.configPacket = .sent := by
  cases h with
  | config => rfl
  | datagram =>
    obtain ⟨hb, -⟩ | ⟨-, hsent, -⟩ := poll_ready hpoll
    · cases hb
    · exact hsent

theorem datagram_left (h : Took p b taken p') {d : DatagramPacket α} (hd : d ∈ p.datagrams)
    (hne : d.kypacketSeq ≠ taken.kypacketSeq) : d ∈ p'.datagrams := by
  cases h with
  | config => exact hd
  | datagram _ hdatagrams =>
    rw [hdatagrams] at hd
    obtain rfl | hd := List.mem_cons.mp hd
    · exact absurd rfl hne
    · exact hd

theorem segments_left (h : Took p b taken p') {s : DatagramSegments β} (hs : s ∈ p.segments)
    (hle : taken.kypacketSeq ≤ s.kypacketSeq) : s ∈ p'.segments := by
  cases h with
  | config => exact hs
  | datagram _ _ hsegments hlt =>
    rw [hsegments] at hs
    obtain hs | hs := List.mem_append.mp hs
    · exact absurd (hlt s hs) (not_lt.mpr hle)
    · exact hs

end Pending.Took

namespace Honest

theorem next_le (h : Honest sent genuine gs next tx is) (hg : g ∈ gs) {k : ℕ} (hk : k ∈ g.numbers) :
    next ≤ k := by
  have hobeys := h.waits g hg
  obtain ⟨c, hc, rfl⟩ | hk := Pending.mem_numbers.mp hk
  · exact (hobeys.ready c hc).2.2
  · obtain ⟨s, hs, rfl⟩ | ⟨d, hd, rfl⟩ := Pending.mem_seqs.mp hk
    · exact (hobeys.segments s hs).2.2
    · exact (hobeys.datagrams d hd).2.2

theorem numbers_nil (h : Honest sent genuine gs next tx is) (hgs : gs = drained ++ g :: rest)
    (hnext : next ∈ g.numbers) : ∀ k ∈ drained, k.numbers = [] := by
  intro k hk
  refine List.eq_nil_iff_forall_not_mem.mpr fun n hn ↦ ?_
  have hlater := (hgs ▸ honest_inSequence h.ordered h.waits).later
  have hlt := (List.pairwise_append.mp hlater).2.2 k hk g (by simp) n hn next hnext
  have hge := h.next_le (g := k) (by simp [hgs, hk]) hn
  omega

/-- The packet that comes next is found if it is there with its config. -/
theorem nextPacket_ready (h : Honest sent genuine gs next tx is) (hg : g ∈ gs)
    (hnext : g.HasConfig next ∨ g.configPacket = .sent ∧ g.HasDatagram next)
    (maxBuffering now : ℕ) :
    ∃ ref, gs.nextPacket maxBuffering next now = .ready ref := by
  obtain ⟨drained, rest, hgs⟩ := List.append_of_mem hg
  have hmem : next ∈ g.numbers := by
    obtain hconfig | ⟨-, hdatagram⟩ := hnext
    · exact Pending.mem_numbers.mpr (.inl hconfig)
    · exact Pending.mem_numbers.mpr (.inr (Pending.mem_seqs.mpr (.inr hdatagram)))
  have hpoll : ∃ b, g.poll gs.minInstant maxBuffering next now = .ready b := by
    obtain ⟨c, hc, hseq⟩ | ⟨hsent, d, hd, hseq⟩ := hnext
    · exact ⟨true, by simp [Pending.poll, hc, ConfigPacket.isNone, ConfigPacket.isNext, hseq]⟩
    · cases hds : g.datagrams with
      | nil =>
        rw [hds] at hd
        cases hd
      | cons first ds =>
        -- The first of the media packets is not behind the next number, and not after it.
        have hfirst : first.kypacketSeq = next := by
          have hge := (h.waits g hg).datagrams first (by simp [hds])
          rw [hds] at hd
          obtain rfl | hd := List.mem_cons.mp hd
          · exact hseq
          · have hlt := (List.pairwise_cons.mp (hds ▸ (h.ordered.each g hg).datagrams)).1 d hd
            have := hge.2.2
            omega
        refine ⟨false, ?_⟩
        simp [Pending.poll, hsent, hds, hfirst, ConfigPacket.isNone, ConfigPacket.isNext,
          ConfigPacket.isReady]
  obtain ⟨b, hpoll⟩ := hpoll
  refine ⟨⟨0 + drained.length, b⟩, ?_⟩
  rw [Groups.nextPacket]
  generalize gs.minInstant = m at hpoll ⊢
  rw [hgs, Groups.nextPacketFrom_skip 0
    (fun k hk ↦ Pending.poll_of_numbers_nil (h.numbers_nil hgs hmem k hk)), Groups.nextPacketFrom,
    hpoll]

section Took

variable (h : Honest sent genuine gs next tx is) (hgs : gs = drained ++ g :: rest)
  (hpoll : g.poll m maxBuffering next now = .ready b) (htook : Pending.Took g.toPending b taken p)
  (hturn : taken.kypacketSeq = next)

include h hgs hpoll htook hturn

theorem taken_mem : next ∈ g.numbers := by
  rw [← hturn]
  exact (Pending.numbers_took (h.ordered.each g (by simp [hgs])) hpoll htook
    ((honest_inSequence h.ordered h.waits).config g (by simp [hgs]))).1

theorem any_took {k : ℕ} (hnumber : ∀ q, Q q → q.numbers ≠ []) (hleft : Q g.toPending → Q p)
    (hany : gs.Any k Q) : Groups.Any (⟨p, g.groupSeq⟩ :: rest) k Q := by
  obtain ⟨q, hq, rfl, hprop⟩ := hany
  obtain hq | hq := List.mem_append.mp (hgs ▸ hq)
  · exact absurd (h.numbers_nil hgs (h.taken_mem hgs hpoll htook hturn) q hq) (hnumber _ hprop)
  · obtain rfl | hq := List.mem_cons.mp hq
    · exact ⟨⟨p, q.groupSeq⟩, by simp, rfl, hleft hprop⟩
    · exact ⟨q, by simp [hq], rfl, hprop⟩

end Took

end Honest

/-- Everything up to the next expected packet was delivered, and the group of the last one is
there. -/
structure InTurn (sent : List AVPacket) (gs : Groups α β) (next : ℕ) (tx : List AVPacket) :
    Prop where
  delivered : tx = sent.take next
  bounded : next ≤ sent.length
  current : 0 < next → gs.Any (groupOf sent (next - 1)) (fun p ↦ p.configPacket = .sent)

namespace InTurn

theorem start (sent : List AVPacket) : InTurn sent ([] : Groups α β) 0 [] where
  delivered := List.take_zero.symm
  bounded := Nat.zero_le _
  current h := absurd h (lt_irrefl 0)

theorem took (ht : InTurn sent gs next tx) (h : Honest sent genuine gs next tx is)
    (hgs : gs = drained ++ g :: rest) (hpoll : g.poll m maxBuffering next now = .ready b)
    (htook : Pending.Took g.toPending b taken p) (hturn : taken.kypacketSeq = next) :
    InTurn sent (⟨p, g.groupSeq⟩ :: rest) (taken.kypacketSeq + 1) (tx ++ [taken.packet]) := by
  obtain ⟨hcan, hpacket, -, hgroup⟩ := h.canDeliver (g := g) (by simp [hgs]) hpoll htook
  refine ⟨?_, hcan.bounded,
    fun _ ↦ ⟨⟨p, g.groupSeq⟩, by simp, hgroup.symm, htook.config_sent hpoll⟩⟩
  rw [List.take_add_one, hpacket, hturn, ← ht.delivered]
  rfl

/-- When all that is ahead has arrived and nothing can be taken, nothing is ahead. -/
theorem exhausted (ht : InTurn sent gs next tx) (h : Honest sent genuine gs next tx is)
    (hfirst : ∀ packet, sent.head? = some packet → packet.isConfig = true)
    (hquiet : ∀ ref, gs.nextPacket maxBuffering next now ≠ .ready ref)
    (hconfig : ∀ j, configAt AVPacket.isConfig sent j = true → next ≤ j →
      gs.Any (groupOf sent j) (Pending.HasConfig j))
    (hmedia : ∀ j < sent.length, configAt AVPacket.isConfig sent j = false → next ≤ j →
      gs.Any (groupOf sent j) (Pending.HasDatagram j)) : next = sent.length := by
  by_contra hne
  have hlt : next < sent.length := lt_of_le_of_ne ht.bounded hne
  suffices hready : ∃ g ∈ gs, g.HasConfig next ∨ g.configPacket = .sent ∧ g.HasDatagram next by
    obtain ⟨g, hg, hnext⟩ := hready
    obtain ⟨ref, href⟩ := h.nextPacket_ready hg hnext maxBuffering now
    exact hquiet ref href
  cases hc : configAt AVPacket.isConfig sent next with
  | true =>
    obtain ⟨g, hg, -, hhas⟩ := hconfig next hc le_rfl
    exact ⟨g, hg, .inl hhas⟩
  | false =>
    have hpos : 0 < next := by
      refine Nat.pos_of_ne_zero fun hzero ↦ ?_
      rw [hzero] at hlt hc
      have hget : sent[0]? = some sent[0] := List.getElem?_eq_getElem hlt
      have hhead := hfirst _ (List.head?_eq_getElem?.trans hget)
      rw [configAt, hget, Option.any_some, hhead] at hc
      cases hc
    obtain ⟨k, hk, hkseq, hsent⟩ := ht.current hpos
    obtain ⟨g, hg, hgseq, hhas⟩ := hmedia next hlt hc le_rfl
    -- A media packet is in the group of the packet before it.
    have hgroup : groupOf sent next = groupOf sent (next - 1) := by
      obtain ⟨n, rfl⟩ : ∃ n, next = n + 1 := ⟨next - 1, by omega⟩
      exact group_succ_of_media hc
    obtain rfl : g = k := h.ordered.sorted.eq_of_key hg hk (by rw [hgseq, hkseq, hgroup])
    exact ⟨g, hg, .inr ⟨hsent, hhas⟩⟩

end InTurn

end Kymux.Driver
