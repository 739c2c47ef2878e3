import Kymux.Driver.InSequence
import Kymux.Driver.Law
import Kymux.Driver.Sent

namespace Kymux.Driver

open Av Governed SortedKeys Timed

variable {α β : Type} {sent : List AVPacket} {genuine : ℕ → β → Prop} {is : List ℕ}
  {next next' groupSeq kypacketSeq : ℕ} {p : Pending α β} {gs drained rest : Groups α β}
  {g : PendingGroup α β} {b : Bool} {taken : Taken α β}

/-- The place of a packet that was sent: its number, that of its group, and whether it is a
config. -/
structure Placed (sent : List AVPacket) (isConfig : Bool) (groupSeq kypacketSeq : ℕ) : Prop where
  bounded : kypacketSeq < sent.length
  config : configAt AVPacket.isConfig sent kypacketSeq = isConfig
  group : groupOf sent kypacketSeq = groupSeq

theorem Placed.of_get {packet : AVPacket} (h : sent[kypacketSeq]? = some packet) :
    Placed sent packet.isConfig (groupOf sent kypacketSeq) kypacketSeq where
  bounded := (List.getElem?_eq_some_iff.mp h).1
  config := by rw [configAt, h, Option.any_some]
  group := rfl

theorem Placed.config_lt {m : ℕ} (h : Placed sent true groupSeq kypacketSeq)
    (hm : Placed sent false groupSeq m) : kypacketSeq < m :=
  config_lt_of_group_eq h.config hm.config (h.group.trans hm.group.symm)

theorem Placed.lt_of_lt {c c' : Bool} {groupSeq' m : ℕ} (h : Placed sent c groupSeq kypacketSeq)
    (hm : Placed sent c' groupSeq' m) (hlt : groupSeq < groupSeq') : kypacketSeq < m := by
  obtain ⟨-, -, rfl⟩ := h
  obtain ⟨-, -, rfl⟩ := hm
  exact lt_of_group_lt hlt

/-- What waits is what was sent, in its group, and not behind the next expected packet. The config
delivered last belongs to the group from which one was taken. -/
def honest (sent : List AVPacket) (genuine : ℕ → β → Prop) (next : ℕ) (is : List ℕ) : Law α β where
  ready g c := Placed sent true g c.kypacketSeq ∧ sent[c.kypacketSeq]? = some c.packet ∧
    next ≤ c.kypacketSeq
  sent g := ∃ c, lastConfig AVPacket.isConfig sent is = some c ∧ groupOf sent c = g
  segments g s := Placed sent false g s.kypacketSeq ∧ genuine s.kypacketSeq s.parts ∧
    next ≤ s.kypacketSeq
  datagram g d := Placed sent false g d.kypacketSeq ∧ sent[d.kypacketSeq]? = some d.packet ∧
    next ≤ d.kypacketSeq

theorem honest_seqs {k : ℕ} (h : p.Obeys (honest sent genuine next is) groupSeq) (hk : k ∈ p.seqs) :
    Placed sent false groupSeq k := by
  obtain ⟨s, hs, rfl⟩ | ⟨d, hd, rfl⟩ := Pending.mem_seqs.mp hk
  · exact (h.segments s hs).1
  · exact (h.datagrams d hd).1

theorem honest_inSequence (ho : gs.Ordered) (h : gs.Obey (honest sent genuine next is)) :
    gs.InSequence :=
  Groups.inSequence_of (A := Placed sent true) (B := Placed sent false) ho.sorted
    (fun g hg c hc ↦ ((h g hg).ready c hc).1) (fun g hg _ hk ↦ honest_seqs (h g hg) hk)
    (fun _ _ _ hk hm ↦ hk.config_lt hm) (fun _ _ _ _ hlt hk hm ↦ by
      obtain hk | hk := hk <;> obtain hm | hm := hm <;> exact hk.lt_of_lt hm hlt)

/-- What is left of a group, when nothing of it is behind the next number. -/
theorem honest_left {p' : Pending α β} {is' : List ℕ}
    (h : p.Obeys (honest sent genuine next is) groupSeq)
    (hready : ∀ c, p'.configPacket = .ready c → p.configPacket = .ready c)
    (hsegments : ∀ s ∈ p'.segments, s ∈ p.segments)
    (hdatagrams : ∀ d ∈ p'.datagrams, d ∈ p.datagrams) (hge : ∀ k ∈ p'.numbers, next' ≤ k)
    (hsent : p'.configPacket = .sent →
      ∃ c, lastConfig AVPacket.isConfig sent is' = some c ∧ groupOf sent c = groupSeq) :
    p'.Obeys (honest sent genuine next' is') groupSeq where
  ready c hc := by
    obtain ⟨hplaced, hpacket, -⟩ := h.ready c (hready c hc)
    exact ⟨hplaced, hpacket, hge _ (Pending.mem_numbers.mpr (.inl ⟨c, hc, rfl⟩))⟩
  sent := hsent
  segments s hs := by
    obtain ⟨hplaced, hgenuine, -⟩ := h.segments s (hsegments s hs)
    exact ⟨hplaced, hgenuine,
      hge _ (Pending.mem_numbers.mpr (.inr (Pending.mem_seqs.mpr (.inl ⟨s, hs, rfl⟩))))⟩
  datagrams d hd := by
    obtain ⟨hplaced, hpacket, -⟩ := h.datagrams d (hdatagrams d hd)
    exact ⟨hplaced, hpacket,
      hge _ (Pending.mem_numbers.mpr (.inr (Pending.mem_seqs.mpr (.inr ⟨d, hd, rfl⟩))))⟩

theorem honest_took {is' : List ℕ} (h : g.toPending.Obeys (honest sent genuine next is) groupSeq)
    (htook : Pending.Took g.toPending b taken p) (hge : ∀ k ∈ p.numbers, next' ≤ k)
    (hsent : p.configPacket = .sent →
      ∃ c, lastConfig AVPacket.isConfig sent is' = some c ∧ groupOf sent c = groupSeq) :
    p.Obeys (honest sent genuine next' is') groupSeq := by
  cases htook with
  | config hc =>
    exact honest_left h (fun _ hready ↦ by cases hready) (fun _ ↦ id) (fun _ ↦ id) hge hsent
  | datagram hc hd hs =>
    exact honest_left h (fun _ ↦ id) (fun s hs' ↦ by simp [hs, hs'])
      (fun d hd' ↦ by simp [hd, hd']) hge
      hsent

/-- What was delivered, by the places of the packets, and what waits behind it. -/
structure Honest (sent : List AVPacket) (genuine : ℕ → β → Prop) (gs : Groups α β) (next : ℕ)
    (tx : List AVPacket) (is : List ℕ) : Prop where
  ordered : gs.Ordered
  waits : gs.Obey (honest sent genuine next is)
  inOrder : InOrder AVPacket.isConfig sent is
  behind : ∀ i ∈ is, i < next
  delivered : tx.map some = is.map (sent[·]?)

namespace Honest

variable {tx : List AVPacket} {minInstant : Option ℕ} {maxBuffering now : ℕ}

theorem start (sent : List AVPacket) (genuine : ℕ → β → Prop) :
    Honest sent genuine ([] : Groups α β) 0 [] [] where
  ordered := .nil
  waits := by simp [Groups.Obey]
  inOrder := .nil
  behind := by simp
  delivered := rfl

/-- A packet that can be taken is one that the abstract receiver may deliver next. -/
theorem canDeliver (h : Honest sent genuine gs next tx is) (hg : g ∈ gs)
    (hpoll : g.poll minInstant maxBuffering next now = .ready b)
    (htook : Pending.Took g.toPending b taken p) :
    CanDeliver AVPacket.isConfig sent is taken.kypacketSeq ∧
      sent[taken.kypacketSeq]? = some taken.packet ∧ next ≤ taken.kypacketSeq ∧
      groupOf sent taken.kypacketSeq = g.groupSeq := by
  have hobeys := h.waits g hg
  cases htook with
  | @config c hc =>
    obtain ⟨hplaced, hpacket, hge⟩ := hobeys.ready c hc
    refine ⟨⟨fun i hi ↦ (h.behind i hi).trans_le hge, hplaced.bounded, fun hmedia ↦ ?_⟩, hpacket,
      hge, hplaced.group⟩
    exact absurd (hplaced.config.symm.trans hmedia) (by decide)
  | @datagram d ds expired kept hc hd =>
    obtain ⟨hplaced, hpacket, hge⟩ := hobeys.datagrams d (by simp [hd])
    refine ⟨⟨fun i hi ↦ (h.behind i hi).trans_le hge, hplaced.bounded, fun _ ↦ ?_⟩, hpacket, hge,
      hplaced.group⟩
    obtain ⟨hb, -⟩ | ⟨-, hsent, -⟩ := Pending.poll_ready hpoll
    · cases hb
    · obtain ⟨c, hlast, hgroup⟩ := hobeys.sent hsent
      exact ⟨c, hlast, hgroup.trans hplaced.group.symm⟩

theorem lastConfig_took (h : Honest sent genuine gs next tx is) (hg : g ∈ gs)
    (htook : Pending.Took g.toPending b taken p) (hsent : p.configPacket = .sent) :
    ∃ c, lastConfig AVPacket.isConfig sent (is ++ [taken.kypacketSeq]) = some c ∧
      groupOf sent c = g.groupSeq := by
  have hobeys := h.waits g hg
  cases htook with
  | @config c hc =>
    have hplaced := (hobeys.ready c hc).1
    exact ⟨c.kypacketSeq, lastConfig_snoc_config hplaced.config, hplaced.group⟩
  | @datagram d ds expired kept hc hd =>
    have hplaced := (hobeys.datagrams d (by simp [hd])).1
    obtain ⟨c, hlast, hgroup⟩ := hobeys.sent hsent
    exact ⟨c, (lastConfig_snoc_media hplaced.config).trans hlast, hgroup⟩

theorem took (h : Honest sent genuine gs next tx is) (hgs : gs = drained ++ g :: rest)
    (hpoll : g.poll minInstant maxBuffering next now = .ready b)
    (htook : Pending.Took g.toPending b taken p) :
    Honest sent genuine (⟨p, g.groupSeq⟩ :: rest) (taken.kypacketSeq + 1) (tx ++ [taken.packet])
      (is ++ [taken.kypacketSeq]) := by
  have hg : g ∈ gs := by simp [hgs]
  obtain ⟨hcan, hpacket, hge, hgroup⟩ := h.canDeliver hg hpoll htook
  have hafter := (hgs ▸ honest_inSequence h.ordered h.waits).took (h.ordered.each g hg) hpoll htook
  refine ⟨(hgs ▸ h.ordered).took htook, ?_, h.inOrder.deliver hcan, ?_, ?_⟩
  · intro k hk
    obtain rfl | hk' := List.mem_cons.mp hk
    · have hlast := h.lastConfig_took hg htook
      exact honest_took (h.waits g hg) htook (hafter _ hk) hlast
    · have hobeys := h.waits k (by simp [hgs, hk'])
      refine honest_left hobeys (fun _ ↦ id) (fun _ ↦ id) (fun _ ↦ id) (hafter k hk)
        (fun hsent ↦ ?_)
      -- The config of a later group cannot have been delivered before this packet.
      obtain ⟨c, hlast, hc⟩ := hobeys.sent hsent
      have hle := group_mono AVPacket.isConfig sent
        ((h.behind c (lastConfig_mem hlast).1).trans_le hge).le
      have hlt : g.groupSeq < k.groupSeq :=
        (List.pairwise_cons.mp (hgs ▸ h.ordered).suffix.sorted).1 k hk'
      rw [show group _ _ _ = _ from hc, show group _ _ _ = _ from hgroup] at hle
      omega
  · intro i hi
    obtain hi | hi := List.mem_append.mp hi
    · exact Nat.lt_succ_of_lt ((h.behind i hi).trans_le hge)
    · obtain rfl := List.mem_singleton.mp hi
      exact Nat.lt_succ_self _
  · rw [List.map_append, List.map_append, h.delivered, List.map_singleton, List.map_singleton,
      hpacket]

end Honest

end Kymux.Driver
