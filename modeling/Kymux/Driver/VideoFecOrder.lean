import Kymux.Driver.VideoFecTrace

namespace Kymux.VideoFec

open Av Driver EventLoop Fec Timed

variable {rq : RaptorQ} {tr : List Step} {stats : ProtocolStats}

def forwarded (tr : List Step) : List ℕ := tr.filterMap Step.forwarded

def IsConfigAt (tr : List Step) (groupSeq kypacketSeq : ℕ) : Prop :=
  ∃ packet, .config groupSeq kypacketSeq packet ∈ tr

def IsDatagramAt (tr : List Step) (groupSeq kypacketSeq : ℕ) : Prop :=
  .datagram groupSeq kypacketSeq ∈ tr

/-- The peer numbers its packets in the order of the groups, and in a group the config
before the media packets. -/
structure Numbered (tr : List Step) : Prop where
  config : ∀ g k m, IsConfigAt tr g k → IsDatagramAt tr g m → k < m
  later : ∀ g h k m, g < h → IsConfigAt tr g k ∨ IsDatagramAt tr g k →
    IsConfigAt tr h m ∨ IsDatagramAt tr h m → k < m

theorem Numbered.of_append {steps : List Step} (h : Numbered (tr ++ steps)) : Numbered tr := by
  have hc : ∀ {g k}, IsConfigAt tr g k → IsConfigAt (tr ++ steps) g k :=
    fun ⟨packet, hp⟩ ↦ ⟨packet, List.mem_append_left _ hp⟩
  have hd : ∀ {g k}, IsDatagramAt tr g k → IsDatagramAt (tr ++ steps) g k :=
    fun hp ↦ List.mem_append_left _ hp
  exact ⟨fun g k m h₁ h₂ ↦ h.config g k m (hc h₁) (hd h₂),
    fun g g' k m hlt h₁ h₂ ↦ h.later g g' k m hlt (h₁.imp hc hd) (h₂.imp hc hd)⟩

def waiting (tr : List Step) (next : ℕ) : Law VideoObject (Parts rq) where
  ready g c := IsConfigAt tr g c.kypacketSeq ∧ next ≤ c.kypacketSeq
  sent _ := True
  segments g s := IsDatagramAt tr g s.kypacketSeq ∧ next ≤ s.kypacketSeq
  datagram g d := IsDatagramAt tr g d.kypacketSeq ∧ next ≤ d.kypacketSeq

theorem waiting_append {gs : Groups VideoObject (Parts rq)} {next : ℕ} (steps : List Step)
    (h : gs.Obey (waiting tr next)) : gs.Obey (waiting (tr ++ steps) next) :=
  h.imp (fun _ _ ↦ And.imp_left (Exists.imp (fun _ ↦ List.mem_append_left _))) (fun _ ↦ id)
    (fun _ _ ↦ And.imp_left (List.mem_append_left _))
    (fun _ _ ↦ And.imp_left (List.mem_append_left _))

theorem waiting_admits {groupSeq kypacketSeq next : ℕ} {x : Symbol}
    (hd : IsDatagramAt tr groupSeq kypacketSeq) (hge : next ≤ kypacketSeq) :
    PendingGroups.Admits (waiting tr next : Law VideoObject (Parts rq)) groupSeq kypacketSeq x :=
  ⟨fun _ _ _ _ _ ↦ ⟨hd, hge⟩, fun _ _ _ _ _ _ _ _ _ ↦ ⟨hd, hge⟩⟩

theorem waiting_seqs {p : Queue rq} {groupSeq next k : ℕ}
    (h : p.Obeys (waiting tr next) groupSeq) (hk : k ∈ p.seqs) :
    IsDatagramAt tr groupSeq k ∧ next ≤ k := by
  rcases Pending.mem_seqs.mp hk with ⟨s, hs, rfl⟩ | ⟨d, hd, rfl⟩
  · exact h.segments s hs
  · exact h.datagrams d hd

theorem waiting_numbers {p : Queue rq} {groupSeq next k : ℕ}
    (h : p.Obeys (waiting tr next) groupSeq) (hk : k ∈ p.numbers) : next ≤ k := by
  rcases Pending.mem_numbers.mp hk with ⟨c, hc, rfl⟩ | hk
  · exact (h.ready c hc).2
  · exact (waiting_seqs h hk).2

theorem waiting_mono {p : Queue rq} {groupSeq next next' : ℕ}
    (h : p.Obeys (waiting tr next) groupSeq) (hge : ∀ k ∈ p.numbers, next' ≤ k) :
    p.Obeys (waiting tr next') groupSeq where
  ready c hc := ⟨(h.ready c hc).1, hge _ (Pending.mem_numbers.mpr (.inl ⟨c, hc, rfl⟩))⟩
  sent _ := trivial
  segments s hs := ⟨(h.segments s hs).1,
    hge _ (Pending.mem_numbers.mpr (.inr (Pending.mem_seqs.mpr (.inl ⟨s, hs, rfl⟩))))⟩
  datagrams d hd := ⟨(h.datagrams d hd).1,
    hge _ (Pending.mem_numbers.mpr (.inr (Pending.mem_seqs.mpr (.inr ⟨d, hd, rfl⟩))))⟩

theorem Numbered.inSequence {gs : Groups VideoObject (Parts rq)} {next : ℕ} (h : Numbered tr)
    (hs : gs.Ordered) (hobey : gs.Obey (waiting tr next)) : gs.InSequence :=
  Groups.inSequence_of hs.sorted (fun g hg c hc ↦ ((hobey g hg).ready c hc).1)
    (fun g hg _ hk ↦ (waiting_seqs (hobey g hg) hk).1) h.config h.later

structure Sequenced (stats : ProtocolStats) (s : State rq) (tr : List Step) : Prop where
  waits : s.pendingGroups.pendingGroups.Obey (waiting tr s.nextKypacketSeq)
  increasing : (forwarded tr).Pairwise (· < ·)
  behind : ∀ k ∈ forwarded tr, k < s.nextKypacketSeq
  last : s.nextKypacketSeq = (forwarded tr).getLast?.elim 0 (· + 1)
  counted : (forwarded tr).length + s.protocolStats.droppedPackets.getD 0 =
    s.nextKypacketSeq + stats.droppedPackets.getD 0

theorem forwarded_append (tr steps : List Step) :
    forwarded (tr ++ steps) = forwarded tr ++ forwarded steps := by
  simp [forwarded]

theorem forwarded_ofTaken (groupSeq : ℕ) (taken : Taken VideoObject (Parts rq)) :
    forwarded [Step.ofTaken groupSeq taken] = [taken.kypacketSeq] := by
  cases taken <;> rfl

namespace Sequenced

variable {s s' : State rq} {now : ℕ} {steps : List Step}

theorem start (stats : ProtocolStats) :
    Sequenced stats (.start .new stats : State rq) [] where
  waits := by simp [VideoState.start, PendingGroups.new, Groups.Obey]
  increasing := .nil
  behind := by simp [forwarded]
  last := rfl
  counted := by simp [forwarded, VideoState.start]

theorem handled (hv : s.pendingGroups.Valid) (h : Sequenced stats s tr)
    (hstep : State.Handled s steps s') :
    Sequenced stats s' (tr ++ steps) := by
  have hfwd : forwarded (tr ++ steps) = forwarded tr := by
    rw [forwarded_append]
    cases hstep <;> simp [forwarded, Step.forwarded]
  have hrest : s'.nextKypacketSeq = s.nextKypacketSeq ∧ s'.protocolStats = s.protocolStats := by
    cases hstep <;> exact ⟨by assumption, by assumption⟩
  refine ⟨?_, by rw [hfwd]; exact h.increasing, by rw [hfwd, hrest.1]; exact h.behind,
    by rw [hfwd, hrest.1]; exact h.last, by rw [hfwd, hrest.1, hrest.2]; exact h.counted⟩
  rw [hrest.1]
  have hwaits := waiting_append steps h.waits
  cases hstep with
  | idle hgs _ _ | codec hgs _ _ => rwa [hgs]
  | @config g k packet _ _ hge hstep _ _ =>
    exact hstep.obey rfl (fun _ ↦ ⟨⟨packet, by simp⟩, hge⟩) hwaits
  | datagram hge hstep _ _ =>
    exact hstep.obey hv.ordered rfl (waiting_admits (by simp [IsDatagramAt]) hge) hwaits

theorem forwards (hv : s.pendingGroups.Valid) (h : Sequenced stats s tr) (hn : Numbered tr)
    (hstep : State.Forwards s now steps s') : Sequenced stats s' (tr ++ steps) := by
  cases hstep with
  | idle hgs hnext hstats _ =>
    rw [List.append_nil]
    exact ⟨by rw [hgs, hnext]; exact h.waits, h.increasing, by rw [hnext]; exact h.behind,
      by rw [hnext]; exact h.last, by rw [hnext, hstats]; exact h.counted⟩
  | @packet drained g rest c taken p fecStats hgs hpoll htook =>
    have hg : g ∈ s.pendingGroups.pendingGroups := by simp [hgs]
    have hseq := hn.inSequence hv.ordered h.waits
    obtain ⟨htaken, hleft⟩ := Pending.numbers_took (hv.ordered.each g hg) hpoll htook
      (hseq.config g hg)
    have hge : s.nextKypacketSeq ≤ taken.kypacketSeq := waiting_numbers (h.waits g hg) htaken
    have hafter := (hgs ▸ hseq).took (hv.ordered.each g hg) hpoll htook
    have hfwd : forwarded (tr ++ [Step.ofTaken g.groupSeq taken]) =
        forwarded tr ++ [taken.kypacketSeq] := by
      rw [forwarded_append, forwarded_ofTaken]
    refine ⟨waiting_append _ ?_, ?_, ?_, ?_, ?_⟩
    · intro k hk
      exact waiting_mono ((hgs ▸ h.waits).took htook (fun _ ↦ trivial) k hk) (hafter k hk)
    · rw [hfwd, List.pairwise_append]
      refine ⟨h.increasing, List.pairwise_singleton _ _, ?_⟩
      intro k hk m hm
      obtain rfl := List.mem_singleton.mp hm
      exact (h.behind k hk).trans_le hge
    · rw [hfwd]
      intro k hk
      rcases List.mem_append.mp hk with hk | hk
      · exact ((h.behind k hk).trans_le hge).trans (Nat.lt_succ_self _)
      · obtain rfl := List.mem_singleton.mp hk
        exact Nat.lt_succ_self _
    · rw [hfwd, List.getLast?_concat]
      rfl
    · rw [hfwd, List.length_append]
      have hcounted := h.counted
      simp only [State.deliver, VideoState.forward, List.length_singleton]
      split_ifs with hgt
      · simp only [ProtocolStats.addDropped, addFec_droppedPackets, Option.getD_some]
        omega
      · rw [addFec_droppedPackets]
        omega

end Sequenced

/-- With such a peer the client gets the packets in increasing order, the next expected
number never falls, and every number below it was sent to the client or counted as dropped. -/
theorem forwarded_increasing (rq : RaptorQ) (stats : ProtocolStats)
    (es : List (Event (Input Msg Clock) ℕ)) (s : State rq) (tr : List Step)
    (h : (traced rq).At (.start .new stats, []) es (s, tr)) (hn : Numbered tr) :
    s.txClient = tr.filterMap Step.client ∧ (forwarded tr).Pairwise (· < ·) ∧
      s.nextKypacketSeq = (forwarded tr).getLast?.elim 0 (· + 1) ∧
      (forwarded tr).length + s.protocolStats.droppedPackets.getD 0 =
        s.nextKypacketSeq + stats.droppedPackets.getD 0 := by
  have hinv : Numbered tr → Sequenced stats s tr := by
    refine traced_induction (P := fun s tr ↦ Numbered tr → Sequenced stats s tr) ?_ ?_ ?_ h
    · exact fun _ ↦ Sequenced.start stats
    · exact fun s s' tr steps hv hP hstep hn ↦ (hP hn.of_append).handled hv hstep
    · exact fun s s' now tr steps hv hP hstep hn ↦
        (hP hn.of_append).forwards hv hn.of_append hstep
  exact ⟨client_of_traced h, (hinv hn).increasing, (hinv hn).last, (hinv hn).counted⟩

/-- The media packet `1` follows the config `0` in their group. -/
theorem forwarded_increasing_zero_one : ∃ s tr,
    (traced .oneSymbol).At (.start .new noStats, []) (groupEvents 0 1) (s, tr) ∧ Numbered tr ∧
      forwarded tr = [0, 1] ∧ s.txClient = [smallConfig, smallMedia] ∧
        (forwarded tr).Pairwise (· < ·) := by
  obtain ⟨⟨s, tr⟩, hrun, htr⟩ := ok_of_map (show ((traced .oneSymbol).run (.start .new noStats, [])
    (groupEvents 0 1)).map Prod.snd = .ok [.config 1 0 smallConfig, .sentConfig 1 0 smallConfig,
      .datagram 1 1, .sentMedia 1 1 smallMedia] by decide +kernel)
  obtain rfl : tr = _ := htr
  have hn : Numbered [.config 1 0 smallConfig, .sentConfig 1 0 smallConfig, .datagram 1 1,
      .sentMedia 1 1 smallMedia] := by
    constructor
    · rintro g k m ⟨packet, hc⟩ hd
      simp only [IsDatagramAt, List.mem_cons, Step.config.injEq, Step.datagram.injEq, reduceCtorEq,
        List.not_mem_nil, false_or, or_false] at hc hd
      omega
    · intro g h k m hlt hk hm
      simp only [IsConfigAt, IsDatagramAt, List.mem_cons, Step.config.injEq, Step.datagram.injEq,
        reduceCtorEq, List.not_mem_nil, false_or, or_false, exists_and_left, exists_eq,
        and_true] at hk hm
      omega
  obtain ⟨hclient, hincreasing, -, -⟩ := forwarded_increasing _ _ _ _ _ (.inl hrun) hn
  exact ⟨s, _, .inl hrun, hn, by decide, hclient, hincreasing⟩

/-- The peer gives the media packet of a group the number `5` and its config `10`: the
client gets the config first, and the next expected number falls from `11` to `6`. -/
theorem forwarded_decreasing : ∃ s tr,
    (traced .oneSymbol).At (.start .new noStats, []) (groupEvents 10 5) (s, tr) ∧
      forwarded tr = [10, 5] ∧ s.txClient = [smallConfig, smallMedia] ∧ s.nextKypacketSeq = 6 ∧
      (forwarded tr).length + s.protocolStats.droppedPackets.getD 0 ≠
        s.nextKypacketSeq + noStats.droppedPackets.getD 0 := by
  obtain ⟨⟨s, tr⟩, hrun, htr⟩ := ok_of_map (show ((traced .oneSymbol).run (.start .new noStats, [])
    (groupEvents 10 5)).map (fun w ↦ (forwarded w.2, w.1.txClient, w.1.nextKypacketSeq,
      w.1.protocolStats.droppedPackets)) =
        .ok ([10, 5], [smallConfig, smallMedia], 6, some 10) by decide +kernel)
  simp only [Prod.mk.injEq] at htr
  obtain ⟨hfwd, hclient, hnext, hdropped⟩ := htr
  exact ⟨s, tr, .inl hrun, hfwd, hclient, hnext, by rw [hfwd, hnext, hdropped]; decide⟩

end Kymux.VideoFec
