import Kymux.Driver.AudioFecTrace
import Kymux.Driver.Quiescent
import Kymux.Driver.Wire

namespace Kymux.AudioFec

open Av BigEndian Driver EventLoop Fec Timed

variable {rq : RaptorQ} {s s' : State rq} {stats : ProtocolStats} {tr fs : List Forwarded} {now : ℕ}

def Forwarded.Behind (f : Forwarded) : Prop := f.isConfig = true → ∀ k ∈ f.left, f.kypacketSeq < k

theorem isMedia_of_mediaPacket {data : Bytes} {packet : AVPacket}
    (h : mediaPacket data = .ok packet) :
    isMedia packet = true := by
  unfold mediaPacket at h
  split at h
  · cases h
  · cases hh : MediaPacketHeader.deserialize (data.take mediaHeader) with
    | error e => simp [hh, bind, Except.bind] at h
    | ok header =>
      simp only [hh, bind, Except.bind, pure, Except.pure] at h
      split at h
      · cases h
      · cases h; rfl

theorem isMedia_inserted {p p' : PendingGroup rq} {kypacketSeq created assembled : ℕ} {x : Symbol}
    {r : Except Fault Unit}
    (h : Pending.Inserted (PendingGroup.reassembly rq) p kypacketSeq x created assembled r p')
    (hp : ∀ d ∈ p.datagrams, isMedia d.packet = true) :
    ∀ d ∈ p'.datagrams, isMedia d.packet = true := by
  intro d hd
  cases h with
  | again | refused | failed | kept | broken => exact hp d hd
  | complete _ _ _ hasm hdat _ _ =>
    rcases List.mem_append.mp hd with hd | hd
    · exact hp d (by simp [hdat, hd])
    · rcases List.mem_cons.mp hd with rfl | hd
      · obtain ⟨-, data, -, hmedia⟩ := Parts.assemble_ok hasm
        exact isMedia_of_mediaPacket hmedia
      · exact hp d (by simp [hdat, hd])

structure InOrder (s : State rq) (tr : List Forwarded) : Prop where
  media : ∀ d ∈ s.pendingGroup.datagrams, isMedia d.packet = true
  client : s.txClient.filter isMedia = tr.map Forwarded.packet
  unsent : s.pendingGroup.configPacket ≠ .sent → tr = []
  waiting : s.pendingGroup.configPacket = .sent →
    ∀ d ∈ s.pendingGroup.datagrams, s.nextKypacketSeq ≤ d.kypacketSeq
  next : s.nextKypacketSeq = tr.getLast?.elim 0 (fun f ↦ f.kypacketSeq + 1)
  increasing : (tr.map Forwarded.kypacketSeq).Pairwise (· < ·)
  behind : ∀ f ∈ tr, f.kypacketSeq < s.nextKypacketSeq
  expected : ∀ f ∈ tr, f.expected ≤ f.kypacketSeq

namespace InOrder

theorem start : InOrder (.start .new stats : State rq) [] := by
  constructor <;> simp [AudioState.start, Pending.new]

theorem of_eq (h : InOrder s tr) (hp : s'.pendingGroup = s.pendingGroup)
    (hnext : s'.nextKypacketSeq = s.nextKypacketSeq)
    (hclient : s'.txClient.filter isMedia = s.txClient.filter isMedia) : InOrder s' tr where
  media := hp ▸ h.media
  client := hclient ▸ h.client
  unsent := hp ▸ h.unsent
  waiting := by rw [hp, hnext]; exact h.waiting
  next := hnext ▸ h.next
  increasing := h.increasing
  behind := hnext ▸ h.behind
  expected := h.expected

theorem selected {input : Input Msg ℕ} {b : Bool} (h : InOrder s tr)
    (hsel : State.Selected s input s' b) : InOrder s' tr := by
  cases hsel with
  | timer => exact h
  | codec => exact h.of_eq rfl rfl (by simp)
  | lateStream | lateDatagram => exact h.of_eq rfl rfl rfl
  | stream _ _ _ hstep =>
    cases hstep with
    | stored _ _ hc _ =>
      exact ⟨h.media, h.client, fun _ ↦ h.unsent (by simp [hc]), (fun hs ↦ by cases hs), h.next,
        h.increasing, h.behind, h.expected⟩
  | @datagram _ _ n p _ hge hins =>
    refine ⟨isMedia_inserted hins h.media, h.client, ?_, ?_, h.next, h.increasing, h.behind,
      h.expected⟩
    · intro hc
      exact h.unsent (hins.configPacket_eq ▸ hc)
    · intro hc d hd
      rcases hins.datagrams_subset d hd with hd | hseq
      · exact h.waiting (hins.configPacket_eq ▸ hc) d hd
      · exact hseq ▸ hge

theorem arrived {a : Arrival Bytes ℕ} {stream rest : Bytes} (h : InOrder s tr)
    (ha : Arrived stream s a rest s') : InOrder s' tr := by
  cases ha with
  | timer => exact h
  | record _ hsel | datagram _ hsel => exact h.selected hsel

theorem forwards (hv : PendingGroup.Valid s.pendingGroup) (h : InOrder s tr)
    (hstep : State.Forwards s now fs s') (hfs : ∀ f ∈ fs, f.Behind) : InOrder s' (tr ++ fs) := by
  cases hstep with
  | idle => rw [List.append_nil]; exact h.of_eq rfl rfl rfl
  | @packet c taken p _ hpoll htook hfwd =>
    have hbehind := hfs _ (List.mem_singleton_self _)
    -- A config is the first packet of all; a datagram comes when the config was sent.
    have hge : s.nextKypacketSeq ≤ taken.kypacketSeq := by
      cases htook with
      | config hc => rw [h.next, h.unsent (by simp [hc])]; exact Nat.zero_le _
      | @datagram d ds _ _ _ hd =>
        rcases Pending.poll_ready hpoll with ⟨hfalse, -⟩ | ⟨-, hsent, -⟩
        · cases hfalse
        · exact h.waiting hsent d (by simp [hd])
    have hmedia : isMedia taken.packet = true := by
      cases htook with
      | @config packet hc =>
        have hconfig := hv.config packet hc
        obtain ⟨packet, seq⟩ := packet
        cases packet <;> simp_all [AVPacket.isConfig, Taken.packet]
      | datagram _ hd => exact h.media _ (by simp [hd])
    have hleft : ∀ d ∈ p.datagrams, taken.kypacketSeq < d.kypacketSeq := by
      cases htook with
      | config hc => exact fun d hd ↦ hbehind rfl _ (List.mem_map_of_mem hd)
      | datagram _ hd => exact (List.pairwise_cons.mp (hd ▸ hv.ordered.datagrams)).1
    have hsub : ∀ d ∈ p.datagrams, d ∈ s.pendingGroup.datagrams := by
      cases htook with
      | config => exact fun d hd ↦ hd
      | datagram _ hd => exact fun d hdm ↦ by simp [hd, hdm]
    have hsent : p.configPacket = .sent := by
      cases htook with
      | config => rfl
      | datagram =>
        rcases Pending.poll_ready hpoll with ⟨hfalse, -⟩ | ⟨-, hsent, -⟩
        · cases hfalse
        · exact hsent
    unfold AudioState.forward at hfwd
    split at hfwd
    · cases hfwd
    cases hfwd
    refine ⟨fun d hd ↦ h.media d (hsub d hd), ?_, fun hc ↦ absurd hsent hc, fun _ ↦ hleft, ?_, ?_,
      ?_, ?_⟩
    · dsimp only
      rw [List.filter_append, List.filter_append, h.client, List.map_append]
      split_ifs <;> simp [hmedia]
    · simp
    · rw [List.map_append, List.pairwise_append]
      refine ⟨h.increasing, List.pairwise_singleton _ _, ?_⟩
      intro a ha b hb
      obtain ⟨f, hf, rfl⟩ := List.mem_map.mp ha
      obtain rfl : b = taken.kypacketSeq := by simpa using hb
      exact (h.behind f hf).trans_le hge
    · intro f hf
      rcases List.mem_append.mp hf with hf | hf
      · exact ((h.behind f hf).trans_le hge).trans (Nat.lt_succ_self _)
      · obtain rfl := List.mem_singleton.mp hf
        exact Nat.lt_succ_self _
    · intro f hf
      rcases List.mem_append.mp hf with hf | hf
      · exact h.expected f hf
      · obtain rfl := List.mem_singleton.mp hf
        exact hge

end InOrder

/-- If no complete packet is left behind when the config is sent to the client, the client
gets the packets in increasing order and the next expected number never falls. -/
theorem forwarded_in_order (rq : RaptorQ) (stats : ProtocolStats) (stream₀ stream : Bytes)
    (es : List (Event (Arrival Bytes ℕ) ℕ)) (s : State rq) (tr : List Forwarded)
    (h : (traced rq).At ((stream₀, .start .new stats), []) es ((stream, s), tr))
    (hbehind : ∀ f ∈ tr, f.isConfig = true → ∀ k ∈ f.left, f.kypacketSeq < k) :
    s.txClient.filter isMedia = tr.map Forwarded.packet ∧
      (tr.map Forwarded.kypacketSeq).Pairwise (· < ·) ∧
      (∀ f ∈ tr, f.expected ≤ f.kypacketSeq) ∧
      s.nextKypacketSeq = tr.getLast?.elim 0 (fun f ↦ f.kypacketSeq + 1) := by
  have hinv : (∀ f ∈ tr, f.Behind) → InOrder s tr := by
    refine traced_induction (P := fun _ _ s tr ↦ (∀ f ∈ tr, f.Behind) → InOrder s tr) ?_ ?_ ?_ h
    · exact fun _ ↦ .start
    · exact fun _ _ _ _ _ _ _ _ hP ha hb ↦ (hP hb).arrived ha
    · exact fun _ _ _ _ _ _ _ hv hP hstep hb ↦
        (hP (fun f hf ↦ hb f (by simp [hf]))).forwards hv hstep (fun f hf ↦ hb f (by simp [hf]))
  have hin := hinv hbehind
  exact ⟨hin.client, hin.increasing, hin.expected, hin.next⟩

section Small

open VideoFec (noStats smallConfig smallMedia)

def smallOutcomes (packets : List AVPacket) : List Outcome :=
  (sendDriver .oneSymbol).sendAll .start (packets.map (⟨·, 7, some 38, none⟩))

def smallArrivals (outcomes : List Outcome) : List (Event (Arrival Bytes ℕ) ℕ) :=
  [⟨.record 0, fun _ ↦ 0⟩, ⟨.datagram ((sentDatagrams outcomes).headD []) 0, fun _ ↦ 0⟩,
    ⟨.record 0, fun _ ↦ 0⟩, ⟨.timer, fun _ ↦ maxBuffering⟩]

theorem forwarded_in_order_zero_one : ∃ stream s tr,
    (traced .oneSymbol).At ((written (smallOutcomes [smallCodec, smallConfig, smallMedia]),
      .start .new noStats), [])
      (smallArrivals (smallOutcomes [smallCodec, smallConfig, smallMedia])) ((stream, s), tr) ∧
    tr.map Forwarded.kypacketSeq = [0, 1] ∧ (tr.map Forwarded.kypacketSeq).Pairwise (· < ·) := by
  obtain ⟨⟨⟨stream, s⟩, tr⟩, hrun, htr⟩ := ok_of_map (show ((traced .oneSymbol).run
    ((written (smallOutcomes [smallCodec, smallConfig, smallMedia]), .start .new noStats), [])
    (smallArrivals (smallOutcomes [smallCodec, smallConfig, smallMedia]))).map Prod.snd =
      .ok [⟨0, smallConfig, 0, true, [1]⟩, ⟨1, smallMedia, 1, false, []⟩] by decide +kernel)
  obtain rfl : tr = _ := htr
  exact ⟨stream, s, _, .inl hrun, by decide,
    (forwarded_in_order _ _ _ _ _ _ _ (.inl hrun) (by decide)).2.1⟩

/-- A media packet is sent before the config and complete before the config arrives: the
client gets the config first, and the next expected number falls from `2` to `1`. -/
theorem forwarded_out_of_order : ∃ outcomes es stream s tr,
    RaptorQ.oneSymbol.Genuine ∧ outcomes = smallOutcomes [smallCodec, smallMedia, smallConfig] ∧
    (∀ o ∈ outcomes, o.result.isOk) ∧ (∀ e ∈ es, e.input.Sent outcomes) ∧
    (traced .oneSymbol).At ((written outcomes, .start .new noStats), []) es ((stream, s), tr) ∧
    tr.map (fun f ↦ (f.kypacketSeq, f.expected)) = [(1, 0), (0, 2)] ∧ s.nextKypacketSeq = 1 ∧
    ¬ (tr.map Forwarded.kypacketSeq).Pairwise (· < ·) := by
  obtain ⟨⟨⟨stream, s⟩, tr⟩, hrun, htr⟩ := ok_of_map (show ((traced .oneSymbol).run
    ((written (smallOutcomes [smallCodec, smallMedia, smallConfig]), .start .new noStats), [])
    (smallArrivals (smallOutcomes [smallCodec, smallMedia, smallConfig]))).map
      (fun w ↦ (w.2, w.1.2.nextKypacketSeq)) =
      .ok ([⟨1, smallConfig, 0, true, [0]⟩, ⟨0, smallMedia, 2, false, []⟩], 1) by decide +kernel)
  simp only [Prod.mk.injEq] at htr
  obtain ⟨rfl, hnext⟩ := htr
  exact ⟨_, smallArrivals _, stream, s, _, RaptorQ.oneSymbol_genuine, rfl, by decide +kernel,
    by decide +kernel, .inl hrun, by decide, hnext, by decide⟩

end Small

end Kymux.AudioFec
