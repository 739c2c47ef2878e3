import Kymux.Driver.VideoFecTrace

namespace Kymux.VideoFec

open Av Driver EventLoop Fec Timed

variable {rq : RaptorQ} {tr steps : List Step} {s s' : State rq}

def allowed (pre : List Step) : Step → Prop
  | .sentConfig g k packet => ∃ a b, pre = a ++ .config g k packet :: b ∧
      ∀ k' packet', .sentConfig g k' packet' ∉ b
  | .sentMedia g k _ => .datagram g k ∈ pre ∧ ∃ k' packet', .sentConfig g k' packet' ∈ pre
  | _ => True

def permits (tr : List Step) : Law VideoObject (Parts rq) where
  ready g c := allowed tr (.sentConfig g c.kypacketSeq c.packet)
  sent g := ∃ k packet, .sentConfig g k packet ∈ tr
  segments g s := .datagram g s.kypacketSeq ∈ tr
  datagram g d := .datagram g d.kypacketSeq ∈ tr

theorem permits_append {p : Queue rq} {groupSeq : ℕ}
    (h : p.Obeys (permits tr) groupSeq)
    (hsteps : ∀ c, p.configPacket = .ready c → ∀ k packet, .sentConfig groupSeq k packet ∉ steps) :
    p.Obeys (permits (tr ++ steps)) groupSeq where
  ready c hc := by
    obtain ⟨a, b, rfl, hb⟩ := h.ready c hc
    refine ⟨a, b ++ steps, by simp, fun k packet hmem ↦ ?_⟩
    rcases List.mem_append.mp hmem with hmem | hmem
    · exact hb k packet hmem
    · exact hsteps c hc k packet hmem
  sent hc := by
    obtain ⟨k, packet, hmem⟩ := h.sent hc
    exact ⟨k, packet, List.mem_append_left _ hmem⟩
  segments s hs := List.mem_append_left _ (h.segments s hs)
  datagrams d hd := List.mem_append_left _ (h.datagrams d hd)

theorem permits_handled (hv : s.pendingGroups.Valid)
    (h : s.pendingGroups.pendingGroups.Obey (permits tr)) (hstep : State.Handled s steps s') :
    s'.pendingGroups.pendingGroups.Obey (permits (tr ++ steps)) := by
  have hpermits : s.pendingGroups.pendingGroups.Obey (permits (tr ++ steps)) := by
    intro g hg
    refine permits_append (h g hg) (fun c hc k packet hmem ↦ ?_)
    cases hstep <;> simp at hmem
  cases hstep with
  | idle hgs _ _ | codec hgs _ _ => rwa [hgs]
  | config _ hstep _ _ => exact hstep.obey rfl (fun _ ↦ ⟨tr, [], rfl, by simp⟩) hpermits
  | datagram _ hstep _ _ =>
    refine hstep.obey hv.ordered rfl ⟨fun _ _ _ _ _ ↦ ?_, fun _ _ _ _ _ _ _ _ _ ↦ ?_⟩ hpermits
    · exact List.mem_append_right _ (List.mem_singleton_self _)
    · exact List.mem_append_right _ (List.mem_singleton_self _)

theorem permits_forwards {now : ℕ} (hv : s.pendingGroups.Valid)
    (h : s.pendingGroups.pendingGroups.Obey (permits tr)) (hcausal : Causal allowed tr)
    (hstep : State.Forwards s now steps s') :
    Causal allowed (tr ++ steps) ∧ s'.pendingGroups.pendingGroups.Obey (permits (tr ++ steps)) := by
  cases hstep with
  | idle hgs _ _ _ => exact ⟨by simpa using hcausal, by simpa [hgs] using h⟩
  | @packet drained g rest c taken p stats hgs hpoll htook =>
    have hg := h g (by simp [hgs])
    have hrest : ∀ k ∈ rest, g.groupSeq < k.groupSeq := by
      have hsorted := (hgs ▸ hv.ordered).suffix.sorted
      exact (List.pairwise_cons.mp hsorted).1
    refine ⟨hcausal.snoc ?_, ?_⟩
    · rcases Pending.poll_ready hpoll with ⟨rfl, -⟩ | ⟨rfl, hsent, -⟩
      · cases htook with
        | config hc => exact hg.ready _ hc
      · cases htook with
        | datagram _ hd _ _ _ => exact ⟨hg.datagrams _ (by simp [hd]), hg.sent hsent⟩
    · intro k hk
      rcases List.mem_cons.mp hk with rfl | hk
      · cases htook with
        | @config c _ =>
          refine ⟨fun _ hc ↦ (by cases hc), fun _ ↦ ⟨c.kypacketSeq, c.packet, ?_⟩, ?_, ?_⟩
          · exact List.mem_append_right _ (List.mem_singleton_self _)
          · exact fun u hu ↦ List.mem_append_left _ (hg.segments u hu)
          · exact fun d hd ↦ List.mem_append_left _ (hg.datagrams d hd)
        | datagram hc hd hs hlt hge =>
          refine permits_append (hg.took (.datagram hc hd hs hlt hge) (by simp)) ?_
          simp [Step.ofTaken]
      · refine permits_append (h k (by simp [hgs, hk])) (fun c' _ k' packet hmem ↦ ?_)
        have := hrest k hk
        cases taken <;> simp [Step.ofTaken] at hmem
        omega

/-- Whatever the peer sends, a media packet goes to the client after a config of its group,
and a config goes to the client once for each time that one was received. -/
theorem media_after_config (rq : RaptorQ) (stats : ProtocolStats)
    (es : List (Event (Input Msg Clock) ℕ)) (s : State rq) (tr : List Step)
    (h : (traced rq).At (.start .new stats, []) es (s, tr)) :
    s.txClient = tr.filterMap Step.client ∧
    (∀ pre g k packet post, tr = pre ++ .sentMedia g k packet :: post →
      .datagram g k ∈ pre ∧ ∃ k' packet', .sentConfig g k' packet' ∈ pre) ∧
    (∀ pre g k packet post, tr = pre ++ .sentConfig g k packet :: post →
      ∃ a b, pre = a ++ .config g k packet :: b ∧ ∀ k' packet', .sentConfig g k' packet' ∉ b) := by
  have hinv : Causal allowed tr ∧ s.pendingGroups.pendingGroups.Obey (permits tr) := by
    refine traced_induction (P := fun s tr ↦ Causal allowed tr ∧
      s.pendingGroups.pendingGroups.Obey (permits tr)) ?_ ?_ ?_ h
    · exact ⟨.nil, by simp [VideoState.start, PendingGroups.new, Groups.Obey]⟩
    · rintro s s' tr steps hv ⟨hcausal, hP⟩ hstep
      refine ⟨?_, permits_handled hv hP hstep⟩
      cases hstep with
      | idle => simpa using hcausal
      | codec | config | datagram => exact hcausal.snoc trivial
    · rintro s s' now tr steps hv ⟨hcausal, hP⟩ hstep
      exact permits_forwards hv hP hcausal hstep
  exact ⟨client_of_traced h, fun pre g k packet post hsplit ↦ hinv.1 pre _ post hsplit,
    fun pre g k packet post hsplit ↦ hinv.1 pre _ post hsplit⟩

/-- In this run the media packet waits for its config. -/
theorem media_after_config_late : ∃ s pre post,
    (traced .oneSymbol).At (.start .new noStats, []) (lateConfigEvents 0 1)
      (s, pre ++ .sentMedia 1 1 smallMedia :: post) ∧
    s.txClient = [smallConfig, smallMedia] ∧ .datagram 1 1 ∈ pre ∧ ∃ k' packet',
    .sentConfig 1 k' packet' ∈ pre := by
  obtain ⟨⟨s, tr⟩, hrun, htr⟩ := ok_of_map (show ((traced .oneSymbol).run (.start .new noStats, [])
    (lateConfigEvents 0 1)).map Prod.snd = .ok ([.datagram 1 1, .config 1 0 smallConfig,
      .sentConfig 1 0 smallConfig] ++ .sentMedia 1 1 smallMedia :: []) by decide +kernel)
  obtain rfl : tr = _ := htr
  obtain ⟨hclient, hmedia, -⟩ := media_after_config _ _ _ _ _ (.inl hrun)
  exact ⟨s, _, _, .inl hrun, hclient, hmedia _ _ _ _ _ rfl⟩

end Kymux.VideoFec
