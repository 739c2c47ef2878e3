import Kymux.Driver.VideoFecRun

namespace Kymux.VideoFec

open Av Driver Fec

variable {rq : RaptorQ}

theorem Parts.validateOti_of_new {u : Parts rq} {x : Symbol} {created : ℕ}
    (h : Parts.new x.oti created = .ok u) :
    validateOti u.decoder.oti maxVideoPayload = .ok () := by
  obtain ⟨hv, hoti, -⟩ := ObjectDecoder.new_ok (Parts.new_ok h).1
  rw [hoti]
  exact hv

namespace PendingGroups

variable {s s' : PendingGroups rq} {p : Queue rq} {now groupSeq kypacketSeq : ℕ}
  {packet : AVPacket} {x : Symbol} {clock : Clock} {r : Except Fault Unit}

def otis (p : Queue rq) : Multiset Oti :=
  p.weight (fun u ↦ {u.parts.decoder.oti}) (fun d ↦ {d.object.oti})

theorem mem_otis {oti : Oti} : oti ∈ otis p ↔
    (∃ u ∈ p.segments, oti = u.parts.decoder.oti) ∨ ∃ d ∈ p.datagrams, oti = d.object.oti := by
  simp [otis, Pending.weight, mem_list_sum]

theorem keeps_otis (rq : RaptorQ) : Pending.Keeps (reassembly rq)
    (fun u ↦ ({u.parts.decoder.oti} : Multiset Oti)) (fun d ↦ {d.object.oti}) where
  addPacket _ _ _ _ h := by rw [Parts.addPacket_oti h]
  assemble _ _ _ _ _ h := by rw [(Parts.assemble_ok h).1]

def QueueAccepts (p : Queue rq) : Prop :=
  ∀ oti ∈ otis p, validateOti oti maxVideoPayload = .ok ()

namespace QueueAccepts

theorem new : QueueAccepts (Pending.new : Queue rq) := by
  simp [QueueAccepts, otis, Pending.weight_new]

theorem segments (h : QueueAccepts p) {u : DatagramSegments (Parts rq)} (hu : u ∈ p.segments) :
    validateOti u.parts.decoder.oti maxVideoPayload = .ok () :=
  h _ (mem_otis.mpr (.inl ⟨u, hu, rfl⟩))

theorem datagrams (h : QueueAccepts p) {d : DatagramPacket VideoObject} (hd : d ∈ p.datagrams) :
    validateOti d.object.oti maxVideoPayload = .ok () :=
  h _ (mem_otis.mpr (.inr ⟨d, hd, rfl⟩))

end QueueAccepts

def Accepts (s : PendingGroups rq) : Prop :=
  ∀ oti ∈ s.pendingGroups.total otis, validateOti oti maxVideoPayload = .ok ()

theorem Accepts.new : (new : PendingGroups rq).Accepts := by
  simp [Accepts, PendingGroups.new, Groups.total]

theorem Accepts.queue (h : s.Accepts) : ∀ g ∈ s.pendingGroups, QueueAccepts g.toPending :=
  fun g hg oti hoti ↦ h oti (mem_list_sum.mpr ⟨_, List.mem_map.mpr ⟨g, hg, rfl⟩, hoti⟩)

theorem Accepts.mono (h : s.Accepts)
    (hle : s'.pendingGroups.total otis ≤ s.pendingGroups.total otis) : s'.Accepts :=
  fun oti hoti ↦ h oti (Multiset.mem_of_le hle hoti)

theorem Accepts.retirements (h : s.Accepts) (hret : Relation.ReflTransGen (Retires now) s s') :
    s'.Accepts := by
  induction hret with
  | refl => exact h
  | tail _ hstep ih =>
    obtain ⟨rest, p, _, _, p', hrem, htot, htot', -⟩ := hstep.total (f := otis) Pending.weight_new
    refine ih.mono ?_
    rw [htot, htot']
    gcongr
    cases hrem with
    | segment hs _ | datagram hs _ =>
      simp only [otis, Pending.weight, hs, List.map_cons, List.sum_cons]
      gcongr
      exact Multiset.le_add_left _ _

theorem Accepts.stored (h : s.Accepts)
    (hstored : Stored s groupSeq kypacketSeq x clock r s') : s'.Accepts := by
  cases hstored with
  | full => exact h
  | @inserted pre g post _ p hplace hins =>
    have htot := hplace.total (f := otis) Pending.weight_new
    rcases hins.weight (keeps_otis rq) with hw | ⟨-, parts, hnew, hw⟩ | ⟨-, parts, hw⟩
    · refine h.mono ?_
      rw [Groups.total_middle, htot, otis, hw, otis]
    · intro oti hoti
      rw [Groups.total_middle, otis, hw, ← add_assoc, ← otis, ← htot, Multiset.mem_add,
        Multiset.mem_singleton] at hoti
      rcases hoti with hoti | rfl
      · exact h oti hoti
      · exact Parts.validateOti_of_new hnew
    · refine h.mono ?_
      rw [Groups.total_middle, htot, otis, otis, hw]
      gcongr
      exact Multiset.le_add_right _ _

theorem Accepts.streamStep (h : s.Accepts)
    (hstep : StreamStep s groupSeq kypacketSeq packet clock r s') : s'.Accepts := by
  cases hstep with
  | unexpected => exact h
  | rejected _ hret _ | full hret _ _ | duplicate hret _ _ _ => exact h.retirements hret
  | stored _ _ hret _ hplace _ =>
    refine (h.retirements hret).mono ?_
    rw [Groups.total_middle, hplace.total (f := otis) Pending.weight_new]
    rfl

theorem Accepts.datagramStep (h : s.Accepts)
    (hstep : DatagramStep s groupSeq kypacketSeq x clock r s') : s'.Accepts := by
  cases hstep with
  | invalid | late | migrated => exact h
  | known _ _ _ hstored => exact h.stored hstored
  | rejected _ hret _ | overtaken _ hret _ => exact h.retirements hret
  | fresh _ _ hret _ _ hstored => exact (h.retirements hret).stored hstored

theorem Accepts.takeStep {next : ℕ} {a : Action} (h : s.Accepts)
    (hstep : TakeStep s next now a s') : s'.Accepts := by
  cases hstep with
  | none | deadline => exact h
  | packet hgs _ _ _ htook =>
    refine h.mono ?_
    simp only [hgs, Groups.total_append]
    simp only [Groups.total, List.map_cons, List.sum_cons]
    refine le_add_of_nonneg_of_le (Multiset.zero_le _) (add_le_add ?_ le_rfl)
    rw [otis, otis, htook.weight]
    exact Multiset.le_add_right _ _

theorem Accepts.call (hs : s.Valid) (h : s.Accepts) (c : Call) : (s.call c).Accepts := by
  cases c with
  | insertStreamPacket groupSeq kypacketSeq packet clock =>
    exact h.streamStep (insertStreamPacket_step hs.ordered groupSeq kypacketSeq packet clock)
  | insertDatagram groupSeq kypacketSeq x clock =>
    exact h.datagramStep (insertDatagram_step hs.ordered groupSeq kypacketSeq x clock)
  | takeNextPacket next now =>
    obtain ⟨a, s', htake, hstep⟩ := takeNextPacket_step hs.ordered next now
    simp only [PendingGroups.call, htake]
    exact h.takeStep hstep

theorem calls_accepts (rq : RaptorQ) (calls : List Call) :
    (calls.foldl call (new : PendingGroups rq)).Accepts := by
  induction calls using List.reverseRecOn with
  | nil => exact Accepts.new
  | append_singleton calls c ih =>
    rw [List.foldl_concat]
    exact ih.call (calls_valid rq calls).1 c

end PendingGroups

end Kymux.VideoFec
