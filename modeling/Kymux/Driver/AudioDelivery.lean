import Kymux.Driver.Audio
import Kymux.Driver.AudioHonest
import Kymux.Driver.VideoDelivery

namespace Kymux.Audio

open Av BigEndian Driver EventLoop Governed Plain

variable {codec : CodecPacket} {config : MediaPacket} {media calls : List Call}
  {record stream : Bytes} {sent : List AVPacket} {s s' : State} {is : List ℕ}
  {stats : ProtocolStats} {i now : ℕ} {frameSize : UInt16}

def after (next : ℕ) (is : List ℕ) : ℕ := is.getLast?.elim next (· + 1)

def heard (frameSize : UInt16) (sent : List AVPacket) : ℕ → List ℕ → List AVPacket
  | _, [] => []
  | next, i :: is =>
    (if next < i then [.hole ⟨⟨AudioState.missingAudioSamples (i - next) frameSize⟩⟩] else []) ++
      (sent[i]?.toList ++ heard frameSize sent (i + 1) is)

@[simp] theorem after_concat (next : ℕ) (is : List ℕ) (i : ℕ) : after next (is ++ [i]) = i + 1 := by
  simp [after]

theorem heard_concat (frameSize : UInt16) (sent : List AVPacket) (next : ℕ) (is : List ℕ) (i : ℕ) :
    heard frameSize sent next (is ++ [i]) = heard frameSize sent next is ++
      ((if after next is <
        i then [.hole ⟨⟨AudioState.missingAudioSamples (i - after next is) frameSize⟩⟩]
        else []) ++ sent[i]?.toList) := by
  induction is generalizing next with
  | nil =>
    rw [List.nil_append, heard, heard, heard, List.nil_append, List.append_nil]
    rfl
  | cons j is ih =>
    have hafter : after next (j :: is) = after (j + 1) is := by
      cases is with
      | nil => rfl
      | cons k is => rfl
    rw [List.cons_append, heard, ih, hafter, heard]
    simp only [List.append_assoc]

inductive Phase (codec : CodecPacket) (record : Bytes) (sent : List AVPacket) :
    Bytes → State → List ℕ → Prop
  | silent {s : State} (hframe : s.frameSize = none) (htx : s.txClient = [])
    (hconfig : s.pendingGroup.configPacket = .none) :
    Phase codec record sent (codecRecord codec ++ record) s []
  | announced {s : State} (hframe : s.frameSize = some codec.header.frameSize)
    (htx : s.txClient = [.codec codec]) (hconfig : s.pendingGroup.configPacket = .none) :
    Phase codec record sent record s []
  | hearing {s : State} {is : List ℕ} (hframe : s.frameSize = some codec.header.frameSize)
    (htx : s.txClient = .codec codec :: heard codec.header.frameSize sent 0 is) :
    Phase codec record sent [] s is

theorem Phase.congr (h : Phase codec record sent stream s is) (hframe : s'.frameSize = s.frameSize)
    (htx : s'.txClient = s.txClient)
    (hconfig : s'.pendingGroup.configPacket = s.pendingGroup.configPacket) :
    Phase codec record sent stream s' is := by
  cases h with
  | silent h₁ h₂ h₃ => exact .silent (hframe.trans h₁) (htx.trans h₂) (hconfig.trans h₃)
  | announced h₁ h₂ h₃ => exact .announced (hframe.trans h₁) (htx.trans h₂) (hconfig.trans h₃)
  | hearing h₁ h₂ => exact .hearing (hframe.trans h₁) (htx.trans h₂)

structure Hears (codec : CodecPacket) (record : Bytes) (calls : List Call) (stats : ProtocolStats)
    (stream : Bytes) (s : State) (is : List ℕ) : Prop where
  honest : Honest (packets calls) (Video.genuine calls) [⟨s.pendingGroup, 1⟩] s.nextKypacketSeq
    (is.filterMap ((packets calls)[·]?)) is
  newest : s.kypacketSequencer.newestSeq < 2 ^ 31
  next : s.nextKypacketSeq = after 0 is
  phase : Phase codec record (packets calls) stream s is
  dropped : s.protocolStats.droppedPackets.getD 0 + is.length =
    stats.droppedPackets.getD 0 + s.nextKypacketSeq

theorem number_of_lt (raw : UInt32) (hs : s.kypacketSequencer.newestSeq < 2 ^ 31)
    (hraw : raw.toNat < 2 ^ 31) :
    (s.number raw).kypacketSeq = raw.toNat ∧ (s.number raw).kypacketSequencer.newestSeq < 2 ^ 31 :=
  Sequencer.seq_of_lt (by decide) hs hraw

namespace Hears

theorem start (codec : CodecPacket) (record : Bytes) (calls : List Call) (stats : ProtocolStats) :
    Hears codec record calls stats (codecRecord codec ++ record) (.start .new stats) [] where
  honest := by
    refine ⟨⟨List.pairwise_singleton _ _, ?_⟩, ?_, .nil, by simp, rfl⟩
    · intro g hg
      obtain rfl := List.mem_singleton.mp hg
      exact Pending.Ordered.new
    · intro g hg
      obtain rfl := List.mem_singleton.mp hg
      exact .new
  newest := Nat.two_pow_pos 31
  next := rfl
  phase := .silent rfl rfl rfl
  dropped := rfl

theorem ordered (h : Hears codec record calls stats stream s is) : s.pendingGroup.Ordered :=
  h.honest.ordered.each _ (List.mem_singleton_self _)

theorem obeys (h : Hears codec record calls stats stream s is) :
    s.pendingGroup.Obeys
      (Driver.honest (packets calls) (Video.genuine calls) s.nextKypacketSeq is) 1 :=
  h.honest.waits _ (List.mem_singleton_self _)

/-- What waits changes, and the rest of what was delivered does not. -/
theorem store (h : Hears codec record calls stats stream s is) {p : PendingGroup} (hp : p.Ordered)
    (hobeys : p.Obeys
      (Driver.honest (packets calls) (Video.genuine calls) s.nextKypacketSeq is) 1) :
    Honest (packets calls) (Video.genuine calls) [⟨p, 1⟩] s.nextKypacketSeq
      (is.filterMap ((packets calls)[·]?)) is := by
  refine ⟨⟨List.pairwise_singleton _ _, ?_⟩, ?_, h.honest.inOrder, h.honest.behind,
    h.honest.delivered⟩
  · intro g hg
    obtain rfl := List.mem_singleton.mp hg
    exact hp
  · intro g hg
    obtain rfl := List.mem_singleton.mp hg
    exact hobeys

theorem take (h : Hears codec record calls stats stream s is) (now : ℕ) :
    ∃ s' is', s.take now = .ok (s', false) ∧ Hears codec record calls stats stream s' is' := by
  obtain ⟨a, p, htake, hstep⟩ :=
    Pending.takeNextPacket_step h.ordered maxBuffering s.nextKypacketSeq now
  rw [State.take, htake]
  cases hstep with
  | none | deadline =>
    exact ⟨_, is, rfl, h.honest, h.newest, h.next, h.phase.congr rfl rfl rfl, h.dropped⟩
  | @packet b taken p hpoll htook =>
    -- Something is taken once the config was read, and then the codec packet was, too.
    have hconfig : s.pendingGroup.configPacket ≠ .none := by
      intro hnone
      simp [Pending.poll, hnone, ConfigPacket.isNone] at hpoll
    have hsingle : [(⟨s.pendingGroup, 1⟩ : Driver.PendingGroup Unit Parts)] =
        [] ++ ⟨s.pendingGroup, 1⟩ :: [] := rfl
    have hhonest := h.honest.took hsingle hpoll htook
    obtain ⟨-, hpacket, hge, -⟩ := h.honest.canDeliver (List.mem_singleton_self _) hpoll htook
    have hlast : (is ++ [taken.kypacketSeq]).filterMap ((packets calls)[·]?) =
        is.filterMap ((packets calls)[·]?) ++ [taken.packet] := by
      rw [List.filterMap_append]
      simp [hpacket]
    rw [← hlast] at hhonest
    obtain ⟨hhon, hnewest, hnext, hphase, hdropped⟩ := h
    cases hphase with
    | silent _ _ hnone | announced _ _ hnone => exact absurd hnone hconfig
    | hearing hframe htx =>
      simp only [AudioState.forward, hframe]
      refine ⟨_, is ++ [taken.kypacketSeq], rfl, hhonest, hnewest, (after_concat _ _ _).symm,
        .hearing rfl ?_, ?_⟩
      · dsimp only
        rw [htx, heard_concat, hpacket, ← hnext, List.append_assoc, List.cons_append]
        rfl
      · dsimp only
        rw [List.length_append, List.length_singleton]
        split_ifs with hgt
        · rw [ProtocolStats.addDropped, Option.getD_some]
          omega
        · omega

end Hears

/-- The receiver, where a datagram comes with the place of its packet, which it does not see. -/
def labelled : Loop (Bytes × State) (Arrival (ℕ × Bytes) ℕ) ℕ Fault :=
  Driver.receiver process ((plainReaders recvStreamPacket parse .stream .datagram).comap Prod.snd)

namespace Hears

variable {x : Bytes × State}

theorem inner (h : Hears codec record calls stats x.1 x.2 is) (now : ℕ) :
    ∃ x' b, labelled.inner x now = .ok (x', b) ∧ ∃ is',
    Hears codec record calls stats x'.1 x'.2 is' := by
  obtain ⟨stream, s⟩ := x
  obtain ⟨s', is', htake, hears⟩ := h.take now
  refine ⟨(stream, s'), false, ?_, is', hears⟩
  simp only [labelled, Driver.receiver, process, htake, Except.map]

end Hears

section Small

def shortConfig : MediaPacket := ⟨⟨true, false, 0, 1⟩, [9]⟩

def shortMedia (pts : UInt64) : AVPacket := .media ⟨⟨false, false, pts, 3⟩, [1, 2, 3]⟩

def shortCalls : List Call := [⟨shortMedia 1, 7, some 38, none⟩, ⟨shortMedia 2, 7, some 38, none⟩]

def shortSent : List Outcome :=
  sendDriver.sendAll .start (⟨.media shortConfig, 7, some 38, none⟩ :: shortCalls)

end Small

end Kymux.Audio
