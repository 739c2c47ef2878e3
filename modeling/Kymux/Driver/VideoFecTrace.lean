import Kymux.Driver.InSequence
import Kymux.Driver.VideoFecRun

namespace Kymux.VideoFec

open Av Driver EventLoop Fec Timed

variable {rq : RaptorQ}

/-- What is to be seen of a run: the insertions, with their continued numbers, and the
packets that are sent to the client, with the number of the group that they waited in. -/
inductive Step
  | config (groupSeq kypacketSeq : ℕ) (packet : AVPacket)
  | datagram (groupSeq kypacketSeq : ℕ)
  | sentCodec (packet : AVPacket)
  | sentConfig (groupSeq kypacketSeq : ℕ) (packet : AVPacket)
  | sentMedia (groupSeq kypacketSeq : ℕ) (packet : AVPacket)
deriving DecidableEq

namespace Step

def ofTaken (groupSeq : ℕ) : Taken VideoObject (Parts rq) → Step
  | .config c => .sentConfig groupSeq c.kypacketSeq c.packet
  | .datagram d _ => .sentMedia groupSeq d.kypacketSeq d.packet

def client : Step → Option AVPacket
  | .sentCodec packet => some packet
  | .sentConfig _ _ packet => some packet
  | .sentMedia _ _ packet => some packet
  | _ => none

theorem client_ofTaken (groupSeq : ℕ) (taken : Taken VideoObject (Parts rq)) :
    client (ofTaken groupSeq taken) = some taken.packet := by
  cases taken <;> rfl

def forwarded : Step → Option ℕ
  | .sentConfig _ kypacketSeq _ => some kypacketSeq
  | .sentMedia _ kypacketSeq _ => some kypacketSeq
  | _ => none

end Step

namespace State

variable {s s' : State rq} {now : ℕ} {b : Bool} {input : Input Msg Clock}

def inserts (s : State rq) (n : VideoState.Numbers) (step : Step) : List Step :=
  if n.kypacketSeq ≥ s.nextKypacketSeq then [step] else []

def insertsConfig (s : State rq) (packet : AVPacket) (n : VideoState.Numbers) : List Step :=
  s.inserts n (.config n.groupSeq n.kypacketSeq packet)

def insertsDatagram (s : State rq) (n : VideoState.Numbers) : List Step :=
  s.inserts n (.datagram n.groupSeq n.kypacketSeq)

def received (s : State rq) : Input Msg Clock → List Step
  | .message (.ok (.stream msg)) _ =>
    if msg.packet.isCodec then [.sentCodec msg.packet]
    else s.insertsConfig msg.packet (s.numbers msg.rawKypacketSeq msg.rawGroupSeq)
  | .message (.ok (.datagram msg)) _ =>
    s.insertsDatagram (s.numbers msg.rawKypacketSeq msg.rawGroupSeq)
  | _ => []

def sentFrom (g : Group rq) (configPacket : Bool) : List Step :=
  match configPacket, g.configPacket, g.datagrams with
  | true, .ready c, _ => [.sentConfig g.groupSeq c.kypacketSeq c.packet]
  | false, _, d :: _ => [.sentMedia g.groupSeq d.kypacketSeq d.packet]
  | _, _, _ => []

def sent (s : State rq) (now : ℕ) : List Step :=
  match s.pendingGroups.nextPacket s.nextKypacketSeq now with
  | .ready ref =>
    match s.pendingGroups.pendingGroups[ref.pendingGroupIndex]? with
    | some g => sentFrom g ref.configPacket
    | none => []
  | _ => []

theorem sentFrom_took {g : Group rq} {c : Bool} {taken : Taken VideoObject (Parts rq)}
    {p : Queue rq} (h : Pending.Took g.toPending c taken p) :
    sentFrom g c = [Step.ofTaken g.groupSeq taken] := by
  cases h with
  | config hc => simp [sentFrom, hc, Step.ofTaken]
  | datagram _ hd _ _ _ => simp [sentFrom, hd, Step.ofTaken]

inductive Handled (s : State rq) : List Step → State rq → Prop
  | idle {t} (hgs : t.pendingGroups = s.pendingGroups)
    (hnext : t.nextKypacketSeq = s.nextKypacketSeq) (hstats : t.protocolStats = s.protocolStats) :
    Handled s [] t
  | codec {packet t} (hgs : t.pendingGroups = s.pendingGroups)
    (hnext : t.nextKypacketSeq = s.nextKypacketSeq) (hstats : t.protocolStats = s.protocolStats) :
    Handled s [.sentCodec packet] t
  | config {groupSeq kypacketSeq packet clock t} (hge : s.nextKypacketSeq ≤ kypacketSeq)
    (hstep : PendingGroups.StreamStep s.pendingGroups groupSeq kypacketSeq packet clock (.ok ())
      t.pendingGroups)
    (hnext : t.nextKypacketSeq = s.nextKypacketSeq) (hstats : t.protocolStats = s.protocolStats) :
    Handled s [.config groupSeq kypacketSeq packet] t
  | datagram {groupSeq kypacketSeq x clock t} (hge : s.nextKypacketSeq ≤ kypacketSeq)
    (hstep : PendingGroups.DatagramStep s.pendingGroups groupSeq kypacketSeq x clock (.ok ())
      t.pendingGroups)
    (hnext : t.nextKypacketSeq = s.nextKypacketSeq) (hstats : t.protocolStats = s.protocolStats) :
    Handled s [.datagram groupSeq kypacketSeq] t

theorem Selected.handled (h : Selected s input s' b) : Handled s (s.received input) s' := by
  cases h with
  | timer => exact .idle rfl rfl rfl
  | codec hc =>
    simp only [received, hc, if_true]
    exact .codec rfl rfl rfl
  | @lateStream msg clock n hc hn hlt =>
    simp only [received, hc, Bool.false_eq_true, if_false, ← hn, insertsConfig, inserts, ge_iff_le,
      not_le.mpr hlt]
    exact .idle (by simp) (by simp) (by simp)
  | @stream msg clock n gs hc hn hge hstep =>
    simp only [received, hc, Bool.false_eq_true, if_false, ← hn, insertsConfig, inserts, ge_iff_le,
      hge, if_true]
    exact .config hge (by simpa using hstep) (by simp) (by simp)
  | @lateDatagram msg clock n hn hlt =>
    simp only [received, ← hn, insertsDatagram, inserts, ge_iff_le, not_le.mpr hlt, if_false]
    exact .idle (by simp) (by simp) (by simp)
  | @datagram msg clock n gs hn hge hstep =>
    simp only [received, ← hn, insertsDatagram, inserts, ge_iff_le, hge, if_true]
    exact .datagram hge (by simpa using hstep) (by simp) (by simp)

theorem Selected.client (h : Selected s input s' b) :
    s'.txClient = s.txClient ++ (s.received input).filterMap Step.client := by
  cases h with
  | timer => simp [received]
  | codec hc => simp [received, hc, Step.client]
  | lateStream hc hn hlt =>
    simp [received, hc, ← hn, insertsConfig, inserts, not_le.mpr hlt]
  | stream hc hn hge _ => simp [received, hc, ← hn, insertsConfig, inserts, hge, Step.client]
  | lateDatagram hn hlt => simp [received, ← hn, insertsDatagram, inserts, not_le.mpr hlt]
  | datagram hn hge _ => simp [received, ← hn, insertsDatagram, inserts, hge, Step.client]

inductive Forwards (s : State rq) (now : ℕ) : List Step → State rq → Prop
  | idle {t} (hgs : t.pendingGroups = s.pendingGroups)
    (hnext : t.nextKypacketSeq = s.nextKypacketSeq) (hstats : t.protocolStats = s.protocolStats)
    (htx : t.txClient = s.txClient) : Forwards s now [] t
  | packet {drained g rest c taken p stats}
    (hgs : s.pendingGroups.pendingGroups = drained ++ g :: rest)
    (hpoll : g.poll s.pendingGroups.pendingGroups.minInstant maxBuffering s.nextKypacketSeq now =
      .ready c)
    (htook : Pending.Took g.toPending c taken p) :
    Forwards s now [Step.ofTaken g.groupSeq taken]
      (s.deliver taken.kypacketSeq taken.packet stats
        { s.pendingGroups with pendingGroups := ⟨p, g.groupSeq⟩ :: rest, retiredStats := 0 })

theorem Forwards.client {steps : List Step} (h : Forwards s now steps s') :
    s'.txClient = s.txClient ++ steps.filterMap Step.client := by
  cases h with
  | idle _ _ _ htx => simp [htx]
  | packet _ _ _ => simp [deliver, VideoState.forward, Step.client_ofTaken]

theorem Drained.forwards (h : Drained s now s' b) : Forwards s now (s.sent now) s' := by
  cases h with
  | none hnext | deadline hnext =>
    simp only [sent, hnext]
    exact .idle rfl rfl rfl rfl
  | packet hgs hnext hpoll htook =>
    have hget : ∀ {drained rest : Groups VideoObject (Parts rq)} {g : Group rq},
        (drained ++ g :: rest)[drained.length]? = some g := by simp
    simp only [sent, hnext, hgs, hget, sentFrom_took htook]
    exact .packet hgs hpoll htook

end State

def traced (rq : RaptorQ) : Loop (State rq × List Step) (Input Msg Clock) ℕ Fault :=
  (process rq).observed (fun tr s input _ ↦ tr ++ s.received input)
    (fun tr s now _ ↦ tr ++ s.sent now)

/-- The induction rule of traced runs: one case for an input and one for a turn of the
drain, both from a valid state. -/
theorem traced_induction {stats : ProtocolStats} {es : List (Event (Input Msg Clock) ℕ)}
    {s : State rq} {tr : List Step} {P : State rq → List Step → Prop}
    (hstart : P (.start .new stats) [])
    (hhandled : ∀ s s' tr steps, s.pendingGroups.Valid → P s tr → State.Handled s steps s' →
      P s' (tr ++ steps))
    (hforwards : ∀ s s' now tr steps, s.pendingGroups.Valid → P s tr →
      State.Forwards s now steps s' → P s' (tr ++ steps))
    (h : (traced rq).At (.start .new stats, []) es (s, tr)) : P s tr := by
  refine (At.invariant (P := fun w ↦ w.1.pendingGroups.Valid ∧ P w.1 w.2) ?_ ?_ ?_ h).2
  · exact ⟨PendingGroups.Valid.new, hstart⟩
  · rintro ⟨s, tr⟩ input ⟨s', tr'⟩ b ⟨hv, hP⟩ hturn
    obtain ⟨hsel, rfl⟩ := observed_select hturn
    exact ⟨State.valid_selected hv hsel,
      hhandled s s' tr _ hv hP (State.select_selected hv.ordered hsel).handled⟩
  · rintro ⟨s, tr⟩ now ⟨s', tr'⟩ b ⟨hv, hP⟩ hturn
    obtain ⟨hinner, rfl⟩ := observed_inner hturn
    exact ⟨State.valid_drained hv hinner,
      hforwards s s' now tr _ hv hP (State.drain_drained hv.ordered hinner).forwards⟩

theorem client_of_traced {stats : ProtocolStats} {es : List (Event (Input Msg Clock) ℕ)}
    {s : State rq} {tr : List Step} (h : (traced rq).At (.start .new stats, []) es (s, tr)) :
    s.txClient = tr.filterMap Step.client := by
  refine (At.invariant (P := fun w ↦ w.1.pendingGroups.Valid ∧
    w.1.txClient = w.2.filterMap Step.client) ?_ ?_ ?_ h).2
  · exact ⟨PendingGroups.Valid.new, rfl⟩
  · rintro ⟨s, tr⟩ input ⟨s', tr'⟩ b ⟨hv, hP⟩ hturn
    obtain ⟨hsel, rfl⟩ := observed_select hturn
    refine ⟨State.valid_selected hv hsel, ?_⟩
    rw [List.filterMap_append, ← hP]
    exact (State.select_selected hv.ordered hsel).client
  · rintro ⟨s, tr⟩ now ⟨s', tr'⟩ b ⟨hv, hP⟩ hturn
    obtain ⟨hinner, rfl⟩ := observed_inner hturn
    refine ⟨State.valid_drained hv hinner, ?_⟩
    rw [List.filterMap_append, ← hP]
    exact (State.drain_drained hv.ordered hinner).forwards.client

section Small

def noStats : ProtocolStats := ⟨none, none, none, none⟩

def smallConfig : AVPacket := .media ⟨⟨true, false, 0, 0⟩, []⟩

def smallMedia : AVPacket := .media ⟨⟨false, false, 0, 0⟩, []⟩

def smallSymbol : Symbol := ⟨⟨12, 16, 1, 1, 1⟩, ⟨0, 0⟩, 0x80 :: List.replicate 15 0⟩

def configEvent (kypacketSeq : UInt32) : Event (Input Msg Clock) ℕ :=
  ⟨.message (.ok (.stream ⟨smallConfig, kypacketSeq, 1⟩)) ⟨0, 0, 0⟩, fun _ ↦ 0⟩

def mediaEvent (kypacketSeq : UInt32) : Event (Input Msg Clock) ℕ :=
  ⟨.message (.ok (.datagram ⟨smallSymbol, kypacketSeq, 1⟩)) ⟨0, 0, 0⟩, fun _ ↦ 0⟩

/-- A config and a media packet of one group with these numbers, and then the time when
nothing is waited for any longer. -/
def groupEvents (config media : UInt32) : List (Event (Input Msg Clock) ℕ) :=
  [configEvent config, mediaEvent media, ⟨.timer, fun _ ↦ maxBuffering⟩]

def lateConfigEvents (config media : UInt32) : List (Event (Input Msg Clock) ℕ) :=
  [mediaEvent media, configEvent config]

end Small

end Kymux.VideoFec
